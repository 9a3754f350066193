import Libatp.Base64.Decode

/-!
# What the decoder makes of any text

A text that the decoder gets through means the bits that its letters spell, in sixes, up to
the first other character; the bytes are the whole groups of eight, and what is left over is
dropped. Nothing is refused: the padding may be missing or too long, something may follow it,
and the bits that are dropped need not be zero. `Canonical` are the texts of RFC 4648 among
them, sections 3.2 and 3.5: exactly those that the encoder makes of the decoded bytes again.
-/

namespace Libatp.Base64
open Base

/-- The whole bytes of a bit string. -/
def wholeBytes (l : List Bool) : List Byte :=
  (groups 8 l).map fun g => BitVec.ofNat 8 (spelled g)

def letterBits (text : List Byte) : List Bool :=
  (legible text).flatMap fun ch => bits 6 (char2Base ch).toNat

/-! ## Sixes and eights -/

theorem ofNat_congr {m n : Nat} (same : m % 2 ^ 8 = n % 2 ^ 8) :
    BitVec.ofNat 8 m = BitVec.ofNat 8 n := by
  apply BitVec.eq_of_toNat_eq
  rw [BitVec.toNat_ofNat, BitVec.toNat_ofNat, same]

theorem wholeBytes_bits (m n : Nat) (l : List Bool) :
    wholeBytes (bits (8 + m) n ++ l) =
      BitVec.ofNat 8 (n / 2 ^ m) :: wholeBytes (bits m n ++ l) := by
  have first : BitVec.ofNat 8 (spelled (bits 8 (n / 2 ^ m))) = BitVec.ofNat 8 (n / 2 ^ m) := by
    apply ofNat_congr
    rw [spelled_bits, Nat.mod_mod]
  rw [wholeBytes, groups_bits (by decide), List.map_cons, first, wholeBytes]

theorem wholeBytes_short {l : List Bool} (short : l.length < 8) : wholeBytes l = [] := by
  rw [wholeBytes, groups_short short, List.map_nil]

theorem wholeBytes_group (n : Nat) (l : List Bool) :
    wholeBytes (bits 24 n ++ l) =
      BitVec.ofNat 8 (n / 2 ^ 16) :: BitVec.ofNat 8 (n / 2 ^ 8) :: BitVec.ofNat 8 n ::
        wholeBytes l := by
  have last : wholeBytes (bits 8 n ++ l) = BitVec.ofNat 8 n :: wholeBytes l := by
    have one := wholeBytes_bits 0 n l
    rwa [Nat.pow_zero, Nat.div_one] at one
  rw [wholeBytes_bits 16, wholeBytes_bits 8, last]

/-- Two letters side by side. -/
theorem join_two {a b : Byte} (ha : a.toNat < 2 ^ 6) (hb : b.toNat < 2 ^ 6) {k : Nat}
    (two : 2 ≤ k) (six : k ≤ 6) :
    a <<< k ||| b >>> (6 - k) = BitVec.ofNat 8 ((a.toNat * 2 ^ 6 + b.toNat) / 2 ^ (6 - k)) := by
  have joined := join_letters (a.toNat * 2 ^ 6 + b.toNat) two six
  rwa [show (a.toNat * 2 ^ 6 + b.toNat) / 2 ^ 6 % 2 ^ 6 = a.toNat by omega,
    show (a.toNat * 2 ^ 6 + b.toNat) % 2 ^ 6 = b.toNat by omega, BitVec.ofNat_toNat,
    BitVec.ofNat_toNat, BitVec.setWidth_eq, BitVec.setWidth_eq] at joined

/-- What the decoder writes, letter by letter, is the bytes that the letters spell. -/
theorem drain_wholeBytes : ∀ (cs : List Byte) {i : Nat} (t : Byte), i % 4 = 0 →
    (∀ c ∈ cs, c.toNat < 2 ^ 6) → drain i t cs = wholeBytes (cs.flatMap fun c => bits 6 c.toNat)
  | [], _, _, _, _ => (wholeBytes_short (by decide)).symm
  | [a], _, _, start, _ => by
    have left : wholeBytes (bits 6 a.toNat ++ []) = [] := wholeBytes_short (by simp)
    rw [List.flatMap_cons, List.flatMap_nil, left]
    simp only [drain, emit, start, List.append_nil]
  | [a, b], _, _, start, small => by
    simp only [List.forall_mem_cons] at small
    obtain ⟨ha, hb, -⟩ := small
    have left : wholeBytes (bits 4 (a.toNat * 2 ^ 6 + b.toNat) ++ []) = [] :=
      wholeBytes_short (by simp)
    rw [List.flatMap_cons, List.flatMap_cons, List.flatMap_nil, ← List.append_assoc,
      bits_append _ _ hb, wholeBytes_bits 4, left, drain_two start]
    exact congrArg (· :: []) (join_two ha hb (k := 2) (by decide) (by decide))
  | [a, b, c], _, _, start, small => by
    simp only [List.forall_mem_cons] at small
    obtain ⟨ha, hb, hc, -⟩ := small
    have first := join_two ha hb (k := 2) (by decide) (by decide)
    have second := join_two hb hc (k := 4) (by decide) (by decide)
    have left : wholeBytes (bits 2 ((a.toNat * 2 ^ 6 + b.toNat) * 2 ^ 6 + c.toNat) ++ []) = [] :=
      wholeBytes_short (by simp)
    rw [List.flatMap_cons, List.flatMap_cons, List.flatMap_cons, List.flatMap_nil,
      ← List.append_assoc, ← List.append_assoc, bits_append _ _ hb, bits_append _ _ hc,
      wholeBytes_bits 10, wholeBytes_bits 2, left, drain_three start]
    congr 1
    · refine first.trans (ofNat_congr ?_)
      omega
    · congr 1
      refine second.trans (ofNat_congr ?_)
      omega
  | a :: b :: c :: d :: rest, i, _, start, small => by
    simp only [List.forall_mem_cons] at small
    obtain ⟨ha, hb, hc, hd, others⟩ := small
    have first := join_two ha hb (k := 2) (by decide) (by decide)
    have second := join_two hb hc (k := 4) (by decide) (by decide)
    have third := join_two hc hd (k := 6) (by decide) (by decide)
    rw [List.flatMap_cons, List.flatMap_cons, List.flatMap_cons, List.flatMap_cons,
      ← List.append_assoc, ← List.append_assoc, ← List.append_assoc, bits_append _ _ hb,
      bits_append _ _ hc, bits_append _ _ hd, wholeBytes_group, drain_four start,
      ← drain_wholeBytes rest (c <<< 6) (show (i + 4) % 4 = 0 by omega) others]
    congr 1
    · refine first.trans (ofNat_congr ?_)
      omega
    congr 1
    · refine second.trans (ofNat_congr ?_)
      omega
    congr 1
    refine third.trans (ofNat_congr ?_)
    omega

/-! ## The meaning of a text -/

theorem char2Base_small {ch : Byte} (plain : char2Base ch ≠ 64) : (char2Base ch).toNat < 2 ^ 6 := by
  have table : ∀ ch : Byte, char2Base ch ≠ 64 → (char2Base ch).toNat < 2 ^ 6 := by decide
  exact table ch plain

theorem letter_char2Base {ch : Byte} (plain : char2Base ch ≠ 64) :
    letter (char2Base ch).toNat = ch := by
  have table : ∀ ch : Byte, char2Base ch ≠ 64 → letter (char2Base ch).toNat = ch := by decide
  exact table ch plain

theorem drain_legible (text : List Byte) :
    drain 0 0 ((legible text).map char2Base) = wholeBytes (letterBits text) := by
  have small : ∀ c ∈ (legible text).map char2Base, c.toNat < 2 ^ 6 := by
    intro c mem
    obtain ⟨ch, there, rfl⟩ := List.mem_map.mp mem
    exact char2Base_small (legible_plain there)
  rw [drain_wholeBytes _ 0 rfl small, List.flatMap_map, letterBits]

/-- **The meaning of a text.** Every text that the decoder gets through stands for the bits of
the letters before its first other character, and the decoder returns their whole bytes. -/
theorem base64Decode_bits {text : List Byte} (some : text ≠ []) (stops : Stops text)
    (small : text.length < 2 ^ 31) {fuel : Nat} (enough : text.length < fuel) (old : List Byte) :
    base64Decode fuel text (.some old) =
      .some (.ok (true, .some (wholeBytes (letterBits text)))) := by
  obtain ⟨sized, room⟩ := decode_fits small
  rw [base64Decode_text some stops sized room enough, drain_legible]

/-- No padding, and then a group that is cut off. -/
theorem base64Decode_bits_unpadded :
    base64Decode 7 (['Z', 'm', '9', 'v', 'Y', 'g'].map byteOf) (some []) =
        some (.ok (true, some (['f', 'o', 'o', 'b'].map byteOf))) ∧
      base64Decode 7 (['Z', 'g', '=', 'x', '!'].map byteOf) (some []) =
        some (.ok (true, some [byteOf 'f'])) :=
  ⟨base64Decode_bits (by decide) (by decide) (by decide) (by decide) [],
    base64Decode_bits (by decide) (by decide) (by decide) (by decide) []⟩

/-! ## Canonical texts -/

/-- No letter is alone in the last group, the padding fills that group and nothing follows, and
the bits that make no byte are zero. -/
structure Canonical (text : List Byte) : Prop where
  whole : (legible text).length % 4 ≠ 1
  padded : text = legible text ++ List.replicate ((4 - (legible text).length % 4) % 4) pad
  zeros : ∀ b ∈ (letterBits text).drop (8 * ((letterBits text).length / 8)), b = false

instance (text : List Byte) : Decidable (Canonical text) :=
  decidable_of_iff (_ ∧ _ ∧ _) ⟨fun h => ⟨h.1, h.2.1, h.2.2⟩, fun h => ⟨h.1, h.2, h.3⟩⟩

theorem letterBits_length (text : List Byte) :
    (letterBits text).length = 6 * (legible text).length := by
  rw [letterBits]
  induction legible text with
  | nil => rfl
  | cons ch rest ih =>
    rw [List.flatMap_cons, List.length_append, bits_length, ih, List.length_cons]
    omega

theorem wholeBytes_length (l : List Bool) : (wholeBytes l).length = l.length / 8 := by
  rw [wholeBytes, List.length_map, groups, List.length_map, List.length_range]

theorem bitString_wholeBytes (l : List Bool) :
    bitString (wholeBytes l) = l.take (8 * (l.length / 8)) := by
  have back : ∀ g ∈ groups 8 l, bits 8 (BitVec.ofNat 8 (spelled g)).toNat = g := by
    intro g mem
    have inverse := bits_spelled g
    rw [length_of_mem_groups mem] at inverse
    rw [BitVec.toNat_ofNat, bits_mod, inverse]
  rw [bitString, wholeBytes, List.flatMap_map, List.flatMap_congr back, List.flatMap_id',
    groups_flatten (by decide)]

/-- The letters of a text in the standard alphabet. -/
theorem letters_legible (text : List Byte) :
    ((groups 6 (letterBits text)).map spelled).map letter = legible text := by
  rw [letterBits, groups_flatMap (by decide), List.map_map, List.map_map]
  refine (List.map_congr_left fun ch mem => ?_).trans (List.map_id _)
  have plain := legible_plain mem
  show letter (spelled (bits 6 (char2Base ch).toNat)) = ch
  rw [spelled_bits, Nat.mod_eq_of_lt (char2Base_small plain), letter_char2Base plain]

/-- What `k` letters leave over is what the encoder fills up, and so with the last group. -/
theorem leftover {k : Nat} (whole : k % 4 ≠ 1) :
    6 * k - 8 * (6 * k / 8) = (6 - 8 * (6 * k / 8) % 6) % 6 ∧
      (3 - 6 * k / 8 % 3) % 3 = (4 - k % 4) % 4 := by
  obtain ⟨q, rfl | rfl | rfl⟩ : ∃ q, k = 4 * q ∨ k = 4 * q + 2 ∨ k = 4 * q + 3 :=
    ⟨k / 4, by omega⟩
  · have bytes : 6 * (4 * q) / 8 = 3 * q := by omega
    rw [bytes]
    omega
  · have bytes : 6 * (4 * q + 2) / 8 = 3 * q + 1 := by omega
    rw [bytes]
    omega
  · have bytes : 6 * (4 * q + 3) / 8 = 3 * q + 2 := by omega
    rw [bytes]
    omega

/-- A canonical text is the encoding of what it means. -/
theorem Canonical.encodes {text : List Byte} (h : Canonical text) :
    rfc4648 (wholeBytes (letterBits text)) = text := by
  have size := letterBits_length text
  have alone := h.whole
  generalize letters_ : (legible text).length = k at size alone
  have filled : fill 6 (bitString (wholeBytes (letterBits text))) = letterBits text := by
    have left : (letterBits text).drop (8 * ((letterBits text).length / 8)) =
        List.replicate ((6 - 8 * (6 * k / 8) % 6) % 6) false := by
      refine List.eq_replicate_iff.mpr ⟨?_, h.zeros⟩
      rw [List.length_drop, size, (leftover alone).1]
    have short : 8 * (6 * k / 8) ≤ 6 * k := Nat.mul_div_le _ _
    rw [bitString_wholeBytes, fill, List.length_take, size, Nat.min_eq_left short, ← left, size,
      List.take_append_drop]
  rw [rfc4648, sextets, filled, letters_legible, wholeBytes_length, size]
  rw [(leftover alone).2, ← letters_]
  exact h.padded.symm

/-! ## The encoder writes canonical texts -/

theorem fill_length (l : List Bool) : (fill 6 l).length = l.length + (6 - l.length % 6) % 6 := by
  rw [fill, List.length_append, List.length_replicate]

theorem bitString_length (s : List Byte) : (bitString s).length = 8 * s.length := by
  induction s with
  | nil => rfl
  | cons b s ih =>
    rw [bitString_cons, List.length_append, bits_length, ih, List.length_cons]
    omega

/-- The letters of an encoding, before its padding. -/
theorem legible_rfc4648 (s : List Byte) : legible (rfc4648 s) = (sextets s).map letter := by
  have plain : ∀ ch ∈ (sextets s).map letter, char2Base ch ≠ 64 := by
    intro ch mem
    obtain ⟨v, there, rfl⟩ := List.mem_map.mp mem
    obtain ⟨g, group, rfl⟩ := List.mem_map.mp there
    have table : ∀ v < 2 ^ 6, char2Base (letter v) ≠ 64 := by decide
    refine table _ ?_
    have inverse := bits_spelled g
    rw [length_of_mem_groups group] at inverse
    rw [← inverse, spelled_bits]
    exact Nat.mod_lt _ (by decide)
  have pads (n : Nat) : legible (List.replicate n pad) = [] := by
    cases n with
    | zero => rfl
    | succ n => rfl
  rw [rfc4648, legible_append plain, pads, List.append_nil]

theorem letterBits_rfc4648 (s : List Byte) : letterBits (rfc4648 s) = fill 6 (bitString s) := by
  have back : ∀ g ∈ groups 6 (fill 6 (bitString s)),
      bits 6 (char2Base (letter (spelled g))).toNat = g := by
    intro g mem
    have inverse := bits_spelled g
    rw [length_of_mem_groups mem] at inverse
    have small : spelled g = spelled g % 2 ^ 6 := by
      rw [← spelled_bits, inverse]
    rw [small, char2Base_letter, BitVec.toNat_ofNat, ← small]
    have low : spelled g % 2 ^ 8 = spelled g := by
      have bound := Nat.mod_lt (spelled g) (show 0 < 2 ^ 6 by decide)
      omega
    rw [low, inverse]
  have size := fill_length (bitString s)
  have whole : 6 * ((fill 6 (bitString s)).length / 6) = (fill 6 (bitString s)).length := by
    omega
  rw [letterBits, legible_rfc4648, sextets, List.flatMap_map, List.flatMap_map,
    List.flatMap_congr back, List.flatMap_id', groups_flatten (by decide), whole,
    List.take_length]

theorem canonical_rfc4648 (s : List Byte) : Canonical (rfc4648 s) := by
  have bytes := bitString_length s
  have size := fill_length (bitString s)
  have letters_ : (legible (rfc4648 s)).length = (fill 6 (bitString s)).length / 6 := by
    rw [legible_rfc4648, List.length_map, sextets, List.length_map, groups, List.length_map,
      List.length_range]
  have split : ∃ q, s.length = 3 * q ∨ s.length = 3 * q + 1 ∨ s.length = 3 * q + 2 :=
    ⟨s.length / 3, by omega⟩
  rw [bytes] at size
  constructor
  · rw [letters_, size]
    obtain ⟨q, h | h | h⟩ := split <;> rw [h] <;> omega
  · have pads : (3 - s.length % 3) % 3 = (4 - (fill 6 (bitString s)).length / 6 % 4) % 4 := by
      rw [size]
      obtain ⟨q, h | h | h⟩ := split <;> rw [h] <;> omega
    rw [letters_, legible_rfc4648, ← pads]
    rfl
  · rw [letterBits_rfc4648]
    have end_ : 8 * ((fill 6 (bitString s)).length / 8) = (bitString s).length := by
      rw [size, bytes]
      omega
    rw [end_, fill, List.drop_left]
    intro b mem
    exact List.eq_of_mem_replicate mem

theorem rfc4648_iff_canonical (text : List Byte) :
    rfc4648 (wholeBytes (letterBits text)) = text ↔ Canonical text := by
  constructor
  · intro same
    rw [← same]
    exact canonical_rfc4648 _
  · exact Canonical.encodes

theorem Canonical.stops {text : List Byte} (h : Canonical text) : Stops text := by
  intro ch last
  have there := h.padded
  generalize legible text = front at there last
  generalize (4 - front.length % 4) % 4 = n at there
  rw [there, Option.mem_def, List.getElem?_append_right (Nat.le_refl _)] at last
  exact .inl (List.eq_of_mem_replicate (List.mem_of_getElem? last))

/-- **Which texts survive.** Decoding a text and encoding the result gives the text again
exactly if it is canonical; any other text that is decoded is another spelling of the same
bytes. -/
theorem base64_reencode_iff {text : List Byte} (some : text ≠ []) (small : text.length < 2 ^ 30)
    {fuel : Nat} (enough : text.length < fuel) (old old' : List Byte) :
    (∃ s, base64Decode fuel text (.some old) = .some (.ok (true, .some s)) ∧
      base64Encode s (.some old') = .ok (true, .some text)) ↔ Canonical text := by
  have means (stops : Stops text) := base64Decode_bits some stops (by omega) enough old
  have fewer : (wholeBytes (letterBits text)).length < 2 ^ 30 := by
    have letters_ : (legible text).length ≤ text.length := (List.takeWhile_prefix _).length_le
    rw [wholeBytes_length, letterBits_length]
    omega
  constructor
  · rintro ⟨s, decoded, encodes⟩
    have stops : Stops text := by
      by_contra stuck
      have never := base64Decode_hangs ((hangs_iff_of_small (by omega) old).mpr stuck) fuel
      cases never.symm.trans decoded
    cases (means stops).symm.trans decoded
    have nonempty : wholeBytes (letterBits text) ≠ [] := by
      intro none_
      rw [none_] at encodes
      cases encodes
    have encoding := (base64Encode_rfc4648 _ old' nonempty fewer).1
    rw [encoding] at encodes
    have same := Option.some.inj (Prod.mk.inj (Except.ok.inj encodes)).2
    exact (rfc4648_iff_canonical text).mp same
  · intro h
    have encodes := h.encodes
    have nonempty : wholeBytes (letterBits text) ≠ [] := by
      intro none_
      rw [none_] at encodes
      exact some encodes.symm
    refine ⟨_, means h.stops, ?_⟩
    rw [(base64Encode_rfc4648 _ old' nonempty fewer).1, encodes]

/-- "f", and another spelling of it. -/
theorem base64_reencode_f :
    (∃ s, base64Decode 5 (['Z', 'g', '=', '='].map byteOf) (some []) =
        some (.ok (true, some s)) ∧
      base64Encode s (some []) = .ok (true, some (['Z', 'g', '=', '='].map byteOf))) ∧
    ¬ ∃ s, base64Decode 5 (['Z', 'h', '=', '='].map byteOf) (some []) =
        some (.ok (true, some s)) ∧
      base64Encode s (some []) = .ok (true, some (['Z', 'h', '=', '='].map byteOf)) := by
  constructor
  · exact (base64_reencode_iff (by decide) (by decide) (by decide) [] []).mpr (by decide)
  · rw [base64_reencode_iff (by decide) (by decide) (by decide) [] []]
    decide

end Libatp.Base64
