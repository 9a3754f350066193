import Mathlib.Data.List.TakeWhile
import Libatp.Base64.Encode

/-!
# The decoder

The decoder reads letters up to the first character outside the alphabet. There it
stops, if that is a `=` or a NUL; on any other character its inner loop does not end.
`drain` is what it writes, as a list: the byte each letter completes, and the bits that
wait for the next letter.
-/

namespace Libatp.Base64
open Base

/-- The bytes the letter at `i` completes, over the bits `t` of the letters before it. -/
def emit (i : Nat) (t c : Byte) : List Byte :=
  match i % 4 with
  | 0 => []
  | 1 => [t ||| c >>> 4]
  | 2 => [t ||| c >>> 2]
  | _ => [t ||| c]

def carry (i : Nat) (t c : Byte) : Byte :=
  match i % 4 with
  | 0 => c <<< 2
  | 1 => c <<< 4
  | 2 => c <<< 6
  | _ => t

def drain : Nat → Byte → List Byte → List Byte
  | _, _, [] => []
  | i, t, c :: cs => emit i t c ++ drain (i + 1) (carry i t c) cs

/-- The bits that wait after all of the letters. -/
def carried : Nat → Byte → List Byte → Byte
  | _, t, [] => t
  | i, t, c :: cs => carried (i + 1) (carry i t c) cs

/-- The letters before the first other character. -/
def legible (src : List Byte) : List Byte := src.takeWhile fun ch => char2Base ch ≠ 64

def decodedLength (k : Nat) : Nat := k / 4 * 3 + (k % 4 - 1)

theorem phases (i : Nat) : i % 4 = 0 ∨ i % 4 = 1 ∨ i % 4 = 2 ∨ i % 4 = 3 := by
  omega

theorem emit_length (i : Nat) (t c : Byte) :
    decodedLength i + (emit i t c).length = decodedLength (i + 1) := by
  unfold emit decodedLength
  obtain h | h | h | h := phases i
  all_goals
    simp only [h, List.length_nil, List.length_singleton]
    omega

theorem drain_length (i : Nat) (t : Byte) (cs : List Byte) :
    decodedLength i + (drain i t cs).length = decodedLength (i + cs.length) := by
  induction cs generalizing i t with
  | nil => rfl
  | cons c cs ih =>
    rw [drain, List.length_append, ← Nat.add_assoc, emit_length, ih, List.length_cons,
      Nat.add_right_comm i 1, Nat.add_assoc]

/-! ## One pass of the loop -/

theorem decodeStep_eq (i p : Nat) (c t : Byte) (mem : List Byte) (room : p ≤ mem.length) :
    decodeStep i p c t mem =
      if p + (emit i t c).length ≤ mem.length then
        .ok (p + (emit i t c).length, carry i t c, splice mem p (emit i t c))
      else .error .outOfBounds := by
  have one (b t : Byte) : (do
      let mem ← store mem p [b]
      .ok (p + 1, t, mem) : Checked (Nat × Byte × List Byte)) =
      if p + 1 ≤ mem.length then .ok (p + 1, t, splice mem p [b]) else .error .outOfBounds := by
    by_cases fits : p + 1 ≤ mem.length
    · rw [store_ok fits, if_pos fits]
      rfl
    · rw [if_neg fits, store, List.length_singleton, if_neg fits]
      rfl
  unfold decodeStep emit carry
  obtain h | h | h | h := phases i
  · simp [h, splice, room]
  all_goals
    simp only [h, List.length_singleton]
    exact one _ _

theorem char2Base_ne (ch : Byte) : char2Base ch ≠ 65 := by
  revert ch
  decide

theorem classify_legible {ch : Byte} (plain : char2Base ch ≠ 64) (fuel : Nat) :
    classify ch (fuel + 1) = some (char2Base ch) := by
  have nonzero : ch ≠ 0 := by
    rintro rfl
    exact plain rfl
  simp only [classify, if_pos nonzero, if_neg plain]

/-- The inner loop does not leave a character that is neither a letter nor a NUL. -/
theorem classify_stuck {ch : Byte} (other : char2Base ch = 64) (nonzero : ch ≠ 0) (fuel : Nat) :
    classify ch fuel = none := by
  induction fuel with
  | zero => rfl
  | succ fuel ih => simp only [classify, if_pos nonzero, if_pos other, ih]

theorem classify_more {ch c : Byte} {fuel : Nat} (done : classify ch fuel = some c) (k : Nat) :
    classify ch (fuel + k) = some c := by
  induction fuel with
  | zero => cases done
  | succ fuel ih =>
    rw [Nat.add_right_comm]
    rw [classify] at done ⊢
    generalize (if ch ≠ 0 then char2Base ch else 65) = value at done ⊢
    by_cases again : value = 64
    · rw [if_pos again] at done ⊢
      exact ih done
    · rw [if_neg again] at done ⊢
      exact done

/-- Fuel that is left over changes nothing. -/
theorem decodeLoop_more {src : List Byte} {fuel i p : Nat} {t : Byte} {mem : List Byte}
    {out : Checked (Nat × List Byte)} (done : decodeLoop src fuel i p t mem = some out) (k : Nat) :
    decodeLoop src (fuel + k) i p t mem = some out := by
  induction fuel generalizing i p t mem with
  | zero => cases done
  | succ fuel ih =>
    rw [Nat.add_right_comm]
    simp only [decodeLoop] at done ⊢
    split at done
    · exact done
    · split at done
      · rename_i equals
        rw [if_pos equals]
        exact done
      · rename_i letter
        rw [if_neg letter]
        split at done
        · cases done
        · rename_i c read
          rw [← Nat.add_right_comm, classify_more read k]
          simp only
          split at done
          · rename_i nul
            rw [if_pos nul]
            exact done
          · rename_i value
            rw [if_neg value]
            split at done
            · exact done
            · exact ih done

/-- One pass of the loop, over a letter. -/
theorem decodeLoop_letter {src : List Byte} {i p : Nat} {ch : Byte} (t : Byte) {mem : List Byte}
    (at_i : src[i]? = some ch) (legible : char2Base ch ≠ 64) (room : p ≤ mem.length) (fuel : Nat) :
    decodeLoop src (fuel + 1) i p t mem =
      if p + (emit i t (char2Base ch)).length ≤ mem.length then
        decodeLoop src fuel (i + 1) (p + (emit i t (char2Base ch)).length)
          (carry i t (char2Base ch)) (splice mem p (emit i t (char2Base ch)))
      else some (.error .outOfBounds) := by
  have letter : ch ≠ byteOf '=' := by
    rintro rfl
    exact legible rfl
  simp only [decodeLoop, at_i, if_neg letter, classify_legible legible, if_neg (char2Base_ne ch),
    decodeStep_eq _ _ _ _ _ room]
  by_cases fits : p + (emit i t (char2Base ch)).length ≤ mem.length
  · simp only [if_pos fits]
  · simp only [if_neg fits]

/-- The loop over a run of letters. -/
theorem decodeLoop_letters {src front tail : List Byte} {i p : Nat} (t : Byte) {mem : List Byte}
    (here : src.drop i = front ++ tail) (plain : ∀ ch ∈ front, char2Base ch ≠ 64)
    (room : p ≤ mem.length) (fuel : Nat) {out : List Byte}
    (bytes : drain i t (front.map char2Base) = out) :
    decodeLoop src (fuel + front.length) i p t mem =
      if p + out.length ≤ mem.length then
        decodeLoop src fuel (i + front.length) (p + out.length)
          (carried i t (front.map char2Base)) (splice mem p out)
      else some (.error .outOfBounds) := by
  induction front generalizing i p t mem out with
  | nil =>
    subst bytes
    simp [drain, carried, splice, room]
  | cons ch front ih =>
    have at_i : src[i]? = some ch := by
      rw [← Nat.add_zero i, ← List.getElem?_drop, here]
      rfl
    have next : src.drop (i + 1) = front ++ tail := by
      rw [← List.drop_drop, here]
      rfl
    rw [List.map_cons, drain] at bytes
    rw [List.length_cons, ← Nat.add_assoc,
      decodeLoop_letter t at_i (plain ch List.mem_cons_self) room, List.map_cons, carried, ← bytes,
      List.length_append]
    generalize emit i t (char2Base ch) = bytes
    by_cases fits : p + bytes.length ≤ mem.length
    · rw [if_pos fits, ih _ next (fun c later => plain c (List.mem_cons_of_mem ch later))
        (by rw [splice_length fits]; exact fits) rfl, splice_length fits,
        splice_adjacent room, Nat.add_assoc p, Nat.add_assoc i, Nat.add_comm 1]
    · rw [if_neg fits, if_neg (by omega)]

/-! ## When it returns -/

/-- The letters are followed by the end of the string, a `=` or a NUL. -/
def Stops (src : List Byte) : Prop :=
  ∀ ch ∈ src[(legible src).length]?, ch = byteOf '=' ∨ ch = 0

instance (src : List Byte) : Decidable (Stops src) :=
  inferInstanceAs (Decidable (∀ ch ∈ src[(legible src).length]?, _))

/-- The size of the target while the loop runs. -/
def decodeRoom (src : List Byte) : Nat := asSize (base64DecodeLen (asInt src.length))

/-- The letters fit the target, so that the loop comes to what follows them. -/
def Hangs (src : List Byte) (dst : Option (List Byte)) : Prop :=
  dst ≠ none ∧ ¬ Stops src ∧ decodeRoom src ≤ maxSize ∧
    decodedLength (legible src).length ≤ decodeRoom src

instance (src : List Byte) (dst : Option (List Byte)) : Decidable (Hangs src dst) :=
  inferInstanceAs (Decidable (_ ∧ _ ∧ _ ∧ _))

theorem legible_split (src : List Byte) :
    legible src ++ src.dropWhile (fun ch => char2Base ch ≠ 64) = src :=
  List.takeWhile_append_dropWhile

theorem legible_plain {src : List Byte} {ch : Byte} (mem : ch ∈ legible src) :
    char2Base ch ≠ 64 := by
  simpa using List.mem_takeWhile_imp mem

theorem legible_end {src : List Byte} {ch : Byte} (last : src[(legible src).length]? = some ch) :
    char2Base ch = 64 := by
  have first := List.head?_dropWhile_not (fun ch => decide (char2Base ch ≠ 64)) src
  have same := congrArg (·[(legible src).length]?) (legible_split src)
  simp only [List.getElem?_append_right (Nat.le_refl _), Nat.sub_self, last] at same
  rw [List.head?_eq_getElem?, same] at first
  simpa using first

theorem decodeLoop_stops {src : List Byte} (stops : Stops src) (fuel p : Nat) (t : Byte)
    (mem : List Byte) :
    decodeLoop src (fuel + 1) (legible src).length p t mem = some (.ok (p, mem)) := by
  rw [decodeLoop]
  split
  · rfl
  · rename_i ch last
    obtain rfl | rfl := stops ch last
    · exact if_pos rfl
    · rfl

theorem decodeLoop_stuck {src : List Byte} (stuck : ¬ Stops src) (fuel p : Nat) (t : Byte)
    (mem : List Byte) : decodeLoop src fuel (legible src).length p t mem = none := by
  simp only [Stops, Option.mem_def, not_forall, not_or] at stuck
  obtain ⟨ch, last, letter, nonzero⟩ := stuck
  cases fuel with
  | zero => rfl
  | succ fuel =>
    simp only [decodeLoop, last, if_neg letter, classify_stuck (legible_end last) nonzero]

/-- The whole loop, up to where the letters end. -/
theorem decodeLoop_start (src mem : List Byte) (fuel : Nat) :
    ∃ t, decodeLoop src (fuel + (legible src).length) 0 0 0 mem =
      if decodedLength (legible src).length ≤ mem.length then
        decodeLoop src fuel (legible src).length (decodedLength (legible src).length) t
          (splice mem 0 (drain 0 0 ((legible src).map char2Base)))
      else some (.error .outOfBounds) := by
  have size := drain_length 0 0 ((legible src).map char2Base)
  rw [List.length_map, Nat.zero_add, show decodedLength 0 = 0 from rfl, Nat.zero_add] at size
  have run := decodeLoop_letters (i := 0) 0 (legible_split src).symm (fun _ => legible_plain)
    (Nat.zero_le mem.length) fuel rfl
  rw [size, Nat.zero_add, Nat.zero_add] at run
  exact ⟨_, run⟩

theorem base64Decode_ok {src old mem : List Byte} (some : src ≠ [])
    (resized : resize old (decodeRoom src) = .ok mem) (fuel : Nat) :
    base64Decode fuel src (.some old) = (decodeLoop src fuel 0 0 0 mem).map decodeEnd := by
  have nonempty : src.length ≠ 0 := fun none => some (List.eq_nil_of_length_eq_zero none)
  rw [decodeRoom] at resized
  simp only [base64Decode, if_neg nonempty, resized]

theorem base64Decode_hangs {src : List Byte} {dst : Option (List Byte)} (hangs : Hangs src dst)
    (fuel : Nat) : base64Decode fuel src dst = none := by
  obtain ⟨target, stuck, sized, room⟩ := hangs
  obtain ⟨old, rfl⟩ := Option.ne_none_iff_exists'.mp target
  have nonempty : src ≠ [] := by
    rintro rfl
    exact stuck (by decide)
  obtain ⟨mem, resized, size⟩ := resize_ok old sized
  rw [base64Decode_ok nonempty resized]
  cases loop : decodeLoop src fuel 0 0 0 mem with
  | none => rfl
  | some out =>
    -- with more fuel the loop would have come to the character it does not leave
    obtain ⟨t, run⟩ := decodeLoop_start src mem fuel
    rw [if_pos (by omega), decodeLoop_stuck stuck, decodeLoop_more loop] at run
    cases run

/-- Enough fuel for the letters and for what ends them. -/
theorem fuel_split {src : List Byte} {fuel : Nat} (enough : src.length < fuel) :
    ∃ left, fuel = left + 1 + (legible src).length := by
  have fewer : (legible src).length ≤ src.length := (List.takeWhile_prefix _).length_le
  exact ⟨fuel - 1 - (legible src).length, by omega⟩

theorem base64Decode_text {src : List Byte} (some : src ≠ []) (stops : Stops src)
    (sized : decodeRoom src ≤ maxSize) (room : decodedLength (legible src).length ≤ decodeRoom src)
    {fuel : Nat} (enough : src.length < fuel) (old : List Byte) :
    base64Decode fuel src (.some old) =
      .some (.ok (true, .some (drain 0 0 ((legible src).map char2Base)))) := by
  obtain ⟨left, rfl⟩ := fuel_split enough
  obtain ⟨mem, resized, size⟩ := resize_ok old sized
  obtain ⟨t, run⟩ := decodeLoop_start src mem (left + 1)
  rw [if_pos (by omega), decodeLoop_stops stops] at run
  have written := drain_length 0 0 ((legible src).map char2Base)
  rw [List.length_map, Nat.zero_add, show decodedLength 0 = 0 from rfl, Nat.zero_add] at written
  rw [← written] at run room
  rw [base64Decode_ok some resized, run]
  generalize drain 0 0 ((legible src).map char2Base) = out at room
  have cut : resize (splice mem 0 out) out.length = .ok out := by
    have whole := @resize_splice mem out []
    rw [List.append_nil] at whole
    exact whole (by omega) (by omega)
  simp only [Option.map_some, decodeEnd, cut, ok_bind]

theorem base64Decode_returns {src : List Byte} {dst : Option (List Byte)}
    (clear : ¬ Hangs src dst) {fuel : Nat} (enough : src.length < fuel) :
    base64Decode fuel src dst ≠ none := by
  cases dst with
  | none => exact Option.some_ne_none _
  | some old =>
    by_cases nonempty : src = []
    · subst nonempty
      exact Option.some_ne_none _
    · by_cases sized : decodeRoom src ≤ maxSize
      · obtain ⟨mem, resized, size⟩ := resize_ok old sized
        by_cases room : decodedLength (legible src).length ≤ decodeRoom src
        · have stops : Stops src := by
            by_contra stuck
            exact clear ⟨Option.some_ne_none _, stuck, sized, room⟩
          rw [base64Decode_text nonempty stops sized room enough]
          exact Option.some_ne_none _
        · obtain ⟨left, rfl⟩ := fuel_split enough
          obtain ⟨t, run⟩ := decodeLoop_start src mem (left + 1)
          rw [if_neg (by omega)] at run
          rw [base64Decode_ok nonempty resized, run]
          exact Option.some_ne_none _
      · have nonzero : src.length ≠ 0 := fun none => nonempty (List.eq_nil_of_length_eq_zero none)
        have thrown : resize old (asSize (base64DecodeLen (asInt src.length))) =
            .error .uncaught := if_neg sized
        simp only [base64Decode, if_neg nonzero, thrown]
        exact Option.some_ne_none _

/-- The decoder returns, and with a pass for each character, exactly if it does not hang. -/
theorem base64Decode_returns_iff (src : List Byte) (dst : Option (List Byte)) :
    ((∃ fuel, base64Decode fuel src dst ≠ none) ↔ ¬ Hangs src dst) ∧
      (base64Decode (src.length + 1) src dst ≠ none ↔ ¬ Hangs src dst) := by
  have never : (∃ fuel, base64Decode fuel src dst ≠ none) → ¬ Hangs src dst := by
    rintro ⟨fuel, returns⟩ hangs
    exact returns (base64Decode_hangs hangs fuel)
  have enough : ¬ Hangs src dst → base64Decode (src.length + 1) src dst ≠ none :=
    fun clear => base64Decode_returns clear (Nat.lt_succ_self _)
  exact ⟨⟨never, fun clear => ⟨_, enough clear⟩⟩, ⟨fun returns => never ⟨_, returns⟩, enough⟩⟩

theorem decodeRoom_small {src : List Byte} (small : src.length < 2 ^ 31) :
    decodeRoom src = src.length / 4 * 3 + 2 := by
  have exact : base64DecodeLen (asInt src.length) = ((src.length / 4 * 3 + 2 : Nat) : Int) := by
    rw [asInt_small small, base64DecodeLen, Int.tdiv_eq_ediv_of_nonneg (by omega)]
    omega
  rw [decodeRoom, exact, asSize_natCast (by omega)]

/-- The target is large enough for whatever the letters come to. -/
theorem decode_fits {src : List Byte} (small : src.length < 2 ^ 31) :
    decodeRoom src ≤ maxSize ∧ decodedLength (legible src).length ≤ decodeRoom src := by
  have fewer : (legible src).length ≤ src.length := (List.takeWhile_prefix _).length_le
  rw [decodeRoom_small small, maxSize, decodedLength]
  omega

theorem hangs_iff_of_small {src : List Byte} (small : src.length < 2 ^ 31) (old : List Byte) :
    Hangs src (some old) ↔ ¬ Stops src :=
  ⟨fun hangs => hangs.right.left,
    fun stuck => ⟨Option.some_ne_none old, stuck, decode_fits small⟩⟩

/-- A line break. -/
theorem base64Decode_newline : ¬ ∃ fuel, base64Decode fuel [byteOf '\n'] (some []) ≠ none := by
  rintro ⟨fuel, returns⟩
  apply returns
  apply base64Decode_hangs
  decide

/-! ## The round trip -/

/-- Two letters are the bits of `m` in sixes: the upper one is shifted by `k` to make room for
the first `k` bits of the lower one. -/
theorem join_letters (m : Nat) {k : Nat} (two : 2 ≤ k) (six : k ≤ 6) :
    BitVec.ofNat 8 (m / 2 ^ 6 % 2 ^ 6) <<< k ||| BitVec.ofNat 8 (m % 2 ^ 6) >>> (6 - k) =
      BitVec.ofNat 8 (m / 2 ^ (6 - k)) := by
  apply BitVec.eq_of_getLsbD_eq
  intro j lt
  simp only [BitVec.getLsbD_or, BitVec.getLsbD_shiftLeft, BitVec.getLsbD_ushiftRight,
    BitVec.getLsbD_ofNat, Nat.testBit_mod_two_pow, Nat.testBit_div_two_pow]
  rw [Nat.add_comm (6 - k) j]
  by_cases lower : j < k
  · simp [lower, lt, show j + (6 - k) < 6 by omega, show j + (6 - k) < 8 by omega]
  · have place : j - k + 6 = j + (6 - k) := by omega
    simp [lower, lt, place, show ¬ j + (6 - k) < 6 by omega, show j - k < 6 by omega,
      show j - k < 8 by omega]

theorem char2Base_letter (v : Nat) :
    char2Base (letter (v % 2 ^ 6)) = BitVec.ofNat 8 (v % 2 ^ 6) := by
  have table : ∀ v < 2 ^ 6, char2Base (letter v) = BitVec.ofNat 8 v := by decide
  exact table (v % 2 ^ 6) (Nat.mod_lt v (by decide))

theorem legible_letter (v : Nat) : char2Base (letter (v % 2 ^ 6)) ≠ 64 := by
  have table : ∀ v < 2 ^ 6, char2Base (letter v) ≠ 64 := by decide
  exact table (v % 2 ^ 6) (Nat.mod_lt v (by decide))

section Groups

variable {i : Nat} (start : i % 4 = 0) (t : Byte)

include start

theorem drain_two (a b : Byte) : drain i t [a, b] = [a <<< 2 ||| b >>> 4] := by
  have one : (i + 1) % 4 = 1 := by omega
  simp only [drain, emit, carry, start, one, List.nil_append, List.append_nil]

theorem drain_three (a b c : Byte) :
    drain i t [a, b, c] = [a <<< 2 ||| b >>> 4, b <<< 4 ||| c >>> 2] := by
  have one : (i + 1) % 4 = 1 := by omega
  have two : (i + 1 + 1) % 4 = 2 := by omega
  simp only [drain, emit, carry, start, one, two, List.nil_append, List.append_nil,
    List.cons_append]

theorem drain_four (a b c d : Byte) (cs : List Byte) :
    drain i t (a :: b :: c :: d :: cs) =
      (a <<< 2 ||| b >>> 4) :: (b <<< 4 ||| c >>> 2) :: (c <<< 6 ||| d) ::
        drain (i + 4) (c <<< 6) cs := by
  have one : (i + 1) % 4 = 1 := by omega
  have two : (i + 1 + 1) % 4 = 2 := by omega
  have three : (i + 1 + 1 + 1) % 4 = 3 := by omega
  simp only [drain, emit, carry, start, one, two, three, List.nil_append, List.cons_append]

end Groups

/-- The bytes of a group, from its letters. -/
theorem join_group (n : Nat) :
    BitVec.ofNat 8 (n / 2 ^ 18 % 2 ^ 6) <<< 2 ||| BitVec.ofNat 8 (n / 2 ^ 12 % 2 ^ 6) >>> 4 =
        BitVec.ofNat 8 (n / 2 ^ 16) ∧
      BitVec.ofNat 8 (n / 2 ^ 12 % 2 ^ 6) <<< 4 ||| BitVec.ofNat 8 (n / 2 ^ 6 % 2 ^ 6) >>> 2 =
        BitVec.ofNat 8 (n / 2 ^ 8) ∧
      BitVec.ofNat 8 (n / 2 ^ 6 % 2 ^ 6) <<< 6 ||| BitVec.ofNat 8 (n % 2 ^ 6) =
        BitVec.ofNat 8 n := by
  have first := join_letters (n / 2 ^ 12) (k := 2) (by decide) (by decide)
  have second := join_letters (n / 2 ^ 6) (k := 4) (by decide) (by decide)
  have third := join_letters n (k := 6) (by decide) (by decide)
  rw [Nat.div_div_eq_div_mul, Nat.div_div_eq_div_mul] at first second
  rw [Nat.sub_self, Nat.pow_zero, Nat.div_one, BitVec.ushiftRight_zero] at third
  exact ⟨first, second, third⟩

theorem low_byte (high : Nat) (b : Byte) : BitVec.ofNat 8 (high * 2 ^ 8 + b.toNat) = b := by
  apply BitVec.eq_of_toNat_eq
  have small := b.isLt
  rw [BitVec.toNat_ofNat]
  omega

theorem legible_append {front : List Byte} (plain : ∀ ch ∈ front, char2Base ch ≠ 64)
    (rest : List Byte) : legible (front ++ rest) = front ++ legible rest :=
  List.takeWhile_append_of_pos (by simpa using plain)

theorem stops_append {front rest : List Byte} (plain : ∀ ch ∈ front, char2Base ch ≠ 64)
    (stops : Stops rest) : Stops (front ++ rest) := by
  intro ch last
  rw [legible_append plain, List.length_append,
    List.getElem?_append_right (Nat.le_add_right _ _), Nat.add_sub_cancel_left] at last
  exact stops ch last

theorem legible_letters (n : Nat) : ∀ ch ∈ letters n, char2Base ch ≠ 64 := by
  intro ch mem
  obtain ⟨v, -, rfl⟩ := List.mem_map.mp mem
  exact legible_letter v

theorem legible_padded (n k : Nat) (rest : List Byte) :
    legible ((letters n).take k ++ pad :: rest) = (letters n).take k ∧
      Stops ((letters n).take k ++ pad :: rest) := by
  have plain : ∀ ch ∈ (letters n).take k, char2Base ch ≠ 64 :=
    fun ch mem => legible_letters n ch (List.mem_of_mem_take mem)
  constructor
  · exact (legible_append plain (pad :: rest)).trans (List.append_nil _)
  · apply stops_append plain
    intro ch last
    exact .inl (Option.some.inj last).symm

theorem stops_encoded (s : List Byte) : Stops (encoded s) := by
  fun_induction encoded s with
  | case1 => decide
  | case2 a => exact (legible_padded _ 2 [pad]).right
  | case3 a b => exact (legible_padded _ 3 []).right
  | case4 a b c rest ih => exact stops_append (legible_letters _) ih

/-- The letters before the padding are those bytes. -/
theorem drain_encoded (s : List Byte) {i : Nat} (start : i % 4 = 0) (t : Byte) :
    drain i t ((legible (encoded s)).map char2Base) = s := by
  fun_induction encoded s generalizing i t with
  | case1 => rfl
  | case2 a =>
    have first : BitVec.ofNat 8 (a.toNat * 2 ^ 16 / 2 ^ 16) = a := by
      rw [show a.toNat * 2 ^ 16 / 2 ^ 16 = 0 * 2 ^ 8 + a.toNat by omega, low_byte]
    rw [(legible_padded _ 2 [pad]).left]
    simp only [letters, List.map_cons, List.take, List.map_nil, char2Base_letter]
    rw [drain_two start, (join_group _).left, first]
  | case3 a b =>
    obtain ⟨high, low, -⟩ := join_group ((a.toNat * 2 ^ 8 + b.toNat) * 2 ^ 8)
    have small := b.isLt
    rw [show (a.toNat * 2 ^ 8 + b.toNat) * 2 ^ 8 / 2 ^ 16 = 0 * 2 ^ 8 + a.toNat by omega,
      low_byte] at high
    rw [Nat.mul_div_cancel _ (by decide), low_byte] at low
    rw [(legible_padded _ 3 []).left]
    simp only [letters, List.map_cons, List.take, List.map_nil, char2Base_letter]
    rw [drain_three start, high, low]
  | case4 a b c rest ih =>
    obtain ⟨high, middle, low⟩ := join_group ((a.toNat * 2 ^ 8 + b.toNat) * 2 ^ 8 + c.toNat)
    have small := b.isLt
    have smaller := c.isLt
    rw [show ((a.toNat * 2 ^ 8 + b.toNat) * 2 ^ 8 + c.toNat) / 2 ^ 16 =
      0 * 2 ^ 8 + a.toNat by omega, low_byte] at high
    rw [show ((a.toNat * 2 ^ 8 + b.toNat) * 2 ^ 8 + c.toNat) / 2 ^ 8 = a.toNat * 2 ^ 8 + b.toNat by
      omega, low_byte] at middle
    rw [low_byte] at low
    rw [legible_append (legible_letters _)]
    simp only [letters, List.map_cons, List.map_nil, char2Base_letter,
      List.cons_append, List.nil_append]
    rw [drain_four start, high, middle, low, ih (by omega)]

theorem base64_round_trip (s old old' : List Byte) (some : s ≠ []) (small : s.length < 2 ^ 30) :
    ∃ t, base64Encode s (.some old) = .ok (true, .some t) ∧
      ∀ fuel, t.length < fuel →
        base64Decode fuel t (.some old') = .some (.ok (true, .some s)) := by
  refine ⟨encoded s, base64Encode_ok some small old, ?_⟩
  intro fuel enough
  have size := encoded_length s
  have text : encoded s ≠ [] := by
    apply List.ne_nil_of_length_pos
    have := List.length_pos_of_ne_nil some
    omega
  have shorter : (encoded s).length < 2 ^ 31 := by omega
  obtain ⟨sized, room⟩ := decode_fits shorter
  rw [base64Decode_text text (stops_encoded s) sized room enough, drain_encoded s rfl]

/-- A zero byte and one above `0x7f`, with padding. -/
theorem base64_round_trip_bytes :
    ∃ t, base64Encode [0, 0xff] (some []) = .ok (true, some t) ∧
      ∀ fuel, t.length < fuel → base64Decode fuel t (some []) = some (.ok (true, some [0, 0xff])) :=
  base64_round_trip [0, 0xff] [] [] (by decide) (by decide)

end Libatp.Base64
