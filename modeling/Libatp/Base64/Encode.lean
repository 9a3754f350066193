import Libatp.Base.Bits
import Libatp.Base64.Base64

/-!
# The encoder implements RFC 4648

`rfc4648` is section 4 of the RFC on bit strings: the bits of the bytes, zeros up to a
whole number of sextets, a letter for each, and the padding. The encoder goes by groups
of three bytes, and finds out from how far its index ran past the end how many of the
letters it has just written are padding. `encoded` is the text in between: by groups,
and without the index.
-/

namespace Libatp.Base64
open Base

/-- The standard alphabet. -/
def letter (v : Nat) : Byte :=
  if v < 26 then byteOf 'A' + BitVec.ofNat 8 v
  else if v < 52 then byteOf 'a' + BitVec.ofNat 8 (v - 26)
  else if v < 62 then byteOf '0' + BitVec.ofNat 8 (v - 52)
  else if v = 62 then byteOf '+'
  else byteOf '/'

def pad : Byte := byteOf '='

def bitString (s : List Byte) : List Bool := s.flatMap fun b => bits 8 b.toNat

def sextets (s : List Byte) : List Nat := (groups 6 (fill 6 (bitString s))).map spelled

/-- The encoding of RFC 4648, section 4. -/
def rfc4648 (s : List Byte) : List Byte :=
  (sextets s).map letter ++ List.replicate ((3 - s.length % 3) % 3) pad

/-- The letters of a 24-bit group. -/
def letters (n : Nat) : List Byte :=
  [n / 2 ^ 18, n / 2 ^ 12, n / 2 ^ 6, n].map fun v => letter (v % 2 ^ 6)

def encoded : List Byte → List Byte
  | [] => []
  | [a] => (letters (a.toNat * 2 ^ 16)).take 2 ++ [pad, pad]
  | [a, b] => (letters ((a.toNat * 2 ^ 8 + b.toNat) * 2 ^ 8)).take 3 ++ [pad]
  | a :: b :: c :: rest =>
    letters ((a.toNat * 2 ^ 8 + b.toNat) * 2 ^ 8 + c.toNat) ++ encoded rest

theorem encoded_length (s : List Byte) : (encoded s).length = 4 * ((s.length + 2) / 3) := by
  fun_induction encoded s with
  | case1 => rfl
  | case2 a => simp [letters]
  | case3 a b => simp [letters]
  | case4 a b c rest ih =>
    simp only [letters, List.length_append, List.length_map, List.length_cons, List.length_nil, ih]
    omega

/-! ## The text by groups is that of the RFC -/

theorem groups_twelve (n : Nat) (l : List Bool) :
    groups 6 (bits 12 n ++ l) = bits 6 (n / 2 ^ 6) :: bits 6 n :: groups 6 l :=
  (groups_bits (by decide) 6 n l).trans
    (congrArg _ (groups_append (by decide) (bits_length 6 n) l))

theorem groups_eighteen (n : Nat) (l : List Bool) :
    groups 6 (bits 18 n ++ l) =
      bits 6 (n / 2 ^ 12) :: bits 6 (n / 2 ^ 6) :: bits 6 n :: groups 6 l :=
  (groups_bits (by decide) 12 n l).trans (congrArg _ (groups_twelve n l))

theorem groups_twentyFour (n : Nat) (l : List Bool) :
    groups 6 (bits 24 n ++ l) =
      bits 6 (n / 2 ^ 18) :: bits 6 (n / 2 ^ 12) :: bits 6 (n / 2 ^ 6) :: bits 6 n :: groups 6 l :=
  (groups_bits (by decide) 18 n l).trans (congrArg _ (groups_eighteen n l))

theorem bitString_cons (b : Byte) (s : List Byte) :
    bitString (b :: s) = bits 8 b.toNat ++ bitString s :=
  List.flatMap_cons

theorem bitString_two (a b : Byte) (s : List Byte) :
    bitString (a :: b :: s) = bits 16 (a.toNat * 2 ^ 8 + b.toNat) ++ bitString s := by
  rw [bitString_cons, bitString_cons, ← List.append_assoc, bits_append _ _ b.isLt]

theorem bitString_three (a b c : Byte) (s : List Byte) :
    bitString (a :: b :: c :: s) =
      bits 24 ((a.toNat * 2 ^ 8 + b.toNat) * 2 ^ 8 + c.toNat) ++ bitString s := by
  rw [bitString_two, bitString_cons, ← List.append_assoc, bits_append _ _ c.isLt]

/-- A last group that lacks `k` bits. -/
theorem fill_bits (w n k : Nat) (lacking : (6 - w % 6) % 6 = k) :
    fill 6 (bits w n) = bits (w + k) (n * 2 ^ k) ++ [] := by
  rw [fill, bits_length, lacking, ← bits_zero, bits_append _ _ (Nat.two_pow_pos k), Nat.add_zero,
    List.append_nil]

theorem rfc4648_one (a : Byte) : rfc4648 [a] = encoded [a] := by
  have whole : fill 6 (bitString [a]) = bits 12 (a.toNat * 2 ^ 4) ++ [] := by
    rw [bitString_cons]
    exact fill_bits 8 a.toNat 4 rfl
  rw [rfc4648, sextets, whole, groups_twelve]
  simp only [List.map_cons, spelled_bits]
  show _ = [letter (a.toNat * 2 ^ 16 / 2 ^ 18 % 2 ^ 6), letter (a.toNat * 2 ^ 16 / 2 ^ 12 % 2 ^ 6),
    pad, pad]
  rw [show a.toNat * 2 ^ 16 / 2 ^ 18 = a.toNat * 2 ^ 4 / 2 ^ 6 by omega,
    show a.toNat * 2 ^ 16 / 2 ^ 12 = a.toNat * 2 ^ 4 by omega]
  rfl

theorem rfc4648_two (a b : Byte) : rfc4648 [a, b] = encoded [a, b] := by
  have whole : fill 6 (bitString [a, b]) = bits 18 ((a.toNat * 2 ^ 8 + b.toNat) * 2 ^ 2) ++ [] := by
    rw [bitString_two]
    exact (congrArg (fill 6) (List.append_nil _)).trans (fill_bits 16 _ 2 rfl)
  rw [rfc4648, sextets, whole, groups_eighteen, encoded]
  generalize a.toNat * 2 ^ 8 + b.toNat = n
  simp only [List.map_cons, spelled_bits]
  show _ = [letter (n * 2 ^ 8 / 2 ^ 18 % 2 ^ 6), letter (n * 2 ^ 8 / 2 ^ 12 % 2 ^ 6),
    letter (n * 2 ^ 8 / 2 ^ 6 % 2 ^ 6), pad]
  rw [show n * 2 ^ 8 / 2 ^ 18 = n * 2 ^ 2 / 2 ^ 12 by omega,
    show n * 2 ^ 8 / 2 ^ 12 = n * 2 ^ 2 / 2 ^ 6 by omega,
    show n * 2 ^ 8 / 2 ^ 6 = n * 2 ^ 2 by omega]
  rfl

theorem rfc4648_three (a b c : Byte) (rest : List Byte) :
    rfc4648 (a :: b :: c :: rest) =
      letters ((a.toNat * 2 ^ 8 + b.toNat) * 2 ^ 8 + c.toNat) ++ rfc4648 rest := by
  have padding : (a :: b :: c :: rest).length % 3 = rest.length % 3 := by
    simp only [List.length_cons]
    omega
  rw [rfc4648, sextets, bitString_three, fill_append (by rw [bits_length]), groups_twentyFour,
    padding]
  simp only [List.map_cons, spelled_bits]
  rfl

theorem encoded_eq_rfc4648 (s : List Byte) : encoded s = rfc4648 s := by
  fun_induction encoded s with
  | case1 => rfl
  | case2 a => exact (rfc4648_one a).symm
  | case3 a b => exact (rfc4648_two a b).symm
  | case4 a b c rest ih => rw [ih, rfc4648_three]

/-! ## The loop writes it -/

theorem mask_shift (n k : Nat) : (n &&& (63 <<< k)) >>> k = n / 2 ^ k % 2 ^ 6 := by
  rw [Nat.shiftRight_and_distrib, Nat.shiftLeft_shiftRight, Nat.shiftRight_eq_div_pow]
  exact Nat.and_two_pow_sub_one_eq_mod (n / 2 ^ k) 6

theorem load_code (v : Nat) : load base64Code (v % 2 ^ 6) 1 = .ok [letter (v % 2 ^ 6)] := by
  have table : ∀ v < 2 ^ 6, load base64Code v 1 = .ok [letter v] := by decide
  exact table (v % 2 ^ 6) (Nat.mod_lt v (by decide))

theorem byteAt_drop (src : List Byte) (i k : Nat) :
    byteAt src (i + k) = byteAt (src.drop i) k := by
  simp [byteAt, List.getD_eq_getElem?_getD]

theorem groupAt_drop (src : List Byte) (i : Nat) : groupAt src i = groupAt (src.drop i) 0 := by
  have first := byteAt_drop src i 0
  rw [Nat.add_zero] at first
  have inside (k : Nat) : i + k < src.length ↔ 0 + k < (src.drop i).length := by
    rw [List.length_drop]
    omega
  simp only [groupAt, inside, first, byteAt_drop, Nat.zero_add]

/-- The letters of a group are written one by one, and the padding over them. -/
theorem encodeGroup_letters (src : List Byte) (i p : Nat) (mem : List Byte) :
    encodeGroup src i p mem = (do
      let mem ← store mem p [letter (groupAt src i / 2 ^ 18 % 2 ^ 6)]
      let mem ← store mem (p + 1) [letter (groupAt src i / 2 ^ 12 % 2 ^ 6)]
      let mem ← store mem (p + 2) [letter (groupAt src i / 2 ^ 6 % 2 ^ 6)]
      let mem ← store mem (p + 3) [letter (groupAt src i % 2 ^ 6)]
      let mem ← if src.length < i + 3 then store mem (p + 3) [byteOf '='] else .ok mem
      if src.length + 1 < i + 3 then store mem (p + 2) [byteOf '='] else .ok mem) := by
  unfold encodeGroup
  generalize groupAt src i = n
  have code18 : (n &&& 0x00fc0000) >>> 18 = n / 2 ^ 18 % 2 ^ 6 := mask_shift n 18
  have code12 : (n &&& 0x0003f000) >>> 12 = n / 2 ^ 12 % 2 ^ 6 := mask_shift n 12
  have code6 : (n &&& 0x00000fc0) >>> 6 = n / 2 ^ 6 % 2 ^ 6 := mask_shift n 6
  have code0 : (n &&& 0x0000003f) >>> 0 = n % 2 ^ 6 := (mask_shift n 0).trans (by simp)
  simp only [code18, code12, code6, code0, load_code, ok_bind]

theorem encodeGroup_eq {src mem : List Byte} {i p : Nat} (room : p + 4 ≤ mem.length) :
    encodeGroup src i p mem = .ok (splice mem p
      (if src.length + 1 < i + 3 then (letters (groupAt src i)).take 2 ++ [pad, pad]
        else if src.length < i + 3 then (letters (groupAt src i)).take 3 ++ [pad]
        else letters (groupAt src i))) := by
  rw [encodeGroup_letters]
  generalize groupAt src i = n
  have first : store mem p [letter (n / 2 ^ 18 % 2 ^ 6)] =
      .ok (splice mem p ((letters n).take 1)) := store_ok (Nat.le_trans (by simp) room)
  have second : store (splice mem p ((letters n).take 1)) (p + 1) [letter (n / 2 ^ 12 % 2 ^ 6)] =
      .ok (splice mem p ((letters n).take 2)) :=
    store_adjacent (Nat.le_trans (by simp [letters]) room)
  have third : store (splice mem p ((letters n).take 2)) (p + 2) [letter (n / 2 ^ 6 % 2 ^ 6)] =
      .ok (splice mem p ((letters n).take 3)) :=
    store_adjacent (Nat.le_trans (by simp [letters]) room)
  have fourth : store (splice mem p ((letters n).take 3)) (p + 3) [letter (n % 2 ^ 6)] =
      .ok (splice mem p (letters n)) := store_adjacent room
  have padded : store (splice mem p (letters n)) (p + 3) [byteOf '='] =
      .ok (splice mem p ((letters n).take 3 ++ [pad])) := store_inside room (Nat.le_refl 4)
  have twice : store (splice mem p ((letters n).take 3 ++ [pad])) (p + 2) [byteOf '='] =
      .ok (splice mem p ((letters n).take 2 ++ [pad, pad])) := store_inside room (Nat.le_succ 3)
  rw [first, ok_bind, second, ok_bind, third, ok_bind, fourth, ok_bind]
  dsimp only
  by_cases one : src.length + 1 < i + 3
  · rw [if_pos (show src.length < i + 3 by omega), padded, ok_bind, if_pos one, twice, if_pos one]
  · simp only [if_neg one]
    split
    · rw [padded, ok_bind]
    · rfl

theorem encodeGroup_ok {src rest mem : List Byte} {i p : Nat} (here : src.drop i = rest)
    (left : rest ≠ []) (room : p + 4 ≤ mem.length) :
    encodeGroup src i p mem = .ok (splice mem p ((encoded rest).take 4)) := by
  have count : src.length - i = rest.length := by rw [← here, List.length_drop]
  rw [encodeGroup_eq room, groupAt_drop, here]
  match rest with
  | [a] =>
    have one : src.length - i = 1 := count
    have group : groupAt [a] 0 = a.toNat * 2 ^ 16 := by simp [groupAt, byteAt, Nat.mul_assoc]
    rw [if_pos (by omega), group]
    rfl
  | [a, b] =>
    have two : src.length - i = 2 := count
    have group : groupAt [a, b] 0 = (a.toNat * 2 ^ 8 + b.toNat) * 2 ^ 8 := by
      simp [groupAt, byteAt]
    rw [if_neg (by omega), if_pos (by omega), group]
    rfl
  | a :: b :: c :: rest =>
    have more : src.length - i = rest.length + 3 := count
    have group : groupAt (a :: b :: c :: rest) 0 =
        (a.toNat * 2 ^ 8 + b.toNat) * 2 ^ 8 + c.toNat := by
      simp [groupAt, byteAt]
    rw [if_neg (by omega), if_neg (by omega), group]
    rfl

theorem encoded_split (rest : List Byte) :
    encoded rest = (encoded rest).take 4 ++ encoded (rest.drop 3) := by
  match rest with
  | [] => rfl
  | [a] => rfl
  | [a, b] => rfl
  | a :: b :: c :: rest => rfl

/-- From index `i` on, the loop writes the text of what is left. -/
theorem encodeLoop_ok {src mem : List Byte} {i p : Nat}
    (room : p + (encoded (src.drop i)).length ≤ mem.length) :
    encodeLoop src i p mem =
      .ok (p + (encoded (src.drop i)).length, splice mem p (encoded (src.drop i))) := by
  fun_induction encodeLoop src i p mem with
  | case1 i p mem inside ih =>
    have left : src.drop i ≠ [] := by
      intro none
      rw [List.drop_eq_nil_iff] at none
      omega
    have split := encoded_split (src.drop i)
    have whole := encoded_length (src.drop i)
    have some := List.length_pos_of_ne_nil left
    have four : ((encoded (src.drop i)).take 4).length = 4 := by
      rw [List.length_take]
      omega
    have round : encodeGroup src i p mem = .ok (splice mem p ((encoded (src.drop i)).take 4)) :=
      encodeGroup_ok rfl left (by omega)
    rw [List.drop_drop] at split
    generalize (encoded (src.drop i)).take 4 = group at split four round
    have shift : p + 4 = p + group.length := by rw [four]
    rw [split, List.length_append] at room
    rw [round, ok_bind, ih, split, shift, splice_adjacent (by omega), List.length_append,
      Nat.add_assoc]
    rw [splice_length (by omega)]
    omega
  | case2 i p mem outside =>
    rw [List.drop_eq_nil_of_le (Nat.le_of_not_lt outside)]
    simp [encoded, splice]

/-! ## Sizes -/

theorem asInt_small {n : Nat} (small : n < 2 ^ 31) : asInt n = n := by
  have value : (BitVec.ofNat 32 n).toNat = n := by
    rw [BitVec.toNat_ofNat, Nat.mod_eq_of_lt (by omega)]
  rw [asInt, BitVec.toInt_eq_toNat_of_lt (by omega), value]

theorem asSize_natCast {n : Nat} (small : n < 2 ^ 64) : asSize n = n := by
  have same : (n : Int) % wordSize = n := Int.emod_eq_of_lt (by omega) (by exact_mod_cast small)
  rw [asSize, same, Int.toNat_natCast]

/-- The size of the target while the loop runs. -/
def encodeRoom (src : List Byte) : Nat := asSize (base64EncodeLen (asInt src.length))

/-- Up to the product. -/
theorem base64EncodeLen_eq {n : Nat} (small : n < 2 ^ 31 - 2) :
    base64EncodeLen (asInt n) = int32 (int32 (4 * ((n + 2) / 3) : Nat) + 1) := by
  have sum : int32 (n + 2) = (n + 2 : Nat) := by
    rw [int32_of_fits (by omega) (by omega)]
    omega
  have product : ((n + 2 : Nat) : Int).tdiv 3 * 4 = (4 * ((n + 2) / 3) : Nat) := by
    rw [Int.tdiv_eq_ediv_of_nonneg (by omega)]
    omega
  rw [asInt_small (by omega), base64EncodeLen, sum, product]

theorem encodeRoom_eq {src : List Byte} (small : src.length < 2 ^ 31 - 2)
    (fits : 4 * ((src.length + 2) / 3) < 2 ^ 31) :
    encodeRoom src = 4 * ((src.length + 2) / 3) + 1 := by
  have exact : base64EncodeLen (asInt src.length) =
      (4 * ((src.length + 2) / 3) + 1 : Nat) := by
    rw [base64EncodeLen_eq small, int32_of_fits (n := (4 * ((src.length + 2) / 3) : Nat))
      (by omega) (by omega), int32_of_fits (by omega) (by omega)]
    omega
  rw [encodeRoom, exact, asSize_natCast (by omega)]

theorem resize_ok (s : List Byte) {n : Nat} (small : n ≤ maxSize) :
    ∃ mem, resize s n = .ok mem ∧ mem.length = n := by
  refine ⟨_, if_pos small, ?_⟩
  rw [List.length_append, List.length_take, List.length_replicate]
  omega

/-- The string is cut to what has been written from its start. -/
theorem resize_splice {mem out rest : List Byte} (room : (out ++ rest).length ≤ mem.length)
    (small : out.length ≤ maxSize) : resize (splice mem 0 (out ++ rest)) out.length = .ok out := by
  have size : (splice mem 0 (out ++ rest)).length = mem.length := splice_length (by omega)
  rw [List.length_append] at room
  rw [resize, if_pos small, size, Nat.sub_eq_zero_of_le (by omega), splice, List.take_zero,
    List.nil_append, List.append_assoc, List.take_left]
  simp

/-- There is room for the text and its terminating zero. -/
theorem base64Encode_fits {src : List Byte} (some : src ≠ []) (sized : encodeRoom src ≤ maxSize)
    (room : (encoded src).length + 1 ≤ encodeRoom src) (old : List Byte) :
    base64Encode src (.some old) = .ok (true, .some (encoded src)) := by
  obtain ⟨mem, resized, size⟩ := resize_ok old sized
  have written :
      encodeLoop src 0 0 mem = .ok ((encoded src).length, splice mem 0 (encoded src)) := by
    rw [encodeLoop_ok (by rw [List.drop_zero]; omega), List.drop_zero, Nat.zero_add]
  have ended : store (splice mem 0 (encoded src)) (encoded src).length [0] =
      .ok (splice mem 0 (encoded src ++ [0])) := by
    rw [← store_adjacent (by rw [List.length_singleton]; omega), Nat.zero_add]
  have cut : resize (splice mem 0 (encoded src ++ [0])) (encoded src).length =
      .ok (encoded src) :=
    resize_splice (by rw [List.length_append, List.length_singleton]; omega) (by omega)
  have nonempty : src.length ≠ 0 := fun none => some (List.eq_nil_of_length_eq_zero none)
  rw [encodeRoom] at resized
  simp only [base64Encode, if_neg nonempty, resized, ok_bind, written, ended, cut]

theorem base64Encode_ok {src : List Byte} (some : src ≠ []) (small : src.length < 2 ^ 30)
    (old : List Byte) : base64Encode src (.some old) = .ok (true, .some (encoded src)) := by
  have size : encodeRoom src = 4 * ((src.length + 2) / 3) + 1 :=
    encodeRoom_eq (by omega) (by omega)
  apply base64Encode_fits some
  · rw [size, maxSize]
    omega
  · have text := encoded_length src
    omega

/-- The whole of section 4: the text, its length, its padding. -/
theorem base64Encode_rfc4648 (src old : List Byte) (some : src ≠ [])
    (small : src.length < 2 ^ 30) :
    base64Encode src (.some old) = .ok (true, .some (rfc4648 src)) ∧
      (rfc4648 src).length = 4 * ((src.length + 2) / 3) := by
  rw [← encoded_eq_rfc4648]
  exact ⟨base64Encode_ok some small old, encoded_length src⟩

/-- "foob", one of the test vectors. -/
theorem base64Encode_foob :
    base64Encode (['f', 'o', 'o', 'b'].map byteOf) (.some []) =
        .ok (true, .some (rfc4648 (['f', 'o', 'o', 'b'].map byteOf))) ∧
      rfc4648 (['f', 'o', 'o', 'b'].map byteOf) =
        ['Z', 'm', '9', 'v', 'Y', 'g', '=', '='].map byteOf := by
  constructor
  · exact (base64Encode_rfc4648 _ [] (by decide) (by decide)).left
  · decide

end Libatp.Base64
