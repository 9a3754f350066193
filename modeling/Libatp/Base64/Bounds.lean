import Libatp.Base64.Decode

/-!
# Where Base64 writes

Both functions size their target by an `int` that is computed from the length of the
source, and then write as much as the source calls for. An `int` that has become negative
asks for more than a string can hold, and `resize` throws; one that has come out too small
is the size of the target.
-/

namespace Libatp.Base64
open Base

/-! ## Encoding -/

/-- One of the letters of a group that does not fit is written outside. -/
theorem encodeGroup_past {src mem : List Byte} {i p : Nat} (past : mem.length < p + 4) :
    encodeGroup src i p mem = .error .outOfBounds := by
  rw [encodeGroup_letters]
  apply store_bind_outside
  intro mem₁ _ size₁
  apply store_bind_outside
  intro mem₂ _ size₂
  apply store_bind_outside
  intro mem₃ _ size₃
  apply store_bind_outside
  intro mem₄ inside _
  rw [List.length_singleton] at inside
  omega

theorem encodeLoop_past {src mem : List Byte} {i p : Nat} (start : p ≤ mem.length)
    (past : mem.length < p + (encoded (src.drop i)).length) :
    encodeLoop src i p mem = .error .outOfBounds := by
  fun_induction encodeLoop src i p mem with
  | case1 i p mem inside ih =>
    by_cases room : p + 4 ≤ mem.length
    · have left : src.drop i ≠ [] := by
        intro none
        rw [List.drop_eq_nil_iff] at none
        omega
      have split := congrArg List.length (encoded_split (src.drop i))
      have size : (splice mem p ((encoded (src.drop i)).take 4)).length = mem.length := by
        apply splice_length
        rw [List.length_take]
        omega
      rw [List.length_append, List.length_take, List.drop_drop] at split
      rw [encodeGroup_ok rfl left room, ok_bind]
      exact ih _ (by omega) (by omega)
    · rw [encodeGroup_past (by omega)]
      rfl
  | case2 i p mem outside =>
    rw [List.drop_eq_nil_of_le (Nat.le_of_not_lt outside), encoded, List.length_nil] at past
    omega

theorem base64Encode_past {src : List Byte} (some : src ≠ []) (sized : encodeRoom src ≤ maxSize)
    (past : encodeRoom src ≤ (encoded src).length) (old : List Byte) :
    base64Encode src (.some old) = .error .outOfBounds := by
  obtain ⟨mem, resized, size⟩ := resize_ok old sized
  have nonempty : src.length ≠ 0 := fun none => some (List.eq_nil_of_length_eq_zero none)
  rw [encodeRoom] at resized
  simp only [base64Encode, if_neg nonempty, resized, ok_bind]
  by_cases text : (encoded src).length ≤ mem.length
  · -- only the terminating zero is left
    have whole :
        encodeLoop src 0 0 mem = .ok ((encoded src).length, splice mem 0 (encoded src)) := by
      rw [encodeLoop_ok (by rw [List.drop_zero]; omega), List.drop_zero, Nat.zero_add]
    rw [whole, ok_bind]
    have last : store (splice mem 0 (encoded src)) (encoded src).length [0] =
        .error .outOfBounds := by
      apply store_outside
      rw [splice_length (by omega), List.length_singleton]
      omega
    simp only [last]
    rfl
  · rw [encodeLoop_past (Nat.zero_le _) (by rw [List.drop_zero]; omega)]
    rfl

theorem base64Encode_throws {src : List Byte} (some : src ≠ [])
    (large : maxSize < encodeRoom src) (old : List Byte) :
    base64Encode src (.some old) = .error .uncaught := by
  have nonempty : src.length ≠ 0 := fun none => some (List.eq_nil_of_length_eq_zero none)
  have thrown : resize old (asSize (base64EncodeLen (asInt src.length))) = .error .uncaught :=
    if_neg (Nat.not_le_of_lt large)
  simp only [base64Encode, if_neg nonempty, thrown]
  rfl

/-! ## The size of the target -/

theorem asSize_negative {n : Int} (low : -2 ^ 31 ≤ n) (negative : n < 0) : maxSize < asSize n := by
  have size : (wordSize : Int) = 2 ^ 64 := rfl
  have wrapped : n % wordSize = n + wordSize := by
    rw [← Int.add_emod_right]
    exact Int.emod_eq_of_lt (by omega) (by omega)
  rw [asSize, wrapped, maxSize]
  omega

theorem encodeRoom_lt {src : List Byte} (sized : encodeRoom src ≤ maxSize) :
    encodeRoom src < 2 ^ 31 := by
  have low := le_int32 (int32 ((int32 (asInt src.length + 2)).tdiv 3 * 4) + 1)
  have high := int32_lt (int32 ((int32 (asInt src.length + 2)).tdiv 3 * 4) + 1)
  rw [encodeRoom, base64EncodeLen] at sized ⊢
  generalize int32 (int32 ((int32 (asInt src.length + 2)).tdiv 3 * 4) + 1) = n at *
  by_cases negative : n < 0
  · have large := asSize_negative low negative
    omega
  · obtain ⟨k, rfl⟩ := Int.eq_ofNat_of_zero_le (Int.not_lt.mp negative)
    rw [asSize_natCast (by omega)]
    exact Int.ofNat_lt.mp high

/-- Below `2 ^ 31 - 2` the target is large enough, unless the product overflows: then it is
too large. -/
theorem encodeRoom_fits {src : List Byte} (sized : encodeRoom src ≤ maxSize) :
    (encoded src).length + 1 ≤ encodeRoom src ↔ src.length < 2 ^ 31 - 2 := by
  rw [encoded_length]
  constructor
  · intro room
    have bound := encodeRoom_lt sized
    omega
  · intro small
    by_cases fits : 4 * ((src.length + 2) / 3) < 2 ^ 31
    · have size := encodeRoom_eq small fits
      omega
    · have product : int32 (4 * ((src.length + 2) / 3) : Nat) =
          (4 * ((src.length + 2) / 3) : Nat) - 2 ^ 32 := by
        rw [int32, Int.bmod_def]
        split <;> omega
      have sum : base64EncodeLen (asInt src.length) =
          (4 * ((src.length + 2) / 3) : Nat) - 2 ^ 32 + 1 := by
        rw [base64EncodeLen_eq small, product]
        exact int32_of_fits (by omega) (by omega)
      have large : maxSize < encodeRoom src := by
        rw [encodeRoom, sum]
        exact asSize_negative (by omega) (by omega)
      omega

/-! ## Decoding -/

theorem decodeEnd_outside {out : Checked (Nat × List Byte)}
    (h : decodeEnd out = .error .outOfBounds) : out = .error .outOfBounds := by
  cases out with
  | error fault =>
    cases h
    rfl
  | ok r =>
    simp only [decodeEnd, resize] at h
    split at h
    · cases h
    · cases h

theorem decodeLoop_inside {src mem : List Byte}
    (room : decodedLength (legible src).length ≤ mem.length) (fuel : Nat) :
    decodeLoop src fuel 0 0 0 mem ≠ some (.error .outOfBounds) := by
  intro fault
  obtain ⟨t, run⟩ := decodeLoop_start src mem (fuel + 1)
  rw [if_pos room] at run
  have same := decodeLoop_more fault (1 + (legible src).length)
  rw [← Nat.add_assoc, run] at same
  by_cases stops : Stops src
  · rw [decodeLoop_stops stops] at same
    cases same
  · rw [decodeLoop_stuck stops] at same
    cases same

/-- Neither function writes outside of its target. -/
def EncodesInside (src : List Byte) (dst : Option (List Byte)) : Prop :=
  base64Encode src dst ≠ .error .outOfBounds

def DecodesInside (src : List Byte) (dst : Option (List Byte)) : Prop :=
  ∀ fuel, base64Decode fuel src dst ≠ some (.error .outOfBounds)

theorem encodesInside_iff (src : List Byte) (dst : Option (List Byte)) :
    EncodesInside src dst ↔
      dst = none ∨ maxSize < encodeRoom src ∨ src.length < 2 ^ 31 - 2 := by
  unfold EncodesInside
  cases dst with
  | none => simp [base64Encode]
  | some old =>
    by_cases nonempty : src = []
    · subst nonempty
      simp [base64Encode]
    by_cases sized : encodeRoom src ≤ maxSize
    · have fits := encodeRoom_fits sized
      by_cases room : (encoded src).length + 1 ≤ encodeRoom src
      · rw [base64Encode_fits nonempty sized room]
        exact iff_of_true (by simp) (.inr (.inr (fits.mp room)))
      · rw [base64Encode_past nonempty sized (by omega)]
        refine iff_of_false (fun inside => inside rfl) ?_
        rintro (none | large | small)
        · cases none
        · omega
        · exact room (fits.mpr small)
    · rw [base64Encode_throws nonempty (by omega)]
      simp [Nat.lt_of_not_le sized]

theorem decodesInside_iff (src : List Byte) (dst : Option (List Byte)) :
    DecodesInside src dst ↔
      dst = none ∨ maxSize < decodeRoom src ∨
        decodedLength (legible src).length ≤ decodeRoom src := by
  unfold DecodesInside
  cases dst with
  | none => simp [base64Decode]
  | some old =>
    by_cases nonempty : src = []
    · subst nonempty
      simp [base64Decode, legible, decodedLength]
    by_cases sized : decodeRoom src ≤ maxSize
    · obtain ⟨mem, resized, size⟩ := resize_ok old sized
      simp only [base64Decode_ok nonempty resized]
      by_cases room : decodedLength (legible src).length ≤ decodeRoom src
      · simp only [room, or_true, iff_true]
        intro fuel fault
        obtain ⟨out, loop, last⟩ := Option.map_eq_some_iff.mp fault
        rw [decodeEnd_outside last] at loop
        exact decodeLoop_inside (size ▸ room) fuel loop
      · obtain ⟨t, run⟩ := decodeLoop_start src mem 0
        rw [if_neg (size ▸ room)] at run
        simp only [room, Nat.not_lt_of_le sized, or_false, reduceCtorEq, iff_false, not_forall,
          not_not]
        exact ⟨_, congrArg (Option.map decodeEnd) run⟩
    · have nonzero : src.length ≠ 0 := fun none => nonempty (List.eq_nil_of_length_eq_zero none)
      have thrown : resize old (asSize (base64DecodeLen (asInt src.length))) = .error .uncaught :=
        if_neg sized
      simp [base64Decode, nonzero, thrown, Nat.lt_of_not_le sized]

/-- **Writes stay inside the target exactly in these cases.** The encoder writes outside of it
from `2 ^ 31 - 2` bytes on, wherever `resize` does not throw. The decoder does not below
`2 ^ 31`; from there on it depends on how many letters the text starts with. -/
theorem base64_inside_iff (src : List Byte) (dst : Option (List Byte)) :
    (EncodesInside src dst ↔ dst = none ∨ maxSize < encodeRoom src ∨ src.length < 2 ^ 31 - 2) ∧
    (DecodesInside src dst ↔ dst = none ∨ maxSize < decodeRoom src ∨
      decodedLength (legible src).length ≤ decodeRoom src) ∧
    (src.length < 2 ^ 31 → DecodesInside src dst) := by
  refine ⟨encodesInside_iff src dst, decodesInside_iff src dst, fun small => ?_⟩
  exact (decodesInside_iff src dst).mpr (.inr (.inr (decode_fits small).2))

theorem base64_inside_short : EncodesInside [1, 2, 3, 4] (some []) ∧
    DecodesInside (encoded [1, 2, 3, 4]) (some []) :=
  ⟨((base64_inside_iff [1, 2, 3, 4] (some [])).1).mpr (by decide),
    (base64_inside_iff (encoded [1, 2, 3, 4]) (some [])).2.2 (by decide)⟩

/-- From `2 ^ 31 - 2` bytes the size comes out as 1431655769, and `2 ^ 32` letters are decoded
into a target of two bytes. -/
theorem base64_overflows :
    (∃ src : List Byte, src.length = 2 ^ 31 - 2 ∧ encodeRoom src = 1431655769 ∧
      ¬ EncodesInside src (some [])) ∧
    ∃ src : List Byte, src.length = 2 ^ 32 ∧ decodeRoom src = 2 ∧
      ¬ DecodesInside src (some []) := by
  constructor
  · have length : (List.replicate (2 ^ 31 - 2) (0 : Byte)).length = 2 ^ 31 - 2 :=
      List.length_replicate
    generalize List.replicate (2 ^ 31 - 2) (0 : Byte) = src at length
    have room : encodeRoom src = 1431655769 := by
      rw [encodeRoom, length]
      decide
    refine ⟨src, length, room, ?_⟩
    rw [encodesInside_iff, room, length]
    decide
  · have length : (List.replicate (2 ^ 32) (byteOf 'A')).length = 2 ^ 32 := List.length_replicate
    have letters : legible (List.replicate (2 ^ 32) (byteOf 'A')) =
        List.replicate (2 ^ 32) (byteOf 'A') := by
      rw [legible, List.takeWhile_eq_self_iff]
      intro ch mem
      rw [List.eq_of_mem_replicate mem]
      decide
    generalize List.replicate (2 ^ 32) (byteOf 'A') = src at length letters
    have room : decodeRoom src = 2 := by
      rw [decodeRoom, length]
      decide
    refine ⟨src, length, room, ?_⟩
    rw [decodesInside_iff, room, letters, length]
    decide

end Libatp.Base64
