import Mathlib.Data.List.Basic

/-!
# Flat memory

A memory area is the list of its cells. `window` reads a range, `splice`
overwrites one; both are total, and their callers check the bounds.
-/

namespace Libatp.Base

variable {α : Type}

def window (mem : List α) (off len : Nat) : List α := (mem.drop off).take len

def splice (mem : List α) (off : Nat) (src : List α) : List α :=
  mem.take off ++ src ++ mem.drop (off + src.length)

@[simp] theorem window_length (mem : List α) (off len : Nat) :
    (window mem off len).length = min len (mem.length - off) := by
  simp [window]

@[simp] theorem window_zero (mem : List α) (off : Nat) : window mem off 0 = [] := by
  simp [window]

theorem splice_length {mem src : List α} {off : Nat} (h : off + src.length ≤ mem.length) :
    (splice mem off src).length = mem.length := by
  simp only [splice, List.length_append, List.length_take, List.length_drop]
  omega

/-- A range read back just after it was written. -/
theorem window_splice_self {mem src : List α} {off : Nat} (h : off + src.length ≤ mem.length) :
    window (splice mem off src) off src.length = src := by
  have hl : (mem.take off).length = off := by rw [List.length_take]; omega
  simp only [window, splice, List.append_assoc]
  rw [List.drop_append_of_le_length (by omega), List.drop_of_length_le (by omega), List.nil_append,
    List.take_left]

/-- A write at or after the end of a range does not show in it. -/
theorem window_splice_before {mem src : List α} {off off' len : Nat} (h : off + len ≤ off')
    (hb : off' ≤ mem.length) : window (splice mem off' src) off len = window mem off len := by
  have hl : (mem.take off').length = off' := by rw [List.length_take]; omega
  simp only [window, splice, List.append_assoc]
  rw [List.drop_append_of_le_length (by omega), List.take_append_of_le_length
    (by rw [List.length_drop]; omega), List.drop_take, List.take_take]
  congr 1
  omega

/-- A write that ends at or before the start of a range does not show in it. -/
theorem window_splice_after {mem src : List α} {off off' len : Nat} (h : off' + src.length ≤ off)
    (hb : off' + src.length ≤ mem.length) :
    window (splice mem off' src) off len = window mem off len := by
  have hl : (mem.take off' ++ src).length = off' + src.length := by
    rw [List.length_append, List.length_take]; omega
  simp only [window, splice]
  rw [List.drop_append, List.drop_of_length_le (by omega), List.nil_append, hl, List.drop_drop]
  congr 2
  omega

/-- Adjacent ranges read as one. -/
theorem window_append (mem : List α) (off m n : Nat) :
    window mem off (m + n) = window mem off m ++ window mem (off + m) n := by
  simp only [window, List.take_add, List.drop_drop]

theorem window_drop (mem : List α) (off len k : Nat) :
    (window mem off len).drop k = window mem (off + k) (len - k) := by
  simp only [window, List.drop_take, List.drop_drop]

theorem window_take {mem : List α} {off len k : Nat} (h : k ≤ len) :
    (window mem off len).take k = window mem off k := by
  simp only [window, List.take_take, Nat.min_eq_left h]

/-- A range that starts `d` cells into a write and reaches to its end or past it. -/
theorem window_splice_inside {mem src : List α} {off d len : Nat}
    (h : off + src.length ≤ mem.length) (hd : d ≤ src.length) (past : src.length - d ≤ len) :
    window (splice mem off src) (off + d) len =
      src.drop d ++ window mem (off + src.length) (len - (src.length - d)) := by
  have inside : window (splice mem off src) (off + d) (src.length - d) = src.drop d := by
    rw [← window_drop, window_splice_self h]
  have split : len = src.length - d + (len - (src.length - d)) := by omega
  have meets : off + d + (src.length - d) = off + src.length := by omega
  rw [split, window_append, inside, meets, window_splice_after (Nat.le_refl _) h, ← split]

/-- Writes side by side are one. -/
theorem splice_adjacent {mem xs ys : List α} {off : Nat} (h : off ≤ mem.length) :
    splice (splice mem off xs) (off + xs.length) ys = splice mem off (xs ++ ys) := by
  have front : (mem.take off ++ xs).length = off + xs.length := by
    rw [List.length_append, List.length_take, Nat.min_eq_left h]
  rw [splice, splice, ← front, List.take_left, List.drop_append, front,
    List.drop_of_length_le (by omega), List.nil_append, List.drop_drop, splice,
    List.length_append, List.append_assoc (mem.take off)]
  congr 2
  omega

/-- A write into what was just written. -/
theorem splice_inside {mem xs ys : List α} {off k : Nat} (h : off ≤ mem.length)
    (inside : k + ys.length ≤ xs.length) :
    splice (splice mem off xs) (off + k) ys = splice mem off (splice xs k ys) := by
  have front : (mem.take off).length = off := by rw [List.length_take, Nat.min_eq_left h]
  have before : (splice mem off xs).take (off + k) = mem.take off ++ xs.take k := by
    rw [splice, List.append_assoc]
    nth_rewrite 1 [← front]
    rw [List.take_length_add_append, List.take_append_of_le_length (by omega)]
  have after : (splice mem off xs).drop (off + k + ys.length) =
      xs.drop (k + ys.length) ++ mem.drop (off + xs.length) := by
    rw [splice, List.append_assoc, Nat.add_assoc]
    nth_rewrite 1 [← front]
    rw [List.drop_length_add_append, List.drop_append_of_le_length inside]
  rw [splice, before, after, splice, splice_length inside, splice]
  simp only [List.append_assoc]

/-! ## Single cells -/

theorem getElem?_set_cases {mem : List α} {i j : Nat} {a b : α} (h : (mem.set i a)[j]? = some b) :
    j = i ∧ b = a ∨ j ≠ i ∧ mem[j]? = some b := by
  rw [List.getElem?_set] at h
  split at h
  · rename_i same
    split at h
    · exact .inl ⟨same.symm, (Option.some.inj h).symm⟩
    · cases h
  · rename_i other
    exact .inr ⟨Ne.symm other, h⟩

theorem getElem?_concat_cases {mem : List α} {j : Nat} {a b : α}
    (h : (mem ++ [a])[j]? = some b) : mem[j]? = some b ∨ j = mem.length ∧ b = a := by
  rw [List.getElem?_append] at h
  split at h
  · exact .inl h
  · obtain ⟨last, same⟩ := List.getElem?_eq_some_iff.mp h
    rw [List.length_singleton] at last
    rw [List.getElem_singleton] at same
    exact .inr ⟨by omega, same.symm⟩

end Libatp.Base
