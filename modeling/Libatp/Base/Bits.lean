import Mathlib.Algebra.GroupWithZero.Nat
import Mathlib.Data.List.Basic
import Mathlib.Data.List.Induction

/-!
# Bit strings

A number of a given width spells a bit string, the most significant bit first, and
strings are cut into groups of one width. Joining and cutting are all there is to a
change of the group width.
-/

namespace Libatp.Base

/-- The low `w` bits of a number. -/
def bits : Nat → Nat → List Bool
  | 0, _ => []
  | w + 1, n => bits w (n / 2) ++ [decide (n % 2 = 1)]

/-- The number a bit string spells. -/
def spelled (l : List Bool) : Nat := l.foldl (fun n b => 2 * n + b.toNat) 0

@[simp] theorem bits_length (w n : Nat) : (bits w n).length = w := by
  induction w generalizing n with
  | zero => rfl
  | succ w ih => simp [bits, ih]

theorem spelled_concat (l : List Bool) (b : Bool) :
    spelled (l ++ [b]) = 2 * spelled l + b.toNat := by
  simp [spelled]

theorem spelled_bits (w n : Nat) : spelled (bits w n) = n % 2 ^ w := by
  induction w generalizing n with
  | zero => simp [bits, spelled, Nat.mod_one]
  | succ w ih =>
    rw [bits, spelled_concat, ih]
    have last : (decide (n % 2 = 1)).toNat = n % 2 := by
      rcases Nat.mod_two_eq_zero_or_one n with even | odd
      · simp [even]
      · simp [odd]
    rw [last, Nat.pow_succ, Nat.mul_comm (2 ^ w) 2, Nat.mod_mul, Nat.add_comm]

/-- The high bits of a number, and then its low bits. -/
theorem bits_add (v w n : Nat) : bits (v + w) n = bits v (n / 2 ^ w) ++ bits w n := by
  induction w generalizing n with
  | zero => simp [bits]
  | succ w ih =>
    rw [← Nat.add_assoc, bits, ih, bits, Nat.div_div_eq_div_mul, Nat.pow_succ,
      Nat.mul_comm (2 ^ w) 2, List.append_assoc]

/-- Bits above the width do not show. -/
theorem bits_mod (w n : Nat) : bits w (n % 2 ^ w) = bits w n := by
  induction w generalizing n with
  | zero => rfl
  | succ w ih =>
    have low : n % 2 ^ (w + 1) % 2 = n % 2 := by
      rw [Nat.pow_succ, Nat.mul_comm, Nat.mod_mul_right_mod]
    have high : n % 2 ^ (w + 1) / 2 = n / 2 % 2 ^ w := by
      rw [Nat.pow_succ, Nat.mul_comm, Nat.mod_mul_right_div_self]
    rw [bits, bits, low, high, ih]

/-- Two strings side by side are one of the sum of the widths. -/
theorem bits_append (v w : Nat) {m n : Nat} (small : n < 2 ^ w) :
    bits v m ++ bits w n = bits (v + w) (m * 2 ^ w + n) := by
  have high : (m * 2 ^ w + n) / 2 ^ w = m := by
    rw [Nat.add_comm, Nat.add_mul_div_right _ _ (Nat.two_pow_pos w), Nat.div_eq_of_lt small,
      Nat.zero_add]
  have low : bits w (m * 2 ^ w + n) = bits w n := by
    rw [← bits_mod w (m * 2 ^ w + n), Nat.mul_comm, Nat.mul_add_mod, bits_mod]
  rw [bits_add, high, low]

theorem bits_zero (w : Nat) : bits w 0 = List.replicate w false := by
  induction w with
  | zero => rfl
  | succ w ih => simp [bits, ih, List.replicate_succ']

/-! ## Groups -/

/-- The whole groups of `w` bits. -/
def groups (w : Nat) (l : List Bool) : List (List Bool) :=
  (List.range (l.length / w)).map fun k => (l.drop (w * k)).take w

/-- Zeros up to a whole number of groups. -/
def fill (w : Nat) (l : List Bool) : List Bool :=
  l ++ List.replicate ((w - l.length % w) % w) false

theorem groups_append {w : Nat} (pos : 0 < w) {x : List Bool} (whole : x.length = w)
    (l : List Bool) : groups w (x ++ l) = x :: groups w l := by
  have count : (x ++ l).length / w = l.length / w + 1 := by
    rw [List.length_append, whole, Nat.add_div_left _ pos]
  rw [groups, count, List.range_succ_eq_map, List.map_cons, List.map_map]
  congr 1
  · rw [Nat.mul_zero, List.drop_zero, ← whole, List.take_left]
  · apply List.map_congr_left
    intro k _
    show ((x ++ l).drop (w * (k + 1))).take w = (l.drop (w * k)).take w
    rw [Nat.mul_succ, Nat.add_comm, ← List.drop_drop, ← whole, List.drop_left]

/-- The first group of a number that has `m` more bits. -/
theorem groups_bits {w : Nat} (pos : 0 < w) (m n : Nat) (l : List Bool) :
    groups w (bits (w + m) n ++ l) = bits w (n / 2 ^ m) :: groups w (bits m n ++ l) := by
  rw [bits_add, List.append_assoc, groups_append pos (bits_length _ _)]

theorem fill_append {w : Nat} {x : List Bool} (whole : x.length % w = 0) (l : List Bool) :
    fill w (x ++ l) = x ++ fill w l := by
  have rest : (x ++ l).length % w = l.length % w := by
    rw [List.length_append, Nat.add_mod, whole, Nat.zero_add, Nat.mod_mod]
  rw [fill, fill, rest, List.append_assoc]

/-! ## Back from groups -/

theorem bits_spelled (l : List Bool) : bits l.length (spelled l) = l := by
  induction l using List.reverseRecOn with
  | nil => rfl
  | append_singleton l b ih =>
    have high : (2 * spelled l + b.toNat) / 2 = spelled l := by
      cases b with
      | false => simp
      | true => rw [Bool.toNat_true]; omega
    have low : decide ((2 * spelled l + b.toNat) % 2 = 1) = b := by
      cases b with
      | false => simp
      | true => simp
    rw [List.length_append, List.length_singleton, bits, spelled_concat, high, low, ih]

theorem groups_short {w : Nat} {l : List Bool} (short : l.length < w) : groups w l = [] := by
  rw [groups, Nat.div_eq_of_lt short]
  rfl

theorem groups_flatMap {α : Type} {w : Nat} (pos : 0 < w) (f : α → Nat) (xs : List α) :
    groups w (xs.flatMap fun x => bits w (f x)) = xs.map fun x => bits w (f x) := by
  induction xs with
  | nil => exact groups_short pos
  | cons x xs ih => rw [List.flatMap_cons, groups_append pos (bits_length _ _), ih, List.map_cons]

theorem length_of_mem_groups {w : Nat} {l x : List Bool} (mem : x ∈ groups w l) :
    x.length = w := by
  obtain ⟨k, lt, rfl⟩ := List.mem_map.mp mem
  have room : w * (k + 1) ≤ l.length :=
    Nat.le_trans (Nat.mul_le_mul_left w (List.mem_range.mp lt)) (Nat.mul_div_le l.length w)
  rw [Nat.mul_succ] at room
  rw [List.length_take, List.length_drop, Nat.min_eq_left (by omega)]

/-- What is left over is less than a group. -/
theorem groups_flatten {w : Nat} (pos : 0 < w) (l : List Bool) :
    (groups w l).flatten = l.take (w * (l.length / w)) := by
  induction size : l.length using Nat.strongRecOn generalizing l with
  | ind n ih =>
    by_cases short : l.length < w
    · rw [groups_short short, ← size, Nat.div_eq_of_lt short]
      rfl
    · have whole : (l.take w).length = w := by
        rw [List.length_take, Nat.min_eq_left (Nat.le_of_not_lt short)]
      have rest : (l.drop w).length = n - w := by rw [List.length_drop, size]
      have more : n / w = (n - w) / w + 1 := Nat.div_eq_sub_div pos (by omega)
      have first : groups w l = l.take w :: groups w (l.drop w) := by
        rw [← groups_append pos whole, List.take_append_drop]
      rw [first, List.flatten_cons, ih (n - w) (by omega) _ rest, more, Nat.mul_succ,
        Nat.add_comm, List.take_add]

end Libatp.Base
