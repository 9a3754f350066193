import Libatp.Base.Checked

/-!
# `RingBuffer` (`net/atp_ring_buffer.hpp`)

A list with a bound. `pop_front` and `back` of an empty list are accesses outside
the list. The bound is compared for equality, so it says nothing about a list that
is already longer.
-/

namespace Libatp.Wheel
open Base

structure RingBuffer (α : Type) where
  maxSize : Nat
  coreList : List α

/-- `INIT_RING_BUFFER_SIZE` -/
def initRingBufferSize : Nat := 10

namespace RingBuffer

variable {α : Type}

def make : RingBuffer α where
  maxSize := initRingBufferSize
  coreList := []

/-- `RingBuffer(size_t)` -/
def withSize (size : Nat) : RingBuffer α where
  maxSize := size
  coreList := []

def resize (r : RingBuffer α) (size : Nat) : RingBuffer α :=
  { r with maxSize := size }

def size (r : RingBuffer α) : Nat := r.coreList.length

def full (r : RingBuffer α) : Bool := r.coreList.length == r.maxSize

/-- The buffer, and the element that `pop_front` removed. -/
def pushBack (r : RingBuffer α) (elem : α) : Checked (RingBuffer α × Option α) :=
  if r.coreList.length = r.maxSize then
    match r.coreList with
    | [] => .error .outOfBounds
    | front :: rest => .ok ({ r with coreList := rest ++ [elem] }, some front)
  else
    .ok ({ r with coreList := r.coreList ++ [elem] }, none)

theorem pushBack_full {r : RingBuffer α} {front : α} {rest : List α}
    (list : r.coreList = front :: rest) (full : r.coreList.length = r.maxSize) (elem : α) :
    r.pushBack elem = .ok ({ r with coreList := rest ++ [elem] }, some front) := by
  rw [pushBack, if_pos full, list]

theorem pushBack_not_full {r : RingBuffer α} (other : r.coreList.length ≠ r.maxSize) (elem : α) :
    r.pushBack elem = .ok ({ r with coreList := r.coreList ++ [elem] }, none) :=
  if_neg other

def back (r : RingBuffer α) : Checked α :=
  match r.coreList.getLast? with
  | none => .error .outOfBounds
  | some last => .ok last

/-- An assignment through the reference that `back` returns. -/
def setBack (r : RingBuffer α) (elem : α) : RingBuffer α :=
  { r with coreList := r.coreList.dropLast ++ [elem] }

/-- The buffer holds the newest `maxSize` of the elements in `log`, which lists all
that were ever pushed, the newest first. -/
def Holds (r : RingBuffer α) (log : List α) : Prop :=
  r.coreList.reverse = log.take r.maxSize

theorem Holds.length_eq {r : RingBuffer α} {log : List α} (h : r.Holds log) :
    r.coreList.length = min r.maxSize log.length := by
  rw [← List.length_reverse, h, List.length_take]

theorem Holds.mem_iff {r : RingBuffer α} {log : List α} (h : r.Holds log) (x : α) :
    x ∈ r.coreList ↔ x ∈ log.take r.maxSize := by
  rw [← h, List.mem_reverse]

/-- `push_back` keeps the newest elements, and what it removes is the element that
was pushed `maxSize` calls ago. -/
theorem Holds.pushBack {r : RingBuffer α} {log : List α} (h : r.Holds log)
    (room : 1 ≤ r.maxSize) (elem : α) :
    ∃ r', r.pushBack elem = .ok (r', log[r.maxSize - 1]?) ∧ r'.maxSize = r.maxSize ∧
      r'.Holds (elem :: log) := by
  have len := h.length_eq
  obtain ⟨m, hm⟩ : ∃ m, r.maxSize = m + 1 := ⟨r.maxSize - 1, by omega⟩
  by_cases full : r.coreList.length = r.maxSize
  · cases list : r.coreList with
    | nil => rw [list, List.length_nil] at full; omega
    | cons front rest =>
      have split : rest.reverse ++ [front] = log.take (m + 1) := by
        rw [← hm, ← h, list, List.reverse_cons]
      have size : rest.reverse.length = m := by
        rw [list, List.length_cons] at full
        rw [List.length_reverse]
        omega
      have out : log[m]? = some front := by
        rw [← List.getElem?_take_of_lt (Nat.lt_succ_self m), ← split, ← size,
          List.getElem?_concat_length]
      refine ⟨{ r with coreList := rest ++ [elem] }, ?_, rfl, ?_⟩
      · rw [pushBack_full list full, hm, Nat.add_sub_cancel, out]
      · show (rest ++ [elem]).reverse = (elem :: log).take r.maxSize
        have older : rest.reverse = log.take m := by
          have := congrArg (List.take m) split
          rwa [List.take_take, Nat.min_eq_left (Nat.le_succ m), ← size,
            List.take_left, size] at this
        rw [List.reverse_append, List.reverse_singleton, hm, List.take_succ_cons, older]
        rfl
  · have short : log.length ≤ m := by omega
    refine ⟨{ r with coreList := r.coreList ++ [elem] }, ?_, rfl, ?_⟩
    · rw [pushBack_not_full full, hm, Nat.add_sub_cancel, List.getElem?_eq_none short]
    · show (r.coreList ++ [elem]).reverse = (elem :: log).take r.maxSize
      rw [List.reverse_append, List.reverse_singleton, h, hm, List.take_succ_cons,
        List.take_of_length_le short, List.take_of_length_le (by omega)]
      rfl

/-- The newest element is the one that `back` refers to. -/
theorem Holds.back {r : RingBuffer α} {newest : α} {log : List α}
    (h : r.Holds (newest :: log)) (room : 1 ≤ r.maxSize) : r.back = .ok newest := by
  have last : r.coreList.getLast? = some newest := by
    rw [← List.head?_reverse, h, List.head?_take, if_neg (by omega), List.head?_cons]
  rw [RingBuffer.back, last]

theorem Holds.setBack {r : RingBuffer α} {newest : α} {log : List α}
    (h : r.Holds (newest :: log)) (room : 1 ≤ r.maxSize) (elem : α) :
    (r.setBack elem).Holds (elem :: log) := by
  obtain ⟨m, hm⟩ : ∃ m, r.maxSize = m + 1 := ⟨r.maxSize - 1, by omega⟩
  have older : r.coreList.dropLast.reverse = log.take m := by
    rw [← List.tail_reverse, h, hm, List.take_succ_cons, List.tail_cons]
  show (r.coreList.dropLast ++ [elem]).reverse = (elem :: log).take r.maxSize
  rw [List.reverse_append, List.reverse_singleton, older, hm, List.take_succ_cons]
  rfl

/-- On an empty buffer there is nothing for `back` to refer to. -/
theorem Holds.back_nil {r : RingBuffer α} (h : r.Holds []) : r.back = .error .outOfBounds := by
  have none : r.coreList = [] := by
    rw [← List.reverse_eq_nil_iff, h, List.take_nil]
  rw [RingBuffer.back, none]
  rfl

end RingBuffer

end Libatp.Wheel
