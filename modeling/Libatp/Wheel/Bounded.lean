import Libatp.Wheel.RingBuffer
import Mathlib.Data.List.DropRight

/-!
# Histories of a ring

A ring is pushed to and resized in any order. What it holds is always the end of
what was pushed, and it evicts only when it is full. It stays within its limit
exactly as long as nothing is pushed to a ring that a `resize` has left longer
than its limit: such a ring is never full again, so it evicts nothing.
-/

namespace Libatp.Wheel

inductive RingOp (α : Type) where
  | pushBack (elem : α)
  | resize (size : Nat)

namespace RingOp

variable {α : Type}

/-- The ring is never given room for no element at all. -/
def Sized : RingOp α → Prop
  | pushBack _ => True
  | resize size => 1 ≤ size

instance (op : RingOp α) : Decidable op.Sized :=
  match op with
  | pushBack _ => .isTrue trivial
  | resize size => inferInstanceAs (Decidable (1 ≤ size))

/-- The elements pushed, the oldest first. -/
def pushed : List (RingOp α) → List α
  | [] => []
  | pushBack elem :: ops => elem :: pushed ops
  | resize _ :: ops => pushed ops

theorem pushed_append (xs ys : List (RingOp α)) : pushed (xs ++ ys) = pushed xs ++ pushed ys := by
  induction xs with
  | nil => rfl
  | cons op xs ih =>
    cases op with
    | pushBack elem => exact congrArg (elem :: ·) ih
    | resize size => exact ih

/-- `Q` of every push in `ops` and of the calls before it. -/
def EachPush (Q : List (RingOp α) → α → Prop) (ops : List (RingOp α)) : Prop :=
  ∀ before elem after, ops = before ++ pushBack elem :: after → Q before elem

section
variable {Q R : List (RingOp α) → α → Prop} {ops : List (RingOp α)}

theorem eachPush_nil : EachPush Q [] := by
  intro before elem after split
  simp at split

theorem eachPush_resize {size : Nat} :
    EachPush Q (resize size :: ops) ↔ EachPush (fun before => Q (resize size :: before)) ops := by
  constructor
  · intro h before elem after split
    exact h _ elem after (congrArg (resize size :: ·) split)
  · intro h before elem after split
    cases before with
    | nil => simp at split
    | cons op before =>
      obtain ⟨rfl, rest⟩ := List.cons.inj split
      exact h before elem after rest

theorem eachPush_pushBack {elem : α} :
    EachPush Q (pushBack elem :: ops) ↔
      Q [] elem ∧ EachPush (fun before => Q (pushBack elem :: before)) ops := by
  constructor
  · intro h
    refine ⟨h [] elem ops rfl, ?_⟩
    intro before later after split
    exact h _ later after (congrArg (pushBack elem :: ·) split)
  · rintro ⟨first, h⟩ before later after split
    cases before with
    | nil =>
      obtain ⟨same, rfl⟩ := List.cons.inj split
      cases same
      exact first
    | cons op before =>
      obtain ⟨rfl, rest⟩ := List.cons.inj split
      exact h before later after rest

theorem EachPush.congr (h : EachPush (fun before elem => Q before elem ↔ R before elem) ops) :
    EachPush Q ops ↔ EachPush R ops := by
  constructor
  · intro all before elem after split
    exact (h before elem after split).mp (all before elem after split)
  · intro all before elem after split
    exact (h before elem after split).mpr (all before elem after split)

end

/-- Nothing is pushed while more elements are held than the limit allows; `size`
elements are held before the calls, and the limit is `limit`. -/
def Fits (size limit : Nat) : List (RingOp α) → Prop
  | [] => True
  | pushBack _ :: ops => size ≤ limit ∧ Fits (min (size + 1) limit) limit ops
  | resize limit' :: ops => Fits size limit' ops

instance decidableFits (size limit : Nat) (ops : List (RingOp α)) :
    Decidable (Fits size limit ops) :=
  match ops with
  | [] => .isTrue trivial
  | pushBack _ :: ops =>
    have := decidableFits (min (size + 1) limit) limit ops
    inferInstanceAs (Decidable (_ ∧ _))
  | resize limit' :: ops => decidableFits size limit' ops

end RingOp

namespace RingBuffer
open Base RingOp

variable {α : Type} {r : RingBuffer α}

/-- The ring after a call, and the element that the call evicted. -/
def exec (r : RingBuffer α) : RingOp α → Checked (RingBuffer α × Option α)
  | .pushBack elem => r.pushBack elem
  | .resize size => .ok (r.resize size, none)

def run (r : RingBuffer α) : List (RingOp α) → Checked (RingBuffer α)
  | [] => .ok r
  | op :: ops => do
    let (r', _) ← r.exec op
    r'.run ops

/-! ## One push -/

/-- Together the evicted element and the ring are what the ring and the new element
were, and there is an evicted element exactly if the ring was full. -/
theorem pushBack_spec (room : 1 ≤ r.maxSize) (elem : α) :
    ∃ r' out, r.pushBack elem = .ok (r', out) ∧ r'.maxSize = r.maxSize ∧
      out.toList ++ r'.coreList = r.coreList ++ [elem] ∧ (out.isSome ↔ r.full) := by
  by_cases full : r.coreList.length = r.maxSize
  · cases list : r.coreList with
    | nil =>
      rw [list, List.length_nil] at full
      omega
    | cons front rest =>
      exact ⟨_, _, pushBack_full list full elem, rfl, rfl, by simp [RingBuffer.full, full]⟩
  · exact ⟨_, _, pushBack_not_full full elem, rfl, rfl, by simp [RingBuffer.full, full]⟩

theorem pushBack_size {r' : RingBuffer α} {elem : α} {out : Option α}
    (moved : out.toList ++ r'.coreList = r.coreList ++ [elem]) (evicts : out.isSome ↔ r.full) :
    r'.size = if r.size = r.maxSize then r.size else r.size + 1 := by
  have total := congrArg List.length moved
  simp only [List.length_append, List.length_singleton] at total
  simp only [full, beq_iff_eq] at evicts
  unfold size
  cases out with
  | none =>
    rw [if_neg (by simpa using evicts)]
    simpa using total
  | some front =>
    rw [if_pos (by simpa using evicts)]
    simp only [Option.toList_some, List.length_singleton] at total
    omega

/-! ## Whole histories -/

/-- The ring has a limit and holds the end of `log`. -/
structure Holding (r : RingBuffer α) (log : List α) : Prop where
  room : 1 ≤ r.maxSize
  kept : r.coreList <:+ log

theorem Holding.push {log : List α} (h : r.Holding log) (elem : α) :
    ∃ r' out, r.pushBack elem = .ok (r', out) ∧ r'.maxSize = r.maxSize ∧
      r'.Holding (log ++ [elem]) ∧ (out.isSome ↔ r.full) ∧
      r'.size = if r.size = r.maxSize then r.size else r.size + 1 := by
  obtain ⟨r', out, push, limit, moved, evicts⟩ := pushBack_spec h.room elem
  refine ⟨r', out, push, limit, ⟨?_, ?_⟩, evicts, pushBack_size moved evicts⟩
  · rw [limit]
    exact h.room
  · obtain ⟨older, rfl⟩ := h.kept
    refine ⟨older ++ out.toList, ?_⟩
    rw [List.append_assoc, moved, List.append_assoc]

theorem Holding.resize {log : List α} (h : r.Holding log) {size : Nat} (some : 1 ≤ size) :
    (r.resize size).Holding log :=
  ⟨some, h.kept⟩

/-- No history of calls stops at a fault, and none makes the ring hold anything but
the latest elements. -/
theorem Holding.run {log : List α} (h : r.Holding log) {ops : List (RingOp α)}
    (sized : ∀ op ∈ ops, op.Sized) : ∃ r', r.run ops = .ok r' ∧ r'.Holding (log ++ pushed ops) := by
  induction ops generalizing r log with
  | nil => exact ⟨r, rfl, by simpa [pushed] using h⟩
  | cons op ops ih =>
    obtain ⟨first, later⟩ := List.forall_mem_cons.mp sized
    cases op with
    | pushBack elem =>
      obtain ⟨r', out, push, _, held, _⟩ := h.push elem
      obtain ⟨last, rest, done⟩ := ih held later
      refine ⟨last, ?_, by simpa [pushed] using done⟩
      simp only [RingBuffer.run, exec, push, ok_bind]
      exact rest
    | resize size => exact ih (h.resize first) later

/-- What the calls of `before` leave in the ring when the next push comes is within
the limit. -/
def Within (r : RingBuffer α) (before : List (RingOp α)) : Prop :=
  ∃ r', r.run before = .ok r' ∧ r'.size ≤ r'.maxSize

theorem Holding.within_iff {log : List α} (h : r.Holding log) {ops : List (RingOp α)}
    (sized : ∀ op ∈ ops, op.Sized) :
    EachPush (fun before _ => r.Within before) ops ↔ Fits r.size r.maxSize ops := by
  induction ops generalizing r log with
  | nil => exact iff_of_true eachPush_nil trivial
  | cons op ops ih =>
    obtain ⟨first, later⟩ := List.forall_mem_cons.mp sized
    cases op with
    | resize size => exact eachPush_resize.trans (ih (h.resize first) later)
    | pushBack elem =>
      obtain ⟨r', out, push, limit, held, _, size⟩ := h.push elem
      have next := ih held later
      have now : r.Within [] ↔ r.size ≤ r.maxSize := by simp [Within, RingBuffer.run]
      have after : ∀ before, r.Within (.pushBack elem :: before) ↔ r'.Within before := by
        intro before
        simp only [Within, RingBuffer.run, exec, push, ok_bind]
      simp only [eachPush_pushBack, now, after, next, Fits, limit]
      refine and_congr_right fun fits => ?_
      rw [show r'.size = min (r.size + 1) r.maxSize by split at size <;> omega]

/-- A ring that holds more than its limit evicts nothing however much is pushed. -/
theorem overfull_run (above : r.maxSize < r.size) (elems : List α) :
    r.run (elems.map .pushBack) = .ok { r with coreList := r.coreList ++ elems } := by
  induction elems generalizing r with
  | nil => simp [RingBuffer.run]
  | cons elem elems ih =>
    have push := pushBack_not_full (Nat.ne_of_gt above) elem
    have longer : r.maxSize < (r.coreList ++ [elem]).length := by
      rw [List.length_append]
      exact Nat.lt_add_right _ above
    have rest := ih (r := { r with coreList := r.coreList ++ [elem] }) longer
    simp only [List.map_cons, RingBuffer.run, exec, push, ok_bind, rest]
    simp

/-- `push_back(elem)` after the calls of `before` on a new ring takes `r` to `r'`: it
returns, the contents are the last elements pushed, in their order, and there is
an evicted element only if the ring was at its limit. -/
structure Pushes (limit : Nat) (before : List (RingOp α)) (elem : α) (r r' : RingBuffer α)
    (out : Option α) : Prop where
  found : (withSize limit).run before = .ok r
  push : r.pushBack elem = .ok (r', out)
  contents : r'.coreList = (pushed (before ++ [.pushBack elem])).rtake r'.size
  evicts : out.isSome → r.full

theorem withSize_holding {limit : Nat} (some : 1 ≤ limit) :
    (withSize limit : RingBuffer α).Holding [] :=
  ⟨some, List.nil_suffix⟩

/-- Every push does so, and it leaves the ring within the limit exactly if it found
it there. -/
theorem pushes_spec {limit : Nat} (some : 1 ≤ limit) {before : List (RingOp α)}
    (sized : ∀ op ∈ before, op.Sized) (elem : α) :
    ∃ r r' out, Pushes limit before elem r r' out ∧
      (r'.size ≤ r'.maxSize ↔ r.size ≤ r.maxSize) := by
  obtain ⟨r, found, held⟩ := (withSize_holding some).run sized
  obtain ⟨r', out, push, limit, held', evicts, size⟩ := held.push elem
  refine ⟨r, r', out, ⟨found, push, ?_, evicts.mp⟩, ?_⟩
  · rw [pushed_append]
    exact List.suffix_iff_eq_drop.mp held'.kept
  · split at size <;> omega

theorem Pushes.within_iff {limit : Nat} {before : List (RingOp α)} {elem : α}
    {r r' : RingBuffer α} {out : Option α} (h : Pushes limit before elem r r' out) :
    (withSize limit).Within before ↔ r.size ≤ r.maxSize := by
  simp [Within, h.found]

theorem bounded_ring_iff {limit : Nat} (some : 1 ≤ limit) {ops : List (RingOp α)}
    (sized : ∀ op ∈ ops, op.Sized) :
    EachPush (fun before elem => ∃ r r' out, Pushes limit before elem r r' out) ops ∧
      (EachPush (fun before elem =>
          ∃ r r' out, Pushes limit before elem r r' out ∧ r'.size ≤ r'.maxSize) ops ↔
        Fits 0 limit ops) := by
  have earlier : EachPush (fun before _ => ∀ op ∈ before, op.Sized) ops := by
    intro before elem after split op mem
    apply sized
    rw [split]
    exact List.mem_append_left _ mem
  constructor
  · intro before elem after split
    obtain ⟨r, r', out, h, _⟩ := pushes_spec some (earlier before elem after split) elem
    exact ⟨r, r', out, h⟩
  · refine Iff.trans ?_ ((withSize_holding some).within_iff sized)
    apply EachPush.congr
    intro before elem after split
    obtain ⟨r, r', out, h, same⟩ := pushes_spec some (earlier before elem after split) elem
    constructor
    · rintro ⟨s, s', out', h', within⟩
      -- the history and the push are functions, so this is the ring of `h`
      cases h.found.symm.trans h'.found
      cases h.push.symm.trans h'.push
      exact h.within_iff.mpr (same.mp within)
    · intro within
      exact ⟨r, r', out, h, same.mpr (h.within_iff.mp within)⟩

/-- A limit that grows, and one that is lowered and raised again before a push. -/
theorem bounded_ring_resized :
    EachPush (fun before elem =>
        ∃ r r' out, Pushes 2 before elem r r' out ∧ r'.size ≤ r'.maxSize)
      [.pushBack 1, .pushBack 2, .resize 3, .pushBack 3, .pushBack 4, .resize 1, .resize 4,
        .pushBack 5] :=
  (bounded_ring_iff (by decide) (by decide)).2.mpr (by decide)

/-- Two elements, a limit of one, and a third element: none is evicted. -/
theorem ring_outgrows_limit :
    (∀ op ∈ [RingOp.pushBack 1, .pushBack 2, .resize 1, .pushBack 3], op.Sized) ∧
      (withSize 2).run [.pushBack 1, .pushBack 2, .resize 1, .pushBack 3] =
        .ok { maxSize := 1, coreList := [1, 2, 3] } ∧
      ¬ EachPush (fun before elem =>
          ∃ r r' out, Pushes 2 before elem r r' out ∧ r'.size ≤ r'.maxSize)
        [.pushBack 1, .pushBack 2, .resize 1, .pushBack 3] := by
  refine ⟨by decide, rfl, ?_⟩
  intro all
  obtain ⟨r, r', out, h, within⟩ := all [.pushBack 1, .pushBack 2, .resize 1] 3 [] rfl
  cases h.found
  cases h.push
  exact absurd within (by decide)

end RingBuffer

end Libatp.Wheel
