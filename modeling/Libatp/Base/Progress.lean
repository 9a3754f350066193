import Libatp.Base.System
import Mathlib.Algebra.BigOperators.Group.List.Basic
import Mathlib.Algebra.GroupWithZero.Nat

/-!
# Runs that have to end

A potential that the steps of some actors lower, and that everybody else raises by no more
than a constant, bounds the number of those steps in a run. Where such steps have to be
possible until something is achieved, it is achieved. The potential of several actors is the
sum of theirs, and a step changes one of them.
-/

namespace Libatp.Base.System

variable {State Event : Type} {M : System State Event}

/-- The events that lead from one state to another, the earliest first. -/
inductive Path (M : System State Event) : State → List Event → State → Prop where
  | nil (s) : Path M s [] s
  | cons {s e t events u} : M.step s e t → Path M t events u → Path M s (e :: events) u

theorem Path.reachable {s t : State} {events : List Event} (path : M.Path s events t)
    (h : M.Reachable s) : M.Reachable t := by
  induction path with
  | nil => exact h
  | cons step _ ih => exact ih (h.next step)

/-- A run given by its events, where a step is computed and may fail. -/
theorem Reachable.compute {ε : Type} {exec : State → Event → Except ε State}
    (sound : ∀ s e t, exec s e = .ok t → M.step s e t) {s t : State} (h : M.Reachable s)
    {events : List Event} (run : events.foldlM exec s = .ok t) : M.Reachable t := by
  induction events generalizing s with
  | nil =>
    cases run
    exact h
  | cons e events ih =>
    cases next : exec s e with
    | error fault =>
      rw [List.foldlM_cons, next] at run
      cases run
    | ok u =>
      rw [List.foldlM_cons, next] at run
      exact ih (h.next (sound s e u next)) run

/-- No step of the actors that `own` names is possible. -/
def Rests (M : System State Event) (own : Event → Bool) (s : State) : Prop :=
  ∀ e t, own e = true → ¬ M.step s e t

section
variable {P : State → Prop} (potential : State → Nat) (own : Event → Bool) {raise : Nat}
  (keep : ∀ s e t, P s → M.step s e t → P t)
  (lowers : ∀ s e t, P s → M.step s e t → own e = true → potential t < potential s)
include keep lowers

/-- Of what the others do, only some events raise the potential. -/
theorem Path.charged (charge : Event → Bool)
    (raises : ∀ s e t, P s → M.step s e t → own e = false →
      potential t ≤ potential s + if charge e then raise else 0)
    {s t : State} {events : List Event} (path : M.Path s events t) (hs : P s) :
    events.countP own + potential t ≤ potential s + raise * events.countP charge := by
  induction path with
  | nil => simp
  | @cons s e t events u step _ ih =>
    have later := ih (keep s e t hs step)
    rw [List.countP_cons, List.countP_cons, Nat.mul_add]
    cases mine : own e with
    | true =>
      have less := lowers s e t hs step mine
      simp only [if_true]
      omega
    | false =>
      have more := raises s e t hs step mine
      have one : raise * (if charge e then 1 else 0) = if charge e then raise else 0 := by
        split <;> simp
      simp only [Bool.false_eq_true, if_false]
      omega

theorem Path.bounded
    (raises : ∀ s e t, P s → M.step s e t → own e = false → potential t ≤ potential s + raise)
    {s t : State} {events : List Event} (path : M.Path s events t) (hs : P s) :
    events.countP own + potential t ≤
      potential s + raise * events.countP (fun e => !own e) := by
  refine path.charged potential own keep lowers (fun e => !own e) ?_ hs
  intro s e t hs step other
  rw [other, Bool.not_false, if_pos rfl]
  exact raises s e t hs step other

/-- Left alone, the actors come to rest. -/
theorem exists_rest {s : State} (hs : P s) :
    ∃ events t, M.Path s events t ∧ (∀ e ∈ events, own e = true) ∧ P t ∧ M.Rests own t := by
  generalize remaining : potential s = n
  induction n using Nat.strongRecOn generalizing s with
  | ind n ih =>
    by_cases rests : M.Rests own s
    · exact ⟨[], s, .nil s, nofun, hs, rests⟩
    · simp only [Rests, not_forall, not_not] at rests
      obtain ⟨e, t, mine, step⟩ := rests
      have less := lowers s e t hs step mine
      obtain ⟨events, u, path, all, hu, rest⟩ := ih _ (remaining ▸ less) (keep s e t hs step) rfl
      exact ⟨e :: events, u, .cons step path, List.forall_mem_cons.mpr ⟨mine, all⟩, hu, rest⟩

end

end Libatp.Base.System

namespace Libatp.Base

/-- One number of a list of them is replaced. -/
theorem map_sum_set {α : Type} (f : α → Nat) {l : List α} {i : Nat} {old : α}
    (here : l[i]? = some old) (new : α) :
    ((l.set i new).map f).sum + f old = (l.map f).sum + f new := by
  induction l generalizing i with
  | nil => cases here
  | cons a l ih =>
    cases i with
    | zero =>
      cases here
      simp only [List.set_cons_zero, List.map_cons, List.sum_cons]
      omega
    | succ i =>
      have rest := ih here
      simp only [List.set_cons_succ, List.map_cons, List.sum_cons]
      omega

/-- One of the actors has another number than before. -/
theorem map_sum_change {α : Type} {f g : α → Nat} {l : List α} {a : α} (distinct : l.Nodup)
    (here : a ∈ l) (same : ∀ b, b ≠ a → g b = f b) :
    (l.map g).sum + f a = (l.map f).sum + g a := by
  induction l with
  | nil => cases here
  | cons b l ih =>
    obtain ⟨new, distinct⟩ := List.nodup_cons.mp distinct
    simp only [List.map_cons, List.sum_cons]
    rcases List.mem_cons.mp here with rfl | inner
    · have rest : l.map g = l.map f :=
        List.map_congr_left fun b inside => same b fun eq => new (eq ▸ inside)
      rw [rest]
      omega
    · have rest := ih distinct inner
      have head := same b fun eq => new (eq ▸ inner)
      omega

end Libatp.Base
