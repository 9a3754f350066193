import Mathlib.Data.List.Basic

/-!
# Transition systems

Events are everything that chooses a successor: which thread moves, what a
system call returned, what a caller passed. A step the program cannot take,
or on which it aborts, has no successor.
-/

namespace Libatp.Base

/-- Start states, and the steps that an event allows. -/
structure System (State Event : Type) where
  start : State → Prop
  step : State → Event → State → Prop

namespace System

variable {State Event : Type} (M : System State Event)

inductive Reachable : State → Prop where
  | start {s} : M.start s → Reachable s
  | next {s e t} : Reachable s → M.step s e t → Reachable t

/-- What holds at the start and is kept by every step holds in every run. -/
theorem invariant {P : State → Prop} (base : ∀ s, M.start s → P s)
    (keep : ∀ s e t, P s → M.step s e t → P t) {s : State} (h : M.Reachable s) : P s := by
  induction h with
  | start hs => exact base _ hs
  | next _ step ih => exact keep _ _ _ ih step

/-- The runs all of whose steps meet a condition on the state before the step
and the event that chose it. -/
def restrict (allowed : State → Event → Prop) : System State Event where
  start := M.start
  step s e t := allowed s e ∧ M.step s e t

theorem restrict_reachable {allowed : State → Event → Prop} {s : State}
    (h : (M.restrict allowed).Reachable s) : M.Reachable s := by
  induction h with
  | start hs => exact .start hs
  | next _ step ih => exact .next ih step.2

/-- A stronger condition leaves fewer runs. -/
theorem restrict_mono {M : System State Event} {p q : State → Event → Prop}
    (h : ∀ s e, p s e → q s e) {s : State} (run : (M.restrict p).Reachable s) :
    (M.restrict q).Reachable s := by
  induction run with
  | start hs => exact .start hs
  | next _ step ih => exact .next ih ⟨h _ _ step.1, step.2⟩

theorem Reachable.allow {M : System State Event} {allowed : State → Event → Prop} {s t : State}
    {e : Event} (h : (M.restrict allowed).Reachable s) (step : M.step s e t) (ok : allowed s e) :
    (M.restrict allowed).Reachable t :=
  h.next ⟨ok, step⟩

/-- A run given by its events, where the steps can be computed. -/
theorem Reachable.replay {M : System State Event} {exec : State → Event → Option State}
    (sound : ∀ s e t, exec s e = some t → M.step s e t) {s t : State} (h : M.Reachable s)
    {events : List Event} (run : events.foldlM exec s = some t) : M.Reachable t := by
  induction events generalizing s with
  | nil =>
    cases run
    exact h
  | cons e events ih =>
    obtain ⟨next, step, rest⟩ := Option.bind_eq_some_iff.mp run
    exact ih (h.next (sound s e next step)) rest

/-- Invariants already known of every run may be used while a further one is
shown to be kept. -/
theorem invariant_with {P Q : State → Prop} (known : ∀ s, M.Reachable s → Q s)
    (base : ∀ s, M.start s → P s)
    (keep : ∀ s e t, Q s → P s → M.step s e t → P t) {s : State} (h : M.Reachable s) : P s := by
  induction h with
  | start hs => exact base _ hs
  | next before step ih => exact keep _ _ _ (known _ before) ih step

/-- The same system, together with the events so far, the latest first. -/
def traced : System (State × List Event) Event where
  start s := M.start s.1 ∧ s.2 = []
  step s e t := M.step s.1 e t.1 ∧ t.2 = e :: s.2

/-- The same system, together with a running total of what each step adds. -/
def tallied (amount : State → Event → Nat) : System (State × Nat) Event where
  start s := M.start s.1 ∧ s.2 = 0
  step s e t := M.step s.1 e t.1 ∧ t.2 = s.2 + amount s.1 e

theorem Reachable.add {M : System State Event} {amount : State → Event → Nat} {s t : State}
    {e : Event} {n : Nat} (h : (M.tallied amount).Reachable (s, n)) (step : M.step s e t) :
    (M.tallied amount).Reachable (t, n + amount s e) :=
  h.next ⟨step, rfl⟩

theorem Reachable.forget {M : System State Event} {amount : State → Event → Nat} {s : State}
    {n : Nat} (h : (M.tallied amount).Reachable (s, n)) : M.Reachable s := by
  refine (M.tallied amount).invariant (P := fun p => M.Reachable p.1) ?_ ?_ h
  · intro p first
    exact .start first.1
  · intro p e q before step
    exact before.next step.1

/-- Keeping a total takes no run away. -/
theorem Reachable.tally {M : System State Event} (amount : State → Event → Nat) {s : State}
    (h : M.Reachable s) : ∃ n, (M.tallied amount).Reachable (s, n) := by
  induction h with
  | start first => exact ⟨0, .start ⟨first, rfl⟩⟩
  | next _ step ih =>
    obtain ⟨n, before⟩ := ih
    exact ⟨_, before.add step⟩

/-- A map of states takes runs to runs if the other system follows every step, or
does not see it. -/
theorem Reachable.refine {M : System State Event} {State' Event' : Type}
    {N : System State' Event'} (f : State → State') (base : ∀ s, M.start s → N.start (f s))
    (follow : ∀ s e t, M.step s e t → f t = f s ∨ ∃ e', N.step (f s) e' (f t)) {s : State}
    (h : M.Reachable s) : N.Reachable (f s) := by
  induction h with
  | start hs => exact .start (base _ hs)
  | next _ step ih =>
    rcases follow _ _ _ step with same | ⟨e', step'⟩
    · rw [same]
      exact ih
    · exact ih.next step'

end System

end Libatp.Base
