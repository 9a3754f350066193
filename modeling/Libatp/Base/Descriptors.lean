import Mathlib.Logic.Function.Basic
import Mathlib.Data.List.Basic

/-!
# Descriptors of a process

Which descriptors are open, and for whom each was opened. A number that is not open may be
given to anybody next, so that closing a number one has not opened closes what belongs to
someone else: `strays` records where this has happened. Closing a number that is not open
does nothing.
-/

namespace Libatp.Base

/-- `strays` pairs who closed with what was closed. -/
structure Descriptors (Owner : Type) where
  table : Nat → Option Owner
  strays : List (Owner × Nat)

namespace Descriptors

variable {Owner : Type} [DecidableEq Owner]

def opened (d : Descriptors Owner) (who : Owner) (fds : List Nat) : Descriptors Owner :=
  { d with table := fun n => if n ∈ fds then some who else d.table n }

/-- `close` -/
def close (d : Descriptors Owner) (who : Owner) : Int → Descriptors Owner
  | .negSucc _ => d
  | .ofNat n =>
    match d.table n with
    | none => d
    | some owner =>
      ⟨Function.update d.table n none,
        if owner = who then d.strays else (who, n) :: d.strays⟩

def closeAll (d : Descriptors Owner) (who : Owner) (fds : List Int) : Descriptors Owner :=
  fds.foldl (fun d fd => d.close who fd) d

/-- A number among these is open for another. -/
def Foreign (d : Descriptors Owner) (who : Owner) (fds : List Int) : Prop :=
  ∃ n : Nat, (n : Int) ∈ fds ∧ ∃ owner, d.table n = some owner ∧ owner ≠ who

theorem close_table (d : Descriptors Owner) (who : Owner) (fd : Int) (n : Nat) :
    (d.close who fd).table n = if (n : Int) = fd then none else d.table n := by
  cases fd with
  | negSucc m => rw [close, if_neg (by omega)]
  | ofNat m =>
    have number : (n : Int) = Int.ofNat m ↔ n = m := Int.ofNat_inj
    rw [close]
    simp only [number]
    by_cases same : n = m
    · subst same
      rw [if_pos rfl]
      cases found : d.table n with
      | none => exact found
      | some owner => exact Function.update_self ..
    · rw [if_neg same]
      cases d.table m with
      | none => rfl
      | some owner => exact Function.update_of_ne same ..

theorem close_strays (d : Descriptors Owner) (who : Owner) (fd : Int) :
    (d.close who fd).strays = [] ↔ d.strays = [] ∧ ¬ d.Foreign who [fd] := by
  simp only [Foreign, List.mem_singleton]
  cases fd with
  | negSucc m =>
    refine ⟨fun h => ⟨h, ?_⟩, fun h => h.1⟩
    rintro ⟨n, same, -⟩
    omega
  | ofNat m =>
    have here : (∃ n : Nat, (n : Int) = Int.ofNat m ∧
        ∃ owner, d.table n = some owner ∧ owner ≠ who) ↔
          ∃ owner, d.table m = some owner ∧ owner ≠ who := by
      refine ⟨?_, fun h => ⟨m, rfl, h⟩⟩
      rintro ⟨n, same, h⟩
      rwa [Int.ofNat.inj same] at h
    rw [here, close]
    cases d.table m with
    | none => simp
    | some owner =>
      by_cases mine : owner = who
      · simp [mine]
      · simp [mine]

theorem closeAll_table (d : Descriptors Owner) (who : Owner) (fds : List Int) (n : Nat) :
    (d.closeAll who fds).table n = if (n : Int) ∈ fds then none else d.table n := by
  induction fds generalizing d with
  | nil => simp [closeAll]
  | cons fd fds ih =>
    have rest := ih (d.close who fd)
    rw [close_table] at rest
    refine rest.trans ?_
    by_cases same : (n : Int) = fd
    · simp [same]
    · simp [same]

theorem closeAll_strays (d : Descriptors Owner) (who : Owner) (fds : List Int) :
    (d.closeAll who fds).strays = [] ↔ d.strays = [] ∧ ¬ d.Foreign who fds := by
  induction fds generalizing d with
  | nil => simp [closeAll, Foreign]
  | cons fd fds ih =>
    refine (ih (d.close who fd)).trans ?_
    rw [close_strays, and_assoc]
    refine and_congr_right fun _ => ?_
    constructor
    · rintro ⟨first, rest⟩ ⟨n, mem, owner, found, other⟩
      by_cases same : (n : Int) = fd
      · exact first ⟨n, List.mem_singleton.mpr same, owner, found, other⟩
      · refine rest ⟨n, List.mem_of_ne_of_mem same mem, owner, ?_, other⟩
        rw [close_table, if_neg same]
        exact found
    · intro none_
      constructor
      · rintro ⟨n, mem, h⟩
        exact none_ ⟨n, List.mem_cons.mpr (.inl (List.mem_singleton.mp mem)), h⟩
      · rintro ⟨n, mem, owner, found, other⟩
        rw [close_table] at found
        split at found
        · cases found
        · exact none_ ⟨n, List.mem_cons_of_mem _ mem, owner, found, other⟩

theorem closeAll_closed {d : Descriptors Owner} {who : Owner} {fds : List Int}
    (h : ∀ n : Nat, (n : Int) ∈ fds → d.table n = none) : d.closeAll who fds = d := by
  induction fds with
  | nil => rfl
  | cons fd fds ih =>
    have first : d.close who fd = d := by
      cases fd with
      | negSucc m => rfl
      | ofNat m => rw [close, h m List.mem_cons_self]
    have rest := ih (fun n mem => h n (List.mem_cons_of_mem _ mem))
    rw [closeAll, List.foldl_cons, first]
    exact rest

theorem closeAll_again (d : Descriptors Owner) (who : Owner) (fds : List Int) :
    (d.closeAll who fds).closeAll who fds = d.closeAll who fds := by
  apply closeAll_closed
  intro n mem
  rw [closeAll_table, if_pos mem]

/-- Closing numbers that are nobody else's is noticed by nobody else. -/
theorem closeAll_other {d : Descriptors Owner} {who other : Owner} {fds : List Int}
    (none_ : ¬ d.Foreign who fds) (ne : other ≠ who) (n : Nat) :
    (d.closeAll who fds).table n = some other ↔ d.table n = some other := by
  rw [closeAll_table]
  split
  · next mem =>
    refine ⟨fun h => (by cases h), fun found => ?_⟩
    exact absurd ⟨n, mem, other, found, ne⟩ none_
  · exact Iff.rfl

end Descriptors

end Libatp.Base
