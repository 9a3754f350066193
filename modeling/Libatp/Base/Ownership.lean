import Libatp.Base.Checked
import Mathlib.Logic.Equiv.Basic

/-!
# Cells with one owner each

Owners hold pointers, null or to a cell that was allocated with `new`. Following or deleting a
pointer whose cell has been deleted is a fault. As long as owners create, exchange, hand over
and delete cells through the operations here, no pointer dangles, no cell has two owners and
none is lost, and only the values count: `view` says which value each owner has, and every
operation is a change of `view`.
-/

namespace Libatp.Base

structure Cells (Owner Value : Type) where
  /-- the address of the next cell -/
  next : Nat
  cell : Nat → Option Value
  hold : Owner → Option Nat

namespace Cells

variable {Owner Value : Type}

def empty : Cells Owner Value := ⟨0, fun _ => none, fun _ => none⟩

/-- The value behind a pointer, if the pointer is not null. -/
def read (m : Cells Owner Value) (o : Owner) : Checked (Option Value) :=
  match m.hold o with
  | none => .ok none
  | some p =>
    match m.cell p with
    | none => .error .outOfBounds
    | some v => .ok (some v)

def view (m : Cells Owner Value) (o : Owner) : Option Value := (m.hold o).bind m.cell

variable [DecidableEq Owner]

def new (m : Cells Owner Value) (o : Owner) (v : Value) : Cells Owner Value where
  next := m.next + 1
  cell := Function.update m.cell m.next (some v)
  hold := Function.update m.hold o (some m.next)

/-- `delete`, of nothing if the pointer is null. -/
def release (m : Cells Owner Value) (o : Owner) : Checked (Cells Owner Value) :=
  match m.hold o with
  | none => .ok m
  | some p =>
    match m.cell p with
    | none => .error .outOfBounds
    | some _ => .ok { m with
        cell := Function.update m.cell p none
        hold := Function.update m.hold o none }

/-- A new cell for `o` with the value that another owner has, if it has one. -/
def duplicate (m : Cells Owner Value) (o other : Owner) : Checked (Cells Owner Value) := do
  match ← m.read other with
  | none => return { m with hold := Function.update m.hold o none }
  | some v => return m.new o v

def exchange (m : Cells Owner Value) (a b : Owner) : Cells Owner Value :=
  { m with hold := Function.update (Function.update m.hold a (m.hold b)) b (m.hold a) }

/-- `o` takes what `other` had. -/
def transfer (m : Cells Owner Value) (o other : Owner) : Cells Owner Value :=
  { m with hold := Function.update (Function.update m.hold o (m.hold other)) other none }

/-- An assignment through the pointer, which is not null. -/
def write (m : Cells Owner Value) (o : Owner) (v : Value) : Checked (Cells Owner Value) :=
  match m.hold o with
  | none => .error .nullPointer
  | some p =>
    match m.cell p with
    | none => .error .outOfBounds
    | some _ => .ok { m with cell := Function.update m.cell p (some v) }

structure Owned (m : Cells Owner Value) : Prop where
  live : ∀ {o p}, m.hold o = some p → ∃ v, m.cell p = some v
  once : ∀ {a b p}, m.hold a = some p → m.hold b = some p → a = b
  kept : ∀ {p v}, m.cell p = some v → ∃ o, m.hold o = some p
  old : ∀ {p v}, m.cell p = some v → p < m.next

variable {m : Cells Owner Value} {o : Owner}

omit [DecidableEq Owner] in
theorem view_null (h : m.hold o = none) : m.view o = none := by
  rw [view, h, Option.bind_none]

omit [DecidableEq Owner] in
theorem view_held {p : Nat} (h : m.hold o = some p) : m.view o = m.cell p := by
  rw [view, h, Option.bind_some]

omit [DecidableEq Owner] in
theorem owned_empty : (empty : Cells Owner Value).Owned :=
  ⟨nofun, nofun, nofun, nofun⟩

namespace Owned

omit [DecidableEq Owner] in
theorem null_of_view (h : m.Owned) (absent : m.view o = none) : m.hold o = none := by
  cases held : m.hold o with
  | none => rfl
  | some p =>
    obtain ⟨v, stored⟩ := h.live held
    rw [view_held held, stored] at absent
    cases absent

omit [DecidableEq Owner] in
theorem read (h : m.Owned) (o : Owner) : m.read o = .ok (m.view o) := by
  cases held : m.hold o with
  | none => simp only [Cells.read, view, held, Option.bind_none]
  | some p =>
    obtain ⟨v, stored⟩ := h.live held
    simp only [Cells.read, view, held, stored, Option.bind_some]

theorem new (h : m.Owned) (absent : m.view o = none) (v : Value) :
    (m.new o v).Owned ∧ (m.new o v).view = Function.update m.view o (some v) := by
  have free := h.null_of_view absent
  have fresh : ∀ {a p}, m.hold a = some p → p ≠ m.next := by
    intro a p held same
    obtain ⟨w, stored⟩ := h.live held
    have := h.old stored
    omega
  constructor
  · constructor
    · intro a p held
      simp only [Cells.new, Function.update_apply] at held ⊢
      split at held
      · cases held
        exact ⟨v, if_pos rfl⟩
      · rw [if_neg (fresh held)]
        exact h.live held
    · intro a b p first second
      simp only [Cells.new, Function.update_apply] at first second
      split at first <;> split at second
      · simp [*]
      · cases first
        exact absurd rfl (fresh second)
      · cases second
        exact absurd rfl (fresh first)
      · exact h.once first second
    · intro p w stored
      simp only [Cells.new, Function.update_apply] at stored ⊢
      split at stored
      · rename_i same
        exact ⟨o, by rw [if_pos rfl, same]⟩
      · obtain ⟨a, held⟩ := h.kept stored
        have other : a ≠ o := by
          rintro rfl
          cases free.symm.trans held
        exact ⟨a, by rw [if_neg other, held]⟩
    · intro p w stored
      simp only [Cells.new, Function.update_apply] at stored ⊢
      split at stored
      · omega
      · have := h.old stored
        omega
  · funext a
    by_cases same : a = o
    · have held : (m.new o v).hold o = some m.next := Function.update_self ..
      rw [same, Function.update_self, view_held held]
      exact Function.update_self ..
    · have hold : (m.new o v).hold a = m.hold a := Function.update_of_ne same ..
      rw [Function.update_of_ne same]
      cases held : m.hold a with
      | none => rw [view_null held, view_null (hold.trans held)]
      | some p =>
        rw [view_held held, view_held (hold.trans held)]
        exact Function.update_of_ne (fresh held) ..

theorem release (h : m.Owned) (o : Owner) :
    ∃ m', m.release o = .ok m' ∧ m'.Owned ∧ m'.view = Function.update m.view o none := by
  cases held : m.hold o with
  | none =>
    refine ⟨m, by simp only [Cells.release, held], h, ?_⟩
    exact Function.eq_update_self_iff.mpr (view_null held)
  | some p =>
    obtain ⟨v, stored⟩ := h.live held
    have others : ∀ {a q}, a ≠ o → m.hold a = some q → q ≠ p := by
      rintro a q different there rfl
      exact different (h.once there held)
    refine ⟨_, by simp only [Cells.release, held, stored]; rfl, ?_, ?_⟩
    · constructor
      · intro a q there
        simp only [Function.update_apply] at there ⊢
        split at there
        · cases there
        · rename_i different
          rw [if_neg (others different there)]
          exact h.live there
      · intro a b q first second
        simp only [Function.update_apply] at first second
        split at first
        · cases first
        · split at second
          · cases second
          · exact h.once first second
      · intro q w there
        simp only [Function.update_apply] at there ⊢
        split at there
        · cases there
        · rename_i different
          obtain ⟨a, owner⟩ := h.kept there
          have other : a ≠ o := by
            rintro rfl
            exact different (Option.some.inj (owner.symm.trans held))
          exact ⟨a, by rw [if_neg other, owner]⟩
      · intro q w there
        simp only [Function.update_apply] at there
        split at there
        · cases there
        · exact h.old there
    · funext a
      by_cases same : a = o
      · rw [same, Function.update_self]
        exact view_null (Function.update_self ..)
      · have hold : Function.update m.hold o none a = m.hold a := Function.update_of_ne same ..
        rw [Function.update_of_ne same]
        cases there : m.hold a with
        | none => rw [view_null there, view_null (hold.trans there)]
        | some q =>
          rw [view_held there, view_held (hold.trans there)]
          exact Function.update_of_ne (others same there) ..

theorem duplicate (h : m.Owned) (absent : m.view o = none) (other : Owner) :
    ∃ m', m.duplicate o other = .ok m' ∧ m'.Owned ∧
      m'.view = Function.update m.view o (m.view other) := by
  cases value : m.view other with
  | none =>
    have free := h.null_of_view absent
    have same : Function.update m.hold o none = m.hold :=
      Function.update_eq_self_iff.mpr free.symm
    refine ⟨m, ?_, h, Function.eq_update_self_iff.mpr absent⟩
    simp only [Cells.duplicate, h.read, value, ok_bind, same, pure_eq_ok]
  | some v =>
    refine ⟨m.new o v, ?_, h.new absent v⟩
    simp only [Cells.duplicate, h.read, value, ok_bind, pure_eq_ok]

theorem exchange (h : m.Owned) (a b : Owner) :
    (m.exchange a b).Owned ∧
    (m.exchange a b).view = Function.update (Function.update m.view a (m.view b)) b (m.view a) := by
  have moved (o : Owner) : (m.exchange a b).hold o = m.hold (Equiv.swap a b o) := by
    simp only [Cells.exchange, Function.update_apply, Equiv.swap_apply_def]
    grind
  constructor
  · constructor
    · intro o p held
      exact h.live ((moved o).symm.trans held)
    · intro c d p first second
      have same := h.once ((moved c).symm.trans first) ((moved d).symm.trans second)
      exact (Equiv.swap a b).injective same
    · intro p v stored
      obtain ⟨o, held⟩ := h.kept stored
      exact ⟨Equiv.swap a b o, by rw [moved, Equiv.swap_apply_self, held]⟩
    · exact h.old
  · funext o
    simp only [view, Cells.exchange, Function.update_apply]
    split
    · rfl
    · split <;> rfl

/-- Handing over to an owner that has nothing is an exchange. -/
theorem transfer (h : m.Owned) (absent : m.view o = none) {other : Owner} :
    (m.transfer o other).Owned ∧
    (m.transfer o other).view =
      Function.update (Function.update m.view o (m.view other)) other none := by
  have free := h.null_of_view absent
  have same : m.transfer o other = m.exchange o other := by
    rw [Cells.transfer, Cells.exchange, free]
  rw [same, ← absent]
  exact h.exchange o other

theorem write (h : m.Owned) {old : Value} (present : m.view o = some old) (v : Value) :
    ∃ m', m.write o v = .ok m' ∧ m'.Owned ∧ m'.view = Function.update m.view o (some v) := by
  cases held : m.hold o with
  | none => cases (view_null held).symm.trans present
  | some p =>
    obtain ⟨w, stored⟩ := h.live held
    refine ⟨_, by simp only [Cells.write, held, stored]; rfl, ?_, ?_⟩
    · constructor
      · intro a q there
        obtain ⟨u, value⟩ := h.live there
        simp only [Function.update_apply]
        split
        · exact ⟨v, rfl⟩
        · exact ⟨u, value⟩
      · exact h.once
      · intro q u there
        simp only [Function.update_apply] at there
        split at there
        · rename_i same
          exact ⟨o, by rw [same, held]⟩
        · exact h.kept there
      · intro q u there
        simp only [Function.update_apply] at there
        split at there
        · rename_i same
          rw [same]
          exact h.old stored
        · exact h.old there
    · funext a
      by_cases same : a = o
      · rw [same, Function.update_self]
        exact Eq.trans (view_held held) (Function.update_self ..)
      · rw [Function.update_of_ne same]
        cases there : m.hold a with
        | none => exact Eq.trans (view_null there) (view_null there).symm
        | some q =>
          have other : q ≠ p := by
            rintro rfl
            exact same (h.once there held)
          rw [view_held there]
          exact Eq.trans (view_held there) (Function.update_of_ne other ..)

end Owned

end Cells

end Libatp.Base
