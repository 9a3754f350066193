import Libatp.Base.Memory

/-!
# Checked execution

A computation either returns or stops at a fault: an assertion of the program
that is false, an access outside the object it is made through, one through a
null pointer or through a pointer that was written over, or an exception that nothing
catches. The program has no state after a fault. Calls and answers of the environment
that its contract rules out stop a computation as well, so that no run contains them.
-/

namespace Libatp.Base

inductive Fault where
  | assertion
  | outOfBounds
  | nullPointer
  | wildPointer
  | uncaught
  | ruledOut
  deriving DecidableEq, Repr

abbrev Checked (α : Type) := Except Fault α

def require (p : Prop) [Decidable p] : Checked Unit :=
  if p then .ok () else .error .assertion

/-- A pointer is followed that may have been written over. -/
def follow (intact : Bool) : Checked Unit :=
  if intact then .ok () else .error .wildPointer

/-- `memcpy` from an object into a value. -/
def load {α : Type} (mem : List α) (off len : Nat) : Checked (List α) :=
  if off + len ≤ mem.length then .ok (window mem off len) else .error .outOfBounds

/-- `memcpy` or `memmove` of a value into an object. -/
def store {α : Type} (mem : List α) (off : Nat) (src : List α) : Checked (List α) :=
  if off + src.length ≤ mem.length then .ok (splice mem off src) else .error .outOfBounds

theorem bind_ok_iff {α β : Type} {x : Checked α} {f : α → Checked β} {b : β} :
    (x >>= f) = .ok b ↔ ∃ a, x = .ok a ∧ f a = .ok b := by
  cases x with
  | error e => simp [bind, Except.bind]
  | ok a => simp [bind, Except.bind]

@[simp] theorem ok_bind {α β : Type} (a : α) (f : α → Checked β) :
    ((Except.ok a : Checked α) >>= f) = f a := rfl

@[simp] theorem pure_eq_ok {α : Type} (a : α) : (pure a : Checked α) = .ok a := rfl

@[simp] theorem require_ok_iff {p : Prop} [Decidable p] {u : Unit} :
    require p = .ok u ↔ p := by
  unfold require
  split <;> simp [*]

theorem require_true {p : Prop} [Decidable p] (h : p) : require p = .ok () := by
  simp [h]

theorem require_false {p : Prop} [Decidable p] (h : ¬ p) : require p = .error .assertion :=
  if_neg h

@[simp] theorem follow_ok_iff {intact : Bool} {u : Unit} :
    follow intact = .ok u ↔ intact = true := by
  unfold follow
  split <;> simp [*]

theorem follow_true {intact : Bool} (h : intact = true) : follow intact = .ok () := by
  simp [h]

theorem load_ok_iff {α : Type} {mem out : List α} {off len : Nat} :
    load mem off len = .ok out ↔ off + len ≤ mem.length ∧ out = window mem off len := by
  unfold load
  split <;> simp [*, eq_comm]

theorem store_ok_iff {α : Type} {mem src out : List α} {off : Nat} :
    store mem off src = .ok out ↔ off + src.length ≤ mem.length ∧ out = splice mem off src := by
  unfold store
  split <;> simp [*, eq_comm]

theorem load_ok {α : Type} {mem : List α} {off len : Nat} (h : off + len ≤ mem.length) :
    load mem off len = .ok (window mem off len) :=
  load_ok_iff.mpr ⟨h, rfl⟩

theorem store_ok {α : Type} {mem src : List α} {off : Nat} (h : off + src.length ≤ mem.length) :
    store mem off src = .ok (splice mem off src) :=
  store_ok_iff.mpr ⟨h, rfl⟩

theorem store_outside {α : Type} {mem src : List α} {off : Nat}
    (h : mem.length < off + src.length) : store mem off src = .error .outOfBounds :=
  if_neg (Nat.not_le_of_lt h)

theorem load_front {α : Type} (xs rest : List α) : load (xs ++ rest) 0 xs.length = .ok xs := by
  rw [load_ok (by rw [List.length_append]; omega)]
  simp [window]

theorem load_middle {α : Type} (front xs rest : List α) :
    load (front ++ (xs ++ rest)) front.length xs.length = .ok xs := by
  rw [load_ok (by simp)]
  simp [window]

/-- A write into an object that was filled with one value before. -/
theorem store_replicate {α : Type} (xs : List α) {n : Nat} {a : α} (room : xs.length ≤ n) :
    store (List.replicate n a) 0 xs = .ok (xs ++ List.replicate (n - xs.length) a) := by
  rw [store_ok (by rw [List.length_replicate]; omega)]
  simp [splice]

/-- A write outside, or one after which a write outside follows. -/
theorem store_bind_outside {α β : Type} {mem src : List α} {off : Nat} {f : List α → Checked β}
    (later : ∀ mem', off + src.length ≤ mem.length → mem'.length = mem.length →
      f mem' = .error .outOfBounds) : (store mem off src >>= f) = .error .outOfBounds := by
  by_cases room : off + src.length ≤ mem.length
  · rw [store_ok room, ok_bind]
    exact later _ room (splice_length room)
  · rw [store_outside (Nat.lt_of_not_le room)]
    rfl

theorem store_adjacent {α : Type} {mem xs ys : List α} {off : Nat}
    (h : off + xs.length + ys.length ≤ mem.length) :
    store (splice mem off xs) (off + xs.length) ys = .ok (splice mem off (xs ++ ys)) := by
  rw [store_ok, splice_adjacent (by omega)]
  rw [splice_length (by omega)]
  exact h

theorem store_inside {α : Type} {mem xs ys : List α} {off k : Nat}
    (h : off + xs.length ≤ mem.length) (inside : k + ys.length ≤ xs.length) :
    store (splice mem off xs) (off + k) ys = .ok (splice mem off (splice xs k ys)) := by
  rw [store_ok, splice_inside (by omega) inside]
  rw [splice_length h]
  omega

/-! ## Postconditions -/

/-- The computation does not stop at fault `f`, and what it returns satisfies `P`. -/
structure Ensures {α : Type} (f : Fault) (x : Checked α) (P : α → Prop) : Prop where
  avoids : x ≠ .error f
  returns : ∀ a, x = .ok a → P a

section
variable {α β : Type} {f : Fault} {P Q : α → Prop}

theorem ensures_ok {a : α} (h : P a) : Ensures f (.ok a) P :=
  ⟨nofun, fun _ eq => Except.ok.inj eq ▸ h⟩

theorem Ensures.bind {x : Checked α} {g : α → Checked β} {R : β → Prop} (hx : Ensures f x P)
    (hg : ∀ a, P a → Ensures f (g a) R) : Ensures f (x >>= g) R := by
  cases x with
  | error e =>
    refine ⟨fun eq => hx.avoids ?_, nofun⟩
    cases eq
    rfl
  | ok a => exact hg a (hx.returns a rfl)

theorem Ensures.mono {x : Checked α} (hx : Ensures f x P) (h : ∀ a, P a → Q a) : Ensures f x Q :=
  ⟨hx.avoids, fun a eq => h a (hx.returns a eq)⟩

/-- A postcondition that was shown of every return. -/
theorem Ensures.strengthen {x : Checked α} (hx : Ensures f x P) (h : ∀ a, x = .ok a → Q a) :
    Ensures f x Q :=
  ⟨hx.avoids, h⟩

theorem ensures_require {p : Prop} [Decidable p] (h : f ≠ .assertion) :
    Ensures f (require p) fun _ => p := by
  refine ⟨fun eq => ?_, fun _ => require_ok_iff.mp⟩
  unfold require at eq
  split at eq
  · cases eq
  · cases eq
    exact h rfl

theorem ensures_load {mem : List α} {off len : Nat} (h : f ≠ .outOfBounds) :
    Ensures f (load mem off len) fun _ => True := by
  refine ⟨fun eq => ?_, fun _ _ => trivial⟩
  unfold load at eq
  split at eq
  · cases eq
  · cases eq
    exact h rfl

theorem ensures_store {mem src : List α} {off : Nat} (h : f ≠ .outOfBounds) :
    Ensures f (store mem off src) fun _ => True := by
  refine ⟨fun eq => ?_, fun _ _ => trivial⟩
  unfold store at eq
  split at eq
  · cases eq
  · cases eq
    exact h rfl

end

theorem ok_of_any {α : Type} {x : Checked α} {p : α → Bool} (h : x.toOption.any p = true) :
    ∃ a, x = .ok a ∧ p a = true := by
  cases x with
  | error fault => cases h
  | ok a => exact ⟨a, rfl, h⟩

end Libatp.Base
