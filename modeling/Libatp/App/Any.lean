import Libatp.Base.Ownership

/-!
# `any` (`app/atp_any.hpp`)

An `any` points to a holder on the heap, or to nothing. Every way to construct, assign, swap
or destroy one moves such pointers about; the assignments do it through a temporary that takes
the old holder with it. Types are compared by their `type_info`, here `Ty`, and copying a
value gives the same value.

The abstract side is what a user of `any` has in mind: each object has a value of some type,
or none, and nothing is shared. The last theorem says that this is what the pointers give.
-/

namespace Libatp.App
open Base

variable {Name Ty : Type} {Val : Ty → Type}

structure Holder (Val : Ty → Type) where
  type : Ty
  held : Val type

/-- The pointers `content`; `none` is the temporary of the expression being evaluated. -/
abbrev Contents (Name : Type) (Val : Ty → Type) := Cells (Option Name) (Holder Val)

namespace Contents

variable [DecidableEq Name]

/-- `any()` -/
def init (m : Contents Name Val) (o : Option Name) : Contents Name Val :=
  { m with hold := Function.update m.hold o none }

/-- `any(const T&)` and `any(T&&)` -/
def ofValue (m : Contents Name Val) (o : Option Name) (value : Holder Val) : Contents Name Val :=
  m.new o value

/-- `any(const any&)` -/
def copy (m : Contents Name Val) (o other : Option Name) : Checked (Contents Name Val) :=
  m.duplicate o other

/-- `any(any&&)` -/
def move (m : Contents Name Val) (o other : Option Name) : Contents Name Val :=
  m.transfer o other

/-- `~any()` -/
def destroy (m : Contents Name Val) (o : Option Name) : Checked (Contents Name Val) :=
  m.release o

def swap (m : Contents Name Val) (o rhs : Option Name) : Contents Name Val :=
  m.exchange o rhs

/-- `operator=(const any&)`, and `operator=(T&&)` where `T` is `any&` -/
def assign (m : Contents Name Val) (o rhs : Option Name) : Checked (Contents Name Val) := do
  let m ← m.copy none rhs
  (m.swap none o).destroy none

/-- `operator=(any&&)` -/
def assignMove (m : Contents Name Val) (o rhs : Option Name) : Checked (Contents Name Val) :=
  let m := m.swap rhs o
  ((m.init none).swap none rhs).destroy none

/-- `operator=(T&&)` -/
def assignValue (m : Contents Name Val) (o : Option Name) (value : Holder Val) :
    Checked (Contents Name Val) :=
  ((m.ofValue none value).swap none o).destroy none

def clear (m : Contents Name Val) (o : Option Name) : Checked (Contents Name Val) :=
  ((m.init none).swap none o).destroy none

omit [DecidableEq Name] in
def isEmpty (m : Contents Name Val) (o : Option Name) : Bool := (m.hold o).isNone

/-- `none` is `typeid(void)`. -/
def type (m : Contents Name Val) (o : Option Name) : Checked (Option Ty) := do
  let content ← m.read o
  return content.map Holder.type

end Contents

/-- The value, if it is of the type asked for. -/
def Holder.as [DecidableEq Ty] (h : Holder Val) (t : Ty) : Option (Val t) :=
  if same : h.type = t then some (same ▸ h.held) else none

namespace Contents

variable [DecidableEq Ty]

/-- `any_cast<T>(any*)`, with what the pointer refers to -/
def anyCast (m : Contents Name Val) (o : Option Name) (t : Ty) : Checked (Option (Val t)) := do
  let content ← m.read o
  return content.bind (Holder.as · t)

/-- The text of the `bad_cast` -/
def reason (name : Option Ty → String) (have_ : Option Ty) (want : Ty) : String :=
  "bad any_cast : can't convert " ++ name have_ ++ " to " ++ name (some want)

/-- `any_cast<T>(any&)` returns or throws. -/
def anyCastRef (name : Option Ty → String) (m : Contents Name Val) (o : Option Name) (t : Ty) :
    Checked (Except String (Val t)) := do
  match ← m.anyCast o t with
  | some value => return .ok value
  | none =>
    let have_ ← m.type o
    return .error (reason name have_ t)

/-- `any_cast<T&>(x) = value`; nothing is assigned if the cast throws. -/
def setHeld [DecidableEq Name] (m : Contents Name Val) (o : Option Name) (t : Ty) (value : Val t) :
    Checked (Contents Name Val) := do
  match ← m.anyCast o t with
  | some _ => m.write o ⟨t, value⟩
  | none => return m

end Contents

/-! ## Programs that use `any` -/

/-- Objects come into being and end; `exist` says which are there. -/
structure Anys (Name : Type) (Val : Ty → Type) where
  contents : Contents Name Val
  exist : Name → Bool

def Anys.start : Anys Name Val := ⟨.empty, fun _ => false⟩

inductive Op (Name : Type) (Val : Ty → Type) where
  | init (x : Name)
  | ofValue (x : Name) (value : Holder Val)
  | copy (x other : Name)
  | move (x other : Name)
  | destroy (x : Name)
  | swap (x rhs : Name)
  | assign (x rhs : Name)
  | assignMove (x rhs : Name)
  | assignValue (x : Name) (value : Holder Val)
  | clear (x : Name)
  | setHeld (x : Name) (t : Ty) (value : Val t)

/-- Which objects an operation needs, and which it needs not to be there. -/
def Op.uses : Op Name Val → List Name
  | .init _ | .ofValue _ _ => []
  | .copy _ other | .move _ other => [other]
  | .destroy x | .assignValue x _ | .clear x | .setHeld x _ _ => [x]
  | .swap x rhs | .assign x rhs | .assignMove x rhs => [x, rhs]

def Op.makes : Op Name Val → Option Name
  | .init x | .ofValue x _ | .copy x _ | .move x _ => some x
  | .destroy _ | .swap _ _ | .assign _ _ | .assignMove _ _ | .assignValue _ _ | .clear _
  | .setHeld _ _ _ => none

/-- The lifetimes that the language asks for. -/
def Op.Allowed (op : Op Name Val) (exist : Name → Bool) : Prop :=
  (∀ x ∈ op.uses, exist x = true) ∧ ∀ x ∈ op.makes, exist x = false

instance (op : Op Name Val) (exist : Name → Bool) : Decidable (op.Allowed exist) :=
  inferInstanceAs (Decidable (_ ∧ _))

section
variable [DecidableEq Name]

def Op.exist (op : Op Name Val) (exist : Name → Bool) : Name → Bool :=
  match op with
  | .init x | .ofValue x _ | .copy x _ | .move x _ => Function.update exist x true
  | .destroy x => Function.update exist x false
  | .swap _ _ | .assign _ _ | .assignMove _ _ | .assignValue _ _ | .clear _
  | .setHeld _ _ _ => exist

variable [DecidableEq Ty]

def Op.contents (op : Op Name Val) (m : Contents Name Val) : Checked (Contents Name Val) :=
  match op with
  | .init x => .ok (m.init (some x))
  | .ofValue x value => .ok (m.ofValue (some x) value)
  | .copy x other => m.copy (some x) (some other)
  | .move x other => .ok (m.move (some x) (some other))
  | .destroy x => m.destroy (some x)
  | .swap x rhs => .ok (m.swap (some x) (some rhs))
  | .assign x rhs => m.assign (some x) (some rhs)
  | .assignMove x rhs => m.assignMove (some x) (some rhs)
  | .assignValue x value => m.assignValue (some x) value
  | .clear x => m.clear (some x)
  | .setHeld x t value => m.setHeld (some x) t value

def Anys.exec (s : Anys Name Val) (op : Op Name Val) : Checked (Anys Name Val) := do
  if op.Allowed s.exist then
    let contents ← op.contents s.contents
    return ⟨contents, op.exist s.exist⟩
  else throw .ruledOut

/-! ## Values -/

/-- What a user of `any` has in mind: for each object its value, if it has one. An object that
is not there has none. -/
abbrev Values (Name : Type) (Val : Ty → Type) := Name → Option (Holder Val)

def Op.value (op : Op Name Val) (v : Values Name Val) : Values Name Val :=
  match op with
  | .init x | .destroy x | .clear x => Function.update v x none
  | .ofValue x value | .assignValue x value => Function.update v x (some value)
  | .copy x other | .assign x other => Function.update v x (v other)
  | .move x other | .assignMove x other =>
    Function.update (Function.update v x (v other)) other none
  | .swap x rhs => Function.update (Function.update v x (v rhs)) rhs (v x)
  | .setHeld x t value =>
    if ((v x).bind (Holder.as · t)).isSome then Function.update v x (some ⟨t, value⟩) else v

structure Model (Name : Type) (Val : Ty → Type) where
  values : Values Name Val
  exist : Name → Bool

def Model.start : Model Name Val := ⟨fun _ => none, fun _ => false⟩

def Model.exec (s : Model Name Val) (op : Op Name Val) : Option (Model Name Val) :=
  if op.Allowed s.exist then some ⟨op.value s.values, op.exist s.exist⟩ else none

/-- What a cast to `t` gives where an object has this value. -/
def castResult (name : Option Ty → String) (value : Option (Holder Val)) (t : Ty) :
    Except String (Val t) :=
  match value.bind (Holder.as · t) with
  | some held => .ok held
  | none => .error (Contents.reason name (value.map Holder.type) t)

/-! ## The pointers give the values -/

omit [DecidableEq Name] [DecidableEq Ty] in
/-- The values of all objects and that of the temporary. -/
def slots (temporary : Option (Holder Val)) (v : Values Name Val) :
    Option Name → Option (Holder Val)
  | none => temporary
  | some x => v x

variable {m m' : Contents Name Val} {v : Values Name Val} {temporary : Option (Holder Val)}

omit [DecidableEq Ty] in
@[simp] theorem update_slots_none (a : Option (Holder Val)) :
    Function.update (slots temporary v) none a = slots a v := by
  funext o
  cases o with
  | none => exact Function.update_self ..
  | some x => exact Function.update_of_ne (Option.some_ne_none x) ..

omit [DecidableEq Ty] in
@[simp] theorem update_slots_some (x : Name) (a : Option (Holder Val)) :
    Function.update (slots temporary v) (some x) a = slots temporary (Function.update v x a) := by
  funext o
  cases o with
  | none => exact Function.update_of_ne (Option.some_ne_none x).symm ..
  | some y =>
    by_cases same : y = x
    · rw [same, Function.update_self]
      exact (Function.update_self x a v).symm
    · rw [Function.update_of_ne (fun h => same (Option.some.inj h))]
      exact (Function.update_of_ne same a v).symm

/-- No pointer dangles, no holder is shared or lost, and these are the values. -/
structure Refines (m : Contents Name Val) (temporary : Option (Holder Val))
    (v : Values Name Val) : Prop where
  owned : m.Owned
  view : m.view = slots temporary v

namespace Refines

section
omit [DecidableEq Ty]

theorem init (h : Refines m temporary v) {o : Option Name} (absent : slots temporary v o = none) :
    m.init o = m := by
  have null := h.owned.null_of_view ((congrFun h.view o).trans absent)
  have same : Function.update m.hold o none = m.hold := Function.update_eq_self_iff.mpr null.symm
  rw [Contents.init, same]

theorem destroy (h : Refines m temporary v) (o : Option Name) :
    ∃ m', m.destroy o = .ok m' ∧ m'.Owned ∧
      m'.view = Function.update (slots temporary v) o none := by
  rw [← h.view]
  exact h.owned.release o

theorem swap (h : Refines m temporary v) (a b : Option Name) :
    (m.swap a b).Owned ∧ (m.swap a b).view = Function.update
      (Function.update (slots temporary v) a (slots temporary v b)) b (slots temporary v a) := by
  rw [← h.view]
  exact h.owned.exchange a b

/-- The end of an assignment: the temporary and the object change places, and the temporary
takes the old holder with it. -/
theorem settle (h : Refines m temporary v) (x : Name) :
    ∃ m', (m.swap none (some x)).destroy none = .ok m' ∧
      Refines m' none (Function.update v x temporary) := by
  obtain ⟨owned, view⟩ := h.swap none (some x)
  rw [update_slots_none, update_slots_some] at view
  obtain ⟨m', ended, owned', view'⟩ := (Refines.mk owned view).destroy none
  rw [update_slots_none] at view'
  exact ⟨m', ended, owned', view'⟩

theorem ofValue (h : Refines m temporary v) {o : Option Name}
    (absent : slots temporary v o = none) (value : Holder Val) :
    (m.ofValue o value).Owned ∧
      (m.ofValue o value).view = Function.update (slots temporary v) o (some value) := by
  rw [← h.view] at absent ⊢
  exact h.owned.new absent value

theorem copy (h : Refines m temporary v) {o : Option Name} (absent : slots temporary v o = none)
    (other : Option Name) :
    ∃ m', m.copy o other = .ok m' ∧ m'.Owned ∧
      m'.view = Function.update (slots temporary v) o (slots temporary v other) := by
  rw [← h.view] at absent ⊢
  exact h.owned.duplicate absent other

theorem move (h : Refines m temporary v) {o : Option Name} (absent : slots temporary v o = none)
    (other : Option Name) :
    (m.move o other).Owned ∧ (m.move o other).view = Function.update
      (Function.update (slots temporary v) o (slots temporary v other)) other none := by
  rw [← h.view] at absent ⊢
  exact h.owned.transfer absent

end

omit [DecidableEq Name] [DecidableEq Ty] in
theorem type (h : Refines m temporary v) (x : Name) :
    m.type (some x) = .ok ((v x).map Holder.type) := by
  rw [Contents.type, h.owned.read, h.view, ok_bind]
  rfl

omit [DecidableEq Name] [DecidableEq Ty] in
theorem isEmpty (h : Refines m temporary v) (x : Name) :
    m.isEmpty (some x) = (v x).isNone := by
  have value : m.view (some x) = v x := congrFun h.view (some x)
  cases held : m.hold (some x) with
  | none =>
    rw [Contents.isEmpty, held, ← value, Cells.view_null held]
    rfl
  | some p =>
    obtain ⟨content, stored⟩ := h.owned.live held
    rw [Contents.isEmpty, held, ← value, Cells.view_held held, stored]
    rfl

omit [DecidableEq Name] in
theorem anyCast (h : Refines m temporary v) (x : Name) (t : Ty) :
    m.anyCast (some x) t = .ok ((v x).bind (Holder.as · t)) := by
  rw [Contents.anyCast, h.owned.read, h.view, ok_bind]
  rfl

omit [DecidableEq Name] in
theorem anyCastRef (h : Refines m temporary v) (name : Option Ty → String) (x : Name) (t : Ty) :
    m.anyCastRef name (some x) t = .ok (castResult name (v x) t) := by
  rw [Contents.anyCastRef, h.anyCast, ok_bind, castResult]
  cases (v x).bind (Holder.as · t) with
  | some value => rfl
  | none =>
    rw [h.type, ok_bind]
    rfl

theorem setHeld (h : Refines m none v) (x : Name) (t : Ty) (value : Val t) :
    ∃ m', m.setHeld (some x) t value = .ok m' ∧
      Refines m' none ((Op.setHeld x t value : Op Name Val).value v) := by
  rw [Contents.setHeld, h.anyCast, ok_bind, Op.value]
  cases found : (v x).bind (Holder.as · t) with
  | none => exact ⟨m, rfl, h⟩
  | some old =>
    obtain ⟨holder, present, _⟩ := Option.bind_eq_some_iff.mp found
    obtain ⟨m', written, owned, view⟩ :=
      h.owned.write ((congrFun h.view (some x)).trans present) ⟨t, value⟩
    rw [h.view, update_slots_some] at view
    exact ⟨m', written, owned, view⟩

end Refines

/-- One operation. What an object that is constructed had before is nothing. -/
theorem op_refines (h : Refines m none v) (op : Op Name Val)
    (absent : ∀ x ∈ op.makes, v x = none) :
    ∃ m', op.contents m = .ok m' ∧ Refines m' none (op.value v) := by
  cases op with
  | init x =>
    have none := absent x rfl
    refine ⟨m, congrArg Except.ok (h.init none), ?_⟩
    rw [Op.value, Function.update_eq_self_iff.mpr none.symm]
    exact h
  | ofValue x value =>
    obtain ⟨owned, view⟩ := h.ofValue (o := some x) (absent x rfl) value
    rw [update_slots_some] at view
    exact ⟨_, rfl, owned, view⟩
  | copy x other =>
    obtain ⟨m', copied, owned, view⟩ := h.copy (o := some x) (absent x rfl) (some other)
    rw [update_slots_some] at view
    exact ⟨m', copied, owned, view⟩
  | move x other =>
    obtain ⟨owned, view⟩ := h.move (o := some x) (absent x rfl) (some other)
    rw [update_slots_some, update_slots_some] at view
    exact ⟨_, rfl, owned, view⟩
  | destroy x =>
    obtain ⟨m', ended, owned, view⟩ := h.destroy (some x)
    rw [update_slots_some] at view
    exact ⟨m', ended, owned, view⟩
  | swap x rhs =>
    obtain ⟨owned, view⟩ := h.swap (some x) (some rhs)
    rw [update_slots_some, update_slots_some] at view
    exact ⟨_, rfl, owned, view⟩
  | assign x rhs =>
    obtain ⟨copied, made, owned, view⟩ := h.copy (o := none) rfl (some rhs)
    rw [update_slots_none] at view
    obtain ⟨m', settled, refines⟩ := (Refines.mk owned view).settle x
    refine ⟨m', ?_, refines⟩
    rw [Op.contents, Contents.assign, made, ok_bind]
    exact settled
  | assignMove x rhs =>
    -- `rhs` and the object change places, then `rhs` gives up what it got
    obtain ⟨owned, view⟩ := h.swap (some rhs) (some x)
    rw [update_slots_some, update_slots_some] at view
    have swapped := Refines.mk owned view
    obtain ⟨m', settled, refines⟩ := swapped.settle rhs
    refine ⟨m', ?_, ?_⟩
    · rw [Op.contents, Contents.assignMove, swapped.init rfl]
      exact settled
    · have same : Function.update (Function.update (Function.update v rhs (v x)) x (v rhs)) rhs
          none = Function.update (Function.update v x (v rhs)) rhs none := by
        by_cases self : x = rhs
        · rw [self, Function.update_idem, Function.update_idem]
        · rw [Function.update_comm self, Function.update_idem, Function.update_comm self]
      rw [Op.value, ← same]
      exact refines
  | assignValue x value =>
    obtain ⟨owned, view⟩ := h.ofValue (o := none) rfl value
    rw [update_slots_none] at view
    exact (Refines.mk owned view).settle x
  | clear x =>
    obtain ⟨m', settled, refines⟩ := h.settle x
    refine ⟨m', ?_, refines⟩
    rw [Op.contents, Contents.clear, h.init rfl]
    exact settled
  | setHeld x t value => exact h.setHeld x t value

/-- The state of the program and what its user has in mind. -/
structure Agrees (s : Anys Name Val) (model : Model Name Val) : Prop where
  refines : Refines s.contents none model.values
  exist : s.exist = model.exist
  absent : ∀ x, model.exist x = false → model.values x = none

theorem absent_kept {op : Op Name Val} {exist : Name → Bool} (allowed : op.Allowed exist)
    (h : ∀ x, exist x = false → v x = none) (y : Name) (gone : op.exist exist y = false) :
    op.value v y = none := by
  obtain ⟨used, made⟩ := allowed
  cases op
  all_goals
    simp only [Op.exist, Op.value, Function.update_apply] at gone ⊢
    grind [Op.uses, Op.makes]

theorem exec_agrees {s : Anys Name Val} {model model' : Model Name Val} (h : Agrees s model)
    {op : Op Name Val} (step : model.exec op = some model') :
    ∃ s', s.exec op = .ok s' ∧ Agrees s' model' := by
  rw [Model.exec] at step
  split at step
  case isFalse => cases step
  case isTrue allowed =>
    cases step
    obtain ⟨contents, done, refines⟩ :=
      op_refines h.refines op fun x made => h.absent x (allowed.2 x made)
    refine ⟨⟨contents, op.exist s.exist⟩, ?_, refines, ?_, absent_kept allowed h.absent⟩
    · rw [Anys.exec, h.exist, if_pos allowed, done, ok_bind]
      rfl
    · rw [h.exist]

/-- An operation that goes through was allowed. -/
theorem exec_ok {s s' : Anys Name Val} {model : Model Name Val} (h : Agrees s model)
    {op : Op Name Val} (step : s.exec op = .ok s') :
    ∃ model', model.exec op = some model' ∧ Agrees s' model' := by
  by_cases allowed : op.Allowed model.exist
  · have next : model.exec op = some _ := if_pos allowed
    obtain ⟨s'', done, agrees⟩ := exec_agrees h next
    cases done.symm.trans step
    exact ⟨_, next, agrees⟩
  · rw [Anys.exec, h.exist, if_neg allowed] at step
    cases step

theorem run_agrees {s : Anys Name Val} {model model' : Model Name Val} (h : Agrees s model)
    {ops : List (Op Name Val)} (run : ops.foldlM Model.exec model = some model') :
    ∃ s', ops.foldlM Anys.exec s = .ok s' ∧ Agrees s' model' := by
  induction ops generalizing s model with
  | nil =>
    cases run
    exact ⟨s, rfl, h⟩
  | cons op ops ih =>
    obtain ⟨next, step, rest⟩ := Option.bind_eq_some_iff.mp run
    obtain ⟨s', done, agrees⟩ := exec_agrees h step
    obtain ⟨s'', later, final⟩ := ih agrees rest
    exact ⟨s'', by rw [List.foldlM_cons, done, ok_bind, later], final⟩

omit [DecidableEq Name] [DecidableEq Ty] in
theorem start_agrees : Agrees (.start : Anys Name Val) .start where
  refines := ⟨Cells.owned_empty, by funext o; cases o <;> rfl⟩
  exist := rfl
  absent := fun _ _ => rfl

/-- **Value semantics.** A program that keeps to the lifetimes of its objects never follows a
dangling pointer, whatever it copies, moves, swaps and assigns, also to itself; and what it sees
through `empty`, `type` and `any_cast` is what it would see if every object held its own value. -/
theorem any_value_semantics {ops : List (Op Name Val)} {model : Model Name Val}
    (allowed : ops.foldlM Model.exec .start = some model) :
    ∃ s : Anys Name Val, ops.foldlM Anys.exec .start = .ok s ∧ s.exist = model.exist ∧
      ∀ x, s.contents.isEmpty (some x) = (model.values x).isNone ∧
        s.contents.type (some x) = .ok ((model.values x).map Holder.type) ∧
        (∀ t, s.contents.anyCast (some x) t = .ok ((model.values x).bind (Holder.as · t))) ∧
        ∀ name t, s.contents.anyCastRef name (some x) t =
          .ok (castResult name (model.values x) t) := by
  obtain ⟨s, run, agrees⟩ := run_agrees start_agrees allowed
  have refines := agrees.refines
  exact ⟨s, run, agrees.exist, fun x => ⟨refines.isEmpty x, refines.type x, refines.anyCast x,
    fun name => refines.anyCastRef name x⟩⟩

theorem run_ok {s s' : Anys Name Val} {model : Model Name Val} (h : Agrees s model)
    {ops : List (Op Name Val)} (run : ops.foldlM Anys.exec s = .ok s') :
    ∃ model', Agrees s' model' := by
  induction ops generalizing s model with
  | nil =>
    cases run
    exact ⟨model, h⟩
  | cons op ops ih =>
    obtain ⟨next, step, rest⟩ := bind_ok_iff.mp run
    obtain ⟨model', _, agrees⟩ := exec_ok h step
    exact ih agrees rest

/-- One object is copied, assigned to itself, moved and destroyed; the other has its value. -/
theorem any_value_semantics_moved : ∃ s : Anys Bool (fun _ : Unit => Nat),
    [.ofValue true ⟨(), 7⟩, .copy false true, .assign true true, .clear false,
      .assignMove false true, .setHeld false () 8, .destroy true].foldlM Anys.exec .start = .ok s ∧
    s.contents.anyCast (some false) () = .ok (some 8) ∧ s.exist true = false := by
  let ops : List (Op Bool fun _ : Unit => Nat) :=
    [.ofValue true ⟨(), 7⟩, .copy false true, .assign true true, .clear false,
      .assignMove false true, .setHeld false () 8, .destroy true]
  have allowed : ops.foldlM Model.exec .start = some _ := rfl
  obtain ⟨s, run, exist, seen⟩ := any_value_semantics allowed
  exact ⟨s, run, (seen false).2.2.1 (), by rw [exist]; rfl⟩

/-- **Every holder has one owner.** Each holder that has not been deleted belongs to exactly one
object, and that object is there; so when all objects are gone, all holders are. -/
theorem any_holders_owned {ops : List (Op Name Val)} {s : Anys Name Val}
    (run : ops.foldlM Anys.exec .start = .ok s) {p : Nat} {holder : Holder Val}
    (kept : s.contents.cell p = some holder) :
    ∃ x, s.exist x = true ∧ s.contents.hold (some x) = some p ∧
      ∀ y, s.contents.hold y = some p → y = some x := by
  obtain ⟨model, agrees⟩ := run_ok start_agrees run
  have owned := agrees.refines.owned
  obtain ⟨o, held⟩ := owned.kept kept
  have value : slots none model.values o = some holder := by
    rw [← agrees.refines.view, Cells.view_held held, kept]
  cases o with
  | none => cases value
  | some x =>
    refine ⟨x, ?_, held, fun y other => owned.once other held⟩
    cases there : s.exist x with
    | true => rfl
    | false =>
      rw [agrees.exist] at there
      cases (agrees.absent x there).symm.trans value

/-- The holder that is left after a move belongs to the object it was moved to. -/
theorem any_holders_owned_moved : ∃ s : Anys Bool (fun _ : Unit => Nat),
    [.ofValue true ⟨(), 7⟩, .move false true].foldlM Anys.exec .start = .ok s ∧
    s.contents.cell 0 = some ⟨(), 7⟩ ∧
    ∃ x, s.exist x = true ∧ s.contents.hold (some x) = some 0 ∧
      ∀ y, s.contents.hold y = some 0 → y = some x := by
  let ops : List (Op Bool fun _ : Unit => Nat) := [.ofValue true ⟨(), 7⟩, .move false true]
  have run : ops.foldlM Anys.exec .start = .ok _ := rfl
  exact ⟨_, run, rfl, any_holders_owned run rfl⟩

end

end Libatp.App
