import Libatp.Base.Checked
import Libatp.Base.Descriptors
import Libatp.Base.Progress

/-!
# Event watchers (`net/atp_event_watcher.cpp`, `net/atp_event_loop.cpp`)

The watchers of all loops of a process: each has an event that libevent keeps a pointer to
while it waits, and opens descriptors of its own. `doInit` already gives the event to libevent,
but only `doWatch` sets `attached_`, on which it depends whether the event is taken back before
it is deleted. `~EventLoop` frees the base, and its member `event_watcher_` goes after that.

libevent is a parameter: any functions that add, remove and free events as it promises. What
it is called with is checked here: `event_add` and `event_del` read the base that the event was
assigned to, which must not have been freed, and an event that libevent has a pointer to must
not be deleted.

The descriptors are those of the process: a number that a watcher closes may by then belong to
another watcher, or to a socket of the application.
-/

namespace Libatp.Watchers
open Base

/-- `EventfdWatcher`, `PipeEventWatcher`, `TimerEventWatcher` -/
inductive Kind where
  | eventfd
  | pipe
  | timer
  deriving DecidableEq, Repr

namespace Kind

/-- `event_fd_` or `pipe_fds_`, as the constructor and `doTerminateImpl` leave them -/
def cleared : Kind → List Int
  | eventfd => [-1]
  | pipe => [0, 0]
  | timer => []

/-- The same after `eventfd` or `pipe2` failed: `event_fd_` is its result, and `pipe2` stores
nothing. -/
def refused (fds : List Int) : Kind → List Int
  | eventfd => [-1]
  | pipe | timer => fds

end Kind

/-- What the watchers use of libevent, over states of its own. An event is known by its
watcher. -/
structure Libevent (Name : Type) [DecidableEq Name] where
  State : Type
  start : State
  /-- whether libevent has a pointer to the event -/
  keeps : State → Name → Bool
  /-- `event_add`, which is told whether the event was assigned to a base and whether it waits
  for a descriptor or a time -/
  eventAdd : State → Name → Bool → Bool → State × Bool
  eventDel : State → Name → State
  /-- an event that does not persist is removed before its callback is called -/
  activate : State → Name → State
  /-- `event_base_free`, with the events that were assigned to that base -/
  baseFree : State → (Name → Bool) → State
  start_keeps : ∀ w, keeps start w = false
  /-- An event without a base is refused. -/
  eventAdd_unassigned : ∀ s w waits, (eventAdd s w false waits).2 = false
  /-- An event that waits for nothing is added nowhere. -/
  eventAdd_keeps : ∀ {s w assigned waits}, (eventAdd s w assigned waits).2 = true →
    keeps (eventAdd s w assigned waits).1 w = (keeps s w || waits)
  eventAdd_other : ∀ s w assigned waits {v}, v ≠ w →
    keeps (eventAdd s w assigned waits).1 v = keeps s v
  eventDel_keeps : ∀ s w v, keeps (eventDel s w) v = (keeps s v && !decide (v = w))
  activate_keeps : ∀ s w v, keeps (activate s w) v = (keeps s v && !decide (v = w))
  /-- `event_base_free` takes all events of the base out. -/
  baseFree_keeps : ∀ s mine v, keeps (baseFree s mine) v = (keeps s v && !mine v)

/-- `event` is whether `event_` is not null, `assigned` whether `event_assign` has been called
for it, and `terminated` whether `doTerminateImpl` has been called since. -/
structure Watcher (Loop : Type) where
  kind : Kind
  base : Loop
  event : Bool
  assigned : Bool
  terminated : Bool
  attached : Bool
  fds : List Int
  deriving DecidableEq, Repr

namespace Watcher

variable {Name Loop : Type} [DecidableEq Name] {lib : Libevent Name}

def make (kind : Kind) (base : Loop) : Watcher Loop where
  kind := kind
  base := base
  event := true
  assigned := false
  terminated := false
  attached := false
  fds := kind.cleared

/-- The watcher has its descriptors. -/
def opened (x : Watcher Loop) : Bool := x.assigned && !x.terminated

/-- Both callers take the event back if it is attached. -/
def takeBack (freed : Loop → Bool) (w : Name) (x : Watcher Loop) (events : lib.State) :
    Checked lib.State :=
  if x.attached && x.event then
    if freed x.base then .error .outOfBounds else .ok (lib.eventDel events w)
  else .ok events

/-- `event_add`, and whether it succeeded -/
def eventAdd (freed : Loop → Bool) (w : Name) (x : Watcher Loop) (events : lib.State)
    (waits : Bool) : Checked (lib.State × Bool) :=
  if x.event = false then .error .nullPointer
  -- the event is all zeros before it is assigned, and leads to no base
  else if x.assigned && freed x.base then .error .outOfBounds
  else .ok (lib.eventAdd events w x.assigned waits)

/-- A time to wait for is given for a timer, and the others wait for their descriptor. -/
def doWatch (freed : Loop → Bool) (w : Name) (x : Watcher Loop) (events : lib.State) :
    Checked (Watcher Loop × lib.State × Bool) := do
  let events ← x.takeBack freed w events
  let (events, added) ← { x with attached := false }.eventAdd freed w events true
  return ({ x with attached := added }, events, added)

def detachEventAndFree (freed : Loop → Bool) (w : Name) (x : Watcher Loop) (events : lib.State) :
    Checked (Watcher Loop × lib.State) :=
  if x.event = false then .ok (x, events)
  else do
    let events ← x.takeBack freed w events
    -- libevent would keep a pointer to the event that is deleted
    if lib.keeps events w then .error .outOfBounds
    else return ({ x with attached := false, event := false }, events)

end Watcher

/-- `none` owns the descriptors that the rest of the process opened. -/
structure Process (Name Loop : Type) [DecidableEq Name] (lib : Libevent Name) where
  files : Descriptors (Option Name)
  events : lib.State
  /-- the bases that `event_base_free` was called for -/
  freed : Loop → Bool
  watchers : Name → Option (Watcher Loop)

inductive Op (Name Loop : Type) where
  | create (w : Name) (kind : Kind) (base : Loop)
  /-- the descriptors that were opened, if that went well, and what `event_add` answered -/
  | doInit (w : Name) (answer : Option (List Nat × Bool))
  /-- with what `event_add` answered -/
  | asyncWait (w : Name) (answer : Bool)
  /-- a timer is due -/
  | fire (w : Name)
  | doCancel (w : Name)
  | doTerminate (w : Name)
  | destroy (w : Name)
  | freeBase (base : Loop)
  /-- the rest of the process opens or closes a descriptor -/
  | openOther (n : Nat)
  | closeOther (n : Nat)
  deriving DecidableEq

namespace Process

variable {Name Loop : Type} [DecidableEq Name] [DecidableEq Loop] {lib : Libevent Name}

def start : Process Name Loop lib := ⟨⟨fun _ => none, []⟩, lib.start, fun _ => false, fun _ => none⟩

def put (s : Process Name Loop lib) (w : Name) (x : Watcher Loop) : Process Name Loop lib :=
  { s with watchers := Function.update s.watchers w (some x) }

/-- The first step of every destructor, and what `doInit` does twice if it fails. -/
def doTerminate (s : Process Name Loop lib) (w : Name) (x : Watcher Loop) :
    Process Name Loop lib :=
  { s with files := s.files.closeAll (some w) x.fds }.put w
    { x with fds := x.kind.cleared, terminated := true }

/-- The answer of `event_add` is not looked at. -/
def doInit (s : Process Name Loop lib) (w : Name) (x : Watcher Loop) :
    Option (List Nat × Bool) → Checked (Process Name Loop lib)
  | none =>
    let x := { x with fds := x.kind.refused x.fds }
    .ok ((s.doTerminate w x).doTerminate w { x with fds := x.kind.cleared, terminated := true })
  | some (fds, answer) => do
    let x := { x with fds := fds.map Int.ofNat, assigned := true, terminated := false }
    -- a timer waits for no descriptor, and no time is given
    let (events, added) ← x.eventAdd s.freed w s.events (decide (x.kind ≠ Kind.timer))
    if added = answer then
      return { s with files := s.files.opened (some w) fds, events := events }.put w x
    else .error .ruledOut

def asyncWait (s : Process Name Loop lib) (w : Name) (x : Watcher Loop) (answer : Bool) :
    Checked (Process Name Loop lib) := do
  let (x, events, added) ← x.doWatch s.freed w s.events
  if added = answer then return { s with events := events }.put w x else .error .ruledOut

def doCancel (s : Process Name Loop lib) (w : Name) (x : Watcher Loop) :
    Checked (Process Name Loop lib) := do
  let (x, events) ← x.detachEventAndFree s.freed w s.events
  return { s with events := events }.put w x

/-- The destructor of the class, then that of `EventWatcher`. -/
def destroy (s : Process Name Loop lib) (w : Name) (x : Watcher Loop) :
    Checked (Process Name Loop lib) := do
  let s := s.doTerminate w x
  let (_, events) ← x.detachEventAndFree s.freed w s.events
  return { s with watchers := Function.update s.watchers w none, events := events }

/-- The event of the watcher was assigned to the base. -/
def assignedTo (s : Process Name Loop lib) (base : Loop) (w : Name) : Bool :=
  (s.watchers w).any fun x => decide (x.base = base) && x.assigned

def freeBase (s : Process Name Loop lib) (base : Loop) : Process Name Loop lib :=
  { s with
    freed := Function.update s.freed base true
    events := lib.baseFree s.events (s.assignedTo base) }

def exec (s : Process Name Loop lib) : Op Name Loop → Checked (Process Name Loop lib)
  | .create w kind base => .ok (s.put w (.make kind base))
  | .freeBase base => .ok (s.freeBase base)
  | .openOther n => .ok { s with files := s.files.opened none [n] }
  | .closeOther n => .ok { s with files := s.files.close none n }
  | .doInit w answer => (s.watchers w).elim (.error .ruledOut) fun x => s.doInit w x answer
  | .asyncWait w answer => (s.watchers w).elim (.error .ruledOut) fun x => s.asyncWait w x answer
  | .fire w => .ok { s with events := lib.activate s.events w }
  | .doCancel w => (s.watchers w).elim (.error .ruledOut) (s.doCancel w)
  | .doTerminate w => (s.watchers w).elim (.error .ruledOut) fun x => .ok (s.doTerminate w x)
  | .destroy w => (s.watchers w).elim (.error .ruledOut) (s.destroy w)

/-- `~EventLoop`, and then its member `event_watcher_` -/
def destroyLoop (s : Process Name Loop lib) (base : Loop) (w : Name) :
    Checked (Process Name Loop lib) := do
  let s ← s.exec (.freeBase base)
  s.exec (.destroy w)

/-- What the kernel may answer to `doInitImpl`: new descriptors, one for each member. -/
def Grants (s : Process Name Loop lib) (kind : Kind) : Option (List Nat × Bool) → Prop
  | none => kind ≠ .timer
  | some (fds, _) => fds.length = kind.cleared.length ∧ fds.Nodup ∧
      ∀ n ∈ fds, s.files.table n = none

instance (s : Process Name Loop lib) (kind : Kind) :
    (answer : Option (List Nat × Bool)) → Decidable (s.Grants kind answer)
  | none => inferInstanceAs (Decidable (_ ≠ _))
  | some _ => inferInstanceAs (Decidable (_ ∧ _))

/-- A watcher is made for a loop that exists, and initialised once. -/
def Possible (s : Process Name Loop lib) : Op Name Loop → Prop
  | .create w _ base => s.watchers w = none ∧ s.freed base = false
  | .doInit w answer => ∃ x ∈ s.watchers w, x.assigned = false ∧ s.Grants x.kind answer
  | .fire w => lib.keeps s.events w = true ∧ ∃ x ∈ s.watchers w, x.kind = .timer
  | .asyncWait w _ | .doCancel w | .doTerminate w | .destroy w => s.watchers w ≠ none
  | .freeBase base => s.freed base = false
  | .openOther n => s.files.table n = none
  | .closeOther n => s.files.table n = some none

instance (s : Process Name Loop lib) : (e : Op Name Loop) → Decidable (s.Possible e)
  | .create .. | .fire _ => inferInstanceAs (Decidable (_ ∧ _))
  | .doInit .. => inferInstanceAs (Decidable (∃ x ∈ _, _))
  | .asyncWait .. | .doCancel _ | .doTerminate _ | .destroy _ => inferInstanceAs (Decidable (_ ≠ _))
  | .freeBase _ | .openOther _ | .closeOther _ => inferInstanceAs (Decidable (_ = _))

end Process

def watching (Name Loop : Type) [DecidableEq Name] [DecidableEq Loop] (lib : Libevent Name) :
    System (Process Name Loop lib) (Op Name Loop) where
  start s := s = .start
  step s e t := s.Possible e ∧ s.exec e = .ok t

section
variable {Name Loop : Type} [DecidableEq Name] [DecidableEq Loop] {lib : Libevent Name}

omit [DecidableEq Loop] in
theorem elim_ok_iff {α : Type} {o : Option α} {f : α → Checked (Process Name Loop lib)}
    {t : Process Name Loop lib} :
    o.elim (.error .ruledOut) f = .ok t ↔ ∃ x, o = some x ∧ f x = .ok t := by
  cases o with
  | none => simp
  | some x => simp

omit [DecidableEq Loop] in
theorem Process.put_watchers (s : Process Name Loop lib) (w v : Name) (x : Watcher Loop) :
    (s.put w x).watchers v = if v = w then some x else s.watchers v :=
  Function.update_apply ..

/-! ## Events that are deleted -/

namespace Watcher

variable {freed : Loop → Bool} {w v : Name} {x : Watcher Loop} {events events' : lib.State}

omit [DecidableEq Loop] in
theorem takeBack_ok_iff :
    (∃ events', x.takeBack freed w events = .ok events') ↔
      (x.attached = true → x.event = true → freed x.base = false) := by
  rw [takeBack]
  cases x.attached <;> cases x.event <;> cases freed x.base <;> simp

omit [DecidableEq Loop] in
/-- The event is taken out, or was not attached. -/
theorem takeBack_keeps (ran : x.takeBack freed w events = .ok events') (event : x.event = true) :
    lib.keeps events' w = (lib.keeps events w && !x.attached) ∧
      ∀ v, v ≠ w → lib.keeps events' v = lib.keeps events v := by
  rw [takeBack, event, Bool.and_true] at ran
  cases attached : x.attached with
  | true =>
    rw [attached, if_pos rfl] at ran
    split at ran
    · cases ran
    · cases ran
      simp +contextual [lib.eventDel_keeps]
  | false =>
    rw [attached] at ran
    cases ran
    simp

omit [DecidableEq Loop] in
theorem detachEventAndFree_ok_iff (event : x.event = true) :
    (∃ y, x.detachEventAndFree freed w events = .ok y) ↔
      if x.attached then freed x.base = false else lib.keeps events w = false := by
  rw [detachEventAndFree, event]
  cases back : x.takeBack freed w events with
  | error fault =>
    have unable : ¬ ∃ events', x.takeBack freed w events = .ok events' := by
      rw [back]
      simp
    rw [takeBack_ok_iff] at unable
    simp only [Classical.not_imp, Bool.not_eq_false] at unable
    obtain ⟨attached, _, gone⟩ := unable
    simp [attached, gone, bind, Except.bind]
  | ok events' =>
    have there := takeBack_ok_iff.mp ⟨events', back⟩
    have keeps := (takeBack_keeps back event).1
    cases attached : x.attached with
    | true =>
      rw [attached, Bool.not_true, Bool.and_false] at keeps
      simp [keeps, there attached event]
    | false =>
      rw [attached, Bool.not_false, Bool.and_true] at keeps
      cases kept : lib.keeps events w with
      | true => simp [keeps, kept]
      | false => simp [keeps, kept]

omit [DecidableEq Loop] in
/-- Libevent has no pointer to an event that was deleted, and what it has of others it keeps. -/
theorem detachEventAndFree_keeps {y : Watcher Loop × lib.State}
    (ran : x.detachEventAndFree freed w events = .ok y) :
    y.1.event = false ∧ (x.event = true → lib.keeps y.2 w = false) ∧
      (x.event = false → lib.keeps y.2 w = lib.keeps events w) ∧
      ∀ v, v ≠ w → lib.keeps y.2 v = lib.keeps events v := by
  rw [detachEventAndFree] at ran
  split at ran
  · next none_ =>
    cases ran
    exact ⟨none_, (fun event => by cases none_.symm.trans event), fun _ => rfl, fun _ _ => rfl⟩
  · next some_ =>
    obtain ⟨events', back, rest⟩ := bind_ok_iff.mp ran
    have event : x.event = true := Bool.not_eq_false _ ▸ some_
    split at rest
    · cases rest
    · next loose =>
      cases rest
      exact ⟨rfl, fun _ => Bool.eq_false_iff.mpr loose, fun none_ => absurd none_ some_,
        (takeBack_keeps back event).2⟩

omit [DecidableEq Loop] in
/-- `event_add` succeeds only for an event that is there and assigned. -/
theorem doWatch_added {y : Watcher Loop × lib.State × Bool}
    (ran : x.doWatch freed w events = .ok y) (added : y.2.2 = true) :
    x.event = true ∧ x.assigned = true ∧ y.1 = { x with attached := true } ∧
      ∀ v, v ≠ w → lib.keeps y.2.1 v = lib.keeps events v := by
  rw [doWatch] at ran
  obtain ⟨events₁, back, rest⟩ := bind_ok_iff.mp ran
  obtain ⟨⟨events₂, answer⟩, add, done⟩ := bind_ok_iff.mp rest
  cases done
  dsimp only at added ⊢
  subst added
  rw [eventAdd] at add
  split at add
  · cases add
  next some_ =>
    split at add
    · cases add
    · have same : lib.eventAdd events₁ w x.assigned true = (events₂, true) := Except.ok.inj add
      have event : x.event = true := Bool.not_eq_false _ ▸ some_
      refine ⟨event, ?_, rfl, fun v other => ?_⟩
      · cases assigned : x.assigned with
        | true => rfl
        | false =>
          have refused := lib.eventAdd_unassigned events₁ w true
          rw [assigned] at same
          rw [same] at refused
          cases refused
      · have kept := lib.eventAdd_other events₁ w x.assigned true other
        rw [same] at kept
        exact kept.trans ((takeBack_keeps back event).2 v other)

end Watcher

/-- `asyncWait` has been called for the watcher. -/
def waited (w : Name) : List (Op Name Loop) → Bool
  | [] => false
  | .asyncWait v _ :: past => decide (v = w) || waited w past
  | .create v _ _ :: past => !decide (v = w) && waited w past
  | _ :: past => waited w past

/-- What the flags of a watcher say, for which `asyncWait` has been called or not; `kept` is
whether libevent has a pointer to its event. -/
structure Standing (freed : Loop → Bool) (waited kept : Bool) (x : Watcher Loop) : Prop where
  attached : x.attached = waited
  assigned : x.attached = true → x.assigned = true
  kept : x.attached = false →
    kept = (decide (x.kind ≠ Kind.timer) && x.assigned && !freed x.base)

namespace Standing

variable {freed : Loop → Bool} {called kept : Bool} {x : Watcher Loop}

omit [DecidableEq Loop] in
theorem make (kind : Kind) (base : Loop) : Standing freed false false (.make kind base) where
  attached := rfl
  assigned h := by cases h
  kept _ := by simp [Watcher.make]

omit [DecidableEq Loop] in
/-- Descriptors do not matter. -/
theorem close (h : Standing freed called kept x) (fds : List Int) :
    Standing freed called kept { x with fds := fds, terminated := true } :=
  ⟨h.attached, h.assigned, h.kept⟩

omit [DecidableEq Loop] in
theorem init (h : Standing freed called kept x) (new : x.assigned = false)
    (there : freed x.base = false) (fds : List Int) :
    Standing freed called (kept || decide (x.kind ≠ Kind.timer)) { x with
      fds := fds, assigned := true, terminated := false } where
  attached := h.attached
  assigned _ := rfl
  kept loose := by
    rw [h.kept loose, new]
    simp [there]

omit [DecidableEq Loop] in
theorem wait (h : x.assigned = true) : Standing freed true kept { x with attached := true } where
  attached := rfl
  assigned _ := h
  kept h := by cases h

omit [DecidableEq Loop] in
/-- An event that libevent has removed is that of a timer. -/
theorem fire (h : Standing freed called kept x) (timer : x.kind = .timer) :
    Standing freed called false x where
  attached := h.attached
  assigned := h.assigned
  kept _ := by simp [timer]

theorem free (h : Standing freed called kept x) (base : Loop) :
    Standing (Function.update freed base true) called
      (kept && !(decide (x.base = base) && x.assigned)) x where
  attached := h.attached
  assigned := h.assigned
  kept loose := by
    rw [h.kept loose]
    by_cases same : x.base = base
    · cases x.assigned <;> simp [same]
    · simp [same]

end Standing

/-- `event_add` does not fail. -/
def Adds (_ : Process Name Loop lib) : Op Name Loop → Prop
  | .doInit _ (some (_, answer)) => answer = true
  | .asyncWait _ answer => answer = true
  | _ => True

/-- Watchers that have not been cancelled stand as was said, and of the others libevent has
nothing. -/
structure Stands (s : Process Name Loop lib) (past : List (Op Name Loop)) : Prop where
  standing : ∀ w x, s.watchers w = some x → x.event = true →
    Standing s.freed (waited w past) (lib.keeps s.events w) x
  loose : ∀ w, (∀ x, s.watchers w = some x → x.event = false) → lib.keeps s.events w = false

omit [DecidableEq Loop] in
theorem Process.doTerminate_watchers (s : Process Name Loop lib) (w v : Name) (x : Watcher Loop) :
    (s.doTerminate w x).watchers v =
      if v = w then some { x with fds := x.kind.cleared, terminated := true }
      else s.watchers v :=
  Function.update_apply ..

namespace Stands

variable {s t : Process Name Loop lib} {past : List (Op Name Loop)} {e : Op Name Loop} {w : Name}
  {x : Watcher Loop}

omit [DecidableEq Loop] in
/-- One watcher changes, and no base. -/
theorem put (h : Stands s past) (freed : t.freed = s.freed)
    (watchers : ∀ v, t.watchers v = if v = w then some x else s.watchers v)
    (others : ∀ v, v ≠ w → waited v (e :: past) = waited v past)
    (kept : ∀ v, v ≠ w → lib.keeps t.events v = lib.keeps s.events v)
    (this : x.event = true → Standing s.freed (waited w (e :: past)) (lib.keeps t.events w) x)
    (gone : x.event = false → lib.keeps t.events w = false) : Stands t (e :: past) := by
  constructor
  · intro v y found event
    rw [watchers] at found
    rw [freed]
    split at found
    · next same =>
      cases found
      rw [same]
      exact this event
    · next other =>
      rw [others v other, kept v other]
      exact h.standing v y found event
  · intro v none_
    by_cases same : v = w
    · subst same
      exact gone (none_ x (by rw [watchers, if_pos rfl]))
    · rw [kept v same]
      refine h.loose v fun y found => none_ y ?_
      rw [watchers, if_neg same, found]

omit [DecidableEq Loop] in
/-- An event that was deleted is not kept. -/
theorem gone (h : Stands s past) (found : s.watchers w = some x) (none_ : x.event = false) :
    lib.keeps s.events w = false := by
  refine h.loose w fun y there => ?_
  cases found.symm.trans there
  exact none_

omit [DecidableEq Loop] in
theorem doInit (h : Stands s past) (found : s.watchers w = some x) (new : x.assigned = false)
    {answer : Option (List Nat × Bool)} (adds : Adds s (.doInit w answer : Op Name Loop))
    (ran : s.doInit w x answer = .ok t) : Stands t (.doInit w answer :: past) := by
  cases answer with
  | none =>
    cases ran
    refine h.put (w := w) (x := { x with fds := x.kind.cleared, terminated := true }) rfl
      (fun v => ?_) (fun _ _ => rfl) (fun _ _ => rfl) (fun event => ?_) (fun none_ => ?_)
    · rw [Process.doTerminate_watchers, Process.doTerminate_watchers]
      split
      · rfl
      · rfl
    · exact (h.standing w x found event).close _
    · exact h.gone found none_
  | some answer =>
    obtain ⟨fds, answer⟩ := answer
    have yes : answer = true := adds
    subst yes
    obtain ⟨⟨events, added⟩, add, done⟩ := bind_ok_iff.mp ran
    dsimp only at done
    split at done
    case isFalse => cases done
    case isTrue yes =>
      subst yes
      cases done
      rw [Watcher.eventAdd] at add
      split at add
      · cases add
      next some_ =>
        split at add
        · cases add
        next there =>
          have same := Except.ok.inj add
          have kept := lib.eventAdd_keeps (congrArg Prod.snd same)
          rw [same] at kept
          have there : s.freed x.base = false := by simpa using there
          refine h.put rfl (fun v => Process.put_watchers ..) (fun _ _ => rfl)
            (fun v other => ?_) (fun event => ?_) (fun none_ => absurd none_ some_)
          · have others := lib.eventAdd_other s.events w true (decide (x.kind ≠ Kind.timer)) other
            exact (congrArg (fun p => lib.keeps p.1 v) same).symm.trans others
          · show Standing s.freed (waited w past) (lib.keeps events w) _
            rw [show lib.keeps events w = _ from kept]
            exact (h.standing w x found event).init new there _

omit [DecidableEq Loop] in
theorem asyncWait (h : Stands s past) {answer : Bool}
    (adds : Adds s (.asyncWait w answer : Op Name Loop))
    (ran : s.asyncWait w x answer = .ok t) : Stands t (.asyncWait w answer :: past) := by
  have yes : answer = true := adds
  subst yes
  obtain ⟨⟨y, events, added⟩, watched, done⟩ := bind_ok_iff.mp ran
  dsimp only at done
  split at done
  case isFalse => cases done
  case isTrue yes =>
    subst yes
    cases done
    obtain ⟨event, assigned, rfl, kept⟩ := Watcher.doWatch_added watched rfl
    refine h.put rfl (fun v => Process.put_watchers ..) (fun v other => ?_) kept (fun _ => ?_)
      (fun none_ => ?_)
    · simp [waited, Ne.symm other]
    · simp only [waited, decide_true, Bool.true_or]
      exact .wait assigned
    · cases event.symm.trans none_

omit [DecidableEq Loop] in
theorem fire (h : Stands s past) (found : s.watchers w = some x) (timer : x.kind = .timer) :
    Stands { s with events := lib.activate s.events w } (.fire w :: past) := by
  refine h.put (w := w) (x := x) rfl (fun v => ?_) (fun _ _ => rfl) (fun v other => ?_)
    (fun event => ?_) (fun _ => ?_)
  · split
    · next same => rw [same, found]
    · rfl
  · simp [lib.activate_keeps, other]
  · simp only [lib.activate_keeps, decide_true, Bool.not_true, Bool.and_false]
    exact (h.standing w x found event).fire timer
  · simp [lib.activate_keeps]

omit [DecidableEq Loop] in
/-- `detachEventAndFree` leaves no event of the watcher behind. -/
theorem detached {y : Watcher Loop} {events : lib.State} (h : Stands s past)
    (found : s.watchers w = some x)
    (freed : x.detachEventAndFree s.freed w s.events = .ok (y, events)) :
    lib.keeps events w = false := by
  obtain ⟨_, deleted, before, _⟩ := Watcher.detachEventAndFree_keeps freed
  cases event : x.event with
  | true => exact deleted event
  | false => exact (before event).trans (h.gone found event)

omit [DecidableEq Loop] in
theorem destroy (h : Stands s past) (found : s.watchers w = some x)
    (ran : s.destroy w x = .ok t) : Stands t (.destroy w :: past) := by
  obtain ⟨⟨y, events⟩, freed, done⟩ := bind_ok_iff.mp ran
  cases done
  obtain ⟨_, _, _, others⟩ := Watcher.detachEventAndFree_keeps freed
  have watchers (v : Name) (other : v ≠ w) :
      Function.update (s.doTerminate w x).watchers w none v = s.watchers v := by
    rw [Function.update_of_ne other, Process.doTerminate_watchers, if_neg other]
  constructor
  · intro v y there event
    have other : v ≠ w := by
      rintro rfl
      cases (Function.update_self ..).symm.trans there
    have kept : lib.keeps events v = lib.keeps s.events v := others v other
    show Standing s.freed (waited v past) (lib.keeps events v) y
    rw [kept]
    exact h.standing v y ((watchers v other).symm.trans there) event
  · intro v none_
    by_cases same : v = w
    · subst same
      exact h.detached found freed
    · refine (others v same).trans (h.loose v fun y there => none_ y ?_)
      exact (watchers v same).trans there

theorem step (h : Stands s past) (adds : Adds s e) (possible : s.Possible e)
    (ran : s.exec e = .ok t) : Stands t (e :: past) := by
  cases e with
  | create w kind base =>
    have kept : lib.keeps s.events w = false := by
      refine h.loose w fun x found => ?_
      cases possible.1.symm.trans found
    cases ran
    refine h.put rfl (fun v => s.put_watchers w v _) (fun v other => ?_) (fun _ _ => rfl)
      (fun _ => ?_) nofun
    · simp [waited, Ne.symm other]
    · simp only [waited, decide_true, Bool.not_true, Bool.false_and]
      rw [show lib.keeps (s.put w (.make kind base)).events w = false from kept]
      exact .make kind base
  | doInit w answer =>
    obtain ⟨x, found, ran⟩ := elim_ok_iff.mp ran
    obtain ⟨y, same, new, -⟩ := possible
    cases found.symm.trans same
    exact h.doInit found new adds ran
  | asyncWait w answer =>
    obtain ⟨x, _, ran⟩ := elim_ok_iff.mp ran
    exact h.asyncWait adds ran
  | fire w =>
    obtain ⟨_, x, found, timer⟩ := possible
    cases ran
    exact h.fire found timer
  | doCancel w =>
    obtain ⟨x, found, ran⟩ := elim_ok_iff.mp ran
    obtain ⟨⟨y, events⟩, freed, done⟩ := bind_ok_iff.mp ran
    cases done
    obtain ⟨none_, _, _, others⟩ := Watcher.detachEventAndFree_keeps freed
    refine h.put rfl (fun v => Process.put_watchers ..) (fun _ _ => rfl) others (fun event => ?_)
      (fun _ => h.detached found freed)
    cases none_.symm.trans event
  | doTerminate w =>
    obtain ⟨x, found, ran⟩ := elim_ok_iff.mp ran
    cases ran
    refine h.put rfl (fun v => Process.doTerminate_watchers ..) (fun _ _ => rfl) (fun _ _ => rfl)
      (fun event => ?_) (fun none_ => ?_)
    · exact (h.standing w x found event).close _
    · exact h.gone found none_
  | destroy w =>
    obtain ⟨x, found, ran⟩ := elim_ok_iff.mp ran
    exact h.destroy found ran
  | freeBase base =>
    cases ran
    constructor
    · intro w x found event
      have found : s.watchers w = some x := found
      have standing := (h.standing w x found event).free base
      simp only [Process.freeBase, lib.baseFree_keeps, Process.assignedTo, found, Option.any_some]
      exact standing
    · intro w none_
      simp only [Process.freeBase, lib.baseFree_keeps, h.loose w none_, Bool.false_and]
  | openOther n | closeOther n =>
    cases ran
    exact ⟨h.standing, h.loose⟩

end Stands

theorem reachable_stands {s : Process Name Loop lib} {past : List (Op Name Loop)}
    (run : ((watching Name Loop lib).restrict Adds).traced.Reachable (s, past)) :
    Stands s past := by
  refine System.invariant _ (P := fun p => Stands p.1 p.2) ?_ ?_ run
  · rintro ⟨s, past⟩ ⟨rfl, -⟩
    refine ⟨fun w x found => ?_, fun w _ => lib.start_keeps w⟩
    cases found
  · rintro ⟨s, past⟩ e ⟨t, _⟩ h ⟨⟨adds, possible, ran⟩, rfl⟩
    exact h.step adds possible ran

/-- The descriptors are closed first, which always returns. -/
theorem Process.destroy_ok_iff {s : Process Name Loop lib} {w : Name} {x : Watcher Loop}
    (found : s.watchers w = some x) :
    (∃ t, s.exec (.destroy w) = .ok t) ↔
      ∃ y, x.detachEventAndFree s.freed w s.events = .ok y := by
  have run : s.exec (.destroy w) = s.destroy w x := by rw [exec, found, Option.elim_some]
  rw [run]
  constructor
  · rintro ⟨t, ran⟩
    obtain ⟨y, freed, -⟩ := bind_ok_iff.mp ran
    exact ⟨y, freed⟩
  · rintro ⟨y, freed⟩
    exact ⟨_, bind_ok_iff.mpr ⟨y, freed, rfl⟩⟩

/-- **When a watcher can be destroyed.** If no wait was ever asked for, libevent still has the
event of an initialised `EventfdWatcher` or `PipeEventWatcher`, unless the base is gone, and
deleting it leaves a dangling pointer there. If one was, the event is taken out of the base,
which therefore must not be gone. `~EventLoop` frees the base first, and so it
goes through exactly if the loop was never dispatched. -/
theorem watcher_destroyed_iff {s : Process Name Loop lib} {past : List (Op Name Loop)}
    (run : ((watching Name Loop lib).restrict Adds).traced.Reachable (s, past)) {w : Name}
    {x : Watcher Loop} (found : s.watchers w = some x) (event : x.event = true) :
    ((∃ t, s.exec (.destroy w) = .ok t) ↔
      if waited w past then s.freed x.base = false
      else x.kind = .timer ∨ x.assigned = false ∨ s.freed x.base = true) ∧
    ((∃ t, s.destroyLoop x.base w = .ok t) ↔ waited w past = false) := by
  have standing := (reachable_stands run).standing w x found event
  constructor
  · rw [Process.destroy_ok_iff found, Watcher.detachEventAndFree_ok_iff event, standing.attached]
    cases called : waited w past with
    | true => exact Iff.rfl
    | false =>
      have kept := standing.kept (standing.attached.trans called)
      simp only [Bool.false_eq_true, if_false, kept]
      cases x.kind <;> cases x.assigned <;> cases s.freed x.base <;> simp
  · have after : (s.freeBase x.base).watchers w = some x := found
    have gone : (s.freeBase x.base).freed x.base = true := Function.update_self ..
    refine (Process.destroy_ok_iff after).trans ?_
    rw [Watcher.detachEventAndFree_ok_iff event, standing.attached]
    cases called : waited w past with
    | true => simp [gone]
    | false =>
      have kept := (standing.free x.base).kept (standing.attached.trans called)
      have left : lib.keeps (s.freeBase x.base).events w = false := by
        simpa [Process.freeBase, lib.baseFree_keeps, Process.assignedTo, found] using kept
      simp [left]

instance (s : Process Name Loop lib) : (e : Op Name Loop) → Decidable (Adds s e)
  | .doInit _ (some (_, answer)) => inferInstanceAs (Decidable (answer = true))
  | .asyncWait _ answer => inferInstanceAs (Decidable (answer = true))
  | .create .. | .doInit _ none | .fire _ | .doCancel _ | .doTerminate _ | .destroy _
  | .freeBase _ | .openOther _ | .closeOther _ => .isTrue trivial

/-- One step of a run in which `event_add` does not fail, with what was done before. -/
def attempt (p : Process Name Loop lib × List (Op Name Loop)) (e : Op Name Loop) :
    Checked (Process Name Loop lib × List (Op Name Loop)) :=
  if Adds p.1 e ∧ p.1.Possible e then (p.1.exec e).map fun t => (t, e :: p.2)
  else .error .ruledOut

theorem reachable_of_events (events : List (Op Name Loop)) {past : List (Op Name Loop)}
    {s : Process Name Loop lib} (run : events.foldlM attempt (.start, []) = .ok (s, past)) :
    ((watching Name Loop lib).restrict Adds).traced.Reachable (s, past) := by
  refine System.Reachable.compute (s := (Process.start, [])) ?_ (.start ⟨rfl, rfl⟩) run
  rintro ⟨s, past⟩ e ⟨t, after⟩ ran
  rw [attempt] at ran
  split at ran
  · next allowed =>
    cases next : s.exec e with
    | error fault =>
      rw [next] at ran
      cases ran
    | ok u =>
      rw [next] at ran
      cases ran
      exact ⟨⟨allowed.1, allowed.2, next⟩, rfl⟩
  · cases ran

theorem reachable_untraced {past : List (Op Name Loop)} {s : Process Name Loop lib}
    (run : ((watching Name Loop lib).restrict Adds).traced.Reachable (s, past)) :
    (watching Name Loop lib).Reachable s := by
  refine System.restrict_reachable _ (System.Reachable.refine
    (N := (watching Name Loop lib).restrict Adds) Prod.fst ?_ ?_ run)
  · intro p first
    exact first.1
  · intro p e q step
    exact .inr ⟨e, step.1⟩

end

/-- A libevent that knows of every event whether it was added, and has memory enough. -/
def Libevent.flags (Name : Type) [DecidableEq Name] : Libevent Name where
  State := Name → Bool
  start _ := false
  keeps s w := s w
  eventAdd s w assigned waits :=
    if assigned then (Function.update s w (s w || waits), true) else (s, false)
  eventDel s w v := s v && !decide (v = w)
  activate s w v := s v && !decide (v = w)
  baseFree s mine v := s v && !mine v
  start_keeps _ := rfl
  eventAdd_unassigned _ _ _ := rfl
  eventAdd_keeps {s w assigned waits} added := by
    cases assigned with
    | true => exact Function.update_self ..
    | false => cases added
  eventAdd_other s w assigned waits v other := by
    cases assigned with
    | true => exact Function.update_of_ne other ..
    | false => rfl
  eventDel_keeps _ _ _ := rfl
  activate_keeps _ _ _ := rfl
  baseFree_keeps _ _ _ := rfl

/-- A loop that has been dispatched and is destroyed. -/
theorem watcher_destroyed_dispatched : ∃ s : Process Unit Unit (.flags Unit), ∃ past,
    ((watching Unit Unit (.flags Unit)).restrict Adds).traced.Reachable (s, past) ∧
      ¬ ∃ t, s.destroyLoop () () = .ok t := by
  have run : ((watching Unit Unit (.flags Unit)).restrict Adds).traced.Reachable _ :=
    reachable_of_events
      [.create () .eventfd (), .doInit () (some ([5], true)), .asyncWait () true] rfl
  refine ⟨_, _, run, fun returns => ?_⟩
  cases (watcher_destroyed_iff run (w := ()) rfl rfl).2.mp returns

section
variable {Name Loop : Type} [DecidableEq Name] [DecidableEq Loop] {lib : Libevent Name}

/-! ## Descriptors that are closed -/

/-- What a watcher knows of its descriptors. -/
def Watcher.own (x : Watcher Loop) : Kind × Bool × List Int := (x.kind, x.opened, x.fds)

omit [DecidableEq Loop] in
theorem Watcher.detachEventAndFree_own {freed : Loop → Bool} {w : Name} {x : Watcher Loop}
    {events : lib.State} {y : Watcher Loop × lib.State}
    (ran : x.detachEventAndFree freed w events = .ok y) : y.1.own = x.own := by
  rw [detachEventAndFree] at ran
  split at ran
  · cases ran
    rfl
  · obtain ⟨_, -, rest⟩ := bind_ok_iff.mp ran
    split at rest
    · cases rest
    · cases rest
      rfl

omit [DecidableEq Loop] in
theorem Watcher.doWatch_own {freed : Loop → Bool} {w : Name} {x : Watcher Loop}
    {events : lib.State} {y : Watcher Loop × lib.State × Bool}
    (ran : x.doWatch freed w events = .ok y) : y.1.own = x.own := by
  obtain ⟨_, -, rest⟩ := bind_ok_iff.mp ran
  obtain ⟨_, -, done⟩ := bind_ok_iff.mp rest
  cases done
  rfl

/-- The destructor, `doTerminate`, and an initialisation that fails. -/
def Op.Closes (e : Op Name Loop) (w : Name) : Prop :=
  e = .destroy w ∨ e = .doTerminate w ∨ e = .doInit w none

namespace Process

variable {s t : Process Name Loop lib} {w : Name} {x : Watcher Loop} {e : Op Name Loop}

def owns (s : Process Name Loop lib) (w : Name) : Option (Kind × Bool × List Int) :=
  (s.watchers w).map Watcher.own

/-- The watcher has opened the descriptor and not closed it. -/
def Holds (s : Process Name Loop lib) (w : Name) (n : Nat) : Prop :=
  ∃ kind fds, s.owns w = some (kind, true, fds) ∧ (n : Int) ∈ fds

/-- What a step does to the descriptors. -/
inductive Change (s t : Process Name Loop lib) (e : Op Name Loop) : Prop where
  | closes (w kind opened fds) : s.owns w = some (kind, opened, fds) → e.Closes w →
      t.files = s.files.closeAll (some w) fds →
      (t.owns w = none ∨ t.owns w = some (kind, false, kind.cleared)) →
      (∀ v, v ≠ w → t.owns v = s.owns v) → Change s t e
  | opens (w kind old fds) : s.owns w = some (kind, false, old) → (∀ v, ¬ e.Closes v) →
      (∀ n ∈ fds, s.files.table n = none) → t.files = s.files.opened (some w) fds →
      t.owns w = some (kind, true, fds.map Int.ofNat) →
      (∀ v, v ≠ w → t.owns v = s.owns v) → Change s t e
  | creates (w kind) : s.owns w = none → (∀ v, ¬ e.Closes v) → t.files = s.files →
      t.owns w = some (kind, false, kind.cleared) →
      (∀ v, v ≠ w → t.owns v = s.owns v) → Change s t e
  | other : (∀ v, ¬ e.Closes v) → t.files.strays = s.files.strays →
      (∀ n v, t.files.table n = some (some v) ↔ s.files.table n = some (some v)) →
      (∀ v, t.owns v = s.owns v) → Change s t e

omit [DecidableEq Loop] in
theorem put_owns (s : Process Name Loop lib) (w : Name) (x : Watcher Loop) :
    (s.put w x).owns w = some x.own ∧ ∀ v, v ≠ w → (s.put w x).owns v = s.owns v := by
  constructor
  · rw [owns, put_watchers, if_pos rfl, Option.map_some]
  · intro v other
    rw [owns, put_watchers, if_neg other, owns]

omit [DecidableEq Loop] in
/-- A watcher is replaced by one with the same descriptors. -/
theorem put_change {y : Watcher Loop} (found : s.watchers w = some x) (same : y.own = x.own)
    (no : ∀ v, ¬ e.Closes v) (events : lib.State) :
    Change s ({ s with events := events }.put w y) e := by
  refine .other no rfl (fun _ _ => Iff.rfl) fun v => ?_
  by_cases this : v = w
  · subst this
    rw [(put_owns _ v y).1, same, owns, found, Option.map_some]
  · exact (put_owns _ w y).2 v this

/-- A watcher that has not been initialised has what its constructor left there. -/
def Cleared (s : Process Name Loop lib) : Prop :=
  ∀ w kind fds, s.owns w = some (kind, false, fds) → fds = kind.cleared

omit [DecidableEq Loop] in
theorem owns_of (found : s.watchers w = some x) :
    s.owns w = some (x.kind, x.opened, x.fds) := by
  rw [owns, found]
  rfl

omit [DecidableEq Loop] in
/-- Both calls of `doTerminate` close the same numbers. -/
theorem refused_change (h : s.Cleared) (found : s.watchers w = some x)
    (new : x.assigned = false) (ran : s.doInit w x none = .ok t) :
    Change s t (.doInit w none) := by
  have known := owns_of found
  rw [Watcher.opened, new, Bool.false_and] at known
  have cleared := h w x.kind x.fds known
  have refused : x.kind.refused x.fds = x.kind.cleared := by
    rw [cleared]
    cases x.kind <;> rfl
  cases ran
  refine .closes w x.kind false x.fds known (.inr (.inr rfl)) ?_ (.inr ?_) fun v other => ?_
  · show (s.files.closeAll (some w) (x.kind.refused x.fds)).closeAll (some w) x.kind.cleared = _
    rw [refused, Descriptors.closeAll_again, cleared]
  · refine (put_owns ..).1.trans ?_
    simp [Watcher.own, Watcher.opened]
  · exact ((put_owns ..).2 v other).trans ((put_owns ..).2 v other)

omit [DecidableEq Loop] in
theorem terminated_change (found : s.watchers w = some x) :
    Change s (s.doTerminate w x) (.doTerminate w) := by
  refine .closes w x.kind x.opened x.fds (owns_of found) (.inr (.inl rfl)) rfl (.inr ?_)
    (put_owns ..).2
  refine (put_owns ..).1.trans ?_
  simp [Watcher.own, Watcher.opened]

omit [DecidableEq Loop] in
theorem destroyed_change (found : s.watchers w = some x) (ran : s.destroy w x = .ok t) :
    Change s t (.destroy w) := by
  obtain ⟨_, -, done⟩ := bind_ok_iff.mp ran
  cases done
  refine .closes w x.kind x.opened x.fds (owns_of found) (.inl rfl) rfl (.inl ?_)
    fun v other => ?_
  · exact congrArg _ (Function.update_self ..)
  · refine (congrArg _ (Function.update_of_ne other ..)).trans ?_
    exact (put_owns ..).2 v other

theorem exec_change (h : s.Cleared) (possible : s.Possible e) (ran : s.exec e = .ok t) :
    Change s t e := by
  cases e with
  | create w kind base =>
    have new : s.watchers w = none := possible.1
    cases ran
    refine .creates w kind ?_ (by simp [Op.Closes]) rfl (put_owns ..).1 (put_owns ..).2
    rw [owns, new, Option.map_none]
  | doInit w answer =>
    obtain ⟨x, found, ran⟩ := elim_ok_iff.mp ran
    obtain ⟨y, same, new, grants⟩ := possible
    cases found.symm.trans same
    cases answer with
    | none => exact refused_change h found new ran
    | some answer =>
      have known := owns_of found
      rw [Watcher.opened, new, Bool.false_and] at known
      obtain ⟨_, -, done⟩ := bind_ok_iff.mp ran
      dsimp only at done
      split at done
      case isFalse => cases done
      case isTrue =>
        cases done
        exact .opens w x.kind x.fds answer.1 known (by simp [Op.Closes]) grants.2.2 rfl
          (put_owns ..).1 (put_owns ..).2
  | asyncWait w answer =>
    obtain ⟨x, found, ran⟩ := elim_ok_iff.mp ran
    obtain ⟨y, watched, done⟩ := bind_ok_iff.mp ran
    dsimp only at done
    split at done
    case isFalse => cases done
    case isTrue =>
      cases done
      exact put_change found (Watcher.doWatch_own watched) (by simp [Op.Closes]) _
  | fire w =>
    cases ran
    exact .other (by simp [Op.Closes]) rfl (fun _ _ => Iff.rfl) fun _ => rfl
  | doCancel w =>
    obtain ⟨x, found, ran⟩ := elim_ok_iff.mp ran
    obtain ⟨y, freed, done⟩ := bind_ok_iff.mp ran
    cases done
    exact put_change found (Watcher.detachEventAndFree_own freed) (by simp [Op.Closes]) _
  | doTerminate w =>
    obtain ⟨x, found, ran⟩ := elim_ok_iff.mp ran
    cases ran
    exact terminated_change found
  | destroy w =>
    obtain ⟨x, found, ran⟩ := elim_ok_iff.mp ran
    exact destroyed_change found ran
  | freeBase base =>
    cases ran
    exact .other (by simp [Op.Closes]) rfl (fun _ _ => Iff.rfl) fun _ => rfl
  | openOther n =>
    have free : s.files.table n = none := possible
    cases ran
    refine .other (by simp [Op.Closes]) rfl (fun m v => ?_) fun _ => rfl
    show (if m ∈ [n] then some none else s.files.table m) = _ ↔ _
    by_cases same : m = n
    · simp [same, free]
    · simp [same]
  | closeOther n =>
    have mine : s.files.table n = some none := possible
    have nobody : ¬ s.files.Foreign none [(n : Int)] := by
      rintro ⟨m, mem, owner, there, other⟩
      rw [Int.ofNat_inj.mp (List.mem_singleton.mp mem), mine] at there
      exact other (Option.some.inj there).symm
    cases ran
    refine .other (by simp [Op.Closes]) ?_
      (fun m v => s.files.closeAll_other nobody (Option.some_ne_none v) m) fun _ => rfl
    show (s.files.close none (Int.ofNat n)).strays = _
    simp [Descriptors.close, mine]

end Process

/-- A pipe watcher without a pipe closes descriptor 0. -/
def Process.Strays (s : Process Name Loop lib) (e : Op Name Loop) : Prop :=
  ∃ w fds, s.owns w = some (.pipe, false, fds) ∧ e.Closes w ∧ s.files.table 0 ≠ none

/-- What is open for watchers, as long as nobody has closed what belongs to another. -/
structure Kept (s : Process Name Loop lib) : Prop where
  cleared : s.Cleared
  own : s.files.strays = [] → ∀ n w, s.files.table n = some (some w) ↔ s.Holds w n

namespace Kept

variable {s t : Process Name Loop lib} {w : Name} {x : Watcher Loop} {e : Op Name Loop}

omit [DecidableEq Loop] in
theorem start : Kept (Process.start : Process Name Loop lib) where
  cleared w kind fds known := by cases known
  own _ n w := by
    constructor
    · intro h
      cases h
    · rintro ⟨kind, fds, h, -⟩
      cases h

omit [DecidableEq Loop] in
/-- An initialised watcher would close its own descriptors, any other one those that its
constructor has left there. -/
theorem foreign_iff (h : Kept s) (clean : s.files.strays = []) {kind : Kind} {opened : Bool}
    {fds : List Int} (known : s.owns w = some (kind, opened, fds)) :
    s.files.Foreign (some w) fds ↔
      kind = .pipe ∧ opened = false ∧ s.files.table 0 ≠ none := by
  cases opened with
  | true =>
    refine ⟨?_, fun h => (by cases h.2.1)⟩
    rintro ⟨n, mem, owner, there, other⟩
    have mine := (h.own clean n w).mpr ⟨kind, fds, known, mem⟩
    exact absurd (Option.some.inj (there.symm.trans mine)) other
  | false =>
    rw [Descriptors.Foreign, h.cleared w kind fds known]
    cases kind with
    | eventfd | timer => simp [Kind.cleared]
    | pipe =>
      simp only [Kind.cleared, List.mem_cons, List.not_mem_nil, or_false, or_self, true_and]
      constructor
      · rintro ⟨n, zero, owner, there, -⟩ none_
        rw [Int.natCast_eq_zero.mp zero] at there
        cases there.symm.trans none_
      · intro some_
        obtain ⟨owner, there⟩ := Option.ne_none_iff_exists'.mp some_
        refine ⟨0, rfl, owner, there, ?_⟩
        rintro rfl
        obtain ⟨_, _, same, -⟩ := (h.own clean 0 w).mp there
        cases known.symm.trans same

omit [DecidableEq Loop] in
theorem strays_iff (h : Kept s) (clean : s.files.strays = []) (change : s.Change t e) :
    t.files.strays = [] ↔ ¬ s.Strays e := by
  cases change with
  | closes w kind opened fds known closes files _ _ =>
    have this : s.Strays e ↔ s.files.Foreign (some w) fds := by
      rw [h.foreign_iff clean known]
      constructor
      · rintro ⟨v, _, there, also, zero⟩
        have same : v = w := by
          rcases closes with rfl | rfl | rfl <;> rcases also with also | also | also <;>
            cases also <;> rfl
        subst same
        cases known.symm.trans there
        exact ⟨rfl, rfl, zero⟩
      · rintro ⟨rfl, rfl, zero⟩
        exact ⟨w, fds, known, closes, zero⟩
    rw [files, Descriptors.closeAll_strays, this]
    exact and_iff_right clean
  | opens _ _ _ _ _ no _ files _ _ =>
    rw [files]
    exact iff_of_true clean fun ⟨v, _, _, closes, _⟩ => no v closes
  | creates _ _ _ no files _ _ =>
    rw [files]
    exact iff_of_true clean fun ⟨v, _, _, closes, _⟩ => no v closes
  | other no same _ _ =>
    rw [same]
    exact iff_of_true clean fun ⟨v, _, _, closes, _⟩ => no v closes

omit [DecidableEq Loop] in
theorem step_cleared (h : s.Cleared) (change : s.Change t e) : t.Cleared := by
  intro v kind fds there
  cases change with
  | closes w kind' _ _ _ _ _ this others =>
    by_cases same : v = w
    · subst same
      rcases this with gone | left
      · cases gone.symm.trans there
      · cases left.symm.trans there
        rfl
    · exact h v kind fds ((others v same).symm.trans there)
  | opens w _ _ _ _ _ _ _ this others =>
    by_cases same : v = w
    · subst same
      cases this.symm.trans there
    · exact h v kind fds ((others v same).symm.trans there)
  | creates w _ _ _ _ this others =>
    by_cases same : v = w
    · subst same
      cases this.symm.trans there
      rfl
    · exact h v kind fds ((others v same).symm.trans there)
  | other _ _ _ all => exact h v kind fds ((all v).symm.trans there)

omit [DecidableEq Loop] in
theorem holds_congr {v : Name} (same : t.owns v = s.owns v) (n : Nat) :
    s.Holds v n ↔ t.Holds v n := by
  rw [Process.Holds, Process.Holds, same]

omit [DecidableEq Loop] in
/-- Nothing is open for a watcher that has opened nothing. -/
theorem not_table (h : Kept s) (clean : s.files.strays = [])
    (none_ : ∀ kind fds, s.owns w ≠ some (kind, true, fds)) (n : Nat) :
    s.files.table n ≠ some (some w) := by
  intro there
  obtain ⟨kind, fds, known, -⟩ := (h.own clean n w).mp there
  exact none_ kind fds known

omit [DecidableEq Loop] in
theorem step (h : Kept s) (change : s.Change t e) : Kept t := by
  refine ⟨step_cleared h.cleared change, fun clean n v => ?_⟩
  cases change with
  | closes w kind opened fds known _ files this others =>
    rw [files] at clean ⊢
    obtain ⟨before, mine⟩ := (Descriptors.closeAll_strays ..).mp clean
    by_cases same : v = w
    · subst same
      rw [Descriptors.closeAll_table]
      constructor
      · intro there
        split at there
        · cases there
        · next out =>
          obtain ⟨_, _, also, mem⟩ := (h.own before n v).mp there
          cases known.symm.trans also
          exact absurd mem out
      · rintro ⟨_, _, also, -⟩
        rcases this with gone | left
        · cases gone.symm.trans also
        · cases left.symm.trans also
    · rw [Descriptors.closeAll_other mine (fun h => same (Option.some.inj h)), h.own before]
      exact holds_congr (others v same) n
  | opens w kind old fds known _ fresh files this others =>
    rw [files] at clean ⊢
    have before : s.files.strays = [] := clean
    show (if n ∈ fds then some (some w) else s.files.table n) = _ ↔ _
    by_cases same : v = w
    · subst same
      have mem : t.Holds v n ↔ n ∈ fds := by
        rw [Process.Holds, this]
        constructor
        · rintro ⟨_, _, same, mem⟩
          cases same
          obtain ⟨m, new, number⟩ := List.mem_map.mp mem
          rwa [← Int.ofNat.inj number]
        · intro new
          exact ⟨kind, _, rfl, List.mem_map.mpr ⟨n, new, rfl⟩⟩
      rw [mem]
      have none_ : s.files.table n ≠ some (some v) :=
        h.not_table before (fun _ _ also => by cases known.symm.trans also) n
      by_cases new : n ∈ fds
      · simp [new]
      · simp [new, none_]
    · rw [← holds_congr (others v same) n, ← h.own before]
      by_cases new : n ∈ fds
      · simp [new, fresh n new, Ne.symm same]
      · simp [new]
  | creates w kind known _ files this others =>
    rw [files] at clean ⊢
    by_cases same : v = w
    · subst same
      refine iff_of_false (h.not_table clean (fun _ _ also => ?_) n) ?_
      · cases known.symm.trans also
      · rintro ⟨_, _, also, -⟩
        cases this.symm.trans also
    · rw [h.own clean]
      exact holds_congr (others v same) n
  | other _ strays table all =>
    rw [table, h.own (strays.symm.trans clean)]
    exact holds_congr (all v) n

end Kept

theorem reachable_kept {s : Process Name Loop lib} (run : (watching Name Loop lib).Reachable s) :
    Kept s := by
  refine System.invariant _ ?_ ?_ run
  · rintro _ rfl
    exact Kept.start
  · rintro s e t h ⟨possible, ran⟩
    exact h.step (Process.exec_change h.cleared possible ran)

/-- **Watchers close what they have opened.** As long as nobody's descriptor has been closed by
a watcher, what is open for a watcher is what it has opened, so that none is lost; and
the first to be closed for someone else is descriptor 0, by a `PipeEventWatcher` that has no
pipe and is destroyed or terminated, or is refused one. -/
theorem watcher_descriptors {s t : Process Name Loop lib} {e : Op Name Loop}
    (run : (watching Name Loop lib).Reachable s) (clean : s.files.strays = [])
    (step : (watching Name Loop lib).step s e t) :
    (∀ n w, s.files.table n = some (some w) ↔ s.Holds w n) ∧
      (t.files.strays ≠ [] ↔ s.Strays e) := by
  have kept := reachable_kept run
  refine ⟨kept.own clean, ?_⟩
  rw [Ne, kept.strays_iff clean (Process.exec_change kept.cleared step.1 step.2), not_not]

end

/-- Descriptor 0 is that of a socket. A pipe watcher is initialised and terminated, and closes
the socket when it is destroyed. -/
theorem watcher_descriptors_pipe : ∃ s t : Process Unit Unit (.flags Unit),
    (watching Unit Unit (.flags Unit)).step s (.destroy ()) t ∧
      t.files.strays = [(some (), 0)] ∧ s.Strays (.destroy ()) := by
  have run : (watching Unit Unit (.flags Unit)).Reachable _ :=
    reachable_untraced (reachable_of_events [.openOther 0, .create () .pipe (),
      .doInit () (some ([3, 4], true)), .asyncWait () true, .doTerminate ()] rfl)
  have step := watcher_descriptors (e := .destroy ()) run rfl ⟨by decide, rfl⟩
  exact ⟨_, _, ⟨by decide, rfl⟩, rfl, step.2.mp (by decide)⟩

end Libatp.Watchers
