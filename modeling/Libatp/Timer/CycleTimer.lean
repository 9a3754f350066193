import Libatp.Base.System
import Mathlib.Data.List.Basic

/-!
# `CycleTimer` (`net/atp_cycle_timer.cpp`, `net/atp_event_watcher.cpp`)

One timer, the watcher it makes, and the tasks that are queued for its loop. The thread of
the loop runs tasks and callbacks; inside a callback of the user it may be called back
again, and a nested `doPendingTasks` may run any task there, so what is on its stack is a
list of frames. On other threads `cancel()` is two steps: it copies `timer_watcher_`, and
queues the copy.

The watcher is shared by `timer_watcher_` and by the calls of `doCancel` that are still to
be made; when the last of them goes, its event goes with it. The user keeps the timer
itself alive, and `event_add` succeeds.
-/

namespace Libatp.Timer
open Base

inductive Task where
  /-- the closure that `start()` queues -/
  | start
  /-- `doCancel`, bound to the watcher -/
  | doCancel
  | other
  deriving DecidableEq, Repr

inductive Frame where
  /-- `onTrigger` has called `expires_fn_` -/
  | expires
  /-- `onCancel` has called `cancel_fn_`; `inline` if `cancel()` on this thread is waiting -/
  | cancels (inline : Bool)
  deriving DecidableEq, Repr

/-- `held` is whether `timer_watcher_` is set, `event` whether the `event_` of the watcher
is, `armed` whether the loop has it. `built` says that the closure of `start()` has run, and
`looked` counts the calls of `cancel()` that hold a copy of the pointer. The rest is
history: calls of the two callbacks, what was queued when each `cancel()` returned, and
whether `expires_fn_` was called after all of that was run. -/
structure CycleTimer where
  started : Bool
  built : Bool
  held : Bool
  event : Bool
  armed : Bool
  expiresFn : Bool
  cancelFn : Bool
  persist : Bool
  pending : List (Nat × Task)
  issued : Nat
  looked : Nat
  frames : List Frame
  expired : Nat
  cancelled : Nat
  marks : List (List Nat)
  late : Bool
  deriving DecidableEq, Repr

namespace CycleTimer

/-- A timer as `newCycleTimer` makes it. -/
def init (expiresFn persist : Bool) : CycleTimer :=
  ⟨false, false, false, false, false, expiresFn, false, persist, [], 0, 0, [], 0, 0, [], false⟩

variable (s : CycleTimer)

def queue (task : Task) : CycleTimer :=
  { s with pending := s.pending ++ [(s.issued, task)], issued := s.issued + 1 }

def queued : List Nat := s.pending.map Prod.fst

/-- A `cancel()` after `start()` returns. -/
def returned : CycleTimer :=
  { s with marks := if s.started then s.queued :: s.marks else s.marks }

/-- Everything that was queued when some `cancel()` returned has been run. -/
def Settled : Prop := ∃ mark ∈ s.marks, ∀ id ∈ mark, id ∉ s.queued

instance : Decidable s.Settled := inferInstanceAs (Decidable (∃ mark ∈ _, _))

/-- Some call of `doCancel` holds the watcher. -/
def Shared : Prop :=
  0 < s.looked ∨ (∃ task ∈ s.pending, task.2 = .doCancel) ∨ ∃ frame ∈ s.frames, frame ≠ .expires

instance : Decidable s.Shared := inferInstanceAs (Decidable (_ ∨ _))

/-- `timer_watcher_.reset()` -/
def reset : CycleTimer :=
  if s.Shared then { s with held := false }
  else { s with held := false, event := false, armed := false }

/-- The closure of `start()`. -/
def build : CycleTimer :=
  { s with built := true, held := true, event := true, armed := true }

/-- `onCancel` after `cancel_fn_`. -/
def endCancel (inline : Bool) : CycleTimer :=
  let s := { s with cancelFn := false, expiresFn := false }.reset
  if inline then s.returned else s

/-- `doCancel`, and `onCancel` up to the call of `cancel_fn_`. -/
def doCancel (inline : Bool) : CycleTimer :=
  if s.event = false then if inline then s.returned else s
  else
    let s := { s with event := false, armed := false, persist := false }
    if s.cancelFn then
      { s with cancelled := s.cancelled + 1, frames := .cancels inline :: s.frames }
    else s.endCancel inline

/-- `onTrigger` after `expires_fn_`. `asyncWait` needs a watcher with an event. -/
def endTrigger : Option CycleTimer :=
  if s.persist then if s.held ∧ s.event then some { s with armed := true } else none
  else some { s with cancelFn := false, expiresFn := false }.reset

/-- The event fires, and `onTrigger` calls `expires_fn_` if there is one. -/
def trigger : Option CycleTimer :=
  let s := { s with armed := false }
  if s.expiresFn then
    some { s with
      frames := [.expires]
      expired := s.expired + 1
      late := s.late || decide s.Settled }
  else s.endTrigger

def runTask : Task → CycleTimer
  | .start => s.build
  | .doCancel => s.doCancel false
  | .other => s

end CycleTimer

inductive Event where
  | start (onLoop : Bool)
  /-- `cancel()` on the thread of the loop -/
  | cancel
  /-- `cancel()` on another thread -/
  | look
  | push
  | setCancelCallback
  | queueOther
  /-- the loop runs the task at this place of the queue -/
  | run (k : Nat)
  | fire
  /-- the innermost callback of the user returns -/
  | ret
  deriving DecidableEq, Repr

def CycleTimer.exec (s : CycleTimer) : Event → Option CycleTimer
  | .start onLoop =>
    if s.started then none
    else
      let s := { s with started := true }
      some (if onLoop then s.build else s.queue .start)
  | .cancel => some (if s.held then s.doCancel true else s.returned)
  | .look => some (if s.held then { s with looked := s.looked + 1 } else s.returned)
  | .push =>
    if s.looked = 0 then none
    else some ({ s with looked := s.looked - 1 }.queue .doCancel).returned
  | .setCancelCallback => some { s with cancelFn := true }
  | .queueOther => some (s.queue .other)
  | .run k =>
    match s.pending[k]? with
    | none => none
    | some (_, task) => some ({ s with pending := s.pending.eraseIdx k }.runTask task)
  | .fire => if s.frames = [] ∧ s.armed then s.trigger else none
  | .ret =>
    match s.frames with
    | [] => none
    | .expires :: frames => { s with frames := frames }.endTrigger
    | .cancels inline :: frames => some ({ s with frames := frames }.endCancel inline)

def cycleTimer (expiresFn persist : Bool) : System CycleTimer Event where
  start s := s = .init expiresFn persist
  step s e s' := s.exec e = some s'

end Libatp.Timer
