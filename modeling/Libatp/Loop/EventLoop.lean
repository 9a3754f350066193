import Libatp.Base.System
import Mathlib.Logic.Function.Basic

/-!
# `EventLoop` and its task queue (`net/atp_event_loop.cpp`)

Any number of foreign threads call `sendToQueue`; one thread runs the loop. A
step is one access to something they share: the vector under its lock, an atomic
counter or flag, the eventfd. Atomics are sequentially consistent, and reads and
writes of the eventfd succeed.

The loop thread's control is a stack of frames, since a task can be `stopHandle`,
which calls `doPendingTasks` again while the batch it belongs to is still on the
stack. Tasks that the loop thread passes to `sendToQueue` itself run at once and
never see the queue; `stop()` called there is such a one.
-/

namespace Libatp.Loop
open Base

/-- A callback of the user, or `stopHandle` as queued by `stop()`. -/
inductive Kind where
  | user
  | stop
  deriving DecidableEq, Repr

/-- The `seq`-th task that `thread` queued. -/
structure Task (Thread : Type) where
  thread : Thread
  seq : Nat
  kind : Kind
  deriving DecidableEq, Repr

/-- Where a foreign thread stands in `sendToQueue`. -/
inductive Producer where
  | idle
  /-- pushed; `++ pending_tasks_size_` is next -/
  | pushed
  /-- `notified_.load()` is next -/
  | counted
  /-- read `false`; `notified_.store(true)` is next -/
  | unnotified
  /-- `eventNotify()` is next -/
  | notifying
  deriving DecidableEq, Repr

inductive Frame (Thread : Type) where
  /-- `doPendingTasks` before its locked block -/
  | entered
  /-- `doPendingTasks` in its loop; the head of `tasks` has been called if `running` -/
  | batch (tasks : List (Task Thread)) (running : Bool)
  /-- `stopHandle` before the test of its `while (true)` -/
  | stopTest
  /-- `stopHandle` after `event_base_loopexit` -/
  | stopExit
  /-- `stopHandle` before it swaps the queue with an empty one -/
  | stopClear
  deriving DecidableEq, Repr

/-- `issued` numbers each thread's tasks; `executed` is the history of calls. -/
structure EventLoop (Thread : Type) where
  queue : List (Task Thread)
  size : Int
  notified : Bool
  eventfd : Nat
  producer : Thread → Producer
  issued : Thread → Nat
  stack : List (Frame Thread)
  executed : List (Task Thread)

def EventLoop.create (Thread : Type) : EventLoop Thread :=
  ⟨[], 0, false, 0, fun _ => .idle, fun _ => 0, [], []⟩

/-- Which thread moves; the locked block of `doPendingTasks` is named apart. -/
inductive Move (Thread : Type) where
  | producer (t : Thread)
  | swap
  | loop
  deriving DecidableEq, Repr

section
variable {Thread : Type} [DecidableEq Thread]

def EventLoop.at (s : EventLoop Thread) (t : Thread) (p : Producer) : EventLoop Thread :=
  { s with producer := Function.update s.producer t p }

def EventLoop.next (s : EventLoop Thread) (t : Thread) (kind : Kind) : Task Thread :=
  ⟨t, s.issued t, kind⟩

/-- The value `eventNotify` writes. -/
def notifyValue : Nat := 3399

inductive Step : EventLoop Thread → Move Thread → EventLoop Thread → Prop
  | push (s) (t : Thread) (kind : Kind) (idle : s.producer t = .idle) :
      Step s (.producer t) { s.at t .pushed with
        queue := s.queue ++ [s.next t kind]
        issued := Function.update s.issued t (s.issued t + 1) }
  | count (s) (t : Thread) (here : s.producer t = .pushed) :
      Step s (.producer t) { s.at t .counted with size := s.size + 1 }
  | loadSet (s) (t : Thread) (here : s.producer t = .counted) (set : s.notified = true) :
      Step s (.producer t) (s.at t .idle)
  | loadUnset (s) (t : Thread) (here : s.producer t = .counted) (unset : s.notified = false) :
      Step s (.producer t) (s.at t .unnotified)
  | store (s) (t : Thread) (here : s.producer t = .unnotified) :
      Step s (.producer t) { s.at t .notifying with notified := true }
  | write (s) (t : Thread) (here : s.producer t = .notifying) :
      Step s (.producer t) { s.at t .idle with eventfd := s.eventfd + notifyValue }
  | read (s) (free : s.stack = []) (due : 0 < s.eventfd) :
      Step s .loop { s with eventfd := 0, stack := [.entered] }
  | swap (s) (rest : List (Frame Thread)) (top : s.stack = .entered :: rest) :
      Step s .swap { s with
        notified := false
        queue := []
        stack := .batch s.queue false :: rest }
  | callUser (s) (task : Task Thread) (tasks : List (Task Thread)) (rest : List (Frame Thread))
      (top : s.stack = .batch (task :: tasks) false :: rest) (user : task.kind = .user) :
      Step s .loop { s with
        executed := s.executed ++ [task]
        stack := .batch (task :: tasks) true :: rest }
  | callStop (s) (task : Task Thread) (tasks : List (Task Thread)) (rest : List (Frame Thread))
      (top : s.stack = .batch (task :: tasks) false :: rest) (stop : task.kind = .stop) :
      Step s .loop { s with
        executed := s.executed ++ [task]
        stack := .stopTest :: .batch (task :: tasks) true :: rest }
  | finish (s) (task : Task Thread) (tasks : List (Task Thread)) (rest : List (Frame Thread))
      (top : s.stack = .batch (task :: tasks) true :: rest) :
      Step s .loop { s with size := s.size - 1, stack := .batch tasks false :: rest }
  | leave (s) (rest : List (Frame Thread)) (top : s.stack = .batch [] false :: rest) :
      Step s .loop { s with stack := rest }
  | stopIdle (s) (free : s.stack = []) :
      Step s .loop { s with stack := [.stopTest] }
  | stopInTask (s) (task : Task Thread) (tasks : List (Task Thread)) (rest : List (Frame Thread))
      (top : s.stack = .batch (task :: tasks) true :: rest) :
      Step s .loop { s with stack := .stopTest :: s.stack }
  | drain (s) (rest : List (Frame Thread)) (top : s.stack = .stopTest :: rest)
      (more : s.queue ≠ []) :
      Step s .loop { s with stack := .entered :: s.stack }
  | exit (s) (rest : List (Frame Thread)) (top : s.stack = .stopTest :: rest)
      (none : s.queue = []) :
      Step s .loop { s with stack := .stopExit :: rest }
  | stopped (s) (rest : List (Frame Thread)) (top : s.stack = .stopExit :: rest)
      (none : s.queue = []) :
      Step s .loop { s with stack := rest }
  | late (s) (rest : List (Frame Thread)) (top : s.stack = .stopExit :: rest)
      (more : s.queue ≠ []) :
      Step s .loop { s with stack := .stopClear :: rest }
  | clear (s) (rest : List (Frame Thread)) (top : s.stack = .stopClear :: rest) :
      Step s .loop { s with queue := [], stack := rest }

def eventLoop (Thread : Type) [DecidableEq Thread] : System (EventLoop Thread) (Move Thread) where
  start s := s = .create Thread
  step := Step

end

end Libatp.Loop
