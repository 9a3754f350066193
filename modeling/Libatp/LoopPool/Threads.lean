import Libatp.Base.System
import Libatp.LoopPool.RoundRobin

/-!
# The threads of an `EventLoopPool` (`net/atp_event_loop_thread_pool.cpp`)

The controlling thread creates the IO threads and their loops, waits until each has
stored `STATE_RUNNING`, and later stops them. A step is one access to something two
threads share: the state of an `EventLoopThread`, the `thread_id_` of its loop, or the
loop's queue. What a loop does inside `event_base_dispatch` comes down to what it
calls and to when it returns: an exit asked for by its own thread, or before `dispatch`, is
noticed by itself, one asked for by another thread may wait for the next event.
-/

namespace Libatp.LoopPool
open Base

inductive Thread where
  | controller
  | io (i : Nat)
  deriving DecidableEq, Repr

/-- What a loop executes: a task, `stopHandle`, or the callback of an event, which is
never queued. -/
inductive Work where
  | task (t : Nat)
  | stop
  | event
  deriving DecidableEq, Repr

/-- Where `executer` is. -/
inductive Phase where
  | created
  /-- `STATE_RUNNING` is stored, and `dispatch` has not set `thread_id_` -/
  | announced
  | dispatching
  /-- `dispatch` has returned -/
  | returned
  | finished
  deriving DecidableEq, Repr

/-- A call of `stopHandle`; `exited` once it has called `event_base_loopexit`. -/
structure StopHandle where
  thread : Thread
  exited : Bool
  deriving DecidableEq, Repr

/-- An `EventLoopThread` with its `EventLoop`. `exiting` once `event_base_loopexit` was called;
`unseen` if that was done by another thread while the loop was waiting for an event, and none
has come since: without a lock, libevent does not wake the loop. -/
structure EventLoopThread where
  state : ServiceState
  threadId : Thread
  queue : List Work
  exiting : Bool
  unseen : Bool
  handler : Option StopHandle
  phase : Phase
  deriving DecidableEq, Repr

namespace EventLoopThread

/-- The loop is made by the controlling thread, which is its thread at first. -/
def create : EventLoopThread := ⟨.init, .controller, [], false, false, none, .created⟩

/-- `dispatch` has set `thread_id_`. -/
def entered (w : EventLoopThread) : Bool :=
  match w.phase with
  | .created | .announced => false
  | .dispatching | .returned | .finished => true

def hasReturned (w : EventLoopThread) : Bool :=
  match w.phase with
  | .created | .announced | .dispatching => false
  | .returned | .finished => true

/-- The loop's own thread is free for the next event: it is in `dispatch`, and not in
`stopHandle`. -/
def Free (w : EventLoopThread) (i : Nat) : Prop :=
  w.phase = .dispatching ∧ ∀ h, w.handler = some h → h.thread ≠ .io i

/-- `sendToQueue` on the controlling thread: `true` if the task is to be run at once. -/
def sendToQueue (w : EventLoopThread) (work : Work) : EventLoopThread × Bool :=
  if w.threadId = .controller then (w, true)
  else ({ w with queue := w.queue ++ [work] }, false)

/-- A step of IO thread `i`, or of a thread inside the loop's `stopHandle`, and what it
executes. -/
inductive Step (i : Nat) : EventLoopThread → Option (Work × Thread) → EventLoopThread → Prop
  | announce (w) (here : w.phase = .created) :
      Step i w none { w with state := .running, phase := .announced }
  | enter (w) (here : w.phase = .announced) :
      Step i w none { w with threadId := .io i, phase := .dispatching }
  | run (w t rest) (free : w.Free i) (next : w.queue = .task t :: rest) :
      Step i w (some (.task t, .io i)) { w with queue := rest, unseen := false }
  | runStop (w rest) (free : w.Free i) (next : w.queue = .stop :: rest) (only : w.handler = none) :
      Step i w (some (.stop, .io i))
        { w with queue := rest, unseen := false, handler := some ⟨.io i, false⟩ }
  | event (w) (free : w.Free i) : Step i w (some (.event, .io i)) { w with unseen := false }
  | drain (w thread work rest) (inside : w.handler = some ⟨thread, false⟩)
      (next : w.queue = work :: rest) :
      Step i w (some (work, thread)) { w with queue := rest }
  | exit (w thread unseen) (inside : w.handler = some ⟨thread, false⟩) (none : w.queue = [])
      (missed : unseen = true → thread ≠ .io i ∧ w.phase = .dispatching) :
      Step i w .none
        { w with exiting := true, unseen := unseen, handler := some ⟨thread, true⟩ }
  | clear (w thread) (inside : w.handler = some ⟨thread, true⟩) :
      Step i w none { w with queue := [], handler := none }
  | leave (w) (free : w.Free i) (exiting : w.exiting = true) (seen : w.unseen = false) :
      Step i w none { w with phase := .returned }
  | finish (w) (here : w.phase = .returned) :
      Step i w none { w with state := .stopped, phase := .finished }

end EventLoopThread

/-- Where the controlling thread is. -/
inductive Control where
  | idle
  /-- `autoStart` before it creates the next thread -/
  | starting
  /-- `autoStart` until the last thread has announced itself -/
  | waiting
  /-- `autoStart` has returned true -/
  | started
  /-- `autoStart` has returned false -/
  | failed
  /-- `autoStop` before it stops thread `k` -/
  | stopping (k : Nat)
  /-- `EventLoopThread::stop` of thread `k`, after `event_loop_->stop()` -/
  | storing (k : Nat)
  /-- `stop_fn` before it reads the state of thread `k`, after some sleeps -/
  | polling (k sleeps : Nat)
  /-- `autoStop` has returned true -/
  | stopped
  /-- `autoStop` has returned false -/
  | timedOut
  deriving DecidableEq, Repr

/-- `executed` is history: what was executed of which loop, and by whom. -/
structure Pool where
  threadsNum : Nat
  state : ServiceState
  threads : List EventLoopThread
  control : Control
  executed : List (Nat × Work × Thread)
  deriving DecidableEq, Repr

namespace Pool

def create (threadsNum : Nat) : Pool := ⟨threadsNum, .null, [], .idle, []⟩

def setThread (s : Pool) (i : Nat) (w : EventLoopThread) : Pool :=
  { s with threads := s.threads.set i w }

def goto (s : Pool) (control : Control) : Pool := { s with control := control }

def log (s : Pool) (i : Nat) (executed : Option (Work × Thread)) : Pool :=
  { s with executed := s.executed ++ executed.toList.map fun e => (i, e) }

/-- `sendToQueue(task)` of loop `i`. -/
def send (s : Pool) (i : Nat) (w : EventLoopThread) (t : Nat) : Pool :=
  let (w, inline) := w.sendToQueue (.task t)
  (s.setThread i w).log i (if inline then some (.task t, .controller) else none)

/-- `stop()` of loop `i`; run at once, `stopHandle` has its own steps. -/
def stop (s : Pool) (i : Nat) (w : EventLoopThread) : Pool :=
  let (w, inline) := w.sendToQueue .stop
  if inline then
    (s.setThread i { w with handler := some ⟨.controller, false⟩ }).log i
      (some (.stop, .controller))
  else s.setThread i w

end Pool

inductive PoolEvent where
  | autoStart
  | create
  | startFailed
  | wait
  /-- a thread of loop `i` moves -/
  | thread (i : Nat)
  | send (i t : Nat)
  | autoStop
  | stop
  | store
  | poll
  deriving DecidableEq, Repr

inductive Pool.Step : Pool → PoolEvent → Pool → Prop
  | autoStartNone (s : Pool) (here : s.control = .idle) (none : s.threadsNum = 0) :
      Step s .autoStart { s.goto .failed with state := .stopped }
  | autoStart (s : Pool) (here : s.control = .idle) (some : s.threadsNum ≠ 0) :
      Step s .autoStart { s.goto .starting with state := .init }
  | create (s : Pool) (here : s.control = .starting) (more : s.threads.length < s.threadsNum) :
      Step s .create { s.goto .waiting with threads := s.threads ++ [.create] }
  | startFailed (s : Pool) (here : s.control = .starting)
      (more : s.threads.length < s.threadsNum) :
      Step s .startFailed { s.goto .failed with state := .stopped }
  | created (s : Pool) (here : s.control = .starting) (all : s.threads.length = s.threadsNum) :
      Step s .create { s.goto .started with state := .running }
  | wait (s : Pool) (w) (here : s.control = .waiting)
      (last : s.threads[s.threads.length - 1]? = some w) (running : w.state = .running) :
      Step s .wait (s.goto .starting)
  | thread (s : Pool) (i w w' executed) (here : s.threads[i]? = some w)
      (step : EventLoopThread.Step i w executed w') :
      Step s (.thread i) ((s.setThread i w').log i executed)
  | send (s : Pool) (i t w) (at_ : s.control = .started) (here : s.threads[i]? = some w) :
      Step s (.send i t) (s.send i w t)
  | autoStop (s : Pool) (here : s.control = .started) :
      Step s .autoStop { s.goto (.stopping 0) with state := .stopping }
  | stop (s : Pool) (k w) (at_ : s.control = .stopping k) (here : s.threads[k]? = some w) :
      Step s .stop ((s.stop k w).goto (.storing k))
  /-- `state_.store(STATE_STOPPED)`, once `stop()` has returned -/
  | store (s : Pool) (k w) (at_ : s.control = .storing k) (here : s.threads[k]? = some w)
      (done : ∀ h, w.handler = some h → h.thread ≠ .controller) :
      Step s .store ((s.setThread k { w with state := .stopped }).goto (.stopping (k + 1)))
  | stopsSent (s : Pool) (k) (at_ : s.control = .stopping k) (all : s.threads.length ≤ k) :
      Step s .stop (s.goto (.polling 0 0))
  | pollStopped (s : Pool) (k sleeps w) (at_ : s.control = .polling k sleeps)
      (here : s.threads[k]? = some w) (stopped : w.state = .stopped) :
      Step s .poll (s.goto (.polling (k + 1) sleeps))
  | pollSleep (s : Pool) (k sleeps w) (at_ : s.control = .polling k sleeps)
      (here : s.threads[k]? = some w) (other : w.state ≠ .stopped) (more : sleeps + 1 < 15) :
      Step s .poll (s.goto (.polling 0 (sleeps + 1)))
  | pollTimedOut (s : Pool) (k sleeps w) (at_ : s.control = .polling k sleeps)
      (here : s.threads[k]? = some w) (other : w.state ≠ .stopped) (last : 15 ≤ sleeps + 1) :
      Step s .poll (s.goto .timedOut)
  | pollDone (s : Pool) (k sleeps) (at_ : s.control = .polling k sleeps)
      (all : s.threads.length ≤ k) :
      Step s .poll { s.goto .stopped with state := .stopped }

def pool (threadsNum : Nat) : System Pool PoolEvent where
  start s := s = .create threadsNum
  step := Pool.Step

namespace Pool

/-! ## What a step does to the threads -/

/-- The threads and the history after a step. -/
inductive Change (s : Pool) : PoolEvent → List EventLoopThread → List (Nat × Work × Thread) → Prop
  | same (e) : Change s e s.threads s.executed
  | added (at_ : s.control = .starting) : Change s .create (s.threads ++ [.create]) s.executed
  | moved (i w w' executed) (here : s.threads[i]? = some w)
      (step : EventLoopThread.Step i w executed w') :
      Change s (.thread i) (s.threads.set i w')
        (s.executed ++ executed.toList.map fun e => (i, e))
  | pushed (e i w work) (away : s.control ≠ .storing i) (here : s.threads[i]? = some w)
      (other : w.threadId ≠ .controller) :
      Change s e (s.threads.set i { w with queue := w.queue ++ [work] }) s.executed
  | inline (i t w) (here : s.threads[i]? = some w) (own : w.threadId = .controller) :
      Change s (.send i t) (s.threads.set i w) (s.executed ++ [(i, .task t, .controller)])
  | inlineStop (i w) (at_ : s.control = .stopping i) (here : s.threads[i]? = some w)
      (own : w.threadId = .controller) :
      Change s .stop (s.threads.set i { w with handler := some ⟨.controller, false⟩ })
        (s.executed ++ [(i, .stop, .controller)])
  | stored (i w) (at_ : s.control = .storing i) (here : s.threads[i]? = some w) :
      Change s .store (s.threads.set i { w with state := .stopped }) s.executed

variable {s s' : Pool} {e : PoolEvent}

theorem send_own {i t : Nat} {w : EventLoopThread} (own : w.threadId = .controller) :
    s.send i w t = (s.setThread i w).log i (some (.task t, .controller)) := by
  rw [send, EventLoopThread.sendToQueue, if_pos own]
  rfl

theorem send_other {i t : Nat} {w : EventLoopThread} (other : w.threadId ≠ .controller) :
    s.send i w t = s.setThread i { w with queue := w.queue ++ [.task t] } := by
  rw [send, EventLoopThread.sendToQueue, if_neg other]
  simp [log, setThread]

theorem stop_own {i : Nat} {w : EventLoopThread} (own : w.threadId = .controller) :
    s.stop i w = (s.setThread i { w with handler := some ⟨.controller, false⟩ }).log i
      (some (.stop, .controller)) := by
  rw [stop, EventLoopThread.sendToQueue, if_pos own]
  rfl

theorem stop_other {i : Nat} {w : EventLoopThread} (other : w.threadId ≠ .controller) :
    s.stop i w = s.setThread i { w with queue := w.queue ++ [.stop] } := by
  rw [stop, EventLoopThread.sendToQueue, if_neg other]
  rfl

theorem step_change (h : Step s e s') : s.Change e s'.threads s'.executed := by
  cases h with
  | create here more => exact .added here
  | thread i w w' executed here step => exact .moved i w w' executed here step
  | send i t w at_ here =>
    by_cases own : w.threadId = .controller
    · rw [send_own own]
      exact .inline i t w here own
    · rw [send_other own]
      exact .pushed _ i w _ (at_ ▸ nofun) here own
  | stop k w at_ here =>
    by_cases own : w.threadId = .controller
    · rw [stop_own own]
      exact .inlineStop k w at_ here own
    · rw [stop_other own]
      exact .pushed _ k w _ (at_ ▸ nofun) here own
  | store k w at_ here done => exact .stored k w at_ here
  | autoStartNone | autoStart | startFailed | created | wait | autoStop | stopsSent | pollStopped
  | pollSleep | pollTimedOut | pollDone => exact .same _

/-- Of every thread of the pool. -/
def Each (s : Pool) (P : Nat → EventLoopThread → Prop) : Prop :=
  ∀ (i : Nat) (w : EventLoopThread), s.threads[i]? = some w → P i w

variable {P : Nat → EventLoopThread → Prop} {i : Nat}

theorem Each.of_set (hs : s.Each P) {w' : EventLoopThread} (eq : s'.threads = s.threads.set i w')
    (hw : P i w') : s'.Each P := by
  intro j w here
  rw [eq] at here
  obtain ⟨rfl, rfl⟩ | ⟨_, before⟩ := getElem?_set_cases here
  · exact hw
  · exact hs j w before

theorem Each.of_append (hs : s.Each P) {w' : EventLoopThread}
    (eq : s'.threads = s.threads ++ [w']) (hw : P s.threads.length w') : s'.Each P := by
  intro j w here
  rw [eq] at here
  obtain before | ⟨rfl, rfl⟩ := getElem?_concat_cases here
  · exact hs j w before
  · exact hw

/-- What holds of a new thread, and is kept by its own steps and by what the
controlling thread does to it, is kept by the pool. -/
theorem step_each (hs : s.Each P) (h : Step s e s') (new : ∀ i, P i .create)
    (moved : ∀ i w w' executed, P i w → EventLoopThread.Step i w executed w' → P i w')
    (pushed : ∀ i w work, s.control ≠ .storing i → s.threads[i]? = some w →
      w.threadId ≠ .controller → P i w → P i { w with queue := w.queue ++ [work] })
    (handled : ∀ i w, e = .stop → s.control = .stopping i → s.threads[i]? = some w →
      w.threadId = .controller → P i w → P i { w with handler := some ⟨.controller, false⟩ })
    (stored : ∀ i w, P i w → P i { w with state := .stopped }) : s'.Each P := by
  have change := step_change h
  generalize s'.executed = executed at change
  generalize eq : s'.threads = threads at change
  cases change with
  | same => exact fun i w here => hs i w (eq ▸ here)
  | added at_ => exact hs.of_append eq (new _)
  | moved i w w' executed here step => exact hs.of_set eq (moved i w w' executed (hs i w here) step)
  | pushed _ i w work away here other =>
    exact hs.of_set eq (pushed i w work away here other (hs i w here))
  | inline i t w here own => exact hs.of_set eq (hs i w here)
  | inlineStop i w at_ here own =>
    exact hs.of_set eq (handled i w rfl at_ here own (hs i w here))
  | stored i w at_ here => exact hs.of_set eq (stored i w (hs i w here))

end Pool

/-- `autoStart` of a pool of one loop has returned, and the IO thread has not come to
`dispatch`. -/
theorem started_one (allowed : Pool → PoolEvent → Prop) (ok : ∀ s, allowed s .autoStart ∧
      allowed s .create ∧ allowed s (.thread 0) ∧ allowed s .wait) :
    ((pool 1).restrict allowed).Reachable ⟨1, .running,
      [⟨.running, .controller, [], false, false, none, .announced⟩], .started, []⟩ := by
  have created := (System.Reachable.start (M := (pool 1).restrict allowed) rfl).allow
      (.autoStart _ rfl nofun) (ok _).1
    |>.allow (.create _ rfl Nat.zero_lt_one) (ok _).2.1
  exact created.allow (.thread _ 0 _ _ _ rfl (.announce _ rfl)) (ok _).2.2.1
    |>.allow (.wait _ _ rfl rfl rfl) (ok _).2.2.2
    |>.allow (.created _ rfl rfl) (ok _).2.1

end Libatp.LoopPool
