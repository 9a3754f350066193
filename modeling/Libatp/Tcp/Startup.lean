import Libatp.LoopPool.RoundRobin
import Libatp.Wheel.TimingWheel

/-!
# `Server::start` (`net/atp_tcp_server.cpp`)

`start()` has the control loop start the timer of the wheel and watch the listening
socket, and stores `STATE_RUNNING` only after that. In mode 0 the thread that calls it
then dispatches the loop itself. In mode 1 the loop was passed in, and may be
dispatched already, on this thread or another one, or come to be at any time.

The application is the bundled server: its connection callback inserts a new entry
into the wheel, its message callback the entry of the connection, if that still exists.
-/

namespace Libatp.Tcp
open Base Wheel LoopPool

/-- `server_mode_`. -/
inductive Mode where
  | zero
  | one
  deriving DecidableEq, Repr

/-- The thread that calls `start()`, or another one. -/
inductive Who where
  | starter
  | other
  deriving DecidableEq, Repr

/-- What `start()` passes to `sendToQueue`. -/
inductive Job where
  /-- the closure of `CycleTimer::start` -/
  | startTimer
  /-- `Channel::attachToEventLoop` of the listening channel -/
  | attachListener
  deriving DecidableEq, Repr

/-- What `start()` has done last. -/
inductive Pc where
  | idle
  | listened
  | pooled
  | timed
  | bound
  | attached
  | published
  | dispatching
  | done
  deriving DecidableEq, Repr

/-- `STATE_RUNNING` is stored. -/
def Pc.isPublished : Pc → Bool
  | .published | .dispatching | .done => true
  | _ => false

/-- `listener_->accept()` was called. -/
def Pc.isAttached : Pc → Bool
  | .attached => true
  | pc => pc.isPublished

/-- `CONN_READ_WRITE_EXPIRES` -/
def connReadWriteExpires : Nat := 10

/-- `TIMIING_WHEEL_STEP` -/
def timingWheelStep : Nat := 1

/-- `dispatcher` is the thread in `dispatch` of the control loop, `attaching` has the
connections whose `attachToEventLoop` waits on a loop of the pool, and `connected`
those whose connection callback has run. `ticks` is history. -/
structure Starting where
  mode : Mode
  threadNum : Nat
  pc : Pc
  threadId : Who
  dispatcher : Option Who
  queue : List Job
  timer : Bool
  listening : Bool
  newConnCallback : Bool
  state : ServiceState
  wheel : TimingWheel Nat
  ticks : Nat
  accepted : Nat
  attaching : List Nat
  connected : List Nat

/-- The entry that the callbacks make for a connection. -/
def entryOf (c : Nat) : Entry Nat := ⟨c, c⟩

namespace Starting

def create (mode : Mode) (threadNum : Nat) (threadId : Who) (dispatcher : Option Who) :
    Starting where
  mode := mode
  threadNum := threadNum
  pc := .idle
  threadId := threadId
  dispatcher := dispatcher
  queue := []
  timer := false
  listening := false
  newConnCallback := false
  state := .init
  wheel := .make connReadWriteExpires timingWheelStep
  ticks := 0
  accepted := 0
  attaching := []
  connected := []

def perform (s : Starting) : Job → Starting
  | .startTimer => { s with timer := true }
  | .attachListener => { s with listening := true }

/-- On the thread that calls `start()`. -/
def sendToQueue (s : Starting) (job : Job) : Starting :=
  if s.threadId = .starter then s.perform job else { s with queue := s.queue ++ [job] }

/-- `dispatch` of the control loop. -/
def dispatch (s : Starting) (who : Who) : Starting :=
  { s with threadId := who, dispatcher := some who }

/-- The next part of `start()`. -/
def start (s : Starting) : Starting :=
  match s.pc with
  | .idle => { s with pc := .listened }
  | .listened => { s with pc := .pooled }
  | .pooled => { s.sendToQueue .startTimer with pc := .timed }
  | .timed => { s with newConnCallback := true, pc := .bound }
  | .bound => { s.sendToQueue .attachListener with pc := .attached }
  | .attached => { s with state := .running, pc := .published }
  | .published =>
    match s.mode with
    | .zero => { s.dispatch .starter with pc := .dispatching }
    | .one => { s with pc := .done }
  | .dispatching | .done => s

def timingWheelInsert (s : Starting) (entry : Entry Nat) : Checked Starting := do
  let wheel ← s.wheel.pushBack entry
  return { s with wheel := wheel }

def onConnection (s : Starting) (c : Nat) : Checked Starting := do
  let s ← s.timingWheelInsert (entryOf c)
  return { s with connected := s.connected ++ [c] }

def onMessage (s : Starting) (c : Nat) : Checked Starting :=
  if s.wheel.Owns (entryOf c) then s.timingWheelInsert (entryOf c) else return s

/-- Without a pool the connection callback runs at once, on the control loop. -/
def handleNewConnection (s : Starting) : Checked Starting := do
  require (s.state = .running)
  let s' := { s with accepted := s.accepted + 1 }
  if s.threadNum = 0 then s'.onConnection s.accepted
  else return { s' with attaching := s.attaching ++ [s.accepted] }

/-- On thread `who`; `got` says whether `::accept` returned a descriptor. -/
def acceptHandle (s : Starting) (who : Who) (got : Bool) : Checked Starting := do
  require (s.threadId = who)
  if got && s.newConnCallback then s.handleNewConnection else return s

/-- The task of the timer. -/
def onTrigger (s : Starting) : Checked Starting := do
  let (wheel, _) ← s.wheel.pushBucket ∅
  return { s with wheel := wheel, ticks := s.ticks + 1 }

/-- The control loop can handle an event: its thread is not in the middle of
`start()`. -/
def Turns (s : Starting) : Prop :=
  ∃ who, s.dispatcher = some who ∧
    (who = .starter → s.pc = .idle ∨ s.pc = .dispatching ∨ s.pc = .done)

end Starting

inductive StartEvent where
  | start
  /-- a thread comes to dispatch the loop that was passed in -/
  | enter (who : Who)
  | run
  | tick
  | accept (got : Bool)
  /-- a loop of the pool runs `attachToEventLoop` -/
  | attach (c : Nat)
  | message (c : Nat)
  deriving DecidableEq, Repr

def StartEvent.Possible (s : Starting) : StartEvent → Prop
  | .start => s.pc ≠ .dispatching ∧ s.pc ≠ .done
  | .enter who => s.mode = .one ∧ s.dispatcher = none ∧
    (who = .starter → s.pc = .idle ∨ s.pc = .done)
  | .run => s.Turns ∧ s.queue ≠ []
  | .tick => s.Turns ∧ s.timer = true
  | .accept _ => s.Turns ∧ s.listening = true
  | .attach c => c ∈ s.attaching
  | .message c => c ∈ s.connected

def StartEvent.exec (s : Starting) : StartEvent → Checked Starting
  | .start => .ok s.start
  | .enter who => .ok (s.dispatch who)
  | .run =>
    match s.queue with
    | [] => .ok s
    | job :: rest => .ok ({ s with queue := rest }.perform job)
  | .tick => s.onTrigger
  | .accept got =>
    match s.dispatcher with
    | none => .ok s
    | some who => s.acceptHandle who got
  | .attach c => { s with attaching := s.attaching.erase c }.onConnection c
  | .message c => s.onMessage c

/-- A server from its construction on. A loop that is dispatched already knows the
thread it is dispatched on. -/
def startup : System Starting StartEvent where
  start s := ∃ mode threadNum threadId dispatcher,
    (dispatcher = none ∨ mode = .one ∧ dispatcher = some threadId) ∧
      s = .create mode threadNum threadId dispatcher
  step s e s' := e.Possible s ∧ e.exec s = .ok s'

end Libatp.Tcp
