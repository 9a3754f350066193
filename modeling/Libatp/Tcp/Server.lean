import Libatp.Base.Registry
import Mathlib.Logic.Function.Basic

/-!
# `Server` and its connections (`net/atp_tcp_server.cpp`)

The control loop accepts connections and owns the table of them. A connection lives
on one loop, the control loop itself if there are no others, and is closed by the
thread of that loop: when its descriptor fails, when a `send` fails for good, or by
`close()`, which application code calls there or which is queued from elsewhere (an
expired entry of the timing wheel is one such caller). Closing goes back to the
control loop as a removal, which runs at once on the control loop's thread and is
queued from any other.

A loop's thread is described by the calls that are under way on it, the innermost
first. A step is what such a thread does between two accesses to something it
shares: a queue, under its lock, and the table, which the control loop alone uses.
-/

namespace Libatp.Tcp
open Base

/-- The control loop, or a loop of the pool. -/
inductive Loop where
  | control
  | io (i : Nat)
  deriving DecidableEq, Repr

/-- What is queued about a connection; all of them hold a shared pointer to it. -/
inductive Task where
  /-- `std::bind(&Connection::attachToEventLoop, conn)` -/
  | attach (c : Nat)
  /-- the closure of `Connection::close` -/
  | close (c : Nat)
  /-- the closure of `handleCloseConnection` -/
  | remove (c : Nat)
  deriving DecidableEq, Repr

/-- What `eventHandle` comes to next. -/
inductive Half where
  | read
  | write
  | done
  deriving DecidableEq, Repr

def Half.next : Half → Half
  | .read => .write
  | .write | .done => .done

/-- A call under way. -/
inductive Frame where
  /-- `handleNewConnection`, before it posts `attachToEventLoop` -/
  | accept (c : Nat)
  /-- `handleNewConnection`, while `attachToEventLoop` runs inline -/
  | attaching (c : Nat)
  /-- `doPendingTasks`; the vector keeps what was run until the end -/
  | batch (ran todo : List Task)
  /-- a callback of the application, called with `shared_from_this()` -/
  | callback (c : Nat)
  /-- `Connection::close`, while its closure runs inline -/
  | close (c : Nat)
  /-- `netFdCloseHandle`, in `close_fn_(shared_from_this())` -/
  | closeFn (c : Nat)
  /-- `Channel::eventHandle`, through a raw pointer -/
  | handle (c : Nat) (next : Half)
  deriving DecidableEq, Repr

/-- Application code or a queued task is what runs. -/
def Frame.runs : Frame → Bool
  | .callback _ | .batch _ _ => true
  | _ => false

/-- Nothing is left to do but to return. -/
def Frame.finished : Frame → Bool
  | .attaching _ | .callback _ | .close _ | .closeFn _ | .batch _ [] | .handle _ .done => true
  | _ => false

/-- `registered` says that libevent watches the descriptor. -/
structure Conn (Uuid : Type) where
  uuid : Uuid
  home : Loop
  registered : Bool
  closes : Nat
  deriving DecidableEq, Repr

/-- `conns` are all connections ever accepted; one is known by its place there. -/
structure Server (Uuid : Type) where
  threadNum : Nat
  conns : List (Conn Uuid)
  table : List (Uuid × Nat)
  queue : Loop → List Task
  stack : Loop → List Frame

namespace Server

variable {Uuid : Type}

def create (threadNum : Nat) : Server Uuid := ⟨threadNum, [], [], fun _ => [], fun _ => []⟩

/-- Where `handleNewConnection` can put a connection. -/
def Serves (s : Server Uuid) : Loop → Prop
  | .control => s.threadNum = 0
  | .io i => i < s.threadNum

/-- The thread of a loop runs code that may call the library. -/
def Runs (s : Server Uuid) (l : Loop) : Prop := ∀ f ∈ (s.stack l).head?, f.runs = true

def post (s : Server Uuid) (l : Loop) (task : Task) : Server Uuid :=
  { s with queue := Function.update s.queue l (s.queue l ++ [task]) }

def goto (s : Server Uuid) (l : Loop) (frames : List Frame) : Server Uuid :=
  { s with stack := Function.update s.stack l frames }

def addConn (s : Server Uuid) (k : Conn Uuid) : Server Uuid :=
  { s with conns := s.conns ++ [k] }

def setConn (s : Server Uuid) (c : Nat) (k : Conn Uuid) : Server Uuid :=
  { s with conns := s.conns.set c k }

@[simp] theorem post_stack (s : Server Uuid) (l : Loop) (task : Task) :
    (s.post l task).stack = s.stack := rfl

@[simp] theorem addConn_stack (s : Server Uuid) (k : Conn Uuid) : (s.addConn k).stack = s.stack :=
  rfl

@[simp] theorem setConn_stack (s : Server Uuid) (c : Nat) (k : Conn Uuid) :
    (s.setConn c k).stack = s.stack := rfl

variable [DecidableEq Uuid]

def hashTableInsert (s : Server Uuid) (uuid : Uuid) (c : Nat) : Server Uuid :=
  { s with table := Registry.insertNew s.table uuid c }

def hashTableRemove (s : Server Uuid) (uuid : Uuid) : Server Uuid :=
  { s with table := Registry.eraseKey s.table uuid }

@[simp] theorem hashTableInsert_stack (s : Server Uuid) (uuid : Uuid) (c : Nat) :
    (s.hashTableInsert uuid c).stack = s.stack := rfl

@[simp] theorem hashTableRemove_stack (s : Server Uuid) (uuid : Uuid) :
    (s.hashTableRemove uuid).stack = s.stack := rfl

/-- On the thread of `l`. -/
def handleCloseConnection (s : Server Uuid) (l : Loop) (c : Nat) (uuid : Uuid) : Server Uuid :=
  if l = .control then s.hashTableRemove uuid else s.post .control (.remove c)

/-- On the thread of `l`, with `frames` under it, up to the end of `close_fn_`. -/
def netFdCloseHandle (s : Server Uuid) (l : Loop) (c : Nat) (k : Conn Uuid)
    (frames : List Frame) : Server Uuid :=
  ((s.setConn c { k with registered := false, closes := k.closes + 1 }).handleCloseConnection
    l c k.uuid).goto l (.closeFn c :: frames)

end Server

/-- How one half of `eventHandle` goes: the event is not due or its callback is unset;
the handler calls the application; or it closes the connection. -/
inductive Outcome where
  | skipped
  | called
  | failed
  deriving DecidableEq, Repr

inductive Event (Uuid : Type) where
  | accept (uuid : Uuid) (home : Loop)
  /-- the end of `handleNewConnection` -/
  | post
  | take (l : Loop)
  | run (l : Loop) (task : Task)
  | ready (l : Loop) (c : Nat)
  | half (l : Loop) (c : Nat) (out : Outcome)
  /-- a `send` on the connection's loop fails for good -/
  | fail (l : Loop) (c : Nat)
  /-- `close()` on the connection's loop -/
  | close (l : Loop) (c : Nat)
  /-- `close()` elsewhere -/
  | postClose (c : Nat)
  | finish (l : Loop)
  deriving DecidableEq, Repr

/-- The connection that the step takes out of the table. -/
def Event.removes {Uuid : Type} : Event Uuid → Option Nat
  | .run .control (.remove c) | .run .control (.close c) => some c
  | .half .control c .failed | .fail .control c | .close .control c => some c
  | _ => none

section
variable {Uuid : Type} [DecidableEq Uuid]

inductive Step : Server Uuid → Event Uuid → Server Uuid → Prop where
  | accept (s : Server Uuid) (uuid home) (idle : s.stack .control = []) (place : s.Serves home) :
      Step s (.accept uuid home)
        (((s.addConn ⟨uuid, home, false, 0⟩).hashTableInsert uuid s.conns.length).goto .control
          [.accept s.conns.length])
  | attachHere (s c k rest) (top : s.stack .control = .accept c :: rest)
      (here : s.conns[c]? = some k) (home : k.home = .control) (live : k.closes = 0) :
      Step s .post ((s.setConn c { k with registered := true }).goto .control
        (.callback c :: .attaching c :: rest))
  | attachThere (s c k rest i) (top : s.stack .control = .accept c :: rest)
      (here : s.conns[c]? = some k) (home : k.home = .io i) :
      Step s .post ((s.post (.io i) (.attach c)).goto .control rest)
  | take (s l) (idle : s.stack l = []) (due : s.queue l ≠ []) :
      Step s (.take l) ({ s with queue := Function.update s.queue l [] }.goto l
        [.batch [] (s.queue l)])
  | runAttach (s l c k ran todo rest)
      (top : s.stack l = .batch ran (.attach c :: todo) :: rest)
      (here : s.conns[c]? = some k) (live : k.closes = 0) :
      Step s (.run l (.attach c)) ((s.setConn c { k with registered := true }).goto l
        (.callback c :: .batch (ran ++ [.attach c]) todo :: rest))
  | runClose (s l c k ran todo rest)
      (top : s.stack l = .batch ran (.close c :: todo) :: rest) (here : s.conns[c]? = some k) :
      Step s (.run l (.close c))
        (s.netFdCloseHandle l c k (.batch (ran ++ [.close c]) todo :: rest))
  | runRemove (s c k ran todo rest)
      (top : s.stack .control = .batch ran (.remove c :: todo) :: rest)
      (here : s.conns[c]? = some k) :
      Step s (.run .control (.remove c)) ((s.hashTableRemove k.uuid).goto .control
        (.batch (ran ++ [.remove c]) todo :: rest))
  | ready (s l c k) (idle : s.stack l = []) (here : s.conns[c]? = some k) (home : k.home = l)
      (watched : k.registered = true) :
      Step s (.ready l c) (s.goto l [.handle c .read])
  | halfSkipped (s l c half rest) (top : s.stack l = .handle c half :: rest)
      (more : half ≠ .done) :
      Step s (.half l c .skipped) (s.goto l (.handle c half.next :: rest))
  | halfCalled (s l c k half rest) (top : s.stack l = .handle c half :: rest)
      (more : half ≠ .done) (here : s.conns[c]? = some k) (live : k.closes = 0) :
      Step s (.half l c .called) (s.goto l (.callback c :: .handle c half.next :: rest))
  | halfFailed (s l c k half rest) (top : s.stack l = .handle c half :: rest)
      (more : half ≠ .done) (here : s.conns[c]? = some k) (live : k.closes = 0) :
      Step s (.half l c .failed) (s.netFdCloseHandle l c k (.handle c half.next :: rest))
  -- what `netFdErrorHandle` has done; `send` then goes on to `enableEvents`, which finds no event
  | fail (s l c k) (here : s.conns[c]? = some k) (home : k.home = l) (runs : s.Runs l) :
      Step s (.fail l c) (s.netFdCloseHandle l c k (s.stack l))
  | close (s l c k) (here : s.conns[c]? = some k) (home : k.home = l) (runs : s.Runs l) :
      Step s (.close l c) (s.netFdCloseHandle l c k (.close c :: s.stack l))
  | postClose (s c k) (here : s.conns[c]? = some k) :
      Step s (.postClose c) (s.post k.home (.close c))
  | finish (s l f rest) (top : s.stack l = f :: rest) (finished : f.finished = true) :
      Step s (.finish l) (s.goto l rest)

def server (Uuid : Type) [DecidableEq Uuid] (threadNum : Nat) :
    System (Server Uuid) (Event Uuid) where
  start s := s = .create threadNum
  step := Step

end

end Libatp.Tcp
