import Libatp.Base.System

/-!
# `DynamicThreadPool` (`net/atp_dynamic_thread_pool.cpp`)

Callers add tasks, workers run them, and at the end the destructor waits for the
workers. All shared data is used under one lock, so a step is what one thread does
between taking the lock and giving it up; running a task is a step of its own. A
thread that waits for the condition variable may also wake without a notification.

The two counters never fall below zero where the source decrements them, so they
are naturals.
-/

namespace Libatp.Workers
open Base

/-- Where a worker stands. -/
inductive Phase (Task : Type) where
  /-- at the top of the loop of `executerImpl` -/
  | loop
  /-- in `cond_var_.wait`, with no notification for it -/
  | blocked
  /-- in `cond_var_.wait`, about to take the lock again -/
  | woken
  | running (task : Task)
  /-- returned from `executerImpl`, or about to -/
  | leaving
  /-- in `dead_threads_` -/
  | dead
  deriving DecidableEq, Repr

inductive Destructor where
  | idle
  /-- in its `cond_var_.wait` -/
  | waiting
  /-- past its loop -/
  | done
  deriving DecidableEq, Repr

/-- `workers` are all that were created, in that order; `dead` holds their numbers.
`added`, `taken` and `finished` are histories. -/
structure ThreadPool (Task : Type) where
  shutdown : Bool
  core : Nat
  current : Nat
  waiting : Nat
  callbacks : List Task
  workers : List (Phase Task)
  dead : List Nat
  destructor : Destructor
  added : List Task
  taken : List Task
  finished : List Task

/-- `THREAD_POOL_MAX_THREADS` -/
def maxThreads : Nat := 128

/-- Who moves. -/
inductive Actor where
  | caller
  | worker (i : Nat)
  | destructor
  /-- nobody: the `wait` of a worker returns without a notification -/
  | spurious (i : Nat)
  deriving DecidableEq, Repr

variable {Task : Type}

namespace ThreadPool

def create (Task : Type) (core : Nat) : ThreadPool Task where
  shutdown := false
  core := core
  current := core
  waiting := 0
  callbacks := []
  workers := List.replicate core .loop
  dead := []
  destructor := .idle
  added := []
  taken := []
  finished := []

def put (s : ThreadPool Task) (i : Nat) (p : Phase Task) : ThreadPool Task :=
  { s with workers := s.workers.set i p }

def push (s : ThreadPool Task) (task : Task) : ThreadPool Task :=
  { s with callbacks := s.callbacks ++ [task], added := s.added ++ [task] }

/-- The second half of the loop of `executerImpl`, under the lock. -/
def serve (s : ThreadPool Task) (i : Nat) : ThreadPool Task :=
  match s.callbacks with
  | task :: rest =>
    { s.put i (.running task) with callbacks := rest, taken := s.taken ++ [task] }
  | [] => if s.shutdown then s.put i .leaving else s.put i .loop

/-- The destructor's test of `current_threads_`. -/
def test (s : ThreadPool Task) : ThreadPool Task :=
  { s with destructor := if s.current = 0 then .done else .waiting }

def notifyAll (s : ThreadPool Task) : ThreadPool Task :=
  { s with workers := s.workers.map fun p =>
      match p with
      | .blocked => .woken
      | .loop | .woken | .running _ | .leaving | .dead => p }

end ThreadPool

open ThreadPool

inductive Step : ThreadPool Task → Actor → ThreadPool Task → Prop
  | addFull (s) (task : Task) (before : s.destructor = .idle) (idle : s.waiting = 0)
      (full : maxThreads ≤ s.current) :
      Step s .caller (s.push task)
  | addThread (s) (task : Task) (before : s.destructor = .idle) (idle : s.waiting = 0)
      (room : s.current < maxThreads) :
      Step s .caller { s.push task with
        current := s.current + 1
        workers := s.workers ++ [.loop] }
  | addNotify (s) (task : Task) (i : Nat) (before : s.destructor = .idle) (some : s.waiting ≠ 0)
      (here : s.workers[i]? = .some .blocked) :
      Step s .caller ((s.push task).put i .woken)
  | addNobody (s) (task : Task) (before : s.destructor = .idle) (some : s.waiting ≠ 0)
      (none : .blocked ∉ s.workers) :
      Step s .caller (s.push task)
  | wake (s) (i : Nat) (here : s.workers[i]? = some .blocked) :
      Step s (.spurious i) (s.put i .woken)
  | leave (s) (i : Nat) (here : s.workers[i]? = some .loop) (up : s.shutdown = false)
      (empty : s.callbacks = []) (enough : s.core ≤ s.waiting) :
      Step s (.worker i) (s.put i .leaving)
  | block (s) (i : Nat) (here : s.workers[i]? = some .loop) (up : s.shutdown = false)
      (empty : s.callbacks = []) (few : s.waiting < s.core) :
      Step s (.worker i) { s.put i .blocked with waiting := s.waiting + 1 }
  | top (s) (i : Nat) (here : s.workers[i]? = some .loop)
      (busy : s.shutdown = true ∨ s.callbacks ≠ []) :
      Step s (.worker i) (s.serve i)
  | resume (s) (i : Nat) (here : s.workers[i]? = some .woken) :
      Step s (.worker i) ({ s with waiting := s.waiting - 1 }.serve i)
  | finish (s) (i : Nat) (task : Task) (here : s.workers[i]? = some (.running task)) :
      Step s (.worker i) { s.put i .loop with finished := s.finished ++ [task] }
  | die (s) (i : Nat) (here : s.workers[i]? = some .leaving) :
      Step s (.worker i) { s.put i .dead with current := s.current - 1, dead := s.dead ++ [i] }
  | destroy (s) (before : s.destructor = .idle) :
      Step s .destructor { s.notifyAll with shutdown := true }.test
  | recheck (s) (waits : s.destructor = .waiting) :
      Step s .destructor s.test

def threadPool (Task : Type) (core : Nat) : System (ThreadPool Task) Actor where
  start s := s = .create Task core
  step := Step

end Libatp.Workers
