import Libatp.LoopPool.Handshake

/-!
# What a thread that was told to stop has in front of it

`stopHandle` is queued behind the tasks of a loop, or it is run by the controlling thread
before `dispatch` has set `thread_id_`. In the second case `event_base_loopexit` may come when
the loop is already waiting for an event, and the thread sleeps on until one comes.
-/

namespace Libatp.LoopPool
open Base

/-- `event_loop_->stop()` of thread `i` has been called. -/
def Control.told (i : Nat) : Control → Prop
  | .stopping k => i < k
  | .storing k => i ≤ k
  | .polling _ _ | .stopped | .timedOut => True
  | .idle | .starting | .waiting | .started | .failed => False

/-- `autoStop` has told every thread. -/
def Control.ToldAll (c : Control) : Prop := ∀ i, c.told i

namespace EventLoopThread

variable {i : Nat} {c c' : Control} {w w' : EventLoopThread} {executed : Option (Work × Thread)}

/-- What a thread of a loop has in front of it once it was told to stop. -/
structure Heard (c : Control) (i : Nat) (w : EventLoopThread) : Prop where
  queued : Work.event ∉ w.queue
  exited : ∀ thread, w.handler = some ⟨thread, true⟩ → w.exiting = true
  told : c.told i → w.hasReturned = true ∨ w.exiting = true ∨ Work.stop ∈ w.queue ∨
    ∃ thread, w.handler = some ⟨thread, false⟩

theorem Heard.goto (h : w.Heard c i) (told : c'.told i → c.told i) : w.Heard c' i :=
  ⟨h.queued, h.exited, fun now => h.told (told now)⟩

theorem create_heard (c : Control) (i : Nat) (before : ¬ c.told i) : create.Heard c i where
  queued := List.not_mem_nil
  exited thread h := by cases h
  told h := absurd h before

theorem step_heard (h : w.Heard c i) (step : Step i w executed w') : w'.Heard c i := by
  obtain ⟨queued, exited, told⟩ := h
  cases step with
  | announce here =>
    refine ⟨queued, exited, fun now => ?_⟩
    rcases told now with returned | rest
    · rw [hasReturned, here] at returned
      cases returned
    · exact .inr rest
  | enter here =>
    refine ⟨queued, exited, fun now => ?_⟩
    rcases told now with returned | rest
    · rw [hasReturned, here] at returned
      cases returned
    · exact .inr rest
  | run t rest free next =>
    rw [next] at queued told
    refine ⟨fun mem => queued (List.mem_cons_of_mem _ mem), exited, fun now => ?_⟩
    have left : Work.stop ∈ Work.task t :: rest → Work.stop ∈ rest := by simp
    exact (told now).imp_right (Or.imp_right (Or.imp_left left))
  | runStop rest free next only =>
    rw [next] at queued
    refine ⟨fun mem => queued (List.mem_cons_of_mem _ mem), fun thread inside => ?_, fun _ => ?_⟩
    · cases inside
    · exact .inr (.inr (.inr ⟨_, rfl⟩))
  | event free => exact ⟨queued, exited, told⟩
  | drain thread work rest inside next =>
    rw [next] at queued
    refine ⟨fun mem => queued (List.mem_cons_of_mem _ mem), exited, fun _ => ?_⟩
    exact .inr (.inr (.inr ⟨thread, inside⟩))
  | exit thread unseen inside none missed =>
    exact ⟨queued, fun _ _ => rfl, fun _ => .inr (.inl rfl)⟩
  | clear thread inside =>
    refine ⟨List.not_mem_nil, fun _ none => (by cases none), fun _ => ?_⟩
    exact .inr (.inl (exited thread inside))
  | leave free exiting seen => exact ⟨queued, exited, fun _ => .inl rfl⟩
  | finish here => exact ⟨queued, exited, fun _ => .inl rfl⟩

/-! ## When a thread has no step left -/

/-- The exit was asked for while the loop was waiting, and it is waiting still. -/
structure Asleep (w : EventLoopThread) : Prop where
  phase : w.phase = .dispatching
  queue : w.queue = []
  handler : w.handler = none
  exiting : w.exiting = true
  unseen : w.unseen = true

/-- The threads of the loop can take no step, unless an event comes. -/
def Idle (w : EventLoopThread) (i : Nat) : Prop :=
  ∀ executed w', Step i w executed w' → ∃ thread, executed = some (.event, thread)

theorem asleep_idle (h : w.Asleep) : w.Idle i := by
  intro executed w' step
  cases step with
  | announce here => cases here.symm.trans h.phase
  | enter here => cases here.symm.trans h.phase
  | run t rest free next => cases next.symm.trans h.queue
  | runStop rest free next only => cases next.symm.trans h.queue
  | event free => exact ⟨_, rfl⟩
  | drain thread work rest inside next => cases next.symm.trans h.queue
  | exit thread unseen inside none missed => cases inside.symm.trans h.handler
  | clear thread inside => cases inside.symm.trans h.handler
  | leave free exiting seen => cases seen.symm.trans h.unseen
  | finish here => cases here.symm.trans h.phase

/-- Whoever is in the `stopHandle` of a loop goes on. -/
theorem handled_step (h : w.Heard c i) {handler : StopHandle} (inside : w.handler = some handler) :
    ∃ executed w', Step i w executed w' ∧ ∀ thread, executed ≠ some (.event, thread) := by
  obtain ⟨thread, _ | _⟩ := handler
  · cases next : w.queue with
    | nil => exact ⟨_, _, .exit w thread false inside next nofun, nofun⟩
    | cons work rest =>
      refine ⟨_, _, .drain w thread work rest inside next, ?_⟩
      rintro thread same
      cases same
      exact h.queued (next ▸ List.mem_cons_self)
  · exact ⟨_, _, .clear w thread inside, nofun⟩

/-- A loop that is free goes on with its queue. -/
theorem queued_step (h : w.Heard c i) (here : w.phase = .dispatching) (none : w.handler = none)
    (more : w.queue ≠ []) :
    ∃ executed w', Step i w executed w' ∧ ∀ thread, executed ≠ some (.event, thread) := by
  have free : w.Free i := ⟨here, fun handler inside => by cases none.symm.trans inside⟩
  cases next : w.queue with
  | nil => exact absurd next more
  | cons work rest =>
    cases work with
    | task t =>
      refine ⟨_, _, .run w t rest free next, fun thread same => ?_⟩
      cases same
    | stop =>
      refine ⟨_, _, .runStop w rest free next none, fun thread same => ?_⟩
      cases same
    | event => exact absurd (next ▸ List.mem_cons_self) h.queued

/-- A thread that was told to stop has something to do until it has come to its end, or unless
it is asleep. -/
theorem exists_step (h : w.Heard c i) (told : c.told i) (open_ : w.phase ≠ .finished)
    (awake : ¬ w.Asleep) :
    ∃ executed w', Step i w executed w' ∧ ∀ thread, executed ≠ some (.event, thread) := by
  cases here : w.phase with
  | created => exact ⟨_, _, .announce w here, nofun⟩
  | announced => exact ⟨_, _, .enter w here, nofun⟩
  | returned => exact ⟨_, _, .finish w here, nofun⟩
  | finished => exact absurd here open_
  | dispatching =>
    cases inside : w.handler with
    | some handler => exact handled_step h inside
    | none =>
      by_cases some : w.queue = []
      · have exiting : w.exiting = true := by
          rcases h.told told with returned | now | stop | ⟨thread, handled⟩
          · rw [hasReturned, here] at returned
            cases returned
          · exact now
          · rw [some] at stop
            cases stop
          · cases inside.symm.trans handled
        have seen : w.unseen = false := by
          by_contra missed
          exact awake ⟨here, some, inside, exiting, Bool.not_eq_false _ ▸ missed⟩
        have free : w.Free i := ⟨here, fun handler now => by cases inside.symm.trans now⟩
        exact ⟨_, _, .leave w free exiting seen, nofun⟩
      · exact queued_step h here inside some

theorem finished_idle (here : w.phase = .finished) (handled : w.handler = none) : w.Idle i := by
  intro executed w' step
  cases step with
  | announce at_ => cases at_.symm.trans here
  | enter at_ => cases at_.symm.trans here
  | run t rest free next => cases free.1.symm.trans here
  | runStop rest free next only => cases free.1.symm.trans here
  | event free => exact ⟨_, rfl⟩
  | drain thread work rest inside next => cases inside.symm.trans handled
  | exit thread unseen inside none missed => cases inside.symm.trans handled
  | clear thread inside => cases inside.symm.trans handled
  | leave free exiting seen => cases free.1.symm.trans here
  | finish at_ => cases at_.symm.trans here

theorem Idle.cases (idle : w.Idle i) (h : w.Heard c i) (told : c.told i) :
    w.phase = .finished ∨ w.Asleep := by
  by_contra neither
  rw [not_or] at neither
  obtain ⟨executed, w', step, work⟩ := exists_step h told neither.1 neither.2
  obtain ⟨thread, event⟩ := idle executed w' step
  exact work thread event

/-! ## Loops that are told by a task -/

/-- Nobody but the loop's own thread is in its `stopHandle`, so that the exit is noticed. -/
structure Alert (w : EventLoopThread) (i : Nat) : Prop where
  here : w.HandledHere i
  seen : w.unseen = false

theorem step_alert (h : w.Alert i) (step : Step i w executed w') : w'.Alert i := by
  refine ⟨(step_handledHere h.here step).1, ?_⟩
  cases step with
  | exit thread unseen inside none missed =>
    by_contra lost
    rw [Bool.not_eq_false] at lost
    exact (missed lost).1 (h.here ⟨thread, false⟩ inside)
  | run | runStop | event => rfl
  | announce | enter | drain | clear | leave | finish => exact h.seen

theorem Alert.awake (h : w.Alert i) : ¬ w.Asleep :=
  fun asleep => by cases h.seen.symm.trans asleep.unseen

end EventLoopThread

namespace Pool

variable {s s' : Pool} {e : PoolEvent}

def Heard (s : Pool) : Prop := s.Each (EventLoopThread.Heard s.control)

/-- The controlling thread moves on and touches no thread. -/
theorem Heard.goto (hs : s.Heard) (threads : s'.threads = s.threads)
    (told : ∀ i, i < s.threads.length → s'.control.told i → s.control.told i) : s'.Heard := by
  intro i w here
  rw [threads] at here
  exact (hs i w here).goto (told i (List.getElem?_eq_some_iff.mp here).1)

theorem heard_stop {k : Nat} {w : EventLoopThread} (hs : s.Heard) (at_ : s.control = .stopping k)
    (here : s.threads[k]? = some w) : ((s.stop k w).goto (.storing k)).Heard := by
  have this := hs k w here
  -- the others were told before, and this one has `stopHandle` queued or is in it
  have others (i : Nat) (w' : EventLoopThread) (other : i ≠ k) (there : s.threads[i]? = some w') :
      w'.Heard (.storing k) i := by
    refine (hs i w' there).goto fun now => ?_
    rw [at_]
    exact Nat.lt_of_le_of_ne now other
  have set (w' : EventLoopThread) (new : w'.Heard (.storing k) k) {s' : Pool}
      (threads : s'.threads = s.threads.set k w') (control : s'.control = .storing k) :
      s'.Heard := by
    intro i v there
    rw [control]
    rw [threads] at there
    obtain ⟨rfl, rfl⟩ | ⟨other, before⟩ := getElem?_set_cases there
    · exact new
    · exact others i v other before
  by_cases own : w.threadId = .controller
  · rw [stop_own own]
    refine set { w with handler := some ⟨.controller, false⟩ } ?_ rfl rfl
    refine ⟨this.queued, fun thread inside => (by cases inside), fun _ => ?_⟩
    exact .inr (.inr (.inr ⟨_, rfl⟩))
  · rw [stop_other own]
    refine set { w with queue := w.queue ++ [.stop] } ?_ rfl rfl
    refine ⟨?_, this.exited, fun _ => ?_⟩
    · rw [List.mem_append]
      rintro (mem | mem)
      · exact this.queued mem
      · cases List.mem_singleton.mp mem
    · exact .inr (.inr (.inl (List.mem_append_right _ List.mem_cons_self)))

theorem heard_send {i task : Nat} {w : EventLoopThread} (hs : s.Heard)
    (at_ : s.control = .started) (here : s.threads[i]? = some w) : (s.send i w task).Heard := by
  have this := hs i w here
  by_cases own : w.threadId = .controller
  · rw [send_own own]
    exact Each.of_set (s := s) hs rfl this
  · rw [send_other own]
    refine Each.of_set (s := s) hs rfl ⟨?_, this.exited, fun now => ?_⟩
    · rw [List.mem_append]
      rintro (mem | mem)
      · exact this.queued mem
      · cases List.mem_singleton.mp mem
    · have before : s.control.told i := now
      rw [at_] at before
      cases before

theorem step_heard (hs : s.Heard) (h : Step s e s') : s'.Heard := by
  cases h with
  | autoStartNone | autoStart | startFailed | created | wait | autoStop =>
    exact hs.goto rfl fun i _ now => (by cases now)
  | create here more =>
    intro i w there
    obtain before | ⟨rfl, rfl⟩ := getElem?_concat_cases there
    · exact (hs i w before).goto fun now => (by cases now)
    · exact EventLoopThread.create_heard _ _ fun now => (by cases now)
  | thread i w w' executed here step =>
    exact Each.of_set hs rfl (EventLoopThread.step_heard (hs i w here) step)
  | send i task w at_ here => exact heard_send hs at_ here
  | stop k w at_ here => exact heard_stop hs at_ here
  | store k w at_ here done =>
    have this := hs k w here
    have moved : s.Each (EventLoopThread.Heard (.stopping (k + 1))) := by
      intro i v there
      refine (hs i v there).goto fun now => ?_
      rw [at_]
      exact Nat.le_of_lt_succ now
    intro i v there
    obtain ⟨rfl, rfl⟩ | ⟨_, before⟩ := getElem?_set_cases there
    · have same := moved i w here
      exact ⟨same.queued, same.exited, same.told⟩
    · exact moved i v before
  | stopsSent k at_ all =>
    refine hs.goto rfl fun i inside _ => ?_
    rw [at_]
    exact inside.trans_le all
  | pollStopped k sleeps w at_ | pollSleep k sleeps w at_ | pollTimedOut k sleeps w at_
  | pollDone k sleeps at_ =>
    refine hs.goto rfl fun i _ _ => ?_
    rw [at_]
    trivial

end Pool

theorem pool_heard {n : Nat} {s : Pool} (h : (pool n).Reachable s) : s.Heard := by
  apply System.invariant _ _ _ h
  · rintro _ rfl i w here
    cases here
  · intro s e s' hs step
    exact Pool.step_heard hs step

namespace Pool

variable {s s' : Pool} {e : PoolEvent}

/-- `stop()` of a loop comes after `dispatch` of that loop has set `thread_id_`. -/
def StopsEntered (s : Pool) : PoolEvent → Prop
  | .stop => ∀ k w, s.control = .stopping k → s.threads[k]? = some w → w.entered = true
  | _ => True

theorem step_alert (owned : s.Each fun i w => w.Owned i) (hs : s.Each fun i w => w.Alert i)
    (allowed : s.StopsEntered e) (h : Step s e s') : s'.Each fun i w => w.Alert i := by
  apply step_each hs h
  · intro i
    exact ⟨nofun, rfl⟩
  · intro i w w' executed alert step
    exact EventLoopThread.step_alert alert step
  · intro i w work _ _ _ alert
    exact ⟨alert.here, alert.seen⟩
  · intro i w eq at_ here own _
    subst eq
    exact absurd own (not_own (owned i w here) (allowed i w at_ here))
  · intro i w alert
    exact ⟨alert.here, alert.seen⟩

end Pool

theorem pool_alert {n : Nat} {s : Pool} {allowed : Pool → PoolEvent → Prop}
    (entered : ∀ s e, allowed s e → s.StopsEntered e)
    (h : ((pool n).restrict allowed).Reachable s) : s.Each fun i w => w.Alert i := by
  apply System.invariant_with _ (Q := fun s => s.Each fun i w => w.Owned i) _ _ _ h
  · intro s run
    exact pool_owned (System.restrict_reachable _ run)
  · rintro _ rfl i w here
    cases here
  · rintro s e s' owned hs ⟨ok, step⟩
    exact Pool.step_alert owned hs (entered s e ok) step

end Libatp.LoopPool
