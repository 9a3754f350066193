import Libatp.LoopPool.Threads

/-!
# The start-up handshake

A loop belongs to the controlling thread from its construction until `dispatch` sets
`thread_id_`. `autoStart` waits for `STATE_RUNNING`, which the IO thread stores before
that, so a task sent right after `autoStart` can still find the caller's own id and be
run by the caller.
-/

namespace Libatp.LoopPool
open Base

namespace EventLoopThread

variable {i : Nat} {w w' : EventLoopThread} {executed : Option (Work × Thread)}

/-- Whom the loop belongs to, by where its thread is. -/
structure Owned (w : EventLoopThread) (i : Nat) : Prop where
  before : w.entered = false → w.threadId = .controller
  after : w.entered = true → w.threadId = .io i

theorem create_owned (i : Nat) : create.Owned i := ⟨fun _ => rfl, nofun⟩

/-- Changes that leave phase and owner alone. -/
theorem Owned.of_same (h : w.Owned i) (phase : w'.phase = w.phase)
    (threadId : w'.threadId = w.threadId) : w'.Owned i := by
  have entered : w'.entered = w.entered := by rw [EventLoopThread.entered, phase]; rfl
  constructor
  · intro before
    rw [threadId]
    exact h.before (entered ▸ before)
  · intro after
    rw [threadId]
    exact h.after (entered ▸ after)

theorem step_owned (h : w.Owned i) (step : Step i w executed w') : w'.Owned i := by
  cases step with
  | announce here =>
    have before : w.entered = false := by rw [entered, here]
    exact ⟨fun _ => h.before before, nofun⟩
  | enter here => exact ⟨nofun, fun _ => rfl⟩
  | leave free exiting seen =>
    have after : w.entered = true := by rw [entered, free.1]
    exact ⟨nofun, fun _ => h.after after⟩
  | finish here =>
    have after : w.entered = true := by rw [entered, here]
    exact ⟨nofun, fun _ => h.after after⟩
  | run | runStop | event | drain | exit | clear => exact h.of_same rfl rfl

theorem Owned.controller_iff (h : w.Owned i) : w.threadId = .controller ↔ w.entered = false := by
  constructor
  · intro controller
    by_contra entered
    rw [Bool.not_eq_false] at entered
    cases controller.symm.trans (h.after entered)
  · exact h.before

/-- The thread inside `stopHandle` is the loop's own. -/
def HandledHere (w : EventLoopThread) (i : Nat) : Prop :=
  ∀ h, w.handler = some h → h.thread = .io i

theorem step_handledHere (h : w.HandledHere i) (step : Step i w executed w') :
    w'.HandledHere i ∧ ∀ e, executed = some e → e.2 = .io i := by
  cases step with
  | run t rest free next => exact ⟨h, fun e eq => by cases eq; rfl⟩
  | event free => exact ⟨h, fun e eq => by cases eq; rfl⟩
  | runStop rest free next only =>
    exact ⟨fun k eq => by cases eq; rfl, fun e eq => by cases eq; rfl⟩
  | drain thread work rest inside next => exact ⟨h, fun e eq => by cases eq; exact h _ inside⟩
  | exit thread unseen inside none missed =>
    exact ⟨fun k eq => by cases eq; exact h ⟨thread, false⟩ inside, nofun⟩
  | clear thread inside => exact ⟨nofun, nofun⟩
  | announce | enter | leave | finish => exact ⟨h, nofun⟩

end EventLoopThread

namespace Pool

variable {s s' : Pool} {e : PoolEvent}

theorem step_owned (hs : s.Each fun i w => w.Owned i) (h : Step s e s') :
    s'.Each fun i w => w.Owned i := by
  apply step_each hs h
  · exact EventLoopThread.create_owned
  · intro i w w' executed owned step
    exact EventLoopThread.step_owned owned step
  · intro i w work _ _ _ owned
    exact owned.of_same rfl rfl
  · intro i w _ _ _ _ owned
    exact owned.of_same rfl rfl
  · intro i w owned
    exact owned.of_same rfl rfl

/-- The controlling thread sends to a loop, and stops it, only after `dispatch` of that
loop has set `thread_id_`. -/
def AfterEntry (s : Pool) : PoolEvent → Prop
  | .send i _ => ∀ w, s.threads[i]? = some w → w.entered = true
  | .stop => ∀ i w, s.control = .stopping i → s.threads[i]? = some w → w.entered = true
  | _ => True

/-- Everything executed so far was executed by the thread of its loop. -/
def OnOwnThread (s : Pool) : Prop :=
  ∀ i work thread, (i, work, thread) ∈ s.executed → thread = .io i

structure Placed (s : Pool) : Prop where
  handlers : s.Each fun i w => w.HandledHere i
  executed : s.OnOwnThread

theorem not_own {w : EventLoopThread} {i : Nat} (owned : w.Owned i) (entered : w.entered = true) :
    w.threadId ≠ .controller := by
  rw [owned.after entered]
  nofun

theorem step_handlers (owned : s.Each fun i w => w.Owned i) (hs : s.Placed)
    (allowed : s.AfterEntry e) (h : Step s e s') : s'.Each fun i w => w.HandledHere i := by
  apply step_each hs.handlers h
  · intro i
    nofun
  · intro i w w' executed handled step
    exact (EventLoopThread.step_handledHere handled step).1
  · intro i w work _ _ _ handled
    exact handled
  · intro i w eq at_ here own _
    subst eq
    exact absurd own (not_own (owned i w here) (allowed i w at_ here))
  · intro i w handled
    exact handled

theorem step_onOwnThread (owned : s.Each fun i w => w.Owned i) (hs : s.Placed)
    (allowed : s.AfterEntry e) (h : Step s e s') : s'.OnOwnThread := by
  have change := step_change h
  generalize s'.threads = threads at change
  generalize eq : s'.executed = executed at change
  unfold OnOwnThread
  rw [eq]
  cases change with
  | same => exact hs.executed
  | added at_ => exact hs.executed
  | pushed _ i w work away here other => exact hs.executed
  | stored i w at_ here => exact hs.executed
  | inline i t w here own => exact absurd own (not_own (owned i w here) (allowed w here))
  | inlineStop i w at_ here own =>
    exact absurd own (not_own (owned i w here) (allowed i w at_ here))
  | moved i w w' executed here step =>
    intro j work thread member
    obtain before | new := List.mem_append.mp member
    · exact hs.executed j work thread before
    · obtain ⟨entry, latest, eq⟩ := List.mem_map.mp new
      cases eq
      exact (EventLoopThread.step_handledHere (hs.handlers i w here) step).2 _
        (Option.mem_toList.mp latest)

end Pool

theorem pool_owned {n : Nat} {s : Pool} (h : (pool n).Reachable s) :
    s.Each fun i w => w.Owned i := by
  apply System.invariant _ _ _ h
  · rintro _ rfl i w here
    cases here
  · intro s e s' owned step
    exact Pool.step_owned owned step

theorem pool_placed {n : Nat} {s : Pool} (h : ((pool n).restrict Pool.AfterEntry).Reachable s) :
    s.Placed := by
  apply System.invariant_with _ (Q := fun s => s.Each fun i w => w.Owned i) _ _ _ h
  · intro s run
    exact pool_owned (System.restrict_reachable _ run)
  · rintro _ rfl
    exact ⟨nofun, nofun⟩
  · rintro s e s' owned hs ⟨allowed, step⟩
    exact ⟨Pool.step_handlers owned hs allowed step, Pool.step_onOwnThread owned hs allowed step⟩

/-- In any run, `sendToQueue` makes the caller run the task itself exactly while the IO
thread has not come to set `thread_id_`. -/
theorem send_inline_iff {n : Nat} {s : Pool} (h : (pool n).Reachable s) {i t : Nat}
    {w : EventLoopThread} (here : s.threads[i]? = some w) :
    (s.send i w t).executed = s.executed ++ [(i, .task t, .controller)] ↔ w.entered = false := by
  rw [← (pool_owned h i w here).controller_iff]
  by_cases own : w.threadId = .controller
  · rw [Pool.send_own own]
    exact iff_of_true rfl own
  · rw [Pool.send_other own]
    refine iff_of_false ?_ own
    simp [Pool.setThread]

/-- **Tasks run on the loop's own thread**, in every run in which the controlling thread
turns to a loop only after `dispatch` has set its `thread_id_`: nothing was executed by
another thread, and a task that is sent is queued. -/
theorem tasks_on_loop_thread {n : Nat} {s : Pool}
    (h : ((pool n).restrict Pool.AfterEntry).Reachable s) :
    (∀ i work thread, (i, work, thread) ∈ s.executed → thread = .io i) ∧
    ∀ i t s', s.AfterEntry (.send i t) → Pool.Step s (.send i t) s' →
      s'.executed = s.executed ∧ ∃ w, s.threads[i]? = some w ∧
        s'.threads = s.threads.set i { w with queue := w.queue ++ [.task t] } := by
  constructor
  · exact (pool_placed h).executed
  · intro i t s' allowed step
    have owned := pool_owned (System.restrict_reachable _ h)
    cases step with
    | send _ _ w at_ here =>
      rw [Pool.send_other (Pool.not_own (owned i w here) (allowed w here))]
      exact ⟨rfl, w, here, rfl⟩

/-- One loop; the task is sent when its thread is in `dispatch`, and run there. -/
theorem tasks_on_loop_thread_one : ∃ (s : Pool) (thread : Thread),
    ((pool 1).restrict Pool.AfterEntry).Reachable s ∧ (0, .task 7, thread) ∈ s.executed ∧
      thread = .io 0 := by
  have started := started_one Pool.AfterEntry fun _ => ⟨trivial, trivial, trivial, trivial⟩
  have entered := started.allow (.thread _ 0 _ _ _ rfl (.enter _ rfl)) trivial
  have sent := entered.allow (.send _ 0 7 _ rfl rfl) fun w here => by cases here; rfl
  have ran := sent.allow (.thread _ 0 _ _ _ rfl (.run _ 7 [] ⟨rfl, nofun⟩ rfl)) trivial
  have executed := List.mem_singleton_self ((0, .task 7, .io 0) : Nat × Work × Thread)
  exact ⟨_, _, ran, executed, (tasks_on_loop_thread ran).1 0 (.task 7) _ executed⟩

/-- One loop; the task is sent when its thread has stored `STATE_RUNNING` and not yet set
`thread_id_`. -/
theorem task_on_caller : ∃ s : Pool, (pool 1).Reachable s ∧ s.control = .started ∧
    s.executed = [(0, .task 7, .controller)] := by
  have started := System.restrict_reachable _
    (started_one (fun _ _ => True) fun _ => ⟨trivial, trivial, trivial, trivial⟩)
  exact ⟨_, started.next (.send _ 0 7 _ rfl rfl), rfl, rfl⟩

end Libatp.LoopPool
