import Libatp.Base.Agenda
import Libatp.LoopPool.Shutdown

/-!
# The loops' queues in the pool

A thread of the pool takes the tasks of its loop one by one, where `doPendingTasks` takes the
queue as a whole. It makes no difference: what is left of a batch and what was queued since are
run in that order, and `stopHandle` throws away nothing but what was queued since. It finds no
batch when it does, for nothing is queued behind it; and run by the controlling thread, before
`dispatch` has set `thread_id_`, it finds no task at all.
-/

namespace Libatp.LoopPool
open Base

namespace EventLoopThread

variable {i : Nat} {w w' : EventLoopThread} {d : Agenda Work} {executed : Option (Work × Thread)}

/-- The queue of the loop is that of `d`, with what is left of a batch in front. -/
structure Keeps (w : EventLoopThread) (i : Nat) (d : Agenda Work) : Prop where
  pending : w.queue = d.pending
  stops : d.stops = w.handler.toList.map StopHandle.exited
  handled : ∀ h, w.handler = some h → h.thread = .io i ∨ h.thread = .controller ∧ w.queue = []
  cleared : ∀ h, w.handler = some h → h.exited = true → d.todo = []
  inline : w.threadId = .controller → w.queue = []

/-- Changes that leave the queue and `stopHandle` alone. -/
theorem Keeps.of_same (h : w.Keeps i d) (queue : w'.queue = w.queue)
    (handler : w'.handler = w.handler) (threadId : w'.threadId = .controller → w.queue = []) :
    w'.Keeps i d where
  pending := queue.trans h.pending
  stops := by rw [handler]; exact h.stops
  handled := by rw [handler, queue]; exact h.handled
  cleared := by rw [handler]; exact h.cleared
  inline own := queue.trans (threadId own)

/-- The first task is executed, by the loop's own thread and not after the exit. -/
theorem Keeps.exists_run {work : Work} {rest : List Work} (h : w.Keeps i d)
    (run : (agenda Work).Reachable d) (next : w.queue = work :: rest) (queue : w'.queue = rest)
    (threadId : w'.threadId = w.threadId)
    (handler : ∀ h, w'.handler = some h → h = ⟨.io i, false⟩)
    (stops : w'.handler.toList.map StopHandle.exited = d.stops ∨
      w'.handler.toList.map StopHandle.exited = false :: d.stops) :
    ∃ d', (agenda Work).Reachable d' ∧ w'.Keeps i d' := by
  obtain ⟨d', later, pending, called⟩ := Agenda.exists_run run (h.pending.symm.trans next) stops
  refine ⟨d', later, queue.trans pending.symm, called, ?_, ?_, ?_⟩
  · intro k now
    rw [handler k now]
    exact .inl rfl
  · intro k now exited
    rw [handler k now] at exited
    cases exited
  · intro own
    cases next.symm.trans (h.inline (threadId ▸ own))

theorem step_keeps (h : w.Keeps i d) (run : (agenda Work).Reachable d)
    (step : Step i w executed w') : ∃ d', (agenda Work).Reachable d' ∧ w'.Keeps i d' := by
  cases step with
  | announce here => exact ⟨d, run, h.of_same rfl rfl h.inline⟩
  | enter here => exact ⟨d, run, h.of_same rfl rfl nofun⟩
  | event free => exact ⟨d, run, h.of_same rfl rfl h.inline⟩
  | leave free exiting seen => exact ⟨d, run, h.of_same rfl rfl h.inline⟩
  | finish here => exact ⟨d, run, h.of_same rfl rfl h.inline⟩
  | run t rest free next =>
    -- nobody is in `stopHandle`: the controlling thread would have found no task
    have none : w.handler = none := by
      cases inside : w.handler with
      | none => rfl
      | some k =>
        rcases h.handled k inside with own | ⟨_, empty⟩
        · exact absurd own (free.2 k inside)
        · cases next.symm.trans empty
    refine h.exists_run run next rfl rfl (fun k inside => ?_) (.inl h.stops.symm)
    cases none.symm.trans inside
  | runStop rest free next only =>
    have outside : d.stops = [] := by rw [h.stops, only]; rfl
    refine h.exists_run run next rfl rfl (fun k inside => ?_) (.inr ?_)
    · cases inside
      rfl
    · rw [outside]
      rfl
  | drain thread work rest inside next =>
    refine h.exists_run run next rfl rfl (fun k now => ?_) (.inl h.stops.symm)
    cases inside.symm.trans now
    rcases h.handled _ inside with own | ⟨_, empty⟩
    · rw [← own]
    · cases next.symm.trans empty
  | exit thread unseen inside none missed =>
    have empty : d.todo = [] ∧ d.waiting = [] :=
      List.append_eq_nil_iff.mp (h.pending.symm.trans none)
    have stops : d.stops = [false] := by rw [h.stops, inside]; rfl
    refine ⟨_, run.next (.exit d [] stops empty.2), h.pending, rfl, ?_, fun _ _ _ => empty.1,
      h.inline⟩
    intro k now
    cases now
    exact h.handled ⟨thread, false⟩ inside
  | clear thread inside =>
    have stops : d.stops = [true] := by rw [h.stops, inside]; rfl
    refine ⟨_, run.next (.clear d [] stops), ?_, rfl, nofun, nofun, fun _ => rfl⟩
    rw [Agenda.pending, h.cleared _ inside rfl]
    rfl

theorem push_keeps (h : w.Keeps i d) (run : (agenda Work).Reachable d) (work : Work)
    (other : w.threadId ≠ .controller) (own : ∀ k, w.handler = some k → k.thread ≠ .controller) :
    ∃ d', (agenda Work).Reachable d' ∧ { w with queue := w.queue ++ [work] }.Keeps i d' := by
  refine ⟨_, run.next (.post d work), ?_, h.stops, ?_, h.cleared, fun inline => absurd inline other⟩
  · show w.queue ++ [work] = d.todo ++ (d.waiting ++ [work])
    rw [h.pending, Agenda.pending, List.append_assoc]
  · intro k inside
    rcases h.handled k inside with here | ⟨controller, _⟩
    · exact .inl here
    · exact absurd controller (own k inside)

end EventLoopThread

namespace Pool

variable {s s' : Pool} {e : PoolEvent}

theorem step_keeps (owned : s.Each fun i w => w.Owned i) (ordered : s.Ordered)
    (hs : s.Each fun i w => ∃ d, (agenda Work).Reachable d ∧ w.Keeps i d) (h : Step s e s') :
    s'.Each fun i w => ∃ d, (agenda Work).Reachable d ∧ w.Keeps i d := by
  apply step_each hs h
  · intro i
    exact ⟨_, .start rfl, rfl, rfl, nofun, nofun, fun _ => rfl⟩
  · rintro i w w' executed ⟨d, run, keeps⟩ step
    exact EventLoopThread.step_keeps keeps run step
  · rintro i w work away here other ⟨d, run, keeps⟩
    refine EventLoopThread.push_keeps keeps run work other fun k inside controller => ?_
    rcases (ordered i w here).handled k inside with ⟨_, storing⟩ | ⟨own, _⟩
    · exact away storing
    · cases controller.symm.trans own
  · rintro i w _ at_ here own ⟨d, run, keeps⟩
    have none : w.handler = none := by
      cases inside : w.handler with
      | none => rfl
      | some k =>
        rcases (ordered i w here).handled k inside with ⟨_, storing⟩ | ⟨_, dispatching⟩
        · cases at_.symm.trans storing
        · have entered := (owned i w here).controller_iff.mp own
          rw [EventLoopThread.entered, dispatching] at entered
          cases entered
    have outside : d.stops = [] := by rw [keeps.stops, none]; rfl
    refine ⟨_, run.next (.stop d), keeps.pending, ?_, ?_, ?_, keeps.inline⟩
    · show false :: d.stops = [false]
      rw [outside]
    · intro k now
      cases now
      exact .inr ⟨rfl, keeps.inline own⟩
    · intro k now exited
      cases now
      cases exited
  · rintro i w ⟨d, run, keeps⟩
    exact ⟨d, run, keeps.of_same rfl rfl keeps.inline⟩

end Pool

/-- The queue of every loop of the pool is an agenda, in every run. -/
theorem pool_agenda {n : Nat} {s : Pool} (h : (pool n).Reachable s) :
    s.Each fun i w => ∃ d, (agenda Work).Reachable d ∧ w.Keeps i d := by
  apply System.invariant_with _ (Q := fun s => (s.Each fun i w => w.Owned i) ∧ s.Ordered) _ _ _ h
  · intro s run
    exact ⟨pool_owned run, pool_ordered run⟩
  · rintro _ rfl i w here
    cases here
  · rintro s e s' ⟨owned, ordered⟩ hs step
    exact Pool.step_keeps owned ordered hs step

end Libatp.LoopPool
