import Libatp.Base.Progress
import Libatp.LoopPool.Shutdown

/-!
# The IO threads come to an end

`autoStop` does not wait for the IO threads. Still every thread that it has told to stop gets
there by itself, in whatever order the threads move, if its loop was told by a task in its
queue. A loop whose `stopHandle` was run by the controlling thread may have been waiting when
the exit was asked for; it sleeps until an event comes.
-/

namespace Libatp.LoopPool
open Base

namespace EventLoopThread

variable {i : Nat} {w w' : EventLoopThread} {executed : Option (Work × Thread)}

/-! ## What remains to be done -/

def phaseRank : Phase → Nat
  | .created => 4
  | .announced => 3
  | .dispatching => 2
  | .returned => 1
  | .finished => 0

def handlerRank : Option StopHandle → Nat
  | none => 0
  | some ⟨_, true⟩ => 1
  | some ⟨_, false⟩ => 2

/-- No thread takes more steps than these, apart from the callbacks of events. -/
def remaining (w : EventLoopThread) : Nat :=
  phaseRank w.phase + 3 * w.queue.length + handlerRank w.handler

theorem step_remaining (step : Step i w executed w')
    (work : ∀ thread, executed ≠ some (.event, thread)) : w'.remaining < w.remaining := by
  cases step with
  | announce here | enter here | finish here =>
    simp only [remaining, here, phaseRank]
    omega
  | run t rest free next | drain thread _ rest inside next =>
    simp only [remaining, next, List.length_cons]
    omega
  | runStop rest free next only =>
    simp only [remaining, next, only, handlerRank, List.length_cons]
    omega
  | event free => exact absurd rfl (work (.io i))
  | exit thread unseen inside none missed =>
    simp only [remaining, inside, handlerRank]
    omega
  | clear thread inside =>
    simp only [remaining, inside, handlerRank, List.length_nil]
    omega
  | leave free exiting seen =>
    simp only [remaining, free.1, phaseRank]
    omega

end EventLoopThread

/-! ## The steps of the threads -/

/-- Who moves: the thread of a loop, or of its `stopHandle`; the same in the callback of an
event, which may come at any time; the controlling thread. -/
inductive Act where
  | thread (i : Nat)
  | callback (i : Nat)
  | control
  deriving DecidableEq, Repr

def Act.own : Act → Bool
  | .thread _ => true
  | .callback _ | .control => false

inductive ActStep : Pool → Act → Pool → Prop
  | thread (s : Pool) (i w w' executed) (here : s.threads[i]? = some w)
      (step : EventLoopThread.Step i w executed w')
      (work : ∀ thread, executed ≠ some (.event, thread)) :
      ActStep s (.thread i) ((s.setThread i w').log i executed)
  | callback (s : Pool) (i w thread w') (here : s.threads[i]? = some w)
      (step : EventLoopThread.Step i w (some (.event, thread)) w') :
      ActStep s (.callback i) ((s.setThread i w').log i (some (.event, thread)))
  | control (s : Pool) (e s') (step : Pool.Step s e s') (other : ∀ i, e ≠ .thread i) :
      ActStep s .control s'

/-- The same pool, with what the threads do told apart. -/
def actingPool (threadsNum : Nat) : System Pool Act where
  start s := s = .create threadsNum
  step := ActStep

section
variable {n : Nat} {s t : Pool} {a : Act}

theorem ActStep.pool (h : ActStep s a t) : ∃ e, Pool.Step s e t := by
  cases h with
  | thread i w w' executed here step work => exact ⟨_, .thread s i w w' executed here step⟩
  | callback i w thread w' here step => exact ⟨_, .thread s i w w' _ here step⟩
  | control e s' step other => exact ⟨e, step⟩

theorem Pool.Step.act {e : PoolEvent} (h : Pool.Step s e t) : ∃ a, ActStep s a t := by
  by_cases other : ∀ i, e ≠ .thread i
  · exact ⟨_, .control s e t h other⟩
  · simp only [not_forall, not_not] at other
    obtain ⟨i, rfl⟩ := other
    cases h with
    | thread _ w w' executed here step =>
      by_cases work : ∀ thread, executed ≠ some (.event, thread)
      · exact ⟨_, .thread s i w w' executed here step work⟩
      · simp only [not_forall, not_not] at work
        obtain ⟨thread, rfl⟩ := work
        exact ⟨_, .callback s i w thread w' here step⟩

/-- Nothing is left out, and nothing is added. -/
theorem acting_reachable_iff : (actingPool n).Reachable s ↔ (pool n).Reachable s := by
  constructor
  · intro h
    induction h with
    | start first => exact .start first
    | next _ step ih =>
      obtain ⟨e, pooled⟩ := ActStep.pool step
      exact ih.next pooled
  · intro h
    induction h with
    | start first => exact .start first
    | next _ step ih =>
      obtain ⟨a, acted⟩ := Pool.Step.act step
      exact ih.next acted

end

def Pool.remaining (s : Pool) : Nat := (s.threads.map EventLoopThread.remaining).sum

section
variable {n : Nat} {s t : Pool} {a : Act}

theorem own_remaining (h : ActStep s a t) (own : a.own = true) : t.remaining < s.remaining := by
  cases h with
  | thread i w w' executed here step work =>
    have less := EventLoopThread.step_remaining step work
    have moved := map_sum_set EventLoopThread.remaining here w'
    show ((s.threads.set i w').map EventLoopThread.remaining).sum < s.remaining
    rw [Pool.remaining]
    omega
  | callback | control => cases own

theorem Control.ToldAll.cases {c : Control} (told : c.ToldAll) :
    (∃ k sleeps, c = .polling k sleeps) ∨ c = .stopped ∨ c = .timedOut := by
  cases c with
  | polling k sleeps => exact .inl ⟨k, sleeps, rfl⟩
  | stopped => exact .inr (.inl rfl)
  | timedOut => exact .inr (.inr rfl)
  | stopping k => exact absurd (told k) (Nat.lt_irrefl k)
  | storing k => exact absurd (told (k + 1)) (Nat.not_succ_le_self k)
  | idle | starting | waiting | started | failed => cases told 0

/-- All that the controlling thread still does is to read the states. -/
theorem control_toldAll {e : PoolEvent} (step : Pool.Step s e t) (other : ∀ i, e ≠ .thread i)
    (told : s.control.ToldAll) : t.threads = s.threads ∧ t.control.ToldAll := by
  have at_ := told.cases
  cases step with
  | thread i => exact absurd rfl (other i)
  | pollStopped | pollSleep | pollTimedOut | pollDone => exact ⟨rfl, fun _ => trivial⟩
  | autoStartNone here | autoStart here | create here | startFailed here | created here
  | wait _ here | send _ _ _ here | autoStop here | stop _ _ here | store _ _ here
  | stopsSent _ here =>
    rw [here] at at_
    rcases at_ with ⟨_, _, no⟩ | no | no
    · cases no
    · cases no
    · cases no

theorem Control.ToldAll.stopsEntered (told : s.control.ToldAll) (e : PoolEvent) :
    s.StopsEntered e := by
  cases e with
  | stop =>
    intro k w at_ _
    have now := told k
    rw [at_] at now
    exact absurd now (Nat.lt_irrefl k)
  | _ => trivial

theorem step_toldAll (h : ActStep s a t) (told : s.control.ToldAll) : t.control.ToldAll := by
  cases h with
  | thread | callback => exact told
  | control e s' step other => exact (control_toldAll step other told).2

/-- Nobody gives the threads more to do once all were told to stop. -/
theorem other_remaining (h : ActStep s a t) (told : s.control.ToldAll) (other : a.own = false) :
    t.remaining ≤ s.remaining := by
  cases h with
  | thread => cases other
  | callback i w thread w' here step =>
    have moved := map_sum_set EventLoopThread.remaining here w'
    have less : w'.remaining ≤ w.remaining := by
      cases step with
      | event => exact Nat.le_refl _
      | drain _ _ rest inside next =>
        simp only [EventLoopThread.remaining, next, List.length_cons]
        omega
    show ((s.threads.set i w').map EventLoopThread.remaining).sum ≤ s.remaining
    rw [Pool.remaining]
    omega
  | control e s' step moves =>
    rw [Pool.remaining, Pool.remaining, (control_toldAll step moves told).1]

theorem path_toldAll {acts : List Act} (path : (actingPool n).Path s acts t)
    (told : s.control.ToldAll) : t.control.ToldAll := by
  induction path with
  | nil => exact told
  | cons step _ ih => exact ih (step_toldAll step told)

theorem path_alert {acts : List Act} (path : (actingPool n).Path s acts t)
    (h : (actingPool n).Reachable s) (told : s.control.ToldAll)
    (alert : s.Each fun i w => w.Alert i) : t.Each fun i w => w.Alert i := by
  induction path with
  | nil => exact alert
  | cons step _ ih =>
    obtain ⟨e, pooled⟩ := ActStep.pool step
    apply ih (h.next step) (step_toldAll step told)
    exact Pool.step_alert (pool_owned (acting_reachable_iff.mp h)) alert (told.stopsEntered e)
      pooled

/-- A thread that is asleep leaves `dispatch` after the next event. -/
theorem asleep_wakes {i : Nat} {w : EventLoopThread} (here : t.threads[i]? = some w)
    (asleep : w.Asleep) : ∃ u w', (actingPool n).Path t [.callback i, .thread i, .thread i] u ∧
      u.threads[i]? = some w' ∧ w'.phase = .finished := by
  have inside := (List.getElem?_eq_some_iff.mp here).1
  have free : w.Free i :=
    ⟨asleep.phase, fun handler now => by cases asleep.handler.symm.trans now⟩
  have set (s : Pool) (long : s.threads.length = t.threads.length) (v : EventLoopThread) :
      (s.threads.set i v)[i]? = some v := List.getElem?_set_self (long ▸ inside)
  have woken := set t rfl { w with unseen := false }
  refine ⟨_, _, .cons (.callback t i w _ _ here (.event w free))
    (.cons (.thread _ i _ _ _ woken (.leave _ free asleep.exiting rfl) nofun)
      (.cons (.thread _ i _ _ _ (set _ ?_ _) (.finish _ rfl) nofun) (.nil _))), set _ ?_ _, rfl⟩
  · simp [Pool.log, Pool.setThread]
  · simp [Pool.log, Pool.setThread]

/-- **The IO threads come to an end.** Once `autoStop` has told every loop to stop, the threads
take boundedly many steps apart from callbacks of events, however they are interleaved and
whatever `autoStop` makes of their states. When none of them can take another one, each has
returned from `dispatch` and finished, or sleeps until the next event, which ends it; and none
sleeps if each loop was stopped after its `dispatch` had set `thread_id_`. -/
theorem threads_finish (h : (actingPool n).Reachable s) (told : s.control.ToldAll)
    {acts : List Act} (path : (actingPool n).Path s acts t) :
    acts.countP Act.own ≤ s.remaining ∧
    ((actingPool n).Rests Act.own t →
      (∀ (i : Nat) (w : EventLoopThread), t.threads[i]? = some w →
        w.phase = .finished ∨ w.Asleep ∧
          ∃ u w', (actingPool n).Path t [.callback i, .thread i, .thread i] u ∧
            u.threads[i]? = some w' ∧ w'.phase = .finished) ∧
      (((pool n).restrict Pool.StopsEntered).Reachable s →
        ∀ (i : Nat) (w : EventLoopThread), t.threads[i]? = some w → w.phase = .finished)) := by
  constructor
  · have bound := path.bounded Pool.remaining Act.own (P := fun s => s.control.ToldAll)
      (fun _ _ _ told step => step_toldAll step told)
      (fun _ _ _ _ step own => own_remaining step own)
      (fun _ _ _ told step other =>
        Nat.le_trans (other_remaining step told other) (Nat.le_add_right _ 0)) told
    omega
  · intro rests
    have heard := pool_heard (acting_reachable_iff.mp (path.reachable h))
    have told' := path_toldAll path told
    have ended (i : Nat) (w : EventLoopThread) (here : t.threads[i]? = some w) :
        w.phase = .finished ∨ w.Asleep := by
      by_contra neither
      rw [not_or] at neither
      obtain ⟨executed, w', step, work⟩ :=
        EventLoopThread.exists_step (heard i w here) (told' i) neither.1 neither.2
      exact rests (.thread i) _ rfl (.thread t i w w' executed here step work)
    refine ⟨fun i w here => ?_, fun entered i w here => ?_⟩
    · exact (ended i w here).imp_right fun asleep => ⟨asleep, asleep_wakes here asleep⟩
    · have alert := path_alert path h told (pool_alert (fun _ _ ok => ok) entered)
      exact (ended i w here).resolve_right (alert i w here).awake

end

/-- One loop with a task before `stopHandle`, and the callback of an event in between. -/
theorem threads_finish_one : ∃ (s t : Pool) (acts : List Act),
    (actingPool 1).Reachable s ∧ (actingPool 1).Path s acts t ∧
      acts.countP Act.own = 6 ∧ acts.countP Act.own ≤ s.remaining ∧
      t.threads.map EventLoopThread.phase = [.finished] := by
  let polling : Pool := ⟨1, .stopping,
    [⟨.stopped, .io 0, [.task 7, .stop], false, false, none, .dispatching⟩], .polling 0 0, []⟩
  have told : (actingPool 1).Reachable polling := acting_reachable_iff.mpr
    ((pool 1).restrict_reachable (told_to_stop (fun _ _ => True) fun _ _ _ _ => trivial))
  have path : (actingPool 1).Path polling [.thread 0, .callback 0, .thread 0, .thread 0, .thread 0,
      .thread 0, .thread 0] _ :=
    .cons (.thread _ 0 _ _ _ rfl (.run _ 7 [.stop] ⟨rfl, nofun⟩ rfl) nofun)
      (.cons (.callback _ 0 _ _ _ rfl (.event _ ⟨rfl, nofun⟩))
        (.cons (.thread _ 0 _ _ _ rfl (.runStop _ [] ⟨rfl, nofun⟩ rfl rfl) nofun)
          (.cons (.thread _ 0 _ _ _ rfl (.exit _ (.io 0) false rfl rfl nofun) nofun)
            (.cons (.thread _ 0 _ _ _ rfl (.clear _ (.io 0) rfl) nofun)
              (.cons (.thread _ 0 _ _ _ rfl (.leave _ ⟨rfl, nofun⟩ rfl rfl) nofun)
                (.cons (.thread _ 0 _ _ _ rfl (.finish _ rfl) nofun) (.nil _)))))))
  exact ⟨_, _, _, told, path, rfl, (threads_finish told (fun _ => trivial) path).1, rfl⟩

/-- `stop()` finds the loop's thread before `dispatch` and runs `stopHandle` itself; by the
time it asks for the exit the loop is waiting. `autoStop` returns true, and the thread sleeps. -/
theorem thread_sleeps : ∃ s : Pool, (actingPool 1).Reachable s ∧ s.control = .stopped ∧
    s.threads.map EventLoopThread.phase = [.dispatching] ∧ (actingPool 1).Rests Act.own s := by
  have started := System.restrict_reachable _
    (started_one (fun _ _ => True) fun _ => ⟨trivial, trivial, trivial, trivial⟩)
  have inside := started.next (.autoStop _ rfl) |>.next (.stop _ 0 _ rfl rfl)
    |>.next (.thread _ 0 _ _ _ rfl (.enter _ rfl))
  have asked := inside.next
      (.thread _ 0 _ _ _ rfl (.exit _ .controller true rfl rfl fun _ => ⟨nofun, rfl⟩))
    |>.next (.thread _ 0 _ _ _ rfl (.clear _ .controller rfl))
  have returned := asked.next (.store _ 0 _ rfl rfl nofun)
    |>.next (.stopsSent _ 1 rfl (Nat.le_refl 1))
    |>.next (.pollStopped _ 0 0 _ rfl rfl rfl)
    |>.next (.pollDone _ 1 0 rfl (Nat.le_refl 1))
  refine ⟨_, acting_reachable_iff.mpr returned, rfl, rfl, ?_⟩
  intro a t own step
  cases step with
  | callback | control => cases own
  | thread i w w' executed here step work =>
    cases i with
    | succ i => cases here
    | zero =>
      cases here
      obtain ⟨thread, event⟩ :=
        EventLoopThread.asleep_idle ⟨rfl, rfl, rfl, rfl, rfl⟩ executed w' step
      exact work thread event

end Libatp.LoopPool
