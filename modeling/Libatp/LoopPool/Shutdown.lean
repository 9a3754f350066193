import Libatp.LoopPool.Stopping

/-!
# `autoStop` and the threads it leaves behind

`EventLoopThread::stop` posts `stopHandle` and then stores `STATE_STOPPED` itself, in
the state that the IO thread stores it in when `dispatch` has returned. So `autoStop`,
which polls these states, finds every one of them stopped at once: it never sleeps,
never gives up, and says nothing about the threads.
-/

namespace Libatp.LoopPool
open Base

/-- The controlling thread has stored `STATE_STOPPED` for thread `i`. -/
def Control.stored (i : Nat) : Control → Prop
  | .stopping k | .storing k => i < k
  | .polling _ _ | .stopped | .timedOut => True
  | .idle | .starting | .waiting | .started | .failed => False

namespace EventLoopThread

variable {i n : Nat} {c c' : Control} {w w' : EventLoopThread} {executed : Option (Work × Thread)}

/-- A thread of a pool of `n` so far, while the controlling thread is at `c`: only the
last one can be new, its state is stopped once that was stored, and whoever is in its
`stopHandle` has not left `stop()` or `dispatch`. -/
structure Follows (n : Nat) (c : Control) (i : Nat) (w : EventLoopThread) : Prop where
  fresh : w.phase = .created → w.state = .init ∧ c = .waiting ∧ i + 1 = n
  stored : c.stored i → w.state = .stopped
  handled : ∀ h, w.handler = some h → h.thread = .controller ∧ c = .storing i ∨
    h.thread = .io i ∧ w.phase = .dispatching

theorem Follows.announced (h : w.Follows n c i) (later : c ≠ .waiting) : w.phase ≠ .created :=
  fun created => later (h.fresh created).2.1

theorem step_follows (h : w.Follows n c i) (step : Step i w executed w') : w'.Follows n c i := by
  cases step with
  | announce here =>
    refine ⟨nofun, fun stored => ?_, fun k eq => ?_⟩
    · rw [(h.fresh here).2.1] at stored
      exact stored.elim
    · refine (h.handled k eq).imp_right fun own => ?_
      cases here.symm.trans own.2
  | enter here =>
    exact ⟨nofun, h.stored, fun k eq => (h.handled k eq).imp_right fun own => ⟨own.1, rfl⟩⟩
  | run t rest free next => exact ⟨h.fresh, h.stored, h.handled⟩
  | runStop rest free next only =>
    refine ⟨h.fresh, h.stored, fun k eq => ?_⟩
    cases eq
    exact .inr ⟨rfl, free.1⟩
  | event free => exact ⟨h.fresh, h.stored, h.handled⟩
  | drain thread work rest inside next => exact ⟨h.fresh, h.stored, h.handled⟩
  | exit thread unseen inside none missed =>
    refine ⟨h.fresh, h.stored, fun k eq => ?_⟩
    cases eq
    exact h.handled ⟨thread, false⟩ inside
  | clear thread inside => exact ⟨h.fresh, h.stored, nofun⟩
  | leave free exiting seen =>
    refine ⟨nofun, h.stored, fun k eq => (h.handled k eq).imp_right fun own => ?_⟩
    exact absurd own.1 (free.2 k eq)
  | finish here =>
    refine ⟨nofun, fun _ => rfl, fun k eq => (h.handled k eq).imp_right fun own => ?_⟩
    cases here.symm.trans own.2

/-- The controlling thread moves on, and has left this thread's `stop()`. -/
theorem Follows.goto {n' : Nat} (h : w.Follows n c i) (announced : w.phase ≠ .created)
    (stored : c'.stored i → c.stored i)
    (left : ∀ k, w.handler = some k → c = .storing i → k.thread ≠ .controller) :
    w.Follows n' c' i := by
  refine ⟨fun created => absurd created announced, fun now => h.stored (stored now), ?_⟩
  intro k eq
  obtain ⟨controller, at_⟩ | own := h.handled k eq
  · exact absurd controller (left k eq at_)
  · exact .inr own

theorem step_hasReturned (h : w.hasReturned = true) (step : Step i w executed w') :
    w'.hasReturned = true := by
  cases step with
  | announce here =>
    rw [hasReturned, here] at h
    cases h
  | enter here =>
    rw [hasReturned, here] at h
    cases h
  | leave | finish => rfl
  | run | runStop | event | drain | exit | clear => exact h

/-- A thread that has returned, with nobody in its `stopHandle`, executes nothing. -/
theorem step_silent (h : w.hasReturned = true) (none : w.handler = none)
    (step : Step i w executed w') : executed = .none := by
  have free (busy : w.Free i) : False := by
    rw [hasReturned, busy.1] at h
    cases h
  cases step with
  | run t rest busy next => exact (free busy).elim
  | runStop rest busy next only => exact (free busy).elim
  | event busy => exact (free busy).elim
  | drain thread work rest inside next => cases none.symm.trans inside
  | announce | enter | exit | clear | leave | finish => rfl

end EventLoopThread

namespace Pool

variable {s s' : Pool} {e : PoolEvent}

def Ordered (s : Pool) : Prop := s.Each (EventLoopThread.Follows s.threads.length s.control)

/-- The controlling thread moves from `c` to `c'` and touches no thread. -/
theorem Ordered.goto (hs : s.Ordered) (threads : s'.threads = s.threads)
    (announced : s.control ≠ .waiting) (away : ∀ k, s.control ≠ .storing k)
    (stored : ∀ i, i < s.threads.length → s'.control.stored i → s.control.stored i) :
    s'.Ordered := by
  intro i w here
  rw [threads] at here
  have follows := hs i w here
  rw [threads]
  exact follows.goto (follows.announced announced)
    (stored i (List.getElem?_eq_some_iff.mp here).1) fun _ _ at_ => absurd at_ (away i)

/-- One thread changes, while the controlling thread stays or moves on. -/
theorem Ordered.of_set {k : Nat} {w' : EventLoopThread} (threads : s'.threads = s.threads.set k w')
    (others : ∀ i w, i ≠ k → s.threads[i]? = some w →
      w.Follows s.threads.length s'.control i)
    (this : w'.Follows s.threads.length s'.control k) : s'.Ordered := by
  have length : s'.threads.length = s.threads.length := by rw [threads, List.length_set]
  intro i w here
  rw [length]
  rw [threads] at here
  obtain ⟨rfl, rfl⟩ | ⟨other, before⟩ := getElem?_set_cases here
  · exact this
  · exact others i w other before

theorem ordered_create (hs : s.Ordered) (here : s.control = .starting) :
    ({ s.goto .waiting with threads := s.threads ++ [.create] } : Pool).Ordered := by
  intro i w there
  rw [List.length_append, List.length_singleton]
  obtain before | ⟨rfl, rfl⟩ := getElem?_concat_cases there
  · have follows := hs i w before
    exact follows.goto (follows.announced (here ▸ nofun)) nofun fun _ _ at_ => by
      cases here.symm.trans at_
  · exact ⟨fun _ => ⟨rfl, rfl, rfl⟩, nofun, nofun⟩

/-- `STATE_RUNNING` of the last thread shows that none is new any more. -/
theorem ordered_wait {w : EventLoopThread} (hs : s.Ordered) (here : s.control = .waiting)
    (last : s.threads[s.threads.length - 1]? = some w) (running : w.state = .running) :
    (s.goto .starting).Ordered := by
  intro i w' there
  have follows := hs i w' there
  refine follows.goto (fun created => ?_) nofun fun _ _ at_ => by cases here.symm.trans at_
  obtain ⟨init, _, end_⟩ := follows.fresh created
  have eq : i = s.threads.length - 1 := by omega
  subst eq
  cases last.symm.trans there
  cases init.symm.trans running

theorem ordered_stop {k : Nat} {w : EventLoopThread} (hs : s.Ordered)
    (at_ : s.control = .stopping k) (here : s.threads[k]? = some w) :
    ((s.stop k w).goto (.storing k)).Ordered := by
  have others (i : Nat) (w' : EventLoopThread) (there : s.threads[i]? = some w') :
      w'.Follows s.threads.length (.storing k) i := by
    have follows := hs i w' there
    refine follows.goto (follows.announced (at_ ▸ nofun)) (fun stored => ?_) fun _ _ storing => ?_
    · rw [at_]
      exact stored
    · cases at_.symm.trans storing
  have this := others k w here
  by_cases own : w.threadId = .controller
  · rw [stop_own own]
    refine Ordered.of_set (s := s) rfl (fun i w' _ => others i w') ⟨this.fresh, this.stored, ?_⟩
    intro h eq
    cases eq
    exact .inl ⟨rfl, rfl⟩
  · rw [stop_other own]
    exact Ordered.of_set (s := s) rfl (fun i w' _ => others i w')
      ⟨this.fresh, this.stored, this.handled⟩

theorem ordered_store {k : Nat} {w : EventLoopThread} (hs : s.Ordered)
    (at_ : s.control = .storing k) (here : s.threads[k]? = some w)
    (done : ∀ h, w.handler = some h → h.thread ≠ .controller) :
    ((s.setThread k { w with state := .stopped }).goto (.stopping (k + 1))).Ordered := by
  have follows := hs k w here
  refine Ordered.of_set (s := s) rfl (fun i w' other there => ?_) ?_
  · have follows' := hs i w' there
    refine follows'.goto (follows'.announced (at_ ▸ nofun)) (fun stored => ?_) fun _ _ storing => ?_
    · rw [at_]
      exact Nat.lt_of_le_of_ne (Nat.le_of_lt_succ stored) other
    · cases at_.symm.trans storing
      exact absurd rfl other
  · refine ⟨fun created => absurd created (follows.announced (at_ ▸ nofun)), fun _ => rfl, ?_⟩
    intro h eq
    obtain ⟨controller, _⟩ | own := follows.handled h eq
    · exact absurd controller (done h eq)
    · exact .inr own

theorem step_ordered (hs : s.Ordered) (h : Step s e s') : s'.Ordered := by
  cases h with
  | autoStartNone here none => exact hs.goto rfl (here ▸ nofun) (here ▸ nofun) nofun
  | autoStart here some => exact hs.goto rfl (here ▸ nofun) (here ▸ nofun) nofun
  | create here more => exact ordered_create hs here
  | startFailed here more => exact hs.goto rfl (here ▸ nofun) (here ▸ nofun) nofun
  | created here all => exact hs.goto rfl (here ▸ nofun) (here ▸ nofun) nofun
  | wait w here last running => exact ordered_wait hs here last running
  | thread i w w' executed here step =>
    exact Ordered.of_set rfl (fun j v _ there => hs j v there)
      (EventLoopThread.step_follows (hs i w here) step)
  | send i t w at_ here =>
    have follows := hs i w here
    by_cases own : w.threadId = .controller
    · rw [send_own own]
      exact Ordered.of_set (s := s) rfl (fun j v _ there => hs j v there) follows
    · rw [send_other own]
      exact Ordered.of_set (s := s) rfl (fun j v _ there => hs j v there)
        ⟨follows.fresh, follows.stored, follows.handled⟩
  | autoStop here => exact hs.goto rfl (here ▸ nofun) (here ▸ nofun) nofun
  | stop k w at_ here => exact ordered_stop hs at_ here
  | store k w at_ here done => exact ordered_store hs at_ here done
  | stopsSent k at_ all =>
    refine hs.goto rfl (at_ ▸ nofun) (at_ ▸ nofun) fun i inside _ => ?_
    rw [at_]
    exact inside.trans_le all
  | pollStopped k sleeps w at_ here stopped =>
    exact hs.goto rfl (at_ ▸ nofun) (at_ ▸ nofun) fun _ _ _ => at_ ▸ trivial
  | pollSleep k sleeps w at_ here other more =>
    exact hs.goto rfl (at_ ▸ nofun) (at_ ▸ nofun) fun _ _ _ => at_ ▸ trivial
  | pollTimedOut k sleeps w at_ here other last =>
    exact hs.goto rfl (at_ ▸ nofun) (at_ ▸ nofun) fun _ _ _ => at_ ▸ trivial
  | pollDone k sleeps at_ all =>
    exact hs.goto rfl (at_ ▸ nofun) (at_ ▸ nofun) fun _ _ _ => at_ ▸ trivial

/-! ## What `autoStop` waits for -/

/-- `stop_fn` has found every state stopped that it has read. -/
def Prompt (s : Pool) : Prop :=
  s.control ≠ .timedOut ∧ ∀ k sleeps, s.control = .polling k sleeps → sleeps = 0

theorem step_prompt (ordered : s.Ordered) (hs : s.Prompt) (h : Step s e s') : s'.Prompt := by
  have read {k sleeps : Nat} {w : EventLoopThread} (at_ : s.control = .polling k sleeps)
      (here : s.threads[k]? = some w) : w.state = .stopped :=
    (ordered k w here).stored (at_ ▸ trivial)
  cases h with
  | thread | send => exact hs
  | pollStopped k sleeps w at_ here stopped =>
    refine ⟨nofun, fun k' sleeps' eq => ?_⟩
    cases eq
    exact hs.2 k sleeps at_
  | pollSleep k sleeps w at_ here other more => exact absurd (read at_ here) other
  | pollTimedOut k sleeps w at_ here other last => exact absurd (read at_ here) other
  | stopsSent k at_ all =>
    refine ⟨nofun, fun k' sleeps' eq => ?_⟩
    cases eq
    rfl
  | autoStartNone | autoStart | create | startFailed | created | wait | autoStop | stop | store
  | pollDone => exact ⟨nofun, nofun⟩

/-- `stop()` of a loop comes after its `dispatch` has set `thread_id_`, and the threads have
taken what steps they can take by themselves when `stop_fn` has read the last state. -/
def Scheduled (s : Pool) : PoolEvent → Prop
  | .stop => s.StopsEntered .stop
  | .poll => ∀ k sleeps, s.control = .polling k sleeps → s.threads.length ≤ k →
    s.Each fun i w => w.Idle i
  | _ => True

theorem Scheduled.stopsEntered (h : s.Scheduled e) : s.StopsEntered e := by
  cases e with
  | stop => exact h
  | _ => trivial

/-- Threads that can take no step by themselves have returned. -/
theorem idle_returned (heard : s.Heard) (alert : s.Each fun i w => w.Alert i)
    (told : s.control.ToldAll) (idle : s.Each fun i w => w.Idle i) :
    s.Each fun _ w => w.hasReturned = true := by
  intro i w here
  rcases (idle i w here).cases (heard i w here) (told i) with finished | asleep
  · rw [EventLoopThread.hasReturned, finished]
  · exact absurd asleep (alert i w here).awake

/-- What `autoStop` returning true means. -/
structure Over (s : Pool) : Prop where
  returned : s.control = .stopped → s.Each fun _ w => w.hasReturned = true
  state : s.control = .stopped → s.state = .stopped

theorem Over.before (other : s.control ≠ .stopped) : s.Over :=
  ⟨fun at_ => absurd at_ other, fun at_ => absurd at_ other⟩

theorem step_over (heard : s.Heard) (alert : s.Each fun i w => w.Alert i) (hs : s.Over)
    (scheduled : s.Scheduled e) (h : Step s e s') : s'.Over := by
  cases h with
  | thread i w w' executed here step =>
    refine ⟨fun at_ => ?_, hs.state⟩
    have returned := hs.returned at_
    exact returned.of_set rfl (EventLoopThread.step_hasReturned (returned i w here) step)
  | pollDone k sleeps at_ all =>
    have told : s.control.ToldAll := fun _ => at_ ▸ trivial
    have returned := idle_returned heard alert told (scheduled k sleeps at_ all)
    exact ⟨fun _ => returned, fun _ => rfl⟩
  | send i t w at_ here =>
    have same : (s.send i w t).control = s.control := rfl
    exact .before fun stopped => by cases (same.trans at_).symm.trans stopped
  | autoStartNone | autoStart | create | startFailed | created | wait | autoStop | stop | store
  | stopsSent | pollStopped | pollSleep | pollTimedOut => exact .before nofun

/-- Once `autoStop` has returned true, only the threads move. -/
theorem step_after_stop (ordered : s.Ordered) (hs : s.Over) (at_ : s.control = .stopped)
    (h : Step s e s') : s'.executed = s.executed := by
  cases h with
  | thread i w w' executed here step =>
    have returned : w.hasReturned = true := hs.returned at_ i w here
    have none : w.handler = none := by
      cases handler : w.handler with
      | none => rfl
      | some k =>
        obtain ⟨_, storing⟩ | ⟨_, dispatching⟩ := (ordered i w here).handled k handler
        · cases at_.symm.trans storing
        · rw [EventLoopThread.hasReturned, dispatching] at returned
          cases returned
    rw [EventLoopThread.step_silent returned none step]
    exact List.append_nil _
  | send i t w started here => cases at_.symm.trans started
  | stop k w stopping here => cases at_.symm.trans stopping
  | autoStartNone | autoStart | create | startFailed | created | wait | autoStop | store
  | stopsSent | pollStopped | pollSleep | pollTimedOut | pollDone => rfl

end Pool

theorem pool_ordered {n : Nat} {s : Pool} (h : (pool n).Reachable s) : s.Ordered := by
  apply System.invariant _ _ _ h
  · rintro _ rfl i w here
    cases here
  · intro s e s' hs step
    exact Pool.step_ordered hs step

/-- In any run, `autoStop` finds all states stopped the first time it looks: it never
sleeps and never returns false. -/
theorem autoStop_prompt {n : Nat} {s : Pool} (h : (pool n).Reachable s) : s.Prompt := by
  apply System.invariant_with _ (fun s run => pool_ordered run) _ _ h
  · rintro _ rfl
    exact ⟨nofun, nofun⟩
  · intro s e s' ordered hs step
    exact Pool.step_prompt ordered hs step

theorem pool_over {n : Nat} {s : Pool} (h : ((pool n).restrict Pool.Scheduled).Reachable s) :
    s.Over := by
  apply System.invariant_with _ (Q := fun s => s.Heard ∧ s.Each fun i w => w.Alert i) _ _ _ h
  · intro s run
    exact ⟨pool_heard (System.restrict_reachable _ run),
      pool_alert (fun _ _ scheduled => scheduled.stopsEntered) run⟩
  · rintro _ rfl
    exact .before nofun
  · rintro s e s' ⟨heard, alert⟩ hs ⟨scheduled, step⟩
    exact Pool.step_over heard alert hs scheduled step

/-- One loop, in `dispatch` when `autoStop` has told it to stop. -/
theorem told_to_stop (allowed : Pool → PoolEvent → Prop)
    (ok : ∀ s e, e ≠ .poll → s.StopsEntered e → allowed s e) :
    ((pool 1).restrict allowed).Reachable ⟨1, .stopping,
      [⟨.stopped, .io 0, [.task 7, .stop], false, false, none, .dispatching⟩],
      .polling 0 0, []⟩ := by
  have started := started_one allowed fun s => ⟨ok s _ nofun trivial, ok s _ nofun trivial,
    ok s _ nofun trivial, ok s _ nofun trivial⟩
  have entered := started.allow (.thread _ 0 _ _ _ rfl (.enter _ rfl)) (ok _ _ nofun trivial)
  have sent := entered.allow (.send _ 0 7 _ rfl rfl) (ok _ _ nofun trivial)
    |>.allow (.autoStop _ rfl) (ok _ _ nofun trivial)
  have told := sent.allow (.stop _ 0 _ rfl rfl) (ok _ _ nofun fun k w at_ here => by
      cases at_
      cases here
      rfl)
    |>.allow (.store _ 0 _ rfl rfl nofun) (ok _ _ nofun trivial)
  exact told.allow (.stopsSent _ 1 rfl (Nat.le_refl 1)) (ok _ _ nofun fun k w at_ here => by
    cases at_
    cases here)

/-- **`autoStop` waits for the IO threads**, in every run in which the loops are stopped from
inside `dispatch` and the threads have got as far as they can when the last state was read:
when it has returned true, every IO thread is out of `dispatch`, and nothing is executed any
more. -/
theorem autoStop_waits {n : Nat} {s : Pool} (h : ((pool n).restrict Pool.Scheduled).Reachable s)
    (stopped : s.control = .stopped) :
    s.state = .stopped ∧
      (∀ (i : Nat) (w : EventLoopThread), s.threads[i]? = some w → w.hasReturned = true) ∧
      ∀ e s', Pool.Step s e s' → s'.executed = s.executed := by
  have ended := pool_over h
  have ordered := pool_ordered (System.restrict_reachable _ h)
  refine ⟨ended.state stopped, ended.returned stopped, fun e s' step => ?_⟩
  exact Pool.step_after_stop ordered ended stopped step

/-- The thread runs its task and `stopHandle`, returns and finishes before the last poll. -/
theorem autoStop_waits_one : ∃ (s : Pool) (w : EventLoopThread),
    ((pool 1).restrict Pool.Scheduled).Reachable s ∧ s.control = .stopped ∧ s.state = .stopped ∧
      s.threads[0]? = some w ∧ w.hasReturned = true := by
  have told := told_to_stop Pool.Scheduled fun s e other entered => by
    cases e with
    | poll => exact absurd rfl other
    | stop => exact entered
    | _ => trivial
  have polled := told.allow (.pollStopped _ 0 0 _ rfl rfl rfl) fun k sleeps at_ all => by
    cases at_
    cases all
  have left := polled.allow (.thread _ 0 _ _ _ rfl (.run _ 7 [.stop] ⟨rfl, nofun⟩ rfl)) trivial
    |>.allow (.thread _ 0 _ _ _ rfl (.runStop _ [] ⟨rfl, nofun⟩ rfl rfl)) trivial
    |>.allow (.thread _ 0 _ _ _ rfl (.exit _ (.io 0) false rfl rfl nofun)) trivial
    |>.allow (.thread _ 0 _ _ _ rfl (.clear _ (.io 0) rfl)) trivial
    |>.allow (.thread _ 0 _ _ _ rfl (.leave _ ⟨rfl, nofun⟩ rfl rfl)) trivial
    |>.allow (.thread _ 0 _ _ _ rfl (.finish _ rfl)) trivial
  have done := left.allow (.pollDone _ 1 0 rfl (Nat.le_refl 1)) fun _ _ _ _ i w here => by
    cases i with
    | zero =>
      cases here
      exact EventLoopThread.finished_idle rfl rfl
    | succ i => cases here
  obtain ⟨state, returned, _⟩ := autoStop_waits done rfl
  exact ⟨_, _, done, rfl, state, rfl, returned 0 _ rfl⟩

/-- `autoStop` returns true while the thread is in `dispatch`, with a task to run, and
the thread runs it afterwards. -/
theorem autoStop_early : ∃ s s' : Pool, (pool 1).Reachable s ∧ s.control = .stopped ∧
    (∃ w, s.threads[0]? = some w ∧ w.phase = .dispatching) ∧
      Pool.Step s (.thread 0) s' ∧ s'.executed = s.executed ++ [(0, .task 7, .io 0)] := by
  have told := System.restrict_reachable _ (told_to_stop (fun _ _ => True) fun _ _ _ _ => trivial)
  have returned := told.next (.pollStopped _ 0 0 _ rfl rfl rfl)
    |>.next (.pollDone _ 1 0 rfl (Nat.le_refl 1))
  exact ⟨_, _, returned, rfl, ⟨_, rfl, rfl⟩,
    .thread _ 0 _ _ _ rfl (.run _ 7 [.stop] ⟨rfl, nofun⟩ rfl), rfl⟩

end Libatp.LoopPool
