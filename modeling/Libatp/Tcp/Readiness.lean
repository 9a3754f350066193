import Libatp.Tcp.Startup
import Libatp.Wheel.Expiry

/-!
# What a server is ready for when

Two things come late in `start()`. The wheel has no bucket before the first tick of a
timer of one second, while connections can come as soon as the listener is attached.
And `STATE_RUNNING`, which `handleNewConnection` asserts, is stored after the listener
was attached: in time if the thread that calls `start()` also handles the accepts, and
by luck if another one does.
-/

namespace Libatp.Tcp
open Base Wheel LoopPool

theorem Pc.isAttached_iff {pc : Pc} :
    pc.isAttached = true ↔ pc = .attached ∨ pc.isPublished = true := by
  cases pc <;> decide

theorem Pc.isAttached_of_isPublished {pc : Pc} (h : pc.isPublished = true) :
    pc.isAttached = true :=
  Pc.isAttached_iff.mpr (.inr h)

namespace Starting

variable {s s' : Starting}

/-! ## What the functions leave alone -/

/-- Only the wheel and the connections changed. -/
def Served (s s' : Starting) : Prop :=
  ∃ wheel ticks accepted attaching connected, s' = { s with
    wheel := wheel, ticks := ticks, accepted := accepted, attaching := attaching,
    connected := connected }

theorem Served.refl (s : Starting) : s.Served s := ⟨_, _, _, _, _, rfl⟩

theorem Served.trans {t : Starting} (h : s.Served s') (h' : s'.Served t) : s.Served t := by
  obtain ⟨_, _, _, _, _, rfl⟩ := h
  obtain ⟨_, _, _, _, _, rfl⟩ := h'
  exact ⟨_, _, _, _, _, rfl⟩

theorem insert_served {entry : Entry Nat} (h : s.timingWheelInsert entry = .ok s') :
    s.Served s' := by
  obtain ⟨wheel, _, eq⟩ := bind_ok_iff.mp h
  cases eq
  exact ⟨_, _, _, _, _, rfl⟩

theorem onConnection_served {c : Nat} (h : s.onConnection c = .ok s') : s.Served s' := by
  obtain ⟨t, inserted, eq⟩ := bind_ok_iff.mp h
  cases eq
  exact (insert_served inserted).trans ⟨_, _, _, _, _, rfl⟩

theorem onMessage_served {c : Nat} (h : s.onMessage c = .ok s') : s.Served s' := by
  unfold onMessage at h
  split at h
  · exact insert_served h
  · cases h
    exact .refl s

theorem handleNewConnection_served (h : s.handleNewConnection = .ok s') : s.Served s' := by
  obtain ⟨_, _, rest⟩ := bind_ok_iff.mp h
  split at rest
  · have counted : s.Served { s with accepted := s.accepted + 1 } := ⟨_, _, _, _, _, rfl⟩
    exact counted.trans (onConnection_served rest)
  · cases rest
    exact ⟨_, _, _, _, _, rfl⟩

theorem acceptHandle_served {who : Who} {got : Bool} (h : s.acceptHandle who got = .ok s') :
    s.Served s' := by
  obtain ⟨_, _, rest⟩ := bind_ok_iff.mp h
  split at rest
  · exact handleNewConnection_served rest
  · cases rest
    exact .refl s

theorem onTrigger_served (h : s.onTrigger = .ok s') : s.Served s' := by
  obtain ⟨⟨wheel, dead⟩, _, eq⟩ := bind_ok_iff.mp h
  cases eq
  exact ⟨_, _, _, _, _, rfl⟩

/-! ## The order of `start()` -/

/-- How the state of the server follows from how far `start()` is. -/
structure Arranged (s : Starting) : Prop where
  running : s.state = .running ↔ s.pc.isPublished = true
  listener : s.listening = true ∨ .attachListener ∈ s.queue → s.pc.isAttached = true
  callback : s.pc = .bound ∨ s.pc.isAttached = true → s.newConnCallback = true
  own : ∀ who, s.dispatcher = some who → s.threadId = who
  mine : s.mode = .zero → s.dispatcher ≠ some .other

theorem Arranged.served (h : s.Arranged) (served : s.Served s') : s'.Arranged := by
  obtain ⟨_, _, _, _, _, rfl⟩ := served
  exact ⟨h.running, h.listener, h.callback, h.own, h.mine⟩

/-- What becomes of a job, run at once or queued. -/
theorem sendToQueue_eq (s : Starting) (job : Job) : ∃ timer listening queue,
    s.sendToQueue job = { s with timer := timer, listening := listening, queue := queue } ∧
      (listening = true ∨ .attachListener ∈ queue →
        job = .attachListener ∨ s.listening = true ∨ .attachListener ∈ s.queue) := by
  unfold sendToQueue
  split
  · cases job with
    | startTimer => exact ⟨_, _, _, rfl, .inr⟩
    | attachListener => exact ⟨_, _, _, rfl, fun _ => .inl rfl⟩
  · refine ⟨s.timer, s.listening, s.queue ++ [job], rfl, ?_⟩
    rintro (listening | queued)
    · exact .inr (.inl listening)
    · obtain before | new := List.mem_append.mp queued
      · exact .inr (.inr before)
      · exact .inl (List.mem_singleton.mp new).symm

/-- A part of `start()` that comes before the listener is attached. -/
theorem Arranged.early {timer listening callback : Bool} {queue : List Job} {pc : Pc}
    (h : s.Arranged) (before : s.pc.isAttached = false) (after : pc.isAttached = false)
    (kept : listening = true ∨ .attachListener ∈ queue →
      s.listening = true ∨ .attachListener ∈ s.queue) (bound : pc = .bound → callback = true) :
    Arranged { s with
      timer := timer, listening := listening, queue := queue, newConnCallback := callback,
      pc := pc } := by
  refine ⟨⟨fun running => ?_, fun published => ?_⟩, fun attached => ?_, fun later => ?_,
    h.own, h.mine⟩
  · cases before.symm.trans (Pc.isAttached_of_isPublished (h.running.mp running))
  · cases after.symm.trans (Pc.isAttached_of_isPublished published)
  · rw [h.listener (kept attached)] at before
    cases before
  · obtain now | attached := later
    · exact bound now
    · cases after.symm.trans attached

theorem arranged_start (h : s.Arranged) : s.start.Arranged := by
  unfold start
  split
  · rename_i here
    exact h.early (by rw [here]; rfl) rfl id nofun
  · rename_i here
    exact h.early (by rw [here]; rfl) rfl id nofun
  · rename_i here
    obtain ⟨timer, listening, queue, sent, kept⟩ := s.sendToQueue_eq .startTimer
    rw [sent]
    exact h.early (by rw [here]; rfl) rfl (fun attached => (kept attached).resolve_left nofun) nofun
  · rename_i here
    exact h.early (by rw [here]; rfl) rfl id fun _ => rfl
  · rename_i here
    have running := h.running
    rw [here] at running
    obtain ⟨timer, listening, queue, sent, _⟩ := s.sendToQueue_eq .attachListener
    rw [sent]
    exact ⟨running, fun _ => rfl, fun _ => h.callback (.inl here), h.own, h.mine⟩
  · rename_i here
    have callback := h.callback (.inr (by rw [here]; rfl))
    exact ⟨⟨fun _ => rfl, fun _ => rfl⟩, fun _ => rfl, fun _ => callback, h.own, h.mine⟩
  · rename_i here
    have callback := h.callback (.inr (by rw [here]; rfl))
    have running := h.running
    rw [here] at running
    split
    · refine ⟨running, fun _ => rfl, fun _ => callback, fun who eq => ?_, fun _ => nofun⟩
      cases eq
      rfl
    · exact ⟨running, fun _ => rfl, fun _ => callback, h.own, h.mine⟩
  · exact h
  · exact h

theorem arranged_run {job : Job} {rest : List Job} (h : s.Arranged) (next : s.queue = job :: rest) :
    (perform { s with queue := rest } job).Arranged := by
  have kept : .attachListener ∈ rest → .attachListener ∈ s.queue := by
    intro later
    rw [next]
    exact List.mem_cons_of_mem job later
  cases job with
  | startTimer =>
    refine ⟨h.running, fun attached => ?_, h.callback, h.own, h.mine⟩
    exact h.listener (attached.imp_right kept)
  | attachListener =>
    refine ⟨h.running, fun _ => ?_, h.callback, h.own, h.mine⟩
    exact h.listener (.inr (by rw [next]; exact List.mem_cons_self))

theorem exec_arranged {e : StartEvent} (h : s.Arranged) (possible : e.Possible s)
    (step : e.exec s = .ok s') : s'.Arranged := by
  cases e with
  | start =>
    cases step
    exact arranged_start h
  | enter who =>
    cases step
    refine ⟨h.running, h.listener, h.callback, fun who eq => ?_, fun zero => ?_⟩
    · cases eq
      rfl
    · cases possible.1.symm.trans zero
  | run =>
    simp only [StartEvent.exec] at step
    split at step
    · cases step
      exact h
    · rename_i job rest next
      cases step
      exact arranged_run h next
  | tick => exact h.served (onTrigger_served step)
  | accept got =>
    simp only [StartEvent.exec] at step
    split at step
    · cases step
      exact h
    · exact h.served (acceptHandle_served step)
  | attach c =>
    have taken : s.Served { s with attaching := s.attaching.erase c } := ⟨_, _, _, _, _, rfl⟩
    exact h.served (taken.trans (onConnection_served step))
  | message c => exact h.served (onMessage_served step)

theorem startup_arranged (h : startup.Reachable s) : s.Arranged := by
  apply startup.invariant (P := Arranged) _ _ h
  · rintro _ ⟨mode, threadNum, threadId, dispatcher, known, rfl⟩
    refine ⟨⟨nofun, nofun⟩, ?_, ?_, ?_, ?_⟩
    · rintro (listening | queued)
      · cases listening
      · cases queued
    · rintro (bound | attached)
      · cases bound
      · cases attached
    · rintro who rfl
      obtain none | ⟨_, eq⟩ := known
      · cases none
      · exact (Option.some.inj eq).symm
    · rintro rfl rfl
      obtain none | ⟨one, _⟩ := known
      · cases none
      · cases one
  · rintro _ _ _ arranged ⟨possible, step⟩
    exact exec_arranged arranged possible step

/-! ## The ticks of the wheel -/

/-- A bucket was pushed for every tick. -/
def Turned (s : Starting) : Prop :=
  ∃ log, s.wheel.cycleBuckets.Holds log ∧
    s.wheel.cycleBuckets.maxSize = connReadWriteExpires ∧ log.length = s.ticks

theorem Turned.room (h : s.Turned) : 1 ≤ s.wheel.cycleBuckets.maxSize := by
  obtain ⟨_, _, size, _⟩ := h
  rw [size]
  decide

/-- Before the first tick there is no bucket. -/
theorem Turned.empty (h : s.Turned) (none : s.ticks = 0) : s.wheel.cycleBuckets.Holds [] := by
  obtain ⟨log, holds, _, turns⟩ := h
  rw [none] at turns
  rwa [List.eq_nil_of_length_eq_zero turns] at holds

/-- What an insertion into the wheel of `s` comes to. -/
def Inserts (s : Starting) (result : Checked Starting) : Prop :=
  s.ticks = 0 ∧ result = .error .outOfBounds ∨
    s.ticks ≠ 0 ∧ ∃ s', result = .ok s' ∧ s'.Turned

theorem Inserts.outOfBounds_iff {result : Checked Starting} (h : s.Inserts result) :
    result = .error .outOfBounds ↔ s.ticks = 0 := by
  obtain ⟨none, failed⟩ | ⟨some, _, ok, _⟩ := h
  · exact ⟨fun _ => none, fun _ => failed⟩
  · refine ⟨fun failed => ?_, fun none => absurd none some⟩
    cases ok.symm.trans failed

theorem Inserts.not_assertion {result : Checked Starting} (h : s.Inserts result) :
    result ≠ .error .assertion := by
  intro eq
  obtain ⟨_, failed⟩ | ⟨_, _, ok, _⟩ := h
  · cases failed.symm.trans eq
  · cases ok.symm.trans eq

theorem Inserts.turned {result : Checked Starting} (h : s.Inserts result) (ok : result = .ok s') :
    s'.Turned := by
  obtain ⟨_, failed⟩ | ⟨_, _, eq, turned⟩ := h
  · cases failed.symm.trans ok
  · cases eq.symm.trans ok
    exact turned

theorem insert_inserts (h : s.Turned) (entry : Entry Nat) :
    s.Inserts (s.timingWheelInsert entry) := by
  obtain ⟨log, holds, size, turns⟩ := id h
  cases log with
  | nil =>
    refine .inl ⟨turns.symm, ?_⟩
    rw [timingWheelInsert, TimingWheel.pushBack, holds.back_nil]
    rfl
  | cons newest log =>
    obtain ⟨wheel, pushed, kept, holds'⟩ := TimingWheel.pushBack_holds holds h.room entry
    refine .inr ⟨by rw [← turns]; exact Nat.succ_ne_zero _, { s with wheel := wheel }, ?_, ?_⟩
    · rw [timingWheelInsert, pushed]
      rfl
    · exact ⟨_, holds', kept.trans size, turns⟩

theorem onConnection_inserts (h : s.Turned) (c : Nat) : s.Inserts (s.onConnection c) := by
  obtain ⟨none, failed⟩ | ⟨some, s', ok, turned⟩ := insert_inserts h (entryOf c)
  · refine .inl ⟨none, ?_⟩
    rw [onConnection, failed]
    rfl
  · refine .inr ⟨some, { s' with connected := s'.connected ++ [c] }, ?_, turned⟩
    rw [onConnection, ok]
    rfl

/-- The entry that a message callback finds is in a bucket. -/
theorem onMessage_turned (h : s.Turned) (c : Nat) : ∃ s', s.onMessage c = .ok s' ∧ s'.Turned := by
  unfold onMessage
  split
  · rename_i owned
    obtain ⟨none, _⟩ | ⟨_, inserted⟩ := insert_inserts h (entryOf c)
    · obtain ⟨bucket, mem, _⟩ := owned
      rw [(h.empty none).mem_iff, List.take_nil] at mem
      cases mem
    · exact inserted
  · exact ⟨s, rfl, h⟩

theorem onTrigger_turned (h : s.Turned) : ∃ s', s.onTrigger = .ok s' ∧ s'.Turned := by
  obtain ⟨log, holds, size, turns⟩ := id h
  obtain ⟨wheel, dead, ran, kept, holds', _⟩ := TimingWheel.pushBucket_holds holds h.room
  refine ⟨{ s with wheel := wheel, ticks := s.ticks + 1 }, ?_, ?_⟩
  · rw [onTrigger, ran]
    rfl
  · refine ⟨∅ :: log, holds', kept.trans size, ?_⟩
    rw [List.length_cons, turns]

theorem start_wheel (s : Starting) : s.start.wheel = s.wheel ∧ s.start.ticks = s.ticks := by
  unfold start
  split
  case h_3 =>
    obtain ⟨_, _, _, sent, _⟩ := s.sendToQueue_eq .startTimer
    rw [sent]
    exact ⟨rfl, rfl⟩
  case h_5 =>
    obtain ⟨_, _, _, sent, _⟩ := s.sendToQueue_eq .attachListener
    rw [sent]
    exact ⟨rfl, rfl⟩
  case h_7 => split <;> exact ⟨rfl, rfl⟩
  all_goals exact ⟨rfl, rfl⟩

theorem perform_wheel (s : Starting) (job : Job) :
    (s.perform job).wheel = s.wheel ∧ (s.perform job).ticks = s.ticks := by
  cases job <;> exact ⟨rfl, rfl⟩

theorem Turned.of_eq (h : s.Turned) (eq : s'.wheel = s.wheel ∧ s'.ticks = s.ticks) :
    s'.Turned := by
  unfold Turned
  rw [eq.1, eq.2]
  exact h

/-! ## Accepted connections -/

theorem handleNewConnection_cases (h : s.Turned) :
    s.state ≠ .running ∧ s.handleNewConnection = .error .assertion ∨
    (s.state = .running ∧ s.threadNum = 0) ∧ s.Inserts s.handleNewConnection ∨
    (s.state = .running ∧ s.threadNum ≠ 0) ∧ ∃ s', s.handleNewConnection = .ok s' ∧ s'.Turned := by
  by_cases running : s.state = .running
  · have checked : s.handleNewConnection =
        if s.threadNum = 0 then { s with accepted := s.accepted + 1 }.onConnection s.accepted
        else .ok { s with
          accepted := s.accepted + 1, attaching := s.attaching ++ [s.accepted] } := by
      rw [handleNewConnection, require_true running]
      rfl
    rw [checked]
    split
    · rename_i alone
      refine .inr (.inl ⟨⟨running, alone⟩, ?_⟩)
      exact onConnection_inserts (s := { s with accepted := s.accepted + 1 }) h s.accepted
    · rename_i shared
      exact .inr (.inr ⟨⟨running, shared⟩, _, rfl, h⟩)
  · refine .inl ⟨running, ?_⟩
    rw [handleNewConnection, require, if_neg running]
    rfl

theorem handleNewConnection_turned (h : s.Turned) (ok : s.handleNewConnection = .ok s') :
    s'.Turned := by
  obtain ⟨_, failed⟩ | ⟨_, inserts⟩ | ⟨_, t, eq, turned⟩ := handleNewConnection_cases h
  · cases failed.symm.trans ok
  · exact inserts.turned ok
  · cases eq.symm.trans ok
    exact turned

theorem handleNewConnection_assertion_iff (h : s.Turned) :
    s.handleNewConnection = .error .assertion ↔ s.state ≠ .running := by
  obtain ⟨early, failed⟩ | ⟨later, inserts⟩ | ⟨later, t, eq, _⟩ := handleNewConnection_cases h
  · exact ⟨fun _ => early, fun _ => failed⟩
  · exact ⟨fun failed => absurd failed inserts.not_assertion, fun early => absurd later.1 early⟩
  · refine ⟨fun failed => ?_, fun early => absurd later.1 early⟩
    cases eq.symm.trans failed

theorem handleNewConnection_outOfBounds_iff (h : s.Turned) :
    s.handleNewConnection = .error .outOfBounds ↔
      (s.state = .running ∧ s.threadNum = 0) ∧ s.ticks = 0 := by
  obtain ⟨early, failed⟩ | ⟨alone, inserts⟩ | ⟨shared, t, eq, _⟩ := handleNewConnection_cases h
  · rw [failed]
    exact ⟨nofun, fun empty => absurd empty.1.1 early⟩
  · rw [inserts.outOfBounds_iff]
    exact ⟨fun none => ⟨alone, none⟩, fun empty => empty.2⟩
  · rw [eq]
    exact ⟨nofun, fun empty => absurd empty.1.2 shared.2⟩

/-- The listener runs on the thread of its loop, with its callback set. -/
theorem exec_accept {got : Bool} (h : s.Arranged) (possible : (StartEvent.accept got).Possible s) :
    (StartEvent.accept got).exec s = if got then s.handleNewConnection else .ok s := by
  obtain ⟨⟨who, dispatched, _⟩, listening⟩ := possible
  have callback := h.callback (.inr (h.listener (.inl listening)))
  simp only [StartEvent.exec, dispatched, acceptHandle, require_true (h.own who dispatched),
    callback, Bool.and_true, ok_bind, pure_eq_ok]

theorem exec_attach (h : s.Turned) (c : Nat) : s.Inserts ((StartEvent.attach c).exec s) :=
  onConnection_inserts (s := { s with attaching := s.attaching.erase c }) h c

theorem exec_turned {e : StartEvent} (arranged : s.Arranged) (h : s.Turned)
    (possible : e.Possible s) (step : e.exec s = .ok s') : s'.Turned := by
  cases e with
  | start =>
    cases step
    exact h.of_eq s.start_wheel
  | enter who =>
    cases step
    exact h
  | run =>
    simp only [StartEvent.exec] at step
    split at step
    · cases step
      exact h
    · rename_i job rest _
      cases step
      exact h.of_eq (perform_wheel { s with queue := rest } job)
  | tick =>
    obtain ⟨t, ran, turned⟩ := onTrigger_turned h
    cases ran.symm.trans step
    exact turned
  | accept got =>
    rw [exec_accept arranged possible] at step
    split at step
    · exact handleNewConnection_turned h step
    · cases step
      exact h
  | attach c => exact (exec_attach h c).turned step
  | message c =>
    obtain ⟨t, ran, turned⟩ := onMessage_turned h c
    cases ran.symm.trans step
    exact turned

theorem startup_turned (h : startup.Reachable s) : s.Turned := by
  apply startup.invariant_with (P := Turned) (Q := Arranged) (fun _ => startup_arranged) _ _ h
  · rintro _ ⟨_, _, _, _, _, rfl⟩
    exact ⟨[], rfl, rfl, rfl⟩
  · rintro _ _ _ arranged turned ⟨possible, step⟩
    exact exec_turned arranged turned possible step

/-- The parts of `start()`, with nothing between them. -/
theorem startup_starts (h : startup.Reachable s) (n : Nat)
    (going : ∀ i < n, (start^[i] s).pc ≠ .dispatching ∧ (start^[i] s).pc ≠ .done) :
    startup.Reachable (start^[n] s) := by
  induction n with
  | zero => exact h
  | succ n ih =>
    have before := ih fun i small => going i (Nat.lt_succ_of_lt small)
    rw [Function.iterate_succ_apply']
    have step : startup.step (start^[n] s) .start (start^[n] s).start :=
      ⟨going n (Nat.lt_succ_self n), rfl⟩
    exact before.next step

/-- What an event can fail at. -/
theorem exec_error {e : StartEvent} {fault : Fault} (h : startup.Reachable s)
    (possible : e.Possible s) (failed : e.exec s = .error fault) :
    e = .accept true ∧ s.handleNewConnection = .error fault ∨
      ∃ c, e = .attach c ∧ s.ticks = 0 ∧ fault = .outOfBounds := by
  have turned := startup_turned h
  cases e with
  | start => cases failed
  | enter who => cases failed
  | run =>
    simp only [StartEvent.exec] at failed
    split at failed
    · cases failed
    · cases failed
  | tick =>
    obtain ⟨t, ran, _⟩ := onTrigger_turned turned
    cases ran.symm.trans failed
  | accept got =>
    rw [exec_accept (startup_arranged h) possible] at failed
    cases got with
    | false => cases failed
    | true => exact .inl ⟨rfl, failed⟩
  | attach c =>
    obtain ⟨none, empty⟩ | ⟨_, t, ran, _⟩ := exec_attach turned c
    · cases empty.symm.trans failed
      exact .inr ⟨c, rfl, none, rfl⟩
    · cases ran.symm.trans failed
  | message c =>
    obtain ⟨t, ran, _⟩ := onMessage_turned turned c
    cases ran.symm.trans failed

/-! ## The empty wheel -/

/-- The event runs a connection callback. -/
def Connects (s : Starting) : StartEvent → Prop
  | .accept true => s.state = .running ∧ s.threadNum = 0
  | .attach _ => True
  | _ => False

/-- `back()` is taken of the empty ring exactly when a connection callback runs before
the first tick was handled. -/
theorem wheel_empty_iff (h : startup.Reachable s) {e : StartEvent} (possible : e.Possible s) :
    e.exec s = .error .outOfBounds ↔ s.Connects e ∧ s.ticks = 0 := by
  have turned := startup_turned h
  constructor
  · intro failed
    obtain ⟨rfl, handled⟩ | ⟨c, rfl, none, _⟩ := exec_error h possible failed
    · exact (handleNewConnection_outOfBounds_iff turned).mp handled
    · exact ⟨trivial, none⟩
  · rintro ⟨connects, none⟩
    cases e with
    | accept got =>
      cases got with
      | false => exact connects.elim
      | true =>
        rw [exec_accept (startup_arranged h) possible]
        exact (handleNewConnection_outOfBounds_iff turned).mpr ⟨connects, none⟩
    | attach c => exact (exec_attach turned c).outOfBounds_iff.mpr none
    | _ => exact connects.elim

/-- A server of its own, in `dispatch` at the end of `start()`. -/
def serving : Starting := start^[7] (create .zero 0 .starter none)

theorem serving_reachable : startup.Reachable serving :=
  startup_starts (.start ⟨_, _, _, _, .inl rfl, rfl⟩) 7 (by decide)

theorem wheel_not_empty_ticked : ∃ s, startup.Reachable s ∧ s.ticks = 1 ∧
    (StartEvent.accept true).Possible s ∧
      (StartEvent.accept true).exec s ≠ .error .outOfBounds := by
  have turns : serving.Turns := ⟨.starter, rfl, fun _ => .inr (.inl rfl)⟩
  let wheel : TimingWheel Nat := { serving.wheel with cycleBuckets := ⟨10, [∅]⟩ }
  have step : startup.step serving .tick { serving with wheel := wheel, ticks := 1 } :=
    ⟨⟨turns, rfl⟩, rfl⟩
  have run := serving_reachable.next step
  refine ⟨_, run, rfl, ⟨turns, rfl⟩, fun failed => ?_⟩
  cases ((wheel_empty_iff run (e := .accept true) ⟨turns, rfl⟩).mp failed).2

theorem wheel_empty_accept : startup.Reachable serving ∧
    (StartEvent.accept true).Possible serving ∧
      (StartEvent.accept true).exec serving = .error .outOfBounds :=
  ⟨serving_reachable, ⟨⟨.starter, rfl, fun _ => .inr (.inl rfl)⟩, rfl⟩, rfl⟩

/-! ## `STATE_RUNNING` -/

/-- The thread that is in `start()` handles no accept, so it is past the store when it
does. -/
theorem Arranged.window (h : s.Arranged) (turns : s.Turns) (listening : s.listening = true)
    (early : s.state ≠ .running) :
    s.mode = .one ∧ s.dispatcher = some .other ∧ s.pc = .attached := by
  have attached := h.listener (.inl listening)
  have here : s.pc = .attached :=
    (Pc.isAttached_iff.mp attached).resolve_right fun published => early (h.running.mpr published)
  obtain ⟨who, dispatched, away⟩ := turns
  cases who with
  | starter =>
    rw [here] at away
    simp at away
  | other =>
    refine ⟨?_, dispatched, here⟩
    cases mode : s.mode with
    | zero => exact absurd dispatched (h.mine mode)
    | one => rfl

/-- An assertion fails exactly when a loop that another thread dispatches accepts a
connection after `start()` attached the listener and before it stored
`STATE_RUNNING`. -/
theorem running_assertion_iff (h : startup.Reachable s) {e : StartEvent}
    (possible : e.Possible s) :
    e.exec s = .error .assertion ↔
      e = .accept true ∧ s.mode = .one ∧ s.dispatcher = some .other ∧ s.pc = .attached := by
  have arranged := startup_arranged h
  have asserts := handleNewConnection_assertion_iff (startup_turned h)
  constructor
  · intro failed
    obtain ⟨rfl, handled⟩ | ⟨_, _, _, other⟩ := exec_error h possible failed
    · exact ⟨rfl, arranged.window possible.1 possible.2 (asserts.mp handled)⟩
    · cases other
  · rintro ⟨rfl, _, _, here⟩
    rw [exec_accept arranged possible]
    apply asserts.mpr
    rw [ne_eq, arranged.running, here]
    exact nofun

theorem running_assertion_own : startup.Reachable serving ∧
    (StartEvent.accept true).exec serving ≠ .error .assertion := by
  refine ⟨serving_reachable, fun failed => ?_⟩
  have possible : (StartEvent.accept true).Possible serving :=
    ⟨⟨.starter, rfl, fun _ => .inr (.inl rfl)⟩, rfl⟩
  cases ((running_assertion_iff serving_reachable possible).mp failed).2.1

/-- The loop was dispatched by another thread before, and has the queue still to run. -/
theorem running_assertion_window : ∃ s, startup.Reachable s ∧
    (StartEvent.accept true).Possible s ∧
      (StartEvent.accept true).exec s = .error .assertion := by
  let queued : Starting := start^[5] (create .one 0 .other (some .other))
  have run : startup.Reachable queued :=
    startup_starts (.start ⟨_, _, _, _, .inr ⟨rfl, rfl⟩, rfl⟩) 5 (by decide)
  have turns : queued.Turns := ⟨.other, rfl, nofun⟩
  have timer : startup.step queued .run { queued with queue := [.attachListener], timer := true } :=
    ⟨⟨turns, nofun⟩, rfl⟩
  have listener : startup.step { queued with queue := [.attachListener], timer := true } .run
      { queued with queue := [], timer := true, listening := true } :=
    ⟨⟨turns, nofun⟩, rfl⟩
  exact ⟨_, (run.next timer).next listener, ⟨turns, rfl⟩, rfl⟩

end Starting

end Libatp.Tcp
