import Libatp.Timer.CycleTimer
import Mathlib.Data.List.Perm.Basic
import Mathlib.Logic.Relation

/-!
# Timers that are cancelled

`cancel()` does something only if it finds the watcher, which the closure of `start()`
makes. From there on every `cancel()` comes to a state in which the timer is not armed and
not persistent, and nothing arms it again. A `cancel()` that overtakes the closure is lost.
-/

namespace Libatp.Timer
open Base

namespace CycleTimer

/-- The event is not armed, and `onTrigger` will not arm it again. -/
def Quiet (s : CycleTimer) : Prop := s.persist = false ∧ s.armed = false

/-! ## Before and after the closure of `start()` -/

structure Unbuilt (s : CycleTimer) : Prop where
  built : s.built = false
  held : s.held = false
  event : s.event = false
  armed : s.armed = false
  looked : s.looked = 0
  frames : s.frames = []
  expired : s.expired = 0
  cancelled : s.cancelled = 0
  tasks : ∀ task ∈ s.pending, task.2 ≠ .doCancel
  starts : s.pending.countP (·.2 = .start) = if s.started then 1 else 0

structure Built (s : CycleTimer) : Prop where
  built : s.built = true
  started : s.started = true
  tasks : ∀ task ∈ s.pending, task.2 ≠ .start
  quiet : s.held = false ∨ s.event = false → s.Quiet
  framed : ∀ inline, .cancels inline ∈ s.frames → s.event = false
  /-- the event is armed, or `expires_fn_` is being called, or neither -/
  solo : s.frames.count .expires + s.armed.toNat ≤ 1
  once : s.cancelled ≤ 1 ∧ (s.event = true → s.cancelled = 0)

theorem build_built {s : CycleTimer} (frames : s.frames = []) (cancelled : s.cancelled = 0)
    (started : s.started = true) (none : s.pending.countP (·.2 = .start) = 0) :
    Built s.build := by
  constructor
  · rfl
  · exact started
  · intro task mem
    simpa using List.countP_eq_zero.mp none task mem
  · rintro (none | none) <;> cases none
  · show ∀ inline, .cancels inline ∈ s.frames → _
    rw [frames]
    nofun
  · show s.frames.count .expires + 1 ≤ 1
    rw [frames]
    exact Nat.le_refl 1
  · refine ⟨?_, fun _ => cancelled⟩
    show s.cancelled ≤ 1
    omega

namespace Built
variable {s : CycleTimer} (h : Built s)

include h

theorem returned : Built s.returned :=
  ⟨h.built, h.started, h.tasks, h.quiet, h.framed, h.solo, h.once⟩

theorem setCancelCallback : Built { s with cancelFn := true } :=
  ⟨h.built, h.started, h.tasks, h.quiet, h.framed, h.solo, h.once⟩

theorem clear : Built { s with cancelFn := false, expiresFn := false } :=
  ⟨h.built, h.started, h.tasks, h.quiet, h.framed, h.solo, h.once⟩

theorem looks (n : Nat) : Built { s with looked := n } :=
  ⟨h.built, h.started, h.tasks, h.quiet, h.framed, h.solo, h.once⟩

theorem queue {task : Task} (kind : task ≠ .start) : Built (s.queue task) := by
  refine ⟨h.built, h.started, ?_, h.quiet, h.framed, h.solo, h.once⟩
  intro t mem
  obtain old | new := List.mem_append.mp mem
  · exact h.tasks t old
  · rw [List.mem_singleton.mp new]
    exact kind

theorem erase (k : Nat) : Built { s with pending := s.pending.eraseIdx k } := by
  refine ⟨h.built, h.started, ?_, h.quiet, h.framed, h.solo, h.once⟩
  intro t mem
  exact h.tasks t (List.mem_of_mem_eraseIdx mem)

theorem pop {frame : Frame} {frames : List Frame} (top : s.frames = frame :: frames) :
    Built { s with frames := frames } := by
  refine ⟨h.built, h.started, h.tasks, h.quiet, ?_, ?_, h.once⟩
  · intro inline mem
    exact h.framed inline (top ▸ List.mem_cons_of_mem frame mem)
  · have solo := h.solo
    rw [top, List.count_cons] at solo
    exact Nat.le_trans (by dsimp only; omega) solo

theorem disarm : Built { s with armed := false } := by
  refine ⟨h.built, h.started, h.tasks, fun none => ⟨(h.quiet none).1, rfl⟩, h.framed, ?_, h.once⟩
  exact Nat.le_trans (Nat.add_le_add_left (Nat.zero_le _) _) h.solo

theorem reset (quiet : s.Quiet) : Built s.reset := by
  unfold CycleTimer.reset
  split
  · exact ⟨h.built, h.started, h.tasks, fun _ => quiet, h.framed, h.solo, h.once⟩
  · exact ⟨h.built, h.started, h.tasks, fun _ => ⟨quiet.1, rfl⟩, fun _ _ => rfl, h.disarm.solo,
      h.once.1, nofun⟩

theorem endCancel (quiet : s.Quiet) (inline : Bool) : Built (s.endCancel inline) := by
  have done : Built { s with cancelFn := false, expiresFn := false }.reset := h.clear.reset quiet
  unfold CycleTimer.endCancel
  cases inline with
  | false => exact done
  | true => exact done.returned

/-- The watcher has lost its event. -/
theorem detach : Built { s with event := false, armed := false, persist := false } :=
  ⟨h.built, h.started, h.tasks, fun _ => ⟨rfl, rfl⟩, fun _ _ => rfl, h.disarm.solo, h.once.1, nofun⟩

theorem doCancel (inline : Bool) : Built (s.doCancel inline) := by
  unfold CycleTimer.doCancel
  split
  · cases inline with
    | false => exact h
    | true => exact h.returned
  · rename_i event
    have first := h.once.2 (eq_true_of_ne_false event)
    dsimp only
    split
    · refine ⟨h.built, h.started, h.tasks, fun _ => ⟨rfl, rfl⟩, fun _ _ => rfl, ?_, ?_, nofun⟩
      · show (Frame.cancels inline :: s.frames).count .expires + 0 ≤ 1
        rw [List.count_cons_of_ne (by decide +revert)]
        exact h.disarm.solo
      · show s.cancelled + 1 ≤ 1
        omega
    · exact h.detach.endCancel ⟨rfl, rfl⟩ inline

/-- After `expires_fn_` the watcher is there if the timer is persistent. -/
theorem endTrigger (idle : s.frames.count .expires = 0) (unarmed : s.armed = false) :
    ∃ s', s.endTrigger = some s' ∧ Built s' := by
  unfold CycleTimer.endTrigger
  by_cases persist : s.persist = true
  · have watcher : s.held = true ∧ s.event = true := by
      constructor
      · by_contra none
        cases persist.symm.trans (h.quiet (.inl (eq_false_of_ne_true none))).1
      · by_contra none
        cases persist.symm.trans (h.quiet (.inr (eq_false_of_ne_true none))).1
    rw [if_pos persist, if_pos watcher]
    refine ⟨_, rfl, h.built, h.started, h.tasks, ?_, h.framed, ?_, h.once⟩
    · rintro (none | none)
      · cases none.symm.trans watcher.1
      · cases none.symm.trans watcher.2
    · show s.frames.count .expires + 1 ≤ 1
      omega
  · rw [if_neg persist]
    exact ⟨_, rfl, h.clear.reset ⟨eq_false_of_ne_true persist, unarmed⟩⟩

theorem trigger (free : s.frames = []) : ∃ s', s.trigger = some s' ∧ Built s' := by
  unfold CycleTimer.trigger
  dsimp only
  split
  · refine ⟨_, rfl, h.built, h.started, h.tasks, h.disarm.quiet, ?_, Nat.le_refl 1, h.once⟩
    intro inline mem
    cases List.mem_singleton.mp mem
  · apply h.disarm.endTrigger _ rfl
    show s.frames.count .expires = 0
    rw [free]
    rfl

end Built

/-! ## What a step can do once the watcher is there -/

/-- A step that does not call `expires_fn_`. A `cancel()` that returns in it has left the timer
quiet, or a call of `doCancel` in the queue. -/
structure Calm (s s' : CycleTimer) : Prop where
  persist : s'.persist = true → s.persist = true
  armed : s'.armed = true → s.armed = true ∨ s.persist = true
  expired : s'.expired = s.expired
  late : s'.late = s.late
  tasks : ∀ id, (id, .doCancel) ∈ s.pending → (id, .doCancel) ∈ s'.pending ∨ s'.Quiet
  marks : ∀ mark ∈ s'.marks, mark ∈ s.marks ∨ s'.Quiet ∨ ∃ id ∈ mark, (id, .doCancel) ∈ s'.pending

theorem Calm.of_quiet {s s' : CycleTimer} (quiet : s'.Quiet)
    (history : s'.expired = s.expired ∧ s'.late = s.late) : Calm s s' where
  persist on := by cases quiet.1.symm.trans on
  armed on := by cases quiet.2.symm.trans on
  expired := history.1
  late := history.2
  tasks _ _ := .inr quiet
  marks _ _ := .inr (.inl quiet)

/-- A step that leaves the tasks, the marks and the history alone. -/
theorem Calm.of_same {s s' : CycleTimer} (persist : s'.persist = s.persist)
    (armed : s'.armed = true → s.armed = true ∨ s.persist = true)
    (history : s'.expired = s.expired ∧ s'.late = s.late) (tasks : s'.pending = s.pending)
    (marks : s'.marks = s.marks) : Calm s s' where
  persist on := persist.symm.trans on
  armed := armed
  expired := history.1
  late := history.2
  tasks _ mem := .inl (tasks ▸ mem)
  marks _ mem := .inl (marks ▸ mem)

theorem reset_history (s : CycleTimer) :
    s.reset.expired = s.expired ∧ s.reset.late = s.late := by
  unfold reset
  split <;> exact ⟨rfl, rfl⟩

theorem reset_quiet {s : CycleTimer} (quiet : s.Quiet) : s.reset.Quiet := by
  unfold reset
  split
  · exact quiet
  · exact ⟨quiet.1, rfl⟩

theorem endCancel_history (s : CycleTimer) (inline : Bool) :
    (s.endCancel inline).expired = s.expired ∧ (s.endCancel inline).late = s.late := by
  cases inline <;> exact reset_history _

theorem endCancel_quiet {s : CycleTimer} (quiet : s.Quiet) (inline : Bool) :
    (s.endCancel inline).Quiet := by
  have done : { s with cancelFn := false, expiresFn := false }.reset.Quiet := reset_quiet quiet
  cases inline <;> exact done

theorem doCancel_history (s : CycleTimer) (inline : Bool) :
    (s.doCancel inline).expired = s.expired ∧ (s.doCancel inline).late = s.late := by
  unfold doCancel
  split
  · cases inline <;> exact ⟨rfl, rfl⟩
  · dsimp only
    split
    · exact ⟨rfl, rfl⟩
    · exact endCancel_history _ inline

theorem doCancel_quiet {s : CycleTimer} (h : Built s) (inline : Bool) :
    (s.doCancel inline).Quiet := by
  unfold doCancel
  split
  · rename_i detached
    have quiet := h.quiet (.inr detached)
    cases inline <;> exact quiet
  · dsimp only
    split
    · exact ⟨rfl, rfl⟩
    · exact endCancel_quiet ⟨rfl, rfl⟩ inline

theorem endTrigger_calm {s s' : CycleTimer} (unarmed : s.armed = false)
    (step : s.endTrigger = some s') : Calm s s' := by
  unfold endTrigger at step
  split at step
  · rename_i persist
    split at step
    · cases step
      exact .of_same rfl (fun _ => .inr persist) ⟨rfl, rfl⟩ rfl rfl
    · cases step
  · rename_i single
    cases step
    exact .of_quiet (reset_quiet ⟨eq_false_of_ne_true single, unarmed⟩) (reset_history _)

/-- A call of `expires_fn_`. -/
structure Calls (s s' : CycleTimer) : Prop where
  armed : s.armed = true
  disarmed : s'.armed = false
  persist : s'.persist = s.persist
  expired : s'.expired = s.expired + 1
  late : s'.late = (s.late || decide s.Settled)
  pending : s'.pending = s.pending
  marks : s'.marks = s.marks

theorem task_kept {s : CycleTimer} {k id : Nat} {task : Task}
    (found : s.pending[k]? = some (id, task)) {other : Nat × Task} (differs : other.2 ≠ task)
    (mem : other ∈ s.pending) : other ∈ s.pending.eraseIdx k := by
  obtain ⟨bound, here⟩ := List.getElem?_eq_some_iff.mp found
  rw [← (List.getElem_cons_eraseIdx_perm bound).mem_iff, here, List.mem_cons] at mem
  obtain rfl | left := mem
  · exact absurd rfl differs
  · exact left

/-- What a step does after the event was disarmed, it does. -/
theorem Calm.of_disarmed {s s' : CycleTimer} (h : Calm { s with armed := false } s') : Calm s s' :=
  ⟨h.persist, fun on => (h.armed on).elim nofun .inr, h.expired, h.late, h.tasks, h.marks⟩

/-- The frames are of no account. -/
theorem Calm.of_frames {s s' : CycleTimer} {frames : List Frame}
    (h : Calm { s with frames := frames } s') : Calm s s' :=
  ⟨h.persist, h.armed, h.expired, h.late, h.tasks, h.marks⟩

/-- The call of `doCancel` that `cancel()` has just queued is in its mark. -/
theorem push_calm {s : CycleTimer} (started : s.started = true) (n : Nat) :
    Calm s ({ s with looked := n }.queue .doCancel).returned := by
  have last : (s.issued, Task.doCancel) ∈ s.pending ++ [(s.issued, Task.doCancel)] :=
    List.mem_append_right _ (List.mem_singleton_self _)
  refine ⟨id, .inl, rfl, rfl, fun _ mem => .inl (List.mem_append_left _ mem), ?_⟩
  intro mark mem
  simp only [returned, queue, started, if_true] at mem
  obtain rfl | old := List.mem_cons.mp mem
  · exact .inr (.inr ⟨s.issued, List.mem_map_of_mem last, last⟩)
  · exact .inl old

theorem run_next {s : CycleTimer} (h : Built s) {k id : Nat} {task : Task}
    (found : s.pending[k]? = some (id, task)) :
    Built ({ s with pending := s.pending.eraseIdx k }.runTask task) ∧
      Calm s ({ s with pending := s.pending.eraseIdx k }.runTask task) := by
  have left := h.erase k
  cases task with
  | start => exact absurd rfl (h.tasks _ (List.mem_of_getElem? found))
  | doCancel =>
    exact ⟨left.doCancel false, .of_quiet (doCancel_quiet left false) (doCancel_history _ false)⟩
  | other =>
    refine ⟨left, fun on => on, .inl, rfl, rfl, ?_, fun _ mem => .inl mem⟩
    intro id mem
    exact .inl (task_kept found (by decide : Task.doCancel ≠ .other) mem)

theorem trigger_next {s s' : CycleTimer} (h : Built s) (free : s.frames = [])
    (armed : s.armed = true) (step : s.trigger = some s') :
    Built s' ∧ (Calm s s' ∨ Calls s s') := by
  obtain ⟨_, done, built⟩ := h.trigger free
  cases done.symm.trans step
  refine ⟨built, ?_⟩
  unfold trigger at step
  dsimp only at step
  split at step
  · cases step
    exact .inr ⟨armed, rfl, rfl, rfl, rfl, rfl, rfl⟩
  · exact .inl (endTrigger_calm rfl step).of_disarmed

/-- `expires_fn_` returns. The event is not armed while it is called. -/
theorem expires_next {s s' : CycleTimer} (h : Built s) {frames : List Frame}
    (top : s.frames = .expires :: frames)
    (step : { s with frames := frames }.endTrigger = some s') :
    Built s' ∧ Calm s s' := by
  have solo := h.solo
  rw [top, List.count_cons_self] at solo
  have unarmed : s.armed = false := by
    cases armed : s.armed with
    | false => rfl
    | true =>
      rw [armed, Bool.toNat_true] at solo
      omega
  obtain ⟨_, done, built⟩ := (h.pop top).endTrigger
    (show frames.count .expires = 0 by omega) unarmed
  cases done.symm.trans step
  have popped : { s with frames := frames }.armed = false := unarmed
  exact ⟨built, (endTrigger_calm popped step).of_frames⟩

/-- `cancel_fn_` returns. -/
theorem cancels_next {s : CycleTimer} (h : Built s) {inline : Bool} {frames : List Frame}
    (top : s.frames = .cancels inline :: frames) :
    Built ({ s with frames := frames }.endCancel inline) ∧
      Calm s ({ s with frames := frames }.endCancel inline) := by
  have quiet : { s with frames := frames }.Quiet :=
    h.quiet (.inr (h.framed inline (top ▸ List.mem_cons_self)))
  exact ⟨(h.pop top).endCancel quiet inline,
    .of_quiet (endCancel_quiet quiet inline) (endCancel_history _ inline)⟩

/-- Every step once the watcher is there. -/
theorem built_next {s s' : CycleTimer} (h : Built s) {e : Event}
    (step : s.exec e = some s') : Built s' ∧ (Calm s s' ∨ Calls s s') := by
  -- a `cancel()` that finds no watcher has nothing to do
  have idle (none : ¬ s.held = true) : Built s.returned ∧ Calm s s.returned :=
    ⟨h.returned, .of_quiet (h.quiet (.inl (eq_false_of_ne_true none))) ⟨rfl, rfl⟩⟩
  cases e with
  | start onLoop =>
    simp only [exec, h.started, if_true] at step
    cases step
  | cancel =>
    cases step
    split
    · exact ⟨h.doCancel true, .inl (.of_quiet (doCancel_quiet h true) (doCancel_history s true))⟩
    · rename_i none
      exact (idle none).imp_right .inl
  | look =>
    cases step
    split
    · exact ⟨h.looks _, .inl (.of_same rfl .inl ⟨rfl, rfl⟩ rfl rfl)⟩
    · rename_i none
      exact (idle none).imp_right .inl
  | push =>
    simp only [exec] at step
    split at step
    · cases step
    · cases step
      have kind : Task.doCancel ≠ .start := by decide
      exact ⟨((h.looks (s.looked - 1)).queue kind).returned, .inl (push_calm h.started _)⟩
  | setCancelCallback =>
    cases step
    exact ⟨h.setCancelCallback, .inl (.of_same rfl .inl ⟨rfl, rfl⟩ rfl rfl)⟩
  | queueOther =>
    cases step
    have kind : Task.other ≠ .start := by decide
    exact ⟨h.queue kind, .inl ⟨id, .inl, rfl, rfl, fun _ mem => .inl (List.mem_append_left _ mem),
      fun _ mem => .inl mem⟩⟩
  | run k =>
    simp only [exec] at step
    split at step
    · cases step
    · rename_i id task found
      cases step
      exact (run_next h found).imp_right .inl
  | fire =>
    simp only [exec] at step
    split at step
    · rename_i due
      exact trigger_next h due.1 due.2 step
    · cases step
  | ret =>
    simp only [exec] at step
    split at step
    · cases step
    · rename_i frames top
      exact (expires_next h top step).imp_right .inl
    · rename_i inline frames top
      cases step
      exact (cancels_next h top).imp_right .inl

namespace Unbuilt
variable {s : CycleTimer} (h : Unbuilt s)

include h

theorem returned : Unbuilt s.returned :=
  ⟨h.built, h.held, h.event, h.armed, h.looked, h.frames, h.expired, h.cancelled, h.tasks, h.starts⟩

theorem requeue {tasks : List (Nat × Task)} (n : Nat) (started : Bool)
    (plain : ∀ task ∈ tasks, task.2 ≠ .doCancel)
    (starts : tasks.countP (·.2 = .start) = if started then 1 else 0) :
    Unbuilt { s with pending := tasks, issued := n, started := started } :=
  ⟨h.built, h.held, h.event, h.armed, h.looked, h.frames, h.expired, h.cancelled, plain, starts⟩

theorem plain_concat {task : Task} (kind : task ≠ .doCancel) :
    ∀ t ∈ s.pending ++ [(s.issued, task)], t.2 ≠ .doCancel := by
  intro t mem
  obtain old | new := List.mem_append.mp mem
  · exact h.tasks t old
  · rw [List.mem_singleton.mp new]
    exact kind

/-- Of the tasks, the closure of `start()` is the only one that does something. -/
theorem run {k id : Nat} {task : Task} (found : s.pending[k]? = some (id, task)) :
    task ≠ .doCancel ∧ if task = .start then Built { s with pending := s.pending.eraseIdx k }.build
      else Unbuilt { s with pending := s.pending.eraseIdx k } := by
  obtain ⟨bound, here⟩ := List.getElem?_eq_some_iff.mp found
  have left := (List.getElem_cons_eraseIdx_perm bound).countP_eq (·.2 = Task.start)
  rw [here, List.countP_cons, h.starts] at left
  refine ⟨h.tasks _ (List.mem_of_getElem? found), ?_⟩
  split
  · rename_i kind
    cases started : s.started with
    | false => simp [started, kind] at left
    | true =>
      rw [started, kind] at left
      exact build_built h.frames h.cancelled rfl (Nat.succ.inj left)
  · rename_i kind
    rw [if_neg (by simpa using kind)] at left
    apply h.requeue s.issued s.started _ left
    intro t mem
    exact h.tasks t (List.mem_of_mem_eraseIdx mem)

/-- Nothing but the closure of `start()` changes the phase, and nothing is called. -/
theorem next {s' : CycleTimer} {e : Event} (step : s.exec e = some s') :
    (Unbuilt s' ∨ Built s') ∧ s'.persist = s.persist ∧ s'.expired = 0 ∧ s'.late = s.late ∧
      (s'.marks = s.marks ∨ s.started = true ∧ (e = .cancel ∨ e = .look)) := by
  have starts := h.starts
  have marked : s.returned.marks = s.marks ∨ s.started = true := by
    by_cases started : s.started = true
    · exact .inr started
    · exact .inl (if_neg started)
  cases e with
  | start onLoop =>
    simp only [exec] at step
    split at step
    · cases step
    · rename_i first
      rw [if_neg first] at starts
      cases step
      cases onLoop with
      | true =>
        have built := build_built (s := { s with started := true }) h.frames h.cancelled rfl starts
        exact ⟨.inr built, rfl, h.expired, rfl, .inl rfl⟩
      | false =>
        refine ⟨.inl (h.requeue _ true (h.plain_concat (by decide)) ?_), rfl, h.expired, rfl,
          .inl rfl⟩
        rw [List.countP_append, starts]
        rfl
  | cancel =>
    cases step
    rw [h.held]
    exact ⟨.inl h.returned, rfl, h.expired, rfl, marked.imp_right fun on => ⟨on, .inl rfl⟩⟩
  | look =>
    cases step
    rw [h.held]
    exact ⟨.inl h.returned, rfl, h.expired, rfl, marked.imp_right fun on => ⟨on, .inr rfl⟩⟩
  | push =>
    simp only [exec, h.looked, if_true] at step
    cases step
  | setCancelCallback =>
    cases step
    have same : Unbuilt { s with cancelFn := true } :=
      ⟨h.built, h.held, h.event, h.armed, h.looked, h.frames, h.expired, h.cancelled, h.tasks,
        h.starts⟩
    exact ⟨.inl same, rfl, h.expired, rfl, .inl rfl⟩
  | queueOther =>
    cases step
    refine ⟨.inl (h.requeue _ s.started (h.plain_concat (by decide)) ?_), rfl, h.expired, rfl,
      .inl rfl⟩
    rw [List.countP_append, starts]
    rfl
  | run k =>
    simp only [exec] at step
    split at step
    · cases step
    · rename_i id task found
      obtain ⟨plain, after⟩ := h.run found
      cases step
      cases task with
      | start => exact ⟨.inr after, rfl, h.expired, rfl, .inl rfl⟩
      | doCancel => exact absurd rfl plain
      | other => exact ⟨.inl after, rfl, h.expired, rfl, .inl rfl⟩
  | fire =>
    simp only [exec, h.armed, Bool.false_eq_true, and_false, if_false] at step
    cases step
  | ret =>
    simp only [exec, h.frames] at step
    cases step

end Unbuilt

/-! ## Whole runs -/

def Sound (s : CycleTimer) : Prop := Unbuilt s ∨ Built s

theorem init_unbuilt (expiresFn persist : Bool) : Unbuilt (init expiresFn persist) :=
  ⟨rfl, rfl, rfl, rfl, rfl, rfl, rfl, rfl, nofun, rfl⟩

theorem Sound.next {s s' : CycleTimer} (h : Sound s) {e : Event} (step : s.exec e = some s') :
    Sound s' := by
  obtain unbuilt | built := h
  · exact (unbuilt.next step).1
  · exact .inr (built_next built step).1

/-- Each `cancel()` that returned has left the timer quiet, or a call of `doCancel` to be made. -/
structure Marked (s : CycleTimer) : Prop where
  late : s.late = false
  marks : ∀ mark ∈ s.marks, s.Quiet ∨ ∃ id ∈ mark, (id, .doCancel) ∈ s.pending

theorem Calm.quiet {s s' : CycleTimer} (h : Calm s s') (quiet : s.Quiet) : s'.Quiet := by
  constructor
  · by_contra on
    cases quiet.1.symm.trans (h.persist (eq_true_of_ne_false on))
  · by_contra on
    obtain armed | persist := h.armed (eq_true_of_ne_false on)
    · cases quiet.2.symm.trans armed
    · cases quiet.1.symm.trans persist

theorem Marked.calm {s s' : CycleTimer} (h : Marked s) (step : Calm s s') : Marked s' := by
  refine ⟨step.late.trans h.late, ?_⟩
  intro mark mem
  obtain old | new := step.marks mark mem
  · obtain quiet | ⟨id, inside, waiting⟩ := h.marks mark old
    · exact .inl (step.quiet quiet)
    · obtain still | quiet := step.tasks id waiting
      · exact .inr ⟨id, inside, still⟩
      · exact .inl quiet
  · exact new

/-- A timer that fires is not quiet, so every `cancel()` still waits for its call. -/
theorem Marked.calls {s s' : CycleTimer} (h : Marked s) (step : Calls s s') : Marked s' := by
  have waits : ∀ mark ∈ s.marks, ∃ id ∈ mark, (id, .doCancel) ∈ s.pending := by
    intro mark mem
    obtain quiet | waiting := h.marks mark mem
    · cases quiet.2.symm.trans step.armed
    · exact waiting
  have open' : ¬ s.Settled := by
    rintro ⟨mark, mem, gone⟩
    obtain ⟨id, inside, waiting⟩ := waits mark mem
    exact gone id inside (List.mem_map_of_mem waiting)
  constructor
  · rw [step.late, h.late, decide_eq_false open']
    rfl
  · intro mark mem
    rw [step.marks] at mem
    rw [step.pending]
    exact .inr (waits mark mem)

/-- No `cancel()` looks for the watcher between `start()` and the run of its closure. -/
def Timely (s : CycleTimer) (e : Event) : Prop :=
  e = .cancel ∨ e = .look → s.started = true → s.built = true

instance (s : CycleTimer) (e : Event) : Decidable (Timely s e) :=
  inferInstanceAs (Decidable (_ → _ → _))

theorem timely_next {s s' : CycleTimer}
    (h : Unbuilt s ∧ s.marks = [] ∧ s.late = false ∨ Built s ∧ Marked s) {e : Event}
    (timely : Timely s e) (step : s.exec e = some s') :
    Unbuilt s' ∧ s'.marks = [] ∧ s'.late = false ∨ Built s' ∧ Marked s' := by
  obtain ⟨unbuilt, marks, late⟩ | ⟨built, marked⟩ := h
  · obtain ⟨phase, _, _, late', marks'⟩ := unbuilt.next step
    have none : s'.marks = [] := by
      obtain same | ⟨started, cancels⟩ := marks'
      · exact same.trans marks
      · cases unbuilt.built.symm.trans (timely cancels started)
    obtain unbuilt' | built' := phase
    · exact .inl ⟨unbuilt', none, late'.trans late⟩
    · refine .inr ⟨built', late'.trans late, ?_⟩
      rw [none]
      nofun
  · obtain ⟨built', calm | calls⟩ := built_next built step
    · exact .inr ⟨built', marked.calm calm⟩
    · exact .inr ⟨built', marked.calls calls⟩

/-- A timer that was never persistent. -/
structure Single (s : CycleTimer) : Prop where
  persist : s.persist = false
  armed : s.armed = true → s.expired = 0
  expired : s.expired ≤ 1

theorem single_next {s s' : CycleTimer} (sound : Sound s) (h : Single s) {e : Event}
    (step : s.exec e = some s') : Single s' := by
  obtain unbuilt | built := sound
  · obtain ⟨_, persist, expired, _, _⟩ := unbuilt.next step
    exact ⟨persist.trans h.persist, fun _ => expired, by omega⟩
  · obtain ⟨_, calm | calls⟩ := built_next built step
    · have never : s'.persist = false := by
        by_contra on
        cases h.persist.symm.trans (calm.persist (eq_true_of_ne_false on))
      refine ⟨never, ?_, calm.expired.symm ▸ h.expired⟩
      intro on
      obtain armed | persist := calm.armed on
      · exact calm.expired.trans (h.armed armed)
      · cases h.persist.symm.trans persist
    · have first := h.armed calls.armed
      refine ⟨calls.persist.trans h.persist, ?_, ?_⟩
      · intro on
        cases calls.disarmed.symm.trans on
      · have counted := calls.expired
        omega

/-! ## A `cancel()` that is too early -/

/-- Some steps lead from one state to the other. -/
def Leads : CycleTimer → CycleTimer → Prop :=
  Relation.ReflTransGen fun s s' => ∃ e, s.exec e = some s'

/-- The loop runs all of the queue, in order. -/
theorem drain_queue {s : CycleTimer} (tasks : ∀ task ∈ s.pending, task.2 ≠ .doCancel) :
    ∃ s', Leads s s' ∧ s'.pending = [] ∧ s'.frames = s.frames ∧ s'.marks = s.marks ∧
      s'.expiresFn = s.expiresFn ∧
      (s.armed = true ∨ (∃ task ∈ s.pending, task.2 = .start) → s'.armed = true) := by
  generalize list : s.pending = l at tasks
  induction l generalizing s with
  | nil => exact ⟨s, .refl, list, rfl, rfl, rfl, fun armed => armed.elim id (by simp)⟩
  | cons task l ih =>
    have first : s.exec (.run 0) = some ({ s with pending := l }.runTask task.2) := by
      simp only [exec, list, List.getElem?_cons_zero, List.eraseIdx_cons_zero]
    have plain := fun t mem => tasks t (List.mem_cons_of_mem task mem)
    obtain ⟨id, kind⟩ := task
    cases kind with
    | start =>
      obtain ⟨s', leads, rest⟩ := @ih { s with pending := l }.build rfl plain
      refine ⟨s', .head ⟨_, first⟩ leads, rest.1, rest.2.1, rest.2.2.1, rest.2.2.2.1, ?_⟩
      exact fun _ => rest.2.2.2.2 (.inl rfl)
    | doCancel => exact absurd rfl (tasks _ List.mem_cons_self)
    | other =>
      obtain ⟨s', leads, rest⟩ := @ih { s with pending := l } rfl plain
      refine ⟨s', .head ⟨_, first⟩ leads, rest.1, rest.2.1, rest.2.2.1, rest.2.2.2.1, ?_⟩
      rintro (armed | ⟨task, mem, kind⟩)
      · exact rest.2.2.2.2 (.inl armed)
      · obtain rfl | later := List.mem_cons.mp mem
        · cases kind
        · exact rest.2.2.2.2 (.inr ⟨task, later, kind⟩)

/-- Such a `cancel()` finds no watcher. The loop runs all that is queued, and the timer fires. -/
theorem early_cancel_lost {s : CycleTimer} (h : Unbuilt s) (started : s.started = true)
    (some : s.expiresFn = true) :
    ∃ s' s'', s.exec .look = .some s' ∧ Leads s' s'' ∧ s''.late = true := by
  have look : s.exec .look = .some s.returned := by
    simp only [exec, h.held]
    rfl
  obtain ⟨s', leads, empty, frames, marks, expires, armed⟩ := drain_queue h.returned.tasks
  have closure : ∃ task ∈ s.pending, task.2 = .start := by
    have count := h.starts
    rw [if_pos started] at count
    obtain ⟨task, mem, kind⟩ := List.countP_pos_iff.mp (Nat.lt_of_lt_of_eq Nat.one_pos count.symm)
    exact ⟨task, mem, of_decide_eq_true kind⟩
  have settled : s'.Settled := by
    refine ⟨s.queued, ?_, ?_⟩
    · rw [marks, returned, if_pos started]
      exact List.mem_cons_self
    · intro id _
      rw [queued, empty]
      nofun
  have free : s'.frames = [] := frames.trans h.frames
  have fire : s'.exec .fire = s'.trigger := if_pos ⟨free, armed (.inr closure)⟩
  have called : s'.expiresFn = true := expires.trans some
  refine ⟨_, _, look, leads.tail ⟨.fire, fire.trans (if_pos called)⟩, ?_⟩
  have late : decide { s' with armed := false }.Settled = true := decide_eq_true settled
  rw [late]
  exact Bool.or_true _

end CycleTimer

open CycleTimer

/-- **Cancelled timers stay silent**, if no `cancel()` overtakes the closure of `start()`; and in
every run `cancel_fn_` is called at most once, and `expires_fn_` of a one-shot timer too. -/
theorem cancelled_silent (expiresFn persist : Bool) :
    (∀ s, ((cycleTimer expiresFn persist).restrict Timely).Reachable s → s.late = false) ∧
    (∀ s, (cycleTimer expiresFn persist).Reachable s →
      s.cancelled ≤ 1 ∧ (persist = false → s.expired ≤ 1)) := by
  constructor
  · intro s h
    have inv : Unbuilt s ∧ s.marks = [] ∧ s.late = false ∨ Built s ∧ Marked s := by
      apply System.invariant _ _ _ h
      · rintro s rfl
        exact .inl ⟨init_unbuilt expiresFn persist, rfl, rfl⟩
      · rintro s e s' inv ⟨timely, step⟩
        exact timely_next inv timely step
    obtain ⟨_, _, late⟩ | ⟨_, marked⟩ := inv
    · exact late
    · exact marked.late
  · intro s h
    have inv : Sound s ∧ (persist = false → Single s) := by
      apply System.invariant _ _ _ h
      · rintro s rfl
        exact ⟨.inl (init_unbuilt expiresFn persist), fun once => ⟨once, nofun, Nat.zero_le 1⟩⟩
      · rintro s e s' ⟨sound, single⟩ step
        exact ⟨sound.next step, fun once => single_next sound (single once) step⟩
    refine ⟨?_, fun once => (inv.2 once).expired⟩
    obtain unbuilt | built := inv.1
    · rw [unbuilt.cancelled]
      exact Nat.zero_le 1
    · exact built.once.1

/-- A persistent timer fires, is cancelled by another thread, and the loop runs the queue. -/
theorem cancelled_silent_persistent : ∃ s : CycleTimer,
    ((cycleTimer true true).restrict Timely).Reachable s ∧ s.Settled ∧ s.expired = 1 ∧
    s.late = false := by
  let exec (s : CycleTimer) (e : Event) := if Timely s e then s.exec e else none
  have sound : ∀ s e t, exec s e = some t →
      ((cycleTimer true true).restrict Timely).step s e t := by
    intro s e t step
    obtain ⟨timely, step⟩ := Option.ite_none_right_eq_some.mp step
    exact ⟨timely, step⟩
  have run := (System.Reachable.start (M := (cycleTimer true true).restrict Timely) rfl).replay
    sound (rfl : [.start false, .run 0, .fire, .ret, .look, .push, .run 0].foldlM exec
      (.init true true) = some _)
  exact ⟨_, run, by decide, by decide, (cancelled_silent true true).1 _ run⟩

/-- A one-shot timer: `start()` and then `cancel()` on another thread, before the loop runs. -/
theorem cancel_overtakes_start : ∃ s : CycleTimer,
    (cycleTimer true false).Reachable s ∧ s.late = true := by
  have run := (System.Reachable.start (M := cycleTimer true false) rfl).replay
    (fun _ _ _ step => step)
    (rfl : [.start false, .look, .run 0, .fire].foldlM CycleTimer.exec (.init true false) = some _)
  exact ⟨_, run, by decide⟩

end Libatp.Timer
