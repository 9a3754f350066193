import Libatp.Base.Checked
import Libatp.Base.Progress
import Libatp.Timer.Silence

/-!
# How long a timer lives

A timer owns itself through `self_` from `newCycleTimer` on, until `onTrigger` or `onCancel`
has finished with it. The two functions that are bound to it belong to its watcher, and own
it as long as there is one. The application may have handles; without one it does not call
the timer, but the loop does.
-/

namespace Libatp.Timer
open Base

namespace CycleTimer

/-- There is a watcher: it is the timer's, or a call of `doCancel` keeps it. -/
def Watched (s : CycleTimer) : Prop := s.held = true ∨ s.Shared

instance (s : CycleTimer) : Decidable s.Watched := inferInstanceAs (Decidable (_ ∨ _))

/-- `doCancel` comes to the end of `onCancel` at once. -/
def cancels (s : CycleTimer) : Bool := s.event && !s.cancelFn

/-- The event takes `onTrigger` or `onCancel` to `self_.reset()`. -/
def releases (s : CycleTimer) : Event → Bool
  | .cancel => s.held && s.cancels
  | .run k =>
    match s.pending[k]? with
    | some (_, .doCancel) => s.cancels
    | _ => false
  | .fire => !s.expiresFn && !s.persist
  | .ret =>
    match s.frames with
    | [] => false
    | .expires :: _ => !s.persist
    | .cancels _ :: _ => true
  | _ => false

/-- The event runs a member function of the timer, or lets one go on. -/
def uses (s : CycleTimer) : Event → Bool
  | .start _ | .cancel | .look | .setCancelCallback | .fire | .ret => true
  | .push | .queueOther => false
  | .run k =>
    match s.pending[k]? with
    | some (_, .start) => true
    | some (_, .doCancel) => s.event
    | _ => false

/-- Whether the event can come next: `start` is called at most once. -/
def Enabled (s : CycleTimer) : Event → Prop
  | .start _ => s.started = false
  | .push => 0 < s.looked
  | .run k => k < s.pending.length
  | .fire => s.frames = [] ∧ s.armed = true
  | .ret => s.frames ≠ []
  | .cancel | .look | .setCancelCallback | .queueOther => True

instance (s : CycleTimer) : (e : Event) → Decidable (s.Enabled e)
  | .start _ => inferInstanceAs (Decidable (_ = _))
  | .push | .run _ => inferInstanceAs (Decidable (_ < _))
  | .fire => inferInstanceAs (Decidable (_ ∧ _))
  | .ret => inferInstanceAs (Decidable (_ ≠ _))
  | .cancel | .look | .setCancelCallback | .queueOther => .isTrue trivial

end CycleTimer

/-- The application calls the timer. -/
def Event.called : Event → Bool
  | .start _ | .cancel | .look | .setCancelCallback => true
  | _ => false

/-- `itself` is whether `self_` is set. -/
structure Lifetime where
  timer : CycleTimer
  handles : Nat
  itself : Bool
  deriving DecidableEq, Repr

inductive LifeEvent where
  | step (e : Event)
  /-- a handle is copied, or a weak one is locked -/
  | acquire
  | drop
  deriving DecidableEq, Repr

namespace Lifetime

/-- `newCycleTimer` -/
def create (expiresFn persist : Bool) : Lifetime := ⟨.init expiresFn persist, 1, true⟩

/-- The timer has not been destroyed. -/
def Alive (s : Lifetime) : Prop := 0 < s.handles ∨ s.itself = true ∨ s.timer.Watched

instance (s : Lifetime) : Decidable s.Alive := inferInstanceAs (Decidable (_ ∨ _))

def Possible (s : Lifetime) : LifeEvent → Prop
  | .step e => (e.called = true → 0 < s.handles) ∧ s.timer.Enabled e
  | .acquire => s.Alive
  | .drop => 0 < s.handles

instance (s : Lifetime) : (e : LifeEvent) → Decidable (s.Possible e)
  | .step _ => inferInstanceAs (Decidable (_ ∧ _))
  | .acquire => inferInstanceAs (Decidable s.Alive)
  | .drop => inferInstanceAs (Decidable (_ < _))

def exec (s : Lifetime) : LifeEvent → Checked Lifetime
  | .step e =>
    if s.timer.uses e = true ∧ ¬ s.Alive then .error .outOfBounds
    else
      match s.timer.exec e with
      -- `asyncWait` of no watcher, or of one without an event
      | none => .error .nullPointer
      | some timer => .ok ⟨timer, s.handles, s.itself && !s.timer.releases e⟩
  | .acquire => .ok { s with handles := s.handles + 1 }
  | .drop => .ok { s with handles := s.handles - 1 }

end Lifetime

def lifetime (expiresFn persist : Bool) : System Lifetime LifeEvent where
  start s := s = .create expiresFn persist
  step s e s' := s.Possible e ∧ s.exec e = .ok s'

/-! ## What a step does to the watcher -/

namespace CycleTimer

variable {s s' : CycleTimer} {e : Event}

/-- The event is armed, or `expires_fn_` is being called. -/
def Running (s : CycleTimer) : Prop := s.armed = true ∨ .expires ∈ s.frames

/-- A step that leaves `timer_watcher_` alone. If the event is there afterwards, nobody who
shares the watcher has gone, and it is still waited for. -/
structure Keeps (s : CycleTimer) (released : Bool) (s' : CycleTimer) : Prop where
  released : released = false
  held : s'.held = s.held
  built : s'.built = s.built
  event : s'.event = true → s.event = true ∧ (s.Shared → s'.Shared) ∧ (s.Running → s'.Running)

/-- The closure of `start()` makes the watcher. -/
structure Makes (s : CycleTimer) (released : Bool) (s' : CycleTimer) : Prop where
  released : released = false
  first : s.built = false
  held : s'.held = true
  event : s'.event = true
  armed : s'.armed = true

/-- The timer has come to its end. -/
structure Ends (released : Bool) (s' : CycleTimer) : Prop where
  released : released = true
  held : s'.held = false
  built : s'.built = true
  event : s'.event = true → s'.Shared

/-- What a step can do to the watcher. -/
def Moves (s : CycleTimer) (released : Bool) (s' : CycleTimer) : Prop :=
  Keeps s released s' ∨ Makes s released s' ∨ Ends released s'

theorem reset_ends (built : s.built = true) : Ends true s.reset := by
  unfold reset
  split
  · rename_i shared
    exact ⟨rfl, rfl, built, fun _ => shared⟩
  · exact ⟨rfl, rfl, built, nofun⟩

theorem endCancel_ends (built : s.built = true) (inline : Bool) :
    Ends true (s.endCancel inline) := by
  have ends : Ends true { s with cancelFn := false, expiresFn := false }.reset :=
    reset_ends built
  cases inline with
  | false => exact ends
  | true => exact ⟨ends.released, ends.held, ends.built, ends.event⟩

/-- After `doCancel` the watcher has no event, whoever had a share in it before. -/
theorem doCancel_moves (old : CycleTimer) (held : s.held = old.held) (same : s.built = old.built)
    (built : s.built = true) (inline : Bool) : Moves old s.cancels (s.doCancel inline) := by
  unfold doCancel
  split
  · rename_i detached
    left
    rw [cancels, detached]
    cases inline <;> exact ⟨rfl, held, same, fun on => by cases detached.symm.trans on⟩
  · rename_i attached
    dsimp only
    split
    · rename_i callback
      have later : s.cancels = false := by rw [cancels, callback, Bool.not_true, Bool.and_false]
      exact .inl ⟨later, held, same, nofun⟩
    · rename_i silent
      have now : s.cancels = true := by
        rw [cancels, eq_true_of_ne_false attached, eq_false_of_ne_true silent]
        rfl
      rw [now]
      exact .inr (.inr (endCancel_ends
        (s := { s with event := false, armed := false, persist := false }) built inline))

theorem endTrigger_moves (old : CycleTimer) (held : s.held = old.held)
    (same : s.built = old.built) (event : s.event = old.event) (shared : old.Shared → s.Shared)
    (built : s.built = true) (step : s.endTrigger = some s') : Moves old (!s.persist) s' := by
  unfold endTrigger at step
  split at step
  · rename_i persist
    split at step
    · cases step
      rw [persist]
      exact .inl ⟨rfl, held, same, fun on => ⟨event.symm.trans on, shared, fun _ => .inl rfl⟩⟩
    · cases step
  · rename_i single
    cases step
    rw [eq_false_of_ne_true single]
    exact .inr (.inr (reset_ends built))

theorem trigger_moves (free : s.frames = []) (built : s.built = true)
    (step : s.trigger = some s') : Moves s (s.releases .fire) s' := by
  unfold trigger at step
  dsimp only at step
  split at step
  · rename_i callback
    cases step
    have later : s.releases .fire = false := by rw [releases, callback]; rfl
    refine .inl ⟨later, rfl, rfl, fun on => ⟨on, ?_, fun _ => .inr (List.mem_singleton_self _)⟩⟩
    rintro (looking | queued | ⟨frame, mem, _⟩)
    · exact .inl looking
    · exact .inr (.inl queued)
    · rw [free] at mem
      cases mem
  · rename_i silent
    have now : s.releases .fire = !s.persist := by
      rw [releases, eq_false_of_ne_true silent]
      rfl
    rw [now]
    exact endTrigger_moves s (s := { s with armed := false }) rfl rfl rfl id built step

/-- More tasks take no share away. -/
theorem Shared.of_tasks (tasks : ∀ task ∈ s.pending, task.2 = .doCancel → task ∈ s'.pending)
    (looked : s.looked ≤ s'.looked) (frames : s'.frames = s.frames) (h : s.Shared) :
    s'.Shared := by
  rcases h with looking | ⟨task, mem, kind⟩ | framed
  · exact .inl (Nat.lt_of_lt_of_le looking looked)
  · exact .inr (.inl ⟨task, tasks task mem kind, kind⟩)
  · exact .inr (.inr (frames ▸ framed))

theorem run_moves (sound : s.Sound) {k n : Nat} {task : Task}
    (found : s.pending[k]? = some (n, task)) :
    Moves s (s.releases (.run k)) ({ s with pending := s.pending.eraseIdx k }.runTask task) := by
  cases task with
  | start =>
    have later : s.releases (.run k) = false := by rw [releases, found]
    have first : s.built = false := by
      rcases sound with unbuilt | built
      · exact unbuilt.built
      · exact absurd rfl (built.tasks _ (List.mem_of_getElem? found))
    exact .inr (.inl ⟨later, first, rfl, rfl, rfl⟩)
  | doCancel =>
    have now : s.releases (.run k) = s.cancels := by rw [releases, found]
    have built : s.built = true := by
      rcases sound with unbuilt | built
      · exact absurd rfl (unbuilt.tasks _ (List.mem_of_getElem? found))
      · exact built.built
    rw [now]
    exact doCancel_moves s (s := { s with pending := s.pending.eraseIdx k }) rfl rfl built false
  | other =>
    have later : s.releases (.run k) = false := by rw [releases, found]
    refine .inl ⟨later, rfl, rfl, fun on => ⟨on, fun shared => ?_, id⟩⟩
    refine Shared.of_tasks (s := s) (fun task mem kind => ?_) (Nat.le_refl _) rfl shared
    exact task_kept found (by rw [kind]; decide) mem

theorem ret_moves (sound : s.Sound) (step : s.exec .ret = some s') :
    Moves s (s.releases .ret) s' := by
  have built : s.frames ≠ [] → s.built = true := by
    rcases sound with unbuilt | built
    · exact fun some => absurd unbuilt.frames some
    · exact fun _ => built.built
  simp only [exec] at step
  split at step
  · cases step
  · rename_i frames top
    have now : s.releases .ret = !s.persist := by rw [releases, top]
    rw [now]
    refine endTrigger_moves s (s := { s with frames := frames }) rfl rfl rfl ?_
      (built (by rw [top]; exact List.cons_ne_nil _ _)) step
    rintro (looking | queued | ⟨frame, mem, kind⟩)
    · exact .inl looking
    · exact .inr (.inl queued)
    · rw [top] at mem
      exact .inr (.inr ⟨frame, List.mem_of_ne_of_mem kind mem, kind⟩)
  · rename_i inline frames top
    have now : s.releases .ret = true := by rw [releases, top]
    cases step
    rw [now]
    exact .inr (.inr (endCancel_ends (s := { s with frames := frames })
      (built (by rw [top]; exact List.cons_ne_nil _ _)) inline))

/-- Every step keeps the watcher, makes it, or ends it. -/
theorem exec_moves (sound : s.Sound) (step : s.exec e = some s') :
    Moves s (s.releases e) s' := by
  cases e with
  | start onLoop =>
    simp only [exec] at step
    split at step
    · cases step
    · rename_i fresh
      cases step
      cases onLoop with
      | true =>
        have first : s.built = false := by
          rcases sound with unbuilt | built
          · exact unbuilt.built
          · exact absurd built.started fresh
        exact .inr (.inl ⟨rfl, first, rfl, rfl, rfl⟩)
      | false =>
        exact .inl ⟨rfl, rfl, rfl, fun on => ⟨on, .of_tasks
          (fun _ mem _ => List.mem_append_left _ mem) (Nat.le_refl _) rfl, id⟩⟩
  | cancel =>
    cases step
    split
    · rename_i held
      have built : s.built = true := by
        rcases sound with unbuilt | built
        · cases unbuilt.held.symm.trans held
        · exact built.built
      have now : s.releases .cancel = s.cancels := by rw [releases, held, Bool.true_and]
      rw [now]
      exact doCancel_moves s rfl rfl built true
    · rename_i none
      have later : s.releases .cancel = false := by
        rw [releases, eq_false_of_ne_true none, Bool.false_and]
      exact .inl ⟨later, rfl, rfl, fun on => ⟨on, id, id⟩⟩
  | look =>
    cases step
    split
    · exact .inl ⟨rfl, rfl, rfl, fun on => ⟨on, .of_tasks (fun _ mem _ => mem)
        (Nat.le_succ _) rfl, id⟩⟩
    · exact .inl ⟨rfl, rfl, rfl, fun on => ⟨on, id, id⟩⟩
  | push =>
    simp only [exec] at step
    split at step
    · cases step
    · cases step
      have queued : ∃ task ∈ s.pending ++ [(s.issued, Task.doCancel)], task.2 = .doCancel :=
        ⟨_, List.mem_append_right _ (List.mem_singleton_self _), rfl⟩
      exact .inl ⟨rfl, rfl, rfl, fun on => ⟨on, fun _ => .inr (.inl queued), id⟩⟩
  | setCancelCallback =>
    cases step
    exact .inl ⟨rfl, rfl, rfl, fun on => ⟨on, id, id⟩⟩
  | queueOther =>
    cases step
    exact .inl ⟨rfl, rfl, rfl, fun on => ⟨on, .of_tasks
      (fun _ mem _ => List.mem_append_left _ mem) (Nat.le_refl _) rfl, id⟩⟩
  | run k =>
    simp only [exec] at step
    split at step
    · cases step
    · rename_i id task found
      cases step
      exact run_moves sound found
  | fire =>
    simp only [exec] at step
    split at step
    · rename_i due
      have built : s.built = true := by
        rcases sound with unbuilt | built
        · cases unbuilt.armed.symm.trans due.2
        · exact built.built
      exact trigger_moves due.1 built step
    · cases step
  | ret => exact ret_moves sound step

/-- What can come next does: in particular `asyncWait` finds the watcher and its event. -/
theorem exec_enabled (sound : s.Sound) (enabled : s.Enabled e) : ∃ s', s.exec e = some s' := by
  cases e with
  | start onLoop =>
    have fresh : s.started = false := enabled
    exact ⟨_, if_neg (by rw [fresh]; decide)⟩
  | cancel | look | setCancelCallback | queueOther => exact ⟨_, rfl⟩
  | push => exact ⟨_, if_neg (Nat.ne_of_gt enabled)⟩
  | run k =>
    simp only [exec, List.getElem?_eq_getElem enabled]
    exact ⟨_, rfl⟩
  | fire =>
    rcases sound with unbuilt | built
    · cases unbuilt.armed.symm.trans enabled.2
    · obtain ⟨s', done, _⟩ := built.trigger enabled.1
      exact ⟨s', (if_pos enabled).trans done⟩
  | ret =>
    rcases sound with unbuilt | built
    · exact absurd unbuilt.frames enabled
    · cases top : s.frames with
      | nil => exact absurd top enabled
      | cons frame frames =>
        simp only [exec, top]
        cases frame with
        | cancels inline => exact ⟨_, rfl⟩
        | expires =>
          have solo := built.solo
          rw [top, List.count_cons_self] at solo
          have unarmed : s.armed = false := by
            cases armed : s.armed with
            | false => rfl
            | true =>
              rw [armed, Bool.toNat_true] at solo
              omega
          have last : frames.count .expires = 0 := by omega
          obtain ⟨s', done, _⟩ := (built.pop top).endTrigger last unarmed
          exact ⟨s', done⟩

end CycleTimer

/-! ## Who keeps the timer -/

namespace Lifetime

variable {s s' : Lifetime} {expiresFn persist : Bool}

structure Kept (s : Lifetime) : Prop where
  sound : s.timer.Sound
  watched : s.timer.event = true → s.timer.Watched
  /-- `self_` and `timer_watcher_` are reset together -/
  itself : s.itself = (s.timer.held || !s.timer.built)
  running : s.timer.held = true → s.timer.event = true → s.timer.Running

theorem create_kept : Kept (create expiresFn persist) :=
  ⟨.inl (CycleTimer.init_unbuilt expiresFn persist), nofun, rfl, nofun⟩

theorem Kept.moves (h : Kept s) {timer : CycleTimer} {released : Bool} (sound : timer.Sound)
    (moves : s.timer.Moves released timer) :
    Kept ⟨timer, s.handles, s.itself && !released⟩ := by
  rcases moves with keeps | makes | ends
  · refine ⟨sound, fun on => ?_, ?_, fun held on => ?_⟩
    · obtain ⟨before, shared, _⟩ := keeps.event on
      exact (h.watched before).imp keeps.held.trans shared
    · show (s.itself && !released) = (timer.held || !timer.built)
      rw [keeps.released, Bool.not_false, Bool.and_true, h.itself, keeps.held, keeps.built]
    · obtain ⟨before, _, running⟩ := keeps.event on
      exact running (h.running (keeps.held.symm.trans held) before)
  · refine ⟨sound, fun _ => .inl makes.held, ?_, fun _ _ => .inl makes.armed⟩
    show (s.itself && !released) = (timer.held || !timer.built)
    rw [makes.released, makes.held, h.itself, makes.first, Bool.not_false, Bool.or_true]
    rfl
  · refine ⟨sound, fun on => .inr (ends.event on), ?_, fun held => ?_⟩
    · show (s.itself && !released) = (timer.held || !timer.built)
      rw [ends.released, ends.held, ends.built, Bool.not_true, Bool.and_false, Bool.or_self]
    · cases ends.held.symm.trans held

theorem exec_step {e : Event} (h : s.exec (.step e) = .ok s') :
    ¬ (s.timer.uses e = true ∧ ¬ s.Alive) ∧ ∃ timer, s.timer.exec e = some timer ∧
      s' = ⟨timer, s.handles, s.itself && !s.timer.releases e⟩ := by
  simp only [exec] at h
  split at h
  · cases h
  · rename_i fine
    split at h
    · cases h
    · rename_i timer done
      cases h
      exact ⟨fine, timer, done, rfl⟩

theorem Kept.next (h : Kept s) {e : LifeEvent} (step : s.exec e = .ok s') : Kept s' := by
  cases e with
  | step e =>
    obtain ⟨_, timer, done, rfl⟩ := exec_step step
    exact h.moves (h.sound.next done) (CycleTimer.exec_moves h.sound done)
  | acquire | drop =>
    cases step
    exact ⟨h.sound, h.watched, h.itself, h.running⟩

theorem reachable_kept (h : (lifetime expiresFn persist).Reachable s) : Kept s := by
  refine System.invariant _ ?_ (fun s e s' hs step => hs.next step.2) h
  rintro s rfl
  exact create_kept

/-- Everything but the end of `onTrigger` is done to a timer that somebody keeps. -/
theorem Kept.alive_of_uses (h : Kept s) {e : Event} (possible : s.Possible (.step e))
    (uses : s.timer.uses e = true) :
    s.Alive ∨ e = .ret ∧ s.timer.frames.head? = some .expires := by
  obtain ⟨called, enabled⟩ := possible
  cases e with
  | start | cancel | look | setCancelCallback => exact .inl (.inl (called rfl))
  | push | queueOther => cases uses
  | run k =>
    left
    simp only [CycleTimer.uses] at uses
    split at uses
    · rename_i found
      refine .inr (.inl ?_)
      rw [h.itself]
      rcases h.sound with unbuilt | built
      · rw [unbuilt.built, Bool.not_false, Bool.or_true]
      · exact absurd rfl (built.tasks _ (List.mem_of_getElem? found))
    · rename_i found
      exact .inr (.inr (.inr (.inr (.inl ⟨_, List.mem_of_getElem? found, rfl⟩))))
    · cases uses
  | fire =>
    left
    refine .inr (.inr (h.watched ?_))
    rcases h.sound with unbuilt | built
    · cases unbuilt.armed.symm.trans enabled.2
    · by_contra detached
      cases enabled.2.symm.trans (built.quiet (.inr (eq_false_of_ne_true detached))).2
  | ret =>
    cases top : s.timer.frames with
    | nil => exact absurd top enabled
    | cons frame frames =>
      cases frame with
      | expires => exact .inr ⟨rfl, rfl⟩
      | cancels inline =>
        have framed : ∃ frame ∈ s.timer.frames, frame ≠ .expires :=
          ⟨_, top ▸ List.mem_cons_self, by cases inline <;> decide⟩
        exact .inl (.inr (.inr (.inr (.inr (.inr framed)))))

theorem not_alive_iff : ¬ s.Alive ↔
    s.handles = 0 ∧ s.itself = false ∧ s.timer.held = false ∧ ¬ s.timer.Shared := by
  simp only [Alive, CycleTimer.Watched, not_or, Bool.not_eq_true, Nat.not_lt, Nat.le_zero]

/-- Nothing makes a destroyed timer live again. -/
theorem stays_destroyed {e : LifeEvent} (possible : s.Possible e) (step : s.exec e = .ok s')
    (alive : s'.Alive) : s.Alive := by
  cases e with
  | acquire => exact possible
  | drop => exact .inl possible
  | step e =>
    obtain ⟨fine, timer, done, rfl⟩ := exec_step step
    by_contra dead
    have unused : s.timer.uses e = false := eq_false_of_ne_true fun used => fine ⟨used, dead⟩
    obtain ⟨handles, itself, held, alone⟩ := not_alive_iff.mp dead
    have gone (same : timer.held = s.timer.held) (shared : timer.Shared → s.timer.Shared) :
        False := by
      rcases alive with handle | own | watched | later
      · exact absurd handles (Nat.ne_of_gt handle)
      · rw [itself] at own
        cases own
      · cases held.symm.trans (same.symm.trans watched)
      · exact alone (shared later)
    cases e with
    | start | cancel | look | setCancelCallback | fire | ret => cases unused
    | push => exact alone (.inl possible.2)
    | queueOther =>
      cases done
      refine gone rfl (CycleTimer.Shared.of_tasks (fun task mem kind => ?_) (Nat.le_refl _) rfl)
      rcases List.mem_append.mp mem with old | new
      · exact old
      · rw [List.mem_singleton.mp new] at kind
        cases kind
    | run k =>
      simp only [CycleTimer.exec] at done
      split at done
      · cases done
      · rename_i n task found
        cases done
        cases task with
        | start =>
          simp only [CycleTimer.uses, found] at unused
          cases unused
        | doCancel => exact alone (.inr (.inl ⟨_, List.mem_of_getElem? found, rfl⟩))
        | other =>
          exact gone rfl (CycleTimer.Shared.of_tasks
            (fun task mem _ => List.mem_of_mem_eraseIdx mem) (Nat.le_refl _) rfl)

/-- **When a destroyed timer is used.** The loop touches a destroyed timer in one case only:
`expires_fn_` returns after the timer was cancelled in it, the last handle was dropped, and no
other `doCancel` is to be made. Nothing else fails, and a destroyed timer stays so. -/
theorem timer_used_destroyed_iff (h : (lifetime expiresFn persist).Reachable s) {e : LifeEvent}
    (possible : s.Possible e) :
    ((∃ fault, s.exec e = .error fault) ↔ e = .step .ret ∧
      s.timer.frames.head? = some .expires ∧ s.handles = 0 ∧ s.timer.held = false ∧
        ¬ s.timer.Shared) ∧
    ∀ s', s.exec e = .ok s' → s'.Alive → s.Alive := by
  have hs := reachable_kept h
  refine ⟨⟨?_, ?_⟩, fun s' step => stays_destroyed possible step⟩
  · rintro ⟨fault, failed⟩
    cases e with
    | acquire | drop => cases failed
    | step e =>
      obtain ⟨timer, done⟩ := CycleTimer.exec_enabled hs.sound possible.2
      simp only [exec, done] at failed
      split at failed
      · rename_i destroyed
        obtain ⟨handles, _, held, alone⟩ := not_alive_iff.mp destroyed.2
        obtain alive | ⟨rfl, top⟩ := hs.alive_of_uses possible destroyed.1
        · exact absurd alive destroyed.2
        · exact ⟨rfl, top, handles, held, alone⟩
      · cases failed
  · rintro ⟨rfl, top, handles, held, alone⟩
    have built : s.timer.built = true := by
      rcases hs.sound with unbuilt | built
      · rw [unbuilt.frames] at top
        cases top
      · exact built.built
    have itself : s.itself = false := by rw [hs.itself, held, built]; rfl
    have dead : ¬ s.Alive := not_alive_iff.mpr ⟨handles, itself, held, alone⟩
    exact ⟨_, if_pos ⟨rfl, dead⟩⟩

def attempt (s : Lifetime) (e : LifeEvent) : Checked Lifetime :=
  if s.Possible e then s.exec e else .error .ruledOut

theorem reachable_of_events (expiresFn persist : Bool) (events : List LifeEvent)
    (run : events.foldlM attempt (create expiresFn persist) = .ok s) :
    (lifetime expiresFn persist).Reachable s := by
  refine System.Reachable.compute (fun s e s' step => ?_) (.start rfl) run
  unfold attempt at step
  split at step
  · rename_i possible
    exact ⟨possible, step⟩
  · cases step

/-- A handle is dropped in the callback, after `cancel()`. -/
theorem timer_used_destroyed_cancelled : ∃ s : Lifetime, (lifetime true true).Reachable s ∧
    s.Possible (.step .ret) ∧ s.timer.expired = 1 ∧
    ∃ fault, s.exec (.step .ret) = .error fault := by
  have run := reachable_of_events true true
    [.step (.start true), .step .fire, .step .cancel, .drop] rfl
  exact ⟨_, run, by decide, rfl,
    (timer_used_destroyed_iff run (by decide)).1.mpr ⟨rfl, rfl, rfl, rfl, by decide⟩⟩

/-- **A timer needs no handle.** Until it is cancelled, a persistent timer keeps itself, and so
does every timer that the loop has not started yet; and once the loop has started it, a
persistent timer is armed or in its callback. -/
theorem timer_keeps_running (h : (lifetime expiresFn persist).Reachable s)
    (uncancelled : s.timer.built = false ∨ s.timer.persist = true) :
    s.itself = true ∧ (s.timer.built = true → s.timer.Running) := by
  have hs := reachable_kept h
  rcases hs.sound with unbuilt | built
  · constructor
    · rw [hs.itself, unbuilt.built, Bool.not_false, Bool.or_true]
    · intro done
      cases unbuilt.built.symm.trans done
  · have persist : s.timer.persist = true := by
      rcases uncancelled with unbuilt | persist
      · cases unbuilt.symm.trans built.built
      · exact persist
    have loud : ¬ (s.timer.held = false ∨ s.timer.event = false) := fun none => by
      cases persist.symm.trans (built.quiet none).1
    have held : s.timer.held = true := eq_true_of_ne_false fun none => loud (.inl none)
    have event : s.timer.event = true := eq_true_of_ne_false fun none => loud (.inr none)
    exact ⟨by rw [hs.itself, held, Bool.true_or], fun _ => hs.running held event⟩

/-- A persistent timer without a handle. -/
theorem timer_keeps_running_dropped : ∃ s : Lifetime, (lifetime true true).Reachable s ∧
    s.handles = 0 ∧ s.timer.built = true ∧ s.itself = true ∧
    (s.timer.built = true → s.timer.Running) := by
  have run := reachable_of_events true true
    [.step (.start true), .drop] rfl
  exact ⟨_, run, rfl, rfl, timer_keeps_running run (.inr rfl)⟩

end Lifetime

end Libatp.Timer
