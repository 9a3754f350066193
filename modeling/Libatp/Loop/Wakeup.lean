import Libatp.Loop.EventLoop

/-!
# No queued task is left without a wake-up

`notified_` is tested and set outside the lock and cleared inside it, so several
threads can be between the test and the write at once. Two facts hold all the
same: a set flag means that a wake-up is under way, and a task in the queue means
that the flag is set or that a thread has yet to look at it.
-/

namespace Libatp.Loop
open Base

variable {Thread : Type} [DecidableEq Thread]

/-- A thread that pushed its task and has not yet seen or set the flag. -/
def Producer.undecided : Producer → Bool
  | .pushed | .counted | .unnotified => true
  | .idle | .notifying => false

/-- The loop has read the eventfd and not yet taken the queue. -/
def EventLoop.taking (s : EventLoop Thread) : Prop := s.stack = [.entered]

structure Awake (s : EventLoop Thread) : Prop where
  flag : s.notified = true → 0 < s.eventfd ∨ s.taking ∨ ∃ t, s.producer t = .notifying
  queued : s.queue ≠ [] → s.notified = true ∨ ∃ t, (s.producer t).undecided = true

theorem notifying_kept {s : EventLoop Thread} {t : Thread} {p : Producer}
    (here : s.producer t ≠ .notifying) (h : ∃ u, s.producer u = .notifying) :
    ∃ u, (s.at t p).producer u = .notifying := by
  obtain ⟨u, hu⟩ := h
  have other : u ≠ t := by
    intro same
    rw [same] at hu
    exact here hu
  exact ⟨u, by simp [EventLoop.at, Function.update_of_ne other, hu]⟩

theorem undecided_kept {s : EventLoop Thread} {t : Thread} {p : Producer}
    (here : (s.producer t).undecided = true → p.undecided = true)
    (h : ∃ u, (s.producer u).undecided = true) :
    ∃ u, ((s.at t p).producer u).undecided = true := by
  obtain ⟨u, hu⟩ := h
  by_cases same : u = t
  · rw [same] at hu
    exact ⟨t, by simpa [EventLoop.at] using here hu⟩
  · exact ⟨u, by simpa [EventLoop.at, Function.update_of_ne same] using hu⟩

theorem producer_at (s : EventLoop Thread) (t : Thread) (p : Producer) :
    (s.at t p).producer t = p := by
  simp [EventLoop.at]

/-- A step of a foreign thread that is not at its write keeps the reason why the
flag is set. -/
theorem flag_kept {s : EventLoop Thread} {t : Thread} {p : Producer} (hs : Awake s)
    (here : s.producer t ≠ .notifying) (set : s.notified = true) :
    0 < s.eventfd ∨ s.taking ∨ ∃ u, (s.at t p).producer u = .notifying := by
  rcases hs.flag set with due | taking | pending
  · exact .inl due
  · exact .inr (.inl taking)
  · exact .inr (.inr (notifying_kept here pending))

omit [DecidableEq Thread] in
/-- The loop thread moves while the queue and the flag stay: it was not about to
take the queue. -/
theorem awake_loop {s : EventLoop Thread} {stack : List (Frame Thread)} (hs : Awake s)
    (busy : s.stack ≠ [.entered]) (size : Int) (executed : List (Task Thread)) :
    Awake { s with stack := stack, size := size, executed := executed } := by
  refine ⟨fun set => ?_, hs.queued⟩
  rcases hs.flag set with due | taking | pending
  · exact .inl due
  · exact absurd taking busy
  · exact .inr (.inr pending)

theorem step_awake {s s' : EventLoop Thread} {m : Move Thread} (h : Step s m s') (hs : Awake s) :
    Awake s' := by
  cases h with
  | push t kind idle =>
    refine ⟨flag_kept hs (by rw [idle]; nofun), fun _ => .inr ⟨t, ?_⟩⟩
    simp [EventLoop.at, Producer.undecided]
  | count t here =>
    refine ⟨flag_kept hs (by rw [here]; nofun), fun _ => .inr ⟨t, ?_⟩⟩
    simp [EventLoop.at, Producer.undecided]
  | loadSet t here set => exact ⟨flag_kept hs (by rw [here]; nofun), fun _ => .inl set⟩
  | loadUnset t here unset =>
    refine ⟨flag_kept hs (by rw [here]; nofun), fun _ => .inr ⟨t, ?_⟩⟩
    simp [EventLoop.at, Producer.undecided]
  | store t here => exact ⟨fun _ => .inr (.inr ⟨t, producer_at s t _⟩), fun _ => .inl rfl⟩
  | write t here =>
    refine ⟨fun _ => .inl (by simp only [notifyValue]; omega), fun more => ?_⟩
    rcases hs.queued more with set | undecided
    · exact .inl set
    · refine .inr (undecided_kept ?_ undecided)
      rw [here]
      nofun
  | read free due => exact ⟨fun _ => .inr (.inl rfl), hs.queued⟩
  | swap rest top => exact ⟨nofun, fun more => absurd rfl more⟩
  | callUser task tasks rest top _ | callStop task tasks rest top _ =>
    exact awake_loop hs (by rw [top]; simp) _ _
  | finish task tasks rest top => exact awake_loop hs (by rw [top]; simp) _ _
  | leave rest top => exact awake_loop hs (by rw [top]; simp) _ _
  | stopIdle free => exact awake_loop hs (by rw [free]; simp) _ _
  | stopInTask task tasks rest top => exact awake_loop hs (by rw [top]; simp) _ _
  | drain rest top _ | exit rest top _ | stopped rest top _ | late rest top _ =>
    exact awake_loop hs (by rw [top]; simp) _ _
  | clear rest top =>
    have kept : Awake { s with stack := rest } :=
      awake_loop hs (by rw [top]; simp) s.size s.executed
    exact ⟨kept.flag, fun more => absurd rfl more⟩

theorem reachable_awake {s : EventLoop Thread} (h : (eventLoop Thread).Reachable s) : Awake s := by
  apply System.invariant _ _ _ h
  · rintro s rfl
    exact ⟨nofun, fun more => absurd rfl more⟩
  · intro s m s' hs step
    exact step_awake step hs

/-- **No lost wake-up.** Whenever a task is queued and no thread is inside
`sendToQueue`, the eventfd is readable or the loop is about to take the queue. -/
theorem no_lost_wakeup {s : EventLoop Thread} (h : (eventLoop Thread).Reachable s)
    (queued : s.queue ≠ []) (finished : ∀ t, s.producer t = .idle) :
    0 < s.eventfd ∨ s.stack = [.entered] := by
  have hs := reachable_awake h
  rcases hs.queued queued with set | ⟨t, undecided⟩
  · rcases hs.flag set with due | taking | ⟨t, pending⟩
    · exact .inl due
    · exact .inr taking
    · rw [finished t] at pending
      cases pending
  · rw [finished t] at undecided
    cases undecided

/-- One thread queues one task on an idle loop. -/
theorem no_lost_wakeup_once : ∃ s : EventLoop Unit, (eventLoop Unit).Reachable s ∧
    s.queue.length = 1 ∧ (0 < s.eventfd ∨ s.stack = [.entered]) := by
  have sent := (System.Reachable.start (M := eventLoop Unit) rfl).next (.push _ () .user rfl)
    |>.next (.count _ () rfl)
    |>.next (.loadUnset _ () rfl rfl)
    |>.next (.store _ () rfl)
    |>.next (.write _ () rfl)
  exact ⟨_, sent, rfl, no_lost_wakeup sent (by simp [EventLoop.at]) (fun _ => rfl)⟩

end Libatp.Loop
