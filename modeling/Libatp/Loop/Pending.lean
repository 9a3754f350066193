import Libatp.Base.Word
import Libatp.Loop.EventLoop
import Mathlib.Data.Finset.Card

/-!
# The counter of pending tasks

`pending_tasks_size_` is incremented after a push and outside of its lock, and decremented
after each task of a batch. Up to the pushes that are not counted yet it is the number of
tasks in the queue and in the batches that are being run. One step takes tasks out of the
queue and leaves the counter as it is: `stopHandle` clears what was queued after its loop
found the queue empty. From then on the counter is too large by that many.
-/

namespace Libatp.Loop
open Base

variable {Thread : Type}

/-- `pending_tasks_size_` is an `int`, and an atomic one wraps. -/
def pendingTaskQueueSize (s : EventLoop Thread) : Int := int32 s.size

/-- The tasks of a frame that have not finished. -/
def Frame.unfinished : Frame Thread → Nat
  | .batch tasks _ => tasks.length
  | .entered | .stopTest | .stopExit | .stopClear => 0

/-- The tasks that were taken out of the queue and have not finished. -/
def swapped (stack : List (Frame Thread)) : Nat := (stack.map Frame.unfinished).sum

@[simp] theorem swapped_cons (f : Frame Thread) (stack : List (Frame Thread)) :
    swapped (f :: stack) = f.unfinished + swapped stack := by
  simp [swapped]

/-- How many tasks a step throws away. -/
def discarded (s : EventLoop Thread) : Move Thread → Nat
  | .producer _ | .swap => 0
  | .loop =>
    match s.stack with
    | .stopClear :: _ => s.queue.length
    | _ => 0

/-- `late` are the threads that have pushed and not counted; `gone` tasks were thrown away. -/
structure Balanced (s : EventLoop Thread) (late : Finset Thread) (gone : Nat) : Prop where
  mem_late : ∀ t, t ∈ late ↔ s.producer t = .pushed
  balance : s.size + late.card = (s.queue.length + swapped s.stack + gone : Nat)

section
variable {s s' : EventLoop Thread} {late : Finset Thread} {gone : Nat}

theorem discarded_cons {f : Frame Thread} {rest : List (Frame Thread)} (top : s.stack = f :: rest)
    (other : f ≠ .stopClear) : discarded s .loop = 0 := by
  cases f with
  | stopClear => exact absurd rfl other
  | entered | batch | stopTest | stopExit => simp [discarded, top]

theorem discarded_idle (free : s.stack = []) : discarded s .loop = 0 := by
  simp [discarded, free]

/-- A step of the loop that leaves the threads alone. -/
theorem Balanced.loop (h : Balanced s late gone) (threads : s'.producer = s.producer)
    {more : Nat}
    (same : s'.size + (s.queue.length + swapped s.stack : Nat) =
      s.size + (s'.queue.length + swapped s'.stack + more : Nat)) :
    Balanced s' late (gone + more) := by
  refine ⟨fun t => by rw [threads, h.mem_late], ?_⟩
  have balance := h.balance
  omega

variable [DecidableEq Thread]

theorem late_insert (mem_late : ∀ t, t ∈ late ↔ s.producer t = .pushed) (t u : Thread) :
    u ∈ insert t late ↔ (s.at t .pushed).producer u = .pushed := by
  rw [Finset.mem_insert, mem_late, EventLoop.at]
  by_cases same : u = t
  · simp [same]
  · simp [same]

theorem late_erase (mem_late : ∀ t, t ∈ late ↔ s.producer t = .pushed) {p : Producer}
    (other : p ≠ .pushed) (t u : Thread) :
    u ∈ late.erase t ↔ (s.at t p).producer u = .pushed := by
  rw [Finset.mem_erase, mem_late, EventLoop.at]
  by_cases same : u = t
  · simp [same, other]
  · simp [same]

/-- A thread that is past its count moves on. -/
theorem Balanced.at (h : Balanced s late gone) {t : Thread} {p : Producer}
    (before : s.producer t ≠ .pushed) (after : p ≠ .pushed) : Balanced (s.at t p) late gone := by
  refine ⟨fun u => ?_, h.balance⟩
  have outside : t ∉ late := fun mem => before ((h.mem_late t).mp mem)
  rw [← late_erase h.mem_late after, Finset.erase_eq_of_notMem outside]

theorem step_balanced {m : Move Thread} (step : Step s m s') (h : Balanced s late gone) :
    ∃ late', Balanced s' late' (gone + discarded s m) := by
  have balance := h.balance
  cases step with
  | push t kind idle =>
    have outside : t ∉ late := by
      rw [h.mem_late, idle]
      exact Producer.noConfusion
    refine ⟨insert t late, late_insert h.mem_late t, ?_⟩
    rw [Finset.card_insert_of_notMem outside]
    simp only [EventLoop.at, discarded, List.length_append, List.length_singleton]
    omega
  | count t here =>
    have inside : t ∈ late := (h.mem_late t).mpr here
    refine ⟨late.erase t, late_erase h.mem_late Producer.noConfusion t, ?_⟩
    have card := Finset.card_erase_add_one inside
    simp only [EventLoop.at, discarded]
    omega
  | loadSet t here set | loadUnset t here unset =>
    exact ⟨late, h.at (by rw [here]; exact Producer.noConfusion) Producer.noConfusion⟩
  | store t here =>
    have moved := h.at (p := .notifying) (by rw [here]; exact Producer.noConfusion)
      Producer.noConfusion
    exact ⟨late, moved.mem_late, moved.balance⟩
  | write t here =>
    have moved := h.at (p := .idle) (by rw [here]; exact Producer.noConfusion)
      Producer.noConfusion
    exact ⟨late, moved.mem_late, moved.balance⟩
  | read free due =>
    rw [discarded_idle free]
    exact ⟨late, h.loop (by rfl) (by simp [free, Frame.unfinished])⟩
  | stopIdle free =>
    rw [discarded_idle free]
    exact ⟨late, h.loop (by rfl) (by simp [free, Frame.unfinished])⟩
  | swap rest top =>
    refine ⟨late, h.loop (by rfl) ?_⟩
    simp only [top, swapped_cons, Frame.unfinished, discarded, List.length_nil]
    omega
  | callUser task tasks rest top user | callStop task tasks rest top stop
    | stopInTask task tasks rest top =>
    rw [discarded_cons top (by simp)]
    refine ⟨late, h.loop (by rfl) ?_⟩
    simp only [top, swapped_cons, Frame.unfinished]
    omega
  | finish task tasks rest top =>
    rw [discarded_cons top (by simp)]
    refine ⟨late, h.loop (by rfl) ?_⟩
    simp only [top, swapped_cons, Frame.unfinished, List.length_cons]
    omega
  | leave rest top | drain rest top more | exit rest top none | stopped rest top none
    | late rest top more =>
    rw [discarded_cons top (by simp)]
    refine ⟨_, h.loop (by rfl) ?_⟩
    simp only [top, swapped_cons, Frame.unfinished, List.length_nil]
    omega
  | clear rest top =>
    have all : discarded s .loop = s.queue.length := by simp [discarded, top]
    rw [all]
    refine ⟨late, h.loop (by rfl) ?_⟩
    simp only [top, swapped_cons, Frame.unfinished, List.length_nil]
    omega

theorem reachable_balanced {gone : Nat}
    (h : ((eventLoop Thread).tallied discarded).Reachable (s, gone)) :
    ∃ late, Balanced s late gone := by
  refine System.invariant _ (P := fun p => ∃ late, Balanced p.1 late p.2) ?_ ?_ h
  · rintro ⟨_, _⟩ ⟨rfl, rfl⟩
    refine ⟨∅, fun t => ?_, rfl⟩
    simp [EventLoop.create]
  · rintro ⟨s, gone⟩ m ⟨s', _⟩ ⟨late, hs⟩ ⟨step, rfl⟩
    exact step_balanced step hs

end

/-- An `int` that holds `n` and `gone` more shows `n` exactly if `n` fits and the rest wraps
away. -/
theorem int32_add_eq_iff (n gone : Nat) :
    int32 (n + gone : Nat) = n ↔ gone % 2 ^ 32 = 0 ∧ n < 2 ^ 31 := by
  rw [int32, Int.bmod_def]
  split <;> omega

/-- With no thread between its push and its count, the counter is ahead by what was thrown
away. -/
theorem size_quiet [DecidableEq Thread] {s : EventLoop Thread} {gone : Nat}
    (h : ((eventLoop Thread).tallied discarded).Reachable (s, gone))
    (quiet : ∀ t, s.producer t = .idle) :
    s.size = (s.queue.length + swapped s.stack + gone : Nat) := by
  obtain ⟨late, balanced⟩ := reachable_balanced h
  have none : late = ∅ := by
    rw [Finset.eq_empty_iff_forall_notMem]
    intro t mem
    have pushed := (balanced.mem_late t).mp mem
    rw [quiet t] at pushed
    cases pushed
  have balance := balanced.balance
  rw [none, Finset.card_empty, Int.natCast_zero, Int.add_zero] at balance
  exact balance

/-- **The counter is exact if and only if nothing was thrown away** (up to what an `int` can
show), in every reachable state in which no thread is inside `sendToQueue`. `gone` counts the
tasks that `stopHandle` cleared out of the queue on the way there. -/
theorem pending_exact_iff {Thread : Type} [DecidableEq Thread] {s : EventLoop Thread}
    (h : (eventLoop Thread).Reachable s) (quiet : ∀ t, s.producer t = .idle) :
    (∃ gone, ((eventLoop Thread).tallied discarded).Reachable (s, gone)) ∧
    ∀ gone, ((eventLoop Thread).tallied discarded).Reachable (s, gone) →
      (pendingTaskQueueSize s = (s.queue.length + swapped s.stack : Nat) ↔
        gone % 2 ^ 32 = 0 ∧ s.queue.length + swapped s.stack < 2 ^ 31) := by
  refine ⟨h.tally discarded, fun gone run => ?_⟩
  rw [pendingTaskQueueSize, size_quiet run quiet]
  exact int32_add_eq_iff _ _

/-- While a task of a batch is being run and another one is queued, the counter shows two. -/
theorem pending_exact_running : ∃ s : EventLoop Unit, (∀ t, s.producer t = .idle) ∧
    s.queue.length = 1 ∧ swapped s.stack = 1 ∧ pendingTaskQueueSize s = 2 := by
  have first : ((eventLoop Unit).tallied discarded).Reachable (.create _, 0) :=
    .start ⟨rfl, rfl⟩
  have queued := first.add (.push _ () .user rfl)
    |>.add (.count _ () rfl)
    |>.add (.loadUnset _ () rfl rfl)
    |>.add (.store _ () rfl)
    |>.add (.write _ () rfl)
  have running := queued.add (.read _ rfl (by decide))
    |>.add (.swap _ _ rfl)
    |>.add (.callUser _ _ _ _ rfl rfl)
  have second := running.add (.push _ () .user rfl)
    |>.add (.count _ () rfl)
    |>.add (.loadUnset _ () rfl rfl)
    |>.add (.store _ () rfl)
    |>.add (.write _ () rfl)
  have exact := (pending_exact_iff second.forget fun _ => rfl).2 _ second
  exact ⟨_, fun _ => rfl, rfl, rfl, exact.mpr (by decide)⟩

/-- A task that is queued after `stopHandle` found the queue empty is thrown away. When
everything is over the counter still shows it. -/
theorem pending_drifts : ∃ s : EventLoop Unit, (eventLoop Unit).Reachable s ∧
    (∀ t, s.producer t = .idle) ∧ s.queue = [] ∧ s.stack = [] ∧ pendingTaskQueueSize s = 1 := by
  have queued := (System.Reachable.start (M := eventLoop Unit) rfl).next (.push _ () .stop rfl)
    |>.next (.count _ () rfl)
    |>.next (.loadUnset _ () rfl rfl)
    |>.next (.store _ () rfl)
    |>.next (.write _ () rfl)
  have stopping := queued.next (.read _ rfl (by decide))
    |>.next (.swap _ _ rfl)
    |>.next (.callStop _ _ _ _ rfl rfl)
    |>.next (.exit _ _ rfl rfl)
  have late := stopping.next (.push _ () .user rfl)
    |>.next (.count _ () rfl)
    |>.next (.loadUnset _ () rfl rfl)
    |>.next (.store _ () rfl)
    |>.next (.write _ () rfl)
  have ended := late.next (.late _ _ rfl (by simp [EventLoop.at]))
    |>.next (.clear _ _ rfl)
    |>.next (.finish _ _ _ _ rfl)
    |>.next (.leave _ _ rfl)
  exact ⟨_, ended, fun _ => rfl, rfl, rfl, rfl⟩

end Libatp.Loop
