import Libatp.Base.Progress
import Libatp.Loop.Order
import Libatp.Loop.Wakeup
import Mathlib.Algebra.BigOperators.Group.Finset.Basic
import Mathlib.Algebra.GroupWithZero.Nat
import Mathlib.Data.Fintype.Basic

/-!
# Every task is run in the end

As long as nobody asks the loop to stop, `doPendingTasks` is only entered from the event
loop, so at most one frame is on the stack. Foreign threads finish their calls and the loop
takes what they queued, and both have only boundedly much to do per call.
-/

namespace Libatp.Loop
open Base

variable {Thread : Type} [DecidableEq Thread]

/-- A new call of `sendToQueue`, or one more step of somebody who is at work. -/
inductive Act (Thread : Type) where
  | send (t : Thread)
  | move (m : Move Thread)
  deriving DecidableEq, Repr

def Act.own {Thread : Type} : Act Thread → Bool
  | .send _ => false
  | .move _ => true

/-- No `stopHandle` is queued or has been called. -/
def Unstopped (s : EventLoop Thread) : Prop :=
  (∀ a ∈ s.queue, a.kind = .user) ∧ .stopTest ∉ s.stack

instance (s : EventLoop Thread) : Decidable (Unstopped s) :=
  inferInstanceAs (Decidable (_ ∧ _))

/-- The runs of the loop in which nobody calls `stop()`. -/
def servingLoop (Thread : Type) [DecidableEq Thread] : System (EventLoop Thread) (Act Thread) where
  start s := s = .create Thread
  step s act s' := Unstopped s' ∧
    match act with
    | .send t => s.producer t = .idle ∧ Step s (.producer t) s'
    | .move m => (∀ t, m = .producer t → s.producer t ≠ .idle) ∧ Step s m s'

/-- `doPendingTasks` is called by the event loop only. -/
inductive Shape : List (Frame Thread) → Prop
  | free : Shape []
  | entered : Shape [.entered]
  | waiting (tasks : List (Task Thread)) : Shape [.batch tasks false]
  | running (task : Task Thread) (tasks : List (Task Thread)) : Shape [.batch (task :: tasks) true]

structure Serving (s : EventLoop Thread) : Prop where
  shape : Shape s.stack
  users : ∀ a ∈ todo s.stack ++ s.queue, a.kind = .user

/-- What is left of `Step` while nobody stops the loop. -/
inductive ServingStep : EventLoop Thread → Act Thread → EventLoop Thread → Prop
  | push (s) (t : Thread) (idle : s.producer t = .idle) :
      ServingStep s (.send t) { s.at t .pushed with
        queue := s.queue ++ [s.next t .user]
        issued := Function.update s.issued t (s.issued t + 1) }
  | count (s) (t : Thread) (here : s.producer t = .pushed) :
      ServingStep s (.move (.producer t)) { s.at t .counted with size := s.size + 1 }
  | load (s) (t : Thread) (p : Producer) (here : s.producer t = .counted)
      (next : p = .idle ∨ p = .unnotified) :
      ServingStep s (.move (.producer t)) (s.at t p)
  | store (s) (t : Thread) (here : s.producer t = .unnotified) :
      ServingStep s (.move (.producer t)) { s.at t .notifying with notified := true }
  | write (s) (t : Thread) (here : s.producer t = .notifying) :
      ServingStep s (.move (.producer t))
        { s.at t .idle with eventfd := s.eventfd + notifyValue }
  | read (s) (free : s.stack = []) (due : 0 < s.eventfd) :
      ServingStep s (.move .loop) { s with eventfd := 0, stack := [.entered] }
  | swap (s) (top : s.stack = [.entered]) :
      ServingStep s (.move .swap)
        { s with notified := false, queue := [], stack := [.batch s.queue false] }
  | call (s) (task : Task Thread) (tasks : List (Task Thread))
      (top : s.stack = [.batch (task :: tasks) false]) :
      ServingStep s (.move .loop) { s with
        executed := s.executed ++ [task]
        stack := [.batch (task :: tasks) true] }
  | finish (s) (task : Task Thread) (tasks : List (Task Thread))
      (top : s.stack = [.batch (task :: tasks) true]) :
      ServingStep s (.move .loop) { s with size := s.size - 1, stack := [.batch tasks false] }
  | leave (s) (top : s.stack = [.batch [] false]) :
      ServingStep s (.move .loop) { s with stack := [] }

variable {s s' : EventLoop Thread} {act : Act Thread}

omit [DecidableEq Thread] in
theorem Shape.alone {f : Frame Thread} {rest : List (Frame Thread)} (h : Shape (f :: rest)) :
    rest = [] ∧ f ≠ .stopTest ∧ f ≠ .stopExit ∧ f ≠ .stopClear := by
  cases h with
  | entered | waiting | running => exact ⟨rfl, nofun, nofun, nofun⟩

theorem serving_cases (hs : Serving s) (step : (servingLoop Thread).step s act s') :
    ServingStep s act s' := by
  obtain ⟨unstopped, step⟩ := step
  -- a frame of `stopHandle` can neither be there nor be entered
  have alone {f : Frame Thread} {rest : List (Frame Thread)} (top : s.stack = f :: rest) :
      rest = [] ∧ f ≠ .stopTest ∧ f ≠ .stopExit ∧ f ≠ .stopClear := (top ▸ hs.shape).alone
  cases act with
  | send t =>
    obtain ⟨idle, step⟩ := step
    cases step with
    | push _ kind _ =>
      have user : kind = .user := unstopped.1 (s.next t kind) (by simp)
      subst user
      exact .push s t idle
    | count _ here | loadSet _ here | loadUnset _ here | store _ here | write _ here =>
      cases idle.symm.trans here
  | move m =>
    obtain ⟨busy, step⟩ := step
    cases step with
    | push t _ idle => exact absurd idle (busy t rfl)
    | count t here => exact .count s t here
    | loadSet t here => exact .load s t .idle here (.inl rfl)
    | loadUnset t here => exact .load s t .unnotified here (.inr rfl)
    | store t here => exact .store s t here
    | write t here => exact .write s t here
    | read free due => exact .read s free due
    | swap rest top =>
      obtain ⟨rfl, _⟩ := alone top
      exact .swap s top
    | callUser task tasks rest top =>
      obtain ⟨rfl, _⟩ := alone top
      exact .call s task tasks top
    | callStop | stopIdle | stopInTask => exact absurd List.mem_cons_self unstopped.2
    | finish task tasks rest top =>
      obtain ⟨rfl, _⟩ := alone top
      exact .finish s task tasks top
    | leave rest top =>
      obtain ⟨rfl, _⟩ := alone top
      exact .leave s top
    | drain rest top | exit rest top => exact absurd rfl (alone top).2.1
    | stopped rest top | late rest top => exact absurd rfl (alone top).2.2.1
    | clear rest top => exact absurd rfl (alone top).2.2.2

/-! ## The schedule only grows -/

theorem serving_schedule (h : ServingStep s act s') :
    (schedule s' = schedule s ∧ s'.issued = s.issued) ∨
    ∃ t, schedule s' = schedule s ++ [s.next t .user] ∧
      s'.issued = Function.update s.issued t (s.issued t + 1) := by
  cases h with
  | push t => exact .inr ⟨t, by simp [schedule, EventLoop.at], rfl⟩
  | count | load | store | write => exact .inl ⟨rfl, rfl⟩
  | read free => exact .inl ⟨by simp [schedule, free], rfl⟩
  | swap top | call _ _ top | finish _ _ top | leave top =>
    exact .inl ⟨by simp [schedule, top], rfl⟩

/-- Every task that was ever queued is on the schedule. -/
def Complete (s : EventLoop Thread) : Prop :=
  ∀ t n, n < s.issued t → (⟨t, n, .user⟩ : Task Thread) ∈ schedule s

theorem step_complete (h : ServingStep s act s') (hs : Complete s) : Complete s' := by
  intro t n issued
  rcases serving_schedule h with ⟨same, count⟩ | ⟨u, more, count⟩
  · rw [count] at issued
    rw [same]
    exact hs t n issued
  · rw [count] at issued
    rw [more, List.mem_append, List.mem_singleton]
    by_cases here : t = u
    · subst here
      rw [Function.update_self] at issued
      rcases Nat.lt_succ_iff_lt_or_eq.mp issued with old | new
      · exact .inl (hs t n old)
      · exact .inr (by rw [EventLoop.next, new])
    · rw [Function.update_of_ne here] at issued
      exact .inl (hs t n issued)

theorem step_serving (h : ServingStep s act s') (hs : Serving s) : Serving s' := by
  have users := hs.users
  cases h with
  | push t =>
    refine ⟨hs.shape, fun a ha => ?_⟩
    rcases List.mem_append.mp ha with old | queued
    · exact users a (List.mem_append_left _ old)
    · rcases List.mem_append.mp queued with old | new
      · exact users a (List.mem_append_right _ old)
      · rw [List.mem_singleton.mp new]
        rfl
  | count | load | store | write => exact ⟨hs.shape, users⟩
  | read free =>
    rw [free] at users
    exact ⟨.entered, users⟩
  | swap top =>
    rw [top] at users
    exact ⟨.waiting _, by simpa using users⟩
  | call task tasks top =>
    rw [top] at users
    refine ⟨.running task tasks, fun a ha => users a ?_⟩
    simp only [todo_cons, todo_batch_running, todo_nil, List.append_nil] at ha
    simp only [todo_cons, todo_batch_waiting, todo_nil, List.append_nil, List.cons_append]
    exact List.mem_cons_of_mem _ ha
  | finish task tasks top =>
    rw [top] at users
    exact ⟨.waiting _, by simpa using users⟩
  | leave top =>
    rw [top] at users
    exact ⟨.free, users⟩

theorem serving_reachable (h : (servingLoop Thread).Reachable s) :
    (eventLoop Thread).Reachable s ∧ Serving s ∧ Complete s := by
  apply System.invariant _ _ _ h
  · rintro s rfl
    exact ⟨.start rfl, ⟨.free, nofun⟩, nofun⟩
  · rintro s act s' ⟨reach, serving, complete⟩ step
    have known := serving_cases serving step
    refine ⟨?_, step_serving known serving, step_complete known complete⟩
    cases act with
    | send t => exact reach.next step.2.2
    | move m => exact reach.next step.2.2

/-! ## What remains to be done -/

/-- Steps of the call, with the reaction of the loop to its notification. -/
def Producer.weight : Producer → Nat
  | .idle => 0
  | .pushed => 7
  | .counted => 6
  | .unnotified => 5
  | .notifying => 4

def Frame.weight : Frame Thread → Nat
  | .entered => 2
  | .batch tasks running => 1 + 2 * (Frame.batch tasks running).todo.length + running.toNat
  | .stopTest | .stopExit | .stopClear => 0

/-- A readable eventfd makes the loop enter `doPendingTasks`. -/
def alarm (eventfd : Nat) : Nat := if 0 < eventfd then 3 else 0

def calls [Fintype Thread] (producer : Thread → Producer) : Nat := ∑ t, (producer t).weight

def remaining [Fintype Thread] (s : EventLoop Thread) : Nat :=
  2 * s.queue.length + (s.stack.map Frame.weight).sum + alarm s.eventfd + calls s.producer

theorem calls_update [Fintype Thread] (producer : Thread → Producer) (t : Thread) (p : Producer) :
    calls (Function.update producer t p) + (producer t).weight = calls producer + p.weight := by
  have split (f : Thread → Producer) :
      calls f = (f t).weight + ∑ u ∈ Finset.univ.erase t, (f u).weight :=
    (Finset.add_sum_erase _ _ (Finset.mem_univ t)).symm
  have others : ∑ u ∈ Finset.univ.erase t, (Function.update producer t p u).weight =
      ∑ u ∈ Finset.univ.erase t, (producer u).weight := by
    apply Finset.sum_congr rfl
    intro u hu
    rw [Function.update_of_ne (Finset.ne_of_mem_erase hu)]
  rw [split, split producer, others, Function.update_self]
  omega

/-- A foreign thread goes on with its call. -/
theorem remaining_at [Fintype Thread] {t : Thread} {old new : Producer}
    (here : s.producer t = old) (queue : s'.queue = s.queue) (stack : s'.stack = s.stack)
    (producer : s'.producer = Function.update s.producer t new)
    (less : alarm s'.eventfd + new.weight < alarm s.eventfd + old.weight) :
    remaining s' < remaining s := by
  have moved := calls_update s.producer t new
  rw [here] at moved
  simp only [remaining, queue, stack, producer]
  omega

/-- Whoever is at work lowers what remains. -/
theorem move_remaining [Fintype Thread] {m : Move Thread} (h : ServingStep s (.move m) s') :
    remaining s' < remaining s := by
  cases h with
  | count t here | store t here =>
    exact remaining_at here rfl rfl rfl (by simp [EventLoop.at, Producer.weight])
  | load t p here next =>
    have light : p.weight < Producer.counted.weight := by
      rcases next with rfl | rfl <;> decide
    exact remaining_at here rfl rfl rfl (Nat.add_lt_add_left light _)
  | write t here =>
    have less : alarm (s.eventfd + notifyValue) + Producer.idle.weight <
        alarm s.eventfd + Producer.notifying.weight := by
      simp only [alarm, Producer.weight]
      split <;> split <;> omega
    exact remaining_at here rfl rfl rfl less
  | read free due =>
    simp only [remaining, free, alarm, if_pos due, List.map_nil, List.map_singleton, List.sum_nil,
      List.sum_singleton, Frame.weight, Nat.lt_irrefl, if_false]
    omega
  | swap top =>
    simp only [remaining, top, List.map_singleton, List.sum_singleton, Frame.weight,
      todo_batch_waiting, List.length_nil, Bool.toNat_false]
    omega
  | call task tasks top | finish task tasks top =>
    simp only [remaining, top, List.map_singleton, List.sum_singleton, Frame.weight,
      todo_batch_waiting, todo_batch_running, List.length_cons, Bool.toNat_false, Bool.toNat_true]
    omega
  | leave top =>
    simp only [remaining, top, List.map_singleton, List.sum_singleton, List.map_nil,
      List.sum_nil, Frame.weight]
    omega

theorem send_remaining [Fintype Thread] {t : Thread} (h : ServingStep s (.send t) s') :
    remaining s' ≤ remaining s + 9 := by
  cases h with
  | push _ idle =>
    have moved := calls_update s.producer t .pushed
    rw [idle] at moved
    simp only [remaining, EventLoop.at, List.length_append, List.length_singleton]
    simp only [Producer.weight] at moved
    omega

theorem own_remaining [Fintype Thread] (h : ServingStep s act s') (own : act.own = true) :
    remaining s' < remaining s := by
  cases act with
  | send t => cases own
  | move m => exact move_remaining h

theorem other_remaining [Fintype Thread] (h : ServingStep s act s') (other : act.own = false) :
    remaining s' ≤ remaining s + 9 := by
  cases act with
  | send t => exact send_remaining h
  | move m => cases other

/-! ## Somebody can move until everything is done -/

omit [DecidableEq Thread] in
theorem Shape.stopTest_not_mem {stack : List (Frame Thread)} (h : Shape stack) :
    .stopTest ∉ stack := by
  cases h with
  | free => exact List.not_mem_nil
  | entered | waiting | running => simp

/-- A step of the model that leaves the loop serving is one of these runs. -/
theorem not_rests {m : Move Thread} (rests : (servingLoop Thread).Rests Act.own s)
    (step : Step s m s') (busy : ∀ t, m = .producer t → s.producer t ≠ .idle)
    (kept : Serving s') : False :=
  rests (.move m) s' rfl
    ⟨⟨fun a ha => kept.users a (List.mem_append_right _ ha), kept.shape.stopTest_not_mem⟩,
      busy, step⟩

theorem rest_idle (hs : Serving s) (rests : (servingLoop Thread).Rests Act.own s) (t : Thread) :
    s.producer t = .idle := by
  by_contra inside
  have busy : ∀ u, Move.producer t = .producer u → s.producer u ≠ .idle := by
    rintro u ⟨rfl⟩
    exact inside
  -- the next step of a call that is under way touches neither queue nor stack
  cases here : s.producer t with
  | idle => exact inside here
  | pushed => exact not_rests rests (.count s t here) busy ⟨hs.shape, hs.users⟩
  | counted =>
    cases flag : s.notified with
    | true => exact not_rests rests (.loadSet s t here flag) busy ⟨hs.shape, hs.users⟩
    | false => exact not_rests rests (.loadUnset s t here flag) busy ⟨hs.shape, hs.users⟩
  | unnotified => exact not_rests rests (.store s t here) busy ⟨hs.shape, hs.users⟩
  | notifying => exact not_rests rests (.write s t here) busy ⟨hs.shape, hs.users⟩

theorem rest_free (hs : Serving s) (rests : (servingLoop Thread).Rests Act.own s) :
    s.stack = [] := by
  have users := hs.users
  generalize top : s.stack = stack at users
  cases (top ▸ hs.shape : Shape stack) with
  | free => rfl
  | entered =>
    exact (not_rests rests (.swap s [] top) nofun (step_serving (.swap s top) hs)).elim
  | waiting tasks =>
    cases tasks with
    | nil => exact (not_rests rests (.leave s [] top) nofun (step_serving (.leave s top) hs)).elim
    | cons task tasks =>
      have user : task.kind = .user := users task (by simp)
      exact (not_rests rests (.callUser s task tasks [] top user) nofun
        (step_serving (.call s task tasks top) hs)).elim
  | running task tasks =>
    exact (not_rests rests (.finish s task tasks [] top) nofun
      (step_serving (.finish s task tasks top) hs)).elim

theorem rest_empty (h : (servingLoop Thread).Reachable s)
    (rests : (servingLoop Thread).Rests Act.own s) : s.queue = [] := by
  obtain ⟨reach, hs, _⟩ := serving_reachable h
  have free := rest_free hs rests
  have awake := reachable_awake reach
  by_contra more
  rcases awake.queued more with set | ⟨t, undecided⟩
  · rcases awake.flag set with due | taking | ⟨t, pending⟩
    · exact not_rests rests (.read s free due) nofun (step_serving (.read s free due) hs)
    · cases free.symm.trans taking
    · cases (rest_idle hs rests t).symm.trans pending
  · rw [rest_idle hs rests t] at undecided
    cases undecided

/-- **Every task is run.** While nobody stops the loop, any run in which foreign threads
begin `n` calls of `sendToQueue` has boundedly many other steps, and until every task of every
thread has been called, one of those inside `sendToQueue` or the loop can move. -/
theorem every_task_runs [Fintype Thread] (h : (servingLoop Thread).Reachable s)
    {acts : List (Act Thread)} (path : (servingLoop Thread).Path s acts s') :
    acts.countP Act.own ≤ remaining s + 9 * acts.countP (fun act => !act.own) ∧
    ((servingLoop Thread).Rests Act.own s' →
      s'.queue = [] ∧ s'.stack = [] ∧
      ∀ t n, n < s'.issued t → (⟨t, n, .user⟩ : Task Thread) ∈ s'.executed) := by
  constructor
  · have bound := path.bounded remaining Act.own (P := (servingLoop Thread).Reachable)
      (fun _ _ _ hs step => hs.next step)
      (fun _ _ _ hs step => own_remaining (serving_cases (serving_reachable hs).2.1 step))
      (fun _ _ _ hs step => other_remaining (serving_cases (serving_reachable hs).2.1 step)) h
    omega
  · intro rests
    have reach := path.reachable h
    obtain ⟨_, serving, complete⟩ := serving_reachable reach
    have free := rest_free serving rests
    have empty := rest_empty reach rests
    refine ⟨empty, free, fun t n issued => ?_⟩
    have scheduled := complete t n issued
    rwa [schedule, free, empty, todo_nil, List.append_nil, List.append_nil] at scheduled

/-- One thread queues one task, and the loop runs it. -/
theorem every_task_runs_once : ∃ s s' : EventLoop Unit, ∃ acts : List (Act Unit),
    (servingLoop Unit).Reachable s ∧ (servingLoop Unit).Path s acts s' ∧
    acts.countP Act.own = 9 ∧ acts.countP Act.own ≤ remaining s + 9 * 1 ∧
    s'.executed = [⟨(), 0, .user⟩] := by
  have path : (servingLoop Unit).Path (.create Unit)
      [.send (), .move (.producer ()), .move (.producer ()), .move (.producer ()),
        .move (.producer ()), .move .loop, .move .swap, .move .loop, .move .loop, .move .loop] _ :=
    .cons ⟨by decide, rfl, .push _ () .user rfl⟩
      (.cons ⟨by decide, nofun, .count _ () rfl⟩
        (.cons ⟨by decide, nofun, .loadUnset _ () rfl rfl⟩
          (.cons ⟨by decide, nofun, .store _ () rfl⟩
            (.cons ⟨by decide, nofun, .write _ () rfl⟩
              (.cons ⟨by decide, nofun, .read _ rfl (by decide)⟩
                (.cons ⟨by decide, nofun, .swap _ [] rfl⟩
                  (.cons ⟨by decide, nofun, .callUser _ _ [] [] rfl rfl⟩
                    (.cons ⟨by decide, nofun, .finish _ _ [] [] rfl⟩
                      (.cons ⟨by decide, nofun, .leave _ [] rfl⟩ (.nil _))))))))))
  exact ⟨_, _, _, .start rfl, path, rfl, (every_task_runs (.start rfl) path).1, rfl⟩

end Libatp.Loop
