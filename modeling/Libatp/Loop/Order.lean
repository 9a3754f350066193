import Libatp.Base.Agenda
import Libatp.Loop.EventLoop

/-!
# How often and in which order tasks run

What a loop has still to run and has queued is an agenda. With what it has run, in front,
it is one list, `schedule`. A push adds at its end, taking a batch and running it only move
its cuts, and clearing the queue drops its tail. So no task is run twice.

One step reorders it: `stopHandle`, called inside a batch, takes the queue and
runs it before the rest of that batch.
-/

namespace Libatp.Loop
open Base

/-- The tasks of a frame that have not been called. -/
def Frame.todo {Thread : Type} : Frame Thread → List (Task Thread)
  | .batch tasks running => if running then tasks.tail else tasks
  | .entered | .stopTest | .stopExit | .stopClear => []

def todo {Thread : Type} (stack : List (Frame Thread)) : List (Task Thread) :=
  stack.flatMap Frame.todo

/-- Whether the frame is a call of `stopHandle`, and whether that has asked for the exit. -/
def Frame.stops {Thread : Type} : Frame Thread → List Bool
  | .stopTest => [false]
  | .stopExit | .stopClear => [true]
  | .entered | .batch _ _ => []

def EventLoop.agenda {Thread : Type} (s : EventLoop Thread) : Agenda (Task Thread) where
  todo := todo s.stack
  waiting := s.queue
  stops := s.stack.flatMap Frame.stops

def schedule {Thread : Type} (s : EventLoop Thread) : List (Task Thread) :=
  s.executed ++ todo s.stack ++ s.queue

/-- `a` and `b` may run in this order: if one thread queued both, `a` came first. -/
def InOrder {Thread : Type} (a b : Task Thread) : Prop := a.thread = b.thread → a.seq < b.seq

/-- The queue is taken inside a batch only if the rest of that batch has no task
of a thread that also has one in the queue. -/
def SwapsApart {Thread : Type} (s : EventLoop Thread) : Move Thread → Prop
  | .swap => ∀ a ∈ todo s.stack, ∀ b ∈ s.queue, a.thread ≠ b.thread
  | .producer _ | .loop => True

section
variable {Thread : Type}

@[simp] theorem todo_nil : todo ([] : List (Frame Thread)) = [] := rfl

@[simp] theorem todo_cons (f : Frame Thread) (stack : List (Frame Thread)) :
    todo (f :: stack) = f.todo ++ todo stack := rfl

@[simp] theorem todo_batch_waiting (tasks : List (Task Thread)) :
    (Frame.batch tasks false).todo = tasks := rfl

@[simp] theorem todo_batch_running (task : Task Thread) (tasks : List (Task Thread)) :
    (Frame.batch (task :: tasks) true).todo = tasks := rfl

@[simp] theorem todo_entered : (Frame.entered : Frame Thread).todo = [] := rfl

@[simp] theorem todo_stopTest : (Frame.stopTest : Frame Thread).todo = [] := rfl

@[simp] theorem todo_stopExit : (Frame.stopExit : Frame Thread).todo = [] := rfl

@[simp] theorem todo_stopClear : (Frame.stopClear : Frame Thread).todo = [] := rfl

@[simp] theorem stops_entered : (Frame.entered : Frame Thread).stops = [] := rfl

@[simp] theorem stops_batch (tasks : List (Task Thread)) (running : Bool) :
    (Frame.batch tasks running).stops = [] := rfl

@[simp] theorem stops_stopTest : (Frame.stopTest : Frame Thread).stops = [false] := rfl

@[simp] theorem stops_stopExit : (Frame.stopExit : Frame Thread).stops = [true] := rfl

@[simp] theorem stops_stopClear : (Frame.stopClear : Frame Thread).stops = [true] := rfl

variable [DecidableEq Thread]

/-- How the agenda moves with the loop: only a push posts, and only the locked block of
`doPendingTasks` takes. -/
structure Moved (s : EventLoop Thread) (m : Move Thread) (s' : EventLoop Thread)
    (e : Agenda.Event (Task Thread)) : Prop where
  step : s.agenda.Step e s'.agenda
  executed : s'.executed = s.executed ++ e.ran
  taken : e = .take → m = .swap
  posted : (∀ a, e ≠ .post a) ∧ s'.issued = s.issued ∨ ∃ t kind, e = .post (s.next t kind) ∧
    s'.issued = Function.update s.issued t (s.issued t + 1)

theorem step_agenda {s s' : EventLoop Thread} {m : Move Thread} (h : Step s m s') :
    (s'.agenda = s.agenda ∧ s'.executed = s.executed ∧ s'.issued = s.issued) ∨
      ∃ e, Moved s m s' e := by
  -- a step that posts nothing
  have moved {e : Agenda.Event (Task Thread)} {d : Agenda (Task Thread)}
      (step : s.agenda.Step e d) (now : s'.agenda = d) (ran : s'.executed = s.executed ++ e.ran)
      (swap : e = .take → m = .swap) (posts : ∀ a, e ≠ .post a) (same : s'.issued = s.issued) :
      ∃ e, Moved s m s' e :=
    ⟨e, now ▸ step, ran, swap, .inl ⟨posts, same⟩⟩
  have unchanged : s.executed = s.executed ++ [] := (List.append_nil _).symm
  cases h with
  | push t kind idle =>
    exact .inr ⟨.post (s.next t kind), .post s.agenda _, unchanged, nofun, .inr ⟨t, kind, rfl, rfl⟩⟩
  | count t here | store t here | write t here => exact .inl ⟨rfl, rfl, rfl⟩
  | loadSet t here _ | loadUnset t here _ => exact .inl ⟨rfl, rfl, rfl⟩
  | read free due => exact .inl ⟨by simp [EventLoop.agenda, free], rfl, rfl⟩
  | swap rest top =>
    exact .inr (moved (.take s.agenda) (by simp [EventLoop.agenda, top]) unchanged (fun _ => rfl)
      nofun rfl)
  | callUser task tasks rest top _ =>
    exact .inr (moved (.run s.agenda task (tasks ++ todo rest) (by simp [EventLoop.agenda, top]))
      (by simp [EventLoop.agenda, top]) rfl nofun nofun rfl)
  | callStop task tasks rest top _ =>
    exact .inr (moved (.runStop s.agenda task (tasks ++ todo rest)
      (by simp [EventLoop.agenda, top])) (by simp [EventLoop.agenda, top]) rfl nofun nofun rfl)
  | finish task tasks rest top => exact .inl ⟨by simp [EventLoop.agenda, top], rfl, rfl⟩
  | leave rest top => exact .inl ⟨by simp [EventLoop.agenda, top], rfl, rfl⟩
  | stopIdle free =>
    exact .inr (moved (.stop s.agenda) (by simp [EventLoop.agenda, free]) unchanged nofun nofun rfl)
  | stopInTask task tasks rest top =>
    exact .inr (moved (.stop s.agenda) (by simp [EventLoop.agenda]) unchanged nofun nofun rfl)
  | drain rest top _ => exact .inl ⟨by simp [EventLoop.agenda], rfl, rfl⟩
  | exit rest top none =>
    exact .inr (moved (.exit s.agenda (rest.flatMap Frame.stops)
      (by simp [EventLoop.agenda, top]) none) (by simp [EventLoop.agenda, top]) unchanged nofun
      nofun rfl)
  | stopped rest top none =>
    exact .inr (moved (.clear s.agenda (rest.flatMap Frame.stops)
      (by simp [EventLoop.agenda, top])) (by simp [EventLoop.agenda, top, none]) unchanged nofun
      nofun rfl)
  | late rest top _ => exact .inl ⟨by simp [EventLoop.agenda, top], rfl, rfl⟩
  | clear rest top =>
    exact .inr (moved (.clear s.agenda (rest.flatMap Frame.stops)
      (by simp [EventLoop.agenda, top])) (by simp [EventLoop.agenda, top]) unchanged nofun
      nofun rfl)

/-- The queue of the loop is an agenda, in every run. -/
theorem eventLoop_agenda {s : EventLoop Thread} (h : (eventLoop Thread).Reachable s) :
    (agenda (Task Thread)).Reachable s.agenda := by
  refine System.Reachable.refine EventLoop.agenda ?_ ?_ h
  · rintro _ rfl
    rfl
  · intro s m s' step
    rcases step_agenda step with ⟨same, _⟩ | ⟨e, moved⟩
    · exact .inl same
    · exact .inr ⟨e, moved.step⟩

/-- Every scheduled task has a number its thread has already given out. -/
def Numbered (s : EventLoop Thread) : Prop := ∀ a ∈ schedule s, a.seq < s.issued a.thread

omit [DecidableEq Thread] in
theorem schedule_eq (s : EventLoop Thread) : schedule s = s.executed ++ s.agenda.pending :=
  List.append_assoc _ _ _

theorem step_numbered {s s' : EventLoop Thread} {m : Move Thread} (h : Step s m s')
    (hs : Numbered s) : Numbered s' := by
  intro a ha
  rw [schedule_eq] at ha
  unfold Numbered at hs
  simp only [schedule_eq] at hs
  rcases step_agenda h with ⟨eq, ran, same⟩ | ⟨e, moved, ran, _, posts⟩
  · rw [eq, ran] at ha
    rw [same]
    exact hs a ha
  · rw [ran, List.append_assoc] at ha
    have known : a ∈ s.executed ++ s.agenda.pending ∨ e = .post a := by
      rcases List.mem_append.mp ha with before | after
      · exact .inl (List.mem_append_left _ before)
      · exact (moved.known after).imp_left (List.mem_append_right _)
    rcases posts with ⟨none, same⟩ | ⟨t, kind, rfl, same⟩
    · rw [same]
      exact hs a (known.resolve_right (none a))
    · rw [same]
      rcases known with old | new
      · have := hs a old
        by_cases own : a.thread = t
        · subst own; simp only [Function.update_self]; omega
        · simpa [Function.update_of_ne own] using this
      · cases new
        simp [EventLoop.next]

omit [DecidableEq Thread] in
/-- The task being pushed is none of those there. -/
theorem next_fresh {s : EventLoop Thread} (hs : Numbered s) (t : Thread) (kind : Kind) :
    ∀ a ∈ schedule s, InOrder a (s.next t kind) := by
  intro a ha own
  have := hs a ha
  simp only [EventLoop.next] at own ⊢
  rw [own] at this
  exact this

/-- A relation in which a pushed task comes after all others, and which lets the queue pass
what is left of an outer batch. -/
theorem step_pairwise {r : Task Thread → Task Thread → Prop} {s s' : EventLoop Thread}
    {m : Move Thread} (h : Step s m s')
    (posted : ∀ t kind, ∀ a ∈ schedule s, r a (s.next t kind))
    (taken : m = .swap → ∀ a ∈ todo s.stack, ∀ b ∈ s.queue, r a b → r b a)
    (hs : (schedule s).Pairwise r) : (schedule s').Pairwise r := by
  simp only [schedule_eq] at posted hs ⊢
  rcases step_agenda h with ⟨eq, ran, _⟩ | ⟨e, moved, ran, swap, posts⟩
  · rw [eq, ran]
    exact hs
  · rw [ran]
    refine moved.pairwise (fun task eq => ?_) (fun eq => taken (swap eq)) hs
    rcases posts with ⟨none, _⟩ | ⟨t, kind, post, _⟩
    · exact absurd eq (none task)
    · cases eq.symm.trans post
      exact posted t kind

theorem reachable_numbered {s : EventLoop Thread} (h : (eventLoop Thread).Reachable s) :
    Numbered s := by
  apply System.invariant _ _ _ h
  · rintro s rfl a ha
    simp [schedule, EventLoop.create] at ha
  · intro s m s' hs step
    exact step_numbered step hs

theorem reachable_nodup {s : EventLoop Thread} (h : (eventLoop Thread).Reachable s) :
    (schedule s).Nodup := by
  apply System.invariant_with _ (fun _ => reachable_numbered) _ _ h
  · rintro s rfl
    exact List.nodup_nil
  · intro s m s' hn hs step
    refine step_pairwise step (fun t kind a ha same => ?_) (fun _ _ _ _ _ => Ne.symm) hs
    exact absurd (next_fresh hn t kind a ha (congrArg Task.thread same)) (by simp [same])

theorem reachable_inOrder {s : EventLoop Thread}
    (h : ((eventLoop Thread).restrict SwapsApart).Reachable s) :
    (schedule s).Pairwise InOrder := by
  have known (s : EventLoop Thread) (hs : ((eventLoop Thread).restrict SwapsApart).Reachable s) :
      Numbered s := reachable_numbered (System.restrict_reachable _ hs)
  apply System.invariant_with _ known _ _ h
  · rintro s rfl
    exact List.Pairwise.nil
  · rintro s m s' hn hs ⟨apart, step⟩
    refine step_pairwise step (next_fresh hn) ?_ hs
    rintro rfl a ha b hb _ same
    exact absurd same.symm (apart a ha b hb)

end

/-- **Tasks run at most once, and in the order their thread queued them.** The
first holds in every run. The second holds in every run in which `stopHandle`
does not take the queue ahead of a task of the same thread. -/
theorem tasks_once_in_order (Thread : Type) [DecidableEq Thread] :
    (∀ s : EventLoop Thread, (eventLoop Thread).Reachable s → s.executed.Nodup) ∧
    (∀ s : EventLoop Thread, ((eventLoop Thread).restrict SwapsApart).Reachable s →
      s.executed.Pairwise InOrder) := by
  constructor
  · intro s h
    have nodup := reachable_nodup h
    rw [schedule, List.append_assoc] at nodup
    exact nodup.sublist (List.sublist_append_left _ _)
  · intro s h
    have order := reachable_inOrder h
    rw [schedule, List.append_assoc] at order
    exact order.sublist (List.sublist_append_left _ _)

/-- Two tasks of one thread, taken in one batch. -/
theorem tasks_once_in_order_batch : ∃ s : EventLoop Unit,
    s.executed = [⟨(), 0, .user⟩, ⟨(), 1, .user⟩] ∧ s.executed.Nodup ∧
    s.executed.Pairwise InOrder := by
  have queued := (System.Reachable.start (M := (eventLoop Unit).restrict SwapsApart) rfl).allow
      (.push _ () .user rfl) trivial
    |>.allow (.count _ () rfl) trivial
    |>.allow (.loadUnset _ () rfl rfl) trivial
    |>.allow (.store _ () rfl) trivial
    |>.allow (.write _ () rfl) trivial
    |>.allow (.push _ () .user rfl) trivial
  have run := queued.allow (.read _ rfl (by decide)) trivial
    |>.allow (.swap _ _ rfl) nofun
    |>.allow (.callUser _ _ _ _ rfl rfl) trivial
    |>.allow (.finish _ _ _ _ rfl) trivial
    |>.allow (.callUser _ _ _ _ rfl rfl) trivial
  exact ⟨_, rfl, (tasks_once_in_order Unit).1 _ (System.restrict_reachable _ run),
    (tasks_once_in_order Unit).2 _ run⟩

/-- A thread calls `stop()` and then queues a task. Both are in one batch when the
loop calls `stopHandle`; the thread queues one more, and `stopHandle` runs that one
before it returns to the batch. -/
theorem stop_overtakes : ∃ s : EventLoop Unit, (eventLoop Unit).Reachable s ∧
    s.executed = [⟨(), 0, .stop⟩, ⟨(), 2, .user⟩, ⟨(), 1, .user⟩] ∧
    ¬ s.executed.Pairwise InOrder := by
  have queued := (System.Reachable.start (M := eventLoop Unit) rfl).next (.push _ () .stop rfl)
    |>.next (.count _ () rfl)
    |>.next (.loadUnset _ () rfl rfl)
    |>.next (.store _ () rfl)
    |>.next (.write _ () rfl)
    |>.next (.push _ () .user rfl)
    |>.next (.count _ () rfl)
    |>.next (.loadSet _ () rfl rfl)
  have stopping := queued.next (.read _ rfl (by decide))
    |>.next (.swap _ _ rfl)
    |>.next (.callStop _ _ _ _ rfl rfl)
  have nested := stopping.next (.push _ () .user rfl)
    |>.next (.drain _ _ rfl (by simp [EventLoop.at]))
    |>.next (.swap _ _ rfl)
    |>.next (.callUser _ _ _ _ rfl rfl)
    |>.next (.finish _ _ _ _ rfl)
    |>.next (.leave _ _ rfl)
  have overtaken := nested.next (.exit _ _ rfl rfl)
    |>.next (.stopped _ _ rfl rfl)
    |>.next (.finish _ _ _ _ rfl)
    |>.next (.callUser _ _ _ _ rfl rfl)
  refine ⟨_, overtaken, rfl, ?_⟩
  intro order
  exact absurd ((List.pairwise_cons.mp (List.pairwise_cons.mp order).2).1 _ List.mem_cons_self rfl)
    (by decide)

end Libatp.Loop
