import Libatp.Workers.ThreadPool
import Mathlib.Data.List.Perm.Basic

/-!
# No task is stranded, none is run twice

The counters read by `add` count workers that were notified and have not woken,
and workers that have decided to leave. So the argument is about the phases: a
worker leaves for want of work only while another one waits, hence before the
shutdown some worker is always there to stay; and whoever adds a task finds a
worker that will look at the queue again, wakes one, or makes one.
-/

namespace Libatp.Workers
open Base ThreadPool

variable {Task : Type}

namespace Phase

/-- Counted in `waiting_threads_`. -/
def waits : Phase Task → Bool
  | blocked | woken => true
  | loop | running _ | leaving | dead => false

/-- Counted in `current_threads_`. -/
def alive : Phase Task → Bool
  | dead => false
  | loop | blocked | woken | running _ | leaving => true

/-- Not past the decision to exit. -/
def stays : Phase Task → Bool
  | loop | blocked | woken | running _ => true
  | leaving | dead => false

/-- Will look at the queue before it can block or leave. -/
def attends : Phase Task → Bool
  | loop | woken | running _ => true
  | blocked | leaving | dead => false

def task : Phase Task → Option Task
  | running t => some t
  | loop | blocked | woken | leaving | dead => none

theorem stays_of_waits {p : Phase Task} (h : p.waits = true) : p.stays = true := by
  cases p with
  | blocked | woken => rfl
  | loop | running _ | leaving | dead => cases h

theorem attends_of_stays {p : Phase Task} (h : p.stays = true) (idle : p.waits = false) :
    p.attends = true := by
  cases p with
  | loop | running _ => rfl
  | blocked | woken => cases idle
  | leaving | dead => cases h

theorem alive_of_attends {p : Phase Task} (h : p.attends = true) : p.alive = true := by
  cases p with
  | loop | woken | running _ => rfl
  | blocked | leaving | dead => cases h

theorem task_of_not_alive {p : Phase Task} (h : p.alive = false) : p.task = none := by
  cases p with
  | dead => rfl
  | loop | blocked | woken | running _ | leaving => cases h

end Phase

/-! ## One worker moves -/

theorem set_perm {α : Type} {l : List α} {i : Nat} {old : α} (h : l[i]? = some old) :
    ∃ rest, l.Perm (old :: rest) ∧ ∀ new, (l.set i new).Perm (new :: rest) := by
  induction l generalizing i with
  | nil => cases h
  | cons a l ih =>
    cases i with
    | zero =>
      cases h
      exact ⟨l, .refl _, fun _ => .refl _⟩
    | succ i =>
      obtain ⟨rest, before, after⟩ := ih h
      refine ⟨a :: rest, (before.cons a).trans (.swap _ _ _), ?_⟩
      intro new
      exact ((after new).cons a).trans (.swap _ _ _)

section
variable {s : ThreadPool Task} {i : Nat} {old new : Phase Task}

theorem countP_put (f : Phase Task → Bool) (here : s.workers[i]? = some old) (new : Phase Task) :
    (s.put i new).workers.countP f + (if f old then 1 else 0) =
      s.workers.countP f + (if f new then 1 else 0) := by
  obtain ⟨rest, before, after⟩ := set_perm here
  have first := before.countP_eq f
  have second : (s.put i new).workers.countP f = (new :: rest).countP f := (after new).countP_eq f
  rw [List.countP_cons] at first second
  omega

theorem mem_put (here : s.workers[i]? = some old) : new ∈ (s.put i new).workers := by
  obtain ⟨rest, _, after⟩ := set_perm here
  exact (after new).mem_iff.mpr List.mem_cons_self

theorem exists_put {f : Phase Task → Bool} (here : s.workers[i]? = some old)
    (keep : f old = true → f new = true) (h : ∃ p ∈ s.workers, f p = true) :
    ∃ p ∈ (s.put i new).workers, f p = true := by
  obtain ⟨rest, before, after⟩ := set_perm here
  obtain ⟨p, hp, fp⟩ := h
  rcases List.mem_cons.mp (before.mem_iff.mp hp) with rfl | other
  · exact ⟨new, mem_put here, keep fp⟩
  · exact ⟨p, (after new).mem_iff.mpr (List.mem_cons_of_mem _ other), fp⟩

/-- The tasks being run, with the one that the worker gives up and the one it takes. -/
theorem tasks_put (here : s.workers[i]? = some old) (new : Phase Task) :
    (old.task.toList ++ (s.put i new).workers.filterMap Phase.task).Perm
      (new.task.toList ++ s.workers.filterMap Phase.task) := by
  obtain ⟨rest, before, after⟩ := set_perm here
  have cons : ∀ p : Phase Task, (p :: rest).filterMap Phase.task =
      p.task.toList ++ rest.filterMap Phase.task := by
    intro p
    cases h : p.task <;> simp [h]
  have first := before.filterMap Phase.task
  have second := (after new).filterMap Phase.task
  rw [cons] at first second
  calc (old.task.toList ++ (s.put i new).workers.filterMap Phase.task)
    _ |>.Perm (old.task.toList ++ (new.task.toList ++ rest.filterMap Phase.task)) :=
      second.append_left _
    _ |>.Perm (new.task.toList ++ (old.task.toList ++ rest.filterMap Phase.task)) :=
      List.perm_append_comm_assoc _ _ _
    _ |>.Perm (new.task.toList ++ s.workers.filterMap Phase.task) := first.symm.append_left _

end

/-- What the second half of the loop does: it takes the first task, or there is none
and the worker leaves or goes on. -/
theorem serve_cases (s : ThreadPool Task) (i : Nat) :
    (∃ t rest, s.callbacks = t :: rest ∧ s.serve i =
      { s.put i (.running t) with callbacks := rest, taken := s.taken ++ [t] }) ∨
    (s.callbacks = [] ∧ s.shutdown = true ∧ s.serve i = s.put i .leaving) ∨
    (s.callbacks = [] ∧ s.shutdown = false ∧ s.serve i = s.put i .loop) := by
  unfold serve
  cases h : s.callbacks with
  | cons t rest => exact .inl ⟨t, rest, rfl, rfl⟩
  | nil =>
    cases down : s.shutdown with
    | true => exact .inr (.inl ⟨rfl, rfl, by simp⟩)
    | false => exact .inr (.inr ⟨rfl, rfl, by simp⟩)

theorem notifyAll_mem {s : ThreadPool Task} {f : Phase Task → Bool}
    (keep : f .blocked = true → f .woken = true) (h : ∃ p ∈ s.workers, f p = true) :
    ∃ p ∈ s.notifyAll.workers, f p = true := by
  obtain ⟨p, hp, fp⟩ := h
  refine ⟨_, List.mem_map_of_mem hp, ?_⟩
  cases p with
  | blocked => exact keep fp
  | loop | woken | running _ | leaving | dead => exact fp

/-! ## The counters -/

structure Counted (s : ThreadPool Task) : Prop where
  waiting : s.waiting = s.workers.countP Phase.waits
  current : s.current = s.workers.countP Phase.alive

/-- A worker moves between two phases, and each counter follows. -/
theorem counted_put {s s' : ThreadPool Task} {i : Nat} {old new : Phase Task} (hs : Counted s)
    (here : s.workers[i]? = some old) (workers : s'.workers = (s.put i new).workers)
    (waiting : s'.waiting + (if old.waits then 1 else 0) =
      s.waiting + (if new.waits then 1 else 0))
    (current : s'.current + (if old.alive then 1 else 0) =
      s.current + (if new.alive then 1 else 0)) : Counted s' := by
  have waits := countP_put Phase.waits here new
  have alive := countP_put Phase.alive here new
  have first := hs.waiting
  have second := hs.current
  constructor <;> rw [workers] <;> omega

theorem Counted.some_waits {s : ThreadPool Task} (hs : Counted s) (h : s.waiting ≠ 0) :
    ∃ p ∈ s.workers, p.waits = true := by
  rw [hs.waiting] at h
  exact List.countP_pos_iff.mp (Nat.pos_of_ne_zero h)

theorem Counted.none_waits {s : ThreadPool Task} (hs : Counted s) (h : s.waiting = 0)
    {p : Phase Task} (hp : p ∈ s.workers) : p.waits = false := by
  rw [hs.waiting, List.countP_eq_zero] at h
  exact Bool.eq_false_iff.mpr (h p hp)

theorem Counted.none_alive {s : ThreadPool Task} (hs : Counted s) (h : s.current = 0)
    {p : Phase Task} (hp : p ∈ s.workers) : p.alive = false := by
  rw [hs.current, List.countP_eq_zero] at h
  exact Bool.eq_false_iff.mpr (h p hp)

theorem Counted.waiting_pos {s : ThreadPool Task} (hs : Counted s) {i : Nat} {p : Phase Task}
    (here : s.workers[i]? = some p) (waits : p.waits = true) : 0 < s.waiting := by
  rw [hs.waiting]
  exact List.countP_pos_iff.mpr ⟨p, List.mem_of_getElem? here, waits⟩

theorem Counted.current_pos {s : ThreadPool Task} (hs : Counted s) {i : Nat} {p : Phase Task}
    (here : s.workers[i]? = some p) (alive : p.alive = true) : 0 < s.current := by
  rw [hs.current]
  exact List.countP_pos_iff.mpr ⟨p, List.mem_of_getElem? here, alive⟩

theorem counted_serve {s : ThreadPool Task} {i : Nat} {old : Phase Task} {waiting : Nat}
    (hs : Counted s) (here : s.workers[i]? = some old) (alive : old.alive = true)
    (count : waiting + (if old.waits then 1 else 0) = s.waiting) :
    Counted ({ s with waiting := waiting }.serve i) := by
  rcases serve_cases { s with waiting := waiting } i with
    ⟨t, rest, _, eq⟩ | ⟨_, _, eq⟩ | ⟨_, _, eq⟩
  all_goals
    rw [eq]
    exact counted_put hs here rfl count (by rw [alive]; rfl)

theorem step_counted {s s' : ThreadPool Task} {actor : Actor} (h : Step s actor s')
    (hs : Counted s) : Counted s' := by
  cases h with
  | addFull task _ _ _ | addNobody task _ _ _ => exact ⟨hs.waiting, hs.current⟩
  | addThread task _ _ _ =>
    constructor
    · have waiting := hs.waiting
      simpa [push, List.countP_append, Phase.waits] using waiting
    · have current := hs.current
      simp only [List.countP_append, List.countP_singleton, Phase.alive, if_true]
      omega
  | addNotify task i _ _ here | wake i here => exact counted_put hs here rfl rfl rfl
  | leave i here _ _ _ => exact counted_put hs here rfl rfl rfl
  | block i here _ _ _ => exact counted_put hs here rfl rfl rfl
  | top i here _ => exact counted_serve hs here rfl rfl
  | resume i here =>
    have one := hs.waiting_pos here rfl
    exact counted_serve hs here rfl (by simp only [Phase.waits, if_true]; omega)
  | finish i task here => exact counted_put hs here rfl rfl rfl
  | die i here =>
    have one := hs.current_pos here rfl
    exact counted_put hs here rfl rfl (Nat.sub_add_cancel one)
  | destroy _ =>
    constructor
    · change s.waiting = (s.workers.map _).countP _
      rw [List.countP_map, hs.waiting]
      apply List.countP_congr
      intro p _
      cases p <;> simp [Phase.waits]
    · change s.current = (s.workers.map _).countP _
      rw [List.countP_map, hs.current]
      apply List.countP_congr
      intro p _
      cases p <;> simp [Phase.alive]
  | recheck _ => exact ⟨hs.waiting, hs.current⟩

/-! ## Somebody is there -/

/-- The destructor has begun once the pool is shut down, and it has ended only when
no thread was left. -/
structure Closing (s : ThreadPool Task) : Prop where
  begun : s.destructor = .idle ↔ s.shutdown = false
  ended : s.destructor = .done → s.current = 0

def Staffed (s : ThreadPool Task) : Prop :=
  s.shutdown = false → ∃ p ∈ s.workers, p.stays = true

def Attended (s : ThreadPool Task) : Prop :=
  s.callbacks ≠ [] → ∃ p ∈ s.workers, p.attends = true

theorem staffed_put {s s' : ThreadPool Task} {i : Nat} {old new : Phase Task} (hs : Staffed s)
    (here : s.workers[i]? = some old) (workers : s'.workers = (s.put i new).workers)
    (up : s'.shutdown = s.shutdown) (keep : old.stays = true → new.stays = true) : Staffed s' := by
  intro running
  rw [workers]
  exact exists_put here keep (hs (up ▸ running))

theorem staffed_serve {s : ThreadPool Task} {i : Nat} {old : Phase Task} (hs : Staffed s)
    (here : s.workers[i]? = some old) (waiting : Nat) :
    Staffed ({ s with waiting := waiting }.serve i) := by
  rcases serve_cases { s with waiting := waiting } i with
    ⟨t, rest, _, eq⟩ | ⟨_, down, eq⟩ | ⟨_, _, eq⟩
  · rw [eq]
    exact staffed_put hs here rfl rfl (fun _ => rfl)
  · rw [eq]
    intro up
    have clash := up.symm.trans (down : s.shutdown = true)
    cases clash
  · rw [eq]
    exact staffed_put hs here rfl rfl (fun _ => rfl)

theorem step_staffed {s s' : ThreadPool Task} {actor : Actor} (h : Step s actor s')
    (core : 1 ≤ s.core) (hc : Counted s) (hs : Staffed s) : Staffed s' := by
  cases h with
  | addFull task _ _ _ | addNobody task _ _ _ => exact hs
  | addThread task _ _ _ => exact fun _ => ⟨.loop, by simp, rfl⟩
  | addNotify task i _ _ here | wake i here => exact staffed_put hs here rfl rfl (fun _ => rfl)
  | leave i here _ _ enough =>
    intro _
    have others : ∃ p ∈ (s.put i .leaving).workers, p.waits = true :=
      exists_put here nofun (hc.some_waits (by omega))
    obtain ⟨p, hp, waits⟩ := others
    exact ⟨p, hp, p.stays_of_waits waits⟩
  | block i here _ _ _ => exact staffed_put hs here rfl rfl (fun _ => rfl)
  | top i here _ => exact staffed_serve hs here s.waiting
  | resume i here => exact staffed_serve hs here (s.waiting - 1)
  | finish i task here => exact staffed_put hs here rfl rfl (fun _ => rfl)
  | die i here => exact staffed_put hs here rfl rfl nofun
  | destroy _ => exact fun up => Bool.noConfusion up
  | recheck _ => exact hs

theorem attended_serve {s : ThreadPool Task} {i : Nat} {old : Phase Task}
    (here : s.workers[i]? = some old) (waiting : Nat) :
    Attended ({ s with waiting := waiting }.serve i) := by
  intro more
  rcases serve_cases { s with waiting := waiting } i with
    ⟨t, rest, _, eq⟩ | ⟨empty, _, eq⟩ | ⟨empty, _, eq⟩
  · rw [eq]
    exact ⟨.running t, mem_put here, rfl⟩
  · rw [eq] at more
    exact absurd empty more
  · rw [eq] at more
    exact absurd empty more

theorem step_attended {s s' : ThreadPool Task} {actor : Actor} (h : Step s actor s')
    (hc : Counted s) (hd : Closing s) (staffed : Staffed s) (hs : Attended s) : Attended s' := by
  cases h with
  | addFull task before idle _ =>
    intro _
    obtain ⟨p, hp, stays⟩ := staffed (hd.begun.mp before)
    exact ⟨p, hp, p.attends_of_stays stays (hc.none_waits idle hp)⟩
  | addThread task _ _ _ => exact fun _ => ⟨.loop, by simp, rfl⟩
  | addNotify task i _ _ here => exact fun _ => ⟨.woken, mem_put here, rfl⟩
  | addNobody task _ some none =>
    intro _
    obtain ⟨p, hp, waits⟩ := hc.some_waits some
    cases p with
    | blocked => exact absurd hp none
    | woken => exact ⟨.woken, hp, rfl⟩
    | loop | running _ | leaving | dead => cases waits
  | wake i here => exact fun more => exists_put here (fun _ => rfl) (hs more)
  | leave i here _ empty _ | block i here _ empty _ => exact fun more => absurd empty more
  | top i here _ => exact attended_serve here s.waiting
  | resume i here => exact attended_serve here (s.waiting - 1)
  | finish i task here => exact fun more => exists_put here (fun _ => rfl) (hs more)
  | die i here => exact fun more => exists_put here nofun (hs more)
  | destroy _ => exact fun more => notifyAll_mem (fun _ => rfl) (hs more)
  | recheck _ => exact hs

section
variable (s : ThreadPool Task) (i : Nat)

/-- The worker looks at the queue and changes nothing else. -/
theorem serve_frame : s.serve i = { s with
    callbacks := (s.serve i).callbacks
    workers := (s.serve i).workers
    taken := (s.serve i).taken } := by
  unfold serve
  split
  · rfl
  · split <;> rfl

@[simp] theorem serve_destructor : (s.serve i).destructor = s.destructor := by
  rw [serve_frame]

@[simp] theorem serve_shutdown : (s.serve i).shutdown = s.shutdown := by
  rw [serve_frame]

@[simp] theorem serve_current : (s.serve i).current = s.current := by
  rw [serve_frame]

@[simp] theorem serve_waiting : (s.serve i).waiting = s.waiting := by
  rw [serve_frame]

@[simp] theorem serve_core : (s.serve i).core = s.core := by
  rw [serve_frame]

end

theorem step_closing {s s' : ThreadPool Task} {actor : Actor} (h : Step s actor s')
    (hs : Closing s) : Closing s' := by
  cases h with
  | addFull task _ _ _ | addNotify task i _ _ _ | addNobody task _ _ _ => exact ⟨hs.begun, hs.ended⟩
  | addThread task before _ _ =>
    refine ⟨hs.begun, fun done => ?_⟩
    cases before.symm.trans done
  | wake i _ | leave i _ _ _ _ | block i _ _ _ _ | finish i task _ => exact ⟨hs.begun, hs.ended⟩
  | top i _ _ | resume i _ => exact ⟨by simpa using hs.begun, by simpa using hs.ended⟩
  | die i _ =>
    refine ⟨hs.begun, fun done => ?_⟩
    have none := hs.ended done
    dsimp only
    omega
  | destroy _ => by_cases none : s.current = 0 <;> constructor <;> simp [test, notifyAll, none]
  | recheck waits =>
    have down : s.shutdown ≠ false := fun up => by
      have idle := hs.begun.mpr up
      cases idle.symm.trans waits
    by_cases none : s.current = 0 <;> constructor <;> simp [test, none, down]

theorem step_core {s s' : ThreadPool Task} {actor : Actor} (h : Step s actor s') :
    s'.core = s.core := by
  cases h with
  | top i _ _ | resume i _ => simp
  | _ => rfl

/-! ## The history -/

structure Recorded (s : ThreadPool Task) : Prop where
  order : s.added = s.taken ++ s.callbacks
  runs : s.taken.Perm (s.finished ++ s.workers.filterMap Phase.task)

/-- A worker that runs nothing moves to where it runs nothing. -/
theorem idle_put {s : ThreadPool Task} {i : Nat} {old new : Phase Task}
    (here : s.workers[i]? = some old) (before : old.task = none) (after : new.task = none) :
    (s.workers.filterMap Phase.task).Perm ((s.put i new).workers.filterMap Phase.task) := by
  have moved := tasks_put here new
  rw [before, after] at moved
  exact moved.symm

theorem recorded_serve {s : ThreadPool Task} {i : Nat} {old : Phase Task} (hs : Recorded s)
    (here : s.workers[i]? = some old) (idle : old.task = none) (waiting : Nat) :
    Recorded ({ s with waiting := waiting }.serve i) := by
  rcases serve_cases { s with waiting := waiting } i with
    ⟨t, rest, front, eq⟩ | ⟨_, _, eq⟩ | ⟨_, _, eq⟩
  · rw [eq]
    constructor
    · change s.added = (s.taken ++ [t]) ++ rest
      rw [hs.order, (front : s.callbacks = t :: rest), List.append_assoc, List.singleton_append]
    · have moved : ((s.put i (.running t)).workers.filterMap Phase.task).Perm
          (t :: s.workers.filterMap Phase.task) := by
        have both := tasks_put here (.running t)
        rw [idle] at both
        exact both
      calc s.taken ++ [t]
        _ |>.Perm (t :: s.taken) := List.perm_append_comm
        _ |>.Perm (t :: (s.finished ++ s.workers.filterMap Phase.task)) := hs.runs.cons t
        _ |>.Perm (s.finished ++ t :: s.workers.filterMap Phase.task) := List.perm_middle.symm
        _ |>.Perm (s.finished ++ (s.put i (.running t)).workers.filterMap Phase.task) :=
          moved.symm.append_left _
  · rw [eq]
    exact ⟨hs.order, hs.runs.trans ((idle_put here idle rfl).append_left _)⟩
  · rw [eq]
    exact ⟨hs.order, hs.runs.trans ((idle_put here idle rfl).append_left _)⟩

theorem step_recorded {s s' : ThreadPool Task} {actor : Actor} (h : Step s actor s')
    (hs : Recorded s) : Recorded s' := by
  have pushed (task : Task) : s.added ++ [task] = s.taken ++ (s.callbacks ++ [task]) := by
    rw [hs.order, List.append_assoc]
  cases h with
  | addFull task _ _ _ | addNobody task _ _ _ => exact ⟨pushed task, hs.runs⟩
  | addThread task _ _ _ =>
    refine ⟨pushed task, ?_⟩
    have none : [Phase.loop].filterMap Phase.task = ([] : List Task) := rfl
    dsimp only
    rw [List.filterMap_append, none, List.append_nil]
    exact hs.runs
  | addNotify task i _ _ here =>
    exact ⟨pushed task, hs.runs.trans ((idle_put here rfl rfl).append_left _)⟩
  | wake i here => exact ⟨hs.order, hs.runs.trans ((idle_put here rfl rfl).append_left _)⟩
  | leave i here _ _ _ | block i here _ _ _ =>
    exact ⟨hs.order, hs.runs.trans ((idle_put here rfl rfl).append_left _)⟩
  | top i here _ => exact recorded_serve hs here rfl s.waiting
  | resume i here => exact recorded_serve hs here rfl (s.waiting - 1)
  | finish i task here =>
    refine ⟨hs.order, ?_⟩
    have moved : (task :: (s.put i .loop).workers.filterMap Phase.task).Perm
        (s.workers.filterMap Phase.task) := tasks_put here .loop
    calc s.taken
      _ |>.Perm (s.finished ++ s.workers.filterMap Phase.task) := hs.runs
      _ |>.Perm (s.finished ++ (task :: (s.put i .loop).workers.filterMap Phase.task)) :=
        moved.symm.append_left _
      _ = (s.finished ++ [task]) ++ (s.put i .loop).workers.filterMap Phase.task := by simp
  | die i here => exact ⟨hs.order, hs.runs.trans ((idle_put here rfl rfl).append_left _)⟩
  | destroy _ =>
    refine ⟨hs.order, ?_⟩
    have same : s.notifyAll.workers.filterMap Phase.task = s.workers.filterMap Phase.task := by
      simp only [notifyAll, List.filterMap_map]
      apply List.filterMap_congr
      intro p _
      cases p <;> rfl
    change s.taken.Perm (s.finished ++ s.notifyAll.workers.filterMap Phase.task)
    rw [same]
    exact hs.runs
  | recheck _ => exact ⟨hs.order, hs.runs⟩

/-! ## Whole runs -/

structure Sound (core : Nat) (s : ThreadPool Task) : Prop where
  core : s.core = core
  counted : Counted s
  closing : Closing s
  staffed : Staffed s
  attended : Attended s
  recorded : Recorded s

theorem create_counted (core : Nat) : Counted (create Task core) := by
  constructor
  · simp [create, List.countP_replicate, Phase.waits]
  · simp [create, List.countP_replicate, Phase.alive]

theorem create_closing (core : Nat) : Closing (create Task core) :=
  ⟨by simp [create], nofun⟩

theorem create_sound {core : Nat} (some : 1 ≤ core) : Sound core (create Task core) where
  core := rfl
  counted := create_counted core
  closing := create_closing core
  staffed := fun _ => ⟨.loop, List.mem_replicate.mpr ⟨by omega, rfl⟩, rfl⟩
  attended := fun more => absurd rfl more
  recorded := ⟨rfl, by simp [create, List.filterMap_replicate, Phase.task]⟩

theorem reachable_sound {core : Nat} (some : 1 ≤ core) {s : ThreadPool Task}
    (h : (threadPool Task core).Reachable s) : Sound core s := by
  apply System.invariant _ _ _ h
  · rintro s rfl
    exact create_sound some
  · intro s actor s' hs step
    have enough : 1 ≤ s.core := by rw [hs.core]; exact some
    exact {
      core := (step_core step).trans hs.core
      counted := step_counted step hs.counted
      closing := step_closing step hs.closing
      staffed := step_staffed step enough hs.counted hs.staffed
      attended := step_attended step hs.counted hs.closing hs.staffed hs.attended
      recorded := step_recorded step hs.recorded }

/-- **No task is stranded or run twice.** Tasks are taken in the order they were
added; what was taken has been run or is being run, once; while tasks are queued
some worker will look at the queue; and when the destructor has seen that no thread
is left, every task has been run. -/
theorem no_stranded_task {core : Nat} (some : 1 ≤ core) {s : ThreadPool Task}
    (h : (threadPool Task core).Reachable s) :
    s.added = s.taken ++ s.callbacks ∧
    s.taken.Perm (s.finished ++ s.workers.filterMap Phase.task) ∧
    (s.callbacks ≠ [] → ∃ p ∈ s.workers, p.attends = true) ∧
    (s.shutdown = true → s.current = 0 → s.callbacks = []) ∧
    (s.destructor = .done → s.callbacks = [] ∧ s.added.Perm s.finished) := by
  have hs := reachable_sound some h
  have drained : s.current = 0 → s.callbacks = [] := by
    intro none
    by_contra more
    obtain ⟨p, hp, attends⟩ := hs.attended more
    have clash := (p.alive_of_attends attends).symm.trans (hs.counted.none_alive none hp)
    cases clash
  refine ⟨hs.recorded.order, hs.recorded.runs, hs.attended, fun _ => drained, ?_⟩
  intro done
  have none := hs.closing.ended done
  have empty := drained none
  have idle : s.workers.filterMap Phase.task = [] := by
    rw [List.filterMap_eq_nil_iff]
    intro p hp
    exact p.task_of_not_alive (hs.counted.none_alive none hp)
  have runs := hs.recorded.runs
  rw [idle, List.append_nil] at runs
  refine ⟨empty, ?_⟩
  rw [hs.recorded.order, empty, List.append_nil]
  exact runs

/-- The core thread of a pool waits and is notified of the first of two tasks; the second finds
nobody left to notify. The thread runs both before the end of the pool. -/
theorem no_stranded_task_single : ∃ s t : ThreadPool Nat, (threadPool Nat 1).Reachable s ∧
    s.callbacks = [7, 8] ∧ s.waiting = 1 ∧ (∃ p ∈ s.workers, p.attends = true) ∧
    (threadPool Nat 1).Reachable t ∧ t.destructor = .done ∧ t.added = [7, 8] ∧
    t.callbacks = [] ∧ t.added.Perm t.finished := by
  have notified := (System.Reachable.start (M := threadPool Nat 1) rfl).next
      (.block _ 0 rfl rfl rfl Nat.zero_lt_one)
    |>.next (.addNotify _ 7 0 rfl Nat.one_ne_zero rfl)
    |>.next (.addNobody _ 8 rfl Nat.one_ne_zero (by decide))
  have ran := notified.next (.resume _ 0 rfl)
    |>.next (.finish _ 0 7 rfl)
    |>.next (.top _ 0 rfl (.inr (List.cons_ne_nil 8 [])))
    |>.next (.finish _ 0 8 rfl)
  have ended := ran.next (.destroy _ rfl)
    |>.next (.top _ 0 rfl (.inl rfl))
    |>.next (.die _ 0 rfl)
    |>.next (.recheck _ rfl)
  have attended := (no_stranded_task (Nat.le_refl 1) notified).2.2.1 (List.cons_ne_nil 7 [8])
  have all := (no_stranded_task (Nat.le_refl 1) ended).2.2.2.2 rfl
  exact ⟨_, _, notified, rfl, rfl, attended, ended, rfl, rfl, all.1, all.2⟩

end Libatp.Workers
