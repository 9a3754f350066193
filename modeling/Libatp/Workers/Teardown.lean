import Libatp.Base.Progress
import Libatp.Workers.Counters
import Mathlib.Algebra.BigOperators.Group.List.Basic
import Mathlib.Algebra.GroupWithZero.Nat

/-!
# The destructor of the pool returns

Workers and destructor wait on one condition variable, and the thread that dies last
notifies one waiter. Here that notification is kept apart from wake-ups without a cause:
`signalled` says that the destructor, in its `wait`, has been notified. It is enough that
the last thread notifies: whenever the destructor waits and no thread is left, it has been.
The workers are notified when the destructor begins, and none waits after that.
-/

namespace Libatp.Workers
open Base ThreadPool

variable {Task : Type}

structure Noted (Task : Type) where
  pool : ThreadPool Task
  signalled : Bool

/-- Why something moves. -/
inductive Cause where
  | actor (a : Actor)
  /-- the destructor's `wait` returned for no reason -/
  | spurious
  deriving DecidableEq, Repr

/-- The moves of the pool's own threads, as against calls from outside and wake-ups for no
reason. -/
def Cause.own : Cause → Bool
  | .actor (.worker _) | .actor .destructor => true
  | .actor .caller | .actor (.spurious _) | .spurious => false

/-- A call of `add`. -/
def Cause.adds : Cause → Bool
  | .actor .caller => true
  | .actor (.worker _) | .actor .destructor | .actor (.spurious _) | .spurious => false

/-- The test in `DynamicThread::executer`, for the thread `i` that has just moved. -/
def Last (s : ThreadPool Task) (i : Nat) (t : ThreadPool Task) : Prop :=
  s.workers[i]? = some .leaving ∧ t.shutdown = true ∧ t.current = 0

inductive NotedStep : Noted Task → Cause → Noted Task → Prop
  | work (s) (i : Nat) (t : ThreadPool Task) (step : Step s.pool (.worker i) t)
      (other : ¬ Last s.pool i t) :
      NotedStep s (.actor (.worker i)) { s with pool := t }
  | lastToWorker (s) (i j : Nat) (t : ThreadPool Task) (step : Step s.pool (.worker i) t)
      (last : Last s.pool i t) (here : t.workers[j]? = some .blocked) :
      NotedStep s (.actor (.worker i)) { s with pool := t.put j .woken }
  | lastToDestructor (s) (i : Nat) (t : ThreadPool Task) (step : Step s.pool (.worker i) t)
      (last : Last s.pool i t) (waits : t.destructor = .waiting) :
      NotedStep s (.actor (.worker i)) ⟨t, true⟩
  | lastToNobody (s) (i : Nat) (t : ThreadPool Task) (step : Step s.pool (.worker i) t)
      (last : Last s.pool i t) (none : .blocked ∉ t.workers) (away : t.destructor ≠ .waiting) :
      NotedStep s (.actor (.worker i)) { s with pool := t }
  | wake (s) (i : Nat) (t : ThreadPool Task) (step : Step s.pool (.spurious i) t) :
      NotedStep s (.actor (.spurious i)) { s with pool := t }
  | add (s) (t : ThreadPool Task) (step : Step s.pool .caller t) :
      NotedStep s (.actor .caller) { s with pool := t }
  | lateAdd (s) (t : ThreadPool Task) (waits : s.pool.destructor = .waiting)
      (step : Step { s.pool with destructor := .idle } .caller t) :
      NotedStep s (.actor .caller) { s with pool := { t with destructor := .waiting } }
  | lateToDestructor (s) (task : Task) (waits : s.pool.destructor = .waiting)
      (some : s.pool.waiting ≠ 0) :
      NotedStep s (.actor .caller) ⟨s.pool.push task, true⟩
  | destroy (s) (t : ThreadPool Task) (before : s.pool.destructor = .idle)
      (step : Step s.pool .destructor t) :
      NotedStep s (.actor .destructor) ⟨t, false⟩
  | recheck (s) (t : ThreadPool Task) (waits : s.pool.destructor = .waiting)
      (signalled : s.signalled = true) (step : Step s.pool .destructor t) :
      NotedStep s (.actor .destructor) ⟨t, false⟩
  | spurious (s) (t : ThreadPool Task) (waits : s.pool.destructor = .waiting)
      (step : Step s.pool .destructor t) :
      NotedStep s .spurious { s with pool := t }

def notedPool (Task : Type) (core : Nat) : System (Noted Task) Cause where
  start s := s = ⟨.create Task core, false⟩
  step := NotedStep

variable {core : Nat} {s t : Noted Task}

theorem noted_shared (h : (notedPool Task core).Reachable s) :
    (sharedPool Task core).Reachable s.pool := by
  apply System.invariant _ _ _ h
  · rintro s rfl
    exact .start rfl
  · intro s e t before step
    cases step with
    | work i t step _ | lastToDestructor i t step _ _ | lastToNobody i t step _ _ _ =>
      exact before.next (.inl step)
    | lastToWorker i j t step _ here =>
      exact (before.next (.inl step)).next (.inl (.wake t j here))
    | wake i t step => exact before.next (.inl step)
    | add t step => exact before.next (.inl step)
    | lateAdd t waits step => exact before.next (.inr ⟨rfl, .call _ t waits step⟩)
    | lateToDestructor task waits some =>
      exact before.next (.inr ⟨rfl, .toDestructor _ task waits some⟩)
    | destroy t _ step | recheck t _ _ step | spurious t _ step => exact before.next (.inl step)

/-! ## The last notification -/

theorem worker_alive {s t : ThreadPool Task} {i : Nat} (h : Step s (.worker i) t) :
    ∃ p, s.workers[i]? = some p ∧ p.alive = true := by
  cases h with
  | leave _ here | block _ here | top _ here | resume _ here | finish _ _ here | die _ here =>
    exact ⟨_, here, rfl⟩

/-- Only a thread that dies lowers the number of threads. -/
theorem worker_current {s t : ThreadPool Task} {i : Nat} (h : Step s (.worker i) t) :
    t.current = s.current ∨ s.workers[i]? = some .leaving := by
  cases h with
  | leave | block | finish => exact .inl rfl
  | top | resume => exact .inl (serve_current _ _)
  | die _ here => exact .inr here

theorem worker_destructor {s t : ThreadPool Task} {i : Nat} (h : Step s (.worker i) t) :
    t.destructor = s.destructor := by
  cases h with
  | leave | block | finish | die => rfl
  | top | resume => exact serve_destructor _ _

theorem worker_shutdown {s t : ThreadPool Task} {i : Nat} (h : Step s (.worker i) t) :
    t.shutdown = s.shutdown := by
  cases h with
  | leave | block | finish | die => rfl
  | top | resume => exact serve_shutdown _ _

theorem add_destructor {s t : ThreadPool Task} (h : Step s .caller t) :
    s.destructor = .idle ∧ t.destructor = .idle := by
  cases h with
  | addFull _ before | addThread _ before | addNotify _ _ before | addNobody _ before =>
    exact ⟨before, before⟩

theorem add_current {s t : ThreadPool Task} (h : Step s .caller t) : s.current ≤ t.current := by
  cases h with
  | addFull | addNotify | addNobody => exact Nat.le_refl _
  | addThread => exact Nat.le_succ _

theorem destructor_waits {s t : ThreadPool Task} (h : Step s .destructor t)
    (waits : t.destructor = .waiting) : t.current ≠ 0 := by
  intro none
  cases h with
  | destroy | recheck =>
    simp only [test] at waits none
    rw [if_pos none] at waits
    cases waits

/-- Whenever the destructor waits and no thread is left, it has been notified. -/
def Heard (s : Noted Task) : Prop :=
  s.pool.destructor = .waiting → s.pool.current = 0 → s.signalled = true

theorem step_heard {e : Cause} (h : NotedStep s e t) (hs : Accounted core s.pool)
    (heard : Heard s) : Heard t := by
  intro waiting none
  cases h with
  | work i t step other =>
    exfalso
    apply other
    have begun : s.pool.shutdown = true := by
      cases down : s.pool.shutdown with
      | true => rfl
      | false =>
        have idle := hs.closing.begun.mpr down
        cases ((worker_destructor step).trans idle).symm.trans waiting
    rcases worker_current step with same | leaving
    · obtain ⟨p, here, alive⟩ := worker_alive step
      have some := hs.counted.current_pos here alive
      dsimp only at none
      omega
    · exact ⟨leaving, (worker_shutdown step).trans begun, none⟩
  | lastToWorker i j t step last here =>
    have some := (step_counted step hs.counted).current_pos here rfl
    have gone := last.2.2
    omega
  | lastToDestructor => rfl
  | lastToNobody i t step last _ away => exact absurd waiting away
  | wake i t step =>
    cases step with
    | wake => exact heard waiting none
  | add t step => cases (add_destructor step).2.symm.trans waiting
  | lateAdd t waits step =>
    have fewer := add_current step
    dsimp only at none fewer
    exact heard waits (by omega)
  | lateToDestructor => rfl
  | destroy t _ step | recheck t _ _ step | spurious t _ step =>
    exact absurd none (destructor_waits step waiting)

theorem reachable_heard (h : (notedPool Task core).Reachable s) : Heard s := by
  refine System.invariant_with _ (Q := fun s => Accounted core s.pool) ?_ ?_ ?_ h
  · intro s reach
    exact reachable_accounted (noted_shared reach)
  · rintro s rfl waits
    cases waits
  · intro s e t hs heard step
    exact step_heard step hs heard

/-! ## Nobody is left waiting -/

/-- The destructor has notified every worker, and none waits when the pool is shut down. -/
def Roused (s : ThreadPool Task) : Prop := s.shutdown = true → .blocked ∉ s.workers

theorem roused_put {s : ThreadPool Task} {i : Nat} {new : Phase Task} (hs : Roused s)
    (stirs : new ≠ .blocked) : Roused (s.put i new) := by
  intro down mem
  rcases List.mem_or_eq_of_mem_set mem with old | same
  · exact hs down old
  · exact stirs same.symm

theorem roused_serve {s : ThreadPool Task} (hs : Roused s) (i waiting : Nat) :
    Roused ({ s with waiting := waiting }.serve i) := by
  rcases serve_cases { s with waiting := waiting } i with
    ⟨t, rest, _, eq⟩ | ⟨_, _, eq⟩ | ⟨_, _, eq⟩
  · rw [eq]
    exact roused_put hs nofun
  · rw [eq]
    exact roused_put hs nofun
  · rw [eq]
    exact roused_put hs nofun

theorem blocked_notMem_notifyAll (s : ThreadPool Task) : .blocked ∉ s.notifyAll.workers := by
  intro mem
  obtain ⟨p, _, now⟩ := List.mem_map.mp mem
  cases p with
  | loop | blocked | woken | running _ | leaving | dead => cases now

theorem step_roused {s t : ThreadPool Task} {actor : Actor} (h : Step s actor t)
    (hs : Roused s) : Roused t := by
  cases h with
  | addFull | addNobody | recheck => exact hs
  | addThread =>
    intro down mem
    rcases List.mem_append.mp mem with old | new
    · exact hs down old
    · cases List.mem_singleton.mp new
  | addNotify | wake | leave | finish | die => exact roused_put hs nofun
  | block _ _ up => exact fun down => by cases down.symm.trans up
  | top i => exact roused_serve hs i s.waiting
  | resume i => exact roused_serve hs i (s.waiting - 1)
  | destroy => exact fun _ => blocked_notMem_notifyAll s

theorem shared_roused {s : ThreadPool Task} (h : (sharedPool Task core).Reachable s) :
    Roused s := by
  apply System.invariant _ _ _ h
  · rintro s rfl down
    cases down
  · rintro s actor t hs (step | ⟨_, late⟩)
    · exact step_roused step hs
    · exact lateAdd_keeps step_roused (fun _ hs => hs) (fun _ hs => hs) late hs

/-! ## What remains to be done -/

/-- More than the number of steps to the end of the thread, tasks apart. -/
def Phase.weight : Phase Task → Nat
  | dead => 0
  | leaving => 2
  | loop | woken => 3
  | blocked | running _ => 4

def effort (s : ThreadPool Task) : Nat :=
  2 * s.callbacks.length + (s.workers.map Phase.weight).sum

def Noted.work (s : Noted Task) : Nat := effort s.pool + if s.signalled then 1 else 0

theorem effort_put {s : ThreadPool Task} {i : Nat} {old : Phase Task}
    (here : s.workers[i]? = some old) (new : Phase Task) :
    effort (s.put i new) + old.weight = effort s + new.weight := by
  obtain ⟨rest, before, after⟩ := set_perm here
  have first := (before.map Phase.weight).sum_eq
  have second : ((s.put i new).workers.map Phase.weight).sum =
    ((new :: rest).map Phase.weight).sum := ((after new).map Phase.weight).sum_eq
  rw [List.map_cons, List.sum_cons] at first second
  have queue : (s.put i new).callbacks = s.callbacks := rfl
  simp only [effort, queue]
  omega

theorem effort_serve {s : ThreadPool Task} {i : Nat} {old : Phase Task} (waiting : Nat)
    (here : s.workers[i]? = some old) (down : s.shutdown = true) (weight : old.weight = 3) :
    effort ({ s with waiting := waiting }.serve i) < effort s := by
  rcases serve_cases { s with waiting := waiting } i with
    ⟨t, rest, front, eq⟩ | ⟨_, _, eq⟩ | ⟨_, up, eq⟩
  · have moved := effort_put here (.running t)
    have queue : s.callbacks = t :: rest := front
    rw [weight] at moved
    rw [eq]
    simp only [effort, put, Phase.weight, queue, List.length_cons] at moved ⊢
    omega
  · have moved := effort_put here .leaving
    rw [weight] at moved
    rw [eq]
    simp only [effort, put, Phase.weight] at moved ⊢
    omega
  · cases down.symm.trans up

/-- A thread of a pool that is shut down comes nearer to its end, and the last step of a
thread makes room for the notification. -/
theorem worker_effort {s t : ThreadPool Task} {i : Nat} (h : Step s (.worker i) t)
    (down : s.shutdown = true) :
    effort t < effort s ∧ (s.workers[i]? = some .leaving → effort t + 2 ≤ effort s) := by
  cases h with
  | leave _ here up | block _ here up => cases down.symm.trans up
  | top _ here =>
    exact ⟨effort_serve s.waiting here down rfl, fun leaving => by cases here.symm.trans leaving⟩
  | resume _ here =>
    exact ⟨effort_serve (s.waiting - 1) here down rfl,
      fun leaving => by cases here.symm.trans leaving⟩
  | finish _ task here =>
    have moved := effort_put here .loop
    simp only [Phase.weight, effort, put] at moved ⊢
    exact ⟨by omega, fun leaving => by cases here.symm.trans leaving⟩
  | die _ here =>
    have moved := effort_put here .dead
    simp only [Phase.weight, effort, put] at moved ⊢
    exact ⟨by omega, fun _ => by omega⟩

theorem add_effort {s t : ThreadPool Task} (h : Step s .caller t) : effort t ≤ effort s + 5 := by
  cases h with
  | addFull | addNobody =>
    simp only [effort, push, List.length_append, List.length_singleton]
    omega
  | addThread =>
    simp only [effort, push, List.length_append, List.length_singleton, List.map_append,
      List.map_singleton, List.sum_append, List.sum_singleton, Phase.weight]
    omega
  | addNotify task i _ _ here =>
    have here : (s.push task).workers[i]? = some .blocked := here
    have moved := effort_put here .woken
    simp only [Phase.weight, effort, push, List.length_append, List.length_singleton] at moved ⊢
    omega

theorem destructor_effort {s t : ThreadPool Task} (h : Step s .destructor t)
    (waits : s.destructor = .waiting) : effort t = effort s := by
  cases h with
  | destroy before => cases before.symm.trans waits
  | recheck => rfl

theorem wake_effort {s t : ThreadPool Task} {i : Nat} (h : Step s (.spurious i) t) :
    effort t ≤ effort s := by
  cases h with
  | wake _ here =>
    have moved := effort_put here .woken
    simp only [Phase.weight] at moved
    omega

/-- A wake-up for no reason adds no work. -/
theorem add_work {e : Cause} (h : NotedStep s e t) (outside : e.own = false) :
    t.work ≤ s.work + if e.adds then 5 else 0 := by
  cases h with
  | work | lastToWorker | lastToDestructor | lastToNobody | destroy | recheck => cases outside
  | wake i t step =>
    have less := wake_effort step
    simp only [Noted.work, Cause.adds, Bool.false_eq_true, if_false]
    omega
  | add t step =>
    have more := add_effort step
    simp only [Noted.work, Cause.adds, if_true]
    omega
  | lateAdd t _ step =>
    have more := add_effort step
    simp only [Noted.work, effort, Cause.adds, if_true] at more ⊢
    omega
  | lateToDestructor task =>
    simp only [Noted.work, effort, push, List.length_append, List.length_singleton, Cause.adds,
      if_true]
    omega
  | spurious t waits step =>
    have same := destructor_effort step waits
    simp only [Noted.work, same, Cause.adds, Bool.false_eq_true, if_false]
    omega

theorem own_work {e : Cause} (h : NotedStep s e t) (hs : Accounted core s.pool)
    (begun : s.pool.destructor ≠ .idle) (own : e.own = true) : t.work < s.work := by
  have down : s.pool.shutdown = true := by
    cases h : s.pool.shutdown with
    | true => rfl
    | false => exact absurd (hs.closing.begun.mpr h) begun
  cases h with
  | work i t step _ | lastToNobody i t step _ _ _ =>
    have less := (worker_effort step down).1
    simp only [Noted.work]
    omega
  | lastToWorker i j t step _ here =>
    have less := (worker_effort step down).1
    have moved := effort_put here .woken
    simp only [Phase.weight] at moved
    simp only [Noted.work]
    omega
  | lastToDestructor i t step last _ =>
    have less := (worker_effort step down).2 last.1
    simp only [Noted.work, if_true]
    omega
  | destroy t before _ => exact absurd before begun
  | recheck t waits signalled step =>
    have same := destructor_effort step waits
    simp only [Noted.work, same, signalled, if_true, Bool.false_eq_true, if_false]
    omega
  | wake | add | lateAdd | lateToDestructor | spurious => cases own

theorem step_begun {e : Cause} (h : NotedStep s e t) (begun : s.pool.destructor ≠ .idle) :
    t.pool.destructor ≠ .idle := by
  cases h with
  | work i t step _ | lastToDestructor i t step _ _ | lastToNobody i t step _ _ _ =>
    exact fun idle => begun ((worker_destructor step).symm.trans idle)
  | lastToWorker i j t step _ here =>
    exact fun idle => begun ((worker_destructor step).symm.trans idle)
  | wake i t step =>
    cases step with
    | wake => exact begun
  | add t step => exact absurd (add_destructor step).1 begun
  | lateAdd =>
    intro idle
    cases idle
  | lateToDestructor => exact begun
  | destroy t before _ => exact absurd before begun
  | recheck t waits _ step | spurious t waits step =>
    cases step with
    | destroy before => cases before.symm.trans waits
    | recheck =>
      simp only [test]
      split <;> decide

/-! ## Somebody can move until the end -/

theorem moves_of_alive (hs : Accounted core s.pool) (roused : Roused s.pool)
    (waits : s.pool.destructor = .waiting) {i : Nat} {p : Phase Task}
    (here : s.pool.workers[i]? = some p) (alive : p.alive = true) :
    ∃ t, NotedStep s (.actor (.worker i)) t := by
  have down : s.pool.shutdown = true := by
    cases h : s.pool.shutdown with
    | true => rfl
    | false => cases (hs.closing.begun.mpr h).symm.trans waits
  have other (q : Phase Task) (t : ThreadPool Task) (hq : s.pool.workers[i]? = some q)
      (stays : q ≠ .leaving) : ¬ Last s.pool i t := by
    intro last
    exact stays (Option.some.inj (hq.symm.trans last.1))
  cases p with
  | dead => cases alive
  | loop => exact ⟨_, .work s i _ (.top _ i here (.inl down)) (other _ _ here nofun)⟩
  | blocked => exact absurd (List.mem_of_getElem? here) (roused down)
  | woken => exact ⟨_, .work s i _ (.resume _ i here) (other _ _ here nofun)⟩
  | running task => exact ⟨_, .work s i _ (.finish _ i task here) (other _ _ here nofun)⟩
  | leaving =>
    have step := Step.die s.pool i here
    by_cases last : Last s.pool i
        { s.pool.put i .dead with current := s.pool.current - 1, dead := s.pool.dead ++ [i] }
    · exact ⟨_, .lastToDestructor s i _ step last waits⟩
    · exact ⟨_, .work s i _ step last⟩

theorem rest_done (h : (notedPool Task core).Reachable s) (begun : s.pool.destructor ≠ .idle)
    (rests : (notedPool Task core).Rests Cause.own s) : s.pool.destructor = .done := by
  have hs := reachable_accounted (noted_shared h)
  cases phase : s.pool.destructor with
  | idle => exact absurd phase begun
  | done => rfl
  | waiting =>
    exfalso
    by_cases none : s.pool.current = 0
    · have signalled := reachable_heard h phase none
      exact rests _ _ rfl (.recheck s _ phase signalled (.recheck _ phase))
    · rw [hs.counted.current] at none
      obtain ⟨p, hp, alive⟩ := List.countP_pos_iff.mp (Nat.pos_of_ne_zero none)
      obtain ⟨i, here⟩ := List.mem_iff_getElem?.mp hp
      obtain ⟨t, step⟩ := moves_of_alive hs (shared_roused (noted_shared h)) phase here alive
      exact rests _ t rfl step

theorem done_reaps {s : ThreadPool Task} (hs : Accounted core s) (done : s.destructor = .done) :
    s.dead.Perm (List.range s.workers.length) := by
  have none := hs.closing.ended done
  apply (List.perm_ext_iff_of_nodup hs.buried.once List.nodup_range).mpr
  intro i
  rw [hs.buried.mem_dead, List.mem_range]
  constructor
  · intro here
    exact (List.getElem?_eq_some_iff.mp here).1
  · intro inside
    have here : s.workers[i]? = some s.workers[i] := List.getElem?_eq_getElem inside
    have gone := hs.counted.none_alive none (List.mem_of_getElem? here)
    rw [here]
    cases phase : s.workers[i] with
    | dead => rfl
    | loop | blocked | woken | running _ | leaving =>
      rw [phase] at gone
      cases gone

/-- **The destructor returns.** From the moment it has begun, and however many calls of
`add` come late, no worker waits for the condition variable, and the threads of the pool and the
destructor take boundedly many steps; as long as the destructor has not returned one of them can
move without a wake-up for no reason, although only the thread that dies last notifies it; and
`reaper` then finds every thread that was made, once. -/
theorem destructor_returns (h : (notedPool Task core).Reachable s)
    (begun : s.pool.destructor ≠ .idle) {events : List Cause}
    (path : (notedPool Task core).Path s events t) :
    .blocked ∉ t.pool.workers ∧
    events.countP Cause.own ≤ s.work + 5 * events.countP Cause.adds ∧
    ((notedPool Task core).Rests Cause.own t →
      t.pool.destructor = .done ∧ t.pool.dead.Perm (List.range t.pool.workers.length)) := by
  have begun' : t.pool.destructor ≠ .idle := by
    clear h
    induction path with
    | nil => exact begun
    | cons step _ ih => exact ih (step_begun step begun)
  have reach := path.reachable h
  have hs := reachable_accounted (noted_shared reach)
  refine ⟨?_, ?_, ?_⟩
  · apply shared_roused (noted_shared reach)
    cases down : t.pool.shutdown with
    | true => rfl
    | false => exact absurd (hs.closing.begun.mpr down) begun'
  · have bound := path.charged Noted.work Cause.own
      (P := fun s => (notedPool Task core).Reachable s ∧ s.pool.destructor ≠ .idle)
      (fun s e t hs step => ⟨hs.1.next step, step_begun step hs.2⟩)
      (fun s e t hs step own =>
        own_work step (reachable_accounted (noted_shared hs.1)) hs.2 own)
      Cause.adds (fun s e t _ step outside => add_work step outside) ⟨h, begun⟩
    omega
  · intro rests
    have done := rest_done reach begun' rests
    exact ⟨done, done_reaps hs done⟩

/-- The core thread of a pool waits for tasks when the destructor begins. It is notified, is the
last one, and its notification ends the destructor. -/
theorem destructor_returns_notified : ∃ (s t : Noted Nat) (events : List Cause),
    (notedPool Nat 1).Reachable s ∧ s.pool.destructor = .waiting ∧
    (notedPool Nat 1).Path s events t ∧ events.countP Cause.own = 3 ∧
    events.countP Cause.own ≤ s.work + 5 * events.countP Cause.adds ∧
    .blocked ∉ t.pool.workers ∧ t.pool.destructor = .done ∧ t.pool.dead = [0] := by
  let blocked : Noted Nat :=
    ⟨{ ThreadPool.create Nat 1 with workers := [.blocked], waiting := 1 }, false⟩
  have waits : (notedPool Nat 1).Reachable blocked :=
    .next (.start rfl) (.work ⟨.create Nat 1, false⟩ 0 _ (.block _ 0 rfl rfl rfl Nat.zero_lt_one)
      (fun last => by cases last.1))
  let closing : Noted Nat := ⟨{ ThreadPool.create Nat 1 with
    workers := [.woken], waiting := 1, shutdown := true, destructor := .waiting }, false⟩
  have begun : (notedPool Nat 1).Reachable closing :=
    waits.next (.destroy blocked _ rfl (.destroy _ rfl))
  have path : (notedPool Nat 1).Path closing [.actor (.worker 0), .actor (.worker 0),
      .actor .destructor] _ :=
    .cons (.work _ 0 _ (.resume _ 0 rfl) (fun last => by cases last.1))
      (.cons (.lastToDestructor _ 0 _ (.die _ 0 rfl) ⟨rfl, rfl, rfl⟩ rfl)
        (.cons (.recheck _ _ rfl rfl (.recheck _ rfl)) (.nil _)))
  obtain ⟨roused, bound, _⟩ := destructor_returns begun nofun path
  exact ⟨_, _, _, begun, rfl, path, rfl, bound, roused, rfl, rfl⟩

end Libatp.Workers
