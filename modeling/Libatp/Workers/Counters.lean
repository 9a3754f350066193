import Libatp.Workers.Stranded

/-!
# The counters of the pool and the list of its dead threads

The destructor gives the lock up while it waits, so a task that is still running, or any
other thread, can call `add` then. `threadPool` has no such calls; `sharedPool` has them.
A call that comes late does what any call does, except that its notification may also wake
the destructor.
-/

namespace Libatp.Workers
open Base ThreadPool

variable {Task : Type}

inductive LateAdd : ThreadPool Task → ThreadPool Task → Prop
  /-- `add` does not look at the destructor. -/
  | call (s t) (waits : s.destructor = .waiting)
      (step : Step { s with destructor := .idle } .caller t) :
      LateAdd s { t with destructor := .waiting }
  /-- The destructor is in the same `wait` as the workers and takes the notification. -/
  | toDestructor (s) (task : Task) (waits : s.destructor = .waiting) (some : s.waiting ≠ 0) :
      LateAdd s (s.push task)

/-- Callers, workers and the destructor, with calls of `add` until the destructor is done. -/
def sharedPool (Task : Type) (core : Nat) : System (ThreadPool Task) Actor where
  start s := s = .create Task core
  step s actor s' := Step s actor s' ∨ (actor = .caller ∧ LateAdd s s')

variable {s s' : ThreadPool Task}

/-! ## The counters follow the phases -/

theorem Phase.alive_of_waits {p : Phase Task} (h : p.waits = true) : p.alive = true := by
  cases p with
  | blocked | woken => rfl
  | loop | running _ | leaving | dead => cases h

theorem Counted.waiting_le (hs : Counted s) : s.waiting ≤ s.current := by
  rw [hs.waiting, hs.current]
  exact List.countP_mono_left fun _ _ => Phase.alive_of_waits

/-! ## Their limits -/

structure Limited (s : ThreadPool Task) : Prop where
  waiting : s.waiting ≤ s.core
  current : s.current ≤ max s.core maxThreads

theorem step_limited {actor : Actor} (h : Step s actor s') (hs : Limited s) : Limited s' := by
  have waiting := hs.waiting
  have current := hs.current
  cases h with
  | addThread task before idle room =>
    refine ⟨waiting, ?_⟩
    change s.current + 1 ≤ max s.core maxThreads
    omega
  | block i here up empty few => exact ⟨few, current⟩
  | top i here busy => exact ⟨by simpa using waiting, by simpa using current⟩
  | resume i here =>
    constructor
    · rw [serve_waiting, serve_core]
      exact Nat.le_trans (Nat.sub_le _ _) waiting
    · simpa using current
  | die i here => exact ⟨waiting, Nat.le_trans (Nat.sub_le _ _) current⟩
  | addFull | addNotify | addNobody | wake | leave | finish | destroy | recheck =>
    exact ⟨waiting, current⟩

/-! ## The list of the dead -/

structure Buried (s : ThreadPool Task) : Prop where
  once : s.dead.Nodup
  mem_dead : ∀ i, i ∈ s.dead ↔ s.workers[i]? = some .dead

/-- A living worker moves on and lives. -/
theorem buried_put {i : Nat} {old new : Phase Task} (hs : Buried s)
    (here : s.workers[i]? = some old) (workers : s'.workers = (s.put i new).workers)
    (dead : s'.dead = s.dead) (before : old.alive = true) (after : new.alive = true) :
    Buried s' := by
  refine ⟨dead ▸ hs.once, fun j => ?_⟩
  rw [dead, hs.mem_dead, workers, put, List.getElem?_set]
  split
  case isFalse => exact Iff.rfl
  case isTrue same =>
    subst same
    have inside : i < s.workers.length := (List.getElem?_eq_some_iff.mp here).1
    rw [if_pos inside, here]
    constructor
    · rintro ⟨rfl⟩
      cases before
    · rintro ⟨rfl⟩
      cases after

theorem buried_serve {i : Nat} {old : Phase Task} (hs : Buried s)
    (here : s.workers[i]? = some old) (alive : old.alive = true) (waiting : Nat) :
    Buried ({ s with waiting := waiting }.serve i) := by
  rcases serve_cases { s with waiting := waiting } i with
    ⟨t, rest, _, eq⟩ | ⟨_, _, eq⟩ | ⟨_, _, eq⟩
  all_goals
    rw [eq]
    exact buried_put hs here rfl rfl alive rfl

theorem buried_die {i : Nat} (hs : Buried s) (here : s.workers[i]? = some .leaving) :
    Buried { s.put i .dead with current := s.current - 1, dead := s.dead ++ [i] } := by
  have fresh : i ∉ s.dead := by
    rw [hs.mem_dead, here]
    simp
  constructor
  · change (s.dead ++ [i]).Nodup
    rw [List.nodup_append]
    refine ⟨hs.once, by simp, ?_⟩
    intro j mem k last same
    rw [List.mem_singleton] at last
    exact fresh (last ▸ same ▸ mem)
  · intro j
    change j ∈ s.dead ++ [i] ↔ (s.workers.set i .dead)[j]? = some .dead
    rw [List.mem_append, List.mem_singleton, hs.mem_dead, List.getElem?_set]
    split
    case isFalse other => simp [Ne.symm other]
    case isTrue same =>
      subst same
      simp [(List.getElem?_eq_some_iff.mp here).1]

theorem buried_addThread (hs : Buried s) (task : Task) (current : Nat) :
    Buried { s.push task with current := current, workers := s.workers ++ [.loop] } := by
  refine ⟨hs.once, fun i => ?_⟩
  change i ∈ s.dead ↔ (s.workers ++ [.loop])[i]? = some .dead
  rw [hs.mem_dead, List.getElem?_append]
  split
  case isTrue => exact Iff.rfl
  case isFalse outside =>
    rw [List.getElem?_eq_none (by omega), List.getElem?_singleton]
    split <;> simp

theorem step_buried {actor : Actor} (h : Step s actor s') (hs : Buried s) : Buried s' := by
  cases h with
  | addFull | addNobody | recheck => exact ⟨hs.once, hs.mem_dead⟩
  | addThread task before idle room => exact buried_addThread hs task (s.current + 1)
  | addNotify task i before some here => exact buried_put hs here rfl rfl rfl rfl
  | wake i here => exact buried_put hs here rfl rfl rfl rfl
  | leave i here up empty enough => exact buried_put hs here rfl rfl rfl rfl
  | block i here up empty few => exact buried_put hs here rfl rfl rfl rfl
  | top i here busy => exact buried_serve hs here rfl s.waiting
  | resume i here => exact buried_serve hs here rfl (s.waiting - 1)
  | finish i task here => exact buried_put hs here rfl rfl rfl rfl
  | die i here => exact buried_die hs here
  | destroy before =>
    refine ⟨hs.once, fun i => ?_⟩
    change i ∈ s.dead ↔ s.notifyAll.workers[i]? = some .dead
    rw [hs.mem_dead, notifyAll, List.getElem?_map]
    cases s.workers[i]? with
    | none => simp
    | some p => cases p <;> simp

/-! ## Whole runs -/

/-- What every step keeps, whatever the destructor does, a late call keeps too. -/
theorem lateAdd_keeps {P : ThreadPool Task → Prop} (step_keeps : ∀ {s actor s'},
      Step s actor s' → P s → P s') (blind : ∀ {s} d, P s → P { s with destructor := d })
    (push_keeps : ∀ {s} task, P s → P (s.push task)) (h : LateAdd s s') (hs : P s) : P s' := by
  cases h with
  | call t waits step => exact blind .waiting (step_keeps step (blind .idle hs))
  | toDestructor task waits some => exact push_keeps task hs

theorem add_shutdown (h : Step s .caller s') : s'.shutdown = s.shutdown := by
  cases h <;> rfl

theorem lateAdd_closing (h : LateAdd s s') (hs : Closing s) : Closing s' := by
  cases h with
  | call t waits step =>
    have shutdown := add_shutdown step
    refine ⟨?_, nofun⟩
    change Destructor.waiting = .idle ↔ t.shutdown = false
    rw [shutdown, ← waits]
    exact hs.begun
  | toDestructor task waits some => exact ⟨hs.begun, hs.ended⟩

structure Accounted (core : Nat) (s : ThreadPool Task) : Prop where
  core : s.core = core
  counted : Counted s
  limited : Limited s
  buried : Buried s
  closing : Closing s

theorem step_accounted {core : Nat} {actor : Actor} (h : Step s actor s')
    (hs : Accounted core s) : Accounted core s' where
  core := (step_core h).trans hs.core
  counted := step_counted h hs.counted
  limited := step_limited h hs.limited
  buried := step_buried h hs.buried
  closing := step_closing h hs.closing

theorem lateAdd_accounted {core : Nat} (h : LateAdd s s') (hs : Accounted core s) :
    Accounted core s' where
  core := lateAdd_keeps (P := fun s => s.core = core) (fun step kept => (step_core step).trans kept)
    (fun _ kept => kept) (fun _ kept => kept) h hs.core
  counted := lateAdd_keeps step_counted (fun _ hs => ⟨hs.waiting, hs.current⟩)
    (fun _ hs => ⟨hs.waiting, hs.current⟩) h hs.counted
  limited := lateAdd_keeps step_limited (fun _ hs => ⟨hs.waiting, hs.current⟩)
    (fun _ hs => ⟨hs.waiting, hs.current⟩) h hs.limited
  buried := lateAdd_keeps step_buried (fun _ hs => ⟨hs.once, hs.mem_dead⟩)
    (fun _ hs => ⟨hs.once, hs.mem_dead⟩) h hs.buried
  closing := lateAdd_closing h hs.closing

theorem create_accounted (core : Nat) : Accounted core (create Task core) where
  core := rfl
  counted := create_counted core
  limited := ⟨Nat.zero_le _, Nat.le_max_left _ _⟩
  buried := ⟨List.nodup_nil, by simp [create, List.getElem?_replicate]⟩
  closing := create_closing core

theorem reachable_accounted {core : Nat} (h : (sharedPool Task core).Reachable s) :
    Accounted core s := by
  induction h with
  | start first =>
    cases first
    exact create_accounted core
  | next _ step ih =>
    rcases step with step | ⟨_, late⟩
    · exact step_accounted step ih
    · exact lateAdd_accounted late ih

/-- **The counters of the pool.** In every run, with any number of core threads:
`waiting_threads_` counts the workers around `wait` and `current_threads_` those that are
not in `dead_threads_`, within their limits; whoever decrements one finds it positive; no
worker dies twice, and all have when the destructor comes to `reaper`. -/
theorem counters_bounded {core : Nat} (h : (sharedPool Task core).Reachable s) :
    (s.waiting = s.workers.countP Phase.waits ∧ s.waiting ≤ min core s.current) ∧
    (s.current = s.workers.countP Phase.alive ∧ s.current ≤ max core maxThreads) ∧
    (∀ i : Nat, s.workers[i]? = some .woken → 0 < s.waiting) ∧
    (∀ i : Nat, s.workers[i]? = some .leaving → 0 < s.current) ∧
    (s.dead.Nodup ∧ ∀ i, i ∈ s.dead ↔ s.workers[i]? = some .dead) ∧
    (s.destructor = .done → ∀ i < s.workers.length, i ∈ s.dead) := by
  have hs := reachable_accounted h
  have waiting := hs.limited.waiting
  have current := hs.limited.current
  rw [hs.core] at waiting current
  refine ⟨⟨hs.counted.waiting, Nat.le_min.mpr ⟨waiting, hs.counted.waiting_le⟩⟩,
    ⟨hs.counted.current, current⟩, fun i here => hs.counted.waiting_pos here rfl,
    fun i here => hs.counted.current_pos here rfl, ⟨hs.buried.once, hs.buried.mem_dead⟩, ?_⟩
  intro done i inside
  have none := hs.closing.ended done
  have here : s.workers[i]? = some s.workers[i] := List.getElem?_eq_getElem inside
  have gone := hs.counted.none_alive none (List.mem_of_getElem? here)
  rw [hs.buried.mem_dead, here]
  cases phase : s.workers[i] with
  | dead => rfl
  | loop | blocked | woken | running _ | leaving =>
    rw [phase] at gone
    cases gone

/-- A pool without core threads, and a task that is added while the destructor waits for
the first: its thread is in the list too when the destructor is done. -/
theorem counters_bounded_late : ∃ s : ThreadPool Nat, (sharedPool Nat 0).Reachable s ∧
    s.destructor = .done ∧ s.added = [7, 8] ∧ s.current = 0 ∧ ∀ i < 2, i ∈ s.dead := by
  have added := (System.Reachable.start (M := sharedPool Nat 0) rfl).next
      (.inl (.addThread _ 7 rfl rfl (by decide)))
    |>.next (.inl (.top _ 0 rfl (.inr (List.cons_ne_nil 7 []))))
  have destroyed := added.next (.inl (.destroy _ rfl))
    |>.next (.inr ⟨rfl, .call _ _ rfl (.addThread _ 8 rfl rfl (by decide))⟩)
    |>.next (.inl (.top _ 1 rfl (.inl rfl)))
    |>.next (.inl (.finish _ 1 8 rfl))
    |>.next (.inl (.finish _ 0 7 rfl))
  have ended := destroyed.next (.inl (.top _ 0 rfl (.inl rfl)))
    |>.next (.inl (.top _ 1 rfl (.inl rfl)))
    |>.next (.inl (.die _ 1 rfl))
    |>.next (.inl (.die _ 0 rfl))
    |>.next (.inl (.recheck _ rfl))
  exact ⟨_, ended, rfl, rfl, rfl, (counters_bounded ended).2.2.2.2.2 rfl⟩

end Libatp.Workers
