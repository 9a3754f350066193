import Libatp.Tcp.Server

/-!
# The table of connections

The table, the connections and the removals that wait on the control loop are a
registry: accepting is joining, closing is leaving, at once on the control loop's
thread and by message from any other.
-/

namespace Libatp.Tcp
open Base

def Task.removal : Task → Option Nat
  | .remove c => some c
  | .attach _ | .close _ => none

/-- What a call still has to run. -/
def Frame.todo : Frame → List Task
  | .batch _ todo => todo
  | _ => []

theorem Frame.todo_of_finished {f : Frame} (h : f.finished = true) : f.todo = [] := by
  cases f with
  | batch ran todo =>
    cases todo with
    | nil => rfl
    | cons task rest => cases h
  | _ => rfl

namespace Server

variable {Uuid : Type}

/-- The tasks that were posted to a loop and have not been run. -/
def queued (s : Server Uuid) (l : Loop) : List Task :=
  (s.stack l).flatMap Frame.todo ++ s.queue l

def removals (s : Server Uuid) : List Nat := (s.queued .control).filterMap Task.removal

theorem mem_removals {s : Server Uuid} {c : Nat} :
    c ∈ s.removals ↔ .remove c ∈ s.queued .control := by
  rw [removals, List.mem_filterMap]
  constructor
  · rintro ⟨task, queued, removal⟩
    cases task with
    | remove d =>
      cases removal
      exact queued
    | attach d => cases removal
    | close d => cases removal
  · intro queued
    exact ⟨_, queued, rfl⟩

def registry (s : Server Uuid) : Registry Uuid where
  members := s.conns.map fun k => (k.uuid, decide (0 < k.closes))
  table := s.table
  removals := s.removals

theorem member_of_conn {s : Server Uuid} {c : Nat} {k : Conn Uuid} (here : s.conns[c]? = some k) :
    s.registry.members[c]? = some (k.uuid, decide (0 < k.closes)) := by
  simp [registry, here]

/-! ## What the parts of a step do to the registry -/

/-- Calls that leave the same removals to run are the same to the registry. -/
theorem removals_goto {s : Server Uuid} {l : Loop} {frames : List Frame}
    (same : (frames.flatMap Frame.todo).filterMap Task.removal =
      ((s.stack l).flatMap Frame.todo).filterMap Task.removal) :
    (s.goto l frames).removals = s.removals := by
  by_cases here : l = .control
  · subst here
    simp [removals, queued, goto, same]
  · simp [removals, queued, goto, Function.update_of_ne (Ne.symm here)]

theorem registry_goto {s : Server Uuid} {l : Loop} {frames : List Frame}
    (same : (frames.flatMap Frame.todo).filterMap Task.removal =
      ((s.stack l).flatMap Frame.todo).filterMap Task.removal) :
    (s.goto l frames).registry = s.registry := by
  have removals := removals_goto same
  simp only [registry, removals]
  rfl

theorem removals_post {s : Server Uuid} {l : Loop} {task : Task} :
    (s.post l task).removals =
      if l = .control then s.removals ++ task.removal.toList else s.removals := by
  by_cases here : l = .control
  · subst here
    cases task <;> simp [removals, queued, post, Task.removal]
  · simp [removals, queued, post, Function.update_of_ne (Ne.symm here), here]

theorem registry_post {s : Server Uuid} {l : Loop} {task : Task} (other : task.removal = none) :
    (s.post l task).registry = s.registry := by
  have removals : (s.post l task).removals = s.removals := by
    rw [removals_post, other]
    simp
  simp only [registry, removals]
  rfl

/-- Registering a descriptor changes nothing the registry knows. -/
theorem registry_setConn {s : Server Uuid} {c : Nat} {k : Conn Uuid}
    (here : s.conns[c]? = some k) (watched : Bool) :
    (s.setConn c { k with registered := watched }).registry = s.registry := by
  have members : (s.conns.set c { k with registered := watched }).map
      (fun k => (k.uuid, decide (0 < k.closes))) =
      s.conns.map fun k => (k.uuid, decide (0 < k.closes)) := by
    obtain ⟨bound, eq⟩ := List.getElem?_eq_some_iff.mp here
    apply List.ext_getElem?
    intro i
    by_cases same : i = c
    · subst same
      simp [bound, eq]
    · simp [List.getElem?_set_ne (Ne.symm same)]
  simp only [registry, setConn, members]
  rfl

variable [DecidableEq Uuid]

/-- Closing is leaving: at once on the control loop, by message elsewhere. -/
theorem registry_close {s : Server Uuid} {l : Loop} {c : Nat} {k : Conn Uuid} {frames : List Frame}
    (here : s.conns[c]? = some k)
    (same : (frames.flatMap Frame.todo).filterMap Task.removal =
      ((s.stack l).flatMap Frame.todo).filterMap Task.removal) :
    ∃ e, Registry.Step s.registry e (s.netFdCloseHandle l c k frames).registry := by
  have member := member_of_conn here
  have left : (s.conns.set c { k with registered := false, closes := k.closes + 1 }).map
      (fun k => (k.uuid, decide (0 < k.closes))) = s.registry.members.set c (k.uuid, true) := by
    rw [List.map_set]
    simp [registry]
  by_cases control : l = .control
  · subst control
    refine ⟨.leave c, ?_⟩
    have removals : (s.netFdCloseHandle .control c k frames).removals = s.removals :=
      removals_goto (s := (s.setConn c _).hashTableRemove k.uuid) (by simpa [Frame.todo] using same)
    have eq : (s.netFdCloseHandle .control c k frames).registry =
        { s.registry with
          members := s.registry.members.set c (k.uuid, true)
          table := Registry.eraseKey s.registry.table k.uuid } := by
      rw [registry, removals, ← left]
      rfl
    rw [eq]
    exact .leave _ _ _ _ member
  · refine ⟨.post c, ?_⟩
    have posted : (s.netFdCloseHandle l c k frames) =
        ((s.setConn c { k with registered := false, closes := k.closes + 1 }).post .control
          (.remove c)).goto l (.closeFn c :: frames) := by
      simp [netFdCloseHandle, handleCloseConnection, control]
    have removals : (s.netFdCloseHandle l c k frames).removals = s.removals ++ [c] := by
      rw [posted, removals_goto (by simpa [Frame.todo] using same), removals_post]
      rfl
    have eq : (s.netFdCloseHandle l c k frames).registry =
        { s.registry with
          members := s.registry.members.set c (k.uuid, true)
          removals := s.registry.removals ++ [c] } := by
      rw [registry, removals, ← left, posted]
      rfl
    rw [eq]
    exact .post _ _ _ _ member

/-! ## Every step is one of the registry, or none -/

/-- Generated identifiers are new. -/
def Fresh (s : Server Uuid) : Event Uuid → Prop
  | .accept uuid _ => uuid ∉ s.conns.map Conn.uuid
  | _ => True

theorem registry_accept {s : Server Uuid} {uuid : Uuid} {home : Loop}
    (idle : s.stack .control = []) (fresh : uuid ∉ s.conns.map Conn.uuid) :
    Registry.Step s.registry (.join uuid)
      (((s.addConn ⟨uuid, home, false, 0⟩).hashTableInsert uuid s.conns.length).goto .control
        [.accept s.conns.length]).registry := by
  have keys : s.registry.members.map Prod.fst = s.conns.map Conn.uuid := by
    simp [registry, Function.comp_def]
  have length : s.registry.members.length = s.conns.length := by
    simp [registry]
  rw [registry_goto (by simp [idle, Frame.todo])]
  have joined := Registry.Step.join s.registry uuid (by rw [keys]; exact fresh)
  rw [length] at joined
  have eq : ((s.addConn ⟨uuid, home, false, 0⟩).hashTableInsert uuid s.conns.length).registry =
      { s.registry with
        members := s.registry.members ++ [(uuid, false)]
        table := Registry.insertNew s.registry.table uuid s.conns.length } := by
    simp only [registry, hashTableInsert, addConn, List.map_append]
    rfl
  rw [eq]
  exact joined

theorem registry_remove {s : Server Uuid} {c : Nat} {k : Conn Uuid} {ran todo : List Task}
    {rest : List Frame} (top : s.stack .control = .batch ran (.remove c :: todo) :: rest)
    (here : s.conns[c]? = some k) :
    Registry.Step s.registry (.remove c)
      ((s.hashTableRemove k.uuid).goto .control
        (.batch (ran ++ [.remove c]) todo :: rest)).registry := by
  have before : s.registry.removals = c ::
      ((s.hashTableRemove k.uuid).goto .control
        (.batch (ran ++ [.remove c]) todo :: rest)).removals := by
    simp [registry, removals, queued, goto, hashTableRemove, top, Frame.todo, Task.removal]
  exact .remove _ _ _ _ _ before (member_of_conn here)

theorem step_registry {s t : Server Uuid} {e : Event Uuid} (fresh : s.Fresh e) (h : Step s e t) :
    t.registry = s.registry ∨ ∃ e', Registry.Step s.registry e' t.registry := by
  cases h with
  | accept uuid home idle place => exact .inr ⟨_, registry_accept idle fresh⟩
  | attachHere c k rest top here home live =>
    refine .inl ((registry_goto ?_).trans (registry_setConn here true))
    simp [top, Frame.todo]
  | attachThere c k rest i top here home =>
    refine .inl ((registry_goto ?_).trans (registry_post rfl))
    simp [top, Frame.todo]
  | take l idle due =>
    refine .inl ?_
    by_cases control : l = .control
    · subst control
      simp [registry, removals, queued, goto, idle, Frame.todo]
    · simp [registry, removals, queued, goto, Function.update_of_ne (Ne.symm control)]
  | runAttach l c k ran todo rest top here live =>
    refine .inl ((registry_goto ?_).trans (registry_setConn here true))
    simp [top, Frame.todo, List.filterMap_cons, Task.removal]
  | runClose l c k ran todo rest top here =>
    refine .inr (registry_close here ?_)
    simp [top, Frame.todo, List.filterMap_cons, Task.removal]
  | runRemove c k ran todo rest top here => exact .inr ⟨_, registry_remove top here⟩
  | ready l c k idle here home watched =>
    exact .inl (registry_goto (by simp [idle, Frame.todo]))
  | halfSkipped l c half rest top more =>
    exact .inl (registry_goto (by simp [top, Frame.todo]))
  | halfCalled l c k half rest top more here live =>
    exact .inl (registry_goto (by simp [top, Frame.todo]))
  | halfFailed l c k half rest top more here live =>
    exact .inr (registry_close here (by simp [top, Frame.todo]))
  | fail l c k here home runs => exact .inr (registry_close here rfl)
  | close l c k here home runs => exact .inr (registry_close here (by simp [Frame.todo]))
  | postClose c k here => exact .inl (registry_post rfl)
  | finish l f rest top finished =>
    exact .inl (registry_goto (by simp [top, Frame.todo_of_finished finished]))

end Server

variable {Uuid : Type} [DecidableEq Uuid]

theorem server_registry {threadNum : Nat} {s : Server Uuid}
    (h : ((server Uuid threadNum).restrict Server.Fresh).Reachable s) :
    Registry.Consistent s.registry := by
  refine Registry.reachable_consistent (System.Reachable.refine Server.registry ?_ ?_ h)
  · rintro _ rfl
    rfl
  · rintro s e t ⟨fresh, step⟩
    exact Server.step_registry fresh step

/-- **The table is consistent.** A connection that was accepted is missing only if it
was closed; one that was closed is missing or has a removal queued; and with no
removal queued the table holds the connections that were not closed. -/
theorem table_consistent {threadNum : Nat} {s : Server Uuid}
    (h : ((server Uuid threadNum).restrict Server.Fresh).Reachable s) :
    (∀ c k, s.conns[c]? = some k →
      ((k.uuid, c) ∉ s.table → 0 < k.closes) ∧
      (0 < k.closes → (k.uuid, c) ∉ s.table ∨ .remove c ∈ s.queued .control)) ∧
    ((∀ c, .remove c ∉ s.queued .control) → ∀ uuid c, (uuid, c) ∈ s.table ↔
      ∃ k, s.conns[c]? = some k ∧ k.uuid = uuid ∧ k.closes = 0) := by
  have consistent := server_registry h
  constructor
  · intro c k here
    have member := Server.member_of_conn here
    constructor
    · intro missing
      by_contra open_
      rw [decide_eq_false open_] at member
      exact missing (consistent.kept c _ member)
    · intro closed
      rw [decide_eq_true closed] at member
      exact (consistent.gone c _ member).imp_right Server.mem_removals.mp
  · intro quiet uuid c
    have none : s.registry.removals = [] := by
      rw [List.eq_nil_iff_forall_not_mem]
      intro d queued
      exact quiet d (Server.mem_removals.mp queued)
    refine (consistent.exact_of_quiet none uuid c).trans ?_
    simp [Server.registry]

/-- The only connection of a server with one loop apart meets the end of its stream.
Nothing was taken out of the table yet. -/
theorem failed_while_handled (allowed : Server Nat → Event Nat → Prop)
    (ok : ∀ s e, s.Fresh e → e.removes = none → allowed s e) : ∃ s : Server Nat,
    ((server Nat 1).restrict allowed).Reachable s ∧ s.threadNum = 1 ∧
      s.conns = [⟨7, .io 0, false, 1⟩] ∧ s.table = [(7, 0)] ∧ s.queue .control = [.remove 0] ∧
      s.queue (.io 0) = [] ∧ s.stack .control = [] ∧
      s.stack (.io 0) = [.closeFn 0, .handle 0 .write] := by
  have accepted := (System.Reachable.start (M := (server Nat 1).restrict allowed) rfl).allow
      (.accept _ 7 (.io 0) rfl Nat.zero_lt_one) (ok _ _ List.not_mem_nil rfl)
    |>.allow (.attachThere _ 0 _ _ 0 rfl rfl rfl) (ok _ _ trivial rfl)
  have attached := accepted.allow (.take _ (.io 0) rfl (List.cons_ne_nil _ _)) (ok _ _ trivial rfl)
    |>.allow (.runAttach _ (.io 0) 0 _ _ _ _ rfl rfl rfl) (ok _ _ trivial rfl)
    |>.allow (.finish _ (.io 0) _ _ rfl rfl) (ok _ _ trivial rfl)
    |>.allow (.finish _ (.io 0) _ _ rfl rfl) (ok _ _ trivial rfl)
  have failed := attached.allow (.ready _ (.io 0) 0 _ rfl rfl rfl rfl) (ok _ _ trivial rfl)
    |>.allow (.halfFailed _ (.io 0) 0 _ .read _ rfl nofun rfl rfl) (ok _ _ trivial rfl)
  exact ⟨_, failed, rfl, rfl, rfl, rfl, rfl, rfl, rfl⟩

/-- That connection is closed and still in the table, so its removal is queued. -/
theorem table_consistent_closing : ∃ s : Server Nat,
    ((server Nat 1).restrict Server.Fresh).Reachable s ∧ (7, 0) ∈ s.table ∧
      .remove 0 ∈ s.queued .control := by
  obtain ⟨s, run, _, conns, table, _⟩ := failed_while_handled _ fun _ _ fresh _ => fresh
  have entry : (7, 0) ∈ s.table := by rw [table]; exact List.mem_cons_self
  have closed := ((table_consistent run).1 0 ⟨7, .io 0, false, 1⟩ (by rw [conns]; rfl)).2
    Nat.zero_lt_one
  exact ⟨s, run, entry, closed.resolve_left (absurd entry)⟩

end Libatp.Tcp
