import Libatp.Tcp.Table
import Mathlib.Algebra.GroupWithZero.Nat

/-!
# What keeps a connection alive

Shared pointers to a connection are in the table, in queued tasks, in the vector of
a batch and in calls under way. `Channel::eventHandle` and the handlers it calls go
through raw pointers: they hold none, and live on the table's. A removal that runs
before `eventHandle` has returned takes it away, on the same thread if the control
loop serves connections, and on another one if it does not.
-/

namespace Libatp.Tcp
open Base

def Task.conn : Task → Nat
  | .attach c | .close c | .remove c => c

/-- The shared pointers to `c` that a call holds. -/
def Frame.owners (c : Nat) : Frame → Nat
  | .accept d | .attaching d | .callback d | .close d | .closeFn d => if d = c then 1 else 0
  | .batch ran todo => (ran ++ todo).countP (·.conn = c)
  | .handle _ _ => 0

namespace Server

variable {Uuid : Type}

def loops (s : Server Uuid) : List Loop := .control :: (List.range s.threadNum).map .io

def owners (s : Server Uuid) (c : Nat) : Nat :=
  s.table.countP (·.2 = c) + (s.loops.map fun l =>
    (s.queue l).countP (·.conn = c) + ((s.stack l).map (Frame.owners c)).sum).sum

theorem owners_pos_of_entry {s : Server Uuid} {uuid : Uuid} {c : Nat} (h : (uuid, c) ∈ s.table) :
    0 < s.owners c := by
  have counted : 0 < s.table.countP (·.2 = c) :=
    List.countP_pos_iff.mpr ⟨_, h, decide_eq_true rfl⟩
  exact Nat.add_pos_left counted _

/-- `eventHandle` of the connection is under way on that loop. -/
def Handles (s : Server Uuid) (l : Loop) (c : Nat) : Prop := ∃ next, .handle c next ∈ s.stack l

/-! ## Where handlers come from -/

theorem mem_goto {s : Server Uuid} {l m : Loop} {frames : List Frame} {f : Frame}
    (h : f ∈ (s.goto l frames).stack m) : (m = l ∧ f ∈ frames) ∨ f ∈ s.stack m := by
  by_cases same : m = l
  · subst same
    exact .inl ⟨rfl, by simpa [goto] using h⟩
  · exact .inr (by simpa [goto, same] using h)

/-- A handler that is under way after a loop's calls changed was under way before. -/
theorem handles_goto {s : Server Uuid} {l m : Loop} {frames : List Frame} {c : Nat}
    (old : ∀ next, .handle c next ∈ frames → s.Handles l c) (h : (s.goto l frames).Handles m c) :
    s.Handles m c := by
  obtain ⟨next, here⟩ := h
  rcases mem_goto here with ⟨rfl, new⟩ | before
  · exact old next new
  · exact ⟨next, before⟩

/-- Going on to the other half is the same handler. -/
theorem handles_half {s : Server Uuid} {l : Loop} {c d : Nat} {half half' next : Half}
    {rest : List Frame} (top : s.stack l = .handle d half :: rest)
    (here : .handle c next ∈ .handle d half' :: rest) : s.Handles l c := by
  rcases List.mem_cons.mp here with same | inner
  · cases same
    exact ⟨half, by rw [top]; exact List.mem_cons_self⟩
  · exact ⟨next, by rw [top]; exact List.mem_cons_of_mem _ inner⟩

variable [DecidableEq Uuid]

@[simp] theorem handleCloseConnection_stack (s : Server Uuid) (l : Loop) (c : Nat) (uuid : Uuid) :
    (s.handleCloseConnection l c uuid).stack = s.stack := by
  unfold handleCloseConnection
  split <;> rfl

theorem handles_netFdCloseHandle {s : Server Uuid} {l m : Loop} {c d : Nat} {k : Conn Uuid}
    {frames : List Frame} (old : ∀ next, .handle d next ∈ frames → s.Handles l d)
    (h : (s.netFdCloseHandle l c k frames).Handles m d) : s.Handles m d := by
  have before := handles_goto (s := (s.setConn c _).handleCloseConnection l c k.uuid) ?_ h
  · simpa [Handles] using before
  · intro next here
    have inner : .handle d next ∈ frames := by simpa using here
    simpa [Handles] using old next inner

/-- Handlers start at a descriptor that libevent watches. -/
theorem step_handles {s t : Server Uuid} {e : Event Uuid} {l : Loop} {c : Nat} (h : Step s e t)
    (handled : t.Handles l c) :
    s.Handles l c ∨ t.table = s.table ∧ t.conns = s.conns ∧
      ∃ k, s.conns[c]? = some k ∧ k.registered = true := by
  cases h with
  | ready m d k idle here home watched =>
    obtain ⟨next, there⟩ := handled
    rcases mem_goto there with ⟨rfl, new⟩ | before
    · cases List.mem_singleton.mp new
      exact .inr ⟨rfl, rfl, k, here, watched⟩
    · exact .inl ⟨next, before⟩
  | accept uuid home idle place =>
    refine .inl (handles_goto (l := .control) ?_ handled)
    simp
  | attachHere d k rest top here home live =>
    refine .inl (handles_goto (l := .control) (fun next here => ⟨next, ?_⟩) handled)
    simpa [top] using here
  | attachThere d k rest i top here home =>
    refine .inl (handles_goto (l := .control) (fun next here => ⟨next, ?_⟩) handled)
    simpa [top] using here
  | take m idle due =>
    refine .inl (handles_goto (l := m) ?_ handled)
    simp
  | runAttach m d k ran todo rest top here live =>
    refine .inl (handles_goto (l := m) (fun next here => ⟨next, ?_⟩) handled)
    simpa [top] using here
  | runClose m d k ran todo rest top here =>
    refine .inl (handles_netFdCloseHandle (l := m) (fun next here => ⟨next, ?_⟩) handled)
    simpa [top] using here
  | runRemove d k ran todo rest top here =>
    refine .inl (handles_goto (l := .control) (fun next here => ⟨next, ?_⟩) handled)
    simpa [top] using here
  | halfSkipped m d half rest top more =>
    exact .inl (handles_goto (fun next here => handles_half top here) handled)
  | halfCalled m d k half rest top more here live =>
    refine .inl (handles_goto (fun next here => ?_) handled)
    have inner : .handle c next ∈ .handle d half.next :: rest := by simpa using here
    exact handles_half top inner
  | halfFailed m d k half rest top more here live =>
    exact .inl (handles_netFdCloseHandle (fun next here => handles_half top here) handled)
  | fail m d k here home runs =>
    exact .inl (handles_netFdCloseHandle (fun next here => ⟨next, here⟩) handled)
  | close m d k here home runs =>
    refine .inl (handles_netFdCloseHandle (l := m) (fun next here => ⟨next, ?_⟩) handled)
    simpa using here
  | postClose d k here => exact .inl handled
  | finish m f rest top finished =>
    refine .inl (handles_goto (l := m) (fun next here => ⟨next, ?_⟩) handled)
    rw [top]
    exact List.mem_cons_of_mem f here

/-! ## What becomes of connections and entries -/

omit [DecidableEq Uuid] in
theorem uuid_setConn {s : Server Uuid} {c d : Nat} {k k₀ k' : Conn Uuid}
    (here : s.conns[c]? = some k₀) (same : k.uuid = k₀.uuid) (h : s.conns[d]? = some k') :
    ∃ k'', (s.setConn c k).conns[d]? = some k'' ∧ k''.uuid = k'.uuid := by
  by_cases eq : d = c
  · subst eq
    cases here.symm.trans h
    exact ⟨k, List.getElem?_set_self (List.getElem?_eq_some_iff.mp here).1, same⟩
  · exact ⟨k', (List.getElem?_set_ne (Ne.symm eq)).trans h, rfl⟩

theorem netFdCloseHandle_conns (s : Server Uuid) (l : Loop) (c : Nat) (k : Conn Uuid)
    (frames : List Frame) : (s.netFdCloseHandle l c k frames).conns =
      (s.setConn c { k with registered := false, closes := k.closes + 1 }).conns := by
  rw [netFdCloseHandle, handleCloseConnection]
  split <;> rfl

theorem netFdCloseHandle_table (s : Server Uuid) (l : Loop) (c : Nat) (k : Conn Uuid)
    (frames : List Frame) : (s.netFdCloseHandle l c k frames).table =
      if l = .control then Registry.eraseKey s.table k.uuid else s.table := by
  rw [netFdCloseHandle, handleCloseConnection]
  split <;> rfl

/-- Every step leaves the connections as they are, adds a new one, or changes one
and keeps its identifier; and only an open one becomes watched. -/
inductive ConnsStep (s : Server Uuid) (conns : List (Conn Uuid)) : Prop where
  | same (eq : conns = s.conns)
  | added (uuid home) (eq : conns = (s.addConn ⟨uuid, home, false, 0⟩).conns)
  | changed (c k k') (here : s.conns[c]? = some k) (uuid : k'.uuid = k.uuid)
      (watched : k'.registered = true → k'.closes = 0) (eq : conns = (s.setConn c k').conns)

theorem closed_conns {s : Server Uuid} {l : Loop} {c : Nat} {k : Conn Uuid} {frames : List Frame}
    (here : s.conns[c]? = some k) : s.ConnsStep (s.netFdCloseHandle l c k frames).conns :=
  .changed c k { k with registered := false, closes := k.closes + 1 } here rfl nofun
    (netFdCloseHandle_conns s l c k frames)

theorem step_conns {s t : Server Uuid} {e : Event Uuid} (h : Step s e t) : s.ConnsStep t.conns := by
  cases h with
  | accept uuid home idle place => exact .added uuid home rfl
  | attachHere c k rest top here home live =>
    exact .changed c k { k with registered := true } here rfl (fun _ => live) rfl
  | runAttach l c k ran todo rest top here live =>
    exact .changed c k { k with registered := true } here rfl (fun _ => live) rfl
  | runClose l c k ran todo rest top here => exact closed_conns here
  | halfFailed l c k half rest top more here live => exact closed_conns here
  | fail l c k here home runs => exact closed_conns here
  | close l c k here home runs => exact closed_conns here
  | attachThere | take | runRemove | ready | halfSkipped | halfCalled | postClose | finish =>
    exact .same rfl

theorem entry_erased {table : List (Uuid × Nat)} {uuid key : Uuid} {c : Nat}
    (entry : (uuid, c) ∈ table) : (uuid, c) ∈ Registry.eraseKey table key ∨ key = uuid := by
  by_cases same : key = uuid
  · exact .inr same
  · exact .inl (Registry.mem_eraseKey.mpr ⟨entry, Ne.symm same⟩)

/-- A close takes an entry out on the control loop only. -/
theorem closed_table {s : Server Uuid} {e : Event Uuid} {l : Loop} {c d : Nat} {k : Conn Uuid}
    {uuid : Uuid} {frames : List Frame} (here : s.conns[d]? = some k)
    (removes : l = .control → e.removes = some d) (entry : (uuid, c) ∈ s.table) :
    (uuid, c) ∈ (s.netFdCloseHandle l d k frames).table ∨
      ∃ d k, e.removes = some d ∧ s.conns[d]? = some k ∧ k.uuid = uuid := by
  rw [netFdCloseHandle_table]
  split
  · rename_i control
    exact (entry_erased entry).imp_right fun same => ⟨d, k, removes control, here, same⟩
  · exact .inl entry

/-- An entry stays, or is taken out as that of a connection with its identifier. -/
theorem step_table {s t : Server Uuid} {e : Event Uuid} {uuid : Uuid} {c : Nat} (h : Step s e t)
    (entry : (uuid, c) ∈ s.table) : (uuid, c) ∈ t.table ∨
      ∃ d k, e.removes = some d ∧ s.conns[d]? = some k ∧ k.uuid = uuid := by
  cases h with
  | accept uuid' home idle place =>
    left
    show (uuid, c) ∈ Registry.insertNew s.table uuid' s.conns.length
    unfold Registry.insertNew
    split
    · exact entry
    · exact List.mem_cons_of_mem _ entry
  | runRemove d k ran todo rest top here =>
    exact (entry_erased entry).imp_right fun same => ⟨d, k, rfl, here, same⟩
  | runClose l d k ran todo rest top here => exact closed_table here (by rintro rfl; rfl) entry
  | halfFailed l d k half rest top more here live =>
    exact closed_table here (by rintro rfl; rfl) entry
  | fail l d k here home runs => exact closed_table here (by rintro rfl; rfl) entry
  | close l d k here home runs => exact closed_table here (by rintro rfl; rfl) entry
  | attachHere | attachThere | take | runAttach | ready | halfSkipped | halfCalled | postClose
  | finish => exact .inl entry

/-! ## The invariants -/

/-- libevent watches open connections only. -/
def Watched (s : Server Uuid) : Prop :=
  ∀ (c : Nat) (k : Conn Uuid), s.conns[c]? = some k → k.registered = true → k.closes = 0

theorem step_watched {s t : Server Uuid} {e : Event Uuid} (hs : s.Watched) (h : Step s e t) :
    t.Watched := by
  intro c k here registered
  cases step_conns h with
  | same eq =>
    rw [eq] at here
    exact hs c k here registered
  | added uuid home eq =>
    rw [eq] at here
    obtain before | ⟨_, rfl⟩ := getElem?_concat_cases here
    · exact hs c k before registered
    · rfl
  | changed d old new at_ uuid watched eq =>
    rw [eq] at here
    obtain ⟨_, rfl⟩ | ⟨_, before⟩ := getElem?_set_cases here
    · exact watched registered
    · exact hs c k before registered

theorem step_uuid {s t : Server Uuid} {e : Event Uuid} {c : Nat} {k : Conn Uuid} (h : Step s e t)
    (here : s.conns[c]? = some k) : ∃ k', t.conns[c]? = some k' ∧ k'.uuid = k.uuid := by
  cases step_conns h with
  | same eq => exact ⟨k, by rw [eq, here], rfl⟩
  | added uuid home eq =>
    refine ⟨k, ?_, rfl⟩
    rw [eq, addConn, List.getElem?_append_left (List.getElem?_eq_some_iff.mp here).1, here]
  | changed d old new at_ uuid watched eq =>
    rw [eq]
    exact uuid_setConn at_ uuid here

/-- A connection whose handler is under way is in the table. -/
def Held (s : Server Uuid) : Prop :=
  ∀ l c, s.Handles l c → ∃ k, s.conns[c]? = some k ∧ (k.uuid, c) ∈ s.table

/-- Identifiers are new, and no connection is taken out of the table while its handler
is under way. -/
def Undisturbed (s : Server Uuid) (e : Event Uuid) : Prop :=
  s.Fresh e ∧ ∀ c, e.removes = some c → ∀ l, ¬ s.Handles l c

theorem step_held {s t : Server Uuid} {e : Event Uuid} (consistent : Registry.Consistent s.registry)
    (watched : s.Watched) (hs : s.Held) (undisturbed : s.Undisturbed e) (h : Step s e t) :
    t.Held := by
  intro l c handled
  rcases step_handles h handled with before | ⟨table, conns, k, here, registered⟩
  · obtain ⟨k, here, entry⟩ := hs l c before
    obtain ⟨k', here', uuid⟩ := step_uuid h here
    refine ⟨k', here', uuid ▸ ?_⟩
    refine (step_table h entry).resolve_right ?_
    rintro ⟨d, k₁, removes, at_, same⟩
    have eq : d = c := consistent.member_eq (member_of_conn at_)
      (by rw [member_of_conn here, same])
    exact undisturbed.2 c (eq ▸ removes) l before
  · have member := member_of_conn here
    rw [watched c k here registered] at member
    exact ⟨k, by rw [conns, here], by rw [table]; exact consistent.kept c k.uuid member⟩

end Server

variable {Uuid : Type} [DecidableEq Uuid]

theorem server_watched {threadNum : Nat} {s : Server Uuid}
    (h : (server Uuid threadNum).Reachable s) : s.Watched := by
  refine System.invariant _ ?_ ?_ h
  · rintro _ rfl c k here
    cases here
  · intro s e t hs step
    exact Server.step_watched hs step

theorem server_held {threadNum : Nat} {s : Server Uuid}
    (h : ((server Uuid threadNum).restrict Server.Undisturbed).Reachable s) : s.Held := by
  refine System.invariant_with _ (Q := fun s => Registry.Consistent s.registry ∧ s.Watched)
    ?_ ?_ ?_ h
  · intro s run
    exact ⟨server_registry (System.restrict_mono (fun _ _ ok => ok.1) run),
      server_watched (System.restrict_reachable _ run)⟩
  · rintro _ rfl l c ⟨next, here⟩
    cases here
  · rintro s e t ⟨consistent, watched⟩ hs ⟨undisturbed, step⟩
    exact Server.step_held consistent watched hs undisturbed step

/-- **A connection outlives its handler**, in every run in which no connection is taken
out of the table while `eventHandle` of it is under way. -/
theorem connection_outlives_handler {threadNum : Nat} {s : Server Uuid}
    (h : ((server Uuid threadNum).restrict Server.Undisturbed).Reachable s) :
    ∀ l c next, .handle c next ∈ s.stack l → 0 < s.owners c := by
  intro l c next handled
  obtain ⟨k, _, entry⟩ := server_held h l c ⟨next, handled⟩
  exact Server.owners_pos_of_entry entry

/-- The only connection of a server with one loop apart is closed by its handler, and
its removal is still queued. -/
theorem connection_outlives_handler_closing : ∃ s : Server Nat,
    ((server Nat 1).restrict Server.Undisturbed).Reachable s ∧
      .handle 0 .write ∈ s.stack (.io 0) ∧ 0 < s.owners 0 := by
  obtain ⟨s, run, _, _, _, _, _, _, stack⟩ := failed_while_handled Server.Undisturbed
    fun s e fresh none => ⟨fresh, fun c some => by rw [none] at some; cases some⟩
  have handled : .handle 0 .write ∈ s.stack (.io 0) := by
    rw [stack]
    simp
  exact ⟨s, run, handled, connection_outlives_handler run _ 0 .write handled⟩

/-- With no loop apart, a handler that closes its connection takes it out of the table
at once; with one, the removal can be over before the handler. Either way `eventHandle`
goes on to its other half with no owner left. -/
theorem handler_outlives_connection :
    (∃ s : Server Nat, (server Nat 0).Reachable s ∧ .handle 0 .write ∈ s.stack .control ∧
      s.owners 0 = 0) ∧
    ∃ s : Server Nat, (server Nat 1).Reachable s ∧ .handle 0 .write ∈ s.stack (.io 0) ∧
      s.owners 0 = 0 := by
  constructor
  · have attached := (System.Reachable.start (M := server Nat 0) rfl).next
        (.accept _ 7 .control rfl rfl)
      |>.next (.attachHere _ 0 _ _ rfl rfl rfl rfl)
      |>.next (.finish _ .control _ _ rfl rfl)
      |>.next (.finish _ .control _ _ rfl rfl)
    have closed := attached.next (.ready _ .control 0 _ rfl rfl rfl rfl)
      |>.next (.halfFailed _ .control 0 _ .read _ rfl nofun rfl rfl)
      |>.next (.finish _ .control _ _ rfl rfl)
    exact ⟨_, closed, List.mem_singleton_self _, rfl⟩
  · obtain ⟨s, run, threadNum, conns, table, control, io, idle, stack⟩ :=
      failed_while_handled (fun _ _ => True) fun _ _ _ _ => trivial
    have taken := (System.restrict_reachable _ run).next
      (.take s .control idle (by rw [control]; exact List.cons_ne_nil _ _))
    have removed := taken.next
      (.runRemove _ 0 ⟨7, .io 0, false, 1⟩ [] [] [] (by simp [Server.goto, control])
        (by simp [Server.goto, conns]))
    have returned := removed.next (.finish _ .control (.batch [.remove 0] []) [] rfl rfl)
      |>.next (.finish _ (.io 0) (.closeFn 0) [.handle 0 .write]
        (by simp [Server.goto, Server.hashTableRemove, stack]) rfl)
    refine ⟨_, returned, ?_, ?_⟩
    · simp [Server.goto]
    · simp [Server.owners, Server.loops, Server.goto, Server.hashTableRemove, threadNum, table,
        io, Frame.owners, Registry.eraseKey]

end Libatp.Tcp
