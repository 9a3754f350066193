import Libatp.Tcp.Settling
import Libatp.Wheel.Callbacks

/-!
# Idle connections (`net/atp_tcp_server.cpp`, `examples/atp_tcp_benchmark.cpp`)

The timing wheel is there to close connections that have been idle for as many ticks as it has
slots. `onConnection` makes an entry for the connection and inserts it, `onMessage` inserts it
again, the timer on the control loop turns the wheel, and an entry that loses its last owner
closes the connection if that still exists: inline on the thread of the connection's loop, by a
task from any other. Here the wheel and the server are put together. A destructor may be run
at any time after its entry lost the last owner, on the thread that took that owner away.
-/

namespace Libatp.Tcp
open Base Wheel

variable {Uuid : Type}

/-- The connection that the step closes or queues a close of. -/
def Event.ends : Event Uuid → Option Nat
  | .half _ c .failed | .fail _ c | .close _ c | .postClose c => some c
  | .half _ _ .skipped | .half _ _ .called | .accept _ _ | .post | .take _ | .run _ _ | .ready _ _
  | .finish _ => none

/-! ## Connections that are on their way out -/

namespace Server

/-- The connection was closed, or a close of it is queued. -/
def Doomed (s : Server Uuid) (c : Nat) : Prop :=
  (∃ k, s.conns[c]? = some k ∧ 0 < k.closes) ∨ ∃ l, .close c ∈ s.queued l

variable [DecidableEq Uuid] {s t : Server Uuid} {e : Event Uuid} {c : Nat}

/-- A connection is closed by a queued close, or by a step that ends it. -/
theorem closed_by {k : Conn Uuid} (h : Step s e t) (there : t.conns[c]? = some k)
    (closed : 0 < k.closes) :
    s.Doomed c ∨ e.ends = some c := by
  have same (eq : t.conns = s.conns) : s.Doomed c := .inl ⟨k, eq ▸ there, closed⟩
  have watched {d : Nat} {k₀ : Conn Uuid} (here : s.conns[d]? = some k₀)
      (eq : t.conns = s.conns.set d { k₀ with registered := true }) : s.Doomed c := by
    rw [eq] at there
    obtain ⟨rfl, rfl⟩ | ⟨_, before⟩ := getElem?_set_cases there
    · exact .inl ⟨k₀, here, closed⟩
    · exact .inl ⟨k, before, closed⟩
  have other {l : Loop} {d : Nat} {k₀ : Conn Uuid} {frames : List Frame}
      (eq : t = s.netFdCloseHandle l d k₀ frames) : s.Doomed c ∨ d = c := by
    rw [eq, netFdCloseHandle_conns] at there
    obtain ⟨rfl, _⟩ | ⟨_, before⟩ := getElem?_set_cases there
    · exact .inr rfl
    · exact .inl (.inl ⟨k, before, closed⟩)
  cases h with
  | accept uuid home idle place =>
    obtain before | ⟨_, rfl⟩ := getElem?_concat_cases there
    · exact .inl (.inl ⟨k, before, closed⟩)
    · cases closed
  | attachHere d k₀ rest top here home live => exact .inl (watched here rfl)
  | runAttach l d k₀ ran todo rest top here live => exact .inl (watched here rfl)
  | runClose l d k₀ ran todo rest top here =>
    refine (other rfl).elim .inl fun this => .inl (.inr ⟨l, ?_⟩)
    rw [Server.queued, top, this]
    simp [Frame.todo]
  | halfFailed | fail | close => exact (other rfl).imp_right (congrArg some)
  | attachThere | take | runRemove | ready | halfSkipped | halfCalled | postClose | finish =>
    exact .inl (same rfl)

theorem doomed_by (h : Step s e t) (doomed : t.Doomed c) : s.Doomed c ∨ e.ends = some c := by
  rcases doomed with ⟨k, there, closed⟩ | ⟨m, queued⟩
  · exact closed_by h there closed
  · rcases close_queued h queued with before | rfl
    · exact .inl (.inr ⟨m, before⟩)
    · exact .inr rfl

theorem step_kept (h : Step s e t) : Kept s.conns t.conns := by
  cases h with
  | accept => exact Kept.added _ _
  | attachHere | runAttach => exact Kept.set (.inl rfl)
  | runClose | halfFailed | fail | close =>
    rw [netFdCloseHandle_conns]
    exact Kept.set (.inr (Nat.succ_pos _))
  | attachThere | take | runRemove | ready | halfSkipped | halfCalled | postClose | finish =>
    exact Kept.refl _

theorem step_closed {k : Conn Uuid} (h : Step s e t) (here : s.conns[c]? = some k)
    (closed : 0 < k.closes) : ∃ k', t.conns[c]? = some k' ∧ 0 < k'.closes := by
  obtain ⟨k', there, _⟩ := step_uuid h here
  refine ⟨k', there, ?_⟩
  rcases step_conn h there with ⟨k₀, before, _, closes⟩ | ⟨uuid, rfl, _⟩
  · cases here.symm.trans before
    omega
  · cases h with
    | accept uuid home idle place =>
      obtain before | ⟨new, _⟩ := getElem?_concat_cases there
      · cases here.symm.trans before
        exact closed
      · rw [new, List.getElem?_eq_none (Nat.le_refl _)] at here
        cases here

theorem closed_doomed {l : Loop} {k : Conn Uuid} {frames : List Frame}
    (here : s.conns[c]? = some k) : (s.netFdCloseHandle l c k frames).Doomed c := by
  refine .inl ⟨{ k with registered := false, closes := k.closes + 1 }, ?_, Nat.succ_pos _⟩
  rw [netFdCloseHandle_conns]
  exact List.getElem?_set_self (List.getElem?_eq_some_iff.mp here).1

theorem step_doomed (h : Step s e t) (doomed : s.Doomed c) : t.Doomed c := by
  rcases doomed with ⟨k, here, closed⟩ | ⟨m, queued⟩
  · exact .inl (step_closed h here closed)
  · rcases step_queued h queued with later | rfl
    · exact .inr ⟨m, later⟩
    · cases h with
      | runClose l d k ran todo rest top here => exact closed_doomed here

theorem doomed_of_ends (h : Step s e t) (ends : e.ends = some c) : t.Doomed c := by
  cases h with
  | halfFailed l d k half rest top more here live =>
    cases ends
    exact closed_doomed here
  | fail l d k here home runs =>
    cases ends
    exact closed_doomed here
  | close l d k here home runs =>
    cases ends
    exact closed_doomed here
  | postClose d k here =>
    cases ends
    refine .inr ⟨k.home, List.mem_append_right _ ?_⟩
    simp [post]
  | accept | attachHere | attachThere | take | runAttach | runClose | runRemove | ready
  | halfSkipped | halfCalled | finish => cases ends

/-- `conn->close()` on the thread of `l`. -/
def closeFrom (l : Loop) (c : Nat) (k : Conn Uuid) : Event Uuid :=
  if k.home = l then .close l c else .postClose c

omit [DecidableEq Uuid] in
theorem closeFrom_cases (l : Loop) (c : Nat) (k : Conn Uuid) :
    closeFrom l c k = .close l c ∨ closeFrom l c k = .postClose c := by
  unfold closeFrom
  split
  · exact .inl rfl
  · exact .inr rfl

end Server

/-! ## The server and its wheel -/

/-- `expiring` are the entries whose destructors the thread of a loop has to run, and `ended`
the connections that were closed by anything but the wheel. -/
structure Timed (Uuid : Type) where
  server : Server Uuid
  wheel : Guarded Nat
  expiring : Loop → List (Entry Nat)
  ended : List Nat

inductive TimedEvent (Uuid : Type) where
  | serve (e : Event Uuid)
  | turn (l : Loop) (e : Callback Nat)
  | expire (l : Loop)

/-- The timer of the control loop turns the wheel. The callbacks of a connection make its entry,
which `onConnection` does once, and use it. -/
def Timed.Calls (s : Timed Uuid) (l : Loop) : Callback Nat → Prop
  | .tick _ => l = .control ∧ s.server.stack l = []
  | .create e => (s.server.stack l).head? = some (.callback e.conn) ∧
      ∀ a ∈ s.wheel.made, a.conn ≠ e.conn
  | .lock e | .insert e | .release e _ => (s.server.stack l).head? = some (.callback e.conn)

section
variable [DecidableEq Uuid]

inductive TimedStep : Timed Uuid → TimedEvent Uuid → Timed Uuid → Prop where
  | serve (s e t) (step : Step s.server e t) (introduced : s.server.Introduced e) :
      TimedStep s (.serve e) { s with server := t, ended := e.ends.toList ++ s.ended }
  | turn (s l e wheel) (dead : List (Entry Nat)) (calls : s.Calls l e)
      (step : CallbackStep s.wheel e wheel) (lost : wheel.destroyed = s.wheel.destroyed + ↑dead) :
      TimedStep s (.turn l e) { s with
        wheel := wheel
        expiring := Function.update s.expiring l (s.expiring l ++ dead) }
  /-- `conn_.lock()` finds nothing -/
  | gone (s l e rest) (next : s.expiring l = e :: rest) (none : s.server.owners e.conn = 0) :
      TimedStep s (.expire l) { s with expiring := Function.update s.expiring l rest }
  | close (s l e rest k t) (next : s.expiring l = e :: rest) (owned : 0 < s.server.owners e.conn)
      (here : s.server.conns[e.conn]? = some k)
      (step : Step s.server (Server.closeFrom l e.conn k) t) :
      TimedStep s (.expire l) { s with
        server := t
        expiring := Function.update s.expiring l rest }

def timed (Uuid : Type) [DecidableEq Uuid] (threadNum slotSize timingStep : Nat) :
    System (Timed Uuid) (TimedEvent Uuid) where
  start s := s = ⟨.create threadNum, .create slotSize timingStep, fun _ => [], []⟩
  step := TimedStep

end

namespace Timed

/-- What the server and the wheel know of each other. -/
structure Linked [DecidableEq Uuid] (threadNum slots : Nat) (s : Timed Uuid) : Prop where
  server : ((Tcp.server Uuid threadNum).restrict Server.Introduced).Reachable s.server
  wheel : s.wheel.Watches slots
  made : ∀ e ∈ s.wheel.made, ∃ k, s.server.conns[e.conn]? = some k ∧ k.Attached
  once : ∀ a ∈ s.wheel.made, ∀ b ∈ s.wheel.made, a.conn = b.conn → a = b
  expiring : ∀ l, ∀ e ∈ s.expiring l, e ∈ s.wheel.destroyed
  dead : ∀ e ∈ s.wheel.destroyed, (∃ l, e ∈ s.expiring l) ∨ s.server.Doomed e.conn
  cause : ∀ c, s.server.Doomed c → c ∈ s.ended ∨ ∃ e ∈ s.wheel.destroyed, e.conn = c

variable [DecidableEq Uuid] {threadNum slots : Nat} {s t : Timed Uuid}

/-- The server moves on, by a step that is accounted for. -/
theorem Linked.serve (h : s.Linked threadNum slots) {e : Event Uuid} {next : Server Uuid}
    (step : Step s.server e next) (introduced : s.server.Introduced e) {ended : List Nat}
    {expiring : Loop → List (Entry Nat)}
    (left : ∀ l, ∀ e ∈ expiring l, ∃ m, e ∈ s.expiring m)
    (run : ∀ l, ∀ a ∈ s.expiring l, (∃ m, a ∈ expiring m) ∨ next.Doomed a.conn)
    (kept : ∀ c ∈ s.ended, c ∈ ended)
    (ends : ∀ c, e.ends = some c → c ∈ ended ∨ ∃ a ∈ s.wheel.destroyed, a.conn = c) :
    Linked threadNum slots
      { s with server := next, expiring := expiring, ended := ended } where
  server := h.server.next ⟨introduced, step⟩
  wheel := h.wheel
  made a made := by
    obtain ⟨k, here, attached⟩ := h.made a made
    exact (Server.step_kept step).attached ⟨k, here, attached⟩
  once := h.once
  expiring l a inside := by
    obtain ⟨m, before⟩ := left l a inside
    exact h.expiring m a before
  dead a gone := by
    rcases h.dead a gone with ⟨l, inside⟩ | doomed
    · exact run l a inside
    · exact .inr (Server.step_doomed step doomed)
  cause c doomed := by
    rcases Server.doomed_by step doomed with before | now
    · exact (h.cause c before).imp_left (kept c)
    · exact ends c now

omit [DecidableEq Uuid] in
theorem made_by {w w' : Guarded Nat} {e : Callback Nat} {a : Entry Nat} (step : CallbackStep w e w')
    (made : a ∈ w'.made) : a ∈ w.made ∨ e = .create a := by
  cases step with
  | create b fresh =>
    rcases Finset.mem_insert.mp made with rfl | before
    · exact .inr rfl
    · exact .inl before
  | tick | lock | expired | insert => exact .inl made
  | release b lock held =>
    split at made
    · exact .inl made
    · exact .inl made

/-- The wheel turns, or a callback uses it. -/
theorem Linked.turn (h : s.Linked threadNum slots) (pos : 1 ≤ slots) {l : Loop} {e : Callback Nat}
    {wheel : Guarded Nat} {dead : List (Entry Nat)} (calls : s.Calls l e)
    (step : CallbackStep s.wheel e wheel) (lost : wheel.destroyed = s.wheel.destroyed + ↑dead) :
    Linked threadNum slots { s with
      wheel := wheel
      expiring := Function.update s.expiring l (s.expiring l ++ dead) } := by
  have gone (a : Entry Nat) : a ∈ wheel.destroyed ↔ a ∈ s.wheel.destroyed ∨ a ∈ dead := by
    rw [lost, Multiset.mem_add, Multiset.mem_coe]
  have inside (m : Loop) (a : Entry Nat) (old : a ∈ s.expiring m) :
      a ∈ Function.update s.expiring l (s.expiring l ++ dead) m := by
    by_cases same : m = l
    · subst same
      simp [old]
    · simpa [same] using old
  have attached {a : Entry Nat} (top : (s.server.stack l).head? = some (.callback a.conn)) :
      ∃ k, s.server.conns[a.conn]? = some k ∧ k.Attached :=
    (server_sound h.server).1.stack l _ (List.mem_of_mem_head? top)
  constructor
  · exact h.server
  · exact h.wheel.step pos step
  · intro a made
    rcases made_by step made with before | rfl
    · exact h.made a before
    · exact attached calls.1
  · intro a made b made' same
    rcases made_by step made with before | rfl
    · rcases made_by step made' with before' | rfl
      · exact h.once a before b before' same
      · exact absurd same (calls.2 a before)
    · rcases made_by step made' with before' | again
      · exact absurd same.symm (calls.2 b before')
      · cases again
        rfl
  · intro m a now
    rw [gone]
    by_cases same : m = l
    · subst same
      have split : a ∈ s.expiring m ∨ a ∈ dead := by simpa using now
      exact split.imp_left (h.expiring m a)
    · exact .inl (h.expiring m a (by simpa [same] using now))
  · intro a now
    rcases (gone a).mp now with before | new
    · exact (h.dead a before).imp_left fun ⟨m, old⟩ => ⟨m, inside m a old⟩
    · refine .inl ⟨l, ?_⟩
      simp [new]
  · intro c doomed
    exact (h.cause c doomed).imp_right fun ⟨a, before, same⟩ =>
      ⟨a, (gone a).mpr (.inl before), same⟩

theorem closed_of_unowned {server : Server Uuid}
    (h : ((Tcp.server Uuid threadNum).restrict Server.Introduced).Reachable server) {c : Nat}
    {k : Conn Uuid} (here : server.conns[c]? = some k) (none : server.owners c = 0) :
    0 < k.closes := by
  have consistent := server_registry (System.restrict_mono (fun _ _ ok => ok.1) h)
  have member := Server.member_of_conn here
  by_contra open_
  rw [decide_eq_false open_] at member
  exact Nat.ne_of_gt (Server.owners_pos_of_entry (consistent.kept c _ member)) none

section
variable {l : Loop} {e : Entry Nat} {rest : List (Entry Nat)}

omit [DecidableEq Uuid] in
theorem expiring_of_rest (next : s.expiring l = e :: rest) (m : Loop) (a : Entry Nat)
    (later : a ∈ Function.update s.expiring l rest m) : a ∈ s.expiring m := by
  by_cases same : m = l
  · subst same
    rw [next]
    exact List.mem_cons_of_mem e (by simpa using later)
  · simpa [same] using later

omit [DecidableEq Uuid] in
theorem expiring_cases (next : s.expiring l = e :: rest) (m : Loop) (a : Entry Nat)
    (now : a ∈ s.expiring m) : a ∈ Function.update s.expiring l rest m ∨ a = e := by
  by_cases same : m = l
  · subst same
    rw [next] at now
    rcases List.mem_cons.mp now with first | later
    · exact .inr first
    · exact .inl (by simpa using later)
  · exact .inl (by simpa [same] using now)

/-- The connection of the entry is gone already. -/
theorem Linked.gone (h : s.Linked threadNum slots) (next : s.expiring l = e :: rest)
    (none : s.server.owners e.conn = 0) :
    Linked threadNum slots { s with expiring := Function.update s.expiring l rest } := by
  have last : e ∈ s.wheel.destroyed := h.expiring l e (next ▸ List.mem_cons_self)
  obtain ⟨k, here, _⟩ := h.made e (h.wheel.gone e last)
  have doomed : s.server.Doomed e.conn := .inl ⟨k, here, closed_of_unowned h.server here none⟩
  refine ⟨h.server, h.wheel, h.made, h.once, fun m a later => ?_, fun a dead => ?_, h.cause⟩
  · exact h.expiring m a (expiring_of_rest next m a later)
  · rcases h.dead a dead with ⟨m, inside⟩ | before
    · rcases expiring_cases next m a inside with later | rfl
      · exact .inl ⟨m, later⟩
      · exact .inr doomed
    · exact .inr before

/-- `~Entry` closes the connection, or queues the close. -/
theorem Linked.close (h : s.Linked threadNum slots) (next : s.expiring l = e :: rest)
    {k : Conn Uuid} {server : Server Uuid} (here : s.server.conns[e.conn]? = some k)
    (step : Step s.server (Server.closeFrom l e.conn k) server) :
    Linked threadNum slots { s with
      server := server
      expiring := Function.update s.expiring l rest } := by
  have last : e ∈ s.wheel.destroyed := h.expiring l e (next ▸ List.mem_cons_self)
  obtain ⟨k', there, attached⟩ := h.made e (h.wheel.gone e last)
  cases here.symm.trans there
  have introduced : s.server.Introduced (Server.closeFrom l e.conn k) ∧
      (Server.closeFrom l e.conn k).ends = some e.conn := by
    rcases Server.closeFrom_cases l e.conn k with eq | eq
    · rw [eq]
      refine ⟨⟨trivial, fun c k₁ uses at_ => ?_⟩, rfl⟩
      cases uses
      cases here.symm.trans at_
      exact attached
    · rw [eq]
      refine ⟨⟨trivial, fun c k₁ uses at_ => ?_⟩, rfl⟩
      cases uses
      cases here.symm.trans at_
      exact attached
  refine h.serve step introduced.1 (fun m a later => ⟨m, expiring_of_rest next m a later⟩)
    (fun m a inside => ?_) (fun c before => before) (fun c ends => .inr ⟨e, last, ?_⟩)
  · rcases expiring_cases next m a inside with later | rfl
    · exact .inl ⟨m, later⟩
    · exact .inr (Server.doomed_of_ends step introduced.2)
  · cases introduced.2.symm.trans ends
    rfl

end

theorem step_linked (pos : 1 ≤ slots) {e : TimedEvent Uuid} (h : s.Linked threadNum slots)
    (step : TimedStep s e t) : t.Linked threadNum slots := by
  cases step with
  | serve e server step introduced =>
    refine h.serve step introduced (fun l a inside => ⟨l, inside⟩)
      (fun l a inside => .inl ⟨l, inside⟩) (fun c before => List.mem_append_right _ before)
      (fun c ends => .inl (List.mem_append_left _ ?_))
    rw [ends]
    exact List.mem_singleton_self c
  | turn l e wheel dead calls step lost => exact h.turn pos calls step lost
  | gone l e rest next none => exact h.gone next none
  | close l e rest k server next owned here step => exact h.close next here step

end Timed

section
variable [DecidableEq Uuid] {threadNum slots timingStep : Nat} {s : Timed Uuid}

theorem timed_linked (pos : 1 ≤ slots) (h : (timed Uuid threadNum slots timingStep).Reachable s) :
    s.Linked threadNum slots := by
  refine System.invariant _ (P := fun s => s.Linked threadNum slots) ?_
    (fun s e t hs step => Timed.step_linked pos hs step) h
  rintro _ rfl
  refine ⟨.start rfl, Guarded.create_watches timingStep, nofun, nofun, nofun, nofun, ?_⟩
  rintro c (⟨k, here, _⟩ | ⟨l, queued⟩)
  · cases here
  · cases queued

/-- **The server closes its idle connections, and no others.** Take a connection that has an
entry in the wheel. If nothing but the wheel closed it, it is closed only after as many ticks as
the wheel has slots have passed without an insertion. If that many have passed, then as soon as
no callback has the entry and nothing is left to do on any loop, the connection was destroyed;
if not, it is watched and in the table. -/
theorem idle_connections_closed (pos : 1 ≤ slots)
    (h : (timed Uuid threadNum slots timingStep).Reachable s) {e : Entry Nat}
    (made : e ∈ s.wheel.made) :
    ∃ k, s.server.conns[e.conn]? = some k ∧
      (e.conn ∉ s.ended → 0 < k.closes → s.wheel.Idle slots e) ∧
      ((∀ l, s.server.queue l = [] ∧ s.server.stack l = []) → (∀ l, s.expiring l = []) →
        (s.wheel.holders e = 0 → s.wheel.Idle slots e → s.server.owners e.conn = 0) ∧
        (e.conn ∉ s.ended → ¬ s.wheel.Idle slots e →
          k.registered = true ∧ (k.uuid, e.conn) ∈ s.server.table)) := by
  have linked := timed_linked pos h
  obtain ⟨k, here, _⟩ := linked.made e made
  have early (alone : e.conn ∉ s.ended) (closed : 0 < k.closes) : s.wheel.Idle slots e := by
    obtain ⟨a, gone, same⟩ := (linked.cause e.conn (.inl ⟨k, here, closed⟩)).resolve_left alone
    have known := linked.wheel.gone a gone
    rw [← linked.once a known e made same]
    exact ((linked.wheel.dead a known).mp gone).2
  refine ⟨k, here, early, fun quiet run => ?_⟩
  have rest := at_rest linked.server quiet here
  constructor
  · intro free idle
    have gone := (linked.wheel.dead e made).mpr ⟨free, idle⟩
    rcases linked.dead e gone with ⟨l, inside⟩ | ⟨k', there, closed⟩ | ⟨l, queued⟩
    · rw [run l] at inside
      cases inside
    · cases here.symm.trans there
      exact rest.2 closed
    · rw [Server.queued, (quiet l).1, (quiet l).2] at queued
      cases queued
  · intro alone busy
    exact rest.1 (Nat.eq_zero_of_not_pos fun closed => busy (early alone closed))

end

/-- A wheel with one slot, and a connection of the only loop apart that gets no message. -/
theorem idle_connections_closed_silent : ∃ s : Timed Nat, (timed Nat 1 1 1).Reachable s ∧
    ⟨0, 0⟩ ∈ s.wheel.made ∧ s.ended = [] ∧ s.wheel.Idle 1 ⟨0, 0⟩ ∧ s.server.owners 0 = 0 := by
  have unused {s : Server Nat} {e : Event Nat} (fresh : s.Fresh e) (none : e.uses = none) :
      s.Introduced e := Server.introduced_of_unused fresh none
  let e : Entry Nat := ⟨0, 0⟩
  have called := (System.Reachable.start (M := timed Nat 1 1 1) rfl).next
      (.turn _ .control (.tick fun _ => true) _ [] ⟨rfl, rfl⟩ (.tick _ _ _ _ rfl) rfl)
    |>.next (.serve _ _ _ (.accept _ 7 (.io 0) rfl Nat.zero_lt_one) (unused List.not_mem_nil rfl))
    |>.next (.serve _ _ _ (.attachThere _ 0 _ _ 0 rfl rfl rfl) (unused trivial rfl))
    |>.next (.serve _ _ _ (.take _ (.io 0) rfl (List.cons_ne_nil _ _)) (unused trivial rfl))
    |>.next (.serve _ _ _ (.runAttach _ (.io 0) 0 _ _ _ _ rfl rfl rfl) (unused trivial rfl))
  have inserted := called.next
      (.turn _ (.io 0) (.create e) _ [] ⟨rfl, nofun⟩ (.create _ _ (Finset.notMem_empty _)) rfl)
    |>.next (.turn _ (.io 0) (.insert e) _ [] rfl (.insert _ _ _ (by decide) rfl) rfl)
    |>.next (.turn _ (.io 0) (.release e fun _ => true) _ [] rfl (.release _ _ _ (by decide)) rfl)
    |>.next (.serve _ _ _ (.finish _ (.io 0) _ _ rfl rfl) (unused trivial rfl))
    |>.next (.serve _ _ _ (.finish _ (.io 0) _ _ rfl rfl) (unused trivial rfl))
  have expired := inserted.next
      (.turn _ .control (.tick fun _ => true) _ [e] ⟨rfl, rfl⟩ (.tick _ _ _ _ rfl) rfl)
    |>.next (.close _ .control e _ _ _ rfl (by decide) rfl (.postClose _ 0 _ rfl))
  have closed := expired.next
      (.serve _ _ _ (.take _ (.io 0) rfl (List.cons_ne_nil _ _)) (unused trivial rfl))
    |>.next (.serve _ _ _ (.runClose _ (.io 0) 0 _ _ _ _ rfl rfl) (unused trivial rfl))
    |>.next (.serve _ _ _ (.finish _ (.io 0) _ _ rfl rfl) (unused trivial rfl))
    |>.next (.serve _ _ _ (.finish _ (.io 0) _ _ rfl rfl) (unused trivial rfl))
    |>.next (.serve _ _ _ (.take _ .control rfl (List.cons_ne_nil _ _)) (unused trivial rfl))
    |>.next (.serve _ _ _ (.runRemove _ 0 _ _ _ _ rfl rfl) (unused trivial rfl))
    |>.next (.serve _ _ _ (.finish _ .control _ _ rfl rfl) (unused trivial rfl))
  obtain ⟨s, run, made, ended, idle, quiet, done, free⟩ : ∃ s : Timed Nat,
      (timed Nat 1 1 1).Reachable s ∧ e ∈ s.wheel.made ∧ s.ended = [] ∧ s.wheel.Idle 1 e ∧
        (∀ l, s.server.queue l = [] ∧ s.server.stack l = []) ∧ (∀ l, s.expiring l = []) ∧
        s.wheel.holders e = 0 := by
    refine ⟨_, closed, by decide, rfl, ?_, ?_, ?_, by decide⟩
    · rintro n ⟨rfl⟩
      exact Nat.le_refl 1
    · rintro (_ | _ | _) <;> exact ⟨rfl, rfl⟩
    · rintro (_ | _ | _) <;> rfl
  obtain ⟨k, _, _, rest⟩ := idle_connections_closed (by decide) run made
  exact ⟨s, run, made, ended, idle, (rest quiet done).1 free idle⟩

end Libatp.Tcp
