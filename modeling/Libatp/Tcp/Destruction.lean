import Libatp.Tcp.Owners
import Libatp.Tcp.Queues

/-!
# Stopping a server and destroying it

`Server::stop` closes the listener and asks the loops of the pool to stop. It closes
no connection and does not wait. A loop that was asked drains its queue in `stopHandle`,
asks libevent for the exit, and throws away what was queued since. `~Server` then destroys
the members, the last one declared first: the timing wheel, the table, the pool with its
loops, the control loop. An entry of the wheel closes its connection when it is destroyed,
inline on the connection's own loop and by a task elsewhere, which are steps of the server
as any other close; the table drops its shared pointers, and a loop the tasks that are still
queued on it. A connection is destroyed with its last owner, and its channel asserts
that it was closed.
-/

namespace Libatp.Tcp
open Base

variable {Uuid : Type}

/-! ## Where a step leaves connections -/

namespace Server

variable [DecidableEq Uuid]

theorem owners_pos_of_todo {f : Frame} {task : Task} (h : task ∈ f.todo) :
    0 < f.owners task.conn := by
  cases f with
  | batch ran todo =>
    exact List.countP_pos_iff.mpr ⟨task, List.mem_append_right ran h, decide_eq_true rfl⟩
  | _ => cases h

omit [DecidableEq Uuid] in
theorem owners_pos_of_queued {s : Server Uuid} {l : Loop} {task : Task} (served : l ∈ s.loops)
    (h : task ∈ s.queued l) : 0 < s.owners task.conn := by
  have held : 0 < (s.queue l).countP (·.conn = task.conn) +
      ((s.stack l).map (Frame.owners task.conn)).sum := by
    rcases List.mem_append.mp h with under | waiting
    · obtain ⟨f, called, todo⟩ := List.mem_flatMap.mp under
      exact Nat.add_pos_right _ (List.sum_pos_iff_exists_pos_nat.mpr
        ⟨_, List.mem_map_of_mem called, owners_pos_of_todo todo⟩)
    · exact Nat.add_pos_left
        (List.countP_pos_iff.mpr ⟨task, waiting, decide_eq_true rfl⟩) _
  exact Nat.add_pos_right _ (List.sum_pos_iff_exists_pos_nat.mpr
    ⟨_, List.mem_map_of_mem served, held⟩)

/-- A connection that is there after a step was there before, on the same loop and not
closed more often; or the step accepted it. -/
theorem step_conn {s t : Server Uuid} {e : Event Uuid} {c : Nat} {k : Conn Uuid} (h : Step s e t)
    (here : t.conns[c]? = some k) :
    (∃ k₀, s.conns[c]? = some k₀ ∧ k₀.home = k.home ∧ k₀.closes ≤ k.closes) ∨
      ∃ uuid, e = .accept uuid k.home ∧ s.Serves k.home := by
  have same (eq : t.conns = s.conns) :
      ∃ k₀, s.conns[c]? = some k₀ ∧ k₀.home = k.home ∧ k₀.closes ≤ k.closes :=
    ⟨k, eq ▸ here, rfl, Nat.le_refl _⟩
  have changed {d : Nat} {k₀ k' : Conn Uuid} (eq : t.conns = (s.setConn d k').conns)
      (before : s.conns[d]? = some k₀) (home : k₀.home = k'.home)
      (closes : k₀.closes ≤ k'.closes) :
      ∃ k₀, s.conns[c]? = some k₀ ∧ k₀.home = k.home ∧ k₀.closes ≤ k.closes := by
    rw [eq] at here
    obtain ⟨rfl, rfl⟩ | ⟨_, other⟩ := getElem?_set_cases here
    · exact ⟨k₀, before, home, closes⟩
    · exact ⟨k, other, rfl, Nat.le_refl _⟩
  cases h with
  | accept uuid home idle place =>
    obtain before | ⟨_, rfl⟩ := getElem?_concat_cases here
    · exact .inl ⟨k, before, rfl, Nat.le_refl _⟩
    · exact .inr ⟨uuid, rfl, place⟩
  | attachHere d k' rest top at_ home live => exact .inl (changed rfl at_ rfl (Nat.le_refl _))
  | runAttach l d k' ran todo rest top at_ live =>
    exact .inl (changed rfl at_ rfl (Nat.le_refl _))
  | runClose l d k' ran todo rest top at_ =>
    exact .inl (changed (netFdCloseHandle_conns _ _ _ _ _) at_ rfl (Nat.le_succ _))
  | halfFailed l d k' half rest top more at_ live =>
    exact .inl (changed (netFdCloseHandle_conns _ _ _ _ _) at_ rfl (Nat.le_succ _))
  | fail l d k' at_ home runs =>
    exact .inl (changed (netFdCloseHandle_conns _ _ _ _ _) at_ rfl (Nat.le_succ _))
  | close l d k' at_ home runs =>
    exact .inl (changed (netFdCloseHandle_conns _ _ _ _ _) at_ rfl (Nat.le_succ _))
  | attachThere | take | runRemove | ready | halfSkipped | halfCalled | postClose | finish =>
    exact .inl (same rfl)

theorem step_threadNum {s t : Server Uuid} {e : Event Uuid} (h : Step s e t) :
    t.threadNum = s.threadNum := by
  have closed (l : Loop) (c : Nat) (k : Conn Uuid) (frames : List Frame) :
      (s.netFdCloseHandle l c k frames).threadNum = s.threadNum := by
    rw [netFdCloseHandle, handleCloseConnection]
    split <;> rfl
  cases h with
  | runClose | halfFailed | fail | close => exact closed _ _ _ _
  | accept | attachHere | attachThere | take | runAttach | runRemove | ready | halfSkipped
  | halfCalled | postClose | finish => rfl

end Server

/-! ## Shutdown -/

/-- How far `stop` and `~Server` have come. -/
inductive Phase where
  | running
  | stopped
  | tableDown
  | poolDown
  | down
  deriving DecidableEq, Repr

/-- The loop still exists. -/
def Phase.Alive : Phase → Loop → Prop
  | .running, _ | .stopped, _ | .tableDown, _ => True
  | .poolDown, l => l = .control
  | .down, _ => False

/-- Where a loop's `stopHandle` is. -/
inductive Handling where
  | unasked
  /-- queued on the loop -/
  | asked
  /-- in its `while (true)`, with so many calls under it -/
  | draining (under : Nat)
  /-- after `event_base_loopexit` -/
  | exited
  | returned
  deriving DecidableEq, Repr

def Handling.inside : Handling → Bool
  | .draining _ | .exited => true
  | .unasked | .asked | .returned => false

/-- The calls of `stopHandle`, and whether they have asked for the exit. -/
def Handling.stops : Handling → List Bool
  | .draining _ => [false]
  | .exited => [true]
  | .unasked | .asked | .returned => []

theorem Handling.stops_of_outside {h : Handling} (out : h.inside = false) : h.stops = [] := by
  cases h with
  | draining under => cases out
  | exited => cases out
  | unasked | asked | returned => rfl

theorem Handling.stops_false {h : Handling} {rest : List Bool} (eq : h.stops = false :: rest) :
    ∃ under, h = .draining under ∧ rest = [] := by
  cases h with
  | draining under =>
    cases eq
    exact ⟨under, rfl, rfl⟩
  | _ => cases eq

theorem Handling.stops_true {h : Handling} {rest : List Bool} (eq : h.stops = true :: rest) :
    h = .exited ∧ rest = [] := by
  cases h with
  | exited =>
    cases eq
    exact ⟨rfl, rfl⟩
  | _ => cases eq

structure Shutdown (Uuid : Type) where
  server : Server Uuid
  phase : Phase
  handling : Loop → Handling

/-- `ask` is the application's `stop()` of the loop that it gave the server. -/
inductive ShutdownEvent (Uuid : Type) where
  | serve (e : Event Uuid)
  | stop
  | ask
  | handle (l : Loop)
  | drain (l : Loop)
  | exit (l : Loop)
  | clear (l : Loop)
  | dropTable
  | dropPool
  | dropControl
  deriving DecidableEq, Repr

/-- The loop on whose thread a step is taken; `close()` is called from any. -/
def Event.loop : Event Uuid → Option Loop
  | .accept _ _ | .post => some .control
  | .take l | .run l _ | .ready l _ | .half l _ _ | .fail l _ | .close l _ | .finish l => some l
  | .postClose _ => none

namespace Server

/-- The thread of a loop is not in the code of `stopHandle` itself. -/
def Free (s : Server Uuid) (l : Loop) : Handling → Prop
  | .draining under => under < (s.stack l).length
  | .exited => False
  | .unasked | .asked | .returned => True

/-- After `stop` nothing is accepted, and a loop that is gone does nothing and is given
nothing. -/
def Possible (s : Server Uuid) (phase : Phase) (handling : Loop → Handling) (e : Event Uuid) :
    Prop :=
  (∀ uuid home, e = .accept uuid home → phase = .running) ∧
    (∀ l ∈ e.loop, phase.Alive l ∧ s.Free l (handling l)) ∧
    ∀ c k, e = .postClose c → s.conns[c]? = some k → phase.Alive k.home

/-- A loop's queued tasks are run by its thread, which may be between two events. -/
def Called (s : Server Uuid) (l : Loop) : Prop :=
  ∀ f ∈ (s.stack l).head?, ∃ ran todo, f = .batch ran todo

/-- `stopHandle` calls `doPendingTasks`. -/
def drain (s : Server Uuid) (l : Loop) : Server Uuid :=
  { s with queue := Function.update s.queue l [] }.goto l (.batch [] (s.queue l) :: s.stack l)

/-- `stopHandle` swaps the queue with an empty one. -/
def clear (s : Server Uuid) (l : Loop) : Server Uuid :=
  { s with queue := Function.update s.queue l [] }

def dropTable (s : Server Uuid) : Server Uuid := { s with table := [] }

/-- The threads were joined, and what is queued on their loops goes with them. -/
def dropPool (s : Server Uuid) : Server Uuid :=
  { s with queue := fun l => if l = .control then s.queue .control else [] }

def dropControl (s : Server Uuid) : Server Uuid :=
  { s with queue := Function.update s.queue .control [] }

end Server

section
variable [DecidableEq Uuid]

inductive ShutdownStep : Shutdown Uuid → ShutdownEvent Uuid → Shutdown Uuid → Prop where
  | serve (s t phase h e) (step : Step s e t) (possible : s.Possible phase h e) :
      ShutdownStep ⟨s, phase, h⟩ (.serve e) ⟨t, phase, h⟩
  /-- `Listener::stop` asserts that this is the thread of the control loop. -/
  | stop (s h) (runs : s.Runs .control) :
      ShutdownStep ⟨s, .running, h⟩ .stop
        ⟨s, .stopped, fun l => if l = .control then h l else .asked⟩
  | ask (s phase h) (alive : phase.Alive .control) (out : (h .control).inside = false) :
      ShutdownStep ⟨s, phase, h⟩ .ask ⟨s, phase, Function.update h .control .asked⟩
  | handle (s phase h l) (asked : h l = .asked) (alive : phase.Alive l) (called : s.Called l) :
      ShutdownStep ⟨s, phase, h⟩ (.handle l)
        ⟨s, phase, Function.update h l (.draining (s.stack l).length)⟩
  | drain (s phase h l) (inside : h l = .draining (s.stack l).length) (more : s.queue l ≠ []) :
      ShutdownStep ⟨s, phase, h⟩ (.drain l) ⟨s.drain l, phase, h⟩
  | exit (s phase h l) (inside : h l = .draining (s.stack l).length) (none : s.queue l = []) :
      ShutdownStep ⟨s, phase, h⟩ (.exit l) ⟨s, phase, Function.update h l .exited⟩
  | clear (s phase h l) (inside : h l = .exited) :
      ShutdownStep ⟨s, phase, h⟩ (.clear l) ⟨s.clear l, phase, Function.update h l .returned⟩
  | dropTable (s h) : ShutdownStep ⟨s, .stopped, h⟩ .dropTable ⟨s.dropTable, .tableDown, h⟩
  /-- A thread is joined when its loop has returned. -/
  | dropPool (s h) (joined : ∀ i, s.stack (.io i) = [])
      (ended : ∀ i, i < s.threadNum → h (.io i) = .returned) :
      ShutdownStep ⟨s, .tableDown, h⟩ .dropPool ⟨s.dropPool, .poolDown, h⟩
  | dropControl (s h) (idle : s.stack .control = []) (out : (h .control).inside = false) :
      ShutdownStep ⟨s, .poolDown, h⟩ .dropControl ⟨s.dropControl, .down, h⟩

def shutdown (Uuid : Type) [DecidableEq Uuid] (threadNum : Nat) :
    System (Shutdown Uuid) (ShutdownEvent Uuid) where
  start s := s = ⟨.create threadNum, .running, fun _ => .unasked⟩
  step := ShutdownStep

end

namespace Server

/-- Every connection that was not closed has its close queued on its loop. -/
def Closing (s : Server Uuid) : Prop :=
  ∀ (c : Nat) (k : Conn Uuid), s.conns[c]? = some k → k.closes = 0 → .close c ∈ s.queued k.home

/-- No close of an open connection waits in the queue of the loop. -/
def Settled (s : Server Uuid) (l : Loop) : Prop :=
  ∀ c k, .close c ∈ s.queue l → s.conns[c]? = some k → 0 < k.closes

/-- Every connection is on a loop of the server. -/
def Housed (s : Server Uuid) : Prop :=
  ∀ (c : Nat) (k : Conn Uuid), s.conns[c]? = some k → k.home ∈ s.loops

theorem serves_loops {s : Server Uuid} {l : Loop} (h : s.Serves l) : l ∈ s.loops := by
  cases l with
  | control => exact List.mem_cons_self
  | io i => exact List.mem_cons_of_mem _ (List.mem_map_of_mem (List.mem_range.mpr h))

/-- With nothing queued and no call under way, the table owns every connection, and what
it may not drop is exactly the open ones. -/
theorem dropTable_iff_closing {s : Server Uuid} (housed : s.Housed)
    (quiet : ∀ l ∈ s.loops, s.queue l = [] ∧ s.stack l = []) :
    (∀ c k, s.dropTable.conns[c]? = some k → s.dropTable.owners c = 0 → 0 < k.closes) ↔
      s.Closing := by
  have destroyed (c : Nat) : s.dropTable.owners c = 0 := by
    apply Nat.eq_zero_of_not_pos
    rw [owners, Nat.add_pos_iff_pos_or_pos]
    rintro (entry | held)
    · cases entry
    · obtain ⟨n, counted, pos⟩ := List.sum_pos_iff_exists_pos_nat.mp held
      obtain ⟨l, served, rfl⟩ := List.mem_map.mp counted
      obtain ⟨queue, stack⟩ := quiet l served
      simp [dropTable, queue, stack] at pos
  constructor
  · intro closed c k here live
    have := closed c k here (destroyed c)
    omega
  · intro closing c k here _
    by_contra live
    have queued := closing c k here (by omega)
    obtain ⟨queue, stack⟩ := quiet k.home (housed c k here)
    rw [Server.queued, queue, stack] at queued
    cases queued

variable [DecidableEq Uuid]

theorem step_housed {s t : Server Uuid} {e : Event Uuid} (hs : s.Housed) (h : Step s e t) :
    t.Housed := by
  have loops : t.loops = s.loops := by rw [Server.loops, Server.loops, step_threadNum h]
  intro c k here
  rw [loops]
  obtain ⟨k₀, before, home, _⟩ | ⟨_, _, serves⟩ := step_conn h here
  · rw [← home]
    exact hs c k₀ before
  · exact serves_loops serves

theorem run_close {s t : Server Uuid} {l : Loop} {c : Nat} {k : Conn Uuid}
    (h : Step s (.run l (.close c)) t) (here : t.conns[c]? = some k) : 0 < k.closes := by
  cases h with
  | runClose l c k' ran todo rest top at_ =>
    rw [netFdCloseHandle_conns] at here
    obtain ⟨_, rfl⟩ | ⟨other, _⟩ := getElem?_set_cases here
    · exact Nat.succ_pos _
    · exact absurd rfl other

/-- Once nothing is accepted, an open connection keeps its queued close until the close
is run, which closes it. -/
theorem step_closing {s t : Server Uuid} {e : Event Uuid} (hs : s.Closing)
    (closed : ∀ uuid home, e ≠ .accept uuid home) (h : Step s e t) : t.Closing := by
  intro c k here live
  obtain ⟨k₀, before, home, closes⟩ | ⟨uuid, accepts, _⟩ := step_conn h here
  · have queued := hs c k₀ before (by omega)
    rw [home] at queued
    apply (step_queued h queued).resolve_right
    rintro rfl
    have := run_close h here
    omega
  · exact absurd accepts (closed uuid _)

omit [DecidableEq Uuid] in
theorem agenda_drain (s : Server Uuid) (l m : Loop) (stops : List Bool) :
    (s.drain l).agenda m stops = s.agenda m stops ∨
      m = l ∧ (s.agenda m stops).Step .take ((s.drain l).agenda m stops) :=
  agenda_take m stops rfl

omit [DecidableEq Uuid] in
/-- What is thrown away on a loop is nothing to the others. -/
theorem agenda_clear (s : Server Uuid) (l m : Loop) (stops : List Bool) :
    m ≠ l ∧ (s.clear l).agenda m stops = s.agenda m stops ∨
      m = l ∧ (s.agenda m (true :: stops)).Step .clear ((s.clear l).agenda m stops) := by
  by_cases here : m = l
  · subst here
    have moved : (s.clear m).agenda m stops =
        { s.agenda m (true :: stops) with waiting := [], stops := stops } := by
      simp [agenda, clear]
    rw [moved]
    exact .inr ⟨rfl, .clear _ stops rfl⟩
  · exact .inl ⟨here, by simp [agenda, clear, here]⟩

omit [DecidableEq Uuid] in
theorem queued_drain {s : Server Uuid} {l m : Loop} {task : Task} :
    task ∈ (s.drain l).queued m ↔ task ∈ s.queued m := by
  rcases agenda_drain s l m [] with same | ⟨_, step⟩
  · exact iff_of_eq (congrArg (task ∈ ·.pending) same)
  · constructor
    · intro later
      exact (step.known later).resolve_right nofun
    · intro queued
      exact (step.stays queued).resolve_right (by rintro (_ | ⟨_, _⟩) <;> contradiction)

omit [DecidableEq Uuid] in
theorem queued_clear {s : Server Uuid} {l m : Loop} {task : Task} :
    (task ∈ (s.clear l).queued m → task ∈ s.queued m) ∧
      (task ∈ s.queued m → task ∈ (s.clear l).queued m ∨ m = l ∧ task ∈ s.queue l) := by
  rcases agenda_clear s l m [] with ⟨_, same⟩ | ⟨rfl, step⟩
  · have pending := congrArg (task ∈ ·.pending) same
    exact ⟨fun later => pending.mp later, fun queued => .inl (pending.mpr queued)⟩
  · constructor
    · intro later
      exact (step.known later).resolve_right nofun
    · intro queued
      rcases step.stays queued with later | run | ⟨_, waiting⟩
      · exact .inl later
      · cases run
      · exact .inr ⟨rfl, waiting⟩

omit [DecidableEq Uuid] in
theorem drain_closing {s : Server Uuid} (hs : s.Closing) (l : Loop) : (s.drain l).Closing :=
  fun c k here live => queued_drain.mpr (hs c k here live)

omit [DecidableEq Uuid] in
theorem clear_closing {s : Server Uuid} (hs : s.Closing) {l : Loop} (settled : s.Settled l) :
    (s.clear l).Closing := by
  intro c k here live
  rcases queued_clear.2 (hs c k here live) with later | ⟨_, waiting⟩
  · exact later
  · have := settled c k waiting here
    omega

omit [DecidableEq Uuid] in
/-- `stopHandle` moves and drops messages to the table, and does nothing else to it. -/
theorem drain_standing {s : Server Uuid} (hs : Registry.Standing s.registry) (l : Loop) :
    Registry.Standing (s.drain l).registry := by
  refine Registry.Standing.lose hs fun c removal => ?_
  exact mem_removals.mpr (queued_drain.mp (mem_removals.mp removal))

omit [DecidableEq Uuid] in
theorem clear_standing {s : Server Uuid} (hs : Registry.Standing s.registry) (l : Loop) :
    Registry.Standing (s.clear l).registry := by
  refine Registry.Standing.lose hs fun c removal => ?_
  exact mem_removals.mpr (queued_clear.1 (mem_removals.mp removal))

end Server

namespace Shutdown

/-! ## The loops' queues during shutdown -/

/-- The queue of a loop. -/
def agenda (s : Shutdown Uuid) (l : Loop) : Agenda Task :=
  s.server.agenda l (s.handling l).stops

/-- `stop()` of the server is the first to ask the loops of the pool. -/
def Unasked (s : Shutdown Uuid) : Prop :=
  s.phase = .running → ∀ i, s.handling (.io i) = .unasked

variable {s t : Shutdown Uuid} {e : ShutdownEvent Uuid} {l : Loop}

theorem agenda_update (s : Server Uuid) (phase : Phase) (h : Loop → Handling) (l : Loop)
    (now : Handling) : (⟨s, phase, Function.update h l now⟩ : Shutdown Uuid).agenda l =
      s.agenda l now.stops :=
  congrArg (fun now : Handling => s.agenda l now.stops) (Function.update_self l now h)

theorem agenda_update_ne {m : Loop} (s : Server Uuid) (phase : Phase) (h : Loop → Handling)
    (now : Handling) (apart : l ≠ m) :
    (⟨s, phase, Function.update h m now⟩ : Shutdown Uuid).agenda l = s.agenda l (h l).stops :=
  congrArg (fun now : Handling => s.agenda l now.stops) (Function.update_of_ne apart now h)

/-- A call of `stopHandle` begins or goes on, and the loop's queue stays as it is. -/
theorem agenda_handling {s : Server Uuid} {phase : Phase} {h : Loop → Handling} {m : Loop}
    {now : Handling} {a : Agenda.Event Task}
    (here : (s.agenda m (h m).stops).Step a (s.agenda m now.stops)) :
    (⟨s, phase, Function.update h m now⟩ : Shutdown Uuid).agenda l = s.agenda l (h l).stops ∨
      ∃ a, (s.agenda l (h l).stops).Step a
        ((⟨s, phase, Function.update h m now⟩ : Shutdown Uuid).agenda l) := by
  by_cases same : l = m
  · subst same
    rw [agenda_update]
    exact .inr ⟨a, here⟩
  · exact .inl (agenda_update_ne s phase h now same)

variable [DecidableEq Uuid]

theorem step_unasked (hs : s.Unasked) (h : ShutdownStep s e t) : t.Unasked := by
  -- only the control loop can be in `stopHandle`
  have other {s : Server Uuid} {h : Loop → Handling} {phase : Phase} {l : Loop} {now : Handling}
      (hs : (⟨s, phase, h⟩ : Shutdown Uuid).Unasked) (here : h l ≠ .unasked) :
      (⟨s, phase, Function.update h l now⟩ : Shutdown Uuid).Unasked := by
    intro running i
    have first := hs running i
    have apart : Loop.io i ≠ l := by
      rintro rfl
      exact here first
    exact (Function.update_of_ne apart _ _).trans first
  cases h with
  | serve | drain => exact hs
  | stop | dropTable | dropPool | dropControl => exact nofun
  | ask s phase h alive out => exact fun running i => hs running i
  | handle s phase h l asked alive called => exact other hs (by rw [asked]; nofun)
  | exit s phase h l inside none => exact other hs (by rw [inside]; nofun)
  | clear s phase h l inside =>
    exact other (s := s.clear l) (fun running => hs running) (by rw [inside]; nofun)

theorem alive_of_step (h : ShutdownStep s e t) (alive : t.phase.Alive l) : s.phase.Alive l := by
  cases h with
  | dropControl => exact alive.elim
  | stop | dropTable | dropPool => trivial
  | serve | ask | handle | drain | exit | clear => exact alive

/-- While a loop exists, its queue moves as an agenda does, or stays as it is. -/
theorem step_agenda (first : s.Unasked) (h : ShutdownStep s e t) (alive : t.phase.Alive l) :
    t.agenda l = s.agenda l ∨ ∃ a, (s.agenda l).Step a (t.agenda l) := by
  cases h with
  | serve s t phase h e step possible =>
    exact (Server.step_agenda step l (h l).stops).imp_right fun ⟨a, moved⟩ => ⟨a, moved.step⟩
  | stop s h runs =>
    left
    cases l with
    | control => rfl
    | io i =>
      have unasked : h (.io i) = .unasked := first rfl i
      have same : Handling.asked.stops = (h (.io i)).stops := by
        rw [unasked]
        rfl
      exact congrArg (s.agenda (.io i)) same
  | ask s phase h _ out =>
    left
    by_cases control : l = .control
    · subst control
      exact (agenda_update s phase h _ _).trans
        (congrArg (s.agenda .control) (Handling.stops_of_outside out).symm)
    · exact agenda_update_ne s phase h _ control
  | handle s phase h m asked _ called =>
    refine agenda_handling (a := .stop) ?_
    rw [asked]
    exact .stop _
  | drain s phase h m inside more =>
    exact (Server.agenda_drain s m l (h l).stops).imp_right fun step => ⟨_, step.2⟩
  | exit s phase h m inside none =>
    refine agenda_handling (a := .exit) ?_
    rw [inside]
    exact .exit _ [] rfl none
  | clear s phase h m inside =>
    rcases Server.agenda_clear s m l [] with ⟨apart, _⟩ | ⟨rfl, step⟩
    · have same := (Server.agenda_clear s m l (h l).stops).resolve_right fun here => apart here.1
      exact .inl ((agenda_update_ne _ phase h _ apart).trans same.2)
    · have before : (⟨s, phase, h⟩ : Shutdown Uuid).agenda l = s.agenda l [true] :=
        congrArg (fun now : Handling => s.agenda l now.stops) inside
      rw [agenda_update, before]
      exact .inr ⟨_, step⟩
  | dropTable s h => exact .inl rfl
  | dropPool s h joined ended =>
    cases l with
    | control => exact .inl rfl
    | io i => cases alive
  | dropControl s h idle out => exact alive.elim

/-- Conversely, whatever `stopHandle` can do to the queue of its loop between the tasks that
it runs, is a step. -/
theorem exists_step_of_agenda {a : Agenda.Event Task} {d : Agenda Task}
    (between : ∀ under, s.handling l = .draining under → under = (s.server.stack l).length)
    (own : a = .exit ∨ a = .clear ∨ a = .take ∧ s.server.queue l ≠ [] ∧
      ∃ under, s.handling l = .draining under)
    (h : (s.agenda l).Step a d) : ∃ e t, ShutdownStep s e t ∧ t.agenda l = d := by
  obtain ⟨s, phase, handling⟩ := s
  rcases own with rfl | rfl | ⟨rfl, more, under, inside⟩
  · cases h with
    | exit rest inside none =>
      obtain ⟨under, here, rfl⟩ := Handling.stops_false inside
      cases between under here
      exact ⟨_, _, .exit s phase handling l here none, agenda_update s phase handling l _⟩
  · cases h with
    | clear rest inside =>
      obtain ⟨here, rfl⟩ := Handling.stops_true inside
      refine ⟨_, _, .clear s phase handling l here, (agenda_update _ phase handling l _).trans ?_⟩
      simp [Server.agenda, Server.clear, agenda, Handling.stops]
  · cases h with
    | take =>
      cases between under inside
      refine ⟨_, _, .drain s phase handling l inside more, ?_⟩
      simp [Server.agenda, Server.drain, Server.goto, agenda, Frame.todo]

/-! ## Orderly shutdown -/

/-- Identifiers are new. When the table is destroyed every connection was closed or has
its close queued on its loop, and from then on no `stopHandle` throws away, and no loop is
destroyed with, the close of a connection that was not closed. -/
def Orderly (s : Shutdown Uuid) : ShutdownEvent Uuid → Prop
  | .serve e => s.server.Fresh e
  | .stop | .ask | .handle _ | .drain _ | .exit _ => True
  | .clear l => s.phase = .running ∨ s.phase = .stopped ∨ s.server.Settled l
  | .dropTable => s.server.Closing
  | .dropPool => ∀ i, s.server.Settled (.io i)
  | .dropControl => s.server.Settled .control

/-- While the table is there it has every open connection; afterwards the queued closes keep
them. -/
def Covered (s : Shutdown Uuid) : Prop :=
  match s.phase with
  | .running | .stopped => Registry.Standing s.server.registry
  | .tableDown | .poolDown | .down => s.server.Closing

theorem serve_covered {s t : Server Uuid} {phase : Phase} {h : Loop → Handling} {e : Event Uuid}
    (hs : (⟨s, phase, h⟩ : Shutdown Uuid).Covered) (fresh : s.Fresh e) (step : Step s e t)
    (possible : s.Possible phase h e) : (⟨t, phase, h⟩ : Shutdown Uuid).Covered := by
  have closed (later : phase ≠ .running) : ∀ uuid home, e ≠ .accept uuid home :=
    fun uuid home accepts => later (possible.1 uuid home accepts)
  cases phase with
  | running | stopped =>
    rcases Server.step_registry fresh step with same | ⟨_, moved⟩
    · exact (congrArg Registry.Standing same).mpr hs
    · exact Registry.step_standing moved hs
  | tableDown | poolDown | down => exact Server.step_closing hs (closed nofun) step

omit [DecidableEq Uuid] in
/-- What a loop that goes leaves of the closes. -/
theorem drop_closing {s : Server Uuid} (hs : s.Closing) (gone : Loop → Prop)
    (idle : ∀ l, gone l → s.stack l = []) (settled : ∀ l, gone l → s.Settled l)
    {t : Server Uuid} (conns : t.conns = s.conns) (stack : t.stack = s.stack)
    (queue : ∀ l, ¬ gone l → t.queue l = s.queue l) : t.Closing := by
  intro c k here live
  rw [conns] at here
  have queued := hs c k here live
  by_cases goes : gone k.home
  · rw [Server.queued, idle _ goes] at queued
    have := settled _ goes c k queued here
    omega
  · rw [Server.queued, stack, queue _ goes]
    exact queued

theorem step_covered {s t : Shutdown Uuid} {e : ShutdownEvent Uuid} (hs : s.Covered)
    (orderly : s.Orderly e) (step : ShutdownStep s e t) : t.Covered := by
  cases step with
  | serve s t phase h e step possible => exact serve_covered hs orderly step possible
  | stop s h runs => exact hs
  | ask s phase h alive out => exact hs
  | handle s phase h l asked alive called => exact hs
  | exit s phase h l inside none => exact hs
  | drain s phase h l inside more =>
    cases phase with
    | running | stopped => exact Server.drain_standing hs l
    | tableDown | poolDown | down => exact Server.drain_closing hs l
  | clear s phase h l inside =>
    have settled (first : phase ≠ .running) (second : phase ≠ .stopped) : s.Settled l :=
      (orderly.resolve_left first).resolve_left second
    cases phase with
    | running | stopped => exact Server.clear_standing hs l
    | tableDown | poolDown | down => exact Server.clear_closing hs (settled nofun nofun)
  | dropTable s h => exact orderly
  | dropPool s h joined ended =>
    refine drop_closing hs (· ≠ .control) ?_ ?_ rfl rfl ?_
    · rintro (_ | i) other
      · exact absurd rfl other
      · exact joined i
    · rintro (_ | i) other
      · exact absurd rfl other
      · exact orderly i
    · intro l control
      cases not_not.mp control
      rfl
  | dropControl s h idle out =>
    refine drop_closing hs (· = .control) ?_ ?_ rfl rfl ?_
    · rintro _ rfl
      exact idle
    · rintro _ rfl
      exact orderly
    · intro l other
      exact Function.update_of_ne other _ _

theorem step_housed {s t : Shutdown Uuid} {e : ShutdownEvent Uuid} (hs : s.server.Housed)
    (h : ShutdownStep s e t) : t.server.Housed := by
  cases h with
  | serve s t phase h e step possible => exact Server.step_housed hs step
  | stop | ask | handle | drain | exit | clear | dropTable | dropPool | dropControl => exact hs

end Shutdown

variable [DecidableEq Uuid]

/-- The queue of every loop of the server is an agenda, in every run and as long as the loop
exists. -/
theorem shutdown_agenda {threadNum : Nat} {s : Shutdown Uuid} {l : Loop}
    (h : (shutdown Uuid threadNum).Reachable s) (alive : s.phase.Alive l) :
    (agenda Task).Reachable (s.agenda l) := by
  have unasked {s : Shutdown Uuid} (run : (shutdown Uuid threadNum).Reachable s) : s.Unasked := by
    refine System.invariant _ ?_ ?_ run
    · rintro _ rfl
      exact fun _ _ => rfl
    · intro s e t hs step
      exact Shutdown.step_unasked hs step
  induction h with
  | start first =>
    cases first
    exact .start rfl
  | next before step ih =>
    have earlier := ih (Shutdown.alive_of_step step alive)
    rcases Shutdown.step_agenda (unasked before) step alive with same | ⟨a, moved⟩
    · rw [same]
      exact earlier
    · exact earlier.next moved

theorem shutdown_covered {threadNum : Nat} {s : Shutdown Uuid}
    (h : ((shutdown Uuid threadNum).restrict Shutdown.Orderly).Reachable s) :
    s.Covered ∧ s.server.Housed := by
  refine System.invariant _ (P := fun s => s.Covered ∧ s.server.Housed) ?_ ?_ h
  · rintro _ rfl
    exact ⟨⟨List.nodup_nil, nofun, nofun, nofun⟩, fun c k here => by cases here⟩
  · rintro s e t ⟨covered, housed⟩ ⟨orderly, step⟩
    exact ⟨Shutdown.step_covered covered orderly step, Shutdown.step_housed housed step⟩

/-- A run of the server is one that was not stopped yet. -/
theorem shutdown_serving {threadNum : Nat} {s : Server Uuid}
    (h : ((server Uuid threadNum).restrict Server.Fresh).Reachable s) :
    ((shutdown Uuid threadNum).restrict Shutdown.Orderly).Reachable
      ⟨s, .running, fun _ => .unasked⟩ := by
  induction h with
  | start hs => exact .start (by rw [hs]; rfl)
  | next _ step ih =>
    exact ih.allow (.serve _ _ _ _ _ step.2
      ⟨fun _ _ _ => rfl, fun _ _ => ⟨trivial, trivial⟩, fun _ _ _ _ => trivial⟩) step.1

omit [DecidableEq Uuid] in
theorem Server.possible_of_alive {s : Server Uuid} {phase : Phase} {h : Loop → Handling}
    {e : Event Uuid} (closed : ∀ uuid home, e ≠ .accept uuid home) (alive : ∀ l, phase.Alive l)
    (free : ∀ l ∈ e.loop, s.Free l (h l)) : s.Possible phase h e :=
  ⟨fun uuid home accepts => absurd accepts (closed uuid home),
    fun l here => ⟨alive l, free l here⟩, fun _ k _ _ => alive k.home⟩

/-- **Every connection is closed before it is destroyed**, in every run whose shutdown
is orderly. -/
theorem closed_before_destroyed {threadNum : Nat} {s : Shutdown Uuid}
    (h : ((shutdown Uuid threadNum).restrict Shutdown.Orderly).Reachable s) :
    ∀ c k, s.server.conns[c]? = some k → s.server.owners c = 0 → 0 < k.closes := by
  obtain ⟨covered, housed⟩ := shutdown_covered h
  intro c k here destroyed
  obtain ⟨s, phase, handling⟩ := s
  -- the table owns the open connections while it is there, and their closes do afterwards
  have listed (standing : Registry.Standing s.registry) : 0 < k.closes := by
    by_contra open_
    have member := Server.member_of_conn here
    rw [decide_eq_false open_] at member
    have entry : (k.uuid, c) ∈ s.table := standing.kept c k.uuid member
    exact Nat.ne_of_gt (Server.owners_pos_of_entry entry) destroyed
  have closing (queued : s.Closing) : 0 < k.closes := by
    by_contra live
    have waiting := queued c k here (by omega)
    exact Nat.ne_of_gt (Server.owners_pos_of_queued (housed c k here) waiting) destroyed
  cases phase with
  | running | stopped => exact listed covered
  | tableDown | poolDown | down => exact closing covered

/-- A server with one loop apart, whose only connection is open and watched. -/
theorem attached_apart : ((server Nat 1).restrict Server.Fresh).Reachable
    ⟨1, [⟨7, .io 0, true, 0⟩], [(7, 0)], fun _ => [], fun _ => []⟩ := by
  have accepted := (System.Reachable.start (M := (server Nat 1).restrict Server.Fresh) rfl).allow
      (.accept _ 7 (.io 0) rfl Nat.zero_lt_one) List.not_mem_nil
    |>.allow (.attachThere _ 0 _ _ 0 rfl rfl rfl) trivial
  have attached := accepted.allow (.take _ (.io 0) rfl (List.cons_ne_nil _ _)) trivial
    |>.allow (.runAttach _ (.io 0) 0 _ _ _ _ rfl rfl rfl) trivial
    |>.allow (.finish _ (.io 0) _ _ rfl rfl) trivial
    |>.allow (.finish _ (.io 0) _ _ rfl rfl) trivial
  obtain ⟨s, run, threadNum, conns, table, queue, stack⟩ :
      ∃ s : Server Nat, ((server Nat 1).restrict Server.Fresh).Reachable s ∧ s.threadNum = 1 ∧
        s.conns = [⟨7, .io 0, true, 0⟩] ∧ s.table = [(7, 0)] ∧ (∀ l, s.queue l = []) ∧
        ∀ l, s.stack l = [] :=
    ⟨_, attached, rfl, rfl, rfl, by rintro (_ | _ | _) <;> rfl, by rintro (_ | _ | _) <;> rfl⟩
  obtain ⟨_, _, _, _, _⟩ := s
  cases threadNum
  cases conns
  cases table
  cases funext queue
  cases funext stack
  exact run

/-- The wheel's entry posts the close after `stop`; the loop's `stopHandle` finds it in the
queue and runs it. The removal is never run. -/
theorem closed_before_destroyed_wheel : ∃ s : Shutdown Nat,
    ((shutdown Nat 1).restrict Shutdown.Orderly).Reachable s ∧ s.phase = .down ∧
      ∃ k, s.server.conns[0]? = some k ∧ s.server.owners 0 = 0 ∧ 0 < k.closes := by
  have stopped := (shutdown_serving attached_apart).allow (.stop _ _ nofun) trivial
  have posted := stopped.allow (.serve _ _ _ _ _ (.postClose _ 0 _ rfl)
    (Server.possible_of_alive nofun (fun _ => trivial) nofun)) trivial
  have tableDown := posted.allow (.dropTable _ _) (by
    rintro (_ | _) k here live
    · cases here
      exact List.mem_cons_self
    · cases here)
  have draining := tableDown.allow (.handle _ _ _ (.io 0) rfl trivial nofun) trivial
    |>.allow (.drain _ _ _ (.io 0) rfl (List.cons_ne_nil _ _)) trivial
  have within (l : Loop) (here : l = .io 0) {s : Server Nat} {h : Loop → Handling}
      (handled : h (.io 0) = .draining 0) (calls : 0 < (s.stack (.io 0)).length) :
      s.Free l (h l) := by
    subst here
    rw [handled]
    exact calls
  have closed := draining.allow (.serve _ _ _ _ _ (.runClose _ (.io 0) 0 _ _ _ _ rfl rfl)
    (Server.possible_of_alive nofun (fun _ => trivial) fun l here =>
      within l (Option.some.inj here).symm rfl (Nat.zero_lt_succ _))) trivial
  have returned := closed.allow (.serve _ _ _ _ _ (.finish _ (.io 0) _ _ rfl rfl)
      (Server.possible_of_alive nofun (fun _ => trivial) fun l here =>
        within l (Option.some.inj here).symm rfl (Nat.zero_lt_succ _))) trivial
    |>.allow (.serve _ _ _ _ _ (.finish _ (.io 0) _ _ rfl rfl)
      (Server.possible_of_alive nofun (fun _ => trivial) fun l here =>
        within l (Option.some.inj here).symm rfl (Nat.zero_lt_succ _))) trivial
  have exited := returned.allow (.exit _ _ _ (.io 0) rfl rfl) trivial
    |>.allow (.clear _ _ _ (.io 0) rfl) (.inr (.inr fun c k queued => by cases queued))
  have poolDown := exited.allow (.dropPool _ _ (by rintro (_ | _) <;> rfl) (by
      rintro (_ | i) inside
      · rfl
      · cases Nat.lt_of_succ_lt_succ inside)) (by
    rintro (_ | _) c k queued <;> cases queued)
  have down := poolDown.allow (.dropControl _ _ rfl rfl) (by
    intro c k queued
    cases List.mem_singleton.mp queued)
  exact ⟨_, down, rfl, _, rfl, rfl, closed_before_destroyed down 0 _ rfl rfl⟩

/-- With no loop apart, nothing closes the connection. With one, the wheel's entry posts the
close after the loop's `stopHandle` has found the queue empty: it is thrown away, or, if the
loop has returned, destroyed with it. -/
theorem destroyed_while_open :
    (∃ s : Shutdown Nat, (shutdown Nat 0).Reachable s ∧ s.phase = .tableDown ∧
      ∃ k, s.server.conns[0]? = some k ∧ s.server.owners 0 = 0 ∧ k.closes = 0) ∧
    (∃ s : Shutdown Nat, (shutdown Nat 1).Reachable s ∧ s.phase = .tableDown ∧
      ∃ k, s.server.conns[0]? = some k ∧ s.server.owners 0 = 0 ∧ k.closes = 0) ∧
    ∃ s : Shutdown Nat, (shutdown Nat 1).Reachable s ∧ s.phase = .poolDown ∧
      ∃ k, s.server.conns[0]? = some k ∧ s.server.owners 0 = 0 ∧ k.closes = 0 := by
  have stopped := (System.restrict_reachable _ (shutdown_serving attached_apart)).next
    (.stop _ _ nofun)
  have exited := stopped.next (.handle _ _ _ (.io 0) rfl trivial nofun)
    |>.next (.exit _ _ _ (.io 0) rfl rfl)
  refine ⟨?_, ?_, ?_⟩
  · have attached := (System.Reachable.start (M := (server Nat 0).restrict Server.Fresh) rfl).allow
        (.accept _ 7 .control rfl rfl) List.not_mem_nil
      |>.allow (.attachHere _ 0 _ _ rfl rfl rfl rfl) trivial
      |>.allow (.finish _ .control _ _ rfl rfl) trivial
      |>.allow (.finish _ .control _ _ rfl rfl) trivial
    have tableDown := (System.restrict_reachable _ (shutdown_serving attached)).next
        (.stop _ _ nofun)
      |>.next (.dropTable _ _)
    exact ⟨_, tableDown, rfl, _, rfl, rfl, rfl⟩
  · have posted := exited.next (.serve _ _ _ _ _ (.postClose _ 0 _ rfl)
      (Server.possible_of_alive nofun (fun _ => trivial) nofun))
    have cleared := posted.next (.dropTable _ _) |>.next (.clear _ _ _ (.io 0) rfl)
    exact ⟨_, cleared, rfl, _, rfl, rfl, rfl⟩
  · have posted := exited.next (.clear _ _ _ (.io 0) rfl)
      |>.next (.serve _ _ _ _ _ (.postClose _ 0 _ rfl)
        (Server.possible_of_alive nofun (fun _ => trivial) nofun))
    have poolDown := posted.next (.dropTable _ _) |>.next (.dropPool _ _ (fun _ => rfl) (by
      rintro (_ | i) inside
      · rfl
      · cases Nat.lt_of_succ_lt_succ inside))
    exact ⟨_, poolDown, rfl, _, rfl, rfl, rfl⟩

end Libatp.Tcp
