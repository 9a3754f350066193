import Libatp.Base.Progress
import Libatp.Tcp.Destruction

/-!
# A server comes to rest

What the loops do by themselves is started by something from outside: a connection or data
that arrives, and calls of the application. Each of these gives the loops a bounded number of
steps to do, so a server that is left alone comes to rest. Then every connection is attached
to its loop and in the table, or it was closed and nothing is left of it.

The application is given a connection by its connection callback, which `attachToEventLoop`
calls: it can use and close no connection before. Two things end a server before it comes to
rest: a direct `::send` that fails for good, after which `send` goes on to a channel without an
event, and a handler whose connection is gone. The runs here are those without them.
-/

namespace Libatp.Tcp
open Base

variable {Uuid : Type}

/-- The thread of a loop goes on by itself. -/
def Event.own : Event Uuid → Bool
  | .post | .take _ | .run _ _ | .half _ _ _ | .finish _ => true
  | .accept _ _ | .ready _ _ | .fail _ _ | .close _ _ | .postClose _ => false

/-- The connection that the application sends on or closes. -/
def Event.uses : Event Uuid → Option Nat
  | .fail _ c | .close _ c | .postClose c => some c
  | .accept _ _ | .post | .take _ | .run _ _ | .ready _ _ | .half _ _ _ | .finish _ => none

/-- `attachToEventLoop` was called. -/
def Conn.Attached (k : Conn Uuid) : Prop := k.registered = true ∨ 0 < k.closes

instance (k : Conn Uuid) : Decidable k.Attached := inferInstanceAs (Decidable (_ ∨ _))

/-- Identifiers are new, and the application uses connections it was given. -/
def Server.Introduced (s : Server Uuid) (e : Event Uuid) : Prop :=
  s.Fresh e ∧ ∀ c k, e.uses = some c → s.conns[c]? = some k → k.Attached

theorem Server.introduced_of_unused {s : Server Uuid} {e : Event Uuid} (fresh : s.Fresh e)
    (none : e.uses = none) : s.Introduced e := by
  refine ⟨fresh, fun c k uses => ?_⟩
  rw [none] at uses
  cases uses

/-! ## What the loops have to do -/

namespace Server

section
variable (q : Task → Nat) (f : Frame → Nat)

def load (s : Server Uuid) (l : Loop) : Nat :=
  ((s.queue l).map q).sum + ((s.stack l).map f).sum

/-- Everything that is queued and every call under way, each with its weight. -/
def weigh (s : Server Uuid) : Nat := (s.loops.map (s.load q f)).sum

theorem loops_nodup (s : Server Uuid) : s.loops.Nodup := by
  refine List.nodup_cons.mpr ⟨by simp, ?_⟩
  exact List.nodup_range.map fun i j same => by cases same; rfl

variable {q f} {s : Server Uuid} {l : Loop}

theorem weigh_goto (served : l ∈ s.loops) (frames : List Frame) :
    (s.goto l frames).weigh q f + ((s.stack l).map f).sum =
      s.weigh q f + (frames.map f).sum := by
  have moved := map_sum_change (f := s.load q f) (g := (s.goto l frames).load q f)
    s.loops_nodup served fun m other => by simp [load, goto, other]
  have now : (s.goto l frames).load q f l = ((s.queue l).map q).sum + (frames.map f).sum := by
    simp [load, goto]
  rw [now, load] at moved
  show (s.loops.map ((s.goto l frames).load q f)).sum + _ = _
  rw [weigh]
  omega

theorem weigh_post (served : l ∈ s.loops) (task : Task) :
    (s.post l task).weigh q f = s.weigh q f + q task := by
  have moved := map_sum_change (f := s.load q f) (g := (s.post l task).load q f)
    s.loops_nodup served fun m other => by simp [load, post, other]
  have now : (s.post l task).load q f l = s.load q f l + q task := by
    simp only [load, post, Function.update_self, List.map_append, List.map_cons, List.map_nil,
      List.sum_append, List.sum_cons, List.sum_nil]
    omega
  rw [now] at moved
  show (s.loops.map ((s.post l task).load q f)).sum = _
  rw [weigh]
  omega

theorem weigh_take (served : l ∈ s.loops) (idle : s.stack l = []) :
    ({ s with queue := Function.update s.queue l [] }.goto l [.batch [] (s.queue l)]).weigh q f +
      ((s.queue l).map q).sum = s.weigh q f + f (.batch [] (s.queue l)) := by
  let t := { s with queue := Function.update s.queue l [] }.goto l [.batch [] (s.queue l)]
  have moved := map_sum_change (f := s.load q f) (g := t.load q f) s.loops_nodup served
    fun m other => by simp [t, load, goto, other]
  have now : t.load q f l = f (.batch [] (s.queue l)) := by simp [t, load, goto]
  have before : s.load q f l = ((s.queue l).map q).sum := by simp [load, idle]
  rw [now, before] at moved
  exact moved

variable [DecidableEq Uuid]

/-- A close posts the removal of the connection, or removes it at once. -/
theorem weigh_netFdCloseHandle (served : l ∈ s.loops) (c : Nat) (k : Conn Uuid)
    (frames : List Frame) :
    (s.netFdCloseHandle l c k frames).weigh q f + ((s.stack l).map f).sum =
      s.weigh q f + (f (.closeFn c) + (frames.map f).sum) +
        if l = .control then 0 else q (.remove c) := by
  let closed := s.setConn c { k with registered := false, closes := k.closes + 1 }
  have control : Loop.control ∈ closed.loops := List.mem_cons_self
  have posted : (closed.handleCloseConnection l c k.uuid).weigh q f =
      s.weigh q f + if l = .control then 0 else q (.remove c) := by
    rw [handleCloseConnection]
    split
    · rfl
    · exact weigh_post control (.remove c)
  have served' : l ∈ (closed.handleCloseConnection l c k.uuid).loops := by
    rw [handleCloseConnection]
    split <;> exact served
  have moved := weigh_goto (q := q) (f := f) served' (.closeFn c :: frames)
  rw [posted, handleCloseConnection_stack, List.map_cons, List.sum_cons] at moved
  rw [netFdCloseHandle]
  exact moved.trans (by omega)

end

end Server

/-! ## Where calls and tasks come from -/

section
variable (conns : List (Conn Uuid)) (l : Loop)

/-- Closes are queued for connections that were attached, removals on the control loop. -/
def Task.Sound : Task → Prop
  | .attach _ => True
  | .close c => ∃ k, conns[c]? = some k ∧ k.Attached
  | .remove c => l = .control ∧ ∃ k, conns[c]? = some k

def Frame.Sound : Frame → Prop
  | .accept _ => l = .control
  | .batch _ todo => ∀ task ∈ todo, task.Sound conns l
  | .callback c | .handle c _ => ∃ k, conns[c]? = some k ∧ k.Attached
  | .attaching _ | .close _ | .closeFn _ => True

end

/-- Connections stay, and stay attached. -/
def Kept (conns conns' : List (Conn Uuid)) : Prop :=
  ∀ (c : Nat) (k : Conn Uuid), conns[c]? = some k →
    ∃ k', conns'[c]? = some k' ∧ (k.Attached → k'.Attached)

theorem Kept.refl (conns : List (Conn Uuid)) : Kept conns conns := fun _ k here => ⟨k, here, id⟩

theorem Kept.added (conns : List (Conn Uuid)) (k : Conn Uuid) : Kept conns (conns ++ [k]) := by
  intro c k' here
  refine ⟨k', ?_, id⟩
  rw [List.getElem?_append_left (List.getElem?_eq_some_iff.mp here).1, here]

theorem Kept.set {conns : List (Conn Uuid)} {c : Nat} {k : Conn Uuid} (attached : k.Attached) :
    Kept conns (conns.set c k) := by
  intro d k' here
  by_cases same : d = c
  · subst same
    exact ⟨k, List.getElem?_set_self (List.getElem?_eq_some_iff.mp here).1, fun _ => attached⟩
  · exact ⟨k', (List.getElem?_set_ne (Ne.symm same)).trans here, id⟩

theorem Kept.attached {conns conns' : List (Conn Uuid)} {c : Nat} (kept : Kept conns conns')
    (h : ∃ k, conns[c]? = some k ∧ k.Attached) : ∃ k, conns'[c]? = some k ∧ k.Attached := by
  obtain ⟨k, here, attached⟩ := h
  obtain ⟨k', there, stays⟩ := kept c k here
  exact ⟨k', there, stays attached⟩

theorem Task.Sound.mono {conns conns' : List (Conn Uuid)} {l : Loop} {task : Task}
    (kept : Kept conns conns') (h : task.Sound conns l) : task.Sound conns' l := by
  cases task with
  | attach c => trivial
  | close c => exact kept.attached h
  | remove c =>
    obtain ⟨control, k, here⟩ := h
    obtain ⟨k', there, _⟩ := kept c k here
    exact ⟨control, k', there⟩

theorem Frame.Sound.mono {conns conns' : List (Conn Uuid)} {l : Loop} {f : Frame}
    (kept : Kept conns conns') (h : f.Sound conns l) : f.Sound conns' l := by
  cases f with
  | accept c => exact h
  | batch ran todo => exact fun task queued => (h task queued).mono kept
  | callback c | handle c next => exact kept.attached h
  | attaching | close | closeFn => trivial

namespace Server

/-- Only the loops of the server do something, and they do what they were given. -/
structure Sound (s : Server Uuid) : Prop where
  housed : s.Housed
  idle : ∀ l, l ∉ s.loops → s.queue l = [] ∧ s.stack l = []
  queue : ∀ l, ∀ task ∈ s.queue l, task.Sound s.conns l
  stack : ∀ l, ∀ f ∈ s.stack l, f.Sound s.conns l

namespace Sound

variable {s : Server Uuid} {l : Loop}

theorem served_of_stack (h : s.Sound) (busy : s.stack l ≠ []) : l ∈ s.loops :=
  Decidable.byContradiction fun apart => busy (h.idle l apart).2

theorem served_of_queue (h : s.Sound) (due : s.queue l ≠ []) : l ∈ s.loops :=
  Decidable.byContradiction fun apart => due (h.idle l apart).1

theorem goto (h : s.Sound) (served : l ∈ s.loops) {frames : List Frame}
    (sound : ∀ f ∈ frames, f.Sound s.conns l) : (s.goto l frames).Sound where
  housed := h.housed
  idle m apart := by
    have other : m ≠ l := fun same => apart (same ▸ served)
    simpa [Server.goto, other] using h.idle m apart
  queue := h.queue
  stack m f called := by
    rcases mem_goto called with ⟨rfl, new⟩ | before
    · exact sound f new
    · exact h.stack m f before

theorem post (h : s.Sound) (served : l ∈ s.loops) (task : Task) (sound : task.Sound s.conns l) :
    (s.post l task).Sound where
  housed := h.housed
  idle m apart := by
    have other : m ≠ l := fun same => apart (same ▸ served)
    simpa [Server.post, other] using h.idle m apart
  queue m queued here := by
    by_cases same : m = l
    · subst same
      have split : queued ∈ s.queue m ∨ queued = task := by simpa [Server.post] using here
      rcases split with before | rfl
      · exact h.queue m queued before
      · exact sound
    · exact h.queue m queued (by simpa [Server.post, same] using here)
  stack := h.stack

/-- The table plays no part, and the connections only by what is known of them. -/
theorem change (h : s.Sound) {t : Server Uuid} (kept : Kept s.conns t.conns) (housed : t.Housed)
    (threadNum : t.threadNum = s.threadNum) (queue : t.queue = s.queue)
    (stack : t.stack = s.stack) : t.Sound where
  housed := housed
  idle l apart := by
    rw [queue, stack]
    exact h.idle l (by simpa [loops, threadNum] using apart)
  queue l task queued := (h.queue l task (queue ▸ queued)).mono kept
  stack l f called := (h.stack l f (stack ▸ called)).mono kept

/-- A connection that is attached or closed. -/
theorem setConn (h : s.Sound) {c : Nat} {k : Conn Uuid} (here : s.conns[c]? = some k)
    (k' : Conn Uuid) (home : k'.home = k.home) (attached : k'.Attached) :
    (s.setConn c k').Sound := by
  refine h.change (Kept.set attached) (fun d k₁ there => ?_) rfl rfl rfl
  obtain ⟨rfl, rfl⟩ | ⟨_, before⟩ := getElem?_set_cases there
  · rw [home]
    exact h.housed d k here
  · exact h.housed d k₁ before

theorem take (h : s.Sound) (due : s.queue l ≠ []) :
    ({ s with queue := Function.update s.queue l [] }.goto l [.batch [] (s.queue l)]).Sound := by
  have served := h.served_of_queue due
  have taken : { s with queue := Function.update s.queue l [] }.Sound := by
    refine ⟨h.housed, fun m apart => ?_, fun m task queued => ?_, h.stack⟩
    · have other : m ≠ l := fun same => apart (same ▸ served)
      simpa [other] using h.idle m apart
    · by_cases same : m = l
      · simp [same] at queued
      · exact h.queue m task (by simpa [same] using queued)
  refine taken.goto served fun f called => ?_
  cases List.mem_singleton.mp called
  exact h.queue l

variable [DecidableEq Uuid]

theorem netFdCloseHandle (h : s.Sound) (served : l ∈ s.loops) {c : Nat} {k : Conn Uuid}
    (here : s.conns[c]? = some k) {frames : List Frame}
    (sound : ∀ f ∈ frames, f.Sound s.conns l) : (s.netFdCloseHandle l c k frames).Sound := by
  let k' : Conn Uuid := { k with registered := false, closes := k.closes + 1 }
  have attached : k'.Attached := .inr (Nat.succ_pos _)
  have closed : (s.setConn c k').Sound := h.setConn here k' rfl attached
  have there : (s.setConn c k').conns[c]? = some k' :=
    List.getElem?_set_self (List.getElem?_eq_some_iff.mp here).1
  have removed : ((s.setConn c k').handleCloseConnection l c k.uuid).Sound ∧
      l ∈ ((s.setConn c k').handleCloseConnection l c k.uuid).loops ∧
      ((s.setConn c k').handleCloseConnection l c k.uuid).conns = (s.setConn c k').conns := by
    rw [handleCloseConnection]
    split
    · exact ⟨closed.change (Kept.refl _) closed.housed rfl rfl rfl, served, rfl⟩
    · have posted := closed.post (l := .control) List.mem_cons_self (.remove c) ⟨rfl, k', there⟩
      exact ⟨posted, served, rfl⟩
  obtain ⟨sound', served', conns⟩ := removed
  refine sound'.goto served' fun f called => ?_
  rcases List.mem_cons.mp called with rfl | inner
  · trivial
  · rw [conns]
    exact (sound f inner).mono (Kept.set attached)

end Sound

section
variable [DecidableEq Uuid] {s t : Server Uuid} {e : Event Uuid}

theorem step_sound (hs : s.Sound) (introduced : s.Introduced e) (h : Step s e t) : t.Sound := by
  have served {l : Loop} {f : Frame} {rest : List Frame} (top : s.stack l = f :: rest) :
      l ∈ s.loops := hs.served_of_stack (top ▸ List.cons_ne_nil f rest)
  have called {l : Loop} {f : Frame} {rest : List Frame} (top : s.stack l = f :: rest) :
      f.Sound s.conns l ∧ ∀ g ∈ rest, g.Sound s.conns l :=
    List.forall_mem_cons.mp (top ▸ hs.stack l)
  have now {c : Nat} {k : Conn Uuid} (here : s.conns[c]? = some k) :
      ∃ k', (s.conns.set c { k with registered := true })[c]? = some k' ∧ k'.Attached :=
    ⟨_, List.getElem?_set_self (List.getElem?_eq_some_iff.mp here).1, .inl rfl⟩
  have housed := step_housed hs.housed h
  cases h with
  | accept uuid home idle place =>
    have added : ((s.addConn ⟨uuid, home, false, 0⟩).hashTableInsert uuid s.conns.length).Sound :=
      hs.change (Kept.added _ _) housed rfl rfl rfl
    refine added.goto (l := .control) List.mem_cons_self ?_
    simp [Frame.Sound]
  | attachHere c k rest top here home live =>
    have attached := hs.setConn here { k with registered := true } rfl (.inl rfl)
    refine attached.goto (l := .control) List.mem_cons_self ?_
    exact List.forall_mem_cons.mpr ⟨now here, List.forall_mem_cons.mpr ⟨trivial, fun g inner =>
      ((called top).2 g inner).mono (Kept.set (.inl rfl))⟩⟩
  | attachThere c k rest i top here home =>
    have posted := hs.post (home ▸ hs.housed c k here) (.attach c) trivial
    exact posted.goto (l := .control) List.mem_cons_self (called top).2
  | take l idle due => exact hs.take due
  | runAttach l c k ran todo rest top here live =>
    have attached := hs.setConn here { k with registered := true } rfl (.inl rfl)
    refine attached.goto (served top) ?_
    have kept : Kept s.conns (s.conns.set c { k with registered := true }) := Kept.set (.inl rfl)
    refine List.forall_mem_cons.mpr ⟨now here, List.forall_mem_cons.mpr ⟨?_, fun g inner =>
      ((called top).2 g inner).mono kept⟩⟩
    exact fun task queued => ((called top).1 task (List.mem_cons_of_mem _ queued)).mono kept
  | runClose l c k ran todo rest top here =>
    refine hs.netFdCloseHandle (served top) here (List.forall_mem_cons.mpr ⟨?_, (called top).2⟩)
    exact fun task queued => (called top).1 task (List.mem_cons_of_mem _ queued)
  | runRemove c k ran todo rest top here =>
    have removed : (s.hashTableRemove k.uuid).Sound := hs.change (Kept.refl _) housed rfl rfl rfl
    refine removed.goto (l := .control) List.mem_cons_self
      (List.forall_mem_cons.mpr ⟨?_, (called top).2⟩)
    exact fun task queued => (called top).1 task (List.mem_cons_of_mem _ queued)
  | ready l c k idle here home watched =>
    refine hs.goto (home ▸ hs.housed c k here) fun f new => ?_
    cases List.mem_singleton.mp new
    exact ⟨k, here, .inl watched⟩
  | halfSkipped l c half rest top more =>
    obtain ⟨handled, below⟩ := called top
    exact hs.goto (served top) (List.forall_mem_cons.mpr ⟨handled, below⟩)
  | halfCalled l c k half rest top more here live =>
    obtain ⟨handled, below⟩ := called top
    exact hs.goto (served top) (List.forall_mem_cons.mpr
      ⟨handled, List.forall_mem_cons.mpr ⟨handled, below⟩⟩)
  | halfFailed l c k half rest top more here live =>
    obtain ⟨handled, below⟩ := called top
    exact hs.netFdCloseHandle (served top) here (List.forall_mem_cons.mpr ⟨handled, below⟩)
  | fail l c k here home runs =>
    exact hs.netFdCloseHandle (home ▸ hs.housed c k here) here (hs.stack l)
  | close l c k here home runs =>
    exact hs.netFdCloseHandle (home ▸ hs.housed c k here) here
      (List.forall_mem_cons.mpr ⟨trivial, hs.stack l⟩)
  | postClose c k here =>
    exact hs.post (hs.housed c k here) (.close c) ⟨k, here, introduced.2 c k rfl here⟩
  | finish l f rest top finished => exact hs.goto (served top) (called top).2

end

end Server

/-! ## Every connection is attached once -/

def Task.attaches (c : Nat) : Task → Nat
  | .attach d => if d = c then 1 else 0
  | .close _ | .remove _ => 0

/-- The calls of `attachToEventLoop` that a call still brings about. -/
def Frame.attaches (c : Nat) : Frame → Nat
  | .accept d => if d = c then 1 else 0
  | .batch _ todo => (todo.map (Task.attaches c)).sum
  | .attaching _ | .callback _ | .close _ | .closeFn _ | .handle _ _ => 0

namespace Server

section
variable {s : Server Uuid}

def attaches (s : Server Uuid) (c : Nat) : Nat := s.weigh (Task.attaches c) (Frame.attaches c)

def awaits (s : Server Uuid) (c : Nat) : Nat :=
  s.conns[c]?.elim 0 fun k => if k.Attached then 0 else 1

/-- A connection has one call of `attachToEventLoop` before it, and none after. -/
def Tracked (s : Server Uuid) : Prop := ∀ c, s.attaches c = s.awaits c

theorem awaits_of_attached {c : Nat} {k : Conn Uuid} (here : s.conns[c]? = some k)
    (attached : k.Attached) : s.awaits c = 0 := by
  simp [awaits, here, attached]

theorem awaits_of_unattached {c : Nat} {k : Conn Uuid} (here : s.conns[c]? = some k)
    (unattached : ¬ k.Attached) : s.awaits c = 1 := by
  simp [awaits, here, unattached]

theorem awaits_setConn {c : Nat} {k : Conn Uuid} (here : s.conns[c]? = some k) (k' : Conn Uuid)
    (attached : k'.Attached) (d : Nat) :
    (s.setConn c k').awaits d = if d = c then 0 else s.awaits d := by
  split
  · rename_i same
    subst same
    exact awaits_of_attached (k := k')
      (List.getElem?_set_self (List.getElem?_eq_some_iff.mp here).1) attached
  · rename_i other
    rw [awaits, setConn, List.getElem?_set_ne (Ne.symm other), awaits]

theorem awaits_addConn (uuid : Uuid) (home : Loop) (d : Nat) :
    (s.addConn ⟨uuid, home, false, 0⟩).awaits d =
      s.awaits d + if s.conns.length = d then 1 else 0 := by
  rcases Nat.lt_trichotomy d s.conns.length with old | same | beyond
  · simp [awaits, addConn, List.getElem?_append_left old, Nat.ne_of_gt old]
  · subst same
    simp [awaits, addConn, Conn.Attached]
  · have old : s.conns[d]? = none := List.getElem?_eq_none (Nat.le_of_lt beyond)
    have new : (s.conns ++ [(⟨uuid, home, false, 0⟩ : Conn Uuid)])[d]? = none :=
      List.getElem?_eq_none (by rw [List.length_append]; exact beyond)
    simp [awaits, addConn, old, new, Nat.ne_of_lt beyond]

/-- What is still to be attached is a connection that was not. -/
theorem Tracked.unattached (tracked : s.Tracked) (hs : s.Sound) {l : Loop} {f : Frame} {c : Nat}
    (called : f ∈ s.stack l) (pos : 0 < f.attaches c) :
    ∃ k, s.conns[c]? = some k ∧ ¬ k.Attached := by
  have served : l ∈ s.loops := hs.served_of_stack (List.ne_nil_of_mem called)
  have held : 0 < s.load (Task.attaches c) (Frame.attaches c) l :=
    Nat.add_pos_right _ (List.sum_pos_iff_exists_pos_nat.mpr ⟨_, List.mem_map_of_mem called, pos⟩)
  have counted : 0 < s.attaches c :=
    List.sum_pos_iff_exists_pos_nat.mpr ⟨_, List.mem_map_of_mem served, held⟩
  rw [tracked c] at counted
  cases here : s.conns[c]? with
  | none => simp [awaits, here] at counted
  | some k =>
    refine ⟨k, rfl, fun attached => ?_⟩
    rw [awaits_of_attached here attached] at counted
    cases counted

end

section
variable [DecidableEq Uuid] {s t : Server Uuid} {e : Event Uuid}

/-- A connection that was attached is closed. -/
theorem tracked_close (tracked : s.Tracked) {l : Loop} {c : Nat} {k : Conn Uuid}
    {frames : List Frame} (served : l ∈ s.loops) (here : s.conns[c]? = some k)
    (attached : k.Attached)
    (same : ∀ d, (frames.map (Frame.attaches d)).sum = ((s.stack l).map (Frame.attaches d)).sum) :
    (s.netFdCloseHandle l c k frames).Tracked := by
  intro d
  have moved := weigh_netFdCloseHandle (q := Task.attaches d) (f := Frame.attaches d) served c k
    frames
  have quiet : (if l = .control then 0 else Task.attaches d (.remove c)) = 0 := by
    split <;> rfl
  have awaits : (s.netFdCloseHandle l c k frames).awaits d = s.awaits d := by
    have closed := awaits_setConn here { k with registered := false, closes := k.closes + 1 }
      (.inr (Nat.succ_pos _)) d
    rw [Server.awaits, netFdCloseHandle_conns]
    refine closed.trans ?_
    split
    · rename_i eq
      subst eq
      exact (awaits_of_attached here attached).symm
    · rfl
  rw [quiet, same d, Frame.attaches] at moved
  rw [awaits, ← tracked d, attaches, attaches]
  omega

omit [DecidableEq Uuid] in
/-- The call of `attachToEventLoop` that was to come. -/
theorem tracked_attach (tracked : s.Tracked) {l : Loop} {c : Nat} {k : Conn Uuid}
    {frames : List Frame} (served : l ∈ s.loops) (here : s.conns[c]? = some k)
    (unattached : ¬ k.Attached)
    (less : ∀ d, (frames.map (Frame.attaches d)).sum + (if c = d then 1 else 0) =
      ((s.stack l).map (Frame.attaches d)).sum) :
    ((s.setConn c { k with registered := true }).goto l frames).Tracked := by
  intro d
  have moved : ((s.setConn c { k with registered := true }).goto l frames).attaches d +
      ((s.stack l).map (Frame.attaches d)).sum =
        s.attaches d + (frames.map (Frame.attaches d)).sum := weigh_goto served frames
  have awaits : ((s.setConn c { k with registered := true }).goto l frames).awaits d +
      (if c = d then 1 else 0) = s.awaits d := by
    have set := awaits_setConn here { k with registered := true } (.inl rfl) d
    refine (congrArg (· + _) set).trans ?_
    by_cases eq : d = c
    · subst eq
      simp [awaits_of_unattached here unattached]
    · simp [eq, Ne.symm eq]
  have before := tracked d
  have fewer := less d
  omega

omit [DecidableEq Uuid] in
/-- The same calls are to come, and the connections are the same. -/
theorem tracked_goto (tracked : s.Tracked) {l : Loop} {frames : List Frame} (served : l ∈ s.loops)
    (same : ∀ d, (frames.map (Frame.attaches d)).sum = ((s.stack l).map (Frame.attaches d)).sum) :
    (s.goto l frames).Tracked := by
  intro d
  have moved : (s.goto l frames).attaches d + ((s.stack l).map (Frame.attaches d)).sum =
    s.attaches d + (frames.map (Frame.attaches d)).sum := weigh_goto served frames
  have eq := same d
  show (s.goto l frames).attaches d = s.awaits d
  rw [← tracked d]
  omega

theorem step_tracked (tracked : s.Tracked) (hs : s.Sound) (introduced : s.Introduced e)
    (h : Step s e t) : t.Tracked := by
  have served {l : Loop} {f : Frame} {rest : List Frame} (top : s.stack l = f :: rest) :
      l ∈ s.loops := hs.served_of_stack (top ▸ List.cons_ne_nil f rest)
  have called {l : Loop} {f : Frame} {rest : List Frame} (top : s.stack l = f :: rest) :
      f ∈ s.stack l := top ▸ List.mem_cons_self
  have known {c : Nat} {k : Conn Uuid} (here : s.conns[c]? = some k)
      (attached : ∃ k, s.conns[c]? = some k ∧ k.Attached) : k.Attached := by
    obtain ⟨k', there, attached⟩ := attached
    cases here.symm.trans there
    exact attached
  have unknown {c : Nat} {k : Conn Uuid} (here : s.conns[c]? = some k)
      (unattached : ∃ k, s.conns[c]? = some k ∧ ¬ k.Attached) : ¬ k.Attached := by
    obtain ⟨k', there, unattached⟩ := unattached
    cases here.symm.trans there
    exact unattached
  cases h with
  | accept uuid home idle place =>
    intro d
    have moved : (((s.addConn ⟨uuid, home, false, 0⟩).hashTableInsert uuid s.conns.length).goto
        .control [.accept s.conns.length]).attaches d +
          ((s.stack .control).map (Frame.attaches d)).sum = s.attaches d +
            ([Frame.accept s.conns.length].map (Frame.attaches d)).sum :=
      weigh_goto List.mem_cons_self _
    rw [idle, tracked d] at moved
    refine Eq.trans ?_ (awaits_addConn uuid home d).symm
    simpa [Frame.attaches] using moved
  | attachHere c k rest top here home live =>
    have unattached := unknown here (tracked.unattached hs (called top) (c := c)
      (by simp [Frame.attaches]))
    refine tracked_attach tracked (served top) here unattached fun d => ?_
    simp only [top, List.map_cons, List.sum_cons, Frame.attaches]
    omega
  | attachThere c k rest i top here home =>
    intro d
    have house : Loop.io i ∈ s.loops := home ▸ hs.housed c k here
    have moved : ((s.post (.io i) (.attach c)).goto .control rest).attaches d +
        ((s.stack .control).map (Frame.attaches d)).sum =
          (s.post (.io i) (.attach c)).attaches d + (rest.map (Frame.attaches d)).sum :=
      weigh_goto (s := s.post (.io i) (.attach c)) List.mem_cons_self rest
    have posted : (s.post (.io i) (.attach c)).attaches d =
        s.attaches d + Task.attaches d (.attach c) := weigh_post house (.attach c)
    rw [posted, top, List.map_cons, List.sum_cons, tracked d] at moved
    simp only [Frame.attaches, Task.attaches] at moved
    show _ = s.awaits d
    omega
  | take l idle due =>
    intro d
    have moved := weigh_take (q := Task.attaches d) (f := Frame.attaches d)
      (hs.served_of_queue due) idle
    refine Eq.trans ?_ (tracked d)
    rw [Frame.attaches] at moved
    exact Nat.add_right_cancel moved
  | runAttach l c k ran todo rest top here live =>
    have unattached := unknown here (tracked.unattached hs (called top) (c := c)
      (by simp [Frame.attaches, Task.attaches, Nat.add_comm 1]))
    refine tracked_attach tracked (served top) here unattached fun d => ?_
    simp only [top, List.map_cons, List.sum_cons, Frame.attaches, Task.attaches]
    omega
  | runClose l c k ran todo rest top here =>
    have attached := known here (hs.stack l _ (called top) _ List.mem_cons_self)
    refine tracked_close tracked (served top) here attached fun d => ?_
    simp only [top, List.map_cons, List.sum_cons, Frame.attaches, Task.attaches]
    omega
  | runRemove c k ran todo rest top here =>
    refine tracked_goto (s := s.hashTableRemove k.uuid) tracked (served top) fun d => ?_
    simp only [hashTableRemove_stack, top, List.map_cons, List.sum_cons, Frame.attaches,
      Task.attaches]
    omega
  | ready l c k idle here home watched =>
    refine tracked_goto tracked (home ▸ hs.housed c k here) fun d => ?_
    simp [idle, Frame.attaches]
  | halfSkipped l c half rest top more =>
    refine tracked_goto tracked (served top) fun d => ?_
    simp [top, Frame.attaches]
  | halfCalled l c k half rest top more here live =>
    refine tracked_goto tracked (served top) fun d => ?_
    simp [top, Frame.attaches]
  | halfFailed l c k half rest top more here live =>
    refine tracked_close tracked (served top) here (known here (hs.stack l _ (called top)))
      fun d => ?_
    simp [top, Frame.attaches]
  | fail l c k here home runs =>
    exact tracked_close tracked (home ▸ hs.housed c k here) here (introduced.2 c k rfl here)
      fun _ => rfl
  | close l c k here home runs =>
    refine tracked_close tracked (home ▸ hs.housed c k here) here (introduced.2 c k rfl here)
      fun d => ?_
    simp [Frame.attaches]
  | postClose c k here =>
    intro d
    have posted := weigh_post (q := Task.attaches d) (f := Frame.attaches d)
      (hs.housed c k here) (.close c)
    exact posted.trans (tracked d)
  | finish l f rest top finished =>
    refine tracked_goto tracked (served top) fun d => ?_
    have none : f.attaches d = 0 := by
      cases f with
      | batch ran todo =>
        have empty : todo = [] := Frame.todo_of_finished finished
        simp [Frame.attaches, empty]
      | accept => cases finished
      | _ => rfl
    simp [top, none]

end

end Server

/-! ## How much is left to do -/

/-- What a batch does for a task and by way of it, on any loop. -/
def Task.effort : Task → Nat
  | .attach _ => 2
  | .close _ => 5
  | .remove _ => 1

/-- A half of `eventHandle` can close the connection: that is as much as a queued close. -/
def Frame.effort : Frame → Nat
  | .accept _ => 5
  | .batch _ todo => 1 + (todo.map Task.effort).sum
  | .handle _ .read => 11
  | .handle _ .write => 6
  | .attaching _ | .callback _ | .close _ | .closeFn _ | .handle _ .done => 1

namespace Server

/-- The batch for a queued task has still to begin and to end. -/
def effort (s : Server Uuid) : Nat := s.weigh (fun task => task.effort + 2) Frame.effort

theorem finished_effort {f : Frame} (finished : f.finished = true) : f.effort = 1 := by
  cases f with
  | accept => cases finished
  | batch ran todo =>
    have empty : todo = [] := Frame.todo_of_finished finished
    simp [Frame.effort, empty]
  | handle c next =>
    cases next with
    | read | write => cases finished
    | done => rfl
  | attaching | callback | close | closeFn => rfl

theorem next_effort (c : Nat) {half : Half} (more : half ≠ .done) :
    (Frame.handle c half.next).effort + 5 = (Frame.handle c half).effort := by
  cases half with
  | read | write => rfl
  | done => exact absurd rfl more

section
variable [DecidableEq Uuid] {s t : Server Uuid} {e : Event Uuid}

omit [DecidableEq Uuid] in
theorem effort_goto (t : Server Uuid) {l : Loop} {frames : List Frame} (served : l ∈ s.loops)
    (same : t.effort = (s.goto l frames).effort) :
    t.effort + ((s.stack l).map Frame.effort).sum =
      s.effort + (frames.map Frame.effort).sum := by
  rw [same]
  exact weigh_goto served frames

/-- A close costs the call of `close_fn_` and a removal, if that is queued. -/
theorem effort_close {l : Loop} (served : l ∈ s.loops) (c : Nat) (k : Conn Uuid)
    (frames : List Frame) :
    (s.netFdCloseHandle l c k frames).effort + ((s.stack l).map Frame.effort).sum ≤
      s.effort + (frames.map Frame.effort).sum + 4 := by
  have moved := weigh_netFdCloseHandle (q := fun task => task.effort + 2) (f := Frame.effort)
    served c k frames
  have removal : (if l = .control then 0 else (Task.remove c).effort + 2) ≤ 3 := by
    split
    · exact Nat.zero_le 3
    · exact Nat.le_refl 3
  rw [Frame.effort] at moved
  rw [effort, effort]
  omega

/-- Every step that a loop takes by itself leaves less to do. -/
theorem own_effort (hs : s.Sound) (h : Step s e t) (own : e.own = true) :
    t.effort < s.effort := by
  have served {l : Loop} {f : Frame} {rest : List Frame} (top : s.stack l = f :: rest) :
      l ∈ s.loops := hs.served_of_stack (top ▸ List.cons_ne_nil f rest)
  cases h with
  | accept | ready | fail | close | postClose => cases own
  | attachHere c k rest top here home live =>
    have moved := effort_goto ((s.setConn c { k with registered := true }).goto .control
      (.callback c :: .attaching c :: rest)) (served top) rfl
    simp only [top, List.map_cons, List.sum_cons, Frame.effort] at moved
    omega
  | attachThere c k rest i top here home =>
    have house : Loop.io i ∈ s.loops := home ▸ hs.housed c k here
    have posted : (s.post (.io i) (.attach c)).effort = s.effort + 4 := weigh_post house (.attach c)
    have moved := effort_goto (s := s.post (.io i) (.attach c)) _ (served top)
      (rfl : ((s.post (.io i) (.attach c)).goto .control rest).effort = _)
    simp only [posted, post_stack, top, List.map_cons, List.sum_cons, Frame.effort] at moved
    omega
  | take l idle due =>
    have moved := weigh_take (q := fun task => task.effort + 2) (f := Frame.effort)
      (hs.served_of_queue due) idle
    have waited : ((s.queue l).map fun task => task.effort + 2).sum =
        ((s.queue l).map Task.effort).sum + (s.queue l).length * 2 := by
      rw [List.sum_map_add, List.map_const', List.sum_replicate_nat]
    have some := List.length_pos_of_ne_nil due
    rw [waited, Frame.effort] at moved
    rw [effort, effort]
    omega
  | runAttach l c k ran todo rest top here live =>
    have moved := effort_goto ((s.setConn c { k with registered := true }).goto l
      (.callback c :: .batch (ran ++ [.attach c]) todo :: rest)) (served top) rfl
    simp only [top, List.map_cons, List.sum_cons, Frame.effort, Task.effort] at moved
    omega
  | runClose l c k ran todo rest top here =>
    have moved := effort_close (served top) c k (.batch (ran ++ [.close c]) todo :: rest)
    simp only [top, List.map_cons, List.sum_cons, Frame.effort, Task.effort] at moved
    omega
  | runRemove c k ran todo rest top here =>
    have moved := effort_goto ((s.hashTableRemove k.uuid).goto .control
      (.batch (ran ++ [.remove c]) todo :: rest)) (served top) rfl
    simp only [top, List.map_cons, List.sum_cons, Frame.effort, Task.effort] at moved
    omega
  | halfSkipped l c half rest top more =>
    have moved := effort_goto (s.goto l (.handle c half.next :: rest)) (served top) rfl
    have next := next_effort c more
    simp only [top, List.map_cons, List.sum_cons] at moved
    omega
  | halfCalled l c k half rest top more here live =>
    have moved := effort_goto (s.goto l (.callback c :: .handle c half.next :: rest))
      (served top) rfl
    have next := next_effort c more
    have callback : (Frame.callback c).effort = 1 := rfl
    simp only [top, List.map_cons, List.sum_cons] at moved
    omega
  | halfFailed l c k half rest top more here live =>
    have moved := effort_close (served top) c k (.handle c half.next :: rest)
    have next := next_effort c more
    simp only [top, List.map_cons, List.sum_cons] at moved
    omega
  | finish l f rest top finished =>
    have moved := effort_goto (s.goto l rest) (served top) rfl
    simp only [top, List.map_cons, List.sum_cons, finished_effort finished] at moved
    omega

/-- Nothing from outside gives the loops more to do than an event of a descriptor. -/
theorem other_effort (hs : s.Sound) (h : Step s e t) (other : e.own = false) :
    t.effort ≤ s.effort + 11 := by
  cases h with
  | attachHere | attachThere | take | runAttach | runClose | runRemove | halfSkipped | halfCalled
  | halfFailed | finish => cases other
  | accept uuid home idle place =>
    have moved := effort_goto (s := s) (((s.addConn ⟨uuid, home, false, 0⟩).hashTableInsert uuid
      s.conns.length).goto .control [.accept s.conns.length]) List.mem_cons_self rfl
    simp only [idle, List.map_cons, List.map_nil, List.sum_cons, List.sum_nil,
      Frame.effort] at moved
    omega
  | ready l c k idle here home watched =>
    have moved := effort_goto (s.goto l [.handle c .read]) (home ▸ hs.housed c k here) rfl
    simp only [idle, List.map_cons, List.map_nil, List.sum_cons, List.sum_nil,
      Frame.effort] at moved
    omega
  | fail l c k here home runs =>
    have moved := effort_close (home ▸ hs.housed c k here) c k (s.stack l)
    omega
  | close l c k here home runs =>
    have moved := effort_close (home ▸ hs.housed c k here) c k (.close c :: s.stack l)
    simp only [List.map_cons, List.sum_cons, Frame.effort] at moved
    omega
  | postClose c k here =>
    have posted : (s.post k.home (.close c)).effort = s.effort + 7 :=
      weigh_post (hs.housed c k here) (.close c)
    omega

/-! ## Handlers and batches -/

end

end Server

def Frame.handles : Frame → Bool
  | .handle _ _ => true
  | .accept _ | .attaching _ | .batch _ _ | .callback _ | .close _ | .closeFn _ => false

def Frame.batches : Frame → Bool
  | .batch _ _ => true
  | .accept _ | .attaching _ | .callback _ | .close _ | .closeFn _ | .handle _ _ => false

namespace Server

section
variable {s t : Server Uuid} {e : Event Uuid}

/-- Handlers and batches are called by a loop that is free, so never under one another. -/
def Separate (s : Server Uuid) : Prop :=
  ∀ l, ¬ ((s.stack l).any Frame.handles = true ∧ (s.stack l).any Frame.batches = true)

theorem separate_goto (hs : s.Separate) {l : Loop} {frames : List Frame}
    (handles : frames.any Frame.handles = true → (s.stack l).any Frame.handles = true)
    (batches : frames.any Frame.batches = true → (s.stack l).any Frame.batches = true) :
    (s.goto l frames).Separate := by
  rintro m ⟨handled, batched⟩
  by_cases same : m = l
  · subst same
    simp only [goto, Function.update_self] at handled batched
    exact hs m ⟨handles handled, batches batched⟩
  · simp only [goto, Function.update_of_ne same] at handled batched
    exact hs m ⟨handled, batched⟩

theorem separate_single (hs : s.Separate) {l : Loop} (f : Frame) : (s.goto l [f]).Separate := by
  rintro m ⟨handled, batched⟩
  by_cases same : m = l
  · subst same
    simp only [goto, Function.update_self] at handled batched
    cases f with
    | handle c next => cases batched
    | accept | attaching | batch | callback | close | closeFn => cases handled
  · simp only [goto, Function.update_of_ne same] at handled batched
    exact hs m ⟨handled, batched⟩

variable [DecidableEq Uuid]

theorem separate_close (hs : s.Separate) {l : Loop} {c : Nat} {k : Conn Uuid} {frames : List Frame}
    (handles : frames.any Frame.handles = true → (s.stack l).any Frame.handles = true)
    (batches : frames.any Frame.batches = true → (s.stack l).any Frame.batches = true) :
    (s.netFdCloseHandle l c k frames).Separate := by
  have same : ((s.setConn c { k with registered := false, closes := k.closes + 1 }
      ).handleCloseConnection l c k.uuid).stack = s.stack := by simp
  refine separate_goto (fun m => ?_) ?_ ?_
  · rw [same]
    exact hs m
  · rw [same]
    simpa [Frame.handles] using handles
  · rw [same]
    simpa [Frame.batches] using batches

theorem step_separate (hs : s.Separate) (h : Step s e t) : t.Separate := by
  cases h with
  | accept uuid home idle place =>
    exact separate_single (s := (s.addConn _).hashTableInsert _ _) hs _
  | attachHere c k rest top here home live =>
    refine separate_goto (s := s.setConn c _) hs ?_ ?_ <;>
      simp [top, Frame.handles, Frame.batches]
  | attachThere c k rest i top here home =>
    refine separate_goto (s := s.post _ _) hs ?_ ?_ <;>
      simp [top, Frame.handles, Frame.batches]
  | take l idle due => exact separate_single (s := { s with queue := _ }) hs _
  | runAttach l c k ran todo rest top here live =>
    refine separate_goto (s := s.setConn c _) hs ?_ ?_ <;>
      simp [top, Frame.handles, Frame.batches]
  | runClose l c k ran todo rest top here =>
    refine separate_close hs ?_ ?_ <;> simp [top, Frame.handles, Frame.batches]
  | runRemove c k ran todo rest top here =>
    refine separate_goto (s := s.hashTableRemove _) hs ?_ ?_ <;>
      simp [top, Frame.handles, Frame.batches]
  | ready l c k idle here home watched => exact separate_single hs _
  | halfSkipped l c half rest top more =>
    refine separate_goto hs ?_ ?_ <;> simp [top, Frame.handles, Frame.batches]
  | halfCalled l c k half rest top more here live =>
    refine separate_goto hs ?_ ?_ <;> simp [top, Frame.handles, Frame.batches]
  | halfFailed l c k half rest top more here live =>
    refine separate_close hs ?_ ?_ <;> simp [top, Frame.handles, Frame.batches]
  | fail l c k here home runs => exact separate_close hs id id
  | close l c k here home runs =>
    refine separate_close hs ?_ ?_ <;> simp [Frame.handles, Frame.batches]
  | postClose c k here => exact hs
  | finish l f rest top finished =>
    refine separate_goto hs ?_ ?_ <;> simp +contextual [top]

/-! ## At rest -/

/-- The runs of the application that keep to the connections they were given and do not
end in a fault: no direct `::send` fails for good, and no connection is taken out of the table
while its handler is under way. -/
def Steady (s : Server Uuid) (e : Event Uuid) : Prop :=
  s.Introduced e ∧ s.Undisturbed e ∧ ∀ l c, e ≠ .fail l c

omit [DecidableEq Uuid] in
theorem steady_of_own (own : e.own = true)
    (undisturbed : ∀ c, e.removes = some c → ∀ l, ¬ s.Handles l c) : s.Steady e := by
  cases e with
  | accept | ready | fail | close | postClose => cases own
  | post | take | run | half | finish =>
    exact ⟨introduced_of_unused trivial rfl, ⟨trivial, undisturbed⟩, nofun⟩

/-- A call under way can go on; a connection is taken out of the table by a batch of the
control loop. -/
theorem exists_step (hs : s.Sound) (tracked : s.Tracked) {l : Loop} {f : Frame}
    {rest : List Frame} (top : s.stack l = f :: rest) : ∃ e t, e.own = true ∧ Step s e t ∧
      ∀ c, e.removes = some c → l = .control ∧ f.batches = true := by
  have called : f ∈ s.stack l := top ▸ List.mem_cons_self
  have sound := hs.stack l f called
  -- what is to be attached is there, and open
  have fresh {c : Nat} (pos : 0 < f.attaches c) : ∃ k, s.conns[c]? = some k ∧ k.closes = 0 := by
    obtain ⟨k, here, unattached⟩ := tracked.unattached hs called pos
    exact ⟨k, here, Nat.eq_zero_of_not_pos fun closed => unattached (.inr closed)⟩
  cases f with
  | accept c =>
    cases sound
    obtain ⟨k, here, live⟩ := fresh (c := c) (by simp [Frame.attaches])
    cases home : k.home with
    | control => exact ⟨_, _, rfl, .attachHere s c k rest top here home live, nofun⟩
    | io i => exact ⟨_, _, rfl, .attachThere s c k rest i top here home, nofun⟩
  | batch ran todo =>
    cases todo with
    | nil => exact ⟨_, _, rfl, .finish s l _ rest top rfl, nofun⟩
    | cons task todo =>
      have next := sound task List.mem_cons_self
      have control (c : Nat) (removes : (Event.run l task : Event Uuid).removes = some c) :
          l = .control ∧ (Frame.batch ran (task :: todo)).batches = true := by
        cases l with
        | control => exact ⟨rfl, rfl⟩
        | io i => cases removes
      cases task with
      | attach c =>
        obtain ⟨k, here, live⟩ := fresh (c := c)
          (by simp [Frame.attaches, Task.attaches, Nat.add_comm 1])
        exact ⟨_, _, rfl, .runAttach s l c k ran todo rest top here live, control⟩
      | close c =>
        obtain ⟨k, here, _⟩ := next
        exact ⟨_, _, rfl, .runClose s l c k ran todo rest top here, control⟩
      | remove c =>
        obtain ⟨rfl, k, here⟩ := next
        exact ⟨_, _, rfl, .runRemove s c k ran todo rest top here, control⟩
  | handle c half =>
    by_cases done : half = .done
    · subst done
      exact ⟨_, _, rfl, .finish s l _ rest top rfl, nofun⟩
    · refine ⟨_, _, rfl, .halfSkipped s l c half rest top done, fun d removes => ?_⟩
      cases l with
      | control => cases removes
      | io i => cases removes
  | attaching | callback | close | closeFn => exact ⟨_, _, rfl, .finish s l _ rest top rfl, nofun⟩

variable {threadNum : Nat}

/-- The loops apart have returned first, and then nothing is in the way of the control loop. -/
theorem quiet_of_rests (hs : s.Sound) (tracked : s.Tracked) (separate : s.Separate)
    (rests : ((server Uuid threadNum).restrict Steady).Rests Event.own s) (l : Loop) :
    s.queue l = [] ∧ s.stack l = [] := by
  have stuck {e : Event Uuid} {t : Server Uuid} (own : e.own = true) (step : Step s e t)
      (undisturbed : ∀ c, e.removes = some c → ∀ l, ¬ s.Handles l c) : False :=
    rests e t own ⟨steady_of_own own undisturbed, step⟩
  have apart (i : Nat) : s.stack (.io i) = [] := by
    cases top : s.stack (.io i) with
    | nil => rfl
    | cons f rest =>
      obtain ⟨e, t, own, step, removes⟩ := exists_step hs tracked top
      refine (stuck own step fun c removal => ?_).elim
      cases (removes c removal).1
  have control : s.stack .control = [] := by
    cases top : s.stack .control with
    | nil => rfl
    | cons f rest =>
      obtain ⟨e, t, own, step, removes⟩ := exists_step hs tracked top
      refine (stuck own step fun c removal m handled => ?_).elim
      obtain ⟨next, handler⟩ := handled
      cases m with
      | io i =>
        rw [apart i] at handler
        cases handler
      | control =>
        refine separate .control ⟨List.any_eq_true.mpr ⟨_, handler, rfl⟩, ?_⟩
        rw [top]
        exact List.any_eq_true.mpr ⟨f, List.mem_cons_self, (removes c removal).2⟩
  have returned : s.stack l = [] := by
    cases l with
    | control => exact control
    | io i => exact apart i
  refine ⟨?_, returned⟩
  by_contra due
  exact stuck rfl (.take s l returned due) nofun

theorem rests_of_quiet (quiet : ∀ l, s.queue l = [] ∧ s.stack l = []) :
    ((server Uuid threadNum).restrict Steady).Rests Event.own s := by
  rintro e t own ⟨_, step⟩
  have idle {l : Loop} {f : Frame} {rest : List Frame} : s.stack l ≠ f :: rest := by
    rw [(quiet l).2]
    exact (List.cons_ne_nil f rest).symm
  cases step with
  | accept | ready | fail | close | postClose => cases own
  | take l free due => exact due (quiet l).1
  | attachHere _ _ _ top | attachThere _ _ _ _ top | runAttach _ _ _ _ _ _ top
  | runClose _ _ _ _ _ _ top | runRemove _ _ _ _ _ top | halfSkipped _ _ _ _ top
  | halfCalled _ _ _ _ _ top | halfFailed _ _ _ _ _ top | finish _ _ _ top => exact idle top

omit [DecidableEq Uuid] in
theorem weigh_of_quiet {q : Task → Nat} {f : Frame → Nat}
    (quiet : ∀ l, s.queue l = [] ∧ s.stack l = []) : s.weigh q f = 0 := by
  have none : s.load q f = fun _ => 0 := by
    funext l
    simp [load, quiet l]
  rw [weigh, none]
  simp

omit [DecidableEq Uuid] in
theorem owners_of_quiet (quiet : ∀ l, s.queue l = [] ∧ s.stack l = []) (c : Nat) :
    s.owners c = s.table.countP (·.2 = c) := by
  simp [owners, quiet]

end

end Server

section
variable [DecidableEq Uuid] {threadNum : Nat} {s : Server Uuid}

theorem server_sound (h : ((server Uuid threadNum).restrict Server.Introduced).Reachable s) :
    s.Sound ∧ s.Tracked := by
  refine System.invariant _ (P := fun s => s.Sound ∧ s.Tracked) ?_ ?_ h
  · rintro _ rfl
    refine ⟨⟨fun c k here => ?_, fun l _ => ⟨rfl, rfl⟩, fun l task queued => ?_,
      fun l f called => ?_⟩, fun c => Server.weigh_of_quiet fun l => ⟨rfl, rfl⟩⟩
    · cases here
    · cases queued
    · cases called
  · rintro s e t ⟨sound, tracked⟩ ⟨introduced, step⟩
    exact ⟨Server.step_sound sound introduced step,
      Server.step_tracked tracked sound introduced step⟩

/-- With nothing queued and no call under way, open connections are watched and in the table,
and nobody owns the closed ones. -/
theorem at_rest (h : ((server Uuid threadNum).restrict Server.Introduced).Reachable s)
    (quiet : ∀ l, s.queue l = [] ∧ s.stack l = []) {c : Nat} {k : Conn Uuid}
    (here : s.conns[c]? = some k) :
    (k.closes = 0 → k.registered = true ∧ (k.uuid, c) ∈ s.table) ∧
      (0 < k.closes → s.owners c = 0) := by
  have tracked := (server_sound h).2 c
  have consistent := server_registry (System.restrict_mono (fun _ _ ok => ok.1) h)
  have member := Server.member_of_conn here
  constructor
  · intro live
    have attached : k.Attached := by
      by_contra unattached
      have left := tracked.symm.trans (Server.weigh_of_quiet quiet)
      rw [Server.awaits_of_unattached here unattached] at left
      cases left
    refine ⟨attached.resolve_right (by omega), consistent.kept c k.uuid ?_⟩
    rw [member, live]
    rfl
  · intro closed
    rw [Server.owners_of_quiet quiet, List.countP_eq_zero]
    rintro ⟨uuid, d⟩ entry same
    have removals : s.registry.removals = [] := by
      show (s.queued .control).filterMap Task.removal = []
      simp [Server.queued, quiet]
    have open_ := (consistent.exact_of_quiet removals uuid d).mp entry
    cases of_decide_eq_true same
    rw [member, decide_eq_true closed] at open_
    cases open_

theorem server_separate (h : (server Uuid threadNum).Reachable s) : s.Separate := by
  refine System.invariant _ ?_ ?_ h
  · rintro _ rfl l ⟨handled, _⟩
    cases handled
  · intro s e t hs step
    exact Server.step_separate hs step

/-- **A server comes to rest**, in runs without faults. Its loops take at most eleven steps for
each thing that comes from outside, and left alone they get to a state in which none can take
another. In such a state nothing is queued or under way, every open connection is watched and
in the table, and every closed one was destroyed. -/
theorem server_settles {events : List (Event Uuid)}
    (path : ((server Uuid threadNum).restrict Server.Steady).Path (.create threadNum) events s) :
    events.countP Event.own ≤ 11 * events.countP (fun e => !e.own) ∧
    (∃ more t, ((server Uuid threadNum).restrict Server.Steady).Path s more t ∧
      (∀ e ∈ more, e.own = true) ∧
      ((server Uuid threadNum).restrict Server.Steady).Rests Event.own t) ∧
    (((server Uuid threadNum).restrict Server.Steady).Rests Event.own s →
      (∀ l, s.queue l = [] ∧ s.stack l = []) ∧
      ∀ c k, s.conns[c]? = some k →
        (k.closes = 0 → k.registered = true ∧ (k.uuid, c) ∈ s.table) ∧
        (0 < k.closes → s.owners c = 0)) := by
  let M := (server Uuid threadNum).restrict Server.Steady
  have first : M.Reachable (.create threadNum) := .start rfl
  have introduced {s : Server Uuid} (run : M.Reachable s) :
      ((server Uuid threadNum).restrict Server.Introduced).Reachable s :=
    System.restrict_mono (fun _ _ steady => steady.1) run
  have run := path.reachable first
  obtain ⟨sound, tracked⟩ := server_sound (introduced run)
  have keep (s : Server Uuid) (e : Event Uuid) (t : Server Uuid) (hs : s.Sound)
      (step : M.step s e t) : t.Sound := Server.step_sound hs step.1.1 step.2
  have lowers (s : Server Uuid) (e : Event Uuid) (t : Server Uuid) (hs : s.Sound)
      (step : M.step s e t) (own : e.own = true) : t.effort < s.effort :=
    Server.own_effort hs step.2 own
  refine ⟨?_, ?_, fun rests => ?_⟩
  · have bound := path.bounded Server.effort Event.own keep lowers
      (fun s e t hs step other => Server.other_effort hs step.2 other)
      (server_sound (introduced first)).1
    have nothing : (Server.create threadNum : Server Uuid).effort = 0 :=
      Server.weigh_of_quiet fun l => ⟨rfl, rfl⟩
    omega
  · obtain ⟨more, t, path, all, _, rests⟩ :=
      System.exists_rest Server.effort Event.own keep lowers sound
    exact ⟨more, t, path, all, rests⟩
  · have separate := server_separate (System.restrict_reachable _ run)
    have quiet := Server.quiet_of_rests sound tracked separate rests
    exact ⟨quiet, fun c k here => at_rest (introduced run) quiet here⟩

end

/-- The only connection of a server with one loop apart meets the end of its stream. It is
closed by its handler, once more by the application, and destroyed. -/
theorem server_settles_closed : ∃ (events : List (Event Nat)) (s : Server Nat),
    ((server Nat 1).restrict Server.Steady).Path (.create 1) events s ∧
      events.countP Event.own = 17 ∧
      events.countP Event.own ≤ 11 * events.countP (fun e => !e.own) ∧
      s.conns = [⟨7, .io 0, false, 2⟩] ∧ s.owners 0 = 0 := by
  have unused {s : Server Nat} {e : Event Nat} (fresh : s.Fresh e) (none : e.uses = none)
      (undisturbed : ∀ c, e.removes = some c → ∀ l, ¬ s.Handles l c) : s.Steady e := by
    refine ⟨Server.introduced_of_unused fresh none, ⟨fresh, undisturbed⟩, ?_⟩
    rintro l c rfl
    cases none
  have handled {s : Server Nat} (returned : ∀ l, (s.stack l).all (!·.handles) = true) (c : Nat)
      (l : Loop) : ¬ s.Handles l c := by
    rintro ⟨next, here⟩
    cases List.all_eq_true.mp (returned l) _ here
  let events : List (Event Nat) := [.accept 7 (.io 0), .post, .take (.io 0),
    .run (.io 0) (.attach 0), .finish (.io 0), .finish (.io 0), .ready (.io 0) 0,
    .half (.io 0) 0 .failed, .postClose 0, .finish (.io 0), .half (.io 0) 0 .skipped,
    .finish (.io 0), .take (.io 0), .run (.io 0) (.close 0), .finish (.io 0), .finish (.io 0),
    .take .control, .run .control (.remove 0), .run .control (.remove 0), .finish .control]
  obtain ⟨s, path, quiet, conns⟩ : ∃ s : Server Nat,
      ((server Nat 1).restrict Server.Steady).Path (.create 1) events s ∧
        (∀ l, s.queue l = [] ∧ s.stack l = []) ∧ s.conns = [⟨7, .io 0, false, 2⟩] := by
    refine ⟨_, .cons ⟨unused List.not_mem_nil rfl nofun, .accept _ 7 (.io 0) rfl Nat.zero_lt_one⟩ <|
      .cons ⟨unused trivial rfl nofun, .attachThere _ 0 _ _ 0 rfl rfl rfl⟩ <|
      .cons ⟨unused trivial rfl nofun, .take _ (.io 0) rfl (List.cons_ne_nil _ _)⟩ <|
      .cons ⟨unused trivial rfl nofun, .runAttach _ (.io 0) 0 _ _ _ _ rfl rfl rfl⟩ <|
      .cons ⟨unused trivial rfl nofun, .finish _ (.io 0) _ _ rfl rfl⟩ <|
      .cons ⟨unused trivial rfl nofun, .finish _ (.io 0) _ _ rfl rfl⟩ <|
      .cons ⟨unused trivial rfl nofun, .ready _ (.io 0) 0 _ rfl rfl rfl rfl⟩ <|
      .cons ⟨unused trivial rfl nofun, .halfFailed _ (.io 0) 0 _ .read _ rfl nofun rfl rfl⟩ <|
      .cons ⟨⟨⟨trivial, by rintro _ _ ⟨⟩ ⟨⟩; exact .inr Nat.zero_lt_one⟩, ⟨trivial, nofun⟩, nofun⟩,
        .postClose _ 0 _ rfl⟩ <|
      .cons ⟨unused trivial rfl nofun, .finish _ (.io 0) _ _ rfl rfl⟩ <|
      .cons ⟨unused trivial rfl nofun, .halfSkipped _ (.io 0) 0 .write _ rfl nofun⟩ <|
      .cons ⟨unused trivial rfl nofun, .finish _ (.io 0) _ _ rfl rfl⟩ <|
      .cons ⟨unused trivial rfl nofun, .take _ (.io 0) rfl (List.cons_ne_nil _ _)⟩ <|
      .cons ⟨unused trivial rfl nofun, .runClose _ (.io 0) 0 _ _ _ _ rfl rfl⟩ <|
      .cons ⟨unused trivial rfl nofun, .finish _ (.io 0) _ _ rfl rfl⟩ <|
      .cons ⟨unused trivial rfl nofun, .finish _ (.io 0) _ _ rfl rfl⟩ <|
      .cons ⟨unused trivial rfl nofun, .take _ .control rfl (List.cons_ne_nil _ _)⟩ <|
      .cons ⟨unused trivial rfl fun c _ => handled (by rintro (_ | _ | _) <;> rfl) c,
        .runRemove _ 0 _ _ _ _ rfl rfl⟩ <|
      .cons ⟨unused trivial rfl fun c _ => handled (by rintro (_ | _ | _) <;> rfl) c,
        .runRemove _ 0 _ _ _ _ rfl rfl⟩ <|
      .cons ⟨unused trivial rfl nofun, .finish _ .control _ _ rfl rfl⟩ <| .nil _, ?_, rfl⟩
    rintro (_ | _ | _) <;> exact ⟨rfl, rfl⟩
  obtain ⟨bound, _, atRest⟩ := server_settles path
  have closed := ((atRest (Server.rests_of_quiet quiet)).2 0 _ (by rw [conns]; rfl)).2 Nat.two_pos
  exact ⟨events, s, path, rfl, bound, conns, closed⟩

end Libatp.Tcp
