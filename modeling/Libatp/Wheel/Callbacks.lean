import Libatp.Wheel.Expiry

/-!
# Callbacks on other threads (`net/atp_tcp_server.h`, `examples/atp_tcp_benchmark.cpp`)

The callbacks of the application run on the threads of the pool, while the timer of the
control loop turns the wheel. Between making or locking the pointer to an entry and inserting
it, and until it returns, a callback owns the entry as well: a tick that evicts the last
bucket with it does not destroy it then. In a server of mode 0 `lock_` makes each operation on
the wheel one step; in mode 1 it is not taken, and this model is for mode 0 only.
-/

namespace Libatp.Wheel
open Base

variable {Conn : Type} [DecidableEq Conn]

/-- `holders` counts the callbacks that have a pointer to an entry, and `made` has the entries
that `onConnection` made. -/
structure Guarded (Conn : Type) where
  wheel : TimingWheel Conn
  holders : Entry Conn → Nat
  made : Finset (Entry Conn)
  destroyed : Multiset (Entry Conn)
  closed : Multiset Conn
  history : List (Event Conn)

inductive Callback (Conn : Type) where
  | tick (lock : Conn → Bool)
  /-- `onConnection` makes an entry -/
  | create (e : Entry Conn)
  /-- `onMessage` locks the weak pointer that the connection keeps -/
  | lock (e : Entry Conn)
  /-- `timingWheelInsert` -/
  | insert (e : Entry Conn)
  /-- the callback returns; which connections a weak pointer still reaches -/
  | release (e : Entry Conn) (lock : Conn → Bool)

namespace Guarded

def create (slotSize timingStep : Nat) : Guarded Conn where
  wheel := .make slotSize timingStep
  holders _ := 0
  made := ∅
  destroyed := 0
  closed := 0
  history := []

/-- The entries lose their last owner. -/
def destroy (s : Guarded Conn) (dead : Multiset (Entry Conn)) (lock : Conn → Bool) :
    Guarded Conn :=
  { s with
    destroyed := s.destroyed + dead
    closed := s.closed + dead.filterMap (Entry.destroy lock) }

/-- Some pointer to the entry is left. -/
def Alive (s : Guarded Conn) (e : Entry Conn) : Prop := 0 < s.holders e ∨ s.wheel.Owns e

instance (s : Guarded Conn) : DecidablePred s.Alive :=
  fun _ => inferInstanceAs (Decidable (_ ∨ _))

def hold (s : Guarded Conn) (e : Entry Conn) (n : Nat) : Guarded Conn :=
  { s with holders := Function.update s.holders e n }

end Guarded

inductive CallbackStep : Guarded Conn → Callback Conn → Guarded Conn → Prop where
  | tick (s lock wheel dead) : s.wheel.pushBucket ∅ = .ok (wheel, dead) →
      CallbackStep s (.tick lock) (Guarded.destroy
        { s with wheel := wheel, history := .tick lock :: s.history }
        (dead.filter fun e => s.holders e = 0) lock)
  | create (s e) : e ∉ s.made →
      CallbackStep s (.create e) { s.hold e 1 with made := insert e s.made }
  | lock (s e) : s.Alive e → CallbackStep s (.lock e) (s.hold e (s.holders e + 1))
  /-- nothing is left to lock, and the callback inserts nothing -/
  | expired (s e) : e ∈ s.made → ¬ s.Alive e → CallbackStep s (.lock e) s
  | insert (s e wheel) : 0 < s.holders e → s.wheel.pushBack e = .ok wheel →
      CallbackStep s (.insert e) { s with wheel := wheel, history := .insert e :: s.history }
  | release (s e lock) : 0 < s.holders e →
      CallbackStep s (.release e lock)
        (if (s.hold e (s.holders e - 1)).Alive e then s.hold e (s.holders e - 1)
          else (s.hold e (s.holders e - 1)).destroy {e} lock)

def callbacks (Conn : Type) [DecidableEq Conn] (slotSize timingStep : Nat) :
    System (Guarded Conn) (Callback Conn) where
  start s := s = .create slotSize timingStep
  step := CallbackStep

/-! ## Who has a pointer to an entry -/

namespace Guarded

/-- The wheel has not got the entry for as many ticks as it has slots, or never got it. -/
def Idle (slots : Nat) (s : Guarded Conn) (e : Entry Conn) : Prop :=
  ∀ n, sinceInsertion e s.history = some n → slots ≤ n

structure Watches (slots : Nat) (s : Guarded Conn) : Prop where
  turned : Turned slots s.wheel s.history
  held : ∀ e, 0 < s.holders e → e ∈ s.made
  inserted : ∀ e n, sinceInsertion e s.history = some n → e ∈ s.made
  gone : ∀ e ∈ s.destroyed, e ∈ s.made
  once : s.destroyed.Nodup
  dead : ∀ e ∈ s.made, e ∈ s.destroyed ↔ s.holders e = 0 ∧ s.Idle slots e

variable {slots : Nat} {s t : Guarded Conn} {e : Entry Conn}

theorem Watches.not_owns_iff (h : Watches slots s) (e : Entry Conn) :
    ¬ s.wheel.Owns e ↔ s.Idle slots e := by
  rw [h.turned.owns_iff]
  constructor
  · intro none n since
    by_contra early
    exact none ⟨n, Nat.not_le.mp early, since⟩
  · rintro idle ⟨n, early, since⟩
    exact absurd (idle n since) (Nat.not_le.mpr early)

theorem Watches.made_of_alive (h : Watches slots s) (alive : s.Alive e) : e ∈ s.made := by
  rcases alive with held | owned
  · exact h.held e held
  · obtain ⟨n, _, since⟩ := (h.turned.owns_iff e).mp owned
    exact h.inserted e n since

/-- Destroyed are the entries that nobody has a pointer to. -/
theorem Watches.destroyed_iff (h : Watches slots s) (made : e ∈ s.made) :
    e ∈ s.destroyed ↔ ¬ s.Alive e := by
  rw [h.dead e made, ← h.not_owns_iff, Alive, not_or, Nat.not_lt, Nat.le_zero]

theorem Watches.tick (h : Watches slots s) (pos : 1 ≤ slots) {wheel : TimingWheel Conn}
    {dead : Multiset (Entry Conn)} (ran : s.wheel.pushBucket ∅ = .ok (wheel, dead))
    (lock : Conn → Bool) :
    Watches slots (destroy { s with wheel := wheel, history := .tick lock :: s.history }
      (dead.filter fun e => s.holders e = 0) lock) := by
  obtain ⟨_, _, same, turned, nodup, due⟩ := h.turned.tick pos lock
  cases same.symm.trans ran
  have later (e : Entry Conn) (n : Nat) :
      sinceInsertion e (.tick lock :: s.history) = some n ↔
        ∃ m, sinceInsertion e s.history = some m ∧ m + 1 = n := Option.map_eq_some_iff
  have released (e : Entry Conn) : e ∈ dead.filter (fun e => s.holders e = 0) ↔
      sinceInsertion e s.history = some (slots - 1) ∧ s.holders e = 0 := by
    rw [Multiset.mem_filter, due]
  refine ⟨turned, h.held, fun e n since => ?_, fun e gone => ?_, ?_, fun e made => ?_⟩
  · obtain ⟨m, before, _⟩ := (later e n).mp since
    exact h.inserted e m before
  · rcases Multiset.mem_add.mp gone with before | now
    · exact h.gone e before
    · exact h.inserted e _ ((released e).mp now).1
  · refine Multiset.nodup_add.mpr ⟨h.once, nodup.filter _, Multiset.disjoint_left.mpr ?_⟩
    intro e before now
    obtain ⟨since, _⟩ := (released e).mp now
    have := ((h.dead e (h.gone e before)).mp before).2 _ since
    omega
  · show e ∈ s.destroyed + dead.filter (fun e => s.holders e = 0) ↔ _
    rw [Multiset.mem_add, h.dead e made, released]
    constructor
    · rintro (⟨free, idle⟩ | ⟨since, free⟩)
      · refine ⟨free, fun n after => ?_⟩
        obtain ⟨m, before, rfl⟩ := (later e n).mp after
        exact Nat.le_succ_of_le (idle m before)
      · refine ⟨free, fun n after => ?_⟩
        obtain ⟨m, before, rfl⟩ := (later e n).mp after
        cases since.symm.trans before
        omega
    · rintro ⟨free, idle⟩
      by_cases last : sinceInsertion e s.history = some (slots - 1)
      · exact .inr ⟨last, free⟩
      · refine .inl ⟨free, fun n since => ?_⟩
        have soon : slots ≤ n + 1 := idle (n + 1) ((later e _).mpr ⟨n, since, rfl⟩)
        rcases Nat.eq_or_lt_of_le soon with equal | less
        · rw [since] at last
          exact absurd (congrArg some (by omega)) last
        · omega

theorem hold_self (s : Guarded Conn) (e : Entry Conn) (n : Nat) : (s.hold e n).holders e = n :=
  Function.update_self ..

theorem hold_of_ne (s : Guarded Conn) {e a : Entry Conn} (n : Nat) (other : a ≠ e) :
    (s.hold e n).holders a = s.holders a :=
  Function.update_of_ne other ..

theorem Watches.create (h : Watches slots s) (fresh : e ∉ s.made) :
    Watches slots { s.hold e 1 with made := Insert.insert e s.made } := by
  refine ⟨h.turned, fun a held => ?_, fun a n since => ?_, fun a gone => ?_, h.once,
    fun a made => ?_⟩
  · by_cases same : a = e
    · rw [same]
      exact Finset.mem_insert_self e s.made
    · rw [hold_of_ne s 1 same] at held
      exact Finset.mem_insert_of_mem (h.held a held)
  · exact Finset.mem_insert_of_mem (h.inserted a n since)
  · exact Finset.mem_insert_of_mem (h.gone a gone)
  · show a ∈ s.destroyed ↔ (s.hold e 1).holders a = 0 ∧ s.Idle slots a
    by_cases same : a = e
    · have never : e ∉ s.destroyed := fun gone => fresh (h.gone e gone)
      rw [same, hold_self]
      simp [never]
    · rw [hold_of_ne s 1 same]
      exact h.dead a (Finset.mem_of_mem_insert_of_ne made same)

/-- Another number of callbacks has the entry. -/
theorem Watches.hold (h : Watches slots s) (made : e ∈ s.made) {n : Nat}
    (dead : e ∈ s.destroyed ↔ n = 0 ∧ s.Idle slots e) : Watches slots (s.hold e n) := by
  refine ⟨h.turned, fun a held => ?_, h.inserted, h.gone, h.once, fun a known => ?_⟩
  · by_cases same : a = e
    · exact same ▸ made
    · rw [hold_of_ne s n same] at held
      exact h.held a held
  · show a ∈ s.destroyed ↔ (s.hold e n).holders a = 0 ∧ s.Idle slots a
    by_cases same : a = e
    · rw [same, hold_self]
      exact dead
    · rw [hold_of_ne s n same]
      exact h.dead a known

theorem Watches.lock (h : Watches slots s) (alive : s.Alive e) :
    Watches slots (s.hold e (s.holders e + 1)) := by
  have made := h.made_of_alive alive
  have kept : e ∉ s.destroyed := fun gone => (h.destroyed_iff made).mp gone alive
  exact h.hold made (by simp [kept])

theorem Watches.insert (h : Watches slots s) (pos : 1 ≤ slots) (held : 0 < s.holders e)
    {wheel : TimingWheel Conn} (ran : s.wheel.pushBack e = .ok wheel) :
    Watches slots { s with wheel := wheel, history := .insert e :: s.history } := by
  have made := h.held e held
  refine ⟨h.turned.insert pos ran, h.held, fun a n since => ?_, h.gone, h.once, fun a known => ?_⟩
  · rw [sinceInsertion] at since
    split at since
    · rename_i same
      exact same ▸ made
    · exact h.inserted a n since
  · rw [h.dead a known]
    by_cases same : e = a
    · have some_ : s.holders a ≠ 0 := same ▸ Nat.ne_of_gt held
      simp [some_]
    · refine and_congr_right fun _ => ?_
      simp only [Idle, sinceInsertion, if_neg same]

theorem Watches.release (h : Watches slots s) (held : 0 < s.holders e) (lock : Conn → Bool) :
    Watches slots (if (s.hold e (s.holders e - 1)).Alive e then s.hold e (s.holders e - 1)
      else (s.hold e (s.holders e - 1)).destroy {e} lock) := by
  have made := h.held e held
  have kept : e ∉ s.destroyed := fun gone =>
    (h.destroyed_iff made).mp gone (.inl held)
  have left : (s.hold e (s.holders e - 1)).Alive e ↔
      ¬ (s.holders e - 1 = 0 ∧ s.Idle slots e) := by
    rw [Alive, hold_self, ← h.not_owns_iff]
    show 0 < s.holders e - 1 ∨ s.wheel.Owns e ↔ _
    rw [Nat.pos_iff_ne_zero]
    tauto
  split
  · rename_i alive
    exact h.hold made (by simp [kept, left.mp alive])
  · rename_i lost
    obtain ⟨last, idle⟩ := not_not.mp (mt left.mpr lost)
    have holders : (s.hold e (s.holders e - 1)).holders e = 0 := (hold_self ..).trans last
    refine ⟨h.turned, fun a some_ => ?_, h.inserted, fun a gone => ?_, ?_, fun a known => ?_⟩
    · by_cases same : a = e
      · exact same ▸ made
      · exact h.held a (hold_of_ne s _ same ▸ some_)
    · rcases Multiset.mem_add.mp gone with before | now
      · exact h.gone a before
      · exact Multiset.mem_singleton.mp now ▸ made
    · refine Multiset.nodup_add.mpr ⟨h.once, Multiset.nodup_singleton e, ?_⟩
      refine Multiset.disjoint_left.mpr fun before now => ?_
      rw [Multiset.mem_singleton.mp now] at before
      exact kept before
    · show a ∈ s.destroyed + {e} ↔
        (s.hold e (s.holders e - 1)).holders a = 0 ∧ s.Idle slots a
      rw [Multiset.mem_add, Multiset.mem_singleton]
      by_cases same : a = e
      · rw [same, holders]
        simp [idle]
      · rw [hold_of_ne s _ same, h.dead a known]
        simp [same]

theorem create_watches (timingStep : Nat) :
    Watches slots (create slots timingStep : Guarded Conn) where
  turned := .create timingStep
  held := nofun
  inserted := nofun
  gone := nofun
  once := Multiset.nodup_zero
  dead := nofun

theorem Watches.step (pos : 1 ≤ slots) {event : Callback Conn} (h : Watches slots s)
    (step : CallbackStep s event t) : Watches slots t := by
  cases step with
  | tick lock wheel dead ran => exact h.tick pos ran lock
  | create e fresh => exact h.create fresh
  | lock e alive => exact h.lock alive
  | expired e made gone => exact h
  | insert e wheel held ran => exact h.insert pos held ran
  | release e lock held => exact h.release held lock

omit [DecidableEq Conn] in
/-- A destructor closes its connection, or nothing. -/
theorem closes_le (dead : Multiset (Entry Conn)) (lock : Conn → Bool) :
    dead.filterMap (Entry.destroy lock) ≤ dead.map Entry.conn := by
  induction dead using Multiset.induction_on with
  | empty => exact Multiset.zero_le _
  | cons e dead ih =>
    rw [Multiset.map_cons]
    cases found : lock e.conn with
    | false =>
      rw [Multiset.filterMap_cons_none _ _ (by rw [Entry.destroy, found]; rfl)]
      exact le_trans ih (Multiset.le_cons_self _ _)
    | true =>
      rw [Multiset.filterMap_cons_some (Entry.destroy lock) _ _
        (show Entry.destroy lock e = some e.conn by rw [Entry.destroy, found]; rfl)]
      exact Multiset.cons_le_cons _ ih

omit [DecidableEq Conn] in
theorem destroy_closed (h : s.closed ≤ s.destroyed.map Entry.conn) (dead : Multiset (Entry Conn))
    (lock : Conn → Bool) :
    (s.destroy dead lock).closed ≤ (s.destroy dead lock).destroyed.map Entry.conn := by
  show s.closed + dead.filterMap (Entry.destroy lock) ≤ (s.destroyed + dead).map Entry.conn
  rw [Multiset.map_add]
  exact le_trans (Multiset.add_le_add_right h) (Multiset.add_le_add_left (closes_le dead lock))

theorem step_closed {event : Callback Conn} (h : s.closed ≤ s.destroyed.map Entry.conn)
    (step : CallbackStep s event t) : t.closed ≤ t.destroyed.map Entry.conn := by
  cases step with
  | tick lock wheel dead ran =>
    exact destroy_closed
      (s := { s with wheel := wheel, history := .tick lock :: s.history }) h _ lock
  | create | lock | expired | insert => exact h
  | release e lock held =>
    split
    · exact h
    · exact destroy_closed (s := s.hold e (s.holders e - 1)) h {e} lock

end Guarded

open Guarded in
/-- **Idle connections, with callbacks on other threads.** However ticks and callbacks interleave:
an entry is destroyed once, and exactly when no callback has it and as many ticks as the wheel
has slots have passed since its latest insertion, if there was one; each destructor closes its
own connection at most; and from the first tick on, a callback can insert the entry it has. -/
theorem idle_entry_destroyed_iff {slots timingStep : Nat} (pos : 1 ≤ slots) {s : Guarded Conn}
    (h : (callbacks Conn slots timingStep).Reachable s) :
    s.destroyed.Nodup ∧ s.closed ≤ s.destroyed.map Entry.conn ∧
    (∀ e ∈ s.made, e ∈ s.destroyed ↔ s.holders e = 0 ∧ s.Idle slots e) ∧
    ∀ e lock, 0 < s.holders e → .tick lock ∈ s.history → ∃ t, CallbackStep s (.insert e) t := by
  have watches : Watches slots s := by
    refine System.invariant _ ?_ (fun s e t hs step => hs.step pos step) h
    rintro s rfl
    exact create_watches timingStep
  have closed : s.closed ≤ s.destroyed.map Entry.conn := by
    refine System.invariant _ (P := fun s => s.closed ≤ s.destroyed.map Entry.conn) ?_
      (fun s e t hs step => step_closed hs step) h
    rintro s rfl
    exact Multiset.zero_le _
  refine ⟨watches.once, closed, watches.dead, fun e lock held ticked => ?_⟩
  obtain ⟨wheel, pushed⟩ := watches.turned.exists_insert pos ticked e
  exact ⟨_, .insert s e wheel held pushed⟩

/-- One slot, and a callback that still has the entry when the tick evicts it. -/
theorem idle_entry_destroyed_held : ∃ s : Guarded Nat, (callbacks Nat 1 1).Reachable s ∧
    ⟨0, 5⟩ ∈ s.made ∧ s.Idle 1 ⟨0, 5⟩ ∧ ¬ s.wheel.Owns ⟨0, 5⟩ ∧ ⟨0, 5⟩ ∉ s.destroyed := by
  have run := (System.Reachable.start (M := callbacks Nat 1 1) rfl).next
      (.tick _ (fun _ => true) _ _ rfl)
    |>.next (.create _ ⟨0, 5⟩ (Finset.notMem_empty _))
    |>.next (.insert _ ⟨0, 5⟩ _ (by decide) rfl)
    |>.next (.tick _ (fun _ => true) _ _ rfl)
  obtain ⟨_, _, dead, _⟩ := idle_entry_destroyed_iff (by decide) run
  refine ⟨_, run, by decide, ?_, by decide, ?_⟩
  · rintro n ⟨rfl⟩
    exact Nat.le_refl 1
  · rw [dead _ (by decide)]
    rintro ⟨free, _⟩
    cases free

end Libatp.Wheel
