import Libatp.Wheel.TimingWheel
import Mathlib.Data.Finset.Filter

/-!
# Expiry

With `N` slots an entry lives for exactly `N` ticks after its latest insertion. The
wheel is compared with one that never evicts: `epochs` has a bucket for every tick,
of which the real one holds the newest `N`.
-/

namespace Libatp.Wheel
open Base

variable {Conn : Type} [DecidableEq Conn]

/-- The ticks since the latest insertion of an entry, if there was one. -/
def sinceInsertion (e : Entry Conn) : List (Event Conn) → Option Nat
  | [] => none
  | .tick _ :: earlier => (sinceInsertion e earlier).map (· + 1)
  | .insert a :: earlier => if a = e then some 0 else sinceInsertion e earlier

/-- All buckets ever pushed, the newest first, with what was inserted into each. -/
def epochs : List (Event Conn) → List (Bucket Conn)
  | [] => []
  | .tick _ :: earlier => ∅ :: epochs earlier
  | .insert e :: earlier => (epochs earlier).modifyHead (insert e)

/-- The ticks since the newest bucket with an entry was pushed. -/
def newestWith (e : Entry Conn) (log : List (Bucket Conn)) : Option Nat :=
  log.findIdx? (e ∈ ·)

theorem newestWith_cons (e : Entry Conn) (bucket : Bucket Conn) (log : List (Bucket Conn)) :
    newestWith e (bucket :: log) =
      if e ∈ bucket then some 0 else (newestWith e log).map (· + 1) := by
  simp [newestWith, List.findIdx?_cons]

theorem mem_take_iff (e : Entry Conn) (log : List (Bucket Conn)) (n : Nat) :
    (∃ bucket ∈ log.take n, e ∈ bucket) ↔ ∃ i < n, newestWith e log = some i := by
  induction log generalizing n with
  | nil => simp [newestWith]
  | cons bucket log ih =>
    cases n with
    | zero => simp
    | succ n =>
      rw [List.take_succ_cons, newestWith_cons]
      by_cases here : e ∈ bucket
      · simp [here]
      · simp only [List.exists_mem_cons_iff, here, false_or, ih, if_false,
          Option.map_eq_some_iff]
        constructor
        · rintro ⟨i, small, idle⟩
          exact ⟨i + 1, by omega, i, idle, rfl⟩
        · rintro ⟨_, small, i, idle, rfl⟩
          exact ⟨i, by omega, idle⟩

/-- The newest bucket with an entry has it, and no bucket after it does. -/
theorem newestWith_eq_some_iff (e : Entry Conn) (log : List (Bucket Conn)) (n : Nat) :
    newestWith e log = some n ↔
      (∃ bucket, log[n]? = some bucket ∧ e ∈ bucket) ∧ ¬ ∃ bucket ∈ log.take n, e ∈ bucket := by
  induction log generalizing n with
  | nil => simp [newestWith]
  | cons bucket log ih =>
    rw [newestWith_cons]
    cases n with
    | zero => by_cases here : e ∈ bucket <;> simp [here]
    | succ n =>
      by_cases here : e ∈ bucket
      · simp [here]
      · simp only [here, if_false, Option.map_eq_some_iff, Nat.add_right_cancel_iff,
          exists_eq_right, ih, List.getElem?_cons_succ, List.take_succ_cons,
          List.exists_mem_cons_iff, false_or]

namespace TimingWheel

variable {w : TimingWheel Conn} {log : List (Bucket Conn)}

theorem owns_iff (h : w.cycleBuckets.Holds log) (e : Entry Conn) :
    w.Owns e ↔ ∃ n < w.cycleBuckets.maxSize, newestWith e log = some n := by
  simp only [Owns, h.mem_iff, mem_take_iff]

/-- A tick never fails, and destroys the entries whose newest bucket it evicts. -/
theorem pushBucket_holds (h : w.cycleBuckets.Holds log) (room : 1 ≤ w.cycleBuckets.maxSize) :
    ∃ wheel dead, w.pushBucket ∅ = .ok (wheel, dead) ∧
      wheel.cycleBuckets.maxSize = w.cycleBuckets.maxSize ∧
      wheel.cycleBuckets.Holds (∅ :: log) ∧ dead.Nodup ∧
      ∀ e, e ∈ dead ↔ newestWith e log = some (w.cycleBuckets.maxSize - 1) := by
  obtain ⟨buckets, pushed, size, holds⟩ := h.pushBack room ∅
  let wheel : TimingWheel Conn := { w with cycleBuckets := buckets }
  have kept (e : Entry Conn) :
      wheel.Owns e ↔ ∃ bucket ∈ log.take (w.cycleBuckets.maxSize - 1), e ∈ bucket := by
    obtain ⟨m, hm⟩ : ∃ m, w.cycleBuckets.maxSize = m + 1 := ⟨w.cycleBuckets.maxSize - 1, by omega⟩
    simp only [Owns, wheel, holds.mem_iff, size, hm, List.take_succ_cons,
      List.exists_mem_cons_iff, Finset.notMem_empty, false_or, Nat.add_sub_cancel]
  refine ⟨wheel, _, by rw [pushBucket, pushed]; rfl, size, holds, ?_, ?_⟩
  · cases log[w.cycleBuckets.maxSize - 1]? with
    | none => exact Multiset.nodup_zero
    | some bucket => exact Finset.nodup _
  · intro e
    rw [newestWith_eq_some_iff, ← kept]
    cases log[w.cycleBuckets.maxSize - 1]? with
    | none => simp [released]
    | some bucket => simp [released, wheel]

theorem pushBack_holds {newest : Bucket Conn} (h : w.cycleBuckets.Holds (newest :: log))
    (room : 1 ≤ w.cycleBuckets.maxSize) (e : Entry Conn) :
    ∃ wheel, w.pushBack e = .ok wheel ∧
      wheel.cycleBuckets.maxSize = w.cycleBuckets.maxSize ∧
      wheel.cycleBuckets.Holds (insert e newest :: log) := by
  refine ⟨{ w with cycleBuckets := w.cycleBuckets.setBack (insert e newest) }, ?_, rfl,
    h.setBack room _⟩
  rw [pushBack, h.back room]
  rfl

theorem not_pushBack_nil (h : w.cycleBuckets.Holds []) (e : Entry Conn)
    (wheel : TimingWheel Conn) : w.pushBack e ≠ .ok wheel := by
  rw [pushBack, h.back_nil]
  exact nofun

end TimingWheel

theorem epochs_ne_nil {lock : Conn → Bool} {history : List (Event Conn)}
    (h : .tick lock ∈ history) : epochs history ≠ [] := by
  induction history with
  | nil => cases h
  | cons event earlier ih =>
    cases event with
    | tick _ => exact List.cons_ne_nil _ _
    | insert e =>
      have before := ih (by simpa using h)
      simpa [epochs] using before

/-- The wheel has `slots` buckets and holds the newest, whoever else has pointers to the
entries. -/
structure Turned (slots : Nat) (wheel : TimingWheel Conn) (history : List (Event Conn)) :
    Prop where
  slots_eq : wheel.cycleBuckets.maxSize = slots
  holds : wheel.cycleBuckets.Holds (epochs history)
  since : ∀ e, newestWith e (epochs history) = sinceInsertion e history

namespace Turned

variable {slots : Nat} {wheel wheel' : TimingWheel Conn} {history : List (Event Conn)}

theorem create (timingStep : Nat) : Turned slots (.make slots timingStep : TimingWheel Conn) [] :=
  ⟨rfl, (List.take_nil).symm, fun _ => rfl⟩

theorem owns_iff (h : Turned slots wheel history) (e : Entry Conn) :
    wheel.Owns e ↔ ∃ n < slots, sinceInsertion e history = some n := by
  rw [TimingWheel.owns_iff h.holds, h.slots_eq, h.since]

/-- A tick can be taken, and it releases the entries that were due with it. -/
theorem tick (h : Turned slots wheel history) (pos : 1 ≤ slots) (lock : Conn → Bool) :
    ∃ wheel' dead, wheel.pushBucket ∅ = .ok (wheel', dead) ∧
      Turned slots wheel' (.tick lock :: history) ∧ dead.Nodup ∧
      ∀ e, e ∈ dead ↔ sinceInsertion e history = some (slots - 1) := by
  obtain ⟨wheel', dead, ran, size, holds, nodup, due⟩ :=
    TimingWheel.pushBucket_holds h.holds (h.slots_eq.symm ▸ pos)
  refine ⟨wheel', dead, ran, ⟨size.trans h.slots_eq, holds, fun e => ?_⟩, nodup, fun e => ?_⟩
  · show newestWith e (∅ :: epochs history) = (sinceInsertion e history).map (· + 1)
    rw [newestWith_cons, if_neg (Finset.notMem_empty e), h.since]
  · rw [due, h.since, h.slots_eq]

theorem insert (h : Turned slots wheel history) (pos : 1 ≤ slots) {a : Entry Conn}
    (ran : wheel.pushBack a = .ok wheel') : Turned slots wheel' (.insert a :: history) := by
  have holds := h.holds
  have since := h.since
  cases log : epochs history with
  | nil =>
    rw [log] at holds
    exact absurd ran (TimingWheel.not_pushBack_nil holds a wheel')
  | cons newest older =>
    rw [log] at holds since
    obtain ⟨_, same, size, pushed⟩ :=
      TimingWheel.pushBack_holds holds (h.slots_eq.symm ▸ pos) a
    cases same.symm.trans ran
    have log' : epochs (.insert a :: history) = Insert.insert a newest :: older := by
      rw [epochs, log, List.modifyHead_cons]
    refine ⟨size.trans h.slots_eq, log' ▸ pushed, fun e => ?_⟩
    have before := since e
    rw [newestWith_cons] at before
    rw [log', newestWith_cons, sinceInsertion, ← before]
    by_cases same : a = e
    · simp [same]
    · simp [same, Ne.symm same]

/-- From the first tick on there is a bucket to insert into. -/
theorem exists_insert (h : Turned slots wheel history) (pos : 1 ≤ slots) {lock : Conn → Bool}
    (ticked : .tick lock ∈ history) (e : Entry Conn) : ∃ wheel', wheel.pushBack e = .ok wheel' := by
  obtain ⟨newest, older, log⟩ := List.exists_cons_of_ne_nil (epochs_ne_nil ticked)
  have holds := h.holds
  rw [log] at holds
  obtain ⟨wheel', pushed, _⟩ := TimingWheel.pushBack_holds holds (h.slots_eq.symm ▸ pos) e
  exact ⟨wheel', pushed⟩

end Turned

/-- What links a wheel that owns its entries alone to its history. -/
structure Tracks (slots : Nat) (s : World Conn) : Prop where
  turned : Turned slots s.wheel s.history
  once : s.destroyed.Nodup
  expired : ∀ e, e ∈ s.destroyed ↔ ∃ n, slots ≤ n ∧ sinceInsertion e s.history = some n

theorem Tracks.step_tick {slots : Nat} {s : World Conn} (inv : Tracks slots s)
    (pos : 1 ≤ slots) {lock : Conn → Bool} {wheel : TimingWheel Conn}
    {dead : Multiset (Entry Conn)} (ran : s.wheel.pushBucket ∅ = .ok (wheel, dead)) :
    Tracks slots
      { wheel := wheel
        destroyed := s.destroyed + dead
        closed := s.closed + dead.filterMap (Entry.destroy lock)
        history := .tick lock :: s.history } := by
  obtain ⟨_, _, same, turned, nodup, due⟩ := inv.turned.tick pos lock
  cases same.symm.trans ran
  refine ⟨turned, ?_, fun e => ?_⟩
  · refine Multiset.nodup_add.mpr ⟨inv.once, nodup, Multiset.disjoint_left.mpr ?_⟩
    intro e gone now
    obtain ⟨n, late, idle⟩ := (inv.expired e).mp gone
    have := idle.symm.trans ((due e).mp now)
    simp only [Option.some.injEq] at this
    omega
  · show e ∈ s.destroyed + dead ↔
      ∃ n, slots ≤ n ∧ (sinceInsertion e s.history).map (· + 1) = some n
    rw [Multiset.mem_add, inv.expired, due]
    simp only [Option.map_eq_some_iff]
    constructor
    · rintro (⟨n, late, idle⟩ | idle)
      · exact ⟨n + 1, by omega, n, idle, rfl⟩
      · exact ⟨slots - 1 + 1, by omega, slots - 1, idle, rfl⟩
    · rintro ⟨_, late, n, idle, rfl⟩
      rcases Nat.lt_or_ge n slots with last | late
      · exact .inr (by rw [idle]; congr 1; omega)
      · exact .inl ⟨n, late, idle⟩

theorem Tracks.step_insert {slots : Nat} {s : World Conn} (inv : Tracks slots s)
    (pos : 1 ≤ slots) {a : Entry Conn} {wheel : TimingWheel Conn}
    (alive : a ∉ s.destroyed) (ran : s.wheel.pushBack a = .ok wheel) :
    Tracks slots { s with wheel := wheel, history := .insert a :: s.history } := by
  refine ⟨inv.turned.insert pos ran, inv.once, fun e => ?_⟩
  show e ∈ s.destroyed ↔ ∃ n, slots ≤ n ∧ sinceInsertion e (.insert a :: s.history) = some n
  rw [sinceInsertion]
  by_cases same : a = e
  · subst same
    simp only [alive, if_true, Option.some.injEq, false_iff, not_exists, not_and]
    omega
  · rw [if_neg same, inv.expired]

theorem tracks {slots timingStep : Nat} (pos : 1 ≤ slots) {s : World Conn}
    (h : (timingWheel Conn slots timingStep).Reachable s) : Tracks slots s := by
  refine System.invariant _ (P := Tracks slots) ?_ ?_ h
  · rintro _ rfl
    exact ⟨.create timingStep, Multiset.nodup_zero, fun e => by simp [sinceInsertion]⟩
  · intro s e t inv step
    cases step with
    | tick lock wheel dead ran => exact inv.step_tick pos ran
    | insert a wheel alive ran => exact inv.step_insert pos alive ran

/-- An entry is owned by the wheel exactly while fewer than `slots` ticks have passed
since its latest insertion. Its destructor has run once if they have, and not at all
otherwise: it runs at the tick that completes them, where it closes a connection that
still exists, and never at an insertion. Ticks are always possible, and insertions of
entries that still exist are from the first tick on. -/
theorem expires_exactly {slots timingStep : Nat} (pos : 1 ≤ slots) {s : World Conn}
    (h : (timingWheel Conn slots timingStep).Reachable s) :
    (∀ e, s.wheel.Owns e ↔ ∃ n < slots, sinceInsertion e s.history = some n) ∧
    s.destroyed.Nodup ∧
    (∀ e, e ∈ s.destroyed ↔ ∃ n, slots ≤ n ∧ sinceInsertion e s.history = some n) ∧
    (∀ lock t, Step s (.tick lock) t → ∃ dead, dead.Nodup ∧
      (∀ e, e ∈ dead ↔ sinceInsertion e s.history = some (slots - 1)) ∧
      t.destroyed = s.destroyed + dead ∧
      t.closed = s.closed + dead.filterMap (Entry.destroy lock)) ∧
    (∀ e t, Step s (.insert e) t → t.destroyed = s.destroyed ∧ t.closed = s.closed) ∧
    (∀ lock, ∃ t, Step s (.tick lock) t) ∧
    (∀ e lock, .tick lock ∈ s.history → e ∉ s.destroyed → ∃ t, Step s (.insert e) t) := by
  have inv := tracks pos h
  refine ⟨inv.turned.owns_iff, inv.once, inv.expired, ?_, ?_, ?_, ?_⟩
  · intro lock t step
    cases step with
    | tick lock wheel dead ran =>
      obtain ⟨_, _, same, _, nodup, due⟩ := inv.turned.tick pos lock
      cases same.symm.trans ran
      exact ⟨_, nodup, due, rfl, rfl⟩
  · intro e t step
    cases step with
    | insert e wheel alive pushed => exact ⟨rfl, rfl⟩
  · intro lock
    obtain ⟨_, _, ran, _⟩ := inv.turned.tick pos lock
    exact ⟨_, .tick s lock _ _ ran⟩
  · intro e lock ticked alive
    obtain ⟨wheel, pushed⟩ := inv.turned.exists_insert pos ticked e
    exact ⟨_, .insert s e wheel alive pushed⟩

/-- Two slots: a refresh after one tick, and the end two ticks after that. -/
theorem expires_exactly_refreshed : ∃ s : World Nat, (timingWheel Nat 2 1).Reachable s ∧
    sinceInsertion ⟨0, 5⟩ s.history = some 2 ∧ s.destroyed.Nodup ∧ ⟨0, 5⟩ ∈ s.destroyed ∧
    ¬ s.wheel.Owns ⟨0, 5⟩ := by
  have filled := (System.Reachable.start (M := timingWheel Nat 2 1) rfl).next
      (.tick _ (fun _ => true) _ _ rfl)
    |>.next (.insert _ ⟨0, 5⟩ _ (Multiset.notMem_zero _) rfl)
    |>.next (.tick _ (fun _ => true) _ _ rfl)
    |>.next (.insert _ ⟨0, 5⟩ _ (by decide) rfl)
  have ended := filled.next (.tick _ (fun _ => true) _ _ rfl)
    |>.next (.tick _ (fun _ => true) _ _ rfl)
  obtain ⟨owned, once, expired, _⟩ := expires_exactly (by decide) ended
  refine ⟨_, ended, rfl, once, (expired _).mpr ⟨2, Nat.le_refl 2, rfl⟩, fun still => ?_⟩
  obtain ⟨n, early, idle⟩ := (owned _).mp still
  have two : 2 = n := Option.some.inj idle
  omega

end Libatp.Wheel
