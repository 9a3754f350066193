import Libatp.Base.System
import Libatp.Wheel.RingBuffer
import Mathlib.Data.Finset.Basic
import Mathlib.Data.Multiset.Filter

/-!
# `TimingWheel` (`net/atp_timing_wheel.hpp`)

The buckets hold the only owning pointers to the entries between two operations, so
an entry is destroyed when the last bucket with it is. A tick of the timer in
`Server::start` pushes an empty bucket, and `timingWheelInsert` inserts an entry
into the newest one. The order in which a bucket destroys its entries is not
specified, so histories of destructions are multisets.
-/

namespace Libatp.Wheel
open Base

variable {Conn : Type} [DecidableEq Conn]

/-- An entry is known by its address; `conn` is what its weak pointer refers to. -/
structure Entry (Conn : Type) where
  addr : Nat
  conn : Conn
  deriving DecidableEq

/-- `~Entry`: the connection it closes, if `conn_.lock()` still gets one. -/
def Entry.destroy (lock : Conn → Bool) (e : Entry Conn) : Option Conn :=
  if lock e.conn then some e.conn else none

abbrev Bucket (Conn : Type) := Finset (Entry Conn)

structure TimingWheel (Conn : Type) where
  slotSize : Nat
  timingStep : Nat
  cycleBuckets : RingBuffer (Bucket Conn)

namespace TimingWheel

def make (slotSize timingStep : Nat) : TimingWheel Conn where
  slotSize := slotSize
  timingStep := timingStep
  cycleBuckets := RingBuffer.make.resize slotSize

/-- Some bucket holds a pointer to the entry. -/
def Owns (w : TimingWheel Conn) (e : Entry Conn) : Prop :=
  ∃ bucket ∈ w.cycleBuckets.coreList, e ∈ bucket

instance (w : TimingWheel Conn) : DecidablePred w.Owns :=
  fun e => inferInstanceAs (Decidable (∃ bucket ∈ w.cycleBuckets.coreList, e ∈ bucket))

def pushBack (w : TimingWheel Conn) (elem : Entry Conn) : Checked (TimingWheel Conn) := do
  let bucket ← w.cycleBuckets.back
  return { w with cycleBuckets := w.cycleBuckets.setBack (insert elem bucket) }

/-- The entries of a destroyed bucket that lose their last owner with it. -/
def released (w : TimingWheel Conn) : Option (Bucket Conn) → Multiset (Entry Conn)
  | none => 0
  | some bucket => (bucket.filter fun e => ¬ w.Owns e).val

/-- The wheel, and the entries whose destructor the call runs. -/
def pushBucket (w : TimingWheel Conn) (elem : Bucket Conn) :
    Checked (TimingWheel Conn × Multiset (Entry Conn)) := do
  let (buckets, evicted) ← w.cycleBuckets.pushBack elem
  let wheel := { w with cycleBuckets := buckets }
  return (wheel, wheel.released evicted)

end TimingWheel

inductive Event (Conn : Type) where
  /-- `push_bucket(Bucket())`, and which connections a weak pointer still reaches -/
  | tick (lock : Conn → Bool)
  | insert (e : Entry Conn)

/-- `destroyed` are the entries whose destructor ran, `closed` the connections it
closed, and `history` what happened, the newest event first. -/
structure World (Conn : Type) where
  wheel : TimingWheel Conn
  destroyed : Multiset (Entry Conn)
  closed : Multiset Conn
  history : List (Event Conn)

/-- A caller has a pointer only to an entry that still exists. -/
inductive Step : World Conn → Event Conn → World Conn → Prop where
  | tick (s lock wheel dead) : s.wheel.pushBucket ∅ = .ok (wheel, dead) →
      Step s (.tick lock)
        { wheel := wheel
          destroyed := s.destroyed + dead
          closed := s.closed + dead.filterMap (Entry.destroy lock)
          history := .tick lock :: s.history }
  | insert (s e wheel) : e ∉ s.destroyed → s.wheel.pushBack e = .ok wheel →
      Step s (.insert e) { s with wheel := wheel, history := .insert e :: s.history }

/-- A wheel from its construction on. Until the first tick there is no bucket, and
`push_back` has none to insert into, so every insertion comes after a tick. -/
def timingWheel (Conn : Type) [DecidableEq Conn] (slotSize timingStep : Nat) :
    System (World Conn) (Event Conn) where
  start s := s = { wheel := .make slotSize timingStep, destroyed := 0, closed := 0, history := [] }
  step := Step

end Libatp.Wheel
