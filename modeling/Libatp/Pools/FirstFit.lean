import Libatp.Pools.Reservations

/-!
# `pool_alloc` is first fit

The two searches of `pool_alloc` and `pool_alloc_find` come to one: the first chunk of
the pool that has room for the rounded size serves the request, and a pool without such
a chunk grows. What a caller gets is the rounded size, which is not always as much as
the size asked for.
-/

namespace Libatp.Pools
open Base

/-- Sizes up to the last multiple of `poolAlign` are rounded up, by less than `poolAlign`. -/
theorem roundSize_bounds {size : Nat} (small : size ≤ wordSize - poolAlign) :
    size ≤ roundSize size ∧ roundSize size < size + poolAlign := by
  unfold roundSize
  split
  · rename_i odd
    unfold wrap
    simp only [poolAlign, wordSize] at *
    omega
  · exact ⟨Nat.le_refl _, Nat.lt_add_of_pos_right (by decide)⟩

/-- Sizes above it wrap. -/
theorem roundSize_wraps {size : Nat} (large : wordSize - poolAlign < size)
    (word : size < wordSize) : roundSize size = 0 := by
  have odd : size % poolAlign ≠ 0 := by
    simp only [poolAlign, wordSize] at *
    omega
  rw [roundSize, if_pos odd, wrap]
  simp only [poolAlign, wordSize] at *
  omega

theorem le_roundSize_iff {size : Nat} (asked : 1 ≤ size) (word : size < wordSize) :
    size ≤ roundSize size ↔ size ≤ wordSize - poolAlign := by
  constructor
  · intro enough
    by_contra large
    rw [roundSize_wraps (by omega) word] at enough
    omega
  · intro small
    exact (roundSize_bounds small).1

namespace World

/-- The chunk has room for a request of this size. -/
def Fits (w : World) (size chunk : Nat) : Prop :=
  roundSize size ≤ wsub (w.chunks chunk).fin (w.chunks chunk).cur

instance (w : World) (size chunk : Nat) : Decidable (w.Fits size chunk) :=
  inferInstanceAs (Decidable (_ ≤ _))

def firstFit (w : World) (pool size : Nat) : Option Nat :=
  (w.pools pool).chunks.find? fun chunk => w.Fits size chunk

theorem firstFit_some {w : World} {pool size chunk : Nat}
    (found : w.firstFit pool size = some chunk) :
    chunk ∈ (w.pools pool).chunks ∧ w.Fits size chunk :=
  ⟨List.mem_of_find?_eq_some found, by simpa using List.find?_some found⟩

theorem firstFit_none {w : World} {pool size : Nat} :
    w.firstFit pool size = none ↔ ∀ chunk ∈ (w.pools pool).chunks, ¬ w.Fits size chunk := by
  simp [firstFit]

/-- The bytes between the cursor of a chunk and its end. -/
def room (w : World) (chunk : Nat) : Nat := (w.chunks chunk).fin - (w.chunks chunk).cur

/-- The request is taken from this chunk. -/
def take (w : World) (chunk size : Nat) : World :=
  let c := w.chunks chunk
  let cur := wrap (c.cur + roundSize size)
  { w with
    chunks := Function.update w.chunks chunk { c with cur := cur }
    reserved := ⟨chunk, c.cur, cur⟩ :: w.reserved }

theorem take_self (w : World) (chunk size : Nat) :
    (w.take chunk size).chunks chunk =
      { w.chunks chunk with cur := wrap ((w.chunks chunk).cur + roundSize size) } :=
  Function.update_self ..

theorem take_other (w : World) {chunk c : Nat} (size : Nat) (other : c ≠ chunk) :
    (w.take chunk size).chunks c = w.chunks c :=
  Function.update_of_ne other ..

section
variable {w : World} {chunk size : Nat}

theorem poolAllocFromChunk_fits (asked : size ≠ 0) (fits : w.Fits size chunk) :
    w.poolAllocFromChunk chunk size = ((w.chunks chunk).cur, w.take chunk size) :=
  (if_neg asked).trans (if_pos fits)

theorem poolAllocFromChunk_misfits (full : ¬ w.Fits size chunk) :
    w.poolAllocFromChunk chunk size = (0, w) := by
  by_cases none : size = 0
  · exact if_pos none
  · exact (if_neg none).trans (if_neg full)

end

/-- Where the chunks of a pool hand out memory is never null. -/
def Cursors (w : World) (pool : Nat) : Prop :=
  ∀ chunk ∈ (w.pools pool).chunks, (w.chunks chunk).cur ≠ 0

theorem poolAllocEach_eq {w : World} {size : Nat} (asked : size ≠ 0) {chunks : List Nat}
    (cursors : ∀ chunk ∈ chunks, (w.chunks chunk).cur ≠ 0) :
    w.poolAllocEach size chunks =
      match chunks.find? fun chunk => w.Fits size chunk with
      | some chunk => w.poolAllocFromChunk chunk size
      | none => (0, w) := by
  induction chunks with
  | nil => rfl
  | cons chunk chunks ih =>
    have rest := ih fun c later => cursors c (List.mem_cons_of_mem _ later)
    by_cases fits : w.Fits size chunk
    · have taken := poolAllocFromChunk_fits asked fits
      simp only [poolAllocEach, taken, List.find?_cons, decide_eq_true fits,
        if_pos (cursors chunk List.mem_cons_self)]
    · simp only [poolAllocEach, poolAllocFromChunk_misfits fits, List.find?_cons,
        decide_eq_false fits, rest]
      rfl

/-- Both searches together. -/
theorem poolAlloc_eq {w : World} {pool size : Nat} (answer : Answer) (nonnull : pool ≠ 0)
    (linked : (w.pools pool).linked = true) (asked : size ≠ 0) (cursors : w.Cursors pool) :
    w.poolAlloc pool size answer =
      match w.firstFit pool size with
      | some chunk => .ok (w.poolAllocFromChunk chunk size)
      | none => w.poolAllocGrow pool size answer := by
  have find : w.poolAllocFind pool size answer =
      match w.firstFit pool size with
      | some chunk => .ok (w.poolAllocFromChunk chunk size)
      | none => w.poolAllocGrow pool size answer := by
    unfold poolAllocFind
    rw [if_neg asked, poolAllocEach_eq asked cursors, ← firstFit]
    cases found : w.firstFit pool size with
    | none => rfl
    | some chunk =>
      obtain ⟨mine, fits⟩ := firstFit_some found
      simp only [poolAllocFromChunk_fits asked fits]
      exact if_pos (cursors chunk mine)
  unfold poolAlloc
  rw [require_true nonnull, ok_bind, follow_true (by rw [linked, Bool.or_true]), ok_bind]
  cases list : (w.pools pool).chunks with
  | nil => exact find
  | cons first rest =>
    by_cases fits : w.Fits size first
    · have here : w.firstFit pool size = some first := by
        rw [firstFit, list, List.find?_cons, decide_eq_true fits]
      have mine : first ∈ (w.pools pool).chunks := list ▸ List.mem_cons_self
      simp only [here, poolAllocFromChunk_fits asked fits]
      exact if_pos (cursors first mine)
    · simp only [poolAllocFromChunk_misfits fits]
      exact find

theorem poolAlloc_zero {w : World} {pool : Nat} (answer : Answer) (nonnull : pool ≠ 0) :
    w.poolAlloc pool 0 answer = .ok (0, w) := by
  have unread : follow (decide (0 = 0) || (w.pools pool).linked) = .ok () := rfl
  unfold poolAlloc
  rw [require_true nonnull, ok_bind, unread, ok_bind]
  cases (w.pools pool).chunks with
  | nil => rfl
  | cons first rest => rfl

/-! ## With aligned blocks -/

/-- What a helper that gets aligned blocks is always in. -/
structure Orderly (w : World) : Prop where
  sound : Sound w
  tidy : Tidy w

theorem live_ne_zero {w : World} {pool : Nat} (alive : pool ∈ w.live) : pool ≠ 0 := by
  obtain ⟨b, hb, _, rfl⟩ := mem_live.mp alive
  exact Nat.pos_iff_ne_zero.mp (w.heap.proper b hb).1

namespace Orderly
variable {w : World} (hw : Orderly w) {pool chunk : Nat}

include hw

/-- The cursor of a chunk, between the two bounds. -/
theorem cursor (resident : chunk ∈ w.heap.outstanding.map chunkAddr) :
    0 < (w.chunks chunk).cur ∧ (w.chunks chunk).cur ≤ (w.chunks chunk).fin ∧
      (w.chunks chunk).fin < wordSize ∧ (w.chunks chunk).cur % poolAlign = 0 := by
  obtain ⟨b, hb, rfl⟩ := List.mem_map.mp resident
  obtain ⟨first, last, aligned⟩ := hw.tidy.cursor b hb
  obtain ⟨buf, fin⟩ := hw.sound.placed b hb
  have word : b.fin < wordSize := (w.heap.proper b hb).2.2
  have header : 0 < sizeofChunk := by decide
  exact ⟨by omega, last, by omega, aligned⟩

theorem cursors (alive : pool ∈ w.live) : w.Cursors pool := by
  intro chunk mine
  exact Nat.pos_iff_ne_zero.mp (hw.cursor (hw.sound.resident alive mine)).1

theorem poolAlloc_fits (alive : pool ∈ w.live) {size : Nat} (asked : size ≠ 0)
    (found : w.firstFit pool size = some chunk) (answer : Answer) :
    w.poolAlloc pool size answer = .ok ((w.chunks chunk).cur, w.take chunk size) := by
  rw [poolAlloc_eq answer (live_ne_zero alive) (hw.sound.intact pool).linked asked
    (hw.cursors alive), found]
  exact congrArg _ (poolAllocFromChunk_fits asked (firstFit_some found).2)

theorem poolAlloc_full (alive : pool ∈ w.live) {size : Nat} (asked : size ≠ 0)
    (full : w.firstFit pool size = none) (answer : Answer) :
    w.poolAlloc pool size answer = w.poolAllocGrow pool size answer := by
  rw [poolAlloc_eq answer (live_ne_zero alive) (hw.sound.intact pool).linked asked
    (hw.cursors alive), full]

theorem fits_iff (resident : chunk ∈ w.heap.outstanding.map chunkAddr) {size : Nat} :
    w.Fits size chunk ↔ roundSize size ≤ w.room chunk := by
  obtain ⟨_, last, word, _⟩ := hw.cursor resident
  rw [Fits, wsub_of_le last word, room]

theorem take_cur (resident : chunk ∈ w.heap.outstanding.map chunkAddr) {size : Nat}
    (fits : w.Fits size chunk) :
    ((w.take chunk size).chunks chunk).cur = (w.chunks chunk).cur + roundSize size ∧
      ((w.take chunk size).chunks chunk).cur ≤ ((w.take chunk size).chunks chunk).fin := by
  obtain ⟨_, last, word, _⟩ := hw.cursor resident
  rw [hw.fits_iff resident, room] at fits
  have moved : wrap ((w.chunks chunk).cur + roundSize size) =
      (w.chunks chunk).cur + roundSize size := wrap_of_lt (by omega)
  rw [take_self]
  constructor
  · exact moved
  · show wrap ((w.chunks chunk).cur + roundSize size) ≤ (w.chunks chunk).fin
    omega

theorem take {size : Nat} (asked : size ≠ 0)
    (resident : chunk ∈ w.heap.outstanding.map chunkAddr) (fits : w.Fits size chunk) :
    Orderly (w.take chunk size) := by
  have sound := sound_take hw.sound chunk size
  have tidy := tidy_take hw.sound hw.tidy size resident
  rw [poolAllocFromChunk_fits asked fits] at sound tidy
  exact ⟨sound, tidy⟩

end Orderly

end World

/-- The helper whose policy returns aligned blocks, as `calloc` and `new` do, and that is given
names that fit. -/
def alignedPool (policy : Policy) (maxCapacity : Nat) : System World Call :=
  (shortPool policy maxCapacity).restrict fun _ call => call.Aligned

open World

theorem reachable_orderly {policy : Policy} {maxCapacity : Nat} {w : World}
    (h : (alignedPool policy maxCapacity).Reachable w) : Orderly w :=
  ⟨(reachable_tidy h).1, (reachable_tidy h).2⟩

/-- A helper with one pool of the least class, at 4096. -/
def onePool (incrSize : Nat) : World :=
  (init defaultPolicy 1000).after (.create [] 200 incrSize (.block 4096 fun _ => 0))

theorem onePool_reachable (incrSize : Nat) :
    (alignedPool defaultPolicy 1000).Reachable (onePool incrSize) :=
  (System.Reachable.start rfl).allow (short_step (Nat.zero_le _) rfl)
    (Call.aligned_create rfl [] 200 incrSize _)

end Libatp.Pools
