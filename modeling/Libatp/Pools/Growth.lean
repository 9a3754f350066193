import Libatp.Pools.FirstFit

/-!
# Pools that grow

A pool without room asks its policy for a chunk and serves the request from it. The size
of the chunk is computed from the request as it came, and what is taken from the chunk
is the rounded request, so the new chunk may be too small. Memory is counted before it
is there, so a call that fails is not without effect.
-/

namespace Libatp.Pools
open Base

namespace World

/-- The pool with a new chunk. -/
def grown (w : World) (pool addr n : Nat) (ok : w.heap.Admits ⟨addr, n, .chunk⟩) : World :=
  (w.granted _ ok).appendChunk pool addr n

section
variable {w : World} (hw : Orderly w) {pool addr n : Nat} (alive : pool ∈ w.live)
  (ok : w.heap.Admits ⟨addr, n, .chunk⟩) (header : sizeofChunk ≤ n)
  (aligned : addr % poolAlign = 0)

include hw alive header aligned

theorem orderly_grown : Orderly (w.grown pool addr n ok) := by
  refine ⟨sound_grow hw.sound alive ok header,
    tidy_granted hw.sound hw.tidy ok ?_ aligned rfl rfl rfl⟩
  simp only [chunkAddr, Block.fin]
  omega

end

theorem grown_header {w : World} (pool : Nat) {addr n : Nat} (ok : w.heap.Admits ⟨addr, n, .chunk⟩)
    (header : sizeofChunk ≤ n) (aligned : addr % poolAlign = 0) :
    (w.grown pool addr n ok).chunks addr = ⟨addr + sizeofChunk, addr + sizeofChunk, addr + n⟩ := by
  have word : addr + n < wordSize := ok.1.2.2
  have start : (addr + sizeofChunk) % poolAlign = 0 := by
    simp only [sizeofChunk, poolAlign] at *
    omega
  have header := alignPtr_aligned start (by omega)
  simp only [grown, appendChunk, Function.update_self, header]

theorem grown_chunks {w : World} {pool addr n : Nat} (ok : w.heap.Admits ⟨addr, n, .chunk⟩) :
    ((w.grown pool addr n ok).pools pool).chunks = addr :: (w.pools pool).chunks := by
  rw [grown, appendChunk_chunks, if_pos rfl]

/-- The new chunk was in no pool before. -/
theorem grown_new {w : World} (hw : Orderly w) {pool addr n : Nat} (alive : pool ∈ w.live)
    (ok : w.heap.Admits ⟨addr, n, .chunk⟩) (header : sizeofChunk ≤ n) :
    addr ∉ (w.pools pool).chunks := by
  apply hw.sound.absent _ alive
  apply hw.sound.fresh_chunk ok
  simp only [chunkAddr, Block.fin]
  omega

theorem grown_fits_iff {w : World} {pool addr n size : Nat}
    (ok : w.heap.Admits ⟨addr, n, .chunk⟩) (header : sizeofChunk ≤ n)
    (aligned : addr % poolAlign = 0) :
    (w.grown pool addr n ok).Fits size addr ↔ roundSize size + sizeofChunk ≤ n := by
  have word : addr + n < wordSize := ok.1.2.2
  rw [Fits, grown_header pool ok header aligned, wsub_of_le (by dsimp only; omega) word]
  dsimp only
  omega

/-- What `pool_alloc` can return and leave. -/
inductive Allocated (w : World) (pool size : Nat) (answer : Answer) : Nat → World → Prop
  | nothing (none : size = 0) : Allocated w pool size answer 0 w
  | fits (chunk : Nat) (asked : size ≠ 0) (found : w.firstFit pool size = some chunk) :
      Allocated w pool size answer (w.chunks chunk).cur (w.take chunk size)
  | grows (mem : Nat) (w' : World) (asked : size ≠ 0) (full : w.firstFit pool size = none)
      (grown : Grown w pool size answer mem w') : Allocated w pool size answer mem w'

theorem poolAlloc_allocated {w w' : World} (hw : Orderly w) {pool size mem : Nat}
    {answer : Answer} (alive : pool ∈ w.live) (h : w.poolAlloc pool size answer = .ok (mem, w')) :
    Allocated w pool size answer mem w' := by
  by_cases asked : size = 0
  · subst asked
    rw [poolAlloc_zero answer (live_ne_zero alive)] at h
    cases h
    exact .nothing rfl
  · cases found : w.firstFit pool size with
    | none =>
      rw [hw.poolAlloc_full alive asked found] at h
      exact .grows mem w' asked found (poolAllocGrow_grown h)
    | some chunk =>
      rw [hw.poolAlloc_fits alive asked found] at h
      cases h
      exact .fits chunk asked found

/-- The answer is admissible, so the policy returns it. -/
theorem poolAllocGrow_ok {w : World} {pool size addr : Nat} {contents : Nat → Byte}
    (factory : (w.pools pool).factory = true) (grows : (w.pools pool).incrSize ≠ 0)
    (header : sizeofChunk ≤ newChunkSize (w.pools pool).incrSize size)
    (ok : w.heap.Admits ⟨addr, newChunkSize (w.pools pool).incrSize size, .chunk⟩) :
    w.poolAllocGrow pool size (.block addr contents) =
      .ok ((w.grown pool addr _ ok).poolAllocFromChunk addr size) := by
  have nonnull : addr ≠ 0 := Nat.pos_iff_ne_zero.mp ok.1.1
  unfold poolAllocGrow createChunkAppendPool
  rw [if_neg grows, require_true header, ok_bind, follow_true factory, ok_bind]
  simp only [chunkAlloc, dif_pos ok, ok_bind, if_neg nonnull]
  rfl

end World

/-! ## The size of the new chunk -/

theorem throughInt_small {n : Nat} (small : n < 2 ^ 31) : throughInt n = n := by
  have low : n % 2 ^ 32 = n := Nat.mod_eq_of_lt (by omega)
  simp only [throughInt, low, if_pos small]

/-- Nothing in the computation of the chunk size overflows. -/
def NoOverflow (incrSize size : Nat) : Prop :=
  size + sizeofChunk < wordSize ∧
    (incrSize < size + sizeofChunk → size + sizeofChunk + incrSize + poolAlign < wordSize ∧
      (size + sizeofChunk + incrSize + poolAlign) / incrSize < 2 ^ 31)

instance (incrSize size : Nat) : Decidable (NoOverflow incrSize size) :=
  inferInstanceAs (Decidable (_ ∧ _))

section
variable {incrSize size : Nat} (small : NoOverflow incrSize size)

include small

theorem newChunkSize_incr (large : ¬ incrSize < size + sizeofChunk) :
    newChunkSize incrSize size = incrSize := by
  rw [newChunkSize, wrap_of_lt small.1, if_neg large]

/-- A request that is more than the increment is met with some bytes to spare. -/
theorem newChunkSize_counts (grows : 1 ≤ incrSize) (more : incrSize < size + sizeofChunk) :
    roundSize size + sizeofChunk ≤ newChunkSize incrSize size := by
  obtain ⟨word, count⟩ := small.2 more
  have below : size ≤ wordSize - poolAlign := by
    have := small.1
    simp only [sizeofChunk, poolAlign, wordSize] at *
    omega
  have rounded := (roundSize_bounds below).2
  rw [newChunkSize, wrap_of_lt small.1, if_pos more, wrap_of_lt word, throughInt_small count]
  generalize total : size + sizeofChunk + incrSize + poolAlign = n at *
  have whole := Nat.div_add_mod n incrSize
  have left := Nat.mod_lt n grows
  rw [wrap_of_lt (by omega)]
  omega

/-- The new chunk has room for the request. -/
theorem newChunkSize_iff (grows : 1 ≤ incrSize) :
    roundSize size + sizeofChunk ≤ newChunkSize incrSize size ↔
      incrSize < size + sizeofChunk ∨ roundSize size + sizeofChunk ≤ incrSize := by
  by_cases more : incrSize < size + sizeofChunk
  · exact ⟨fun _ => .inl more, fun _ => newChunkSize_counts small grows more⟩
  · rw [newChunkSize_incr small more]
    exact (or_iff_right more).symm

theorem newChunkSize_header (grows : 1 ≤ incrSize) :
    sizeofChunk ≤ newChunkSize incrSize size := by
  by_cases more : incrSize < size + sizeofChunk
  · exact (Nat.le_add_left _ _).trans (newChunkSize_counts small grows more)
  · rw [newChunkSize_incr small more]
    omega

end

open World

/-- **What growth is good for.** The policy has returned an aligned block. -/
theorem growth_serves_iff (policy : Policy) (maxCapacity : Nat) (w : World)
    (h : (alignedPool policy maxCapacity).Reachable w) (pool size addr : Nat)
    (contents : Nat → Byte) (used : pool ∈ w.helper.usedPools)
    (grows : 1 ≤ (w.pools pool).incrSize) (asked : 1 ≤ size)
    (small : NoOverflow (w.pools pool).incrSize size)
    (ok : w.heap.Admits ⟨addr, newChunkSize (w.pools pool).incrSize size, .chunk⟩)
    (aligned : addr % poolAlign = 0) :
    ∃ mem w', w.exec (.alloc pool size (.block addr contents)) = .ok (mem, w') ∧
      (mem ≠ 0 ↔ (∃ chunk ∈ (w.pools pool).chunks, roundSize size ≤ w.room chunk) ∨
        (w.pools pool).incrSize < size + sizeofChunk ∨
        roundSize size + sizeofChunk ≤ (w.pools pool).incrSize) := by
  have hw := reachable_orderly h
  have alive := hw.sound.used_live used
  have nonzero : size ≠ 0 := by omega
  have fits {chunk : Nat} (mine : chunk ∈ (w.pools pool).chunks) :
      w.Fits size chunk ↔ roundSize size ≤ w.room chunk :=
    hw.fits_iff (hw.sound.resident alive mine)
  have exec : w.exec (.alloc pool size (.block addr contents)) =
      w.poolAlloc pool size (.block addr contents) := if_pos used
  rw [exec]
  cases found : w.firstFit pool size with
  | some chunk =>
    obtain ⟨mine, enough⟩ := firstFit_some found
    rw [hw.poolAlloc_fits alive nonzero found]
    refine ⟨_, _, rfl, ?_⟩
    exact iff_of_true (hw.cursors alive chunk mine) (.inl ⟨chunk, mine, (fits mine).mp enough⟩)
  | none =>
    have header := newChunkSize_header small grows
    have none : ¬ ∃ chunk ∈ (w.pools pool).chunks, roundSize size ≤ w.room chunk := by
      rintro ⟨chunk, mine, enough⟩
      exact firstFit_none.mp found chunk mine ((fits mine).mpr enough)
    have factory := (hw.sound.intact pool).factory
    rw [hw.poolAlloc_full alive nonzero found, poolAllocGrow_ok factory (by omega) header ok,
      or_iff_right none, ← newChunkSize_iff small grows, ← grown_fits_iff ok header aligned]
    by_cases enough : (w.grown pool addr _ ok).Fits size addr
    · have positive : 0 < addr := ok.1.1
      rw [poolAllocFromChunk_fits nonzero enough, grown_header pool ok header aligned]
      refine ⟨_, _, rfl, ?_⟩
      exact iff_of_true (by dsimp only; omega) enough
    · rw [poolAllocFromChunk_misfits enough]
      refine ⟨_, _, rfl, ?_⟩
      exact iff_of_false (fun some => some rfl) enough

/-- A request that the first chunk has no room for, and an increment of 48 bytes. -/
theorem growth_serves_chunk : ∃ w : World, ∃ mem w',
    w.exec (.alloc 4096 96 (.block 8192 fun _ => 0)) = .ok (mem, w') ∧
      (mem ≠ 0 ↔ (∃ chunk ∈ (w.pools 4096).chunks, roundSize 96 ≤ w.room chunk) ∨
        (w.pools 4096).incrSize < 96 + sizeofChunk ∨
        roundSize 96 + sizeofChunk ≤ (w.pools 4096).incrSize) := by
  have incr : ((onePool 48).pools 4096).incrSize = 48 := by decide +kernel
  refine ⟨onePool 48, growth_serves_iff defaultPolicy 1000 _ (onePool_reachable 48) 4096 96 8192 _
    (by decide +kernel) ?_ (by decide) ?_ (by decide +kernel) (by decide)⟩
  · rw [incr]
    decide
  · rw [incr]
    decide

/-- One byte asked of a pool that is full and grows by 41 bytes: the new chunk has one byte,
and eight are needed. -/
theorem growth_too_small : ∃ w : World, (alignedPool defaultPolicy 1000).Reachable w ∧
    4096 ∈ w.helper.usedPools ∧ (w.pools 4096).incrSize = 41 ∧ NoOverflow 41 1 ∧
    w.heap.Admits ⟨8192, newChunkSize 41 1, .chunk⟩ ∧
    Prod.fst <$> w.exec (.alloc 4096 1 (.block 8192 fun _ => 0)) = .ok 0 := by
  let w := (onePool 41).after (.alloc 4096 88 .null)
  have run : (alignedPool defaultPolicy 1000).Reachable w :=
    (onePool_reachable 41).allow
      (short_step trivial
        (by decide +kernel : ((onePool 41).exec (.alloc 4096 88 .null)).isOk = true))
      nofun
  exact ⟨w, run, by decide +kernel, by decide +kernel, by decide, by decide +kernel,
    by decide +kernel⟩

/-! ## How much the caller gets -/

/-- The new chunk serves the request from its first byte on. -/
theorem grown_served {w w' : World} (hw : Orderly w) {pool addr n size mem : Nat}
    (alive : pool ∈ w.live) (ok : w.heap.Admits ⟨addr, n, .chunk⟩) (header : sizeofChunk ≤ n)
    (aligned : addr % poolAlign = 0) (asked : size ≠ 0) (nonnull : mem ≠ 0)
    (taken : (w.grown pool addr n ok).poolAllocFromChunk addr size = (mem, w')) :
    addr ∈ (w'.pools pool).chunks ∧ addr + sizeofChunk = mem ∧
      (w'.chunks addr).cur = mem + roundSize size ∧
      (w'.chunks addr).cur ≤ (w'.chunks addr).fin := by
  have hv := orderly_grown hw alive ok header aligned
  have start := grown_header pool ok header aligned
  have mine : addr ∈ ((w.grown pool addr n ok).pools pool).chunks := by
    rw [grown_chunks]
    exact List.mem_cons_self
  by_cases fits : (w.grown pool addr n ok).Fits size addr
  · rw [poolAllocFromChunk_fits asked fits, start] at taken
    cases taken
    obtain ⟨cur, fin⟩ := hv.take_cur (hv.sound.resident alive mine) fits
    rw [start] at cur
    exact ⟨mine, rfl, cur, fin⟩
  · rw [poolAllocFromChunk_misfits fits] at taken
    cases taken
    exact absurd rfl nonnull

/-- **The caller gets the rounded size**, which is less than the size exactly if the rounding
wraps. -/
theorem allocated_size (policy : Policy) (maxCapacity : Nat) (w : World)
    (h : (alignedPool policy maxCapacity).Reachable w) (pool size mem : Nat) (answer : Answer)
    (w' : World) (aligned : (Call.alloc pool size answer).Aligned) (asked : 1 ≤ size)
    (word : size < wordSize) (call : w.exec (.alloc pool size answer) = .ok (mem, w'))
    (nonnull : mem ≠ 0) :
    ∃ chunk ∈ (w'.pools pool).chunks,
      (chunk ∈ (w.pools pool).chunks → (w.chunks chunk).cur = mem) ∧
      (chunk ∉ (w.pools pool).chunks → chunk + sizeofChunk = mem) ∧
      (w'.chunks chunk).cur = mem + roundSize size ∧
      (w'.chunks chunk).cur ≤ (w'.chunks chunk).fin ∧
      (size ≤ (w'.chunks chunk).cur - mem ↔ size ≤ wordSize - poolAlign) := by
  have hw := reachable_orderly h
  have enough := le_roundSize_iff asked word
  have exec : w.exec (.alloc pool size answer) =
      if pool ∈ w.helper.usedPools then w.poolAlloc pool size answer else .error .ruledOut := rfl
  rw [exec] at call
  split at call
  · rename_i used
    have alive := hw.sound.used_live used
    cases poolAlloc_allocated hw alive call with
    | nothing none => exact absurd rfl nonnull
    | fits chunk asked found =>
      obtain ⟨mine, fits⟩ := firstFit_some found
      obtain ⟨cur, fin⟩ := hw.take_cur (hw.sound.resident alive mine) fits
      refine ⟨chunk, mine, fun _ => rfl, fun absent => absurd mine absent, cur, fin, ?_⟩
      rw [cur, Nat.add_sub_cancel_left, enough]
    | grows _ _ asked full grown =>
      cases grown with
      | fixed none => exact absurd rfl nonnull
      | refused room some null => exact absurd rfl nonnull
      | served addr room some gives ok _ _ taken =>
        have new := grown_new hw alive ok room
        obtain ⟨mine, start, cur, fin⟩ :=
          grown_served hw alive ok room (aligned addr gives) asked nonnull taken
        refine ⟨addr, mine, fun old => absurd old new, fun _ => start, cur, fin, ?_⟩
        rw [cur, Nat.add_sub_cancel_left, enough]
  · cases call

theorem allocated_size_thirteen : ∃ w w' : World, ∃ chunk ∈ (w'.pools 4096).chunks,
    (chunk ∈ (w.pools 4096).chunks → (w.chunks chunk).cur = 4264) ∧
    (w'.chunks chunk).cur = 4264 + roundSize 13 ∧ 13 ≤ (w'.chunks chunk).cur - 4264 := by
  have call := exec_after (by decide +kernel :
    Prod.fst <$> (onePool 0).exec (.alloc 4096 13 .null) = .ok 4264)
  obtain ⟨chunk, mine, old, _, cur, _, size⟩ := allocated_size defaultPolicy 1000 _
    (onePool_reachable 0) 4096 13 4264 .null _ nofun (by decide) (by decide) call (by decide)
  exact ⟨onePool 0, _, chunk, mine, old, cur, size.mpr (by decide)⟩

/-- A request of all but one of the bytes there are is met with none. -/
theorem allocated_nothing :
    (alignedPool defaultPolicy 1000).Reachable (onePool 0) ∧
    Prod.fst <$> (onePool 0).exec (.alloc 4096 (2 ^ 64 - 1) .null) = .ok 4264 ∧
    (onePool 0).chunks 4224 = ⟨4264, 4264, 4352⟩ ∧
    ((onePool 0).after (.alloc 4096 (2 ^ 64 - 1) .null)).chunks 4224 = ⟨4264, 4264, 4352⟩ :=
  ⟨onePool_reachable 0, by decide +kernel, by decide +kernel, by decide +kernel⟩

/-! ## Calls that fail -/

namespace World

/-- What callers can see of a helper and its pools is as before. -/
def SameBooks (w w' : World) : Prop :=
  w'.helper = w.helper ∧ w'.pools = w.pools ∧ w'.chunks = w.chunks

/-- An amount that has been counted shows. -/
theorem counted_usedSize {w : World} (counts : w.helper.policy.counts = true) {n : Nat}
    (pos : 0 < n) (word : n < wordSize) :
    (w.onChunkAlloc n).helper.usedSize ≠ w.helper.usedSize := by
  simp only [onChunkAlloc, counts, if_true]
  unfold wrap
  simp only [wordSize] at *
  omega

theorem change_policy {w w' : World} {call : Call} (h : Change call w w') :
    w'.helper.policy = w.helper.policy := by
  cases h with
  | refused => rfl
  | fresh => rfl
  | cached => rfl
  | take pool chunk size _ _ => rw [poolAllocFromChunk_helper]
  | grow => rfl
  | kept => rfl
  | discarded pool w' _ _ _ given =>
    obtain ⟨_, _, _, back⟩ := releasePool2_givenBack given
    obtain ⟨n, same⟩ := back.helper
    rw [same]
    rfl

/-- A failed `create_pool` has counted the block it did not get. -/
theorem createPool_failed {w w' : World} (hw : Orderly w) {initSize incrSize : Nat}
    {name : List Byte} {answer : Answer} (word : initSize < wordSize)
    (h : w.createPool name initSize incrSize answer = .ok (0, w')) :
    ∃ n, 0 < n ∧ n < wordSize ∧ w' = w.onChunkAlloc n := by
  obtain ⟨pos, size, fresh, _, bound⟩ | ⟨i, rest, front, _⟩ := createPool_cases h
  · obtain ⟨room, ⟨_, _, rfl⟩ | ⟨_, nonnull, _⟩⟩ := createFresh_cases fresh
    case inr => exact absurd rfl nonnull
    refine ⟨size, Nat.lt_of_lt_of_le (by decide) room, ?_, rfl⟩
    obtain ⟨inside, rfl⟩ | ⟨_, rfl⟩ := bound
    · exact (classSize_mono (Nat.le_pred_of_lt inside) (by decide)).trans_lt (by decide)
    · exact word
  · have listed : 0 ∈ w.helper.cached := by
      refine List.mem_flatMap.mpr ⟨i, List.mem_finRange i, ?_⟩
      rw [front]
      exact List.mem_cons_self
    have alive := hw.sound.listed.mem_iff.mp (List.mem_append_right _ listed)
    exact absurd rfl (live_ne_zero alive)

theorem newChunkSize_word {incrSize size : Nat} (word : incrSize < wordSize) :
    newChunkSize incrSize size < wordSize := by
  unfold newChunkSize
  split
  · exact Nat.mod_lt _ (by decide)
  · exact word

/-- A `pool_alloc` that fails has asked for memory, and counted it, if it could. -/
theorem poolAlloc_failed {w w' : World} (hw : Orderly w) {pool size : Nat} {answer : Answer}
    (alive : pool ∈ w.live) (aligned : (Call.alloc pool size answer).Aligned)
    (word : (w.pools pool).incrSize < wordSize)
    (h : w.poolAlloc pool size answer = .ok (0, w')) :
    (size = 0 ∨ (w.pools pool).incrSize = 0) ∧ w' = w ∨
    ¬ (size = 0 ∨ (w.pools pool).incrSize = 0) ∧ ∃ n, 0 < n ∧ n < wordSize ∧
      w'.helper = (w.onChunkAlloc n).helper := by
  generalize null : 0 = mem at h
  cases poolAlloc_allocated hw alive h with
  | nothing none => exact .inl ⟨.inl none, rfl⟩
  | fits chunk asked found =>
    exact absurd null.symm (hw.cursors alive chunk (firstFit_some found).1)
  | grows _ _ asked full grown =>
    have positive (room : sizeofChunk ≤ newChunkSize (w.pools pool).incrSize size) :
        0 < newChunkSize (w.pools pool).incrSize size := Nat.lt_of_lt_of_le (by decide) room
    cases grown with
    | fixed none => exact .inl ⟨.inr none, rfl⟩
    | refused room some _ =>
      exact .inr ⟨not_or.mpr ⟨asked, some⟩, _, positive room, newChunkSize_word word, rfl⟩
    | served addr room some gives ok _ _ taken =>
      change (w.grown pool addr _ ok).poolAllocFromChunk addr size = _ at taken
      by_cases fits : (w.grown pool addr _ ok).Fits size addr
      · rw [poolAllocFromChunk_fits asked fits,
          grown_header pool ok room (aligned addr gives)] at taken
        have start : addr + sizeofChunk = mem := congrArg Prod.fst taken
        have header : 0 < sizeofChunk := by decide
        omega
      · rw [poolAllocFromChunk_misfits fits] at taken
        cases taken
        exact .inr ⟨not_or.mpr ⟨asked, some⟩, _, positive room, newChunkSize_word word, rfl⟩

end World

theorem reachable_policy {policy : Policy} {maxCapacity : Nat} {w : World}
    (h : (alignedPool policy maxCapacity).Reachable w) : w.helper.policy = policy := by
  have both : Sound w ∧ w.helper.policy = policy := by
    apply System.invariant _ _ _ h
    · rintro w rfl
      exact ⟨sound_init policy maxCapacity, rfl⟩
    · rintro w call w' hw ⟨_, short, result, step⟩
      apply exec_keeps _ short hw step
      intro v v' _ _ hv change
      exact (change_policy change).trans hv
  exact both.2

/-- The calls that can fail without asking the policy for memory. -/
def Call.Quiet (w : World) : Call → Prop
  | .create _ _ _ _ => False
  | .alloc pool size _ => size = 0 ∨ (w.pools pool).incrSize = 0
  | .release _ => True

/-- The sizes in a call are 64-bit words. -/
def Call.Words : Call → Prop
  | .create _ initSize incrSize _ => initSize < wordSize ∧ incrSize < wordSize
  | .alloc _ size _ => size < wordSize
  | .release _ => True

/-- The helper with aligned blocks and sizes that are words. -/
def wordPool (policy : Policy) (maxCapacity : Nat) : System World Call :=
  (alignedPool policy maxCapacity).restrict fun _ call => call.Words

namespace World

/-- The increments of all pools are words. -/
def Increments (w : World) : Prop := ∀ pool, (w.pools pool).incrSize < wordSize

theorem increments_update {w w' : World} (all : Increments w) {pool : Nat} {p : Pool}
    (pools : w'.pools = Function.update w.pools pool p) (word : p.incrSize < wordSize) :
    Increments w' := by
  intro q
  rw [pools]
  by_cases here : q = pool
  · subst here
    rw [Function.update_self]
    exact word
  · rw [Function.update_of_ne here]
    exact all q

theorem increments_enlist {w : World} (all : Increments w) (pool pos : Nat) :
    Increments (w.enlist pool pos) :=
  increments_update all rfl (all pool)

theorem exec_increments {w w' : World} {call : Call} {result : Nat} (short : call.Short)
    (words : call.Words) (all : Increments w) (h : w.exec call = .ok (result, w')) :
    Increments w' := by
  cases call with
  | create name initSize incrSize answer =>
    cases createPool_created short h with
    | refused => exact all
    | fresh _ size pos written _ ok =>
      apply increments_enlist
      exact increments_update all rfl words.2
    | cached i _ rest written =>
      apply increments_enlist
      exact increments_update all rfl words.2
  | alloc pool size answer =>
    simp only [exec] at h
    split at h
    · refine (poolAlloc_served (P := Increments) ?_ ?_ ?_ all h).1
      · intro v chunk hv _ q
        rw [poolAllocFromChunk_pools]
        exact hv q
      · intro v n _ hv
        exact hv
      · intro v addr n ok _ _ hv
        exact increments_update hv rfl (hv pool)
    · cases h
  | release pool =>
    simp only [exec] at h
    cases released : w.releasePool pool with
    | error fault =>
      rw [released] at h
      cases h
    | ok w₁ =>
      rw [released] at h
      cases h
      cases releasePool_released released with
      | unknown => exact all
      | kept => exact all
      | discarded _ used discard given =>
        obtain ⟨_, _, _, back⟩ := releasePool2_givenBack given
        intro q
        rw [back.pools]
        exact all q

end World

theorem reachable_increments {policy : Policy} {maxCapacity : Nat} {w : World}
    (h : (wordPool policy maxCapacity).Reachable w) : Increments w := by
  apply System.invariant _ _ _ h
  · rintro w rfl pool
    exact Nat.two_pow_pos 64
  · rintro w call w' all ⟨words, _, short, result, step⟩
    exact exec_increments short words all step

/-- **What a failed call leaves.** It leaves everything as it was exactly if it did not come to
ask for memory. -/
theorem failed_call_iff (policy : Policy) (two : policy = defaultPolicy ∨ policy = newPolicy)
    (maxCapacity : Nat) (w : World) (h : (wordPool policy maxCapacity).Reachable w)
    (call : Call) (asks : ∀ pool, call ≠ .release pool) (aligned : call.Aligned)
    (words : call.Words) (w' : World) (failed : w.exec call = .ok (0, w')) :
    SameBooks w w' ↔ call.Quiet w := by
  have run := System.restrict_reachable _ h
  have hw := reachable_orderly run
  have counts : w.helper.policy.counts = true := by
    rw [reachable_policy run]
    obtain rfl | rfl := two
    · rfl
    · rfl
  have counted {n : Nat} (pos : 0 < n) (word : n < wordSize)
      (helper : w'.helper = (w.onChunkAlloc n).helper) : ¬ SameBooks w w' := by
    intro same
    apply counted_usedSize counts pos word
    rw [← helper, same.1]
  cases call with
  | create name initSize incrSize answer =>
    obtain ⟨n, pos, word, rfl⟩ := createPool_failed hw words.1 failed
    exact iff_of_false (counted pos word rfl) id
  | alloc pool size answer =>
    have exec : w.exec (.alloc pool size answer) =
        if pool ∈ w.helper.usedPools then w.poolAlloc pool size answer else .error .ruledOut := rfl
    rw [exec] at failed
    split at failed
    · rename_i used
      obtain ⟨quiet, rfl⟩ | ⟨asked, n, pos, word, helper⟩ :=
        poolAlloc_failed hw (hw.sound.used_live used) aligned (reachable_increments h pool) failed
      · exact iff_of_true ⟨rfl, rfl, rfl⟩ quiet
      · exact iff_of_false (counted pos word helper) asked
    · cases failed
  | release pool => exact absurd rfl (asks pool)

/-- A pool that does not grow. -/
theorem failed_call_fixed : ∃ w w' : World,
    w.exec (.alloc 4096 96 .null) = .ok (0, w') ∧ SameBooks w w' := by
  have call := exec_after (by decide +kernel :
    Prod.fst <$> (onePool 0).exec (.alloc 4096 96 .null) = .ok 0)
  have incr : ((onePool 0).pools 4096).incrSize = 0 := by decide +kernel
  have word : (96 : Nat) < wordSize := by decide
  have run : (wordPool defaultPolicy 1000).Reachable (onePool 0) :=
    (System.Reachable.start rfl).allow ⟨Call.aligned_create rfl [] 200 0 _,
      short_step (Nat.zero_le _) rfl⟩ ⟨by decide, by decide⟩
  refine ⟨onePool 0, _, call, (failed_call_iff defaultPolicy (.inl rfl) 1000 _ run
    (.alloc 4096 96 .null) nofun ?_ word _ call).mpr (.inr incr)⟩
  · rintro addr ⟨_, gives⟩
    cases gives

/-- The first pool of a helper is refused, and counted. -/
theorem failed_call_counted : ∃ w w' : World, (wordPool defaultPolicy 1000).Reachable w ∧
    w.exec (.create [] 200 0 .null) = .ok (0, w') ∧
    w.helper.usedSize = 0 ∧ w'.helper.usedSize = 256 :=
  ⟨init defaultPolicy 1000, _, .start rfl, rfl, rfl, rfl⟩

end Libatp.Pools
