import Libatp.Pools.Layout
import Mathlib.Algebra.Order.Group.Nat

/-!
# The books of a helper

A pool's capacity is the sum of the blocks it owns. Blocks are apart, so sums of
capacities fit in a word, and neither the capacity of the helper nor the test in
`release_pool__` ever wraps.
-/

namespace Libatp.Pools
open Base

namespace World

/-- The bytes in the blocks of a pool. -/
def owned (w : World) (pool : Nat) : Nat :=
  ((w.heap.outstanding.filter (chunkAddr · ∈ (w.pools pool).chunks)).map Block.size).sum

structure Measured (w : World) : Prop where
  exact : ∀ pool ∈ w.live, (w.pools pool).capacity = w.owned pool
  classed : ∀ pool ∈ w.live, (w.pools pool).data < cachingSize →
    classSize (w.pools pool).data ≤ (w.pools pool).capacity

structure Consistent (w : World) : Prop where
  count : w.helper.usedCount = w.helper.usedPools.length
  capacity : w.helper.capacity = (w.helper.cached.map fun pool => (w.pools pool).capacity).sum
  bounded : w.helper.capacity ≤ w.helper.maxCapacity
  filed : ∀ i, ∀ pool ∈ w.helper.freePools i, (w.pools pool).data = i ∧
    (w.pools pool).capacity ≤ classSize (cachingSize - 1)

theorem capacities_le {w : World} (hs : Sound w) (hm : Measured w) {pools : List Nat}
    (once : pools.Nodup) (alive : ∀ pool ∈ pools, pool ∈ w.live) :
    (pools.map fun pool => (w.pools pool).capacity).sum ≤ w.heap.total := by
  have measured : pools.map (fun pool => (w.pools pool).capacity) = pools.map w.owned := by
    apply List.map_congr_left
    intro pool hpool
    exact hm.exact pool (alive pool hpool)
  rw [measured]
  apply sum_owned_le Block.size (fun pool b => decide (chunkAddr b ∈ (w.pools pool).chunks)) once
  intro b _ p hp q hq mine yours
  exact hs.unshared p (alive p hp) q (alive q hq) _ (of_decide_eq_true mine)
    (of_decide_eq_true yours)

theorem Sound.used_lt {w : World} (hs : Sound w) : w.helper.usedPools.length < wordSize := by
  have sizes : w.heap.outstanding.length ≤ w.heap.total := by
    have each := List.length_le_sum_of_one_le (w.heap.outstanding.map Block.size) (by
      intro n hn
      obtain ⟨b, hb, rfl⟩ := List.mem_map.mp hn
      exact (w.heap.proper b hb).2.1)
    rwa [List.length_map] at each
  calc w.helper.usedPools.length ≤ w.helper.listed.length := by simp [PoolHelper.listed]
    _ = w.live.length := hs.listed.length_eq
    _ ≤ w.heap.outstanding.length := by unfold live; simp [List.length_filter_le]
    _ ≤ w.heap.total := sizes
    _ < wordSize := w.heap.total_lt

theorem Sound.cached_live {w : World} (hs : Sound w) {pool : Nat} (h : pool ∈ w.helper.cached) :
    pool ∈ w.live :=
  hs.listed.mem_iff.mp (List.mem_append_right _ h)

theorem mem_allLists {lists : Fin cachingSize → List Nat} {i : Fin cachingSize} {pool : Nat}
    (h : pool ∈ lists i) : pool ∈ allLists lists :=
  List.mem_flatMap.mpr ⟨i, List.mem_finRange i, h⟩

theorem Sound.used_uncached {w : World} (hs : Sound w) {pool : Nat}
    (used : pool ∈ w.helper.usedPools) : pool ∉ w.helper.cached := by
  intro cached
  have once := hs.nodup_listed
  rw [PoolHelper.listed, List.nodup_append] at once
  exact once.2.2 pool used pool cached rfl

/-! ## Pools -/

theorem owned_cons {w w' : World} {b : Block Use} (pool : Nat)
    (heap : w'.heap.outstanding = b :: w.heap.outstanding) :
    w'.owned pool = (if chunkAddr b ∈ (w'.pools pool).chunks then b.size else 0) +
      ((w.heap.outstanding.filter (chunkAddr · ∈ (w'.pools pool).chunks)).map Block.size).sum := by
  unfold owned
  rw [heap, List.filter_cons]
  by_cases mine : chunkAddr b ∈ (w'.pools pool).chunks
  · simp [mine]
  · simp [mine]

/-- A pool that keeps its chunks does not own a new block. -/
theorem owned_other {w w' : World} (hs : Sound w) {b : Block Use}
    (new : chunkAddr b ∉ w.heap.outstanding.map chunkAddr)
    (heap : w'.heap.outstanding = b :: w.heap.outstanding) {pool : Nat} (hpool : pool ∈ w.live)
    (chunks : (w'.pools pool).chunks = (w.pools pool).chunks) : w'.owned pool = w.owned pool := by
  rw [owned_cons pool heap, chunks, if_neg (hs.absent new hpool), Nat.zero_add]
  rfl

theorem measured_fresh {w : World} (hs : Sound w) (hm : Measured w) {pool size : Nat}
    (incrSize pos : Nat) (name : List Byte) (ok : w.heap.Admits ⟨pool, size, .pool⟩)
    (room : sizeofPool + sizeofChunk ≤ size) (exact : pos < cachingSize → size = classSize pos) :
    Measured (((w.granted _ ok).initPool pool size incrSize name).enlist pool pos) := by
  let w' := ((w.granted _ ok).initPool pool size incrSize name).enlist pool pos
  have new : pool + sizeofPool ∉ w.heap.outstanding.map chunkAddr :=
    hs.fresh_chunk ok (by simp only [chunkAddr, Block.fin]; omega)
  have mine : w'.pools pool = ⟨name, size, incrSize, pos, true, true, [pool + sizeofPool]⟩ := by
    simp [w', enlist, initPool]
  have old : ∀ p ∈ w.live, w'.pools p = w.pools p := by
    intro p hp
    have other : p ≠ pool := fun same => Sound.fresh_pool ok (same ▸ hp)
    simp [w', enlist, initPool, granted, onChunkAlloc, Function.update_of_ne other]
  constructor
  · intro p hp
    change (w'.pools p).capacity = w'.owned p
    rcases List.mem_cons.mp hp with rfl | hp
    · have none : w.heap.outstanding.filter (chunkAddr · ∈ [p + sizeofPool]) = [] := by
        rw [List.filter_eq_nil_iff]
        intro c hc here
        have same := List.mem_singleton.mp (of_decide_eq_true here)
        exact new (same ▸ List.mem_map_of_mem hc)
      have header : chunkAddr ⟨p, size, .pool⟩ ∈ [p + sizeofPool] := List.mem_singleton.mpr rfl
      rw [owned_cons p rfl, mine]
      dsimp only
      rw [none, if_pos header]
      rfl
    · rw [owned_other (b := ⟨pool, size, .pool⟩) hs new rfl hp (by rw [old p hp]), old p hp]
      exact hm.exact p hp
  · intro p hp inside
    change classSize (w'.pools p).data ≤ (w'.pools p).capacity
    change (w'.pools p).data < cachingSize at inside
    rcases List.mem_cons.mp hp with rfl | hp
    · rw [mine] at inside ⊢
      exact (exact inside).ge
    · rw [old p hp] at inside ⊢
      exact hm.classed p hp inside

/-- A new chunk adds its size to what its pool owns. -/
theorem owned_grow {w : World} {pool addr n : Nat} (ok : w.heap.Admits ⟨addr, n, .chunk⟩)
    (new : addr ∉ w.heap.outstanding.map chunkAddr) :
    ((w.granted _ ok).appendChunk pool addr n).owned pool = w.owned pool + n := by
  have same : w.heap.outstanding.filter (chunkAddr · ∈ addr :: (w.pools pool).chunks) =
      w.heap.outstanding.filter (chunkAddr · ∈ (w.pools pool).chunks) := by
    apply List.filter_congr
    intro c hc
    have other : chunkAddr c ≠ addr := fun here => new (here ▸ List.mem_map_of_mem hc)
    simp [other]
  rw [owned_cons pool rfl, appendChunk_chunks, if_pos rfl, same,
    if_pos (by exact List.mem_cons_self), Nat.add_comm]
  rfl

theorem measured_grow {w : World} (hs : Sound w) (hm : Measured w) {pool addr n : Nat}
    (hpool : pool ∈ w.live) (ok : w.heap.Admits ⟨addr, n, .chunk⟩) (room : sizeofChunk ≤ n) :
    ((((w.granted _ ok).appendChunk pool addr n).pools pool).capacity =
      (w.pools pool).capacity + n) ∧
    Measured ((w.granted _ ok).appendChunk pool addr n) := by
  let w' := (w.granted _ ok).appendChunk pool addr n
  have new : addr ∉ w.heap.outstanding.map chunkAddr :=
    hs.fresh_chunk ok (by simp only [chunkAddr, Block.fin]; omega)
  have old : ∀ p, p ≠ pool → w'.pools p = w.pools p := by
    intro p other
    simp [w', appendChunk, granted, onChunkAlloc, Function.update_of_ne other]
  have grown : w'.owned pool = w.owned pool + n := owned_grow ok new
  have fits : w'.owned pool ≤ w'.heap.total :=
    (List.filter_sublist.map _).sum_le_sum (by simp)
  have capacity : (w'.pools pool).capacity = (w.pools pool).capacity + n := by
    have below := w'.heap.total_lt
    have sum : (w'.pools pool).capacity = wrap ((w.pools pool).capacity + n) := by
      simp [w', appendChunk, granted, onChunkAlloc]
    rw [sum, hm.exact pool hpool, wrap_of_lt (by omega)]
  refine ⟨capacity, ?_, ?_⟩
  · intro p hp
    change (w'.pools p).capacity = w'.owned p
    by_cases here : p = pool
    · subst here
      rw [capacity, grown, hm.exact p hpool]
    · rw [owned_other (b := ⟨addr, n, .chunk⟩) hs new rfl hp (by rw [old p here]), old p here]
      exact hm.exact p hp
  · intro p hp inside
    change classSize (w'.pools p).data ≤ (w'.pools p).capacity
    change (w'.pools p).data < cachingSize at inside
    by_cases here : p = pool
    · subst here
      have data : (w'.pools p).data = (w.pools p).data := by
        simp [w', appendChunk, granted, onChunkAlloc]
      rw [data] at inside ⊢
      rw [capacity]
      exact (hm.classed p hp inside).trans (Nat.le_add_right _ _)
    · rw [old p here] at inside ⊢
      exact hm.classed p hp inside

theorem measured_discarded {w w' : World} (hs : Sound w) (hm : Measured w) {pool : Nat}
    (used : pool ∈ w.helper.usedPools) (given : (w.delist pool).releasePool2 pool = .ok w') :
    Measured w' := by
  obtain ⟨first, rest, chunks, back⟩ := releasePool2_givenBack given
  have alive := discarded_live hs used chunks back
  have same : ∀ p ∈ w'.live, w'.owned p = w.owned p := by
    intro p hp
    obtain ⟨old, other⟩ := (alive p).mp hp
    unfold owned
    rw [back.outstanding, back.pools, List.filter_filter]
    congr 2
    apply List.filter_congr
    intro b hb
    by_cases mine : chunkAddr b ∈ (w.pools p).chunks
    · have kept := hs.spared old (hs.used_live used) other chunks hb mine
      simp [delist, mine, kept]
    · simp [delist, mine]
  constructor
  · intro p hp
    rw [same p hp, back.pools]
    exact hm.exact p ((alive p).mp hp).1
  · intro p hp
    rw [back.pools]
    exact hm.classed p ((alive p).mp hp).1

theorem measured_congr {w w' : World} (hm : Measured w) (heap : w'.heap = w.heap)
    (pools : ∀ p, (w'.pools p).capacity = (w.pools p).capacity ∧
      (w'.pools p).data = (w.pools p).data ∧ (w'.pools p).chunks = (w.pools p).chunks) :
    Measured w' := by
  have alive : w'.live = w.live := by unfold live; rw [heap]
  constructor
  · intro p hp
    rw [alive] at hp
    rw [owned, heap, (pools p).1, (pools p).2.2]
    exact hm.exact p hp
  · intro p hp
    rw [alive] at hp
    rw [(pools p).1, (pools p).2.1]
    exact hm.classed p hp

/-! ## Lists -/

theorem consistent_congr {w w' : World} (hc : Consistent w)
    (count : w'.helper.usedCount = w'.helper.usedPools.length)
    (lists : w'.helper.freePools = w.helper.freePools)
    (capacity : w'.helper.capacity = w.helper.capacity)
    (most : w'.helper.maxCapacity = w.helper.maxCapacity)
    (pools : ∀ p ∈ w.helper.cached, (w'.pools p).capacity = (w.pools p).capacity ∧
      (w'.pools p).data = (w.pools p).data) : Consistent w' := by
  constructor
  · exact count
  · have same : w'.helper.cached.map (fun p => (w'.pools p).capacity) =
        w.helper.cached.map (fun p => (w.pools p).capacity) := by
      rw [PoolHelper.cached, lists]
      exact List.map_congr_left fun p hp => (pools p hp).1
    rw [capacity, same]
    exact hc.capacity
  · rw [capacity, most]
    exact hc.bounded
  · intro i p hp
    rw [lists] at hp
    obtain ⟨cap, data⟩ := pools p (mem_allLists hp)
    rw [cap, data]
    exact hc.filed i p hp

theorem count_enlist {w : World} {pool pos : Nat} (hs : Sound (w.enlist pool pos))
    (count : w.helper.usedCount = w.helper.usedPools.length) :
    (w.enlist pool pos).helper.usedCount = (w.enlist pool pos).helper.usedPools.length := by
  have fits : w.helper.usedPools.length + 1 < wordSize := hs.used_lt
  change wrap (w.helper.usedCount + 1) = w.helper.usedPools.length + 1
  rw [count, wrap_of_lt fits]

theorem count_delist {w : World} {pool : Nat} (hs : Sound w)
    (used : pool ∈ w.helper.usedPools)
    (count : w.helper.usedCount = w.helper.usedPools.length) :
    (w.delist pool).helper.usedCount = (w.delist pool).helper.usedPools.length := by
  have some := List.length_pos_of_mem used
  change wsub w.helper.usedCount 1 = (w.helper.usedPools.erase pool).length
  rw [List.length_erase_of_mem used, count, wsub_of_le some hs.used_lt]

/-- A pool taken from the free list of its class keeps all but its name and its
increment. -/
theorem reuse_same {w : World} {i : Fin cachingSize} {pool : Nat} {rest : List Nat}
    (hc : Consistent w) (front : w.helper.freePools i = pool :: rest) (incrSize : Nat)
    (name : List Byte) (p : Nat) :
    let w' := (w.reusePool i pool rest incrSize name).enlist pool i
    (w'.pools p).capacity = (w.pools p).capacity ∧ (w'.pools p).data = (w.pools p).data ∧
      (w'.pools p).chunks = (w.pools p).chunks := by
  by_cases here : p = pool
  · subst here
    have data := (hc.filed i p (by rw [front]; exact List.mem_cons_self)).1
    simp [enlist, reusePool, data]
  · simp [enlist, reusePool, Function.update_of_ne here]

theorem consistent_cached {w : World} (hc : Consistent w) {i : Fin cachingSize} {pool : Nat}
    {rest : List Nat} (front : w.helper.freePools i = pool :: rest) (incrSize : Nat)
    (name : List Byte) (hs : Sound ((w.reusePool i pool rest incrSize name).enlist pool i)) :
    Consistent ((w.reusePool i pool rest incrSize name).enlist pool i) := by
  let w' := (w.reusePool i pool rest incrSize name).enlist pool i
  have same := reuse_same hc front incrSize name
  have sum : w.helper.capacity = (w.pools pool).capacity +
      (w'.helper.cached.map fun p => (w.pools p).capacity).sum := by
    have popped := (allLists_pop w.helper.freePools i pool front).map fun p => (w.pools p).capacity
    rw [hc.capacity]
    exact popped.sum_eq
  have left : w'.helper.capacity = (w'.helper.cached.map fun p => (w.pools p).capacity).sum := by
    change (if (w.pools pool).capacity < w.helper.capacity then _ else _) = _
    split <;> omega
  have caps : w'.helper.cached.map (fun p => (w'.pools p).capacity) =
      w'.helper.cached.map (fun p => (w.pools p).capacity) :=
    List.map_congr_left fun p _ => (same p).1
  constructor
  · exact count_enlist hs hc.count
  · change w'.helper.capacity = (w'.helper.cached.map fun p => (w'.pools p).capacity).sum
    rw [caps]
    exact left
  · have bounded := hc.bounded
    change w'.helper.capacity ≤ w.helper.maxCapacity
    omega
  · intro j p hp
    have old : p ∈ w.helper.freePools j := by
      change p ∈ Function.update w.helper.freePools i rest j at hp
      by_cases here : j = i
      · subst here
        rw [Function.update_self] at hp
        rw [front]
        exact List.mem_cons_of_mem _ hp
      · rwa [Function.update_of_ne here] at hp
    rw [(same p).1, (same p).2.1]
    exact hc.filed j p old

theorem consistent_kept {w : World} (hs : Sound w) (hm : Measured w) (hc : Consistent w)
    {i : Fin cachingSize} {pool : Nat} (used : pool ∈ w.helper.usedPools)
    (data : (w.pools pool).data = i) (keep : ¬ (w.delist pool).Discards pool) :
    Consistent ((w.delist pool).cachePool i pool) := by
  let w' := (w.delist pool).cachePool i pool
  obtain ⟨_, within, small⟩ := not_or.mp keep |>.imp_right not_or.mp
  have fits : (w.pools pool).capacity + w.helper.capacity < wordSize := by
    have once : (pool :: w.helper.cached).Nodup := by
      refine List.nodup_cons.mpr ⟨hs.used_uncached used, ?_⟩
      exact hs.nodup_listed.sublist (List.sublist_append_right _ _)
    have sum := capacities_le hs hm once (by
      intro p hp
      rcases List.mem_cons.mp hp with rfl | cached
      · exact hs.used_live used
      · exact hs.cached_live cached)
    rw [List.map_cons, List.sum_cons, ← hc.capacity] at sum
    exact sum.trans_lt w.heap.total_lt
  have capacity : w'.helper.capacity = (w.pools pool).capacity + w.helper.capacity := by
    change wrap (w.helper.capacity + (w.pools pool).capacity) = _
    rw [Nat.add_comm, wrap_of_lt fits]
  constructor
  · exact count_delist hs used hc.count
  · have pushed := (allLists_push w.helper.freePools i pool).map fun p => (w.pools p).capacity
    change w'.helper.capacity = ((allLists _).map fun p => (w.pools p).capacity).sum
    rw [capacity, hc.capacity]
    exact pushed.sum_eq.symm
  · change w'.helper.capacity ≤ w.helper.maxCapacity
    change ¬ w.helper.maxCapacity < wrap ((w.pools pool).capacity + w.helper.capacity) at within
    rw [wrap_of_lt fits] at within
    omega
  · intro j p hp
    change p ∈ Function.update w.helper.freePools i (w.helper.freePools i ++ [pool]) j at hp
    change (w.pools p).data = j ∧ (w.pools p).capacity ≤ _
    by_cases here : j = i
    · subst here
      rw [Function.update_self, List.mem_append, List.mem_singleton] at hp
      rcases hp with old | rfl
      · exact hc.filed j p old
      · exact ⟨data, Nat.le_of_not_lt small⟩
    · rw [Function.update_of_ne here] at hp
      exact hc.filed j p hp

/-! ## Whole runs -/

theorem change_booked {w w' : World} {call : Call} (hs : Sound w)
    (hw : Measured w ∧ Consistent w) (h : Change call w w') : Measured w' ∧ Consistent w' := by
  obtain ⟨hm, hc⟩ := hw
  have sound := change_sound hs h
  cases h with
  | refused n _ =>
    exact ⟨measured_congr hm rfl fun _ => ⟨rfl, rfl, rfl⟩,
      consistent_congr hc hc.count rfl rfl rfl fun _ _ => ⟨rfl, rfl⟩⟩
  | fresh pool size incrSize pos name _ ok room _ exact =>
    refine ⟨measured_fresh hs hm incrSize pos name ok room exact,
      consistent_congr hc (count_enlist sound hc.count) rfl rfl rfl ?_⟩
    intro p hp
    have other : p ≠ pool := fun same => Sound.fresh_pool ok (same ▸ hs.cached_live hp)
    simp [enlist, initPool, granted, onChunkAlloc, Function.update_of_ne other]
  | cached i pool incrSize rest name front =>
    exact ⟨measured_congr hm rfl (reuse_same hc front incrSize name),
      consistent_cached hc front incrSize name sound⟩
  | take pool chunk size _ _ =>
    exact ⟨measured_congr hm (by simp) (by simp),
      consistent_congr hc (by simpa using hc.count) (by simp) (by simp) (by simp) (by simp)⟩
  | grow pool addr n _ used ok room =>
    refine ⟨(measured_grow hs hm (hs.used_live used) ok room).2,
      consistent_congr hc hc.count rfl rfl rfl ?_⟩
    intro p hp
    have other : p ≠ pool := fun same => hs.used_uncached used (same ▸ hp)
    simp [appendChunk, granted, onChunkAlloc, Function.update_of_ne other]
  | kept i pool used data keep =>
    exact ⟨measured_congr hm rfl fun _ => ⟨rfl, rfl, rfl⟩, consistent_kept hs hm hc used data keep⟩
  | discarded pool w' _ used _ given =>
    refine ⟨measured_discarded hs hm used given, ?_⟩
    obtain ⟨_, _, _, back⟩ := releasePool2_givenBack given
    obtain ⟨n, helper⟩ := back.helper
    have count := count_delist hs used hc.count
    apply consistent_congr hc
    · rw [helper]
      exact count
    · rw [helper]
      rfl
    · rw [helper]
      rfl
    · rw [helper]
      rfl
    · intro p _
      rw [back.pools]
      exact ⟨rfl, rfl⟩

end World

open World

theorem reachable_booked {policy : Policy} {maxCapacity : Nat} {w : World}
    (h : (shortPool policy maxCapacity).Reachable w) :
    Sound w ∧ Measured w ∧ Consistent w := by
  apply System.invariant _ _ _ h
  · rintro w rfl
    refine ⟨sound_init policy maxCapacity, ⟨nofun, nofun⟩, rfl, ?_, Nat.zero_le _, nofun⟩
    simp [init, PoolHelper.cached, allLists]
  · rintro w call w' hw ⟨short, result, step⟩
    apply exec_keeps _ short hw step
    intro v v' _ hs hv change
    exact change_booked hs hv change

/-- A pool that `create_pool` returns is in use and has what was asked for. -/
theorem createPool_enough {w w' : World} (hm : Measured w) (hc : Consistent w) (hs : Sound w)
    {name : List Byte} {initSize incrSize pool : Nat} {answer : Answer}
    (short : name.length ≤ poolName)
    (h : w.createPool name initSize incrSize answer = .ok (pool, w')) (some : pool ≠ 0) :
    pool ∈ w'.helper.usedPools ∧ initSize ≤ (w'.pools pool).capacity := by
  cases createPool_created short h with
  | refused => exact absurd rfl some
  | fresh _ size pos name _ ok _ enough _ _ =>
    refine ⟨List.mem_cons_self, enough.trans (le_of_eq ?_)⟩
    simp [enlist, initPool]
  | cached i _ rest name front enough =>
    have here : pool ∈ w.helper.freePools i := by rw [front]; exact List.mem_cons_self
    have alive := hs.cached_live (mem_allLists here)
    have data := (hc.filed i pool here).1
    have size := hm.classed pool alive (by rw [data]; exact i.isLt)
    refine ⟨List.mem_cons_self, ?_⟩
    rw [(reuse_same hc front incrSize name pool).1]
    rw [data] at size
    exact enough.trans size

/-- **The helper's books are right** in every run with names that fit: each live pool is in one list
and once, the counters are those of the lists, and cached pools are large enough
for their class. -/
theorem helper_consistent (policy : Policy) (maxCapacity : Nat) (w : World)
    (h : (shortPool policy maxCapacity).Reachable w) :
    (w.helper.listed.Perm w.live ∧ w.live.Nodup) ∧
    w.helper.usedCount = w.helper.usedPools.length ∧
    w.helper.capacity = (w.helper.cached.map fun pool => (w.pools pool).capacity).sum ∧
    w.helper.capacity ≤ w.helper.maxCapacity ∧
    (∀ i, ∀ pool ∈ w.helper.freePools i, classSize i ≤ (w.pools pool).capacity ∧
      (w.pools pool).capacity ≤ 65535) ∧
    (∀ name initSize incrSize answer pool w', name.length ≤ poolName →
      w.createPool name initSize incrSize answer = .ok (pool, w') → pool ≠ 0 →
      pool ∈ w'.helper.usedPools ∧ initSize ≤ (w'.pools pool).capacity) ∧
    (∀ pool, pool ≠ 0 → pool ∉ w.helper.usedPools → w.releasePool pool = .ok w) := by
  obtain ⟨hs, hm, hc⟩ := reachable_booked h
  refine ⟨⟨hs.listed, w.nodup_live⟩, hc.count, hc.capacity, hc.bounded, ?_, ?_, ?_⟩
  · intro i pool hpool
    obtain ⟨data, small⟩ := hc.filed i pool hpool
    have large := hm.classed pool (hs.cached_live (mem_allLists hpool)) (by rw [data]; exact i.isLt)
    rw [data] at large
    exact ⟨large, small⟩
  · intro name initSize incrSize answer pool w' short created some
    exact createPool_enough hm hc hs short created some
  · intro pool some unused
    unfold releasePool
    rw [require_true some, ok_bind, if_neg unused]

/-- A pool created and released is cached. -/
theorem helper_consistent_cached : ∃ w : World, w.helper.cached = [4096] ∧
    w.helper.listed.Perm w.live ∧ w.helper.usedCount = w.helper.usedPools.length ∧
    w.helper.capacity = (w.helper.cached.map fun pool => (w.pools pool).capacity).sum ∧
    w.helper.capacity = 256 := by
  let create : Call := .create [] 200 0 (.block 4096 fun _ => 0)
  let w₁ := (init defaultPolicy 1000).after create
  let w₂ := w₁.after (.release 4096)
  have run : (shortPool defaultPolicy 1000).Reachable w₂ :=
    (System.Reachable.start rfl).next (short_step (Nat.zero_le _)
      (by decide +kernel : ((init defaultPolicy 1000).exec create).isOk = true))
    |>.next (short_step trivial (by decide +kernel : (w₁.exec (.release 4096)).isOk = true))
  have books := helper_consistent defaultPolicy 1000 w₂ run
  exact ⟨w₂, by decide +kernel, books.1.1, books.2.1, books.2.2.1, by decide +kernel⟩

/-- A name of 65 bytes: its last byte is written over the first one of `capacity_`, and the
pool that was asked for with 16484 bytes says it has fewer. -/
theorem long_name_capacity : ∃ w : World, (memoryPool defaultPolicy 0).Reachable w ∧
    Prod.fst <$> (init defaultPolicy 0).createPool (List.replicate 64 97 ++ [1]) 16484 0
      (.block 4096 fun _ => 0) = .ok 4096 ∧
    w = (init defaultPolicy 0).after
      (.create (List.replicate 64 97 ++ [1]) 16484 0 (.block 4096 fun _ => 0)) ∧
    4096 ∈ w.helper.usedPools ∧ (w.pools 4096).capacity = 16385 := by
  refine ⟨_, .next (.start rfl) (step_after (by decide +kernel)), ?_, rfl, ?_, ?_⟩
  · decide +kernel
  · decide +kernel
  · decide +kernel

end Libatp.Pools
