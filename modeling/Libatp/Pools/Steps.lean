import Libatp.Pools.SizeClass
import Mathlib.Logic.Relation

/-!
# What a call can do

Every call whose name fits is one of a few changes of the `World`. Each invariant of
the other modules is proved for these changes, and not for the functions again.
-/

namespace Libatp.Pools
open Base

namespace World

/-- The policy has handed out `b`. -/
def granted (w : World) (b : Block Use) (ok : w.heap.Admits b) : World :=
  { w.onChunkAlloc b.size with heap := w.heap.grant b ok }

theorem chunkAlloc_cases {w w' : World} {size addr : Nat} {use : Use} {answer : Answer}
    (h : w.chunkAlloc size use answer = .ok (addr, w')) :
    (addr = 0 ∧ answer = .null ∧ w' = w.onChunkAlloc size) ∨
    ∃ ok : w.heap.Admits ⟨addr, size, use⟩, addr ≠ 0 ∧ answer.Gives addr ∧
      w' = w.granted _ ok := by
  cases answer with
  | null =>
    simp only [chunkAlloc] at h
    split at h
    · cases h
    · cases h
      exact .inl ⟨rfl, rfl, rfl⟩
  | block at' contents =>
    simp only [chunkAlloc] at h
    split at h
    · rename_i ok
      cases h
      exact .inr ⟨ok, Nat.pos_iff_ne_zero.mp ok.1.1, ⟨contents, rfl⟩, rfl⟩
    · cases h

/-! ## `pool_alloc` -/

section
variable (w : World) (chunk size : Nat)

/-- Only the chunk and the history of reservations change. -/
theorem poolAllocFromChunk_frame : (w.poolAllocFromChunk chunk size).2 = { w with
    chunks := (w.poolAllocFromChunk chunk size).2.chunks
    reserved := (w.poolAllocFromChunk chunk size).2.reserved } := by
  unfold poolAllocFromChunk
  dsimp only
  split_ifs <;> rfl

@[simp] theorem poolAllocFromChunk_pools : (w.poolAllocFromChunk chunk size).2.pools = w.pools := by
  rw [poolAllocFromChunk_frame]

@[simp] theorem poolAllocFromChunk_heap : (w.poolAllocFromChunk chunk size).2.heap = w.heap := by
  rw [poolAllocFromChunk_frame]

@[simp] theorem poolAllocFromChunk_helper :
    (w.poolAllocFromChunk chunk size).2.helper = w.helper := by
  rw [poolAllocFromChunk_frame]

end

/-- What `pool_alloc_find` can return and leave when no chunk has room. -/
inductive Grown (w : World) (pool size : Nat) (answer : Answer) : Nat → World → Prop
  | fixed (none : (w.pools pool).incrSize = 0) : Grown w pool size answer 0 w
  | refused (room : sizeofChunk ≤ newChunkSize (w.pools pool).incrSize size)
      (some : (w.pools pool).incrSize ≠ 0) (null : answer = .null) :
      Grown w pool size answer 0 (w.onChunkAlloc (newChunkSize (w.pools pool).incrSize size))
  | served (addr : Nat) (room : sizeofChunk ≤ newChunkSize (w.pools pool).incrSize size)
      (some : (w.pools pool).incrSize ≠ 0) (gives : answer.Gives addr)
      (ok : w.heap.Admits ⟨addr, newChunkSize (w.pools pool).incrSize size, .chunk⟩)
      (mem : Nat) (w' : World)
      (taken : ((w.granted _ ok).appendChunk pool addr
        (newChunkSize (w.pools pool).incrSize size)).poolAllocFromChunk addr size = (mem, w')) :
      Grown w pool size answer mem w'

theorem poolAllocGrow_grown {w w' : World} {pool size mem : Nat} {answer : Answer}
    (h : w.poolAllocGrow pool size answer = .ok (mem, w')) : Grown w pool size answer mem w' := by
  unfold poolAllocGrow at h
  split at h
  · rename_i none
    cases h
    exact .fixed none
  · rename_i some
    obtain ⟨⟨chunk, w₁⟩, created, h⟩ := bind_ok_iff.mp h
    unfold createChunkAppendPool at created
    obtain ⟨_, room, created⟩ := bind_ok_iff.mp created
    obtain ⟨_, _, created⟩ := bind_ok_iff.mp created
    obtain ⟨⟨addr, w₂⟩, allocated, created⟩ := bind_ok_iff.mp created
    rcases chunkAlloc_cases allocated with ⟨rfl, null, rfl⟩ | ⟨ok, nonnull, gives, rfl⟩
    · cases created
      cases h
      exact .refused (require_ok_iff.mp room) some null
    · dsimp only at created
      rw [if_neg nonnull] at created
      cases created
      dsimp only at h
      rw [if_neg nonnull] at h
      exact .served chunk (require_ok_iff.mp room) some gives ok mem w' (Except.ok.inj h)

/-- The call left `w'` and returned `mem`; if that is not null, its last step took
it from a chunk of the pool. -/
def Served (P : World → Prop) (pool size mem : Nat) (w' : World) : Prop :=
  P w' ∧ (mem ≠ 0 → ∃ w chunk, P w ∧ chunk ∈ (w.pools pool).chunks ∧
    w.poolAllocFromChunk chunk size = (mem, w'))

section
variable {P : World → Prop} {pool size : Nat}

theorem Served.null {w : World} (hw : P w) : Served P pool size 0 w :=
  ⟨hw, fun some => absurd rfl some⟩

theorem served_fromChunk {w : World} {chunk : Nat}
    (take : ∀ w chunk, P w → chunk ∈ (w.pools pool).chunks → P (w.poolAllocFromChunk chunk size).2)
    (hw : P w) (mine : chunk ∈ (w.pools pool).chunks) :
    Served P pool size (w.poolAllocFromChunk chunk size).1 (w.poolAllocFromChunk chunk size).2 :=
  ⟨take w chunk hw mine, fun _ => ⟨w, chunk, hw, mine, rfl⟩⟩

theorem served_each {chunks : List Nat}
    (take : ∀ w chunk, P w → chunk ∈ (w.pools pool).chunks → P (w.poolAllocFromChunk chunk size).2)
    {w : World} (hw : P w) (mine : ∀ chunk ∈ chunks, chunk ∈ (w.pools pool).chunks) :
    Served P pool size (w.poolAllocEach size chunks).1 (w.poolAllocEach size chunks).2 := by
  induction chunks generalizing w with
  | nil => exact .null hw
  | cons chunk chunks ih =>
    have first := served_fromChunk take hw (mine chunk List.mem_cons_self)
    simp only [poolAllocEach]
    split
    · exact first
    · apply ih first.1
      intro next hnext
      rw [poolAllocFromChunk_pools]
      exact mine next (List.mem_cons_of_mem _ hnext)

theorem poolAllocGrow_served {w w' : World} {mem : Nat} {answer : Answer}
    (take : ∀ w chunk, P w → chunk ∈ (w.pools pool).chunks → P (w.poolAllocFromChunk chunk size).2)
    (refuse : ∀ w n, answer = .null → P w → P (w.onChunkAlloc n))
    (grow : ∀ w addr n (ok : w.heap.Admits ⟨addr, n, .chunk⟩), answer.Gives addr →
      sizeofChunk ≤ n → P w → P ((w.granted _ ok).appendChunk pool addr n))
    (hw : P w) (h : w.poolAllocGrow pool size answer = .ok (mem, w')) :
    Served P pool size mem w' := by
  cases poolAllocGrow_grown h with
  | fixed => exact .null hw
  | refused _ _ null => exact .null (refuse w _ null hw)
  | served addr room _ gives ok _ _ taken =>
    have kept := grow w addr _ ok gives room hw
    have here := served_fromChunk take kept (by simp [appendChunk] : addr ∈ _)
    rw [taken] at here
    exact here

theorem poolAllocFind_served {w w' : World} {mem : Nat} {answer : Answer}
    (take : ∀ w chunk, P w → chunk ∈ (w.pools pool).chunks → P (w.poolAllocFromChunk chunk size).2)
    (refuse : ∀ w n, answer = .null → P w → P (w.onChunkAlloc n))
    (grow : ∀ w addr n (ok : w.heap.Admits ⟨addr, n, .chunk⟩), answer.Gives addr →
      sizeofChunk ≤ n → P w → P ((w.granted _ ok).appendChunk pool addr n))
    (hw : P w) (h : w.poolAllocFind pool size answer = .ok (mem, w')) :
    Served P pool size mem w' := by
  unfold poolAllocFind at h
  split at h
  · cases h
    exact .null hw
  · have each := served_each take hw (fun _ mine => mine)
    dsimp only at h
    split at h
    · cases h
      exact each
    · exact poolAllocGrow_served take refuse grow each.1 h

/-- The rule for `pool_alloc`: a property holds after it if it is kept by taking
from a chunk of the pool, by a refusal of the policy and by a new chunk. -/
theorem poolAlloc_served {w w' : World} {mem : Nat} {answer : Answer}
    (take : ∀ w chunk, P w → chunk ∈ (w.pools pool).chunks → P (w.poolAllocFromChunk chunk size).2)
    (refuse : ∀ w n, answer = .null → P w → P (w.onChunkAlloc n))
    (grow : ∀ w addr n (ok : w.heap.Admits ⟨addr, n, .chunk⟩), answer.Gives addr →
      sizeofChunk ≤ n → P w → P ((w.granted _ ok).appendChunk pool addr n))
    (hw : P w) (h : w.poolAlloc pool size answer = .ok (mem, w')) :
    Served P pool size mem w' := by
  unfold poolAlloc at h
  obtain ⟨_, _, h⟩ := bind_ok_iff.mp h
  obtain ⟨_, _, h⟩ := bind_ok_iff.mp h
  cases list : (w.pools pool).chunks with
  | nil =>
    rw [list] at h
    exact poolAllocFind_served take refuse grow hw h
  | cons first rest =>
    rw [list] at h
    have here := served_fromChunk take hw
      (list ▸ List.mem_cons_self : first ∈ (w.pools pool).chunks)
    dsimp only at h
    split at h
    · cases h
      exact here
    · exact poolAllocFind_served take refuse grow here.1 h

end

/-! ## `create_pool__` -/

/-- What `create_pool__` can return and leave if the name fits. -/
inductive Created (w : World) (initSize incrSize : Nat) (answer : Answer) : Nat → World → Prop
  | refused (size : Nat) (null : answer = .null) :
      Created w initSize incrSize answer 0 (w.onChunkAlloc size)
  | fresh (pool size pos : Nat) (name : List Byte) (gives : answer.Gives pool)
      (ok : w.heap.Admits ⟨pool, size, .pool⟩)
      (room : sizeofPool + sizeofChunk ≤ size) (enough : initSize ≤ size)
      (inside : pos ≤ cachingSize) (exact : pos < cachingSize → size = classSize pos) :
      Created w initSize incrSize answer pool
        (((w.granted _ ok).initPool pool size incrSize name).enlist pool pos)
  | cached (i : Fin cachingSize) (pool : Nat) (rest : List Nat) (name : List Byte)
      (front : w.helper.freePools i = pool :: rest) (enough : initSize ≤ classSize i) :
      Created w initSize incrSize answer pool
        ((w.reusePool i pool rest incrSize name).enlist pool i)

theorem createFresh_cases {w w' : World} {pos pool size incrSize : Nat} {name : List Byte}
    {answer : Answer} (h : w.createFresh pos name size incrSize answer = .ok (pool, w')) :
    sizeofPool + sizeofChunk ≤ size ∧
    (pool = 0 ∧ answer = .null ∧ w' = w.onChunkAlloc size ∨
      ∃ ok : w.heap.Admits ⟨pool, size, .pool⟩, pool ≠ 0 ∧ answer.Gives pool ∧
        (name.length ≤ poolName → ∃ written,
          w' = ((w.granted _ ok).initPool pool size incrSize written).enlist pool pos)) := by
  unfold createFresh at h
  obtain ⟨_, room, h⟩ := bind_ok_iff.mp h
  obtain ⟨⟨addr, w₁⟩, allocated, h⟩ := bind_ok_iff.mp h
  refine ⟨require_ok_iff.mp room, ?_⟩
  rcases chunkAlloc_cases allocated with ⟨rfl, null, rfl⟩ | ⟨ok, some, gives, rfl⟩
  · cases h
    exact .inl ⟨rfl, null, rfl⟩
  · dsimp only at h
    rw [if_neg some] at h
    split_ifs at h with short long
    · obtain ⟨written, _, h⟩ := bind_ok_iff.mp h
      cases h
      exact .inr ⟨ok, some, gives, fun _ => ⟨written, rfl⟩⟩
    · cases h
      exact .inr ⟨ok, some, gives, fun fits => absurd fits short⟩

theorem createFresh_created {w w' : World} {pos pool initSize size incrSize : Nat}
    {name : List Byte} {answer : Answer} (short : name.length ≤ poolName)
    (enough : initSize ≤ size) (inside : pos ≤ cachingSize)
    (exact : pos < cachingSize → size = classSize pos)
    (h : w.createFresh pos name size incrSize answer = .ok (pool, w')) :
    Created w initSize incrSize answer pool w' := by
  obtain ⟨room, ⟨rfl, null, rfl⟩ | ⟨ok, _, gives, named⟩⟩ := createFresh_cases h
  · exact .refused size null
  · obtain ⟨written, rfl⟩ := named short
    exact .fresh pool size pos written gives ok room enough inside exact

/-- `create_pool__` makes a pool of the least class that is large enough, or one of just the
size asked for, or takes one from the list of that class. -/
theorem createPool_cases {w w' : World} {pool initSize incrSize : Nat} {name : List Byte}
    {answer : Answer} (h : w.createPool name initSize incrSize answer = .ok (pool, w')) :
    (∃ pos size, w.createFresh pos name size incrSize answer = .ok (pool, w') ∧
      initSize ≤ size ∧ (pos < cachingSize ∧ size = classSize pos ∨
        pos = cachingSize ∧ size = initSize)) ∨
    ∃ (i : Fin cachingSize) (rest : List Nat),
      w.helper.freePools i = pool :: rest ∧ initSize ≤ classSize i ∧
      (name.length ≤ poolName → ∃ written, store (w.pools pool).name 0 name = .ok written ∧
        w' = (w.reusePool i pool rest incrSize written).enlist pool i) := by
  obtain ⟨pos, found, _, fits⟩ := atpBinarySearch_least initSize
  unfold createPool at h
  rw [found, ok_bind] at h
  rcases fits with ⟨inside, enough⟩ | ⟨rfl, _⟩
  · simp only [slot, inside, ↓reduceDIte] at h
    cases list : w.helper.freePools ⟨pos, inside⟩ with
    | nil =>
      rw [list] at h
      exact .inl ⟨pos, _, h, enough, .inl ⟨inside, rfl⟩⟩
    | cons first rest =>
      rw [list] at h
      dsimp only at h
      split_ifs at h with short long
      · obtain ⟨written, stored, h⟩ := bind_ok_iff.mp h
        cases h
        exact .inr ⟨⟨pos, inside⟩, rest, list, enough, fun _ => ⟨written, stored, rfl⟩⟩
      · cases h
        exact .inr ⟨⟨pos, inside⟩, rest, list, enough, fun fits => absurd fits short⟩
  · simp only [slot, Nat.lt_irrefl, ↓reduceDIte] at h
    exact .inl ⟨cachingSize, initSize, h, Nat.le_refl _, .inr ⟨rfl, rfl⟩⟩

theorem createPool_created {w w' : World} {pool initSize incrSize : Nat} {name : List Byte}
    {answer : Answer} (short : name.length ≤ poolName)
    (h : w.createPool name initSize incrSize answer = .ok (pool, w')) :
    Created w initSize incrSize answer pool w' := by
  obtain ⟨pos, size, fresh, enough, ⟨inside, exact⟩ | ⟨rfl, rfl⟩⟩ |
    ⟨i, rest, front, enough, named⟩ := createPool_cases h
  · exact createFresh_created short enough inside.le (fun _ => exact) fresh
  · exact createFresh_created short enough (Nat.le_refl _) (fun h => absurd h (Nat.lt_irrefl _))
      fresh
  · obtain ⟨written, _, rfl⟩ := named short
    exact .cached i pool rest written front enough

/-! ## `release_pool__` -/

/-- What `release_pool__` can leave. -/
inductive Released (w : World) (pool : Nat) : World → Prop
  | unknown (unused : pool ∉ w.helper.usedPools) : Released w pool w
  | discarded (w' : World) (used : pool ∈ w.helper.usedPools)
      (discard : (w.delist pool).Discards pool)
      (given : (w.delist pool).releasePool2 pool = .ok w') : Released w pool w'
  | kept (i : Fin cachingSize) (used : pool ∈ w.helper.usedPools)
      (same : (w.pools pool).data = i) (keep : ¬ (w.delist pool).Discards pool) :
      Released w pool ((w.delist pool).cachePool i pool)

theorem releasePool_released {w w' : World} {pool : Nat} (h : w.releasePool pool = .ok w') :
    Released w pool w' := by
  unfold releasePool at h
  obtain ⟨_, _, h⟩ := bind_ok_iff.mp h
  split at h
  · rename_i used
    dsimp only at h
    split at h
    · rename_i discard
      exact .discarded w' used discard h
    · rename_i keep
      by_cases inside : (w.pools pool).data < cachingSize
      · have found : slot ((w.delist pool).pools pool).data = some ⟨(w.pools pool).data, inside⟩ :=
          dif_pos inside
        rw [found] at h
        cases h
        exact .kept ⟨_, inside⟩ used rfl keep
      · have none : slot ((w.delist pool).pools pool).data = none :=
          dif_neg inside
        rw [none] at h
        cases h
  · rename_i unused
    cases h
    exact .unknown unused

/-- Blocks at some addresses have been given back, and nothing else has changed. -/
structure GivenBack (w w' : World) (addrs : List Nat) : Prop where
  pools : w'.pools = w.pools
  chunks : w'.chunks = w.chunks
  helper : ∃ n, w'.helper = { w.helper with usedSize := n }
  outstanding : w'.heap.outstanding = w.heap.outstanding.filter (·.addr ∉ addrs)
  reserved : w'.reserved.Sublist w.reserved
  held : (∀ r ∈ w.reserved, r.chunk ∈ w.heap.outstanding.map chunkAddr) →
    ∀ r ∈ w'.reserved, r.chunk ∈ w'.heap.outstanding.map chunkAddr

theorem chunkFree_givenBack (w : World) (addr size : Nat) :
    GivenBack w (w.chunkFree addr size) [addr] where
  pools := rfl
  chunks := rfl
  helper := ⟨_, rfl⟩
  outstanding := by simp [chunkFree, Heap.free]
  reserved := List.filter_sublist
  held _ r hr := of_decide_eq_true (List.mem_filter.mp hr).2

theorem GivenBack.trans {w₁ w₂ w₃ : World} {xs ys : List Nat} (h₁ : GivenBack w₁ w₂ xs)
    (h₂ : GivenBack w₂ w₃ ys) : GivenBack w₁ w₃ (xs ++ ys) where
  pools := h₂.pools.trans h₁.pools
  chunks := h₂.chunks.trans h₁.chunks
  helper := by
    obtain ⟨n, first⟩ := h₁.helper
    obtain ⟨m, second⟩ := h₂.helper
    exact ⟨m, by rw [second, first]⟩
  outstanding := by
    rw [h₂.outstanding, h₁.outstanding, List.filter_filter]
    apply List.filter_congr
    intro b _
    by_cases first : b.addr ∈ xs <;> by_cases second : b.addr ∈ ys <;> simp [first, second]
  reserved := h₂.reserved.trans h₁.reserved
  held start := h₂.held (h₁.held start)

theorem GivenBack.mem {w w' : World} {addrs : List Nat} (h : GivenBack w w' addrs)
    {b : Block Use} :
    b ∈ w'.heap.outstanding ↔ b ∈ w.heap.outstanding ∧ b.addr ∉ addrs := by
  rw [h.outstanding, List.mem_filter, decide_eq_true_iff]

theorem freeChunks_givenBack (w : World) (chunks : List Nat) :
    GivenBack w (chunks.foldl freeChunk w) chunks := by
  induction chunks generalizing w with
  | nil => exact ⟨rfl, rfl, ⟨_, rfl⟩, by simp, List.Sublist.refl _, fun start => start⟩
  | cons chunk rest ih => exact (chunkFree_givenBack w chunk _).trans (ih _)

theorem releasePool2_givenBack {w w' : World} {pool : Nat} (h : w.releasePool2 pool = .ok w') :
    ∃ first rest, (w.pools pool).chunks = first :: rest ∧ GivenBack w w' (rest ++ [pool]) := by
  unfold releasePool2 at h
  obtain ⟨_, _, h⟩ := bind_ok_iff.mp h
  split at h
  · cases h
  · rename_i first rest list
    obtain ⟨_, _, h⟩ := bind_ok_iff.mp h
    cases h
    exact ⟨first, rest, list, (freeChunks_givenBack w rest).trans (chunkFree_givenBack _ pool _)⟩

/-! ## All calls -/

end World

/-- The allocator has no memory for this call. -/
def Call.Refused : Call → Prop
  | .create _ _ _ answer | .alloc _ _ answer => answer = .null
  | .release _ => False

/-- The allocator answers this call with the block at `addr`. -/
def Call.Gives : Call → Nat → Prop
  | .create _ _ _ answer, addr | .alloc _ _ answer, addr => answer.Gives addr
  | .release _, _ => False

namespace World

/-- The changes that calls are made of. -/
inductive Change (call : Call) (w : World) : World → Prop
  | refused (n : Nat) (null : call.Refused) : Change call w (w.onChunkAlloc n)
  | fresh (pool size incrSize pos : Nat) (name : List Byte) (gives : call.Gives pool)
      (ok : w.heap.Admits ⟨pool, size, .pool⟩) (room : sizeofPool + sizeofChunk ≤ size)
      (inside : pos ≤ cachingSize) (exact : pos < cachingSize → size = classSize pos) :
      Change call w (((w.granted _ ok).initPool pool size incrSize name).enlist pool pos)
  | cached (i : Fin cachingSize) (pool incrSize : Nat) (rest : List Nat) (name : List Byte)
      (front : w.helper.freePools i = pool :: rest) :
      Change call w ((w.reusePool i pool rest incrSize name).enlist pool i)
  | take (pool chunk size : Nat) (used : pool ∈ w.helper.usedPools)
      (mine : chunk ∈ (w.pools pool).chunks) :
      Change call w (w.poolAllocFromChunk chunk size).2
  | grow (pool addr n : Nat) (gives : call.Gives addr) (used : pool ∈ w.helper.usedPools)
      (ok : w.heap.Admits ⟨addr, n, .chunk⟩) (room : sizeofChunk ≤ n) :
      Change call w ((w.granted _ ok).appendChunk pool addr n)
  | kept (i : Fin cachingSize) (pool : Nat) (used : pool ∈ w.helper.usedPools)
      (same : (w.pools pool).data = i) (keep : ¬ (w.delist pool).Discards pool) :
      Change call w ((w.delist pool).cachePool i pool)
  | discarded (pool : Nat) (w' : World) (asked : call = .release pool)
      (used : pool ∈ w.helper.usedPools) (discard : (w.delist pool).Discards pool)
      (given : (w.delist pool).releasePool2 pool = .ok w') : Change call w w'

/-- A release is at most one change, any other call a sequence of them. -/
theorem exec_changes {w w' : World} {call : Call} {result : Nat} (short : call.Short)
    (h : w.exec call = .ok (result, w')) :
    (w' = w ∨ Change call w w') ∨
    ((∀ pool, call ≠ .release pool) ∧ Relation.ReflTransGen (Change call) w w') := by
  cases call with
  | create name initSize incrSize answer =>
    apply Or.inl
    apply Or.inr
    cases createPool_created short h with
    | refused size null => exact .refused size null
    | fresh pool size pos written gives ok room _ inside exact =>
      have given : (Call.create name initSize incrSize answer).Gives result := gives
      exact .fresh result size incrSize pos written given ok room inside exact
    | cached i pool rest written front _ => exact .cached i result incrSize rest written front
  | alloc pool size answer =>
    apply Or.inr
    simp only [exec] at h
    split at h
    · rename_i used
      have served := poolAlloc_served (P := fun v =>
          Relation.ReflTransGen (Change (.alloc pool size answer)) w v ∧ pool ∈ v.helper.usedPools)
        (fun v chunk hv mine => ⟨hv.1.tail (.take pool chunk size hv.2 mine), by simpa using hv.2⟩)
        (fun v n null hv => ⟨hv.1.tail (.refused n null), hv.2⟩)
        (fun v addr n ok (gives : (Call.alloc pool size answer).Gives addr) room hv =>
          ⟨hv.1.tail (.grow pool addr n gives hv.2 ok room), hv.2⟩)
        ⟨.refl, used⟩ h
      exact ⟨nofun, served.1.1⟩
    · cases h
  | release pool =>
    apply Or.inl
    simp only [exec] at h
    cases released : w.releasePool pool with
    | error fault =>
      rw [released] at h
      cases h
    | ok w₁ =>
      rw [released] at h
      cases h
      cases releasePool_released released with
      | unknown => exact .inl rfl
      | discarded _ used discard given => exact .inr (.discarded pool w' rfl used discard given)
      | kept i used same keep => exact .inr (.kept i pool used same keep)

end World

end Libatp.Pools
