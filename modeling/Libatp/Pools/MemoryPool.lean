import Libatp.Base.Checked
import Libatp.Base.Heap
import Libatp.Base.System
import Mathlib.Logic.Function.Basic

/-!
# The memory pool (`app/atp_memory_pool.cpp`, `app/atp_memory_policy.cpp`)

A `World` is one helper together with the memory its pools and chunks are in. A
pool and a chunk are known by the address of their header, as in the lists of the
source; sizes are those of LP64. Which block the policy returns is chosen by the
environment, from blocks that the heap admits.

A pool's own block starts with its header, and the header of its first chunk
follows. Every later chunk is a block of its own. A name is copied with its own length, so
one that is longer than `name_` is written over the members behind it; calls with names
that fit are `Call.Short`.
-/

namespace Libatp.Pools
open Base

/-- `sizeof(pool_t)` -/
def sizeofPool : Nat := 128

/-- `sizeof(pool_chunk_t)` -/
def sizeofChunk : Nat := 40

/-- `ATP_MEMORY_POOL_ALIGN` -/
def poolAlign : Nat := 8

/-- `ATP_MEMORY_POOL_NAME` -/
def poolName : Nat := 64

/-- `ATP_MEMORY_POOL_CACHING_SIZE` -/
def cachingSize : Nat := 16

def poolSizeArray : List Nat :=
  [256, 512, 1024, 2048, 4096, 8192, 12288, 16484,
    20480, 24567, 28672, 32768, 40960, 49125, 57344, 65535]

structure Chunk where
  buf : Nat
  cur : Nat
  fin : Nat
  deriving DecidableEq, Repr

/-- `data` is the size class the pool was created for; `chunks` holds addresses. `factory` and
`linked` say that `factory_` and the head of `chunk_list_` have not been written over. -/
structure Pool where
  name : List Byte
  capacity : Nat
  incrSize : Nat
  data : Nat
  factory : Bool
  linked : Bool
  chunks : List Nat
  deriving DecidableEq, Repr

/-- What a policy does besides allocating: `counts` if it calls the two hooks,
`clears` if new memory is zero, `throws` if a failure is an exception. -/
structure Policy where
  counts : Bool
  clears : Bool
  throws : Bool
  deriving DecidableEq, Repr

def defaultPolicy : Policy := ⟨true, true, false⟩

def newPolicy : Policy := ⟨true, false, true⟩

structure PoolHelper where
  policy : Policy
  capacity : Nat
  maxCapacity : Nat
  usedCount : Nat
  usedSize : Nat
  usedPools : List Nat
  freePools : Fin cachingSize → List Nat

/-- What a block was asked for. -/
inductive Use where
  | pool
  | chunk
  deriving DecidableEq, Repr

/-- The address of the chunk header in a block. -/
def chunkAddr (b : Block Use) : Nat :=
  match b.tag with
  | .pool => b.addr + sizeofPool
  | .chunk => b.addr

/-- The bytes a call of `pool_alloc` took from a chunk. -/
structure Reservation where
  chunk : Nat
  mem : Nat
  stop : Nat
  deriving DecidableEq, Repr

/-- `reserved` is the history of what was taken from blocks that are still out. -/
structure World where
  helper : PoolHelper
  pools : Nat → Pool
  chunks : Nat → Chunk
  heap : Heap Use
  reserved : List Reservation

/-- What the allocator under the policy returns, with the bytes found there. -/
inductive Answer where
  | null
  | block (addr : Nat) (contents : Nat → Byte)

def Answer.Gives (answer : Answer) (addr : Nat) : Prop := ∃ contents, answer = .block addr contents

/-! ## The size classes -/

def sizeAt (i : Int) : Checked Nat :=
  if 0 ≤ i ∧ i < cachingSize then .ok (poolSizeArray.getD i.toNat 0) else .error .outOfBounds

/-- The loop of `atp_binary_search`. -/
def searchLoop (value : Nat) (left right pos : Int) : Checked Int :=
  if left ≤ right then do
    let mid := (left + right) / 2
    let size ← sizeAt mid
    if value ≤ size then searchLoop value left (mid - 1) mid
    else searchLoop value (mid + 1) right pos
  else .ok pos
termination_by (right - left + 1).toNat

def atpBinarySearch (value : Nat) : Checked Nat := do
  let least ← sizeAt 0
  let most ← sizeAt (cachingSize - 1)
  if value ≤ least then .ok 0
  else if most < value then .ok cachingSize
  else Int.toNat <$> searchLoop value 0 (cachingSize - 1) 0

/-- The free list for a class; class `cachingSize` has none. -/
def slot (pos : Nat) : Option (Fin cachingSize) :=
  if h : pos < cachingSize then some ⟨pos, h⟩ else none

/-! ## Calls of the policy -/

namespace World

/-- `on_chunk_alloc__` -/
def onChunkAlloc (w : World) (size : Nat) : World :=
  { w with helper := { w.helper with
      usedSize := if w.helper.policy.counts then wrap (w.helper.usedSize + size)
        else w.helper.usedSize } }

/-- `on_chunk_free__` -/
def onChunkFree (w : World) (size : Nat) : World :=
  { w with helper := { w.helper with
      usedSize := if w.helper.policy.counts then wsub w.helper.usedSize size
        else w.helper.usedSize } }

/-- `chunk_alloc__` and `chunk_new__`; the null pointer is 0. -/
def chunkAlloc (w : World) (size : Nat) (use : Use) : Answer → Checked (Nat × World)
  | .null =>
    if w.helper.policy.throws then .error .uncaught else .ok (0, w.onChunkAlloc size)
  | .block addr _ =>
    if ok : w.heap.Admits ⟨addr, size, use⟩ then
      .ok (addr, { w.onChunkAlloc size with heap := w.heap.grant _ ok })
    else .error .ruledOut

/-- `chunk_free__` and `chunk_delete__` -/
def chunkFree (w : World) (addr size : Nat) : World :=
  { w.onChunkFree size with
    heap := w.heap.free addr size
    reserved := w.reserved.filter
      (·.chunk ∈ (w.heap.free addr size).outstanding.map chunkAddr) }

end World

/-! ## Allocation from a pool -/

/-- `ATP_ALIGN_PTR(p, ATP_MEMORY_POOL_ALIGN)` -/
def alignPtr (p : Nat) : Nat := wrap (p + wsub 0 p % poolAlign)

/-- The size `pool_alloc_from_chunk` reserves. -/
def roundSize (size : Nat) : Nat :=
  if size % poolAlign ≠ 0 then wrap (size + poolAlign) / poolAlign * poolAlign else size

/-- The conversion of a word to `int` and back. -/
def throughInt (n : Nat) : Nat :=
  let low := n % 2 ^ 32
  if low < 2 ^ 31 then low else low + (wordSize - 2 ^ 32)

/-- The size of the chunk that `pool_alloc_find` adds. -/
def newChunkSize (incrSize size : Nat) : Nat :=
  if incrSize < wrap (size + sizeofChunk) then
    wrap (incrSize * throughInt (wrap (size + sizeofChunk + incrSize + poolAlign) / incrSize))
  else incrSize

namespace World

/-- `pool_alloc_from_chunk` -/
def poolAllocFromChunk (w : World) (chunk size : Nat) : Nat × World :=
  let c := w.chunks chunk
  if size = 0 then (0, w)
  else if roundSize size ≤ wsub c.fin c.cur then
    let cur := wrap (c.cur + roundSize size)
    (c.cur, { w with
      chunks := Function.update w.chunks chunk { c with cur := cur }
      reserved := ⟨chunk, c.cur, cur⟩ :: w.reserved })
  else (0, w)

/-- The loop over the chunk list in `pool_alloc_find`. -/
def poolAllocEach (w : World) (size : Nat) : List Nat → Nat × World
  | [] => (0, w)
  | chunk :: chunks =>
    let (mem, w) := w.poolAllocFromChunk chunk size
    if mem ≠ 0 then (mem, w) else w.poolAllocEach size chunks

/-- The header that `create_chunk_append_pool` writes, and its place in the pool. -/
def appendChunk (w : World) (pool chunk size : Nat) : World :=
  { w with
    chunks := Function.update w.chunks chunk
      ⟨chunk + sizeofChunk, alignPtr (chunk + sizeofChunk), chunk + size⟩
    pools := Function.update w.pools pool { w.pools pool with
      capacity := wrap ((w.pools pool).capacity + size)
      chunks := chunk :: (w.pools pool).chunks } }

def createChunkAppendPool (w : World) (pool size : Nat) (answer : Answer) :
    Checked (Nat × World) := do
  require (sizeofChunk ≤ size)
  follow (w.pools pool).factory
  let (chunk, w) ← w.chunkAlloc size .chunk answer
  if chunk = 0 then .ok (0, w) else .ok (chunk, w.appendChunk pool chunk size)

/-- What `pool_alloc_find` does when no chunk has room. -/
def poolAllocGrow (w : World) (pool size : Nat) (answer : Answer) : Checked (Nat × World) :=
  if (w.pools pool).incrSize = 0 then .ok (0, w)
  else do
    let (chunk, w) ← w.createChunkAppendPool pool (newChunkSize (w.pools pool).incrSize size) answer
    if chunk = 0 then .ok (0, w) else .ok (w.poolAllocFromChunk chunk size)

def poolAllocFind (w : World) (pool size : Nat) (answer : Answer) : Checked (Nat × World) :=
  if size = 0 then .ok (0, w)
  else
    let (mem, w) := w.poolAllocEach size (w.pools pool).chunks
    if mem ≠ 0 then .ok (mem, w) else w.poolAllocGrow pool size answer

def poolAlloc (w : World) (pool size : Nat) (answer : Answer) : Checked (Nat × World) := do
  require (pool ≠ 0)
  -- a request for nothing returns before it looks at a chunk
  follow (size = 0 || (w.pools pool).linked)
  let (mem, w) := match (w.pools pool).chunks with
    | [] => (0, w)
    | first :: _ => w.poolAllocFromChunk first size
  if mem ≠ 0 then .ok (mem, w) else w.poolAllocFind pool size answer

/-! ## Creation -/

end World

/-- What the `strncpy` of a name longer than `name_` leaves: behind `name_` are `capacity_`,
`incr_size_`, `data_`, `factory_` and the head of `chunk_list_`, of 8 bytes each. A pointer
counts as lost whichever bytes were written to it. -/
def Pool.overrun (p : Pool) (name : List Byte) : Pool :=
  { p with
    name := name.take poolName
    capacity := overwrite p.capacity (window name 64 8)
    incrSize := overwrite p.incrSize (window name 72 8)
    data := overwrite p.data (window name 80 8)
    factory := p.factory && name.length ≤ 88
    linked := p.linked && name.length ≤ 96 }

namespace World

/-- What the name of a new pool is written over. -/
def freshName (w : World) : Answer → List Byte
  | .null => []
  | .block _ contents =>
    if w.helper.policy.clears then List.replicate poolName 0 else (List.range poolName).map contents

/-- The headers that `create_pool__` writes into a new block. -/
def initPool (w : World) (pool size incrSize : Nat) (name : List Byte) : World :=
  let chunk := pool + sizeofPool
  { w with
    pools := Function.update w.pools pool ⟨name, size, incrSize, 0, true, true, [chunk]⟩
    chunks := Function.update w.chunks chunk
      ⟨chunk + sizeofChunk, alignPtr (chunk + sizeofChunk), pool + size⟩ }

/-- The same where the name is too long. The chunk list is set up after the copy. -/
def initOverrun (w : World) (pool size incrSize : Nat) (name : List Byte) : World :=
  let w := w.initPool pool size incrSize []
  { w with
    pools := Function.update w.pools pool { (w.pools pool).overrun name with linked := true } }

/-- `create_pool__` takes the first pool of a free list. -/
def reusePool (w : World) (i : Fin cachingSize) (pool : Nat) (rest : List Nat) (incrSize : Nat)
    (name : List Byte) : World :=
  let cap := (w.pools pool).capacity
  { w with
    pools := Function.update w.pools pool { w.pools pool with incrSize := incrSize, name := name }
    helper := { w.helper with
      freePools := Function.update w.helper.freePools i rest
      capacity := if cap < w.helper.capacity then w.helper.capacity - cap else 0 } }

/-- The same where the name is too long: the capacity is read after the copy. -/
def reuseOverrun (w : World) (i : Fin cachingSize) (pool : Nat) (rest : List Nat) (incrSize : Nat)
    (name : List Byte) : World :=
  let p := Pool.overrun { w.pools pool with incrSize := incrSize } name
  { w with
    pools := Function.update w.pools pool p
    helper := { w.helper with
      freePools := Function.update w.helper.freePools i rest
      capacity := if p.capacity < w.helper.capacity then w.helper.capacity - p.capacity else 0 } }

/-- The size of the block that starts here. -/
def blockSize (w : World) (addr : Nat) : Nat :=
  (w.heap.outstanding.find? (·.addr = addr)).elim 0 Block.size

/-- The end of `create_pool__`. -/
def enlist (w : World) (pool pos : Nat) : World :=
  { w with
    pools := Function.update w.pools pool { w.pools pool with data := pos }
    helper := { w.helper with
      usedPools := pool :: w.helper.usedPools
      usedCount := wrap (w.helper.usedCount + 1) } }

def createFresh (w : World) (pos : Nat) (name : List Byte) (initSize incrSize : Nat)
    (answer : Answer) : Checked (Nat × World) := do
  require (sizeofPool + sizeofChunk ≤ initSize)
  let (pool, w) ← w.chunkAlloc initSize .pool answer
  if pool = 0 then .ok (0, w)
  else if name.length ≤ poolName then do
    let name ← store (w.freshName answer) 0 name
    .ok (pool, (w.initPool pool initSize incrSize name).enlist pool pos)
  else if name.length ≤ initSize then
    .ok (pool, (w.initOverrun pool initSize incrSize name).enlist pool pos)
  else .error .outOfBounds

/-- `create_pool__`; `name` is what stands before the terminator. -/
def createPool (w : World) (name : List Byte) (initSize incrSize : Nat) (answer : Answer) :
    Checked (Nat × World) := do
  let pos ← atpBinarySearch initSize
  match slot pos with
  | none => w.createFresh pos name initSize incrSize answer
  | some i =>
    match w.helper.freePools i with
    | [] => w.createFresh pos name (poolSizeArray.getD i 0) incrSize answer
    | pool :: rest =>
      if name.length ≤ poolName then do
        let name ← store (w.pools pool).name 0 name
        .ok (pool, (w.reusePool i pool rest incrSize name).enlist pool pos)
      else if name.length ≤ w.blockSize pool then
        .ok (pool, (w.reuseOverrun i pool rest incrSize name).enlist pool pos)
      else .error .outOfBounds

/-! ## Release -/

/-- `release_pool2` gives back a chunk other than the head of the list. -/
def freeChunk (w : World) (chunk : Nat) : World :=
  w.chunkFree chunk (wsub (w.chunks chunk).fin (w.chunks chunk).buf)

/-- `release_pool2`. It follows the link of a chunk it has just given back; that
link is still what it was. -/
def releasePool2 (w : World) (pool : Nat) : Checked World := do
  follow (w.pools pool).linked
  match (w.pools pool).chunks with
  | [] => .error .nullPointer
  | first :: rest =>
    follow (w.pools pool).factory
    .ok ((rest.foldl freeChunk w).chunkFree pool (wsub (w.chunks first).fin pool))

/-- The pool leaves the list of those in use. -/
def delist (w : World) (pool : Nat) : World :=
  { w with helper := { w.helper with
      usedPools := w.helper.usedPools.erase pool
      usedCount := wsub w.helper.usedCount 1 } }

def cachePool (w : World) (i : Fin cachingSize) (pool : Nat) : World :=
  { w with helper := { w.helper with
      freePools := Function.update w.helper.freePools i (w.helper.freePools i ++ [pool])
      capacity := wrap (w.helper.capacity + (w.pools pool).capacity) } }

/-- `release_pool__` does not keep this pool. -/
def Discards (w : World) (pool : Nat) : Prop :=
  let p := w.pools pool
  p.data = cachingSize ∨ w.helper.maxCapacity < wrap (p.capacity + w.helper.capacity) ∨
    poolSizeArray.getD (cachingSize - 1) 0 < p.capacity

instance (w : World) (pool : Nat) : Decidable (w.Discards pool) :=
  inferInstanceAs (Decidable (_ ∨ _))

/-- `release_pool__` -/
def releasePool (w : World) (pool : Nat) : Checked World := do
  require (pool ≠ 0)
  if pool ∈ w.helper.usedPools then
    let w := w.delist pool
    if w.Discards pool then w.releasePool2 pool
    else match slot (w.pools pool).data with
      | none => .error .outOfBounds
      | some i => .ok (w.cachePool i pool)
  else .ok w

/-! ## A helper from its creation to its end -/

def init (policy : Policy) (maxCapacity : Nat) : World where
  helper := ⟨policy, 0, maxCapacity, 0, 0, [], fun _ => []⟩
  pools _ := ⟨[], 0, 0, 0, true, true, []⟩
  chunks _ := ⟨0, 0, 0⟩
  heap := .empty Use
  reserved := []

end World

/-- The free lists one after another, as `pool_helper_destroy` meets them. -/
def allLists (lists : Fin cachingSize → List Nat) : List Nat :=
  (List.finRange cachingSize).flatMap lists

def PoolHelper.cached (h : PoolHelper) : List Nat := allLists h.freePools

def PoolHelper.listed (h : PoolHelper) : List Nat := h.usedPools ++ h.cached

namespace World

/-- `pool_helper_destroy`, up to the release of the helper itself. -/
def poolHelperDestroy (w : World) : Checked World := do
  let w ← w.helper.listed.foldlM releasePool2 w
  .ok { w with helper := { w.helper with usedPools := [], freePools := fun _ => [] } }

end World

inductive Call where
  | create (name : List Byte) (initSize incrSize : Nat) (answer : Answer)
  | alloc (pool size : Nat) (answer : Answer)
  | release (pool : Nat)

/-- The name fits into `name_`. -/
def Call.Short : Call → Prop
  | .create name _ _ _ => name.length ≤ poolName
  | .alloc .. | .release _ => True

instance (call : Call) : Decidable call.Short := by
  cases call <;> unfold Call.Short <;> infer_instance

/-- The call, with the pointer it returns. Memory is asked of pools in use only. -/
def World.exec (w : World) : Call → Checked (Nat × World)
  | .create name initSize incrSize answer => w.createPool name initSize incrSize answer
  | .alloc pool size answer =>
    if pool ∈ w.helper.usedPools then w.poolAlloc pool size answer else .error .ruledOut
  | .release pool => (0, ·) <$> w.releasePool pool

/-- The world a call leaves, for runs that are replayed. -/
def World.after (w : World) (call : Call) : World :=
  match w.exec call with
  | .ok (_, w') => w'
  | .error _ => w

def memoryPool (policy : Policy) (maxCapacity : Nat) : System World Call where
  start w := w = .init policy maxCapacity
  step w call w' := ∃ result, w.exec call = .ok (result, w')

/-- The pools of a helper that is given names that fit. -/
def shortPool (policy : Policy) (maxCapacity : Nat) : System World Call :=
  (memoryPool policy maxCapacity).restrict fun _ call => call.Short

theorem step_after {policy : Policy} {maxCapacity : Nat} {w : World} {call : Call}
    (returns : (w.exec call).isOk = true) :
    (memoryPool policy maxCapacity).step w call (w.after call) := by
  unfold World.after
  cases h : w.exec call with
  | error fault =>
    rw [h] at returns
    cases returns
  | ok out => exact ⟨out.1, h⟩

theorem short_step {policy : Policy} {maxCapacity : Nat} {w : World} {call : Call}
    (short : call.Short) (returns : (w.exec call).isOk = true) :
    (shortPool policy maxCapacity).step w call (w.after call) :=
  ⟨short, step_after returns⟩

theorem exec_after {w : World} {call : Call} {result : Nat}
    (returns : Prod.fst <$> w.exec call = .ok result) :
    w.exec call = .ok (result, w.after call) := by
  unfold World.after
  cases h : w.exec call with
  | error fault =>
    rw [h] at returns
    cases returns
  | ok out =>
    rw [h] at returns
    cases returns
    rfl

end Libatp.Pools
