import Libatp.Pools.Steps

/-!
# Where pools and chunks are

Every pool in the lists has a block of its own, in which its first chunk is, and
every further chunk is a block of its own. No two pools share a chunk. All of this
holds whatever is released: a block that is never given back stays out, and no
pool in the lists refers to a block that was.
-/

namespace Libatp.Pools
open Base

theorem flatMap_update_perm {ι α : Type} [DecidableEq ι] (f : ι → List α) (xs : List α) {i : ι}
    {l : List ι} (hi : i ∈ l) (once : l.Nodup) :
    (l.flatMap (Function.update f i xs)).Perm (xs ++ l.flatMap (Function.update f i [])) := by
  induction l with
  | nil => cases hi
  | cons j l ih =>
    rw [List.nodup_cons] at once
    by_cases here : i = j
    · subst here
      have rest : ∀ ys, l.flatMap (Function.update f i ys) = l.flatMap f := by
        intro ys
        apply List.flatMap_congr
        intro k hk
        exact Function.update_of_ne (fun same : k = i => once.1 (same ▸ hk)) _ _
      simp [rest]
    · have later := ih (List.mem_of_ne_of_mem here hi) once.2
      have apart : j ≠ i := fun same => here same.symm
      simp only [List.flatMap_cons, Function.update_of_ne apart]
      exact (later.append_left _).trans (List.perm_append_comm_assoc _ _ _)

section
variable (lists : Fin cachingSize → List Nat) (i : Fin cachingSize) (pool : Nat)

theorem allLists_update (xs : List Nat) : (allLists (Function.update lists i xs)).Perm
    (xs ++ allLists (Function.update lists i [])) :=
  flatMap_update_perm _ xs (List.mem_finRange i) (List.nodup_finRange _)

theorem allLists_self : (allLists lists).Perm
    (lists i ++ allLists (Function.update lists i [])) := by
  have self := allLists_update lists i (lists i)
  rwa [Function.update_eq_self] at self

/-- A pool at the end of a free list is one more cached pool. -/
theorem allLists_push : (allLists (Function.update lists i (lists i ++ [pool]))).Perm
    (pool :: allLists lists) := by
  have added := allLists_update lists i (lists i ++ [pool])
  rw [List.append_assoc] at added
  exact added.trans (List.perm_middle.trans ((allLists_self lists i).symm.cons pool))

/-- Taking the first pool of a free list leaves the others. -/
theorem allLists_pop {rest : List Nat} (front : lists i = pool :: rest) :
    (allLists lists).Perm (pool :: allLists (Function.update lists i rest)) := by
  have self := allLists_self lists i
  rw [front] at self
  exact self.trans ((allLists_update lists i rest).symm.cons pool)

end

theorem chunkAddr_inside {b : Block Use} (room : chunkAddr b + sizeofChunk ≤ b.fin) :
    b.addr ≤ chunkAddr b ∧ chunkAddr b < b.fin := by
  have positive : 0 < sizeofChunk := by decide
  refine ⟨?_, by omega⟩
  unfold chunkAddr
  split <;> omega

namespace World

/-- The pools that were created and whose block is still out. -/
def live (w : World) : List Nat := (w.heap.outstanding.filter (·.tag = .pool)).map Block.addr

theorem mem_live {w : World} {pool : Nat} :
    pool ∈ w.live ↔ ∃ b ∈ w.heap.outstanding, b.tag = .pool ∧ b.addr = pool := by
  simp [live, and_assoc]

theorem nodup_live (w : World) : w.live.Nodup :=
  w.heap.nodup_addr.sublist (List.filter_sublist.map _)

end World

/-- No pointer of the pool has been written over. -/
structure Pool.Intact (p : Pool) : Prop where
  factory : p.factory = true
  linked : p.linked = true

theorem update_intact {pools : Nat → Pool} (all : ∀ q, (pools q).Intact) {p : Pool}
    (new : p.Intact) (pool q : Nat) : (Function.update pools pool p q).Intact := by
  by_cases here : q = pool
  · subst here
    rw [Function.update_self]
    exact new
  · rw [Function.update_of_ne here]
    exact all q

namespace World

theorem enlist_intact {w : World} (all : ∀ q, (w.pools q).Intact) (pool pos q : Nat) :
    ((w.enlist pool pos).pools q).Intact := by
  apply update_intact all
  exact ⟨(all pool).factory, (all pool).linked⟩

structure Sound (w : World) : Prop where
  intact : ∀ pool, (w.pools pool).Intact
  room : ∀ b ∈ w.heap.outstanding, chunkAddr b + sizeofChunk ≤ b.fin
  placed : ∀ b ∈ w.heap.outstanding, (w.chunks (chunkAddr b)).buf = chunkAddr b + sizeofChunk ∧
    (w.chunks (chunkAddr b)).fin = b.fin
  listed : w.helper.listed.Perm w.live
  built : ∀ pool ∈ w.live, ∃ grown, (w.pools pool).chunks = grown ++ [pool + sizeofPool] ∧
    ∀ g ∈ grown, ∃ b ∈ w.heap.outstanding, b.tag = .chunk ∧ b.addr = g
  once : ∀ pool ∈ w.live, (w.pools pool).chunks.Nodup
  unshared : ∀ p ∈ w.live, ∀ q ∈ w.live, ∀ c ∈ (w.pools p).chunks, c ∈ (w.pools q).chunks → p = q

namespace Sound
variable {w : World}

theorem chunkAddr_inj (hw : Sound w) {b c : Block Use} (hb : b ∈ w.heap.outstanding)
    (hc : c ∈ w.heap.outstanding) (same : chunkAddr b = chunkAddr c) : b = c := by
  apply w.heap.eq_of_overlap hb hc (chunkAddr_inside (hw.room b hb))
  rw [same]
  exact chunkAddr_inside (hw.room c hc)

/-- A chunk of a pool is in a block that is out: the pool's own, or one asked for
as a chunk. -/
theorem chunk_block (hw : Sound w) {pool c : Nat} (hpool : pool ∈ w.live)
    (hc : c ∈ (w.pools pool).chunks) : ∃ b ∈ w.heap.outstanding, chunkAddr b = c ∧
      (b.tag = .chunk ∨ b.tag = .pool ∧ b.addr = pool) := by
  obtain ⟨grown, list, blocks⟩ := hw.built pool hpool
  rw [list, List.mem_append, List.mem_singleton] at hc
  rcases hc with late | rfl
  · obtain ⟨b, hb, tag, rfl⟩ := blocks c late
    exact ⟨b, hb, by simp [chunkAddr, tag], .inl tag⟩
  · obtain ⟨b, hb, tag, rfl⟩ := mem_live.mp hpool
    exact ⟨b, hb, by simp [chunkAddr, tag], .inr ⟨tag, rfl⟩⟩

theorem resident (hw : Sound w) {pool c : Nat} (hpool : pool ∈ w.live)
    (hc : c ∈ (w.pools pool).chunks) : c ∈ w.heap.outstanding.map chunkAddr := by
  obtain ⟨b, hb, rfl, _⟩ := hw.chunk_block hpool hc
  exact List.mem_map_of_mem hb

/-- No pool starts where a chunk of a pool does. -/
theorem pool_ne_chunk (hw : Sound w) {p q c : Nat} (hp : p ∈ w.live) (hq : q ∈ w.live)
    (hc : c ∈ (w.pools q).chunks) : p ≠ c := by
  rintro rfl
  obtain ⟨b, hb, start, tag⟩ := hw.chunk_block hq hc
  obtain ⟨d, hd, pool, here⟩ := mem_live.mp hp
  have inside := chunkAddr_inside (hw.room b hb)
  have size := (w.heap.proper d hd).2.1
  have same : b = d := by
    apply w.heap.eq_of_overlap hb hd inside
    rw [start, ← here]
    exact ⟨Nat.le_refl _, by unfold Block.fin; omega⟩
  subst same
  simp only [chunkAddr, pool, here, sizeofPool] at start
  omega

theorem used_live (hw : Sound w) {pool : Nat} (used : pool ∈ w.helper.usedPools) :
    pool ∈ w.live :=
  hw.listed.mem_iff.mp (List.mem_append_left _ used)

theorem nodup_listed (hw : Sound w) : w.helper.listed.Nodup :=
  hw.listed.nodup_iff.mpr w.nodup_live

/-- A block about to be handed out has no chunk header in it yet. -/
theorem fresh_chunk (hw : Sound w) {b : Block Use} (ok : w.heap.Admits b)
    (room : chunkAddr b + sizeofChunk ≤ b.fin) :
    chunkAddr b ∉ w.heap.outstanding.map chunkAddr := by
  intro taken
  obtain ⟨c, hc, same⟩ := List.mem_map.mp taken
  have here := chunkAddr_inside room
  have there := chunkAddr_inside (hw.room c hc)
  rcases ok.2 c hc with apart | apart <;> omega

theorem fresh_pool {b : Block Use} (ok : w.heap.Admits b) : b.addr ∉ w.live := by
  intro taken
  obtain ⟨c, hc, _, same⟩ := mem_live.mp taken
  have sizes := And.intro ok.1.2.1 (w.heap.proper c hc).2.1
  rcases ok.2 c hc with apart | apart <;> unfold Block.fin at apart <;> omega

/-- A change that keeps the blocks, the chunk lists and the bounds of the chunks,
and only moves pools between lists. -/
theorem congr {w' : World} (hw : Sound w) (heap : w'.heap.outstanding = w.heap.outstanding)
    (intact : ∀ p, (w'.pools p).Intact)
    (pools : ∀ p, (w'.pools p).chunks = (w.pools p).chunks)
    (chunks : ∀ c, (w'.chunks c).buf = (w.chunks c).buf ∧ (w'.chunks c).fin = (w.chunks c).fin)
    (lists : w'.helper.listed.Perm w.helper.listed) : Sound w' := by
  have alive : w'.live = w.live := by unfold live; rw [heap]
  constructor
  · exact intact
  · rw [heap]
    exact hw.room
  · intro b hb
    rw [heap] at hb
    rw [(chunks _).1, (chunks _).2]
    exact hw.placed b hb
  · rw [alive]
    exact lists.trans hw.listed
  · intro p hp
    rw [alive] at hp
    rw [pools, heap]
    exact hw.built p hp
  · intro p hp
    rw [alive] at hp
    rw [pools]
    exact hw.once p hp
  · intro p hp q hq c
    rw [alive] at hp hq
    rw [pools, pools]
    exact hw.unshared p hp q hq c

end Sound

/-! ## The changes -/

theorem sound_init (policy : Policy) (maxCapacity : Nat) : Sound (init policy maxCapacity) where
  intact _ := ⟨rfl, rfl⟩
  room := nofun
  placed := nofun
  listed := by
    have none : (init policy maxCapacity).helper.listed = [] := by
      simp [PoolHelper.listed, PoolHelper.cached, allLists, init]
    rw [none]
    exact .nil
  built := nofun
  once := nofun
  unshared := nofun

theorem sound_refused {w : World} (hw : Sound w) (size : Nat) : Sound (w.onChunkAlloc size) :=
  hw.congr rfl hw.intact (fun _ => rfl) (fun _ => ⟨rfl, rfl⟩) (.refl _)

theorem poolAllocFromChunk_bounds (w : World) (chunk size c : Nat) :
    ((w.poolAllocFromChunk chunk size).2.chunks c).buf = (w.chunks c).buf ∧
    ((w.poolAllocFromChunk chunk size).2.chunks c).fin = (w.chunks c).fin := by
  unfold poolAllocFromChunk
  dsimp only
  split_ifs
  · exact ⟨rfl, rfl⟩
  · by_cases here : c = chunk
    · subst here
      simp
    · simp [Function.update_of_ne here]
  · exact ⟨rfl, rfl⟩

theorem sound_take {w : World} (hw : Sound w) (chunk size : Nat) :
    Sound (w.poolAllocFromChunk chunk size).2 := by
  apply hw.congr
  · rw [poolAllocFromChunk_heap]
  · rw [poolAllocFromChunk_pools]
    exact hw.intact
  · intro p
    rw [poolAllocFromChunk_pools]
  · exact poolAllocFromChunk_bounds w chunk size
  · rw [poolAllocFromChunk_helper]

/-- A chunk that no block holds is in no pool's list. -/
theorem Sound.absent {w : World} (hw : Sound w) {addr : Nat}
    (new : addr ∉ w.heap.outstanding.map chunkAddr) {p : Nat} (hp : p ∈ w.live) :
    addr ∉ (w.pools p).chunks :=
  fun taken => new (hw.resident hp taken)

theorem appendChunk_chunks {w : World} {addr n : Nat} (ok : w.heap.Admits ⟨addr, n, .chunk⟩)
    (pool p : Nat) : (((w.granted _ ok).appendChunk pool addr n).pools p).chunks =
      if p = pool then addr :: (w.pools pool).chunks else (w.pools p).chunks := by
  by_cases here : p = pool
  · subst here
    simp [appendChunk, granted, onChunkAlloc]
  · simp [appendChunk, granted, onChunkAlloc, here]

theorem mem_appendChunk_chunks {w : World} {addr n : Nat}
    {ok : w.heap.Admits ⟨addr, n, .chunk⟩} {pool p c : Nat}
    (h : c ∈ (((w.granted _ ok).appendChunk pool addr n).pools p).chunks) :
    c ∈ (w.pools p).chunks ∨ (p = pool ∧ c = addr) := by
  rw [appendChunk_chunks] at h
  by_cases here : p = pool
  · subst here
    rw [if_pos rfl] at h
    exact (List.mem_cons.mp h).symm.imp_right fun same => ⟨rfl, same⟩
  · rw [if_neg here] at h
    exact .inl h

/-- The blocks of a pool's chunks are still there when there is one more. -/
theorem blocks_cons {outstanding : List (Block Use)} {b : Block Use} {grown : List Nat}
    (blocks : ∀ g ∈ grown, ∃ c ∈ outstanding, c.tag = .chunk ∧ c.addr = g) :
    ∀ g ∈ grown, ∃ c ∈ b :: outstanding, c.tag = .chunk ∧ c.addr = g := by
  intro g hg
  obtain ⟨c, hc, tag⟩ := blocks g hg
  exact ⟨c, List.mem_cons_of_mem _ hc, tag⟩

theorem sound_grow {w : World} (hw : Sound w) {pool addr n : Nat} (hpool : pool ∈ w.live)
    (ok : w.heap.Admits ⟨addr, n, .chunk⟩) (room : sizeofChunk ≤ n) :
    Sound ((w.granted _ ok).appendChunk pool addr n) := by
  have new : addr ∉ w.heap.outstanding.map chunkAddr :=
    hw.fresh_chunk ok (by simp only [chunkAddr, Block.fin]; omega)
  have list := appendChunk_chunks ok pool
  constructor
  · apply update_intact hw.intact
    exact ⟨(hw.intact pool).factory, (hw.intact pool).linked⟩
  · intro b hb
    rcases List.mem_cons.mp hb with rfl | old
    · simp only [chunkAddr, Block.fin]; omega
    · exact hw.room b old
  · intro b hb
    rcases List.mem_cons.mp hb with rfl | old
    · simp [appendChunk, chunkAddr, Block.fin]
    · have other : chunkAddr b ≠ addr := fun same => new (same ▸ List.mem_map_of_mem old)
      simp only [appendChunk, Function.update_of_ne other]
      exact hw.placed b old
  · exact hw.listed
  · intro p hp
    obtain ⟨grown, chunks, blocks⟩ := hw.built p hp
    rw [list p]
    by_cases here : p = pool
    · subst here
      refine ⟨addr :: grown, by simp [chunks], ?_⟩
      intro g hg
      rcases List.mem_cons.mp hg with rfl | old
      · exact ⟨_, List.mem_cons_self, rfl, rfl⟩
      · exact blocks_cons blocks g old
    · exact ⟨grown, by simp [here, chunks], blocks_cons blocks⟩
  · intro p hp
    rw [list p]
    split
    · exact List.nodup_cons.mpr ⟨hw.absent new hpool, hw.once pool hpool⟩
    · exact hw.once p hp
  · intro p hp q hq c hcp hcq
    rcases mem_appendChunk_chunks hcp with oldP | ⟨hereP, newP⟩ <;>
      rcases mem_appendChunk_chunks hcq with oldQ | ⟨hereQ, newQ⟩
    · exact hw.unshared p hp q hq c oldP oldQ
    · exact absurd (newQ ▸ oldP) (hw.absent new hp)
    · exact absurd (newP ▸ oldQ) (hw.absent new hq)
    · rw [hereP, hereQ]

theorem sound_fresh {w : World} (hw : Sound w) {pool size : Nat} (incrSize pos : Nat)
    (name : List Byte) (ok : w.heap.Admits ⟨pool, size, .pool⟩)
    (room : sizeofPool + sizeofChunk ≤ size) :
    Sound (((w.granted _ ok).initPool pool size incrSize name).enlist pool pos) := by
  have header : chunkAddr ⟨pool, size, .pool⟩ = pool + sizeofPool := rfl
  have new : pool + sizeofPool ∉ w.heap.outstanding.map chunkAddr :=
    hw.fresh_chunk ok (by rw [header]; simp only [Block.fin]; omega)
  have unborn : pool ∉ w.live := Sound.fresh_pool ok
  let w' := ((w.granted _ ok).initPool pool size incrSize name).enlist pool pos
  have alive : w'.live = pool :: w.live := rfl
  have mine : (w'.pools pool).chunks = [pool + sizeofPool] := by
    simp [w', enlist, initPool]
  have list : ∀ p ∈ w.live, (w'.pools p).chunks = (w.pools p).chunks := by
    intro p hp
    have other : p ≠ pool := fun same => unborn (same ▸ hp)
    simp [w', enlist, initPool, granted, onChunkAlloc, Function.update_of_ne other]
  constructor
  · apply enlist_intact
    apply update_intact hw.intact
    exact ⟨rfl, rfl⟩
  · intro b hb
    rcases List.mem_cons.mp hb with rfl | old
    · rw [header]; simp only [Block.fin]; omega
    · exact hw.room b old
  · intro b hb
    rcases List.mem_cons.mp hb with rfl | old
    · simp [enlist, initPool, header, Block.fin]
    · have other : chunkAddr b ≠ pool + sizeofPool := fun same =>
        new (same ▸ List.mem_map_of_mem old)
      simp only [enlist, initPool, Function.update_of_ne other]
      exact hw.placed b old
  · exact hw.listed.cons pool
  · intro p hp
    rcases List.mem_cons.mp (alive ▸ hp) with rfl | old
    · exact ⟨[], mine, fun c none => absurd none List.not_mem_nil⟩
    · obtain ⟨grown, chunks, blocks⟩ := hw.built p old
      exact ⟨grown, (list p old).trans chunks, blocks_cons blocks⟩
  · intro p hp
    rcases List.mem_cons.mp (alive ▸ hp) with rfl | old
    · rw [mine]
      exact List.nodup_singleton _
    · rw [list p old]
      exact hw.once p old
  · intro p hp q hq c hcp hcq
    rcases List.mem_cons.mp (alive ▸ hp) with rfl | oldP <;>
      rcases List.mem_cons.mp (alive ▸ hq) with rfl | oldQ
    · rfl
    · rw [mine, List.mem_singleton] at hcp
      rw [list q oldQ, hcp] at hcq
      exact absurd hcq (hw.absent new oldQ)
    · rw [mine, List.mem_singleton] at hcq
      rw [list p oldP, hcq] at hcp
      exact absurd hcp (hw.absent new oldP)
    · rw [list p oldP] at hcp
      rw [list q oldQ] at hcq
      exact hw.unshared p oldP q oldQ c hcp hcq

theorem reuse_chunks (w : World) (i : Fin cachingSize) (pool incrSize : Nat) (rest : List Nat)
    (name : List Byte) (p : Nat) :
    ((((w.reusePool i pool rest incrSize name).enlist pool i).pools p).chunks =
      (w.pools p).chunks) := by
  by_cases here : p = pool
  · subst here
    simp [enlist, reusePool]
  · simp [enlist, reusePool, Function.update_of_ne here]

theorem sound_cached {w : World} (hw : Sound w) {i : Fin cachingSize} {pool : Nat}
    {rest : List Nat} (incrSize : Nat) (name : List Byte)
    (front : w.helper.freePools i = pool :: rest) :
    Sound ((w.reusePool i pool rest incrSize name).enlist pool i) := by
  have lists : ((w.reusePool i pool rest incrSize name).enlist pool i).helper.listed.Perm
      w.helper.listed := by
    change (pool :: (w.helper.usedPools ++ allLists (Function.update _ i rest))).Perm
      (w.helper.usedPools ++ allLists _)
    exact (((allLists_pop _ i pool front).append_left _).trans List.perm_middle).symm
  have intact : ∀ p, (((w.reusePool i pool rest incrSize name).enlist pool i).pools p).Intact := by
    apply enlist_intact
    apply update_intact hw.intact
    exact ⟨(hw.intact pool).factory, (hw.intact pool).linked⟩
  exact hw.congr rfl intact (reuse_chunks w i pool incrSize rest name) (fun _ => ⟨rfl, rfl⟩) lists

theorem sound_kept {w : World} (hw : Sound w) {i : Fin cachingSize} {pool : Nat}
    (used : pool ∈ w.helper.usedPools) : Sound ((w.delist pool).cachePool i pool) := by
  have lists : ((w.delist pool).cachePool i pool).helper.listed.Perm w.helper.listed := by
    change (w.helper.usedPools.erase pool ++ allLists (Function.update _ i (_ ++ [pool]))).Perm
      (w.helper.usedPools ++ allLists w.helper.freePools)
    have pushed :=
      (allLists_push w.helper.freePools i pool).append_left (w.helper.usedPools.erase pool)
    have taken := (List.perm_cons_erase used).symm.append_right (allLists w.helper.freePools)
    exact (pushed.trans List.perm_middle).trans taken
  exact hw.congr rfl hw.intact (fun _ => rfl) (fun _ => ⟨rfl, rfl⟩) lists

/-- The blocks of another pool are not among those that `release_pool2` gives back. -/
theorem Sound.spared {w : World} (hw : Sound w) {p pool : Nat} (hp : p ∈ w.live)
    (hpool : pool ∈ w.live) (other : p ≠ pool) {first : Nat} {rest : List Nat}
    (chunks : (w.pools pool).chunks = first :: rest) {b : Block Use}
    (hb : b ∈ w.heap.outstanding) (mine : chunkAddr b ∈ (w.pools p).chunks) :
    b.addr ∉ rest ++ [pool] := by
  have theirs : ∀ c ∈ rest, c ∈ (w.pools pool).chunks := fun c hc =>
    chunks ▸ List.mem_cons_of_mem _ hc
  obtain ⟨c, hc, same, kind⟩ := hw.chunk_block hp mine
  rw [← hw.chunkAddr_inj hc hb same, List.mem_append, List.mem_singleton, not_or]
  rcases kind with tag | ⟨_, addr⟩
  · have here : c.addr = chunkAddr b := by rw [← same]; simp [chunkAddr, tag]
    rw [here]
    exact ⟨fun taken => other (hw.unshared p hp pool hpool _ mine (theirs _ taken)),
      fun taken => hw.pool_ne_chunk hpool hp mine taken.symm⟩
  · rw [addr]
    exact ⟨fun taken => hw.pool_ne_chunk hp hpool (theirs _ taken) rfl, other⟩

theorem Sound.header_mem {w : World} (hw : Sound w) {b : Block Use}
    (hb : b ∈ w.heap.outstanding) (tag : b.tag = .pool) :
    chunkAddr b ∈ (w.pools b.addr).chunks := by
  obtain ⟨grown, list, _⟩ := hw.built b.addr (mem_live.mpr ⟨b, hb, tag, rfl⟩)
  rw [list]
  simp [chunkAddr, tag]

/-- Discarding a pool ends this one and no other. -/
theorem discarded_live {w w' : World} (hw : Sound w) {pool first : Nat} {rest : List Nat}
    (used : pool ∈ w.helper.usedPools) (chunks : (w.pools pool).chunks = first :: rest)
    (back : GivenBack (w.delist pool) w' (rest ++ [pool])) (p : Nat) :
    p ∈ w'.live ↔ p ∈ w.live ∧ p ≠ pool := by
  constructor
  · intro hp
    obtain ⟨b, hb, tag, rfl⟩ := mem_live.mp hp
    obtain ⟨out, freed⟩ := back.mem.mp hb
    rw [List.mem_append, List.mem_singleton, not_or] at freed
    exact ⟨mem_live.mpr ⟨b, out, tag, rfl⟩, freed.2⟩
  · rintro ⟨hp, other⟩
    obtain ⟨b, hb, tag, rfl⟩ := mem_live.mp hp
    have kept := hw.spared hp (hw.used_live used) other chunks hb (hw.header_mem hb tag)
    exact mem_live.mpr ⟨b, back.mem.mpr ⟨hb, kept⟩, tag, rfl⟩

theorem sound_discarded {w w' : World} (hw : Sound w) {pool : Nat}
    (used : pool ∈ w.helper.usedPools) (given : (w.delist pool).releasePool2 pool = .ok w') :
    Sound w' := by
  obtain ⟨first, rest, chunks, back⟩ := releasePool2_givenBack given
  have alive := discarded_live hw used chunks back
  have out : ∀ b ∈ w'.heap.outstanding, b ∈ w.heap.outstanding := fun b hb => (back.mem.mp hb).1
  constructor
  · rw [back.pools]
    exact hw.intact
  · exact fun b hb => hw.room b (out b hb)
  · intro b hb
    rw [back.chunks]
    exact hw.placed b (out b hb)
  · obtain ⟨n, helper⟩ := back.helper
    have listed :
        w'.helper.listed = w.helper.usedPools.erase pool ++ allLists w.helper.freePools := by
      rw [helper]
      rfl
    have perm : w.helper.listed.Perm (pool :: w'.helper.listed) := by
      rw [listed]
      exact (List.perm_cons_erase used).append_right _
    have split := List.nodup_cons.mp (perm.nodup_iff.mp hw.nodup_listed)
    rw [List.perm_ext_iff_of_nodup split.2 w'.nodup_live]
    intro p
    rw [alive, ← hw.listed.mem_iff, perm.mem_iff, List.mem_cons]
    constructor
    · intro hp
      exact ⟨.inr hp, fun same => split.1 (same ▸ hp)⟩
    · rintro ⟨same | hp, other⟩
      · exact absurd same other
      · exact hp
  · intro p hp
    obtain ⟨old, other⟩ := (alive p).mp hp
    obtain ⟨grown, list, blocks⟩ := hw.built p old
    rw [back.pools]
    refine ⟨grown, list, ?_⟩
    intro g hg
    obtain ⟨b, hb, tag, rfl⟩ := blocks g hg
    have mine : chunkAddr b ∈ (w.pools p).chunks := by
      rw [list]
      simp [chunkAddr, tag, hg]
    have kept := hw.spared old (hw.used_live used) other chunks hb mine
    exact ⟨b, back.mem.mpr ⟨hb, kept⟩, tag, rfl⟩
  · intro p hp
    rw [back.pools]
    exact hw.once p ((alive p).mp hp).1
  · intro p hp q hq c
    rw [back.pools]
    exact hw.unshared p ((alive p).mp hp).1 q ((alive q).mp hq).1 c

/-! ## Whole runs -/

theorem change_sound {w w' : World} {call : Call} (hw : Sound w) (h : Change call w w') :
    Sound w' := by
  cases h with
  | refused n _ => exact sound_refused hw n
  | fresh pool size incrSize pos name _ ok room _ _ =>
    exact sound_fresh hw incrSize pos name ok room
  | cached i pool incrSize rest name front => exact sound_cached hw incrSize name front
  | take pool chunk size _ _ => exact sound_take hw chunk size
  | grow pool addr n _ used ok room => exact sound_grow hw (hw.used_live used) ok room
  | kept i pool used _ _ => exact sound_kept hw used
  | discarded pool w' _ used _ given => exact sound_discarded hw used given

/-- The rule for invariants: what every change keeps in a sound world, every call
keeps. A release changes the world it was called in. -/
theorem exec_keeps {P : World → Prop} {w w' : World} {call : Call} {result : Nat}
    (keep : ∀ v v', (∀ pool, call = .release pool → v = w) → Sound v → P v → Change call v v' →
      P v')
    (short : call.Short) (hw : Sound w ∧ P w) (h : w.exec call = .ok (result, w')) :
    Sound w' ∧ P w' := by
  rcases exec_changes short h with (rfl | change) | ⟨other, changes⟩
  · exact hw
  · exact ⟨change_sound hw.1 change, keep w w' (fun _ _ => rfl) hw.1 hw.2 change⟩
  · clear h
    induction changes with
    | refl => exact hw
    | tail _ change ih =>
      exact ⟨change_sound ih.1 change,
        keep _ _ (fun pool asked => absurd asked (other pool)) ih.1 ih.2 change⟩

theorem reachable_sound {policy : Policy} {maxCapacity : Nat} {w : World}
    (h : (shortPool policy maxCapacity).Reachable w) : Sound w := by
  apply System.invariant _ _ _ h
  · rintro w rfl
    exact sound_init policy maxCapacity
  · rintro w call w' hw ⟨short, result, step⟩
    exact (exec_keeps (P := fun _ => True) (fun _ _ _ _ _ _ => trivial) short ⟨hw, trivial⟩
      step).1

end World

end Libatp.Pools
