import Libatp.Pools.Layout

/-!
# Every block is given back once, as it was obtained

`release_pool2` takes the head of the chunk list for the chunk inside the pool's
own block. That is what it is as long as the pool has not grown: later chunks are
inserted at the head. For a pool with one chunk the accounts balance; for any
other they do not.
-/

namespace Libatp.Pools
open Base

namespace World

/-- The pool still has its first chunk only. -/
def Ungrown (w : World) (pool : Nat) : Prop := (w.pools pool).chunks.length = 1

/-- Pools that have grown are not released for good. -/
def ReleasesUngrown (w : World) : Call → Prop
  | .release pool => pool ∈ w.helper.usedPools → (w.delist pool).Discards pool → w.Ungrown pool
  | .create _ _ _ _ | .alloc _ _ _ => True

structure Conserved (w : World) : Prop where
  balanced : w.heap.Balanced
  owned : ∀ b ∈ w.heap.outstanding, ∃ pool ∈ w.live, chunkAddr b ∈ (w.pools pool).chunks

/-- The helper's count of bytes is that of the blocks that are out. -/
def Counted (w : World) : Prop := w.helper.usedSize = w.heap.total

theorem conserved_congr {w w' : World} (hw : Conserved w) (heap : w'.heap = w.heap)
    (pools : ∀ p, (w'.pools p).chunks = (w.pools p).chunks) : Conserved w' := by
  have alive : w'.live = w.live := by unfold live; rw [heap]
  constructor
  · rw [heap]
    exact hw.balanced
  · intro b hb
    rw [heap] at hb
    obtain ⟨pool, hpool, mine⟩ := hw.owned b hb
    exact ⟨pool, alive ▸ hpool, by rw [pools]; exact mine⟩

theorem conserved_grow {w : World} (hw : Conserved w) {pool addr n : Nat} (hpool : pool ∈ w.live)
    (ok : w.heap.Admits ⟨addr, n, .chunk⟩) :
    Conserved ((w.granted _ ok).appendChunk pool addr n) := by
  constructor
  · exact hw.balanced.grant _ ok
  · intro b hb
    rcases List.mem_cons.mp hb with rfl | old
    · exact ⟨pool, hpool, by simp [appendChunk, chunkAddr]⟩
    · obtain ⟨p, hp, mine⟩ := hw.owned b old
      refine ⟨p, hp, ?_⟩
      by_cases here : p = pool
      · subst here
        simp only [appendChunk, Function.update_self]
        exact List.mem_cons_of_mem _ mine
      · simp only [appendChunk, Function.update_of_ne here]
        exact mine

theorem conserved_fresh {w : World} (hw : Conserved w) {pool size : Nat} (incrSize pos : Nat)
    (name : List Byte) (ok : w.heap.Admits ⟨pool, size, .pool⟩) :
    Conserved (((w.granted _ ok).initPool pool size incrSize name).enlist pool pos) := by
  constructor
  · exact hw.balanced.grant _ ok
  · intro b hb
    rcases List.mem_cons.mp hb with rfl | old
    · exact ⟨pool, List.mem_cons_self, by simp [enlist, initPool, chunkAddr]⟩
    · obtain ⟨p, hp, mine⟩ := hw.owned b old
      have other : p ≠ pool := fun same => Sound.fresh_pool ok (same ▸ hp)
      refine ⟨p, List.mem_cons_of_mem _ hp, ?_⟩
      simp only [enlist, initPool, Function.update_of_ne other]
      exact mine

/-- A pool with one chunk is given back as the block it was obtained as. -/
theorem releasePool2_ungrown {w : World} {b : Block Use} (hb : b ∈ w.heap.outstanding)
    (intact : (w.pools b.addr).Intact) (tag : b.tag = .pool)
    (chunks : (w.pools b.addr).chunks = [b.addr + sizeofPool])
    (fin : (w.chunks (chunkAddr b)).fin = b.fin) :
    w.releasePool2 b.addr = .ok (w.chunkFree b.addr b.size) := by
  have header : chunkAddr b = b.addr + sizeofPool := by simp [chunkAddr, tag]
  have size : wsub b.fin b.addr = b.size := by
    rw [wsub_of_le (by unfold Block.fin; omega) (w.heap.proper b hb).2.2]
    unfold Block.fin
    omega
  unfold releasePool2
  rw [follow_true intact.linked, ok_bind, chunks]
  simp only [follow_true intact.factory, ok_bind, List.foldl_nil, ← header, fin, size]

theorem Sound.ungrown_chunks {w : World} (hw : Sound w) {pool : Nat} (hpool : pool ∈ w.live)
    (single : w.Ungrown pool) : (w.pools pool).chunks = [pool + sizeofPool] := by
  obtain ⟨grown, list, _⟩ := hw.built pool hpool
  unfold Ungrown at single
  rw [list] at single ⊢
  have none : grown = [] := by
    rw [← List.length_eq_zero_iff]
    simpa using single
  rw [none, List.nil_append]

/-- The release of a pool that has not grown frees its block and nothing else. -/
theorem discard_ungrown {w w' : World} (hw : Sound w) {pool : Nat}
    (used : pool ∈ w.helper.usedPools) (single : w.Ungrown pool)
    (given : (w.delist pool).releasePool2 pool = .ok w') :
    ∃ b ∈ w.heap.outstanding, b.tag = .pool ∧ b.addr = pool ∧
      w' = (w.delist pool).chunkFree b.addr b.size := by
  have hpool := hw.used_live used
  have chunks := hw.ungrown_chunks hpool single
  obtain ⟨b, hb, tag, rfl⟩ := mem_live.mp hpool
  have released : (w.delist b.addr).releasePool2 b.addr = _ :=
    releasePool2_ungrown hb (hw.intact b.addr) tag chunks (hw.placed b hb).2
  rw [released] at given
  cases given
  exact ⟨b, hb, tag, rfl, rfl⟩

theorem conserved_discarded {w w' : World} (hs : Sound w) (hw : Conserved w) {pool : Nat}
    (used : pool ∈ w.helper.usedPools) (single : w.Ungrown pool)
    (given : (w.delist pool).releasePool2 pool = .ok w') : Conserved w' := by
  have chunks := hs.ungrown_chunks (hs.used_live used) single
  obtain ⟨b, hb, tag, rfl, rfl⟩ := discard_ungrown hs used single given
  constructor
  · exact hw.balanced.free hb
  · intro c hc
    obtain ⟨old, other⟩ := Heap.mem_free.mp hc
    obtain ⟨p, hp, mine⟩ := hw.owned c old
    have survivor : p ≠ b.addr := by
      rintro rfl
      rw [chunks, List.mem_singleton] at mine
      have same : chunkAddr c = chunkAddr b := by rw [mine]; simp [chunkAddr, tag]
      exact other (congrArg Block.addr (hs.chunkAddr_inj old hb same))
    obtain ⟨d, hd, dtag, rfl⟩ := mem_live.mp hp
    exact ⟨d.addr, mem_live.mpr ⟨d, Heap.mem_free.mpr ⟨hd, survivor⟩, dtag, rfl⟩, mine⟩

theorem change_conserved {w w' : World} {call : Call} (allowed : w.ReleasesUngrown call)
    (hs : Sound w) (hw : Conserved w) (h : Change call w w') : Conserved w' := by
  cases h with
  | refused n _ => exact conserved_congr hw rfl (fun _ => rfl)
  | fresh pool size incrSize pos name _ ok _ _ _ => exact conserved_fresh hw incrSize pos name ok
  | cached i pool incrSize rest name _ =>
    exact conserved_congr hw rfl (reuse_chunks w i pool incrSize rest name)
  | take pool chunk size _ _ => exact conserved_congr hw (by simp) (by simp)
  | grow pool addr n _ used ok _ => exact conserved_grow hw (hs.used_live used) ok
  | kept i pool _ _ _ => exact conserved_congr hw rfl (fun _ => rfl)
  | discarded pool w' asked used discard given =>
    subst asked
    exact conserved_discarded hs hw used (allowed used discard) given

/-! ## The count of bytes -/

theorem counted_granted {w : World} (counts : w.helper.policy.counts = true) (hw : Counted w)
    {b : Block Use} (ok : w.heap.Admits b) : Counted (w.granted b ok) := by
  have fits := (w.heap.grant b ok).total_lt
  have sum : (w.heap.grant b ok).total = b.size + w.heap.total := rfl
  unfold Counted at hw ⊢
  simp only [granted, onChunkAlloc, counts, if_true, hw]
  rw [wrap_of_lt (by omega), sum, Nat.add_comm]

theorem counted_free {w : World} (counts : w.helper.policy.counts = true) (hw : Counted w)
    {b : Block Use} (hb : b ∈ w.heap.outstanding) : Counted (w.chunkFree b.addr b.size) := by
  have fits := w.heap.total_lt
  have sum := w.heap.total_free hb b.size
  unfold Counted at hw ⊢
  simp only [chunkFree, onChunkFree, counts, if_true, hw]
  rw [wsub_of_le (by omega) fits]
  omega

theorem change_counted {w w' : World} {call : Call} (allowed : w.ReleasesUngrown call)
    (granted : ¬ call.Refused) (hs : Sound w)
    (hw : w.helper.policy.counts = true ∧ Counted w) (h : Change call w w') :
    w'.helper.policy.counts = true ∧ Counted w' := by
  cases h with
  | refused n null => exact absurd null granted
  | fresh pool size incrSize pos name _ ok _ _ _ => exact ⟨hw.1, counted_granted hw.1 hw.2 ok⟩
  | cached i pool incrSize rest name _ => exact hw
  | take pool chunk size _ _ => simpa [Counted] using hw
  | grow pool addr n _ used ok _ => exact ⟨hw.1, counted_granted hw.1 hw.2 ok⟩
  | kept i pool _ _ _ => exact hw
  | discarded pool w' asked used discard given =>
    subst asked
    obtain ⟨b, hb, _, rfl, rfl⟩ := discard_ungrown hs used (allowed used discard) given
    exact ⟨hw.1, counted_free (w := w.delist b.addr) hw.1 hw.2 hb⟩

/-! ## The end of a helper -/

/-- What is out are the blocks of these pools, none of which has grown. -/
structure Draining (w : World) (pools : List Nat) : Prop where
  intact : ∀ pool, (w.pools pool).Intact
  out : (w.heap.outstanding.map Block.addr).Perm pools
  single : ∀ b ∈ w.heap.outstanding, b.tag = .pool ∧
    (w.pools b.addr).chunks = [b.addr + sizeofPool] ∧ (w.chunks (chunkAddr b)).fin = b.fin
  balanced : w.heap.Balanced

theorem Draining.next {w : World} {pool : Nat} {pools : List Nat}
    (hw : Draining w (pool :: pools)) : ∃ b ∈ w.heap.outstanding,
      w.releasePool2 pool = .ok (w.chunkFree b.addr b.size) ∧
      Draining (w.chunkFree b.addr b.size) pools := by
  obtain ⟨b, hb, rfl⟩ := List.mem_map.mp (hw.out.mem_iff.mpr List.mem_cons_self)
  obtain ⟨tag, chunks, fin⟩ := hw.single b hb
  refine ⟨b, hb, releasePool2_ungrown hb (hw.intact b.addr) tag chunks fin, ?_⟩
  constructor
  · exact hw.intact
  · have rest := (w.heap.perm_free hb b.size).map Block.addr
    exact List.Perm.cons_inv (rest.symm.trans hw.out)
  · intro c hc
    exact hw.single c (Heap.mem_free.mp hc).1
  · exact hw.balanced.free hb

theorem Draining.all {w : World} {pools : List Nat} (hw : Draining w pools) :
    ∃ w', pools.foldlM releasePool2 w = .ok w' ∧ w'.heap.outstanding = [] ∧ w'.heap.Balanced ∧
      (w.helper.policy.counts = true → Counted w → Counted w') := by
  induction pools generalizing w with
  | nil =>
    have none : w.heap.outstanding = [] := List.map_eq_nil_iff.mp hw.out.eq_nil
    exact ⟨w, rfl, none, hw.balanced, fun _ same => same⟩
  | cons pool pools ih =>
    obtain ⟨b, hb, released, rest⟩ := hw.next
    obtain ⟨w', done, none, balanced, counted⟩ := ih rest
    refine ⟨w', ?_, none, balanced, ?_⟩
    · rw [List.foldlM_cons, released]
      exact done
    · intro counts same
      exact counted counts (counted_free counts same hb)

def AllUngrown (w : World) : Prop := ∀ pool ∈ w.helper.listed, w.Ungrown pool

theorem draining_start {w : World} (hs : Sound w) (hw : Conserved w) (single : AllUngrown w) :
    Draining w w.helper.listed := by
  have chunks : ∀ pool ∈ w.live, (w.pools pool).chunks = [pool + sizeofPool] := by
    intro pool hpool
    exact hs.ungrown_chunks hpool (single pool (hs.listed.mem_iff.mpr hpool))
  have own : ∀ b ∈ w.heap.outstanding, b.tag = .pool := by
    intro b hb
    obtain ⟨pool, hpool, mine⟩ := hw.owned b hb
    obtain ⟨c, hc, tag, rfl⟩ := mem_live.mp hpool
    rw [chunks _ hpool, List.mem_singleton] at mine
    have same : b = c := hs.chunkAddr_inj hb hc (by rw [mine]; simp [chunkAddr, tag])
    exact same ▸ tag
  have live : w.live = w.heap.outstanding.map Block.addr := by
    unfold live
    rw [List.filter_eq_self.mpr fun b hb => decide_eq_true (own b hb)]
  constructor
  · exact hs.intact
  · rw [← live]
    exact hs.listed.symm
  · intro b hb
    exact ⟨own b hb, chunks b.addr (live ▸ List.mem_map_of_mem hb), (hs.placed b hb).2⟩
  · exact hw.balanced

theorem destroy_ungrown {w : World} (hs : Sound w) (hw : Conserved w) (single : AllUngrown w) :
    ∃ w', w.poolHelperDestroy = .ok w' ∧ w'.heap.outstanding = [] ∧
      w'.heap.obtained.Perm w'.heap.freed ∧
      (w.helper.policy.counts = true → Counted w → w'.helper.usedSize = 0) := by
  obtain ⟨w₁, done, none, balanced, counted⟩ := (draining_start hs hw single).all
  refine ⟨{ w₁ with helper := { w₁.helper with usedPools := [], freePools := fun _ => [] } },
    ?_, none, ?_, ?_⟩
  · unfold poolHelperDestroy
    rw [done]
    rfl
  · unfold Heap.Balanced Heap.pairs at balanced
    rwa [none, List.map_nil, List.append_nil] at balanced
  · intro counts same
    have total : w₁.heap.total = 0 := by unfold Heap.total; rw [none]; rfl
    exact (counted counts same).trans total

/-! ## A pool that has grown -/

theorem freeChunks_freed (w : World) (chunks : List Nat) :
    (chunks.foldl freeChunk w).heap.obtained = w.heap.obtained ∧
    ∃ log, (chunks.foldl freeChunk w).heap.freed = w.heap.freed ++ log := by
  induction chunks generalizing w with
  | nil => exact ⟨rfl, [], (List.append_nil _).symm⟩
  | cons chunk chunks ih =>
    obtain ⟨obtained, log, freed⟩ := ih (w.freeChunk chunk)
    let pair := (chunk, wsub (w.chunks chunk).fin (w.chunks chunk).buf)
    have one : (w.freeChunk chunk).heap.freed = w.heap.freed ++ [pair] := rfl
    refine ⟨obtained, pair :: log, ?_⟩
    rw [List.foldl_cons, freed, one, List.append_assoc, List.singleton_append]

theorem releasePool2_freed {w w' : World} {pool first : Nat} {rest : List Nat}
    (chunks : (w.pools pool).chunks = first :: rest) (h : w.releasePool2 pool = .ok w') :
    w'.heap.obtained = w.heap.obtained ∧ ∃ log,
      w'.heap.freed = w.heap.freed ++ (log ++ [(pool, wsub (w.chunks first).fin pool)]) := by
  obtain ⟨obtained, log, freed⟩ := freeChunks_freed w rest
  unfold releasePool2 at h
  obtain ⟨_, _, h⟩ := bind_ok_iff.mp h
  rw [chunks] at h
  obtain ⟨_, _, h⟩ := bind_ok_iff.mp h
  cases h
  refine ⟨obtained, log, ?_⟩
  rw [← List.append_assoc, ← freed]
  rfl

/-- The release of a pool that has grown gives back its own block with the end of
another one. -/
theorem discard_grown {w w' : World} (hs : Sound w) (hw : w.heap.Balanced) {pool : Nat}
    (used : pool ∈ w.helper.usedPools) (grown : ¬ w.Ungrown pool)
    (given : (w.delist pool).releasePool2 pool = .ok w') : ¬ w'.heap.Balanced := by
  intro balanced
  obtain ⟨d, hd, tag, rfl⟩ := mem_live.mp (hs.used_live used)
  obtain ⟨later, list, blocks⟩ := hs.built d.addr (hs.used_live used)
  cases later with
  | nil => exact grown (by unfold Ungrown; rw [list]; rfl)
  | cons first later =>
    obtain ⟨c, hc, ctag, rfl⟩ := blocks first List.mem_cons_self
    have fin : (w.chunks c.addr).fin = c.fin := by
      have placed := (hs.placed c hc).2
      simpa [chunkAddr, ctag] using placed
    obtain ⟨obtained, log, freed⟩ := releasePool2_freed (w := w.delist d.addr) list given
    have same : w.heap.pairs.Perm (log ++ [(d.addr, wsub c.fin d.addr)] ++ w'.heap.pairs) := by
      unfold Heap.Balanced at balanced hw
      rw [obtained, freed, List.append_assoc] at balanced
      have cancel := (List.perm_append_left_iff _).mp (hw.symm.trans balanced)
      simpa [delist, fin] using cancel
    have mem : (d.addr, wsub c.fin d.addr) ∈ w.heap.pairs :=
      same.mem_iff.mpr (by simp)
    obtain ⟨b, hb, pair⟩ := List.mem_map.mp mem
    have addr : b.addr = d.addr := congrArg Prod.fst pair
    have size : b.size = wsub c.fin d.addr := congrArg Prod.snd pair
    rw [w.heap.eq_of_addr hb hd addr] at size
    have bounds := And.intro (w.heap.proper c hc) (w.heap.proper d hd)
    have different : c ≠ d := by
      rintro rfl
      rw [ctag] at tag
      cases tag
    have apart := w.heap.apart.forall hc hd different
    simp only [Block.Proper, Block.Apart, Block.fin] at bounds apart size
    by_cases above : d.addr ≤ c.addr + c.size
    · rw [wsub_of_le above bounds.1.2.2] at size
      omega
    · have wrapped : wsub (c.addr + c.size) d.addr = wordSize - d.addr + (c.addr + c.size) :=
        wrap_of_lt (by omega)
      omega

end World

/-! ## Whole runs -/

section
variable {policy : Policy} {maxCapacity : Nat} {w : World}
open World

theorem reachable_conserved
    (h : ((shortPool policy maxCapacity).restrict ReleasesUngrown).Reachable w) :
    Sound w ∧ Conserved w := by
  apply System.invariant _ _ _ h
  · rintro w rfl
    exact ⟨sound_init policy maxCapacity, List.Perm.refl _, nofun⟩
  · rintro w call w' hw ⟨allowed, short, result, step⟩
    apply exec_keeps _ short hw step
    intro v v' start hs hv change
    apply change_conserved _ hs hv change
    cases call with
    | release pool => exact start pool rfl ▸ allowed
    | create | alloc => trivial

theorem reachable_counted (counts : policy.counts = true)
    (h : ((shortPool policy maxCapacity).restrict
      fun w call => w.ReleasesUngrown call ∧ ¬ call.Refused).Reachable w) :
    Sound w ∧ w.helper.policy.counts = true ∧ Counted w := by
  apply System.invariant _ _ _ h
  · rintro w rfl
    exact ⟨sound_init policy maxCapacity, counts, rfl⟩
  · rintro w call w' hw ⟨allowed, short, result, step⟩
    apply exec_keeps _ short hw step
    intro v v' start hs hv change
    apply change_counted _ allowed.2 hs hv change
    cases call with
    | release pool => exact start pool rfl ▸ allowed.1
    | create | alloc => trivial

end

open World

/-- **Blocks are conserved** in every run with names that fit that releases for good only
pools with one chunk: what was given back is what was obtained, without what is still out, and
destroying a helper whose pools have one chunk leaves nothing out. A policy that
counts has the sum of what is out, as long as no allocation fails. Releasing any
other pool breaks the balance. -/
theorem blocks_conserved (policy : Policy) (maxCapacity : Nat) :
    (∀ w, ((shortPool policy maxCapacity).restrict ReleasesUngrown).Reachable w →
      w.heap.Balanced ∧
      (AllUngrown w → ∃ w', w.poolHelperDestroy = .ok w' ∧ w'.heap.outstanding = [] ∧
        w'.heap.obtained.Perm w'.heap.freed) ∧
      ∀ pool ∈ w.helper.usedPools, ¬ w.Ungrown pool →
        ∀ w', (w.delist pool).releasePool2 pool = .ok w' → ¬ w'.heap.Balanced) ∧
    (policy.counts = true → ∀ w, ((shortPool policy maxCapacity).restrict
        fun w call => w.ReleasesUngrown call ∧ ¬ call.Refused).Reachable w →
      w.helper.usedSize = w.heap.total ∧
      (AllUngrown w → ∀ w', w.poolHelperDestroy = .ok w' → w'.helper.usedSize = 0)) := by
  constructor
  · intro w h
    obtain ⟨hs, hw⟩ := reachable_conserved h
    refine ⟨hw.balanced, ?_, ?_⟩
    · intro single
      obtain ⟨w', done, none, balanced, _⟩ := destroy_ungrown hs hw single
      exact ⟨w', done, none, balanced⟩
    · intro pool used grown w' given
      exact discard_grown hs hw.balanced used grown given
  · intro counts w h
    obtain ⟨hs, still, counted⟩ := reachable_counted counts h
    refine ⟨counted, ?_⟩
    intro single w' destroyed
    have hw := (reachable_conserved (System.restrict_mono (fun _ _ both => both.1) h)).2
    obtain ⟨w₁, done, _, _, zero⟩ := destroy_ungrown hs hw single
    rw [done] at destroyed
    cases destroyed
    exact zero still counted

/-- One pool, destroyed with its helper. -/
theorem blocks_conserved_single : ∃ w : World, w.helper.usedSize = 256 ∧ w.heap.Balanced ∧
    ∃ w', w.poolHelperDestroy = .ok w' ∧ w'.heap.outstanding = [] ∧
      w'.heap.obtained.Perm w'.heap.freed ∧ w'.helper.usedSize = 0 := by
  let call : Call := .create [] 256 256 (.block 4096 fun _ => 0)
  let w := (init defaultPolicy 0).after call
  have run : ((shortPool defaultPolicy 0).restrict
      fun w call => w.ReleasesUngrown call ∧ ¬ call.Refused).Reachable w :=
    (System.Reachable.start rfl).allow
      (short_step (Nat.zero_le _)
        (by decide +kernel : ((init defaultPolicy 0).exec call).isOk = true))
      ⟨trivial, nofun⟩
  have single : AllUngrown w := by
    intro pool hpool
    have listed : w.helper.listed = [4096] := by decide +kernel
    rw [listed, List.mem_singleton] at hpool
    subst hpool
    unfold Ungrown
    decide +kernel
  obtain ⟨_, counted⟩ := blocks_conserved defaultPolicy 0
  have conserved := (blocks_conserved defaultPolicy 0).1 w
    (System.restrict_mono (fun _ _ both => both.1) run)
  obtain ⟨w', done, none, balanced⟩ := conserved.2.1 single
  have size : w.helper.usedSize = 256 := by decide +kernel
  exact ⟨w, size, conserved.1, w', done, none, balanced, (counted rfl w run).2 single w' done⟩

/-- A pool of 256 bytes grows by a chunk of 256 bytes and is released. Freed are an
address inside its block, and the block with a size that reaches to the end of the
chunk; the chunk stays out. -/
theorem grown_pool_unbalanced : ∃ w, (shortPool defaultPolicy 0).Reachable w ∧
    w.heap.obtained = [(4096, 256), (8192, 256)] ∧ w.heap.freed = [(4224, 88), (4096, 4352)] ∧
    w.heap.pairs = [(8192, 256)] ∧ ¬ w.heap.Balanced := by
  let w₁ := (init defaultPolicy 0).after (.create [] 256 256 (.block 4096 fun _ => 0))
  let w₂ := w₁.after (.alloc 4096 200 (.block 8192 fun _ => 0))
  let w₃ := w₂.after (.release 4096)
  have run : (shortPool defaultPolicy 0).Reachable w₃ :=
    (System.Reachable.start rfl).next
        (short_step (Nat.zero_le _) (by decide +kernel : (Except.isOk _) = true))
      |>.next (short_step (by trivial) (by decide +kernel))
      |>.next (short_step (by trivial) (by decide +kernel))
  have obtained : w₃.heap.obtained = [(4096, 256), (8192, 256)] := by decide +kernel
  have freed : w₃.heap.freed = [(4224, 88), (4096, 4352)] := by decide +kernel
  refine ⟨w₃, run, obtained, freed, by decide +kernel, ?_⟩
  intro balanced
  have mem : (4224, 88) ∈ w₃.heap.obtained := by
    apply balanced.mem_iff.mpr
    rw [freed]
    exact List.mem_append_left _ List.mem_cons_self
  rw [obtained] at mem
  exact absurd mem (by decide)

end Libatp.Pools
