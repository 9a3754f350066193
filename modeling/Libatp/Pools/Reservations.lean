import Libatp.Pools.Layout

/-!
# What `pool_alloc` hands out does not overlap

If the policy returns aligned blocks, every chunk has its cursor between its two
bounds, and what was taken from it lies between its header and its cursor. Blocks
are apart, so what was taken from different chunks is apart as well.
-/

namespace Libatp.Pools
open Base

def Reservation.Apart (r s : Reservation) : Prop := r.stop ≤ s.mem ∨ s.stop ≤ r.mem

/-- The policy returns blocks at multiples of `poolAlign`. -/
def Call.Aligned (call : Call) : Prop := ∀ addr, call.Gives addr → addr % poolAlign = 0

theorem Call.aligned_create {addr : Nat} (aligned : addr % poolAlign = 0) (name : List Byte)
    (initSize incrSize : Nat) (contents : Nat → Byte) :
    (Call.create name initSize incrSize (.block addr contents)).Aligned := by
  rintro _ ⟨_, same⟩
  cases same
  exact aligned

theorem alignPtr_aligned {p : Nat} (aligned : p % poolAlign = 0) (word : p < wordSize) :
    alignPtr p = p := by
  have rest : wsub 0 p % poolAlign = 0 := by
    unfold wsub wrap
    simp only [poolAlign, wordSize] at *
    omega
  unfold alignPtr
  rw [rest, Nat.add_zero, wrap_of_lt word]

theorem roundSize_aligned (size : Nat) : roundSize size % poolAlign = 0 := by
  unfold roundSize
  split
  · exact Nat.mul_mod_left _ _
  · omega

namespace World

/-- Cursors are aligned and between the bounds of their chunk, and what was taken
lies before them. -/
structure Tidy (w : World) : Prop where
  aligned : ∀ b ∈ w.heap.outstanding, b.addr % poolAlign = 0
  cursor : ∀ b ∈ w.heap.outstanding, (w.chunks (chunkAddr b)).buf ≤ (w.chunks (chunkAddr b)).cur ∧
    (w.chunks (chunkAddr b)).cur ≤ (w.chunks (chunkAddr b)).fin ∧
    (w.chunks (chunkAddr b)).cur % poolAlign = 0
  held : ∀ r ∈ w.reserved, r.chunk ∈ w.heap.outstanding.map chunkAddr
  inside : ∀ r ∈ w.reserved, (w.chunks r.chunk).buf ≤ r.mem ∧ r.mem ≤ r.stop ∧
    r.stop ≤ (w.chunks r.chunk).cur ∧ r.mem % poolAlign = 0
  apart : w.reserved.Pairwise Reservation.Apart

theorem tidy_congr {w w' : World} (hw : Tidy w) (heap : w'.heap = w.heap)
    (chunks : w'.chunks = w.chunks) (reserved : w'.reserved = w.reserved) : Tidy w' := by
  constructor
  · rw [heap]
    exact hw.aligned
  · rw [heap, chunks]
    exact hw.cursor
  · rw [heap, reserved]
    exact hw.held
  · rw [chunks, reserved]
    exact hw.inside
  · rw [reserved]
    exact hw.apart

/-- A new block with the header of a chunk in it. -/
theorem tidy_granted {w w' : World} (hs : Sound w) (hw : Tidy w) {b : Block Use}
    (ok : w.heap.Admits b) (room : chunkAddr b + sizeofChunk ≤ b.fin)
    (aligned : b.addr % poolAlign = 0) (heap : w'.heap.outstanding = b :: w.heap.outstanding)
    (chunks : w'.chunks = Function.update w.chunks (chunkAddr b)
      ⟨chunkAddr b + sizeofChunk, alignPtr (chunkAddr b + sizeofChunk), b.fin⟩)
    (reserved : w'.reserved = w.reserved) : Tidy w' := by
  have new := hs.fresh_chunk ok room
  have same : ∀ c ∈ w.heap.outstanding.map chunkAddr, w'.chunks c = w.chunks c := by
    intro c hc
    have other : c ≠ chunkAddr b := fun here => new (here ▸ hc)
    rw [chunks, Function.update_of_ne other]
  have start : (chunkAddr b + sizeofChunk) % poolAlign = 0 := by
    unfold chunkAddr
    simp only [sizeofPool, sizeofChunk, poolAlign] at *
    split <;> omega
  constructor
  · rw [heap]
    exact List.forall_mem_cons.mpr ⟨aligned, hw.aligned⟩
  · intro c hc
    rw [heap] at hc
    rcases List.mem_cons.mp hc with rfl | old
    · rw [chunks, Function.update_self]
      dsimp only
      rw [alignPtr_aligned start (room.trans_lt ok.1.2.2)]
      exact ⟨Nat.le_refl _, room, start⟩
    · rw [same _ (List.mem_map_of_mem old)]
      exact hw.cursor c old
  · intro r hr
    rw [reserved] at hr
    rw [heap]
    exact List.mem_cons_of_mem _ (hw.held r hr)
  · intro r hr
    rw [reserved] at hr
    rw [same _ (hw.held r hr)]
    exact hw.inside r hr
  · rw [reserved]
    exact hw.apart

/-- What was taken from a chunk is inside the chunk's block. -/
theorem inside_block {w : World} (hs : Sound w) (hw : Tidy w) {r : Reservation}
    (hr : r ∈ w.reserved) : ∃ b ∈ w.heap.outstanding, chunkAddr b = r.chunk ∧
      chunkAddr b + sizeofChunk ≤ r.mem ∧ r.mem ≤ r.stop ∧ r.stop ≤ b.fin := by
  obtain ⟨b, hb, here⟩ := List.mem_map.mp (hw.held r hr)
  have inside := hw.inside r hr
  have cursor := hw.cursor b hb
  have placed := hs.placed b hb
  rw [← here] at inside
  exact ⟨b, hb, here, by omega, inside.2.1, by omega⟩

/-- What lies between the cursor of a chunk and its end was not taken before. -/
theorem apart_from_cursor {w : World} (hs : Sound w) (hw : Tidy w) {b : Block Use}
    (hb : b ∈ w.heap.outstanding) {stop : Nat} (inside : stop ≤ b.fin) {r : Reservation}
    (hr : r ∈ w.reserved) :
    Reservation.Apart ⟨chunkAddr b, (w.chunks (chunkAddr b)).cur, stop⟩ r := by
  obtain ⟨c, hc, there, first, _, last⟩ := inside_block hs hw hr
  have cursor := hw.cursor b hb
  have placed := hs.placed b hb
  by_cases same : c = b
  · subst same
    have before := hw.inside r hr
    rw [← there] at before
    exact .inr before.2.2.1
  · have start := (chunkAddr_inside (hs.room b hb)).1
    have start' := (chunkAddr_inside (hs.room c hc)).1
    unfold Reservation.Apart
    dsimp only
    rcases w.heap.apart.forall hc hb same with apart | apart <;> omega

theorem tidy_take {w : World} (hs : Sound w) (hw : Tidy w) {chunk : Nat} (size : Nat)
    (resident : chunk ∈ w.heap.outstanding.map chunkAddr) :
    Tidy (w.poolAllocFromChunk chunk size).2 := by
  obtain ⟨b, hb, rfl⟩ := List.mem_map.mp resident
  have cursor := hw.cursor b hb
  have placed := hs.placed b hb
  have word : b.fin < wordSize := (w.heap.proper b hb).2.2
  unfold poolAllocFromChunk
  dsimp only
  split_ifs with zero fits
  · exact hw
  · rw [wsub_of_le cursor.2.1 (by omega)] at fits
    have moved : wrap ((w.chunks (chunkAddr b)).cur + roundSize size) =
        (w.chunks (chunkAddr b)).cur + roundSize size := wrap_of_lt (by omega)
    rw [moved]
    have rounded := roundSize_aligned size
    constructor
    · exact hw.aligned
    · intro c hc
      by_cases here : chunkAddr c = chunkAddr b
      · rw [here]
        simp only [Function.update_self]
        simp only [poolAlign] at *
        omega
      · simp only [Function.update_of_ne here]
        exact hw.cursor c hc
    · exact List.forall_mem_cons.mpr ⟨resident, hw.held⟩
    · intro r hr
      rcases List.mem_cons.mp hr with rfl | old
      · simp only [Function.update_self]
        omega
      · have inside := hw.inside r old
        by_cases here : r.chunk = chunkAddr b
        · rw [here] at inside ⊢
          simp only [Function.update_self]
          omega
        · simp only [Function.update_of_ne here]
          exact inside
    · apply List.pairwise_cons.mpr
      constructor
      · intro r hr
        exact apart_from_cursor hs hw hb (by omega) hr
      · exact hw.apart
  · exact hw

theorem tidy_discarded {w w' : World} (hw : Tidy w) {pool : Nat}
    (given : (w.delist pool).releasePool2 pool = .ok w') : Tidy w' := by
  obtain ⟨first, rest, _, back⟩ := releasePool2_givenBack given
  have out : ∀ b ∈ w'.heap.outstanding, b ∈ w.heap.outstanding := fun b hb =>
    (back.mem.mp hb).1
  constructor
  · exact fun b hb => hw.aligned b (out b hb)
  · intro b hb
    rw [back.chunks]
    exact hw.cursor b (out b hb)
  · exact back.held hw.held
  · intro r hr
    rw [back.chunks]
    exact hw.inside r (back.reserved.subset hr)
  · exact hw.apart.sublist back.reserved

theorem change_tidy {w w' : World} {call : Call} (aligned : call.Aligned) (hs : Sound w)
    (hw : Tidy w) (h : Change call w w') : Tidy w' := by
  cases h with
  | refused n _ => exact tidy_congr hw rfl rfl rfl
  | fresh pool size incrSize pos name gives ok room _ _ =>
    refine tidy_granted hs hw ok ?_ (aligned pool gives) rfl rfl rfl
    simp only [chunkAddr, Block.fin]
    omega
  | cached i pool incrSize rest name _ => exact tidy_congr hw rfl rfl rfl
  | take pool chunk size used mine =>
    exact tidy_take hs hw size (hs.resident (hs.used_live used) mine)
  | grow pool addr n gives used ok room =>
    refine tidy_granted hs hw ok ?_ (aligned addr gives) rfl rfl rfl
    simp only [chunkAddr, Block.fin]
    omega
  | kept i pool _ _ _ => exact tidy_congr hw rfl rfl rfl
  | discarded pool w' _ _ _ given => exact tidy_discarded hw given

/-- The memory that pools and chunks keep for themselves. -/
def headers (w : World) : List (Nat × Nat) :=
  w.live.map (fun pool => (pool, pool + sizeofPool)) ++
  w.heap.outstanding.map (fun b => (chunkAddr b, chunkAddr b + sizeofChunk))

/-- A header lies at the start of a block, before the bytes of its chunk. -/
theorem header_block {w : World} {header : Nat × Nat} (h : header ∈ w.headers) :
    ∃ b ∈ w.heap.outstanding, b.addr ≤ header.1 ∧ header.2 ≤ chunkAddr b + sizeofChunk := by
  rcases List.mem_append.mp h with pool | chunk
  · obtain ⟨p, hp, rfl⟩ := List.mem_map.mp pool
    obtain ⟨b, hb, tag, rfl⟩ := mem_live.mp hp
    refine ⟨b, hb, Nat.le_refl _, ?_⟩
    simp only [chunkAddr, tag]
    omega
  · obtain ⟨b, hb, rfl⟩ := List.mem_map.mp chunk
    refine ⟨b, hb, ?_, Nat.le_refl _⟩
    unfold chunkAddr
    split <;> dsimp only <;> omega

theorem header_apart {w : World} (hs : Sound w) (hw : Tidy w) {r : Reservation}
    (hr : r ∈ w.reserved) {header : Nat × Nat} (h : header ∈ w.headers) :
    r.stop ≤ header.1 ∨ header.2 ≤ r.mem := by
  obtain ⟨b, hb, _, first, _, last⟩ := inside_block hs hw hr
  obtain ⟨c, hc, start, stop⟩ := header_block h
  by_cases same : c = b
  · subst same
    exact .inr (stop.trans first)
  · have room := hs.room c hc
    have inside := (chunkAddr_inside (hs.room b hb)).1
    rcases w.heap.apart.forall hc hb same with apart | apart <;> omega

end World

open World

theorem reachable_tidy {policy : Policy} {maxCapacity : Nat} {w : World}
    (h : ((shortPool policy maxCapacity).restrict fun _ call => call.Aligned).Reachable w) :
    Sound w ∧ Tidy w := by
  apply System.invariant _ _ _ h
  · rintro w rfl
    exact ⟨sound_init policy maxCapacity, nofun, nofun, nofun, nofun, .nil⟩
  · rintro w call w' hw ⟨aligned, short, result, step⟩
    apply exec_keeps _ short hw step
    intro v v' _ hs hv change
    exact change_tidy aligned hs hv change

/-- A pointer that `pool_alloc` returns is the start of what it took from a chunk
of the pool. -/
theorem poolAlloc_reserves {w w' : World} {pool size mem : Nat} {answer : Answer}
    (h : w.poolAlloc pool size answer = .ok (mem, w')) (some : mem ≠ 0) :
    ∃ r ∈ w'.reserved, r.mem = mem ∧ r.chunk ∈ (w'.pools pool).chunks ∧
      r.stop = (w'.chunks r.chunk).cur := by
  have served := poolAlloc_served (P := fun _ => True) (fun _ _ _ _ => trivial)
    (fun _ _ _ _ => trivial) (fun _ _ _ _ _ _ _ => trivial) trivial h
  obtain ⟨v, chunk, _, mine, took⟩ := served.2 some
  unfold poolAllocFromChunk at took
  dsimp only at took
  split_ifs at took with zero fits
  · cases took
    exact absurd rfl some
  · cases took
    exact ⟨_, List.mem_cons_self, rfl, mine, by simp⟩
  · cases took
    exact absurd rfl some

/-- **Reservations do not overlap**, neither each other nor the headers, in every run with
names that fit. -/
theorem reservations_apart (policy : Policy) (maxCapacity : Nat) (w : World)
    (h : ((shortPool policy maxCapacity).restrict fun _ call => call.Aligned).Reachable w) :
    w.reserved.Pairwise Reservation.Apart ∧
    (∀ r ∈ w.reserved, r.mem % poolAlign = 0 ∧
      (w.chunks r.chunk).buf ≤ r.mem ∧ r.stop ≤ (w.chunks r.chunk).fin ∧
      ∀ header ∈ w.headers, r.stop ≤ header.1 ∨ header.2 ≤ r.mem) ∧
    (∀ b ∈ w.heap.outstanding, ∀ c, c = w.chunks (chunkAddr b) →
      c.buf ≤ c.cur ∧ c.cur ≤ c.fin ∧ wsub c.fin c.cur = c.fin - c.cur) ∧
    (∀ pool ∈ w.helper.listed, ∀ c ∈ (w.pools pool).chunks,
      c ∈ w.heap.outstanding.map chunkAddr) ∧
    (∀ pool size answer mem w', w.poolAlloc pool size answer = .ok (mem, w') → mem ≠ 0 →
      ∃ r ∈ w'.reserved, r.mem = mem ∧ r.chunk ∈ (w'.pools pool).chunks ∧
        r.stop = (w'.chunks r.chunk).cur) := by
  obtain ⟨hs, hw⟩ := reachable_tidy h
  refine ⟨hw.apart, ?_, ?_, ?_, ?_⟩
  · intro r hr
    obtain ⟨b, hb, here, _, _, last⟩ := inside_block hs hw hr
    have inside := hw.inside r hr
    refine ⟨inside.2.2.2, inside.1, ?_, fun _ => header_apart hs hw hr⟩
    rw [← here, (hs.placed b hb).2]
    exact last
  · rintro b hb c rfl
    have cursor := hw.cursor b hb
    have word : (w.chunks (chunkAddr b)).fin < wordSize := by
      rw [(hs.placed b hb).2]
      exact (w.heap.proper b hb).2.2
    exact ⟨cursor.1, cursor.2.1, wsub_of_le cursor.2.1 word⟩
  · intro pool hpool c hc
    exact hs.resident (hs.listed.mem_iff.mp hpool) hc
  · intro pool size answer mem w' returned some
    exact poolAlloc_reserves returned some

/-- Two requests served from the first chunk of a pool. -/
theorem reservations_apart_pair : ∃ w : World,
    w.reserved = [⟨4224, 4280, 4288⟩, ⟨4224, 4264, 4280⟩] ∧
    w.reserved.Pairwise Reservation.Apart := by
  let create : Call := .create [] 200 0 (.block 4096 fun _ => 0)
  let w₁ := (init defaultPolicy 1000).after create
  let w₂ := w₁.after (.alloc 4096 16 .null)
  let w₃ := w₂.after (.alloc 4096 5 .null)
  have aligned : create.Aligned := Call.aligned_create rfl [] 200 0 _
  have run : ((shortPool defaultPolicy 1000).restrict fun _ call => call.Aligned).Reachable w₃ :=
    (System.Reachable.start rfl).allow (short_step (Nat.zero_le _)
      (by decide +kernel : ((init defaultPolicy 1000).exec create).isOk = true)) aligned
    |>.allow (short_step (by trivial)
      (by decide +kernel : (w₁.exec (.alloc 4096 16 .null)).isOk = true)) nofun
    |>.allow (short_step (by trivial)
      (by decide +kernel : (w₂.exec (.alloc 4096 5 .null)).isOk = true)) nofun
  exact ⟨w₃, by decide +kernel, (reservations_apart defaultPolicy 1000 w₃ run).1⟩

/-- A cached pool is given a name of 97 bytes: the last one is written over the head of the
chunk list, which then points into the pool's own header, and the next request follows it. -/
theorem long_name_list : ∃ w : World,
    ((memoryPool defaultPolicy 1000).restrict fun _ call => call.Aligned).Reachable w ∧
    4288 ∈ w.helper.usedPools ∧ (w.pools 4288).chunks = [4416] ∧
    Prod.fst <$> w.poolAlloc 4288 8 .null = .error .wildPointer := by
  let create : Call := .create [] 200 0 (.block 4288 fun _ => 0)
  let reuse : Call := .create (List.replicate 96 97 ++ [8]) 200 0 .null
  let w₁ := (init defaultPolicy 1000).after create
  let w₂ := w₁.after (.release 4288)
  have run : ((memoryPool defaultPolicy 1000).restrict fun _ call => call.Aligned).Reachable
      (w₂.after reuse) :=
    (System.Reachable.start rfl).allow
      (step_after (by decide +kernel : ((init defaultPolicy 1000).exec create).isOk = true))
      (Call.aligned_create rfl [] 200 0 _)
    |>.allow (step_after (by decide +kernel : (w₁.exec (.release 4288)).isOk = true)) nofun
    |>.allow (step_after (by decide +kernel : (w₂.exec reuse).isOk = true)) nofun
  exact ⟨_, run, by decide +kernel, by decide +kernel, by decide +kernel⟩

end Libatp.Pools
