import Libatp.Pools.Growth

/-!
# Pools from a free list

`create_pool__` gives out a cached pool with the cursors of its chunks and the rest of its
name as the last user left them. Such a pool is as good as a new one of its class exactly
if one of its chunks still has all the room a new pool has, and the byte after the new
name happens to be zero.
-/

namespace Libatp.Pools
open Base

/-- The C string at the start of a buffer. Reading on past its end is undefined. -/
def cString (buf : List Byte) : Checked (List Byte) :=
  if 0 ∈ buf then .ok (buf.takeWhile (· ≠ 0)) else .error .outOfBounds

/-- `strncpy(buf, name, strlen(name))` does not end the string it copies. -/
theorem cString_copy {name rest : List Byte} (text : 0 ∉ name) :
    cString (name ++ rest) = .ok name ↔ rest.head? = some 0 := by
  have read : (name ++ rest).takeWhile (· ≠ 0) = name ++ rest.takeWhile (· ≠ 0) := by
    apply List.takeWhile_append_of_pos
    intro b mem
    exact decide_eq_true fun zero => text (zero ▸ mem)
  rw [cString, read]
  constructor
  · intro same
    split at same
    · rename_i ends
      have none : rest.takeWhile (· ≠ 0) = [] :=
        List.append_cancel_left ((Except.ok.inj same).trans (List.append_nil name).symm)
      cases rest with
      | nil =>
        rw [List.append_nil] at ends
        exact absurd ends text
      | cons b rest =>
        by_contra other
        have more : b ≠ 0 := fun zero => other (congrArg some zero)
        rw [List.takeWhile_cons, if_pos (decide_eq_true more)] at none
        cases none
    · cases same
  · intro zero
    obtain ⟨tail, rfl⟩ := List.head?_eq_some_iff.mp zero
    have ends : 0 ∈ name ++ 0 :: tail := List.mem_append_right _ List.mem_cons_self
    rw [if_pos ends, List.takeWhile_cons_of_neg (by decide), List.append_nil]

namespace World

/-- `get_pool_name`, read by the caller. -/
def getPoolName (w : World) (pool : Nat) : Checked (List Byte) := do
  require (pool ≠ 0)
  cString (w.pools pool).name

/-- The pool serves the requests one after another, none of them from a new chunk. -/
def satisfies (w : World) (pool : Nat) : List Nat → Bool
  | [] => true
  | size :: sizes =>
    match w.poolAlloc pool size .null with
    | .ok (mem, w') => mem ≠ 0 && w'.satisfies pool sizes
    | .error _ => false

section
variable {w : World} (hw : Orderly w) {pool : Nat} (alive : pool ∈ w.live)

include hw alive

theorem satisfies_fits {chunk size : Nat} (asked : size ≠ 0)
    (found : w.firstFit pool size = some chunk) (sizes : List Nat) :
    w.satisfies pool (size :: sizes) = (w.take chunk size).satisfies pool sizes := by
  have nonnull := hw.cursors alive chunk (firstFit_some found).1
  rw [satisfies, hw.poolAlloc_fits alive asked found]
  dsimp only
  rw [decide_eq_true nonnull, Bool.true_and]

/-- A pool that serves a request has a chunk with room for it. -/
theorem firstFit_of_satisfies {size : Nat} {sizes : List Nat}
    (served : w.satisfies pool (size :: sizes) = true) :
    size ≠ 0 ∧ ∃ chunk, w.firstFit pool size = some chunk := by
  rw [satisfies] at served
  split at served
  · rename_i mem w' call
    rw [Bool.and_eq_true, decide_eq_true_iff] at served
    cases poolAlloc_allocated hw alive call with
    | nothing => exact absurd rfl served.1
    | fits chunk asked found => exact ⟨asked, chunk, found⟩
    | grows _ _ _ _ grown =>
      cases grown with
      | fixed => exact absurd rfl served.1
      | refused => exact absurd rfl served.1
      | served _ _ _ gives =>
        obtain ⟨_, null⟩ := gives
        cases null
  · cases served

end

section
variable {w : World} {chunk size : Nat}

theorem room_take (hw : Orderly w) (resident : chunk ∈ w.heap.outstanding.map chunkAddr)
    (fits : w.Fits size chunk) :
    (w.take chunk size).room chunk = w.room chunk - roundSize size := by
  obtain ⟨cur, _⟩ := hw.take_cur resident fits
  have fin : ((w.take chunk size).chunks chunk).fin = (w.chunks chunk).fin := by rw [take_self]
  rw [room, cur, fin, room, Nat.sub_sub]

theorem room_take_other {c : Nat} (other : c ≠ chunk) :
    (w.take chunk size).room c = w.room c := by
  rw [room, take_other w size other, room]

end

/-- The room in whole units of the alignment. -/
def usable (n : Nat) : Nat := n / poolAlign * poolAlign

/-- A pool with a chunk that has the room of the only chunk of another one serves whatever the
other one serves: the first fit may be a chunk before it, which leaves it the more. -/
theorem satisfies_of_room {sizes : List Nat} {w v : World} (hw : Orderly w) (hv : Orderly v)
    {pool q chunk only : Nat} (alive : pool ∈ w.live) (alive' : q ∈ v.live)
    (mine : chunk ∈ (w.pools pool).chunks) (single : (v.pools q).chunks = [only])
    (enough : usable (v.room only) ≤ w.room chunk) (served : v.satisfies q sizes = true) :
    w.satisfies pool sizes = true := by
  induction sizes generalizing w v with
  | nil => rfl
  | cons size sizes ih =>
    obtain ⟨asked, first, found⟩ := firstFit_of_satisfies hv alive' served
    obtain ⟨theirs, fits⟩ := firstFit_some found
    have same : first = only := by
      rw [single] at theirs
      exact List.mem_singleton.mp theirs
    subst same
    have resident := hv.sound.resident alive' theirs
    rw [satisfies_fits hv alive' asked found] at served
    have room := (hv.fits_iff resident).mp fits
    have units := roundSize_aligned size
    have here : w.Fits size chunk := by
      rw [hw.fits_iff (hw.sound.resident alive mine)]
      simp only [usable, poolAlign] at *
      omega
    cases found' : w.firstFit pool size with
    | none => exact absurd here (firstFit_none.mp found' chunk mine)
    | some taken =>
      obtain ⟨mine', fits'⟩ := firstFit_some found'
      have resident' := hw.sound.resident alive mine'
      rw [satisfies_fits hw alive asked found']
      apply ih (hw.take asked resident' fits') (hv.take asked resident fits) alive alive' mine
        single _ served
      rw [room_take hv resident fits]
      by_cases this : chunk = taken
      · subst this
        rw [room_take hw resident' fits']
        simp only [usable, poolAlign] at *
        omega
      · rw [room_take_other this]
        simp only [usable, poolAlign] at *
        omega

/-- One request for all the room there is. -/
theorem satisfies_all {w : World} (hw : Orderly w) {pool : Nat} (alive : pool ∈ w.live) {n : Nat}
    (some : n ≠ 0) (whole : n % poolAlign = 0) :
    w.satisfies pool [n] = true ↔ ∃ chunk ∈ (w.pools pool).chunks, n ≤ w.room chunk := by
  have exact : roundSize n = n := if_neg (not_not.mpr whole)
  have fits {chunk : Nat} (mine : chunk ∈ (w.pools pool).chunks) :
      w.Fits n chunk ↔ n ≤ w.room chunk := by
    rw [hw.fits_iff (hw.sound.resident alive mine), exact]
  constructor
  · intro served
    obtain ⟨_, chunk, found⟩ := firstFit_of_satisfies hw alive served
    obtain ⟨mine, enough⟩ := firstFit_some found
    exact ⟨chunk, mine, (fits mine).mp enough⟩
  · rintro ⟨chunk, mine, enough⟩
    cases found : w.firstFit pool n with
    | none => exact absurd ((fits mine).mpr enough) (firstFit_none.mp found chunk mine)
    | some first => rw [satisfies_fits hw alive some found, satisfies]

/-- A pool with one chunk can be replaced by one that has a chunk of the same room in whole
units, and by no other: it may be asked for all of the room at once. -/
theorem replaces_iff {w v : World} (hw : Orderly w) (hv : Orderly v) {pool q only n : Nat}
    (alive : pool ∈ w.live) (alive' : q ∈ v.live) (single : (v.pools q).chunks = [only])
    (room : v.room only = n) (some : usable n ≠ 0) :
    (∀ sizes, v.satisfies q sizes = true → w.satisfies pool sizes = true) ↔
      ∃ chunk ∈ (w.pools pool).chunks, usable n ≤ w.room chunk := by
  have whole : usable n % poolAlign = 0 := Nat.mul_mod_left _ _
  constructor
  · intro better
    have all : v.satisfies q [usable n] = true := by
      rw [satisfies_all hv alive' some whole, single]
      refine ⟨only, List.mem_singleton_self _, ?_⟩
      rw [room]
      exact Nat.div_mul_le_self _ _
    exact (satisfies_all hw alive some whole).mp (better _ all)
  · rintro ⟨chunk, mine, enough⟩ sizes served
    rw [← room] at enough
    exact satisfies_of_room hw hv alive alive' mine single enough served

/-- The room of a new pool. -/
theorem fresh_room {w v : World} (hw : Orderly w) {pos q size incrSize : Nat} {name : List Byte}
    {answer : Answer} (short : name.length ≤ poolName)
    (h : w.createFresh pos name size incrSize answer = .ok (q, v)) (nonnull : q ≠ 0)
    (aligned : answer.Gives q → q % poolAlign = 0) :
    Orderly v ∧ q ∈ v.live ∧ (v.pools q).chunks = [q + sizeofPool] ∧
      v.room (q + sizeofPool) = size - (sizeofPool + sizeofChunk) := by
  obtain ⟨room, ⟨null, _⟩ | ⟨ok, _, gives, named⟩⟩ := createFresh_cases h
  · exact absurd null nonnull
  · obtain ⟨written, rfl⟩ := named short
    have tidy : Tidy (((w.granted _ ok).initPool q size incrSize written).enlist q pos) := by
      refine tidy_granted hw.sound hw.tidy ok ?_ (aligned gives) rfl rfl rfl
      simp only [chunkAddr, Block.fin]
      omega
    have word : q + size < wordSize := ok.1.2.2
    have start : alignPtr (q + sizeofPool + sizeofChunk) = q + sizeofPool + sizeofChunk := by
      apply alignPtr_aligned
      · have header := aligned gives
        simp only [sizeofPool, sizeofChunk, poolAlign] at *
        omega
      · omega
    refine ⟨⟨sound_fresh hw.sound incrSize pos written ok room, tidy⟩, List.mem_cons_self, ?_, ?_⟩
    · simp [enlist, initPool]
    · simp only [World.room, enlist, initPool, Function.update_self, start]
      omega

theorem reused_name {w w₁ : World} {pool : Nat} (alive : pool ∈ w.live) {name written : List Byte}
    (text : 0 ∉ name) (stored : store (w.pools pool).name 0 name = .ok written)
    (named : (w₁.pools pool).name = written) :
    w₁.getPoolName pool = .ok name ↔ (w.pools pool).name[name.length]? = some 0 := by
  obtain ⟨_, rfl⟩ := store_ok_iff.mp stored
  have copied :
      splice (w.pools pool).name 0 name = name ++ (w.pools pool).name.drop name.length := by
    simp [splice]
  rw [getPoolName, require_true (live_ne_zero alive), ok_bind, named, copied, cString_copy text,
    List.head?_drop]

end World

open World

/-- Every class has room for something. -/
theorem usable_class (i : Fin cachingSize) :
    usable (classSize i - (sizeofPool + sizeofChunk)) ≠ 0 := by
  revert i
  decide

/-- **When a cached pool is as good as a new one.** -/
theorem cached_pool_iff (policy : Policy) (maxCapacity : Nat) (w : World)
    (h : (alignedPool policy maxCapacity).Reachable w) (name : List Byte) (text : 0 ∉ name)
    (short : name.length ≤ poolName) (initSize incrSize pool : Nat) (answer : Answer) (w₁ : World)
    (aligned : (Call.create name initSize incrSize answer).Aligned)
    (call : w.exec (.create name initSize incrSize answer) = .ok (pool, w₁))
    (cached : pool ∈ w.helper.cached) (q : Nat) (fresh : Answer) (w₂ : World)
    (aligned' : (Call.create name initSize incrSize fresh).Aligned)
    (made : w.createFresh (w₁.pools pool).data name (classSize (w₁.pools pool).data) incrSize
      fresh = .ok (q, w₂))
    (nonnull : q ≠ 0) :
    (w₁.getPoolName pool = .ok name ∧
      ∀ sizes, w₂.satisfies q sizes = true → w₁.satisfies pool sizes = true) ↔
    (w.pools pool).name[name.length]? = some 0 ∧
      ∃ chunk ∈ (w.pools pool).chunks,
        usable (classSize (w₁.pools pool).data - (sizeofPool + sizeofChunk)) ≤ w.room chunk := by
  have hw := reachable_orderly h
  have fits : (Call.create name initSize incrSize answer).Short := short
  have h₁ : Orderly w₁ := reachable_orderly (h.allow ⟨fits, pool, call⟩ aligned)
  have alive : pool ∈ w.live := hw.sound.listed.mem_iff.mp (List.mem_append_right _ cached)
  obtain ⟨h₂, alive₂, single, room⟩ := fresh_room hw short made nonnull (aligned' q)
  obtain ⟨pos, size, new, _⟩ | ⟨i, rest, front, _, reused⟩ := createPool_cases call
  · -- a new pool is nowhere in the lists
    obtain ⟨_, ⟨null, _⟩ | ⟨ok, _⟩⟩ := createFresh_cases new
    · exact absurd null (live_ne_zero alive)
    · exact absurd alive (Sound.fresh_pool ok)
  · obtain ⟨written, stored, rfl⟩ := reused short
    have named : (((w.reusePool i pool rest incrSize written).enlist pool i).pools pool).name =
        written := by
      simp [enlist, reusePool]
    have data :
        (((w.reusePool i pool rest incrSize written).enlist pool i).pools pool).data = i := by
      simp [enlist]
    have chunks := reuse_chunks w i pool incrSize rest written pool
    rw [reused_name alive text stored named]
    apply and_congr_right
    intro _
    rw [data] at room ⊢
    rw [replaces_iff h₁ h₂ alive alive₂ single room (usable_class i), chunks]
    rfl

/-- A helper whose only pool, of the least class, was named and used before it came to a free
list. -/
def usedOnce (name : List Byte) (size : Nat) : World :=
  (((init defaultPolicy 1000).after (.create name 200 0 (.block 4096 fun _ => 0))).after
    (.alloc 4096 size .null)).after (.release 4096)

/-- A pool that nothing was taken from, and a longer name. -/
theorem cached_pool_unused : ∃ w₁ w₂ : World, w₁.getPoolName 4096 = .ok [97, 98] ∧
    ∀ sizes, w₂.satisfies 8192 sizes = true → w₁.satisfies 4096 sizes = true := by
  have run : (alignedPool defaultPolicy 1000).Reachable (usedOnce [97] 0) :=
    (System.Reachable.start rfl).allow (short_step (by decide) (by decide +kernel))
      (Call.aligned_create rfl _ _ _ _)
      |>.allow (short_step (by trivial) (by decide +kernel)) nofun
      |>.allow (short_step (by trivial) (by decide +kernel)) nofun
  have refuse : (Call.create [97, 98] 200 0 .null).Aligned := by
    rintro addr ⟨_, gives⟩
    cases gives
  have call := exec_after (by decide +kernel :
    Prod.fst <$> (usedOnce [97] 0).exec (.create [97, 98] 200 0 .null) = .ok 4096)
  refine ⟨_, _, (cached_pool_iff defaultPolicy 1000 _ run [97, 98] (by decide) (by decide)
    200 0 4096 .null _ refuse call (by decide +kernel) 8192 (.block 8192 fun _ => 0) _
    (Call.aligned_create rfl _ _ _ _) rfl (by decide)).mpr ?_⟩
  decide +kernel

/-- A pool with a longer name before, and 16 bytes taken from it. -/
theorem cached_pool_used : ∃ w w₁ w₂ : World, (alignedPool defaultPolicy 1000).Reachable w ∧
    4096 ∈ w.helper.cached ∧ w.exec (.create [97] 200 0 .null) = .ok (4096, w₁) ∧
    w.createFresh (w₁.pools 4096).data [97] (classSize (w₁.pools 4096).data) 0
      (.block 8192 fun _ => 0) = .ok (8192, w₂) ∧
    w₁.getPoolName 4096 = .ok [97, 98, 99] ∧ w₂.getPoolName 8192 = .ok [97] ∧
    w₁.satisfies 4096 [88] = false ∧ w₂.satisfies 8192 [88] = true := by
  refine ⟨usedOnce [97, 98, 99] 16, _, _, ?_, ?_, exec_after ?_, rfl, ?_, ?_, ?_, ?_⟩
  · exact (System.Reachable.start rfl).allow (short_step (by decide) (by decide +kernel))
      (Call.aligned_create rfl _ _ _ _)
      |>.allow (short_step (by trivial) (by decide +kernel)) nofun
      |>.allow (short_step (by trivial) (by decide +kernel)) nofun
  all_goals decide +kernel

end Libatp.Pools
