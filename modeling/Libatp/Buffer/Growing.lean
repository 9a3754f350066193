import Libatp.Buffer.ByteBuffer

/-!
# `grow` and the reserved prefix

`unread` is what a buffer holds for its reader. `grow` moves these bytes to the end
of the reserved prefix and sets both indices through `updateReadWriteIndex`, for
which 0 means that an index is left as it is. Where the prefix is empty the read
index therefore stays where it was. Apart from that, and from sizes that wrap, every
call moves the bytes as it should.
-/

namespace Libatp.Buffer.ByteBuffer
open Base

/-- The indices are in their order and inside the array. The prefix may be empty. -/
structure Ordered (b : ByteBuffer) : Prop where
  size : b.buff.length = b.caps
  read_le : b.readIndex ≤ b.writeIndex
  write_le : b.writeIndex ≤ b.caps
  reserved_le : b.reservedPrependSize ≤ b.caps
  caps_lt : b.caps < wordSize

/-- `updateReadWriteIndex` can set the read index to the end of the prefix, or the
index is there already: it does not set an index to 0. -/
def Settable (b : ByteBuffer) : Prop :=
  1 ≤ b.reservedPrependSize ∨ b.readIndex = 0

instance (b : ByteBuffer) : Decidable b.Settable :=
  inferInstanceAs (Decidable (_ ∨ _))

/-- The bytes between the two indices. -/
def unread (b : ByteBuffer) : List Byte :=
  window b.buff b.readIndex (b.writeIndex - b.readIndex)

theorem unread_length {b : ByteBuffer} (ho : b.Ordered) :
    b.unread.length = b.writeIndex - b.readIndex := by
  have := ho.size
  have := ho.write_le
  rw [unread, window_length]
  omega

theorem unreadBytes_eq {b : ByteBuffer} (ho : b.Ordered) :
    b.unreadBytes = .ok (b.writeIndex - b.readIndex) := by
  simp [unreadBytes, require_true ho.read_le]

theorem writableBytes_eq {b : ByteBuffer} (ho : b.Ordered) :
    b.writableBytes = .ok (b.caps - b.writeIndex) := by
  simp [writableBytes, require_true ho.write_le]

theorem load_unread {b : ByteBuffer} (ho : b.Ordered) :
    load b.buff b.readIndex (b.writeIndex - b.readIndex) = .ok b.unread := by
  have := ho.size
  have := ho.read_le
  have := ho.write_le
  exact load_ok (by omega)

/-! ## Relocation -/

theorem update_set {b : ByteBuffer} {r w : Nat} (hr : r ≠ 0) (hw : w ≠ 0) :
    b.updateReadWriteIndex r w false = { b with readIndex := r, writeIndex := w } := by
  simp [updateReadWriteIndex, hr, hw]

/-- The unread bytes of `b` at the end of the reserved prefix of `mem`. -/
def relocated (b : ByteBuffer) (mem : List Byte) : ByteBuffer where
  buff := splice mem b.reservedPrependSize b.unread
  caps := mem.length
  readIndex := b.reservedPrependSize
  writeIndex := b.reservedPrependSize + (b.writeIndex - b.readIndex)
  reservedPrependSize := b.reservedPrependSize

theorem relocated_ordered {b : ByteBuffer} (ho : b.Ordered) (mem : List Byte)
    (room : b.reservedPrependSize + (b.writeIndex - b.readIndex) ≤ mem.length)
    (word : mem.length < wordSize) :
    (b.relocated mem).Ordered ∧ (b.relocated mem).unread = b.unread := by
  have hl := unread_length ho
  have hfit : b.reservedPrependSize + b.unread.length ≤ mem.length := by omega
  constructor
  · refine ⟨splice_length hfit, ?_, room, ?_, word⟩ <;>
      simp only [relocated] <;> omega
  · simp only [unread, relocated, Nat.add_sub_cancel_left]
    have hself := window_splice_self hfit
    rw [hl] at hself
    exact hself

/-- The tail that both branches of `grow` and `decrease` end with. -/
theorem update_relocated {b : ByteBuffer} (hset : b.Settable) (mem : List Byte)
    (room : b.reservedPrependSize + (b.writeIndex - b.readIndex) ≤ mem.length)
    (word : mem.length < wordSize) :
    ({ b with buff := splice mem b.reservedPrependSize b.unread
              caps := mem.length } : ByteBuffer).updateReadWriteIndex b.reservedPrependSize
        (wrap (b.reservedPrependSize + (b.writeIndex - b.readIndex))) false =
      b.relocated mem := by
  rw [wrap_of_lt (by omega)]
  by_cases pos : 1 ≤ b.reservedPrependSize
  · rw [update_set (by omega) (by omega)]
    rfl
  · -- neither index is set to 0, and one that would be is 0 already
    have none : b.reservedPrependSize = 0 := by omega
    have front : b.readIndex = 0 := hset.resolve_left pos
    simp only [updateReadWriteIndex, relocated, none, front, Nat.zero_add, Nat.sub_zero]
    simp

theorem growRealloc_ok_iff {b b' : ByteBuffer} (ho : b.Ordered) (hset : b.Settable) {n : Nat} :
    b.growRealloc n (b.writeIndex - b.readIndex) = .ok b' ↔
      b.reservedPrependSize + (b.writeIndex - b.readIndex) ≤ wrap (wrap (b.caps * 2) + n) ∧
        b' = b.relocated (List.replicate (wrap (wrap (b.caps * 2) + n)) 0#8) := by
  have hl := unread_length ho
  have hw := wrap_lt (wrap (b.caps * 2) + n)
  simp only [growRealloc, prependHeaderBytes, load_unread ho, ok_bind, bind_ok_iff, store_ok_iff,
    List.length_replicate, hl, pure_eq_ok, Except.ok.injEq]
  have tail (room : b.reservedPrependSize + (b.writeIndex - b.readIndex) ≤
      wrap (wrap (b.caps * 2) + n)) :=
    update_relocated hset (List.replicate (wrap (wrap (b.caps * 2) + n)) 0#8)
      (by simpa using room) (by simpa using hw)
  constructor
  · rintro ⟨mem, ⟨room, rfl⟩, rfl⟩
    refine ⟨room, ?_⟩
    rw [← tail room]
    simp [updateReadWriteIndex]
  · rintro ⟨room, rfl⟩
    refine ⟨_, ⟨room, rfl⟩, ?_⟩
    rw [← tail room]
    simp [updateReadWriteIndex]

theorem growCompact_ok_iff {b b' : ByteBuffer} (ho : b.Ordered) (hset : b.Settable) {n : Nat} :
    b.growCompact n (b.writeIndex - b.readIndex) = .ok b' ↔
      b.reservedPrependSize < b.readIndex ∧
        n ≤ b.caps - (b.reservedPrependSize + (b.writeIndex - b.readIndex)) ∧
        b' = b.relocated b.buff := by
  have hl := unread_length ho
  have hs := ho.size
  have hr := ho.read_le
  have hw := ho.write_le
  have hc := ho.caps_lt
  by_cases below : b.reservedPrependSize < b.readIndex
  · have room : b.reservedPrependSize + (b.writeIndex - b.readIndex) ≤ b.buff.length := by omega
    have tail := update_relocated hset _ room (by omega)
    have moved := (relocated_ordered ho _ room (by omega)).1
    have hfit : b.reservedPrependSize + b.unread.length ≤ b.buff.length := by omega
    simp only [hs] at tail
    simp only [growCompact, prependHeaderBytes, prependableBytes, ok_bind,
      load_unread ho, store_ok hfit, tail, unreadBytes_eq moved, writableBytes_eq moved]
    simp only [relocated, Nat.add_sub_cancel_left, require_true, ok_bind, bind_ok_iff,
      require_ok_iff, hs, pure_eq_ok, Except.ok.injEq, below, true_and]
    constructor
    · rintro ⟨_, room, rfl⟩; exact ⟨room, rfl⟩
    · rintro ⟨room, rfl⟩; exact ⟨(), room, rfl⟩
  · simp [growCompact, prependHeaderBytes, prependableBytes, require, below, bind, Except.bind]

/-- The test of `grow` for a new array, once the sum on its left is known not to wrap. -/
def Reallocates (b : ByteBuffer) (n : Nat) : Prop :=
  b.readIndex + (b.caps - b.writeIndex) < wrap (b.reservedPrependSize + n)

instance (b : ByteBuffer) (n : Nat) : Decidable (b.Reallocates n) :=
  inferInstanceAs (Decidable (_ < _))

theorem grow_eq {b : ByteBuffer} (ho : b.Ordered) (n : Nat) :
    b.grow n = if b.Reallocates n then b.growRealloc n (b.writeIndex - b.readIndex)
      else b.growCompact n (b.writeIndex - b.readIndex) := by
  have hr := ho.read_le
  have hw := ho.write_le
  have hc := ho.caps_lt
  have free : wrap (b.prependableBytes + (b.caps - b.writeIndex)) =
      b.readIndex + (b.caps - b.writeIndex) := wrap_of_lt (by simp only [prependableBytes]; omega)
  simp only [grow, unreadBytes_eq ho, writableBytes_eq ho, ok_bind, free]
  rfl

/-! ## What a call leaves -/

/-- `grow(n)` returns, with the unread bytes at the end of the reserved prefix and
room for `n` more behind them. -/
def Relocates (b : ByteBuffer) (n : Nat) : Prop :=
  ∃ b', b.grow n = .ok b' ∧ b'.readIndex = b.reservedPrependSize ∧ b'.unread = b.unread ∧
    ∃ writable, b'.writableBytes = .ok writable ∧ n ≤ writable

/-- No sum that wraps spoils the call: a new array has room for the prefix, the unread
bytes and `n` more, and if the old one is kept, then the sum that the test compared
is what it should be. -/
def Enough (b : ByteBuffer) (n : Nat) : Prop :=
  (b.Reallocates n →
      b.reservedPrependSize + (b.writeIndex - b.readIndex) + n ≤ wrap (wrap (b.caps * 2) + n)) ∧
    (¬ b.Reallocates n → b.reservedPrependSize + n < wordSize)

instance (b : ByteBuffer) (n : Nat) : Decidable (b.Enough n) :=
  inferInstanceAs (Decidable ((_ → _) ∧ (_ → _)))

/-- If `n` more bytes need a new array, its size is a word. They do not where
they fit behind the write index, nor where moving the unread bytes forward makes
room for them. -/
def Fits (b : ByteBuffer) (n : Nat) : Prop :=
  b.caps - b.writeIndex < n ∧
      b.readIndex + (b.caps - b.writeIndex) < b.reservedPrependSize + n →
    b.caps * 2 + n < wordSize

instance (b : ByteBuffer) (n : Nat) : Decidable (b.Fits n) :=
  inferInstanceAs (Decidable (_ → _))

theorem Fits.mono {b : ByteBuffer} {m n : Nat} (h : b.Fits n) (le : m ≤ n) : b.Fits m := by
  intro short
  have := h ⟨by omega, by omega⟩
  omega

/-- An array of twice the size and `n` more is enough if there can be one. -/
theorem Fits.enough {b : ByteBuffer} {n : Nat} (fits : b.Fits n) (ho : b.Ordered)
    (short : b.caps - b.writeIndex < n) : b.Enough n := by
  have hr := ho.read_le
  have hw := ho.write_le
  have hres := ho.reserved_le
  have hc := ho.caps_lt
  by_cases more : b.readIndex + (b.caps - b.writeIndex) < b.reservedPrependSize + n
  · have word := fits ⟨short, more⟩
    have size : wrap (wrap (b.caps * 2) + n) = b.caps * 2 + n := by
      rw [wrap_of_lt (n := b.caps * 2) (by omega), wrap_of_lt word]
    exact ⟨fun _ => by omega, fun _ => by omega⟩
  · have word : b.reservedPrependSize + n < wordSize := by omega
    have old : ¬ b.Reallocates n := by
      rw [Reallocates, wrap_of_lt word]
      exact more
    exact ⟨fun new => absurd new old, fun _ => word⟩

/-! ## An index that is set -/

theorem relocated_relocates {b : ByteBuffer} (ho : b.Ordered) (mem : List Byte) {n : Nat}
    (grown : b.grow n = .ok (b.relocated mem)) (word : mem.length < wordSize)
    (room : b.reservedPrependSize + (b.writeIndex - b.readIndex) + n ≤ mem.length) :
    b.Relocates n := by
  obtain ⟨ordered, same⟩ := relocated_ordered ho mem (by omega) word
  refine ⟨_, grown, rfl, same, _, writableBytes_eq ordered, ?_⟩
  simp only [relocated]
  omega

theorem reallocation_relocates_iff {b : ByteBuffer} (ho : b.Ordered) (hset : b.Settable) {n : Nat}
    (short : b.caps - b.writeIndex < n) (new : b.Reallocates n) :
    b.Relocates n ↔
      b.reservedPrependSize + (b.writeIndex - b.readIndex) + n ≤ wrap (wrap (b.caps * 2) + n) := by
  have size : (List.replicate (wrap (wrap (b.caps * 2) + n)) 0#8).length < wordSize := by
    rw [List.length_replicate]
    exact wrap_lt _
  have branch := grow_eq ho n
  rw [if_pos new] at branch
  constructor
  · rintro ⟨b', grown, _, _, writable, eq, room⟩
    obtain ⟨fits, rfl⟩ := (growRealloc_ok_iff ho hset).mp (branch.symm.trans grown)
    have ordered := (relocated_ordered ho (List.replicate _ 0#8) (by simpa using fits) size).1
    cases (writableBytes_eq ordered).symm.trans eq
    simp only [relocated, List.length_replicate] at room
    omega
  · intro room
    apply relocated_relocates ho _ _ size
    · rw [List.length_replicate]
      exact room
    · rw [branch]
      exact (growRealloc_ok_iff ho hset).mpr ⟨by omega, rfl⟩

theorem compaction_relocates_iff {b : ByteBuffer} (ho : b.Ordered) (hset : b.Settable) {n : Nat}
    (short : b.caps - b.writeIndex < n) (old : ¬ b.Reallocates n) :
    b.Relocates n ↔ b.reservedPrependSize + n < wordSize := by
  have hs := ho.size
  have hr := ho.read_le
  have hw := ho.write_le
  have hc := ho.caps_lt
  have branch := grow_eq ho n
  rw [if_neg old] at branch
  constructor
  · rintro ⟨b', grown, _⟩
    obtain ⟨_, room, _⟩ := (growCompact_ok_iff ho hset).mp (branch.symm.trans grown)
    omega
  · intro word
    -- `n` do not fit behind the write index, so more has been read than the prefix takes
    have enough : b.reservedPrependSize + n ≤ b.readIndex + (b.caps - b.writeIndex) := by
      rw [Reallocates, wrap_of_lt word] at old
      omega
    apply relocated_relocates ho b.buff
    · rw [branch]
      exact (growCompact_ok_iff ho hset).mpr ⟨by omega, by omega, rfl⟩
    · omega
    · omega

theorem Settable.relocates_iff {b : ByteBuffer} (hset : b.Settable) (ho : b.Ordered) {n : Nat}
    (short : b.caps - b.writeIndex < n) : b.Relocates n ↔ b.Enough n := by
  by_cases new : b.Reallocates n
  · rw [reallocation_relocates_iff ho hset short new]
    simp [Enough, new]
  · rw [compaction_relocates_iff ho hset short new]
    simp [Enough, new]

/-! ## An index that is left -/

/-- Without a prefix `grow` moves the bytes and not the read index. -/
theorem grow_readIndex {b b' : ByteBuffer} (ho : b.Ordered) (none : b.reservedPrependSize = 0)
    {n : Nat} (grown : b.grow n = .ok b') : b'.readIndex = b.readIndex := by
  rw [grow_eq ho] at grown
  split at grown
  · simp only [growRealloc, prependHeaderBytes, bind_ok_iff, pure_eq_ok, Except.ok.injEq] at grown
    obtain ⟨moved, _, mem, _, rfl⟩ := grown
    simp [updateReadWriteIndex, none]
  · simp only [growCompact, prependHeaderBytes, bind_ok_iff, pure_eq_ok, Except.ok.injEq] at grown
    obtain ⟨_, _, moved, _, mem, _, unread, _, _, _, writable, _, _, _, rfl⟩ := grown
    simp [updateReadWriteIndex, none]

/-- `grow` moves the unread bytes to the end of every prefix that is not empty, and of
an empty one only if nothing has been read. -/
theorem grow_relocates_iff {b : ByteBuffer} (ho : b.Ordered) {n : Nat}
    (short : b.caps - b.writeIndex < n) : b.Relocates n ↔ b.Settable ∧ b.Enough n := by
  by_cases hset : b.Settable
  · rw [hset.relocates_iff ho short, and_iff_right hset]
  · refine iff_of_false ?_ (fun h => hset h.1)
    rintro ⟨b', grown, moved, _⟩
    obtain ⟨empty, read⟩ := not_or.mp hset
    have none : b.reservedPrependSize = 0 := by omega
    apply read
    rw [← grow_readIndex ho none grown, moved, none]

/-- A buffer without a prefix of which nothing has been read, and one whose unread
byte is moved within the array. -/
theorem grow_relocates_full :
    Relocates ⟨[1#8, 2#8], 2, 0, 2, 0⟩ 3 ∧ Relocates ⟨[0#8, 1#8, 2#8, 3#8], 4, 3, 4, 1⟩ 2 :=
  ⟨(grow_relocates_iff ⟨rfl, by decide, by decide, by decide, by decide⟩ (by decide)).mpr
      (by decide),
    (grow_relocates_iff ⟨rfl, by decide, by decide, by decide, by decide⟩ (by decide)).mpr
      (by decide)⟩

/-- Four bytes in a buffer without a prefix, two of them read. A new array has the other
two at its front, where no index points; the old one is given up on an assertion. -/
theorem grow_loses_unread :
    ∃ b b', (do (← (create 0 4).append [1#8, 2#8, 3#8, 4#8]).remove 2) = .ok b ∧
      b.Ordered ∧ b.unread = [3#8, 4#8] ∧ b.writableBytes = .ok 0 ∧
      b.grow 3 = .ok b' ∧ b'.readIndex = 2 ∧ b'.unread = [] ∧ ¬ b.Relocates 3 ∧
      b.grow 1 = .error .assertion := by
  refine ⟨⟨[1#8, 2#8, 3#8, 4#8], 4, 2, 4, 0⟩,
    ⟨3#8 :: 4#8 :: List.replicate 9 0#8, 11, 2, 2, 0⟩, rfl,
    ⟨rfl, by decide, by decide, by decide, by decide⟩, rfl, rfl, rfl, rfl, rfl, ?_, rfl⟩
  rintro ⟨c, grown, moved, _⟩
  cases grown
  cases moved

end Libatp.Buffer.ByteBuffer
