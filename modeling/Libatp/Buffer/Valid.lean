import Libatp.Buffer.Growing

/-!
# What every buffer operation keeps

`Valid` is the index invariant of a buffer whose reserved prefix is not empty. For
each operation: it keeps `Valid` and changes the unread bytes in the stated way
whenever it returns, and it does return when its caller's obligations are met.
-/

namespace Libatp.Buffer.ByteBuffer
open Base

structure Valid (b : ByteBuffer) : Prop where
  size : b.buff.length = b.caps
  read_le : b.readIndex ≤ b.writeIndex
  write_le : b.writeIndex ≤ b.caps
  reserved_le : b.reservedPrependSize ≤ b.caps
  reserved_pos : 1 ≤ b.reservedPrependSize
  caps_lt : b.caps < wordSize

theorem Valid.ordered {b : ByteBuffer} (hv : b.Valid) : b.Ordered :=
  ⟨hv.size, hv.read_le, hv.write_le, hv.reserved_le, hv.caps_lt⟩

theorem Ordered.valid {b : ByteBuffer} (ho : b.Ordered) (pos : 1 ≤ b.reservedPrependSize) :
    b.Valid :=
  ⟨ho.size, ho.read_le, ho.write_le, ho.reserved_le, pos, ho.caps_lt⟩

theorem Valid.settable {b : ByteBuffer} (hv : b.Valid) : b.Settable :=
  .inl hv.reserved_pos

/-! ## Index updates -/

theorem update_write {b : ByteBuffer} {n : Nat} (h : b.writeIndex + n < wordSize) :
    b.updateReadWriteIndex 0 n true = { b with writeIndex := b.writeIndex + n } := by
  by_cases hn : n = 0
  · subst hn; simp [updateReadWriteIndex]
  · simp [updateReadWriteIndex, hn, wrap_of_lt h]

theorem update_read {b : ByteBuffer} {n : Nat} (h : b.readIndex + n < wordSize) :
    b.updateReadWriteIndex n 0 true = { b with readIndex := b.readIndex + n } := by
  by_cases hn : n = 0
  · subst hn; simp [updateReadWriteIndex]
  · simp [updateReadWriteIndex, hn, wrap_of_lt h]

/-- Adding the two's complement of `k` takes `k` off the read index. -/
theorem update_back {b : ByteBuffer} {k : Nat} (hk : 1 ≤ k) (h : k ≤ b.readIndex)
    (hb : b.readIndex < wordSize) :
    b.updateReadWriteIndex (wrap (wordSize - k)) 0 true =
      { b with readIndex := b.readIndex - k } := by
  have hlt : wordSize - k < wordSize := by omega
  have hne : wordSize - k ≠ 0 := by omega
  simp [updateReadWriteIndex, wrap_of_lt hlt, hne, wrap_add_neg h hb]

/-! ## Relocation -/

theorem relocated_spec {b : ByteBuffer} (hv : b.Valid) (mem : List Byte)
    (room : b.reservedPrependSize + (b.writeIndex - b.readIndex) ≤ mem.length)
    (word : mem.length < wordSize) :
    (b.relocated mem).Valid ∧ (b.relocated mem).unread = b.unread := by
  obtain ⟨ordered, same⟩ := relocated_ordered hv.ordered mem room word
  exact ⟨ordered.valid hv.reserved_pos, same⟩

theorem grow_spec {b b' : ByteBuffer} (hv : b.Valid) {n : Nat} (h : b.grow n = .ok b') :
    b'.Valid ∧ b'.unread = b.unread := by
  have hs := hv.size
  have hr := hv.read_le
  have hw := hv.write_le
  have hc := hv.caps_lt
  rw [grow_eq hv.ordered] at h
  split at h
  · obtain ⟨room, rfl⟩ := (growRealloc_ok_iff hv.ordered hv.settable).mp h
    exact relocated_spec hv _ (by simpa using room) (by simpa using wrap_lt _)
  · obtain ⟨below, _, rfl⟩ := (growCompact_ok_iff hv.ordered hv.settable).mp h
    exact relocated_spec hv _ (by omega) (by omega)

/-- `grow` returns, and leaves room for what it was called for. -/
theorem grow_ok {b : ByteBuffer} (hv : b.Valid) {n : Nat} (full : b.caps - b.writeIndex < n)
    (fits : b.Fits n) : ∃ b', b.grow n = .ok b' ∧ n ≤ b'.caps - b'.writeIndex := by
  have enough := fits.enough hv.ordered full
  obtain ⟨b', grown, _, _, writable, eq, room⟩ :=
    (hv.settable.relocates_iff hv.ordered full).mpr enough
  have valid := (grow_spec hv grown).1
  cases (writableBytes_eq valid.ordered).symm.trans eq
  exact ⟨b', grown, room⟩

/-! ## Appending -/

/-- `append` once the array has room: the bytes go in at the write index. -/
def written (b : ByteBuffer) (data : List Byte) : ByteBuffer :=
  { b with buff := splice b.buff b.writeIndex data, writeIndex := b.writeIndex + data.length }

theorem written_spec {b : ByteBuffer} (hv : b.Valid) (data : List Byte)
    (room : b.writeIndex + data.length ≤ b.caps) :
    (b.written data).Valid ∧ (b.written data).unread = b.unread ++ data := by
  have hs := hv.size
  have hr := hv.read_le
  constructor
  · exact ⟨by rw [written, splice_length (by omega), hs], by simp only [written]; omega,
      room, hv.reserved_le, hv.reserved_pos, hv.caps_lt⟩
  · simp only [unread, written]
    rw [show b.writeIndex + data.length - b.readIndex =
      (b.writeIndex - b.readIndex) + data.length by omega, window_append,
      window_splice_before (by omega) (by have := hv.write_le; omega),
      show b.readIndex + (b.writeIndex - b.readIndex) = b.writeIndex by omega,
      window_splice_self (by omega)]

theorem append_ok_iff {b b' : ByteBuffer} (hv : b.Valid) {data : List Byte} :
    b.append data = .ok b' ↔
      ∃ c, (if b.caps - b.writeIndex < data.length then b.grow data.length else pure b) = .ok c ∧
        c.writeIndex + data.length ≤ c.caps ∧ b' = c.written data := by
  simp only [append, writableBytes_eq hv.ordered, ok_bind, bind_ok_iff]
  refine exists_congr fun c => and_congr_right fun grown => ?_
  have hc : c.Valid := by
    split at grown
    · exact (grow_spec hv grown).1
    · cases grown; exact hv
  have hs := hc.size
  have hcap := hc.caps_lt
  constructor
  · rintro ⟨mem, stored, out⟩
    obtain ⟨room, rfl⟩ := store_ok_iff.mp stored
    rw [hs] at room
    rw [update_write (by simp only; omega)] at out
    cases out
    exact ⟨room, rfl⟩
  · rintro ⟨room, rfl⟩
    refine ⟨_, store_ok (by omega), ?_⟩
    rw [update_write (by simp only; omega)]
    rfl

theorem append_spec {b b' : ByteBuffer} (hv : b.Valid) {data : List Byte}
    (h : b.append data = .ok b') : b'.Valid ∧ b'.unread = b.unread ++ data := by
  obtain ⟨c, grown, room, rfl⟩ := (append_ok_iff hv).mp h
  split at grown
  · obtain ⟨hc, same⟩ := grow_spec hv grown
    rw [← same]
    exact written_spec hc data room
  · cases grown
    exact written_spec hv data room

theorem append_ok {b : ByteBuffer} (hv : b.Valid) (data : List Byte) (fits : b.Fits data.length) :
    ∃ b', b.append data = .ok b' := by
  by_cases full : b.caps - b.writeIndex < data.length
  · obtain ⟨c, grown, room⟩ := grow_ok hv full fits
    have hc := (grow_spec hv grown).1.write_le
    exact ⟨_, (append_ok_iff hv).mpr ⟨c, by rw [if_pos full]; exact grown, by omega, rfl⟩⟩
  · have hw := hv.write_le
    exact ⟨_, (append_ok_iff hv).mpr ⟨b, by rw [if_neg full]; rfl, by omega, rfl⟩⟩

/-! ## Prepending -/

theorem prependBytes_ok_iff {b b' : ByteBuffer} (hv : b.Valid) {bytes : List Byte}
    (some : 1 ≤ bytes.length) :
    b.prependBytes bytes = .ok b' ↔ bytes.length ≤ b.readIndex ∧
      b' = { b with buff := splice b.buff (b.readIndex - bytes.length) bytes
                    readIndex := b.readIndex - bytes.length } := by
  have hs := hv.size
  have hr := hv.read_le
  have hw := hv.write_le
  have hc := hv.caps_lt
  by_cases room : bytes.length ≤ b.readIndex
  · simp only [prependBytes, prependableBytes, room, require_true, ok_bind,
      update_back some room (by omega), true_and]
    rw [store_ok (by omega)]
    simp [eq_comm]
  · simp [prependBytes, prependableBytes, require, room, bind, Except.bind]

theorem prependBytes_spec {b b' : ByteBuffer} (hv : b.Valid) {bytes : List Byte}
    (some : 1 ≤ bytes.length) (h : b.prependBytes bytes = .ok b') :
    b'.Valid ∧ b'.unread = bytes ++ b.unread := by
  have hs := hv.size
  have hr := hv.read_le
  have hw := hv.write_le
  obtain ⟨room, rfl⟩ := (prependBytes_ok_iff hv some).mp h
  constructor
  · exact ⟨by simp only; rw [splice_length (by omega), hs], by simp only; omega, hw,
      hv.reserved_le, hv.reserved_pos, hv.caps_lt⟩
  · simp only [unread]
    rw [show b.writeIndex - (b.readIndex - bytes.length) =
      bytes.length + (b.writeIndex - b.readIndex) by omega, window_append,
      window_splice_self (by omega), window_splice_after (by omega) (by omega),
      Nat.sub_add_cancel room]

/-! ## Reading -/

theorem reset_spec {b : ByteBuffer} (hv : b.Valid) : b.reset.Valid ∧ b.reset.unread = [] := by
  refine ⟨⟨hv.size, Nat.le_refl _, hv.reserved_le, hv.reserved_le, hv.reserved_pos, hv.caps_lt⟩, ?_⟩
  simp [unread, reset]

theorem remove_ok {b : ByteBuffer} (hv : b.Valid) (n : Nat) :
    ∃ b', b.remove n = .ok b' ∧ b'.Valid ∧ b'.buff = b.buff ∧ b'.unread = b.unread.drop n := by
  have hr := hv.read_le
  have hw := hv.write_le
  have hc := hv.caps_lt
  simp only [remove, unreadBytes_eq hv.ordered, ok_bind]
  by_cases less : n < b.writeIndex - b.readIndex
  · rw [if_pos less, update_read (by omega)]
    refine ⟨_, rfl, ⟨hv.size, by simp only; omega, hw, hv.reserved_le, hv.reserved_pos, hc⟩,
      rfl, ?_⟩
    simp only [unread, window_drop]
    congr 1
    omega
  · rw [if_neg less]
    refine ⟨_, rfl, (reset_spec hv).1, rfl, ?_⟩
    rw [(reset_spec hv).2, List.drop_of_length_le]
    rw [unread_length hv.ordered]
    omega

theorem remove_spec {b b' : ByteBuffer} (hv : b.Valid) {n : Nat} (h : b.remove n = .ok b') :
    b'.Valid ∧ b'.unread = b.unread.drop n := by
  obtain ⟨c, hc, valid, _, same⟩ := remove_ok hv n
  rw [hc] at h
  cases h
  exact ⟨valid, same⟩

/-- The slice that `consume` takes before it removes still shows its bytes
afterwards, since removing only moves the read index. -/
theorem removed_slice {b b' : ByteBuffer} {n : Nat}
    (hn : n ≤ b.writeIndex - b.readIndex) (same : b'.buff = b.buff) :
    Slice.bytes ⟨.buffer b.readIndex, n⟩ b'.buff = b.unread.take n := by
  simp only [Slice.bytes, same, unread, window_take hn]

theorem consume_ok {b : ByteBuffer} (hv : b.Valid) (n : Nat) :
    ∃ b' s, b.consume n = .ok (b', s) ∧ b'.Valid ∧ b'.unread = b.unread.drop n ∧
      s.bytes b'.buff = b.unread.take n := by
  have hl := unread_length hv.ordered
  simp only [consume, unreadBytes_eq hv.ordered, ok_bind]
  by_cases enough : n ≤ b.writeIndex - b.readIndex
  · obtain ⟨b', hb, valid, buff, rest⟩ := remove_ok hv n
    rw [if_pos enough, hb]
    exact ⟨b', _, rfl, valid, rest, removed_slice enough buff⟩
  · obtain ⟨b', hb, valid, buff, rest⟩ := remove_ok hv (b.writeIndex - b.readIndex)
    rw [if_neg enough, hb]
    refine ⟨b', _, rfl, valid, ?_, ?_⟩
    · rw [rest, List.drop_of_length_le (by omega), List.drop_of_length_le (by omega)]
    · rw [removed_slice (Nat.le_refl _) buff, List.take_of_length_le (by omega),
        List.take_of_length_le (by omega)]

/-- With `verify` set, asking for more than there is takes nothing; otherwise
this is `consume`. -/
theorem consumeVerify_eq {b : ByteBuffer} (hv : b.Valid) (n : Nat) (verify : Bool) :
    b.consumeVerify n verify =
      if b.writeIndex - b.readIndex < n ∧ verify then .ok (b, ⟨.literal, 0⟩) else b.consume n := by
  simp only [consumeVerify, consume, unreadBytes_eq hv.ordered, ok_bind]
  by_cases enough : n ≤ b.writeIndex - b.readIndex
  · rw [if_pos enough, if_pos enough, if_neg (by omega)]
  · cases verify with
    | true => simp [show b.writeIndex - b.readIndex < n by omega, enough]
    | false => simp [enough]

end Libatp.Buffer.ByteBuffer
