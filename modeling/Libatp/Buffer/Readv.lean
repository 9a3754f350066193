import Libatp.Base.Posix
import Libatp.Buffer.Integers
import Mathlib.Data.List.TakeWhile

/-!
# `ByteBufferedReader::readv`

The kernel scatters what it read over the writable part of the buffer and a
64 KiB array on the stack. What landed in the second is appended afterwards, as
`writer.append(extrbuffer)`: the only overload that takes one argument takes a
`slice`, and a slice made from a pointer has the length that `strlen` finds.
-/

namespace Libatp.Buffer
open Base

/-- `RETRIABLE_ERROR`. -/
def retriableError : Int := -11

def ByteBuffer.readv (b : ByteBuffer) (out : ReadOutcome) : Checked (ByteBuffer × Int) := do
  let writable ← b.writableBytes
  match out with
  | .eof errno => return (b, if errno.rwRetriable then retriableError else 0)
  | .failed errno => return (b, if errno.rwRetriable then retriableError else -1)
  | .bytes data => do
    let mem ← store b.buff b.writeIndex (data.take writable)
    let extr ← store (List.replicate extrSize 0#8) 0 (data.drop writable)
    let b := { b with buff := mem }
    if data.length ≤ writable then
      return (b.updateReadWriteIndex 0 data.length true, data.length)
    else
      let b := b.updateReadWriteIndex 0 b.caps false
      let b ← b.grow (data.length - writable)
      let spilled ← cString extr
      let b ← b.append spilled
      return (b, data.length)

/-- What the two vectors offered to `::readv` can take. The second is only
offered while the first is the smaller one. -/
def ReadOffered (b : ByteBuffer) (data : List Byte) : Prop :=
  1 ≤ data.length ∧ (data.length ≤ b.caps - b.writeIndex ∨
    b.caps - b.writeIndex < extrSize ∧ data.length ≤ b.caps - b.writeIndex + extrSize)

/-- If bytes spill over, growing the full buffer by their number keeps its size a
word. -/
def ReadFits (b : ByteBuffer) (data : List Byte) : Prop :=
  b.caps - b.writeIndex < data.length →
    { b with writeIndex := b.caps }.Fits (data.length - (b.caps - b.writeIndex))

/-! ## States of a buffer in use -/

theorem readInt32_valid {b b' : ByteBuffer} {x : BitVec 32} (hv : b.Valid)
    (h : b.readInt32 = .ok (b', x)) : b'.Valid := by
  obtain ⟨c, ok, valid, _⟩ := readInt32_ok hv (peekInt32_eq hv)
  rw [ok] at h
  cases h
  exact valid

theorem readInt64_valid {b b' : ByteBuffer} {x : BitVec 64} (hv : b.Valid)
    (h : b.readInt64 = .ok (b', x)) : b'.Valid := by
  obtain ⟨c, ok, valid, _⟩ := readInt64_ok hv (peekInt64_eq hv)
  rw [ok] at h
  cases h
  exact valid

theorem decreaseCompact_valid {b b' : ByteBuffer} {n : Nat} (hv : b.Valid)
    (h : b.decreaseCompact n = .ok b') : b'.Valid := by
  simp only [ByteBuffer.decreaseCompact, ByteBuffer.unreadBytes_eq hv.ordered,
    ByteBuffer.writableBytes_eq hv.ordered, ok_bind] at h
  split at h
  · obtain ⟨moved, _, rest⟩ := bind_ok_iff.mp h
    obtain ⟨mem, stored, rest⟩ := bind_ok_iff.mp rest
    obtain ⟨_, _, eq⟩ := bind_ok_iff.mp rest
    obtain ⟨room, rfl⟩ := store_ok_iff.mp stored
    cases eq
    exact ⟨(splice_length room).trans hv.size, hv.read_le, hv.write_le, hv.reserved_le,
      hv.reserved_pos, hv.caps_lt⟩
  · cases h; exact hv

theorem decreaseRealloc_valid {b b' : ByteBuffer} {n : Nat} (hv : b.Valid)
    (h : b.decreaseRealloc n = .ok b') : b'.Valid := by
  simp only [ByteBuffer.decreaseRealloc, ByteBuffer.unreadBytes_eq hv.ordered,
    ByteBuffer.writableBytes_eq hv.ordered, ok_bind, ByteBuffer.load_unread hv.ordered,
    ByteBuffer.prependHeaderBytes] at h
  split at h
  · obtain ⟨mem, stored, eq⟩ := bind_ok_iff.mp h
    obtain ⟨room, rfl⟩ := store_ok_iff.mp stored
    rw [ByteBuffer.unread_length hv.ordered] at room
    have word : (List.replicate (wsub (wrap (b.caps + b.reservedPrependSize)) n)
        0#8).length < wordSize := by
      rw [List.length_replicate]; exact wrap_lt _
    have tail := ByteBuffer.update_relocated hv.settable _ room word
    have moved := (ByteBuffer.relocated_spec hv _ room word).1
    simp only [List.length_replicate] at tail
    rw [← tail] at moved
    cases eq
    exact moved
  · cases h; exact hv

theorem decrease_valid {b b' : ByteBuffer} {n : Nat} (hv : b.Valid)
    (h : b.decrease n = .ok b') : b'.Valid := by
  unfold ByteBuffer.decrease at h
  split at h
  · cases h; exact hv
  · obtain ⟨c, compacted, realloc⟩ := bind_ok_iff.mp h
    exact decreaseRealloc_valid (decreaseCompact_valid hv compacted) realloc

/-! ## What `readv` leaves -/

theorem takeWhile_short {spill : List Byte} (h : 0#8 ∈ spill) :
    (spill.takeWhile (· ≠ 0#8)).length < spill.length := by
  induction spill with
  | nil => simp at h
  | cons x spill ih =>
    by_cases hx : x = 0#8
    · subst hx; simp
    · have := ih (by simpa [Ne.symm hx] using h)
      simpa [List.takeWhile_cons, hx] using this

/-- The stack array after the kernel filled it from the front. -/
theorem spill_array {spill : List Byte} (h : spill.length ≤ extrSize) :
    store (List.replicate extrSize 0#8) 0 spill =
      .ok (spill ++ List.replicate (extrSize - spill.length) 0#8) := by
  rw [store_ok (by simpa using h)]
  simp [splice]

section
variable {b : ByteBuffer} {data : List Byte}

/-- All of it fits into the buffer itself. -/
theorem readv_within (hv : b.Valid) (within : data.length ≤ b.caps - b.writeIndex) :
    b.readv (.bytes data) = .ok (b.written data, (data.length : Int)) := by
  have hs := hv.size
  have hw := hv.write_le
  have hc := hv.caps_lt
  simp only [ByteBuffer.readv, ByteBuffer.writableBytes_eq hv.ordered, ok_bind,
    List.take_of_length_le within, List.drop_of_length_le within, if_pos within]
  rw [store_ok (by omega), store_ok (by simp), ok_bind, ok_bind,
    ByteBuffer.update_write (by simp only; omega)]
  rfl

/-- The buffer filled to its end, as it is before `grow`. -/
theorem filled_spec (hv : b.Valid) (long : b.caps - b.writeIndex < data.length) :
    (b.written (data.take (b.caps - b.writeIndex))).Valid ∧
      (b.written (data.take (b.caps - b.writeIndex))).unread =
        b.unread ++ data.take (b.caps - b.writeIndex) ∧
      (b.written (data.take (b.caps - b.writeIndex))).writeIndex = b.caps := by
  have hw := hv.write_le
  have hl : (data.take (b.caps - b.writeIndex)).length = b.caps - b.writeIndex := by
    rw [List.length_take]; omega
  obtain ⟨valid, same⟩ := ByteBuffer.written_spec hv (data.take (b.caps - b.writeIndex))
    (by omega)
  exact ⟨valid, same, by simp only [ByteBuffer.written]; omega⟩

theorem readv_over (hv : b.Valid) (long : b.caps - b.writeIndex < data.length)
    (offered : data.length ≤ b.caps - b.writeIndex + extrSize) :
    b.readv (.bytes data) = (do
      let c ← (b.written (data.take (b.caps - b.writeIndex))).grow
        (data.length - (b.caps - b.writeIndex))
      let spilled ← cString (data.drop (b.caps - b.writeIndex) ++
        List.replicate (extrSize - (data.length - (b.caps - b.writeIndex))) 0#8)
      let d ← c.append spilled
      return (d, (data.length : Int))) := by
  have hs := hv.size
  have hw := hv.write_le
  have hr := hv.reserved_le
  have hp := hv.reserved_pos
  have hl : (data.take (b.caps - b.writeIndex)).length = b.caps - b.writeIndex := by
    rw [List.length_take]; omega
  simp only [ByteBuffer.readv, ByteBuffer.writableBytes_eq hv.ordered, ok_bind]
  rw [store_ok (by omega), spill_array (by rw [List.length_drop]; omega), ok_bind, ok_bind,
    if_neg (by omega), List.length_drop]
  have full : { b with buff := splice b.buff b.writeIndex (data.take
        (b.caps - b.writeIndex)) }.updateReadWriteIndex 0 b.caps false =
      b.written (data.take (b.caps - b.writeIndex)) := by
    have : b.writeIndex + (data.take (b.caps - b.writeIndex)).length = b.caps := by omega
    simp only [ByteBuffer.updateReadWriteIndex, ByteBuffer.written, this, ne_eq,
      show b.caps ≠ 0 by omega, not_false_eq_true, not_true_eq_false, if_true, if_false,
      Bool.false_eq_true]
  rw [full]

theorem readv_valid {out : ReadOutcome} {b' : ByteBuffer} {n : Int} (hv : b.Valid)
    (offered : ∀ data, out = .bytes data → ReadOffered b data)
    (h : b.readv out = .ok (b', n)) : b'.Valid := by
  cases out with
  | eof errno | failed errno =>
    simp only [ByteBuffer.readv, ByteBuffer.writableBytes_eq hv.ordered, ok_bind] at h
    cases h
    exact hv
  | bytes data =>
    by_cases within : data.length ≤ b.caps - b.writeIndex
    · rw [readv_within hv within] at h
      cases h
      have hw := hv.write_le
      exact (ByteBuffer.written_spec hv data (by omega)).1
    · obtain ⟨_, fit⟩ := offered data rfl
      rw [readv_over hv (by omega) (by omega)] at h
      obtain ⟨c, grown, rest⟩ := bind_ok_iff.mp h
      obtain ⟨spilled, _, rest⟩ := bind_ok_iff.mp rest
      obtain ⟨d, appended, eq⟩ := bind_ok_iff.mp rest
      cases eq
      have filled := (filled_spec hv (show b.caps - b.writeIndex < data.length by omega)).1
      exact (ByteBuffer.append_spec (ByteBuffer.grow_spec filled grown).1 appended).1

/-- What `readv` promises: every byte the kernel delivered is there, in order,
behind what was unread before. -/
def Delivered (b : ByteBuffer) (data : List Byte) : Prop :=
  ∃ b', b.readv (.bytes data) = .ok (b', (data.length : Int)) ∧ b'.Valid ∧
    b'.unread = b.unread ++ data

/-- The bytes that spilled long are a C string shorter than its array. -/
def SpillIsText (b : ByteBuffer) (data : List Byte) : Prop :=
  (∀ x ∈ data.drop (b.caps - b.writeIndex), x ≠ 0#8) ∧
    data.length - (b.caps - b.writeIndex) < extrSize

theorem delivered_within (hv : b.Valid) (within : data.length ≤ b.caps - b.writeIndex) :
    Delivered b data := by
  have hw := hv.write_le
  obtain ⟨valid, same⟩ := ByteBuffer.written_spec hv data (by omega)
  exact ⟨_, readv_within hv within, valid, same⟩

theorem delivered_over (hv : b.Valid) (long : b.caps - b.writeIndex < data.length)
    (offered : data.length ≤ b.caps - b.writeIndex + extrSize) (fits : ReadFits b data)
    (text : SpillIsText b data) : Delivered b data := by
  obtain ⟨filled, same, full⟩ := filled_spec hv long
  have fits' := fits long
  have grows : (b.written (data.take (b.caps - b.writeIndex))).Fits
      (data.length - (b.caps - b.writeIndex)) := by
    intro short
    rw [full] at short
    exact fits' short
  obtain ⟨c, grown, room⟩ := ByteBuffer.grow_ok filled
    (by rw [full]; simp only [ByteBuffer.written]; omega) grows
  obtain ⟨validC, sameC⟩ := ByteBuffer.grow_spec filled grown
  have spill : cString (data.drop (b.caps - b.writeIndex) ++
      List.replicate (extrSize - (data.length - (b.caps - b.writeIndex))) 0#8) =
        .ok (data.drop (b.caps - b.writeIndex)) := by
    rw [cString_padded (by have := text.2; omega),
      List.takeWhile_eq_self_iff.mpr fun x hx => by simpa using text.1 x hx]
  have hroom : (data.drop (b.caps - b.writeIndex)).length ≤ c.caps - c.writeIndex := by
    rw [List.length_drop]; omega
  obtain ⟨d, appended⟩ := ByteBuffer.append_ok validC
    (data.drop (b.caps - b.writeIndex)) (fun short => absurd short.1 (by omega))
  obtain ⟨validD, sameD⟩ := ByteBuffer.append_spec validC appended
  refine ⟨d, ?_, validD, ?_⟩
  · rw [readv_over hv long offered, grown, ok_bind, spill, ok_bind, appended]
    rfl
  · rw [sameD, sameC, same, List.append_assoc, List.take_append_drop]

/-- Bytes behind the first zero are lost, and a full array without one is read
past its end. -/
theorem not_delivered_over (hv : b.Valid) (long : b.caps - b.writeIndex < data.length)
    (offered : data.length ≤ b.caps - b.writeIndex + extrSize)
    (bad : ¬ SpillIsText b data) : ¬ Delivered b data := by
  rintro ⟨d, h, _, same⟩
  obtain ⟨filled, sameF, _⟩ := filled_spec hv long
  rw [readv_over hv long offered] at h
  obtain ⟨c, grown, rest⟩ := bind_ok_iff.mp h
  obtain ⟨spilled, text, rest⟩ := bind_ok_iff.mp rest
  obtain ⟨d', appended, eq⟩ := bind_ok_iff.mp rest
  cases eq
  obtain ⟨validC, sameC⟩ := ByteBuffer.grow_spec filled grown
  have sameD := (ByteBuffer.append_spec validC appended).2
  rw [same, sameC, sameF, List.append_assoc, List.append_cancel_left_eq] at sameD
  have whole : spilled = data.drop (b.caps - b.writeIndex) := by
    have split := (List.take_append_drop (b.caps - b.writeIndex) data).trans sameD
    exact (List.append_cancel_left split).symm
  by_cases zero : 0#8 ∈ data.drop (b.caps - b.writeIndex)
  · have short := takeWhile_short zero
    have prefixed : spilled = (data.drop (b.caps - b.writeIndex)).takeWhile (· ≠ 0#8) := by
      by_cases room : 1 ≤ extrSize - (data.length - (b.caps - b.writeIndex))
      · rw [cString_padded room] at text
        exact (Except.ok.inj text).symm
      · rw [show extrSize - (data.length - (b.caps - b.writeIndex)) = 0 by omega,
          List.replicate_zero, List.append_nil, cString, if_pos zero] at text
        exact (Except.ok.inj text).symm
    rw [← prefixed, whole] at short
    exact Nat.lt_irrefl _ short
  · have full : extrSize ≤ data.length - (b.caps - b.writeIndex) := by
      by_contra less
      exact bad ⟨fun x hx hz => zero (hz ▸ hx), by omega⟩
    rw [show extrSize - (data.length - (b.caps - b.writeIndex)) = 0 by omega,
      List.replicate_zero, List.append_nil, cString, if_neg zero] at text
    cases text

theorem delivered_iff (hv : b.Valid) (offered : ReadOffered b data) (fits : ReadFits b data) :
    Delivered b data ↔ data.length ≤ b.caps - b.writeIndex ∨ SpillIsText b data := by
  by_cases within : data.length ≤ b.caps - b.writeIndex
  · simp only [within, true_or, iff_true]
    exact delivered_within hv within
  · have long : b.caps - b.writeIndex < data.length := by omega
    have fit : data.length ≤ b.caps - b.writeIndex + extrSize := by
      have := offered.2
      omega
    simp only [within, false_or]
    refine ⟨fun h => ?_, fun h => delivered_over hv long fit fits h⟩
    by_contra bad
    exact not_delivered_over hv long fit bad h

end

/-- The buffers that calls of the writer and the reader lead to, from any
construction with a reserved prefix. A call that faults leads nowhere. -/
inductive Reachable : ByteBuffer → Prop where
  | create {prepend initial : Nat} (hp : 1 ≤ prepend) (hs : prepend + initial < wordSize) :
      Reachable (.create prepend initial)
  | call {b b' : ByteBuffer} {op : Op} {out : List Byte} :
      Reachable b → op.exec b = .ok (b', out) → Reachable b'
  | readInt32 {b b' : ByteBuffer} {x : BitVec 32} :
      Reachable b → b.readInt32 = .ok (b', x) → Reachable b'
  | readInt64 {b b' : ByteBuffer} {x : BitVec 64} :
      Reachable b → b.readInt64 = .ok (b', x) → Reachable b'
  | decrease {b b' : ByteBuffer} {n : Nat} :
      Reachable b → b.decrease n = .ok b' → Reachable b'
  | readv {b b' : ByteBuffer} {out : ReadOutcome} {n : Int}
      (offered : ∀ data, out = .bytes data → ReadOffered b data) :
      Reachable b → b.readv out = .ok (b', n) → Reachable b'

theorem Reachable.valid {b : ByteBuffer} (h : Reachable b) : b.Valid := by
  induction h with
  | create hp hs => exact (create_valid _ _ hp hs).1
  | call _ h ih => exact exec_valid ih h
  | readInt32 _ h ih => exact readInt32_valid ih h
  | readInt64 _ h ih => exact readInt64_valid ih h
  | decrease _ h ih => exact decrease_valid ih h
  | readv offered _ h ih => exact readv_valid ih offered h

/-- **What `readv` delivers, exactly.** From any buffer in use, all the bytes
the kernel scattered arrive if and only if none of them spilled over, or the
spilled bytes contain no zero and do not fill the stack array. -/
theorem readv_delivers_iff {b : ByteBuffer} (reached : Reachable b) (data : List Byte)
    (offered : ReadOffered b data) (fits : ReadFits b data) :
    Delivered b data ↔ data.length ≤ b.caps - b.writeIndex ∨ SpillIsText b data :=
  delivered_iff reached.valid offered fits

/-- 1,025 bytes for a connection's new buffer, which has room for 1,024. -/
theorem read_spills_one (x : Byte) :
    (ByteBuffer.create 8 1024).caps - (ByteBuffer.create 8 1024).writeIndex = 1024 ∧
      ReadOffered (.create 8 1024) (List.replicate 1025 x) ∧
      ReadFits (.create 8 1024) (List.replicate 1025 x) := by
  have caps : (ByteBuffer.create 8 1024).caps - (ByteBuffer.create 8 1024).writeIndex = 1024 := by
    decide
  refine ⟨caps, ?_, ?_⟩
  · simp only [ReadOffered, caps, List.length_replicate, extrSize]
    omega
  · intro _ _
    simp only [caps, List.length_replicate]
    decide

theorem readv_delivers_text :
    Delivered (.create 8 1024) (List.replicate 1025 7) := by
  obtain ⟨caps, offered, fits⟩ := read_spills_one 7
  refine (readv_delivers_iff (.create (by decide) (by decide)) _ offered fits).mpr (.inr ⟨?_, ?_⟩)
  · rw [caps, List.drop_replicate]
    simp
  · rw [caps, List.length_replicate]
    decide

/-- The one byte that spills over is zero, so the string made of it is empty. -/
theorem readv_loses_zero :
    Reachable (.create 8 1024) ∧ ReadOffered (.create 8 1024) (List.replicate 1025 0) ∧
      ReadFits (.create 8 1024) (List.replicate 1025 0) ∧
      ¬ Delivered (.create 8 1024) (List.replicate 1025 0) := by
  obtain ⟨caps, offered, fits⟩ := read_spills_one 0
  refine ⟨.create (by decide) (by decide), offered, fits, fun h => ?_⟩
  have valid := (create_valid 8 1024 (by decide) (by decide)).1
  rcases (delivered_iff valid offered fits).mp h with within | text
  · rw [caps, List.length_replicate] at within
    omega
  · refine text.1 0#8 ?_ rfl
    rw [caps, List.drop_replicate]
    simp

end Libatp.Buffer
