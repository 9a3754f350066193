import Libatp.Buffer.Integers
import Libatp.Buffer.Shrinking

/-!
# Length-prefixed frames

The use that `atp_buffer_benchmark.cpp` makes of a buffer: chunks are appended, their length
is put in front of them, the array is shrunk, and the length and the chunks are read again.
Where the data is concerned nothing can go wrong. What can are the sizes, which wrap: the
constructor's sum, the array that `grow` doubles, and the sum in `decrease`.
-/

namespace Libatp.Buffer
open Base

def appendAll : ByteBuffer → List (List Byte) → Checked ByteBuffer
  | b, [] => return b
  | b, chunk :: chunks => do
    let b ← b.append chunk
    appendAll b chunks

/-- A new buffer with the chunks and, in front of them, their length. -/
def frame (prepend initial : Nat) (chunks : List (List Byte)) : Checked ByteBuffer := do
  let b ← appendAll (.create prepend initial) chunks
  b.prependInt64 (BitVec.ofNat 64 chunks.flatten.length)

/-- What `peekInt64`, `readInt64` and `consume(length)` return after `decrease(k)`, and the
buffer they leave. -/
def unframe (b : ByteBuffer) (k length : Nat) : Checked (Int × Int × List Byte × ByteBuffer) := do
  let b ← b.decrease k
  let peeked ← b.peekInt64
  let (b, read) ← b.readInt64
  let (b, s) ← b.consume length
  return (peeked.toInt, read.toInt, s.bytes b.buff, b)

/-- The frame is made, and if `k` bytes are writable it is read as it was made. -/
def RoundTrip (prepend initial : Nat) (chunks : List (List Byte)) (k : Nat) : Prop :=
  ∃ b, frame prepend initial chunks = .ok b ∧
    (k ≤ b.caps - b.writeIndex →
      ∃ b', unframe b k chunks.flatten.length =
          .ok (chunks.flatten.length, chunks.flatten.length, chunks.flatten, b') ∧
        b'.unread = [])

/-! ## Sizes -/

namespace ByteBuffer

/-- If `n` bytes make `grow` allocate, the array it computes has room for them. -/
def Served (b : ByteBuffer) (n : Nat) : Prop :=
  b.caps - b.writeIndex < n →
    b.reservedPrependSize + (b.writeIndex - b.readIndex) + n ≤ wrap (wrap (b.caps * 2) + n)

instance (b : ByteBuffer) (n : Nat) : Decidable (b.Served n) := inferInstanceAs (Decidable (_ → _))

/-- If `decrease(k)` allocates, the size of its array is a word. -/
def Shrinkable (b : ByteBuffer) (k : Nat) : Prop :=
  k ≠ 0 → k ≤ b.caps - b.writeIndex → b.caps + b.reservedPrependSize < wordSize + k

instance (b : ByteBuffer) (k : Nat) : Decidable (b.Shrinkable k) :=
  inferInstanceAs (Decidable (_ → _ → _))

/-- Every array on the way is as large as its use needs. -/
def Roomy (k : Nat) : ByteBuffer → List (List Byte) → Prop
  | b, [] => b.Shrinkable k
  | b, chunk :: chunks => b.Served chunk.length ∧
    match b.append chunk with
    | .ok b' => Roomy k b' chunks
    | .error _ => True

instance decidableRoomy (k : Nat) :
    (b : ByteBuffer) → (chunks : List (List Byte)) → Decidable (Roomy k b chunks)
  | b, [] => inferInstanceAs (Decidable (b.Shrinkable k))
  | b, chunk :: chunks =>
    have : Decidable (match b.append chunk with
        | .ok b' => Roomy k b' chunks
        | .error _ => True) :=
      match b.append chunk with
      | .ok b' => decidableRoomy k b' chunks
      | .error _ => isTrue trivial
    inferInstanceAs (Decidable (_ ∧ _))

/-- Nothing was read or prepended yet. -/
structure Untouched (b : ByteBuffer) : Prop where
  valid : b.Valid
  front : b.readIndex = b.reservedPrependSize

theorem create_untouched {prepend initial : Nat} (hp : 1 ≤ prepend)
    (hs : prepend + initial < wordSize) : (create prepend initial).Untouched :=
  ⟨(create_valid prepend initial hp hs).1, rfl⟩

/-- Without read bytes to make room from, `grow` has to allocate. -/
theorem Untouched.grow_ok_iff {b c : ByteBuffer} (hb : b.Untouched) {n : Nat}
    (full : b.caps - b.writeIndex < n) :
    b.grow n = .ok c ∧ c.writeIndex + n ≤ c.caps ↔
      b.reservedPrependSize + (b.writeIndex - b.readIndex) + n ≤ wrap (wrap (b.caps * 2) + n) ∧
        c = b.relocated (List.replicate (wrap (wrap (b.caps * 2) + n)) 0#8) := by
  have hv := hb.valid
  have front := hb.front
  have hr := hv.read_le
  have hw := hv.write_le
  have hc := hv.caps_lt
  have size := wrap_lt (wrap (b.caps * 2) + n)
  rw [grow_eq hv.ordered]
  constructor
  · rintro ⟨grown, room⟩
    split at grown
    · obtain ⟨_, rfl⟩ := (growRealloc_ok_iff hv.ordered hv.settable).mp grown
      simp only [relocated, List.length_replicate] at room
      exact ⟨room, rfl⟩
    · have ahead := ((growCompact_ok_iff hv.ordered hv.settable).mp grown).1
      omega
  · rintro ⟨room, rfl⟩
    have short : b.Reallocates n := by
      rw [Reallocates, wrap_of_lt (by omega)]
      omega
    rw [if_pos short]
    refine ⟨(growRealloc_ok_iff hv.ordered hv.settable).mpr ⟨by omega, rfl⟩, ?_⟩
    simp only [relocated, List.length_replicate]
    exact room

theorem Untouched.append_ok_iff {b : ByteBuffer} (hb : b.Untouched) (data : List Byte) :
    (∃ b', b.append data = .ok b') ↔ b.Served data.length := by
  have hw := hb.valid.write_le
  by_cases full : b.caps - b.writeIndex < data.length
  · rw [Served, imp_iff_right full]
    constructor
    · rintro ⟨b', appended⟩
      obtain ⟨c, grown, room, _⟩ := (ByteBuffer.append_ok_iff hb.valid).mp appended
      rw [if_pos full] at grown
      exact ((hb.grow_ok_iff full).mp ⟨grown, room⟩).1
    · intro room
      obtain ⟨grown, fits⟩ := (hb.grow_ok_iff full).mpr ⟨room, rfl⟩
      exact ⟨_, (ByteBuffer.append_ok_iff hb.valid).mpr ⟨_, by rw [if_pos full, grown], fits, rfl⟩⟩
  · refine ⟨fun _ short => absurd short full, fun _ => ?_⟩
    exact ⟨_, (ByteBuffer.append_ok_iff hb.valid).mpr
      ⟨b, by rw [if_neg full]; rfl, by omega, rfl⟩⟩

theorem Untouched.append {b b' : ByteBuffer} (hb : b.Untouched) {data : List Byte}
    (h : b.append data = .ok b') :
    b'.Untouched ∧ b'.reservedPrependSize = b.reservedPrependSize := by
  have valid := (append_spec hb.valid h).1
  obtain ⟨c, grown, room, rfl⟩ := (ByteBuffer.append_ok_iff hb.valid).mp h
  by_cases full : b.caps - b.writeIndex < data.length
  · rw [if_pos full] at grown
    obtain ⟨_, rfl⟩ := (hb.grow_ok_iff full).mp ⟨grown, room⟩
    exact ⟨⟨valid, rfl⟩, rfl⟩
  · rw [if_neg full] at grown
    cases grown
    exact ⟨⟨valid, hb.front⟩, rfl⟩

end ByteBuffer

open ByteBuffer

/-- The appends return, and the array may then be shrunk, exactly if there is room. -/
theorem appendAll_ok_iff {b : ByteBuffer} (hb : b.Untouched) (chunks : List (List Byte)) (k : Nat) :
    (∃ b', appendAll b chunks = .ok b' ∧ b'.Shrinkable k) ↔ Roomy k b chunks := by
  induction chunks generalizing b with
  | nil =>
    constructor
    · rintro ⟨b', same, shrinks⟩
      cases same
      exact shrinks
    · intro shrinks
      exact ⟨b, rfl, shrinks⟩
  | cons chunk chunks ih =>
    rw [Roomy, ← hb.append_ok_iff chunk]
    constructor
    · rintro ⟨b', appended, shrinks⟩
      obtain ⟨b₁, first, rest⟩ := bind_ok_iff.mp appended
      simp only [first]
      exact ⟨⟨b₁, rfl⟩, (ih (hb.append first).1).mp ⟨b', rest, shrinks⟩⟩
    · rintro ⟨⟨b₁, first⟩, roomy⟩
      simp only [first] at roomy
      obtain ⟨b', rest, shrinks⟩ := (ih (hb.append first).1).mpr roomy
      exact ⟨b', by rw [appendAll, first]; exact rest, shrinks⟩

theorem appendAll_spec {b b' : ByteBuffer} (hb : b.Untouched) {chunks : List (List Byte)}
    (h : appendAll b chunks = .ok b') :
    b'.Untouched ∧ b'.reservedPrependSize = b.reservedPrependSize ∧
      b'.unread = b.unread ++ chunks.flatten := by
  induction chunks generalizing b with
  | nil =>
    cases h
    exact ⟨hb, rfl, (List.append_nil _).symm⟩
  | cons chunk chunks ih =>
    obtain ⟨b₁, first, rest⟩ := bind_ok_iff.mp h
    obtain ⟨hb₁, same₁⟩ := hb.append first
    obtain ⟨hb', same, bytes⟩ := ih hb₁ rest
    rw [(append_spec hb.valid first).2, List.append_assoc] at bytes
    exact ⟨hb', same.trans same₁, bytes⟩

theorem prependBytes_outside {b : ByteBuffer} {bytes : List Byte} (some : 1 ≤ bytes.length)
    (room : bytes.length ≤ b.readIndex) (word : b.readIndex < wordSize)
    (outside : b.buff.length < b.readIndex) : b.prependBytes bytes = .error .outOfBounds := by
  have past : store b.buff (b.readIndex - bytes.length) bytes = .error .outOfBounds :=
    store_outside (by omega)
  rw [prependBytes, prependableBytes, require_true room, ok_bind, update_back some room word]
  simp only [past]
  rfl

/-- A sum that wraps leaves the indices behind the end of the array. -/
theorem frame_wrapped {prepend initial : Nat} (hp : 8 ≤ prepend) (word : prepend < wordSize)
    (word' : initial < wordSize) (wraps : wordSize ≤ prepend + initial)
    (chunks : List (List Byte)) : ∃ fault, frame prepend initial chunks = .error fault := by
  have caps : wrap (prepend + initial) = prepend + initial - wordSize := by
    unfold wrap
    rw [Nat.mod_eq_sub_mod wraps, Nat.mod_eq_of_lt (by omega)]
  cases chunks with
  | nil =>
    have outside : (create prepend initial).buff.length < prepend := by
      simp only [create, caps, List.length_replicate]
      omega
    exact ⟨.outOfBounds, prependBytes_outside (by simp) hp word outside⟩
  | cons chunk chunks =>
    have behind : (create prepend initial).writableBytes = .error .assertion := by
      rw [writableBytes, require_false]
      · rfl
      · simp only [create]
        omega
    refine ⟨.assertion, ?_⟩
    rw [frame, appendAll, append, behind]
    rfl

/-! ## Writing and reading a frame -/

theorem frame_ok_iff {prepend initial : Nat} (hp : 8 ≤ prepend)
    (hs : prepend + initial < wordSize) (chunks : List (List Byte)) {b : ByteBuffer} :
    frame prepend initial chunks = .ok b ↔
      ∃ a, appendAll (.create prepend initial) chunks = .ok a ∧
        b = { a with
          buff := splice a.buff (a.readIndex - 8)
            (bigEndian64 (BitVec.ofNat 64 chunks.flatten.length))
          readIndex := a.readIndex - 8 } := by
  have fresh : (create prepend initial).Untouched := create_untouched (by omega) hs
  rw [frame, bind_ok_iff]
  refine exists_congr fun a => and_congr_right fun appended => ?_
  obtain ⟨ha, same, _⟩ := appendAll_spec fresh appended
  have room : 8 ≤ a.readIndex := by
    rw [ha.front, same]
    exact hp
  rw [prependInt64, hostBytes_htonll, prependBytes_ok_iff ha.valid (by simp)]
  exact and_iff_right room

theorem frame_spec {prepend initial : Nat} (hp : 8 ≤ prepend) (hs : prepend + initial < wordSize)
    {chunks : List (List Byte)} {b : ByteBuffer} (h : frame prepend initial chunks = .ok b) :
    b.Valid ∧ b.unread = bigEndian64 (BitVec.ofNat 64 chunks.flatten.length) ++ chunks.flatten := by
  have fresh : (create prepend initial).Untouched := create_untouched (by omega) hs
  obtain ⟨a, appended, prepended⟩ := bind_ok_iff.mp h
  obtain ⟨ha, _, bytes⟩ := appendAll_spec fresh appended
  rw [prependInt64, hostBytes_htonll] at prepended
  obtain ⟨valid, unread⟩ := prependBytes_spec ha.valid (by simp) prepended
  rw [bytes, (create_valid prepend initial (by omega) hs).2, List.nil_append] at unread
  exact ⟨valid, unread⟩

/-- Shrinking by what is writable changes no unread byte, if it returns. -/
theorem decrease_ok_iff {b : ByteBuffer} (hv : b.Valid) {k : Nat}
    (writable : k ≤ b.caps - b.writeIndex) :
    (∃ b', b.decrease k = .ok b' ∧ b'.Valid ∧ b'.unread = b.unread) ↔ b.Shrinkable k := by
  have hr := hv.read_le
  have hw := hv.write_le
  by_cases zero : k = 0
  · have stays : b.decrease k = .ok b := by
      rw [decrease, if_pos zero]
      rfl
    exact ⟨fun _ positive => absurd zero positive, fun _ => ⟨b, stays, hv, rfl⟩⟩
  · rw [Shrinkable, imp_iff_right zero, imp_iff_right writable, decrease_realloc hv zero writable,
      decreaseRealloc_eq hv writable]
    constructor
    · rintro ⟨b', returned, _⟩
      by_contra large
      rw [if_neg large] at returned
      cases returned
    · intro word
      have moved := relocated_spec hv (List.replicate (b.caps + b.reservedPrependSize - k) 0#8)
        (by rw [List.length_replicate]; omega) (by rw [List.length_replicate]; omega)
      exact ⟨_, if_pos word, moved⟩

theorem length_ne_minusOne {n : Nat} (bound : n < 2 ^ 63) :
    BitVec.ofNat 64 n ≠ -1#64 ∧ (BitVec.ofNat 64 n).toInt = n := by
  have value : (BitVec.ofNat 64 n).toNat = n := by
    rw [BitVec.toNat_ofNat, Nat.mod_eq_of_lt (by omega)]
  have exact : (BitVec.ofNat 64 n).toInt = n := by
    rw [BitVec.toInt_eq_toNat_of_lt (by omega), value]
  constructor
  · intro minus
    rw [minus] at exact
    have negative : (-1#64 : BitVec 64).toInt = -1 := by decide
    omega
  · exact exact

/-- The receiver's half, on a buffer that shows a frame. -/
theorem unframe_ok_iff {b : ByteBuffer} (hv : b.Valid) {bytes : List Byte}
    (bound : bytes.length < 2 ^ 63)
    (framed : b.unread = bigEndian64 (BitVec.ofNat 64 bytes.length) ++ bytes) {k : Nat}
    (writable : k ≤ b.caps - b.writeIndex) :
    (∃ b', unframe b k bytes.length = .ok (bytes.length, bytes.length, bytes, b') ∧
      b'.unread = []) ↔ b.Shrinkable k := by
  rw [← decrease_ok_iff hv writable]
  constructor
  · rintro ⟨b', returned, _⟩
    obtain ⟨b₁, shrunk, _⟩ := bind_ok_iff.mp returned
    have shrinks : b.Shrinkable k := by
      intro positive _
      by_contra large
      rw [decrease_realloc hv positive writable, decreaseRealloc_eq hv writable,
        if_neg large] at shrunk
      cases shrunk
    exact (decrease_ok_iff hv writable).mpr shrinks
  · rintro ⟨b₁, shrunk, valid₁, same⟩
    rw [framed] at same
    obtain ⟨other, value⟩ := length_ne_minusOne bound
    have peeked : b₁.peekInt64 = .ok (BitVec.ofNat 64 bytes.length) := by
      rw [peekInt64_eq valid₁, same, int64_front]
    obtain ⟨b₂, read, valid₂, left⟩ := readInt64_ok valid₁ peeked
    rw [if_neg other, same, List.drop_left' (bigEndian64_length _)] at left
    obtain ⟨b₃, s, consumed, _, rest, taken⟩ := consume_ok valid₂ bytes.length
    rw [left, List.drop_length] at rest
    rw [left, List.take_length] at taken
    refine ⟨b₃, ?_, rest⟩
    simp only [unframe, shrunk, ok_bind, peeked, read, consumed, pure_eq_ok, value, taken]

/-- **A frame is read as it was made exactly if no size on the way is too small.** For every
buffer with eight or more reserved bytes, every list of chunks whose length is not negative
as an `int64_t`, and every `k`. -/
theorem frame_round_trip_iff (prepend initial : Nat) (hp : 8 ≤ prepend) (word : prepend < wordSize)
    (word' : initial < wordSize) (chunks : List (List Byte))
    (bound : chunks.flatten.length < 2 ^ 63) (k : Nat) :
    RoundTrip prepend initial chunks k ↔
      prepend + initial < wordSize ∧ Roomy k (.create prepend initial) chunks := by
  by_cases hs : prepend + initial < wordSize
  · have fresh : (create prepend initial).Untouched := create_untouched (by omega) hs
    rw [and_iff_right hs, ← appendAll_ok_iff fresh]
    constructor
    · rintro ⟨b, framed, reads⟩
      obtain ⟨valid, unread⟩ := frame_spec hp hs framed
      obtain ⟨a, appended, rfl⟩ := (frame_ok_iff hp hs chunks).mp framed
      refine ⟨a, appended, fun positive writable => ?_⟩
      exact (unframe_ok_iff valid bound unread writable).mp (reads writable) positive writable
    · rintro ⟨a, appended, shrinks⟩
      have framed := (frame_ok_iff hp hs chunks).mpr ⟨a, appended, rfl⟩
      obtain ⟨valid, unread⟩ := frame_spec hp hs framed
      exact ⟨_, framed, fun writable => (unframe_ok_iff valid bound unread writable).mpr shrinks⟩
  · obtain ⟨fault, failed⟩ := frame_wrapped hp word word' (Nat.le_of_not_lt hs) chunks
    constructor
    · rintro ⟨b, framed, _⟩
      rw [failed] at framed
      cases framed
    · rintro ⟨small, _⟩
      exact absurd small hs

/-- Two chunks that make a small buffer grow, and then all ten bytes that are writable are
given back. -/
theorem frame_round_trip_grown : RoundTrip 8 2 [[1, 2, 3], [4, 5]] 10 :=
  (frame_round_trip_iff 8 2 (by decide) (by decide) (by decide) [[1, 2, 3], [4, 5]] (by decide)
    10).mpr (by decide)

/-- `ByteBuffer(8, SIZE_MAX)` has seven bytes and writes from the ninth on. -/
theorem frame_wrapped_sizes :
    (ByteBuffer.create 8 (wordSize - 1)).caps = 7 ∧
      frame 8 (wordSize - 1) [[1]] = .error .assertion :=
  ⟨rfl, rfl⟩

end Libatp.Buffer
