import Libatp.Base.Checked
import Libatp.Base.Word

/-!
# `ByteBuffer`, its writer and its reader (`net/atp_buffer.hpp`)

`buff` is the heap array, with a length of its own; `caps` is the field that is
meant to equal it. Every `memcpy` and `memmove` is checked against the array it
touches, every `assert` is a `require`, and indices wrap as `size_t` does.
Allocation succeeds.
-/

namespace Libatp.Buffer
open Base

structure ByteBuffer where
  buff : List Byte
  caps : Nat
  readIndex : Nat
  writeIndex : Nat
  reservedPrependSize : Nat
  deriving DecidableEq, Repr

/-- A `Slice` only stores a pointer. `literal` is the `""` of the default
constructor; `buffer off` points `off` bytes into the buffer's array. -/
inductive SliceData where
  | literal
  | buffer (off : Nat)
  deriving DecidableEq, Repr

structure Slice where
  data : SliceData
  size : Nat
  deriving DecidableEq, Repr

/-- The bytes a slice shows while the array it points into is `buff`. -/
def Slice.bytes (s : Slice) (buff : List Byte) : List Byte :=
  match s.data with
  | .literal => []
  | .buffer off => window buff off s.size

/-- `Slice(const char*)` on an array: `strlen` reads up to the first zero byte,
and past the end of an array that holds none. -/
def cString (mem : List Byte) : Checked (List Byte) :=
  if 0#8 ∈ mem then .ok (mem.takeWhile (· ≠ 0#8)) else .error .outOfBounds

/-- A text in an array of zeros. -/
theorem cString_padded {spill : List Byte} {k : Nat} (h : 1 ≤ k) :
    cString (spill ++ List.replicate k 0#8) = .ok (spill.takeWhile (· ≠ 0#8)) := by
  have zero : 0#8 ∈ spill ++ List.replicate k 0#8 := by
    simp [List.mem_append, List.mem_replicate]; omega
  obtain ⟨j, rfl⟩ : ∃ j, k = j + 1 := ⟨k - 1, by omega⟩
  rw [cString, if_pos zero, List.replicate_succ]
  induction spill with
  | nil => rfl
  | cons x spill ih =>
    by_cases hx : x = 0#8
    · subst hx; rfl
    · have := ih (by simp)
      simpa [List.takeWhile_cons, hx] using this

/-- `htonl` on a little-endian host. -/
def htonl (x : BitVec 32) : BitVec 32 :=
  ((x &&& 0xff000000#32) >>> 24) ||| ((x &&& 0x00ff0000#32) >>> 8) |||
    ((x &&& 0x0000ff00#32) <<< 8) ||| ((x &&& 0x000000ff#32) <<< 24)

def ntohl (x : BitVec 32) : BitVec 32 := htonl x

def htonll (x : BitVec 64) : BitVec 64 :=
  ((x &&& 0xff00000000000000#64) >>> 56) ||| ((x &&& 0x00ff000000000000#64) >>> 40) |||
    ((x &&& 0x0000ff0000000000#64) >>> 24) ||| ((x &&& 0x000000ff00000000#64) >>> 8) |||
    ((x &&& 0x00000000ff000000#64) <<< 8) ||| ((x &&& 0x0000000000ff0000#64) <<< 24) |||
    ((x &&& 0x000000000000ff00#64) <<< 40) ||| ((x &&& 0x00000000000000ff#64) <<< 56)

def ntohll (x : BitVec 64) : BitVec 64 := htonll x

/-- The integer stored in four bytes of host memory. -/
def hostInt32 (bytes : List Byte) : BitVec 32 :=
  bytes.foldr (fun b acc => (acc <<< 8) ||| b.setWidth 32) 0

def hostInt64 (bytes : List Byte) : BitVec 64 :=
  bytes.foldr (fun b acc => (acc <<< 8) ||| b.setWidth 64) 0

theorem hostInt64_hostBytes64 (x : BitVec 64) : hostInt64 (hostBytes64 x) = x := by
  ext i hi
  simp only [hostInt64, hostBytes64, List.foldr_cons, List.foldr_nil, BitVec.getElem_or,
    BitVec.getElem_shiftLeft, BitVec.getElem_setWidth, BitVec.getLsbD_extractLsb']
  grind

/-- `RESERVED_PREPEND_SIZE`. -/
def reservedPrependSize : Nat := 8

/-- `INIT_BUFFER_SIZE`. -/
def initBufferSize : Nat := 1024

/-- `sizeof(extrbuffer)`. -/
def extrSize : Nat := 65536

namespace ByteBuffer

def create (prependSize initialSize : Nat) : ByteBuffer :=
  let caps := wrap (prependSize + initialSize)
  { buff := List.replicate caps 0#8
    caps := caps
    readIndex := prependSize
    writeIndex := prependSize
    reservedPrependSize := prependSize }

/-- An index of 0 means that it is left as it is. -/
def updateReadWriteIndex (b : ByteBuffer) (readIndex writeIndex : Nat) (increment : Bool) :
    ByteBuffer :=
  if increment then
    { b with
      readIndex := if readIndex ≠ 0 then wrap (b.readIndex + readIndex) else b.readIndex
      writeIndex := if writeIndex ≠ 0 then wrap (b.writeIndex + writeIndex) else b.writeIndex }
  else
    { b with
      readIndex := if readIndex ≠ 0 then readIndex else b.readIndex
      writeIndex := if writeIndex ≠ 0 then writeIndex else b.writeIndex }

def prependableBytes (b : ByteBuffer) : Nat := b.readIndex

def prependHeaderBytes (b : ByteBuffer) : Nat := b.reservedPrependSize

def writableBytes (b : ByteBuffer) : Checked Nat := do
  require (b.writeIndex ≤ b.caps)
  return b.caps - b.writeIndex

def unreadBytes (b : ByteBuffer) : Checked Nat := do
  require (b.readIndex ≤ b.writeIndex)
  return b.writeIndex - b.readIndex

def reset (b : ByteBuffer) : ByteBuffer :=
  { b with readIndex := b.reservedPrependSize, writeIndex := b.reservedPrependSize }

/-! ## `ByteBufferedWriter` -/

/-- The branch of `grow` that moves the unread bytes to a larger array. -/
def growRealloc (b : ByteBuffer) (length unread : Nat) : Checked ByteBuffer := do
  let reserved := b.prependHeaderBytes
  let newSize := wrap (wrap (b.caps * 2) + length)
  let moved ← load b.buff b.readIndex unread
  let newMem ← store (List.replicate newSize 0#8) reserved moved
  let b' := { b with buff := newMem }.updateReadWriteIndex reserved (wrap (reserved + unread)) false
  return { b' with caps := newSize }

/-- The branch of `grow` that moves the unread bytes to the front of the array. -/
def growCompact (b : ByteBuffer) (length unread : Nat) : Checked ByteBuffer := do
  let reserved := b.prependHeaderBytes
  require (reserved < b.prependableBytes)
  let moved ← load b.buff b.readIndex unread
  let mem ← store b.buff reserved moved
  let b' := { b with buff := mem }.updateReadWriteIndex reserved (wrap (reserved + unread)) false
  let unread' ← b'.unreadBytes
  require (unread' = unread)
  let writable ← b'.writableBytes
  require (length ≤ writable)
  return b'

def grow (b : ByteBuffer) (length : Nat) : Checked ByteBuffer := do
  let unread ← b.unreadBytes
  let writable ← b.writableBytes
  if wrap (b.prependableBytes + writable) < wrap (b.prependHeaderBytes + length) then
    b.growRealloc length unread
  else
    b.growCompact length unread

/-- `append(const char*, size_t)`; `data` is what the pointer shows. -/
def append (b : ByteBuffer) (data : List Byte) : Checked ByteBuffer := do
  let writable ← b.writableBytes
  let b ← (if writable < data.length then b.grow data.length else pure b)
  let mem ← store b.buff b.writeIndex data
  return { b with buff := mem }.updateReadWriteIndex 0 data.length true

def appendInt32 (b : ByteBuffer) (x : BitVec 32) : Checked ByteBuffer :=
  b.append (hostBytes32 (htonl x))

def appendInt64 (b : ByteBuffer) (x : BitVec 64) : Checked ByteBuffer :=
  b.append (hostBytes64 (htonll x))

/-- `prependInt32` and `prependInt64` from the bytes of the swapped integer: the
read index goes down by adding the two's complement of the size. -/
def prependBytes (b : ByteBuffer) (bytes : List Byte) : Checked ByteBuffer := do
  require (bytes.length ≤ b.prependableBytes)
  let b := b.updateReadWriteIndex (wrap (wordSize - bytes.length)) 0 true
  let mem ← store b.buff b.readIndex bytes
  return { b with buff := mem }

def prependInt32 (b : ByteBuffer) (x : BitVec 32) : Checked ByteBuffer :=
  b.prependBytes (hostBytes32 (htonl x))

def prependInt64 (b : ByteBuffer) (x : BitVec 64) : Checked ByteBuffer :=
  b.prependBytes (hostBytes64 (htonll x))

/-! ## `ByteBufferedReader` -/

def remove (b : ByteBuffer) (length : Nat) : Checked ByteBuffer := do
  let unread ← b.unreadBytes
  if length < unread then
    return b.updateReadWriteIndex length 0 true
  else
    return b.reset

/-- `consume(length)`. -/
def consume (b : ByteBuffer) (length : Nat) : Checked (ByteBuffer × Slice) := do
  let unread ← b.unreadBytes
  if length ≤ unread then
    let b' ← b.remove length
    return (b', ⟨.buffer b.readIndex, length⟩)
  else
    let b' ← b.remove unread
    return (b', ⟨.buffer b.readIndex, unread⟩)

/-- `consume(length, verifiy)`. -/
def consumeVerify (b : ByteBuffer) (length : Nat) (verify : Bool) :
    Checked (ByteBuffer × Slice) := do
  let unread ← b.unreadBytes
  if length ≤ unread then
    let b' ← b.remove length
    return (b', ⟨.buffer b.readIndex, length⟩)
  else if verify then
    return (b, ⟨.literal, 0⟩)
  else
    let b' ← b.remove unread
    return (b', ⟨.buffer b.readIndex, unread⟩)

/-- `-1` also stands for too few unread bytes. -/
def peekInt32 (b : ByteBuffer) : Checked (BitVec 32) := do
  let unread ← b.unreadBytes
  if unread < 4 then
    return -1#32
  else
    let bytes ← load b.buff b.readIndex 4
    return ntohl (hostInt32 bytes)

def peekInt64 (b : ByteBuffer) : Checked (BitVec 64) := do
  let unread ← b.unreadBytes
  if unread < 8 then
    return -1#64
  else
    let bytes ← load b.buff b.readIndex 8
    return ntohll (hostInt64 bytes)

def readInt32 (b : ByteBuffer) : Checked (ByteBuffer × BitVec 32) := do
  let x ← b.peekInt32
  let b' ← (if x ≠ -1#32 then b.remove 4 else pure b)
  return (b', x)

def readInt64 (b : ByteBuffer) : Checked (ByteBuffer × BitVec 64) := do
  let x ← b.peekInt64
  let b' ← (if x ≠ -1#64 then b.remove 8 else pure b)
  return (b', x)

/-- The first block of `decrease` moves the bytes but not the indices. -/
def decreaseCompact (b : ByteBuffer) (length : Nat) : Checked ByteBuffer := do
  let unread ← b.unreadBytes
  let writable ← b.writableBytes
  let availableLen := wsub (wsub b.caps b.prependHeaderBytes) unread
  if writable < length ∧ length ≤ availableLen then
    let moved ← load b.buff b.readIndex unread
    let mem ← store b.buff b.prependHeaderBytes moved
    -- `assert(unread_bytes = unreadBytes())` assigns, so it only fails on 0
    require (unread ≠ 0)
    return { b with buff := mem }
  else
    return b

/-- The second block of `decrease` moves the unread bytes to a new array. -/
def decreaseRealloc (b : ByteBuffer) (length : Nat) : Checked ByteBuffer := do
  let unread ← b.unreadBytes
  let writable ← b.writableBytes
  if length ≤ writable then
    let reserved := b.prependHeaderBytes
    let newSize := wsub (wrap (b.caps + reserved)) length
    let moved ← load b.buff b.readIndex unread
    let newMem ← store (List.replicate newSize 0#8) reserved moved
    let b' := { b with buff := newMem, caps := newSize }
    return b'.updateReadWriteIndex reserved (wrap (reserved + unread)) false
  else
    return b

def decrease (b : ByteBuffer) (length : Nat) : Checked ByteBuffer := do
  if length = 0 then
    return b
  else
    let b ← b.decreaseCompact length
    b.decreaseRealloc length

end ByteBuffer

end Libatp.Buffer
