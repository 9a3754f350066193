import Libatp.Base.Checked
import Libatp.Base.Word

/-!
# Base64 (`app/atp_base64.cpp`)

A `std::string*` is `none` if it is null. Both functions size the target before they
write to it through a pointer, so a write is a store into that many bytes; its place
`p` counts from the start of the target.

The decoder has a `do` loop that never looks at another byte. Its passes are counted by
`fuel`, as those of the loop around it are, and a call that runs out of it has not
returned.
-/

namespace Libatp.Base64
open Base

def byteOf (c : Char) : Byte := BitVec.ofNat 8 c.toNat

def base64Code : List Byte :=
  ['A', 'B', 'C', 'D', 'E', 'F', 'G', 'H', 'I', 'J', 'K', 'L', 'M', 'N', 'O', 'P', 'Q', 'R', 'S',
    'T', 'U', 'V', 'W', 'X', 'Y', 'Z', 'a', 'b', 'c', 'd', 'e', 'f', 'g', 'h', 'i', 'j', 'k', 'l',
    'm', 'n', 'o', 'p', 'q', 'r', 's', 't', 'u', 'v', 'w', 'x', 'y', 'z', '0', '1', '2', '3', '4',
    '5', '6', '7', '8', '9', '+', '/'].map byteOf

/-- A `char` is signed: bytes from 128 on are in none of the ranges, which they are not
as unsigned numbers either. -/
def char2Base (c : Byte) : Byte :=
  if byteOf 'A' ≤ c ∧ c ≤ byteOf 'Z' then c - byteOf 'A'
  else if byteOf 'a' ≤ c ∧ c ≤ byteOf 'z' then c - byteOf 'a' + 26
  else if byteOf '0' ≤ c ∧ c ≤ byteOf '9' then c - byteOf '0' + 52
  else if c = byteOf '+' then 62
  else if c = byteOf '/' then 63
  else 64

/-! ## Sizes -/

/-- A size as an `int`. -/
def asInt (size : Nat) : Int := (BitVec.ofNat 32 size).toInt

/-- An `int` as a size. -/
def asSize (n : Int) : Nat := (n % wordSize).toNat

/-- The sum and the product may overflow. -/
def base64EncodeLen (n : Int) : Int := int32 (int32 ((int32 (n + 2)).tdiv 3 * 4) + 1)

/-- Nothing overflows here. -/
def base64DecodeLen (n : Int) : Int := n.tdiv 4 * 3 + 2

/-- `max_size()` of a `std::string` -/
def maxSize : Nat := 2 ^ 63 - 1

/-- `resize`, which throws `std::length_error`. -/
def resize (s : List Byte) (n : Nat) : Checked (List Byte) :=
  if n ≤ maxSize then .ok (s.take n ++ List.replicate (n - s.length) 0) else .error .uncaught

/-! ## Encoding -/

/-- `q[i]`, as an `int` -/
def byteAt (src : List Byte) (i : Nat) : Nat := (src.getD i 0).toNat

/-- The value of `c` for the group at `i`. -/
def groupAt (src : List Byte) (i : Nat) : Nat :=
  (byteAt src i * 256 + if i + 1 < src.length then byteAt src (i + 1) else 0) * 256 +
    if i + 2 < src.length then byteAt src (i + 2) else 0

/-- One round of the loop. -/
def encodeGroup (src : List Byte) (i p : Nat) (mem : List Byte) : Checked (List Byte) := do
  let c := groupAt src i
  let mem ← store mem p (← load base64Code ((c &&& 0x00fc0000) >>> 18) 1)
  let mem ← store mem (p + 1) (← load base64Code ((c &&& 0x0003f000) >>> 12) 1)
  let mem ← store mem (p + 2) (← load base64Code ((c &&& 0x00000fc0) >>> 6) 1)
  let mem ← store mem (p + 3) (← load base64Code ((c &&& 0x0000003f) >>> 0) 1)
  let mem ← if src.length < i + 3 then store mem (p + 3) [byteOf '='] else .ok mem
  if src.length + 1 < i + 3 then store mem (p + 2) [byteOf '='] else .ok mem

def encodeLoop (src : List Byte) (i p : Nat) (mem : List Byte) : Checked (Nat × List Byte) :=
  if i < src.length then do
    let mem ← encodeGroup src i p mem
    encodeLoop src (i + 3) (p + 4) mem
  else .ok (p, mem)
termination_by src.length - i

def base64Encode (src : List Byte) (dst : Option (List Byte)) :
    Checked (Bool × Option (List Byte)) :=
  match dst with
  | none => .ok (false, none)
  | some old =>
    if src.length = 0 then .ok (false, some old)
    else do
      let mem ← resize old (asSize (base64EncodeLen (asInt src.length)))
      let (p, mem) ← encodeLoop src 0 0 mem
      let mem ← store mem p [0]
      let mem ← resize mem p
      .ok (true, some mem)

/-! ## Decoding -/

/-- The inner loop. -/
def classify (ch : Byte) : Nat → Option Byte
  | 0 => none
  | fuel + 1 =>
    let c := if ch ≠ 0 then char2Base ch else 65
    if c = 64 then classify ch fuel else some c

/-- The `switch`. -/
def decodeStep (i p : Nat) (c t : Byte) (mem : List Byte) : Checked (Nat × Byte × List Byte) :=
  match i % 4 with
  | 0 => .ok (p, c <<< 2, mem)
  | 1 => do
    let mem ← store mem p [t ||| c >>> 4]
    .ok (p + 1, c <<< 4, mem)
  | 2 => do
    let mem ← store mem p [t ||| c >>> 2]
    .ok (p + 1, c <<< 6, mem)
  | _ => do
    let mem ← store mem p [t ||| c]
    .ok (p + 1, t, mem)

def decodeLoop (src : List Byte) :
    Nat → (i p : Nat) → (t : Byte) → (mem : List Byte) → Option (Checked (Nat × List Byte))
  | 0, _, _, _, _ => none
  | fuel + 1, i, p, t, mem =>
    match src[i]? with
    | none => some (.ok (p, mem))
    | some ch =>
      if ch = byteOf '=' then some (.ok (p, mem))
      else
        match classify ch (fuel + 1) with
        | none => none
        | some c =>
          if c = 65 then some (.ok (p, mem))
          else
            match decodeStep i p c t mem with
            | .error fault => some (.error fault)
            | .ok (p, t, mem) => decodeLoop src fuel (i + 1) p t mem

/-- What comes after the loop. -/
def decodeEnd : Checked (Nat × List Byte) → Checked (Bool × Option (List Byte))
  | .error fault => .error fault
  | .ok (p, mem) => do
    let mem ← resize mem p
    .ok (true, some mem)

def base64Decode (fuel : Nat) (src : List Byte) (dst : Option (List Byte)) :
    Option (Checked (Bool × Option (List Byte))) :=
  match dst with
  | none => some (.ok (false, none))
  | some old =>
    if src.length = 0 then some (.ok (false, some old))
    else
      match resize old (asSize (base64DecodeLen (asInt src.length))) with
      | .error fault => some (.error fault)
      | .ok mem => (decodeLoop src fuel 0 0 0 mem).map decodeEnd

end Libatp.Base64
