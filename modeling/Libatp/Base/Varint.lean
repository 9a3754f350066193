import Libatp.Base.Word

/-!
# Variable-length integers and length-delimited strings

Base 128, least significant group first, with the top bit set on every byte but
the last. A string is written behind its length. Lengths are not bounded here, so neither is
the number of bytes that one of them takes. Reading back what was written returns it together
with the bytes that follow.
-/

namespace Libatp.Base

def varint (n : Nat) : List Byte :=
  if n < 128 then [BitVec.ofNat 8 n] else BitVec.ofNat 8 (n % 128 + 128) :: varint (n / 128)

def readVarint : List Byte → Option (Nat × List Byte)
  | [] => none
  | b :: rest =>
    if b.toNat < 128 then
      some (b.toNat, rest)
    else do
      let (high, rest) ← readVarint rest
      return (b.toNat - 128 + 128 * high, rest)

theorem varint_small {n : Nat} (h : n < 128) : varint n = [BitVec.ofNat 8 n] := by
  rw [varint, if_pos h]

/-- Every byte holds seven bits. -/
theorem varint_length_le {n : Nat} (k : Nat) (h : n < 128 ^ (k + 1)) :
    (varint n).length ≤ k + 1 := by
  induction k generalizing n with
  | zero =>
    rw [varint_small h]
    exact Nat.le_refl 1
  | succ k ih =>
    by_cases small : n < 128
    · rw [varint_small small, List.length_singleton]
      omega
    · rw [Nat.pow_succ] at h
      have high := ih (n := n / 128) (Nat.div_lt_of_lt_mul (by omega))
      rw [varint, if_neg small, List.length_cons]
      omega

theorem readVarint_last {n : Nat} (h : n < 128) (rest : List Byte) :
    readVarint (BitVec.ofNat 8 n :: rest) = some (n, rest) := by
  have byte : (BitVec.ofNat 8 n).toNat = n := by
    rw [BitVec.toNat_ofNat]
    omega
  rw [readVarint, byte, if_pos h]

theorem readVarint_group {low high : Nat} {input rest : List Byte} (h : low < 128)
    (tail : readVarint input = some (high, rest)) :
    readVarint (BitVec.ofNat 8 (low + 128) :: input) = some (low + 128 * high, rest) := by
  have byte : (BitVec.ofNat 8 (low + 128)).toNat = low + 128 := by
    rw [BitVec.toNat_ofNat]
    omega
  rw [readVarint, byte, if_neg (by omega), tail]
  simp

theorem readVarint_varint (n : Nat) (rest : List Byte) :
    readVarint (varint n ++ rest) = some (n, rest) := by
  induction n using Nat.strongRecOn with
  | ind n ih =>
    by_cases small : n < 128
    · rw [varint_small small]
      exact readVarint_last small rest
    · rw [varint, if_neg small, List.cons_append,
        readVarint_group (Nat.mod_lt n (by decide)) (ih (n / 128) (by omega)), Nat.mod_add_div]

theorem readVarint_shorter {input rest : List Byte} {n : Nat}
    (h : readVarint input = some (n, rest)) : rest.length < input.length := by
  induction input generalizing n with
  | nil => cases h
  | cons b input ih =>
    rw [readVarint] at h
    split at h
    · cases h
      simp
    · obtain ⟨⟨high, tail⟩, read, eq⟩ := Option.bind_eq_some_iff.mp h
      cases eq
      exact Nat.lt_succ_of_lt (ih read)

/-! ## Strings -/

def delimited (bytes : List Byte) : List Byte :=
  varint bytes.length ++ bytes

/-- What a string `old` holds after the attempt to read into it, and the rest of
the input if that succeeded. Where the input ends early the string keeps the
bytes there were. -/
def readDelimited (old input : List Byte) : List Byte × Option (List Byte) :=
  match readVarint input with
  | none => (old, none)
  | some (n, rest) =>
    if n ≤ rest.length then (rest.take n, some (rest.drop n)) else (rest, none)

theorem readDelimited_delimited (old bytes rest : List Byte) :
    readDelimited old (delimited bytes ++ rest) = (bytes, some rest) := by
  rw [readDelimited, delimited, List.append_assoc, readVarint_varint]
  simp

theorem readDelimited_shorter {old input value rest : List Byte}
    (h : readDelimited old input = (value, some rest)) : rest.length ≤ input.length := by
  rw [readDelimited] at h
  split at h
  · cases h
  · next n tail read =>
    split at h
    · cases h
      have := readVarint_shorter read
      rw [List.length_drop]
      omega
    · cases h

end Libatp.Base
