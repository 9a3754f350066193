import Mathlib.Algebra.Group.Int.Defs
import Mathlib.Algebra.GroupWithZero.Nat
import Mathlib.Data.List.Basic

/-!
# Machine words

`size_t` values are naturals below `wordSize`; sums, products and differences
of them are reduced. An `int` whose overflow matters is an integer that is brought back
into its range. Fixed-width integers in memory are bit vectors, laid out with the least
significant byte first.
-/

namespace Libatp.Base

abbrev Byte := BitVec 8

def wordSize : Nat := 2 ^ 64

def wrap (n : Nat) : Nat := n % wordSize

/-- The difference of two words, also where it would be negative. -/
def wsub (a b : Nat) : Nat := wrap (wordSize - b + a)

theorem wrap_lt (n : Nat) : wrap n < wordSize := Nat.mod_lt _ (by decide)

theorem wrap_of_lt {n : Nat} (h : n < wordSize) : wrap n = n := Nat.mod_eq_of_lt h

theorem wrap_add_neg {a b : Nat} (h : b ≤ a) (ha : a < wordSize) :
    wrap (a + (wordSize - b)) = a - b := by
  unfold wrap
  rw [show a + (wordSize - b) = (a - b) + wordSize by omega, Nat.add_mod_right,
    Nat.mod_eq_of_lt (by omega)]

theorem wsub_of_le {a b : Nat} (h : b ≤ a) (ha : a < wordSize) : wsub a b = a - b := by
  unfold wsub
  rw [Nat.add_comm, wrap_add_neg h ha]

/-- A sum may be too large for a word if the difference is not. -/
theorem wsub_wrap {a b : Nat} (h : b ≤ a) (hb : b ≤ wordSize) :
    wsub (wrap a) b = wrap (a - b) := by
  unfold wsub wrap
  rw [Nat.add_mod_mod, show wordSize - b + a = (a - b) + wordSize by omega, Nat.add_mod_right]

/-- A word in memory after its first bytes have been written over. -/
def overwrite (word : Nat) : List Byte → Nat
  | [] => word
  | byte :: bytes => overwrite (word / 256) bytes * 256 + byte.toNat

/-- An integer as an `int`. -/
def int32 (n : Int) : Int := n.bmod (2 ^ 32)

theorem int32_of_fits {n : Int} (low : -2 ^ 31 ≤ n) (high : n < 2 ^ 31) : int32 n = n := by
  rw [int32, Int.bmod_def]
  split <;> omega

theorem le_int32 (n : Int) : -2 ^ 31 ≤ int32 n := by
  rw [int32, Int.bmod_def]
  split <;> omega

theorem int32_lt (n : Int) : int32 n < 2 ^ 31 := by
  rw [int32, Int.bmod_def]
  split <;> omega

/-! ## Bytes of integers -/

theorem byte_and_ones (x : Byte) : x &&& 255#8 = x := BitVec.and_allOnes

theorem extractLsb'_shiftRight {w : Nat} (x : BitVec w) (start len n : Nat) :
    (x >>> n).extractLsb' start len = x.extractLsb' (n + start) len := by
  ext i hi
  simp [BitVec.getElem_extractLsb', Nat.add_assoc]

theorem extractLsb'_shiftLeft {w : Nat} (x : BitVec w) {start len n : Nat} (h : n ≤ start)
    (room : start + len ≤ w) : (x <<< n).extractLsb' start len = x.extractLsb' (start - n) len := by
  ext i hi
  have inside : start + i < w := by omega
  have above : ¬ start + i < n := by omega
  have at_ : start + i - n = start - n + i := by omega
  simp only [BitVec.getElem_extractLsb', BitVec.getLsbD_shiftLeft, inside, above, at_,
    decide_true, decide_false, Bool.not_false, Bool.true_and]

theorem extractLsb'_shiftLeft_below {w : Nat} (x : BitVec w) {start len n : Nat}
    (h : start + len ≤ n) : (x <<< n).extractLsb' start len = BitVec.ofNat len 0 := by
  ext i hi
  have below : start + i < n := by omega
  simp [BitVec.getElem_extractLsb', below]

/-- The bytes of an integer as the host stores it. -/
def hostBytes32 (x : BitVec 32) : List Byte :=
  [x.extractLsb' 0 8, x.extractLsb' 8 8, x.extractLsb' 16 8, x.extractLsb' 24 8]

def hostBytes64 (x : BitVec 64) : List Byte :=
  [x.extractLsb' 0 8, x.extractLsb' 8 8, x.extractLsb' 16 8, x.extractLsb' 24 8,
    x.extractLsb' 32 8, x.extractLsb' 40 8, x.extractLsb' 48 8, x.extractLsb' 56 8]

/-- Most significant byte first. -/
def bigEndian32 (x : BitVec 32) : List Byte := (hostBytes32 x).reverse

def bigEndian64 (x : BitVec 64) : List Byte := (hostBytes64 x).reverse

@[simp] theorem hostBytes32_length (x : BitVec 32) : (hostBytes32 x).length = 4 := rfl

@[simp] theorem hostBytes64_length (x : BitVec 64) : (hostBytes64 x).length = 8 := rfl

@[simp] theorem bigEndian32_length (x : BitVec 32) : (bigEndian32 x).length = 4 := rfl

@[simp] theorem bigEndian64_length (x : BitVec 64) : (bigEndian64 x).length = 8 := rfl

end Libatp.Base
