import Libatp.Buffer.Queue

/-!
# Integers through a buffer

`-1` stands for two things: it is what `readInt32` and `readInt64` return when too few
bytes are unread, and they take nothing out of the buffer then. An integer that is `-1`
is therefore read and left where it is, and is read again in place of what follows it.
-/

namespace Libatp.Buffer
open Base

/-! ## Byte order -/

theorem hostInt32_hostBytes32 (x : BitVec 32) : hostInt32 (hostBytes32 x) = x := by
  ext i hi
  simp only [hostInt32, hostBytes32, List.foldr_cons, List.foldr_nil, BitVec.getElem_or,
    BitVec.getElem_shiftLeft, BitVec.getElem_setWidth, BitVec.getLsbD_extractLsb']
  grind

/-- Swapped twice, the bytes of an integer are in their order again. -/
theorem htonl_htonl (x : BitVec 32) : htonl (htonl x) = x := by
  have twice : hostBytes32 (htonl (htonl x)) = hostBytes32 x := by
    rw [hostBytes_htonl, bigEndian32, hostBytes_htonl, bigEndian32, List.reverse_reverse]
  rw [← hostInt32_hostBytes32 (htonl (htonl x)), twice, hostInt32_hostBytes32]

theorem htonll_htonll (x : BitVec 64) : htonll (htonll x) = x := by
  have twice : hostBytes64 (htonll (htonll x)) = hostBytes64 x := by
    rw [hostBytes_htonll, bigEndian64, hostBytes_htonll, bigEndian64, List.reverse_reverse]
  rw [← hostInt64_hostBytes64 (htonll (htonll x)), twice, hostInt64_hostBytes64]

theorem ntohl_bigEndian (x : BitVec 32) : ntohl (hostInt32 (bigEndian32 x)) = x := by
  rw [← hostBytes_htonl, hostInt32_hostBytes32, ntohl, htonl_htonl]

theorem ntohll_bigEndian (x : BitVec 64) : ntohll (hostInt64 (bigEndian64 x)) = x := by
  rw [← hostBytes_htonll, hostInt64_hostBytes64, ntohll, htonll_htonll]

/-! ## Reading from a queue -/

inductive Value where
  | int32 (x : BitVec 32)
  | int64 (x : BitVec 64)
  deriving DecidableEq, Repr

/-- Which of the two calls is made. -/
inductive Width where
  | int32
  | int64
  deriving DecidableEq, Repr

namespace Value

def width : Value → Width
  | .int32 _ => .int32
  | .int64 _ => .int64

/-- The call that appends it. -/
def op : Value → Op
  | .int32 x => .appendInt32 x
  | .int64 x => .appendInt64 x

def bytes : Value → List Byte
  | .int32 x => bigEndian32 x
  | .int64 x => bigEndian64 x

def IsMinusOne : Value → Prop
  | .int32 x => x = -1#32
  | .int64 x => x = -1#64

instance : (v : Value) → Decidable v.IsMinusOne
  | .int32 x => inferInstanceAs (Decidable (x = -1#32))
  | .int64 x => inferInstanceAs (Decidable (x = -1#64))

end Value

namespace Width

def size : Width → Nat
  | .int32 => 4
  | .int64 => 8

/-- What `peekInt32` and `peekInt64` return while `q` is unread. -/
def peek (q : List Byte) : Width → Value
  | .int32 => .int32 (if q.length < 4 then -1#32 else ntohl (hostInt32 (q.take 4)))
  | .int64 => .int64 (if q.length < 8 then -1#64 else ntohll (hostInt64 (q.take 8)))

/-- The queue after a read. -/
def left (q : List Byte) (w : Width) : List Byte :=
  if (w.peek q).IsMinusOne then q else q.drop w.size

def read (b : ByteBuffer) : Width → Checked (ByteBuffer × Value)
  | .int32 => do
    let (b', x) ← b.readInt32
    return (b', .int32 x)
  | .int64 => do
    let (b', x) ← b.readInt64
    return (b', .int64 x)

end Width

theorem load_front {b : ByteBuffer} (hv : b.Valid) {n : Nat}
    (enough : n ≤ b.writeIndex - b.readIndex) :
    load b.buff b.readIndex n = .ok (b.unread.take n) := by
  have hs := hv.size
  have hr := hv.read_le
  have hw := hv.write_le
  rw [load_ok (by omega), ByteBuffer.unread, window_take enough]

theorem peekInt32_eq {b : ByteBuffer} (hv : b.Valid) :
    b.peekInt32 =
      .ok (if b.unread.length < 4 then -1#32 else ntohl (hostInt32 (b.unread.take 4))) := by
  simp only [ByteBuffer.peekInt32, ByteBuffer.unreadBytes_eq hv.ordered, ok_bind,
    ByteBuffer.unread_length hv.ordered]
  by_cases short : b.writeIndex - b.readIndex < 4
  · rw [if_pos short, if_pos short]
    rfl
  · rw [if_neg short, if_neg short, load_front hv (Nat.le_of_not_lt short)]
    rfl

theorem peekInt64_eq {b : ByteBuffer} (hv : b.Valid) :
    b.peekInt64 =
      .ok (if b.unread.length < 8 then -1#64 else ntohll (hostInt64 (b.unread.take 8))) := by
  simp only [ByteBuffer.peekInt64, ByteBuffer.unreadBytes_eq hv.ordered, ok_bind,
    ByteBuffer.unread_length hv.ordered]
  by_cases short : b.writeIndex - b.readIndex < 8
  · rw [if_pos short, if_pos short]
    rfl
  · rw [if_neg short, if_neg short, load_front hv (Nat.le_of_not_lt short)]
    rfl

theorem readInt32_ok {b : ByteBuffer} (hv : b.Valid) {x : BitVec 32}
    (peeked : b.peekInt32 = .ok x) :
    ∃ b', b.readInt32 = .ok (b', x) ∧ b'.Valid ∧
      b'.unread = if x = -1#32 then b.unread else b.unread.drop 4 := by
  simp only [ByteBuffer.readInt32, peeked, ok_bind]
  by_cases minus : x = -1#32
  · rw [if_neg (not_not_intro minus), if_pos minus]
    exact ⟨b, rfl, hv, rfl⟩
  · obtain ⟨b', removed, valid, _, rest⟩ := ByteBuffer.remove_ok hv 4
    rw [if_pos minus, if_neg minus, removed]
    exact ⟨b', rfl, valid, rest⟩

theorem readInt64_ok {b : ByteBuffer} (hv : b.Valid) {x : BitVec 64}
    (peeked : b.peekInt64 = .ok x) :
    ∃ b', b.readInt64 = .ok (b', x) ∧ b'.Valid ∧
      b'.unread = if x = -1#64 then b.unread else b.unread.drop 8 := by
  simp only [ByteBuffer.readInt64, peeked, ok_bind]
  by_cases minus : x = -1#64
  · rw [if_neg (not_not_intro minus), if_pos minus]
    exact ⟨b, rfl, hv, rfl⟩
  · obtain ⟨b', removed, valid, _, rest⟩ := ByteBuffer.remove_ok hv 8
    rw [if_pos minus, if_neg minus, removed]
    exact ⟨b', rfl, valid, rest⟩

/-- A read on a buffer is a read on its queue. -/
theorem read_refines {b : ByteBuffer} (hv : b.Valid) (w : Width) :
    ∃ b', w.read b = .ok (b', w.peek b.unread) ∧ b'.Valid ∧ b'.unread = w.left b.unread := by
  cases w with
  | int32 =>
    obtain ⟨b', read, valid, rest⟩ := readInt32_ok hv (peekInt32_eq hv)
    exact ⟨b', by rw [Width.read, read]; rfl, valid, rest⟩
  | int64 =>
    obtain ⟨b', read, valid, rest⟩ := readInt64_ok hv (peekInt64_eq hv)
    exact ⟨b', by rw [Width.read, read]; rfl, valid, rest⟩

theorem int32_front (x : BitVec 32) (rest : List Byte) :
    (if (bigEndian32 x ++ rest).length < 4 then -1#32
      else ntohl (hostInt32 ((bigEndian32 x ++ rest).take 4))) = x := by
  have enough : ¬ (bigEndian32 x ++ rest).length < 4 := by simp
  rw [if_neg enough, List.take_left' (bigEndian32_length x), ntohl_bigEndian]

theorem int64_front (x : BitVec 64) (rest : List Byte) :
    (if (bigEndian64 x ++ rest).length < 8 then -1#64
      else ntohll (hostInt64 ((bigEndian64 x ++ rest).take 8))) = x := by
  have enough : ¬ (bigEndian64 x ++ rest).length < 8 := by simp
  rw [if_neg enough, List.take_left' (bigEndian64_length x), ntohll_bigEndian]

/-- The value in front is what is read, whatever it is. -/
theorem peek_front (v : Value) (rest : List Byte) : v.width.peek (v.bytes ++ rest) = v := by
  cases v with
  | int32 x => exact congrArg Value.int32 (int32_front x rest)
  | int64 x => exact congrArg Value.int64 (int64_front x rest)

theorem bytes_length (v : Value) : v.bytes.length = v.width.size := by
  cases v <;> rfl

theorem left_front {v : Value} (other : ¬ v.IsMinusOne) (rest : List Byte) :
    v.width.left (v.bytes ++ rest) = rest := by
  rw [Width.left, peek_front, if_neg other, ← bytes_length, List.drop_left]

/-! ## Sequences of reads -/

def readBack : ByteBuffer → List Width → Checked (ByteBuffer × List Value)
  | b, [] => return (b, [])
  | b, w :: ws => do
    let (b', v) ← w.read b
    let (b'', vs) ← readBack b' ws
    return (b'', v :: vs)

/-- The reads in order on a queue. -/
def takeBack : List Byte → List Width → List Byte × List Value
  | q, [] => (q, [])
  | q, w :: ws => ((takeBack (w.left q) ws).1, w.peek q :: (takeBack (w.left q) ws).2)

theorem readBack_refines {b : ByteBuffer} (hv : b.Valid) (ws : List Width) :
    ∃ b', readBack b ws = .ok (b', (takeBack b.unread ws).2) ∧
      b'.unread = (takeBack b.unread ws).1 := by
  induction ws generalizing b with
  | nil => exact ⟨b, rfl, rfl⟩
  | cons w ws ih =>
    obtain ⟨b₁, read, valid, rest⟩ := read_refines hv w
    obtain ⟨b₂, reads, left⟩ := ih valid
    rw [rest] at reads left
    exact ⟨b₂, by simp only [readBack, read, reads, ok_bind, pure_eq_ok, takeBack], left⟩

theorem takeBack_values {vs : List Value} (none : ∀ v ∈ vs, ¬ v.IsMinusOne) :
    takeBack (vs.flatMap Value.bytes) (vs.map Value.width) = ([], vs) := by
  induction vs with
  | nil => rfl
  | cons v vs ih =>
    have later := ih fun u mem => none u (List.mem_cons_of_mem v mem)
    rw [List.flatMap_cons, List.map_cons, takeBack, peek_front,
      left_front (none v List.mem_cons_self), later]

/-- How many bytes the read that returns `v` takes out. -/
def Value.taken (v : Value) : Nat := if v.IsMinusOne then 0 else v.width.size

theorem left_length (q : List Byte) (w : Width) :
    (w.left q).length + (w.peek q).taken = q.length := by
  rw [Width.left, Value.taken]
  by_cases minus : (w.peek q).IsMinusOne
  · rw [if_pos minus, if_pos minus, Nat.add_zero]
  · have same : (w.peek q).width = w := by cases w <;> rfl
    -- a value other than `-1` was read from bytes that were there
    have enough : w.size ≤ q.length := by
      by_contra short
      apply minus
      cases w with
      | int32 => exact if_pos (Nat.lt_of_not_le short)
      | int64 => exact if_pos (Nat.lt_of_not_le short)
    rw [if_neg minus, if_neg minus, same, List.length_drop, Nat.sub_add_cancel enough]

theorem takeBack_length (q : List Byte) (ws : List Width) :
    (takeBack q ws).1.length + ((takeBack q ws).2.map Value.taken).sum = q.length := by
  induction ws generalizing q with
  | nil => rfl
  | cons w ws ih =>
    have here := left_length q w
    have later := ih (w.left q)
    simp only [takeBack, List.map_cons, List.sum_cons]
    omega

/-- A `-1` stays, so that what is taken out is less than what was put in. -/
theorem taken_all {vs : List Value}
    (all : (vs.map Value.taken).sum = (vs.flatMap Value.bytes).length) :
    ∀ v ∈ vs, ¬ v.IsMinusOne := by
  have most (vs : List Value) : (vs.map Value.taken).sum ≤ (vs.flatMap Value.bytes).length := by
    induction vs with
    | nil => exact Nat.le_refl _
    | cons v vs ih =>
      have here : v.taken ≤ v.bytes.length := by
        rw [Value.taken, bytes_length]
        split <;> omega
      rw [List.map_cons, List.sum_cons, List.flatMap_cons, List.length_append]
      omega
  induction vs with
  | nil =>
    intro v mem
    cases mem
  | cons v vs ih =>
    have rest := most vs
    rw [List.map_cons, List.sum_cons, List.flatMap_cons, List.length_append, bytes_length,
      Value.taken] at all
    have positive : 0 < v.width.size := by cases v <;> exact Nat.succ_pos _
    intro u mem
    by_cases minus : v.IsMinusOne
    · rw [if_pos minus] at all
      omega
    · rw [if_neg minus] at all
      rcases List.mem_cons.mp mem with rfl | later
      · exact minus
      · exact ih (by omega) u later

/-! ## The round trip -/

theorem specRun_values (q : List Byte) (vs : List Value) :
    (specRun q (vs.map Value.op)).1 = q ++ vs.flatMap Value.bytes := by
  induction vs generalizing q with
  | nil => exact (List.append_nil q).symm
  | cons v vs ih =>
    have step : (v.op.spec q).1 = q ++ v.bytes := by cases v <;> rfl
    rw [List.map_cons, specRun, List.flatMap_cons, ← List.append_assoc, ← step, ih]

/-- **Integers come back unless one of them is `-1`.** The appends return; the reads that
match them return the same list and leave nothing exactly if no value is `-1`. -/
theorem codec_round_trip_iff {b : ByteBuffer} (valid : b.Valid) (empty : b.unread = [])
    (vs : List Value) (admissible : Admissible b (vs.map Value.op)) :
    ∃ filled outs, run b (vs.map Value.op) = .ok (filled, outs) ∧
      ((∃ b', readBack filled (vs.map Value.width) = .ok (b', vs) ∧ b'.unread = []) ↔
        ∀ v ∈ vs, ¬ v.IsMinusOne) := by
  obtain ⟨filled, outs, appended, valid', spec⟩ := run_refines valid admissible
  have content : filled.unread = vs.flatMap Value.bytes := by
    rw [show filled.unread = _ from congrArg Prod.fst spec, specRun_values, empty,
      List.nil_append]
  obtain ⟨b', reads, left⟩ := readBack_refines valid' (vs.map Value.width)
  rw [content] at reads left
  refine ⟨filled, outs, appended, ?_⟩
  rw [reads]
  constructor
  · rintro ⟨last, same, nothing⟩
    obtain ⟨rfl, values⟩ := Prod.mk.inj (Except.ok.inj same)
    have total := takeBack_length (vs.flatMap Value.bytes) (vs.map Value.width)
    rw [← left, nothing, values, List.length_nil, Nat.zero_add] at total
    exact taken_all total
  · intro none
    rw [takeBack_values none] at left ⊢
    exact ⟨b', rfl, left⟩

/-- The largest and the smallest values, and those next to `-1`. -/
theorem codec_round_trip_extremes :
    ∃ filled outs,
      run (.create 8 16) [.appendInt32 0x7fffffff#32, .appendInt64 (-2#64),
        .appendInt32 0x80000000#32, .appendInt64 0#64] = .ok (filled, outs) ∧
      ∃ b', readBack filled [.int32, .int64, .int32, .int64] =
          .ok (b', [.int32 0x7fffffff#32, .int64 (-2#64), .int32 0x80000000#32, .int64 0#64]) ∧
        b'.unread = [] := by
  obtain ⟨valid, empty⟩ := create_valid 8 16 (by decide) (by decide)
  obtain ⟨filled, outs, appended, exact⟩ := codec_round_trip_iff valid empty
    [.int32 0x7fffffff#32, .int64 (-2#64), .int32 0x80000000#32, .int64 0#64] (by decide)
  exact ⟨filled, outs, appended, exact.mpr (by decide)⟩

/-- `-1` is read twice, the `7` behind it never. -/
theorem minus_one_sticks :
    ∃ filled outs, run (.create 8 16) [.appendInt32 (-1#32), .appendInt32 7#32] =
        .ok (filled, outs) ∧
      ∃ b', readBack filled [.int32, .int32] = .ok (b', [.int32 (-1#32), .int32 (-1#32)]) ∧
        b'.unread = [255#8, 255#8, 255#8, 255#8, 0#8, 0#8, 0#8, 7#8] :=
  ⟨_, _, rfl, _, rfl, rfl⟩

end Libatp.Buffer
