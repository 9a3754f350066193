import Libatp.Buffer.Valid

/-!
# A buffer is a queue of bytes

The abstract queue is a list. Appending adds at the back, prepending at the
front, reading takes from the front. `buffer_refines_queue`: any sequence of
calls on one buffer returns, and shows exactly what the queue shows.
-/

namespace Libatp.Buffer
open Base

/-! ## Byte order

Byte by byte, a swap takes each byte of the integer from one of the masked and
shifted copies, and nothing from the others.
-/

theorem hostBytes_htonl (x : BitVec 32) : hostBytes32 (htonl x) = bigEndian32 x := by
  simp [bigEndian32, hostBytes32, htonl, BitVec.extractLsb'_or, BitVec.extractLsb'_and,
    extractLsb'_shiftRight, extractLsb'_shiftLeft, extractLsb'_shiftLeft_below, byte_and_ones]

theorem hostBytes_htonll (x : BitVec 64) : hostBytes64 (htonll x) = bigEndian64 x := by
  simp [bigEndian64, hostBytes64, htonll, BitVec.extractLsb'_or, BitVec.extractLsb'_and,
    extractLsb'_shiftRight, extractLsb'_shiftLeft, extractLsb'_shiftLeft_below, byte_and_ones]

/-! ## Calls -/

/-- The calls a caller can make, with their arguments. -/
inductive Op where
  | append (data : List Byte)
  | appendInt32 (x : BitVec 32)
  | appendInt64 (x : BitVec 64)
  | prependInt32 (x : BitVec 32)
  | prependInt64 (x : BitVec 64)
  | remove (n : Nat)
  | consume (n : Nat)
  | consumeVerify (n : Nat) (verify : Bool)
  | reset
  deriving DecidableEq, Repr

/-- The buffer after a call, and the bytes that a returned slice then shows. -/
def Op.exec (b : ByteBuffer) : Op → Checked (ByteBuffer × List Byte)
  | .append data => do return (← b.append data, [])
  | .appendInt32 x => do return (← b.appendInt32 x, [])
  | .appendInt64 x => do return (← b.appendInt64 x, [])
  | .prependInt32 x => do return (← b.prependInt32 x, [])
  | .prependInt64 x => do return (← b.prependInt64 x, [])
  | .remove n => do return (← b.remove n, [])
  | .consume n => do
    let (b', s) ← b.consume n
    return (b', s.bytes b'.buff)
  | .consumeVerify n verify => do
    let (b', s) ← b.consumeVerify n verify
    return (b', s.bytes b'.buff)
  | .reset => return (b.reset, [])

/-- The queue after a call, and the bytes the call takes out of it. -/
def Op.spec (q : List Byte) : Op → List Byte × List Byte
  | .append data => (q ++ data, [])
  | .appendInt32 x => (q ++ bigEndian32 x, [])
  | .appendInt64 x => (q ++ bigEndian64 x, [])
  | .prependInt32 x => (bigEndian32 x ++ q, [])
  | .prependInt64 x => (bigEndian64 x ++ q, [])
  | .remove n => (q.drop (min n q.length), [])
  | .consume n => (q.drop (min n q.length), q.take (min n q.length))
  | .consumeVerify n verify =>
    if q.length < n ∧ verify then (q, []) else (q.drop (min n q.length), q.take (min n q.length))
  | .reset => ([], [])

/-- What the caller of an operation owes it: sizes stay words, and an integer is
only prepended where there is room for it. -/
def Op.Allowed (b : ByteBuffer) : Op → Prop
  | .append data => b.Fits data.length
  | .appendInt32 _ => b.Fits 4
  | .appendInt64 _ => b.Fits 8
  | .prependInt32 _ => 4 ≤ b.prependableBytes
  | .prependInt64 _ => 8 ≤ b.prependableBytes
  | .remove _ | .consume _ | .consumeVerify _ _ | .reset => True

instance (b : ByteBuffer) (op : Op) : Decidable (op.Allowed b) := by
  cases op <;> simp only [Op.Allowed] <;> infer_instance

theorem drop_min (q : List Byte) (n : Nat) : q.drop (min n q.length) = q.drop n := by
  rcases Nat.le_total n q.length with h | h
  · rw [Nat.min_eq_left h]
  · rw [Nat.min_eq_right h, List.drop_length, List.drop_of_length_le h]

theorem take_min (q : List Byte) (n : Nat) : q.take (min n q.length) = q.take n := by
  rcases Nat.le_total n q.length with h | h
  · rw [Nat.min_eq_left h]
  · rw [Nat.min_eq_right h, List.take_length, List.take_of_length_le h]

/-- One call: it returns, the buffer stays valid, and its unread bytes and its
result are those of the queue. -/
theorem exec_refines {b : ByteBuffer} (hv : b.Valid) (op : Op) (ha : op.Allowed b) :
    ∃ b' out, op.exec b = .ok (b', out) ∧ b'.Valid ∧ (b'.unread, out) = op.spec b.unread := by
  have appended (data : List Byte) (fits : b.Fits data.length) :
      ∃ b', b.append data = .ok b' ∧ b'.Valid ∧ b'.unread = b.unread ++ data := by
    obtain ⟨b', h⟩ := ByteBuffer.append_ok hv data fits
    exact ⟨b', h, ByteBuffer.append_spec hv h⟩
  have prepended (bytes : List Byte) (some : 1 ≤ bytes.length) (room : bytes.length ≤ b.readIndex) :
      ∃ b', b.prependBytes bytes = .ok b' ∧ b'.Valid ∧ b'.unread = bytes ++ b.unread := by
    have h := (ByteBuffer.prependBytes_ok_iff hv some).mpr ⟨room, rfl⟩
    exact ⟨_, h, ByteBuffer.prependBytes_spec hv some h⟩
  cases op with
  | append data =>
    obtain ⟨b', h, valid, same⟩ := appended data ha
    exact ⟨b', [], by simp [Op.exec, h], valid, by simp [Op.spec, same]⟩
  | appendInt32 x =>
    obtain ⟨b', h, valid, same⟩ := appended (bigEndian32 x) ha
    exact ⟨b', [], by simp [Op.exec, ByteBuffer.appendInt32, hostBytes_htonl, h], valid,
      by simp [Op.spec, same]⟩
  | appendInt64 x =>
    obtain ⟨b', h, valid, same⟩ := appended (bigEndian64 x) ha
    exact ⟨b', [], by simp [Op.exec, ByteBuffer.appendInt64, hostBytes_htonll, h], valid,
      by simp [Op.spec, same]⟩
  | prependInt32 x =>
    obtain ⟨b', h, valid, same⟩ := prepended (bigEndian32 x) (by simp) ha
    exact ⟨b', [], by simp [Op.exec, ByteBuffer.prependInt32, hostBytes_htonl, h], valid,
      by simp [Op.spec, same]⟩
  | prependInt64 x =>
    obtain ⟨b', h, valid, same⟩ := prepended (bigEndian64 x) (by simp) ha
    exact ⟨b', [], by simp [Op.exec, ByteBuffer.prependInt64, hostBytes_htonll, h], valid,
      by simp [Op.spec, same]⟩
  | remove n =>
    obtain ⟨b', h, valid, _, same⟩ := ByteBuffer.remove_ok hv n
    exact ⟨b', [], by simp [Op.exec, h], valid, by rw [Op.spec, drop_min, same]⟩
  | consume n =>
    obtain ⟨b', s, h, valid, rest, taken⟩ := ByteBuffer.consume_ok hv n
    exact ⟨b', _, by simp only [Op.exec, h, ok_bind]; rfl, valid,
      by rw [Op.spec, drop_min, take_min, rest, taken]⟩
  | consumeVerify n verify =>
    have hl := ByteBuffer.unread_length hv.ordered
    simp only [Op.exec, Op.spec, ByteBuffer.consumeVerify_eq hv, ← hl, drop_min, take_min]
    by_cases refused : b.unread.length < n ∧ verify
    · simp only [if_pos refused]
      exact ⟨b, _, rfl, hv, rfl⟩
    · obtain ⟨b', s, h, valid, rest, taken⟩ := ByteBuffer.consume_ok hv n
      simp only [if_neg refused, h]
      exact ⟨b', _, rfl, valid, by rw [rest, taken]⟩
  | reset =>
    obtain ⟨valid, empty⟩ := ByteBuffer.reset_spec hv
    exact ⟨_, _, rfl, valid, by rw [empty]; rfl⟩

/-- A call that returns keeps the buffer valid, whether its obligations were met or not. -/
theorem exec_valid {b b' : ByteBuffer} {out : List Byte} (hv : b.Valid) {op : Op}
    (h : op.exec b = .ok (b', out)) : b'.Valid := by
  have returned (ha : op.Allowed b) : b'.Valid := by
    obtain ⟨c, out', ok, valid, _⟩ := exec_refines hv op ha
    rw [ok] at h
    cases h
    exact valid
  cases op with
  | append data | appendInt32 x | appendInt64 x =>
    obtain ⟨c, appended, eq⟩ := bind_ok_iff.mp h
    cases eq
    exact (ByteBuffer.append_spec hv appended).1
  | prependInt32 x | prependInt64 x =>
    obtain ⟨c, prepended, eq⟩ := bind_ok_iff.mp h
    cases eq
    exact (ByteBuffer.prependBytes_spec hv (by simp) prepended).1
  | remove n | consume n | consumeVerify n verify | reset => exact returned trivial

/-! ## Sequences of calls -/

/-- The calls in order; the results are listed in the order they were returned. -/
def run : ByteBuffer → List Op → Checked (ByteBuffer × List (List Byte))
  | b, [] => return (b, [])
  | b, op :: ops => do
    let (b', out) ← op.exec b
    let (b'', outs) ← run b' ops
    return (b'', out :: outs)

def specRun : List Byte → List Op → List Byte × List (List Byte)
  | q, [] => (q, [])
  | q, op :: ops =>
    let (q', out) := op.spec q
    let (q'', outs) := specRun q' ops
    (q'', out :: outs)

/-- Every call of the sequence meets its obligation in the buffer it is made on. -/
def Admissible : ByteBuffer → List Op → Prop
  | _, [] => True
  | b, op :: ops => op.Allowed b ∧
    match op.exec b with
    | .ok (b', _) => Admissible b' ops
    | .error _ => True

instance decidableAdmissible : (b : ByteBuffer) → (ops : List Op) → Decidable (Admissible b ops)
  | _, [] => isTrue trivial
  | b, op :: ops =>
    have : Decidable (match op.exec b with
        | .ok (b', _) => Admissible b' ops
        | .error _ => True) :=
      match op.exec b with
      | .ok (b', _) => decidableAdmissible b' ops
      | .error _ => isTrue trivial
    inferInstanceAs (Decidable (_ ∧ _))

theorem admissible_initial {b : ByteBuffer} {done ops : List Op} (h : Admissible b ops)
    (hp : done <+: ops) : Admissible b done := by
  induction done generalizing b ops with
  | nil => trivial
  | cons op done ih =>
    obtain ⟨rest, rfl⟩ := hp
    obtain ⟨allowed, next⟩ := h
    refine ⟨allowed, ?_⟩
    cases hb : op.exec b with
    | error e => trivial
    | ok r =>
      simp only [hb] at next
      exact ih next (List.prefix_append _ _)

theorem run_refines {b : ByteBuffer} (hv : b.Valid) {ops : List Op} (ha : Admissible b ops) :
    ∃ b' outs, run b ops = .ok (b', outs) ∧ b'.Valid ∧
      (b'.unread, outs) = specRun b.unread ops := by
  induction ops generalizing b with
  | nil => exact ⟨b, [], rfl, hv, rfl⟩
  | cons op ops ih =>
    obtain ⟨allowed, next⟩ := ha
    obtain ⟨b₁, out, h₁, valid₁, spec₁⟩ := exec_refines hv op allowed
    simp only [h₁] at next
    obtain ⟨b₂, outs, h₂, valid₂, spec₂⟩ := ih valid₁ next
    refine ⟨b₂, out :: outs, ?_, valid₂, ?_⟩
    · simp only [run, h₁, h₂, ok_bind, pure_eq_ok]
    · simp only [specRun, ← spec₁, ← spec₂]

theorem create_valid (prepend initial : Nat) (hp : 1 ≤ prepend)
    (hs : prepend + initial < wordSize) :
    (ByteBuffer.create prepend initial).Valid ∧
      (ByteBuffer.create prepend initial).unread = [] := by
  simp only [ByteBuffer.create, wrap_of_lt hs]
  constructor
  · exact ⟨by simp, Nat.le_refl _, by simp, by simp, hp, hs⟩
  · simp [ByteBuffer.unread]

/-- **A buffer refines a byte queue.** After every step of any admissible
sequence of calls on a new buffer, the buffer is valid, its unread bytes are the
queue, and each `consume` so far returned the bytes it dropped. No assertion
fails on the way and no copy leaves its array, since the run returns. -/
theorem buffer_refines_queue (prepend initial : Nat) (hp : 1 ≤ prepend)
    (hs : prepend + initial < wordSize) (ops : List Op)
    (ha : Admissible (.create prepend initial) ops) (done : List Op) (hd : done <+: ops) :
    ∃ b outs, run (.create prepend initial) done = .ok (b, outs) ∧ b.Valid ∧
      b.unread = (specRun [] done).1 ∧ outs = (specRun [] done).2 := by
  obtain ⟨valid, empty⟩ := create_valid prepend initial hp hs
  obtain ⟨b, outs, h, valid', spec⟩ := run_refines valid (admissible_initial ha hd)
  rw [empty] at spec
  exact ⟨b, outs, h, valid', congrArg Prod.fst spec, congrArg Prod.snd spec⟩

/-- Five bytes into a two-byte body reallocate; the length goes in front of them. -/
theorem buffer_refines_queue_framed :
    ∃ b outs, run (.create 8 2) [.append [1, 2, 3, 4, 5], .prependInt32 5, .consume 6] =
        .ok (b, outs) ∧ b.Valid ∧ b.unread = [3, 4, 5] ∧ outs = [[], [], [0, 0, 0, 5, 1, 2]] :=
  buffer_refines_queue 8 2 (by decide) (by decide)
    [.append [1, 2, 3, 4, 5], .prependInt32 5, .consume 6] (by decide) _ (List.prefix_refl _)

end Libatp.Buffer
