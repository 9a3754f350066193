import Libatp.Net.Interest

/-!
# When a read event closes a connection

`readv` tells an error that can be retried from one that cannot: it returns
`RETRIABLE_ERROR` for the first. `netFdReadHandle` only asks whether the result is
positive, and `RETRIABLE_ERROR` is -11, so both close the connection.
-/

namespace Libatp.Net
open Base Buffer

/-- The end of the stream, or an error for good. -/
def Ends : ReadOutcome → Prop
  | .bytes _ => False
  | .eof _ => True
  | .failed errno => errno.rwRetriable = false

/-- `EAGAIN` or `EINTR`. -/
def Retriable : ReadOutcome → Prop
  | .bytes _ | .eof _ => False
  | .failed errno => errno.rwRetriable = true

instance (out : ReadOutcome) : Decidable (Retriable out) := by
  cases out <;> simp only [Retriable] <;> infer_instance

/-- What a read event should come to: the connection is closed exactly on what ends the
stream, and nothing at all changes where the call is to be retried. -/
def Heeded (c : Connection) (out : ReadOutcome) (c' : Connection) : Prop :=
  (c'.closes = c.closes + 1 ∧ c'.chan.event = false ↔ Ends out) ∧ (Retriable out → c' = c)

/-- Without bytes the buffer stays as it is, and the result is not positive. -/
theorem readv_none {b : ByteBuffer} (hv : b.Valid) {out : ReadOutcome}
    (none : ∀ data, out ≠ .bytes data) : ∃ n ≤ 0, b.readv out = .ok (b, n) := by
  have retriable : retriableError ≤ 0 := by decide
  cases out with
  | bytes data => exact absurd rfl (none data)
  | eof errno =>
    refine ⟨_, ?_, by rw [ByteBuffer.readv, ByteBuffer.writableBytes_eq hv.ordered]; rfl⟩
    split
    · exact retriable
    · exact Int.le_refl 0
  | failed errno =>
    refine ⟨_, ?_, by rw [ByteBuffer.readv, ByteBuffer.writableBytes_eq hv.ordered]; rfl⟩
    split
    · exact retriable
    · decide

theorem readv_count {b b' : ByteBuffer} (hv : b.Valid) {data : List Byte} {n : Int}
    (h : b.readv (.bytes data) = .ok (b', n)) : n = data.length := by
  simp only [ByteBuffer.readv, ByteBuffer.writableBytes_eq hv.ordered, ok_bind] at h
  obtain ⟨mem, _, h⟩ := bind_ok_iff.mp h
  obtain ⟨extr, _, h⟩ := bind_ok_iff.mp h
  split at h
  · cases h
    rfl
  · obtain ⟨grown, _, h⟩ := bind_ok_iff.mp h
    obtain ⟨spilled, _, h⟩ := bind_ok_iff.mp h
    obtain ⟨last, _, h⟩ := bind_ok_iff.mp h
    cases h
    rfl

namespace Connection

variable {c c' : Connection} {out : ReadOutcome} {attached : Bool}

theorem read_none (hc : Attentive attached c) (none : ∀ data, out ≠ .bytes data) :
    c.netFdReadHandle out = .ok { c with chan := .shut, closes := c.closes + 1 } := by
  obtain ⟨n, most, received⟩ := readv_none hc.read none
  rw [netFdReadHandle, received, ok_bind]
  simp only [if_pos most]
  exact netFdCloseHandle_eq hc.watched

theorem read_bytes (hc : Attentive attached c) {data : List Byte} (some : 1 ≤ data.length)
    (h : c.netFdReadHandle (.bytes data) = .ok c') :
    ∃ readBuffer, c' = { c with readBuffer := readBuffer } := by
  obtain ⟨⟨readBuffer, n⟩, received, rest⟩ := bind_ok_iff.mp h
  have count := readv_count hc.read received
  simp only [if_neg (show ¬ n ≤ 0 by omega)] at rest
  cases rest
  exact ⟨readBuffer, rfl⟩

end Connection

/-! ## Whole runs -/

theorem connection_attentive {c : Connection}
    (h : (connection.restrict Connection.Reported).Reachable c) :
    ∃ attached, Connection.Attentive attached c := by
  induction h with
  | start first =>
    cases first
    exact ⟨false, Connection.create_attentive⟩
  | next _ step ih =>
    obtain ⟨attached, hc⟩ := ih
    obtain ⟨reported, possible, taken⟩ := step
    exact ⟨_, Connection.exec_attentive hc reported possible taken⟩

/-- **A read event is heeded exactly if it need not be retried.** At any point of any run, for
every outcome of `::readv`: a call without bytes returns, and whatever returns has done what
it should unless the outcome was `EAGAIN` or `EINTR`. -/
theorem read_heeded_iff {c : Connection}
    (h : (connection.restrict Connection.Reported).Reachable c) (out : ReadOutcome)
    (offered : ∀ data, out = .bytes data → ReadOffered c.readBuffer data) :
    ((∀ data, out ≠ .bytes data) → ∃ c', c.netFdReadHandle out = .ok c') ∧
      ∀ c', c.netFdReadHandle out = .ok c' → (Heeded c out c' ↔ ¬ Retriable out) := by
  obtain ⟨attached, hc⟩ := connection_attentive h
  refine ⟨fun none => ⟨_, Connection.read_none hc none⟩, fun c' handled => ?_⟩
  cases out with
  | bytes data =>
    obtain ⟨readBuffer, rfl⟩ := Connection.read_bytes hc (offered data rfl).1 handled
    refine ⟨fun _ retry => retry, fun _ => ⟨⟨?_, False.elim⟩, False.elim⟩⟩
    rintro ⟨closed, _⟩
    exact absurd closed (Nat.ne_of_lt (Nat.lt_succ_self c.closes))
  | eof errno =>
    rw [Connection.read_none hc fun data same => by cases same] at handled
    cases handled
    exact ⟨fun _ retry => retry, fun _ => ⟨⟨fun _ => trivial, fun _ => ⟨rfl, rfl⟩⟩, False.elim⟩⟩
  | failed errno =>
    rw [Connection.read_none hc fun data same => by cases same] at handled
    cases handled
    constructor
    · intro heeded retry
      have same := congrArg Connection.closes (heeded.2 retry)
      exact absurd same (Nat.ne_of_gt (Nat.lt_succ_self c.closes))
    · intro final
      refine ⟨⟨fun _ => Bool.eq_false_iff.mpr final, fun _ => ⟨rfl, rfl⟩⟩, ?_⟩
      intro retry
      exact absurd retry final

theorem attached_reachable : (connection.restrict Connection.Reported).Reachable
    { Connection.create with chan := .live ⟨true, false⟩ } := by
  have step : (connection.restrict Connection.Reported).step .create .attach
      { Connection.create with chan := .live ⟨true, false⟩ } := ⟨trivial, trivial, rfl⟩
  exact .next (.start rfl) step

/-- The end of the stream closes an attached connection, also where `errno` still is `EAGAIN`
from an earlier call. -/
theorem read_heeded_eof : ∃ c', Connection.netFdReadHandle
      { Connection.create with chan := .live ⟨true, false⟩ } (.eof .eagain) = .ok c' ∧
    c'.closes = 1 ∧ c'.chan.event = false := by
  obtain ⟨returns, exact⟩ := read_heeded_iff attached_reachable (.eof .eagain) nofun
  obtain ⟨c', handled⟩ := returns nofun
  exact ⟨c', handled, ((exact c' handled).mpr (by decide)).1.mpr trivial⟩

/-- `EAGAIN` closes it as well, and what arrives then is not delivered. -/
theorem retriable_read_closes : ∃ c' c'',
    (connection.restrict Connection.Reported).Reachable
      { Connection.create with chan := .live ⟨true, false⟩ } ∧
    (Event.ready ⟨true, false⟩ (.failed .eagain)).exec
      { Connection.create with chan := .live ⟨true, false⟩ } = .ok c' ∧
    c'.closes = 1 ∧ c'.chan = .shut ∧
    (Event.ready ⟨true, false⟩ (.bytes [1])).exec c' = .ok c'' ∧ c''.readBuffer.unread = [] :=
  ⟨_, _, attached_reachable, rfl, rfl, rfl, rfl, rfl⟩

end Libatp.Net
