import Libatp.Net.Stream
import Mathlib.Logic.Function.Basic

/-!
# Applications that pass on what they receive

The application is called with `read_buffer_` after every successful read. It takes bytes from
it with `consume`, whenever and as many as it likes, or hands all of it to `send(ByteBuffer*)`
of some connection: its own, as an echo server does, or another one, as a proxy does. All of
these connections belong to one loop.

`received` and `used` are histories: what the kernel delivered for a connection, and what the
application took from its buffer.
-/

namespace Libatp.Net
open Base Buffer

structure Relay (Conn : Type) where
  conn : Conn → Connection
  received : Conn → List Byte
  used : Conn → List Byte

variable {Conn : Type}

def delivered : ReadOutcome → List Byte
  | .bytes data => data
  | .eof _ | .failed _ => []

/-- What a step of a connection reads from its descriptor. -/
def Event.heard (c : Connection) : Event → List Byte
  | .ready which out => if which.read && c.chan.callbacks then delivered out else []
  | .attach | .send _ _ | .close | .writeHalf _ => []

/-- `slice.void_type_data()` and its length, as arguments of `send`. -/
def sliceSource (buff : List Byte) (slice : Slice) : Checked (Option Source) :=
  match slice.data with
  | .literal => return none
  | .buffer off =>
    if h : off + slice.size ≤ buff.length ∧ buff.length < wordSize then
      return some ⟨buff, off, slice.size, h.1, h.2⟩
    else throw .outOfBounds

namespace Relay

variable [DecidableEq Conn]

def create : Relay Conn where
  conn := fun _ => .create
  received := fun _ => []
  used := fun _ => []

/-- The application takes `slice` out of the buffer of `i`. -/
def take (s : Relay Conn) (i : Conn) (readBuffer : ByteBuffer) (slice : Slice) : Relay Conn :=
  { s with
    conn := Function.update s.conn i { s.conn i with readBuffer := readBuffer }
    used := Function.update s.used i (s.used i ++ slice.bytes readBuffer.buff) }

def consume (s : Relay Conn) (i : Conn) (n : Nat) : Checked (Relay Conn) := do
  let (readBuffer, slice) ← (s.conn i).readBuffer.consume n
  return s.take i readBuffer slice

/-- `send(ByteBuffer*)` of connection `j`, for the read buffer of `i`. -/
def forward (s : Relay Conn) (i j : Conn) (out : SendOutcome) : Checked (Relay Conn) := do
  let len ← (s.conn i).readBuffer.unreadBytes
  let (readBuffer, slice) ← (s.conn i).readBuffer.consume len
  let s := s.take i readBuffer slice
  let data ← sliceSource readBuffer.buff slice
  let c ← (s.conn j).send data out
  return { s with conn := Function.update s.conn j c }

end Relay

inductive RelayEvent (Conn : Type) where
  | net (i : Conn) (e : Event)
  | consume (i : Conn) (n : Nat)
  | forward (i j : Conn) (out : SendOutcome)

section
variable [DecidableEq Conn]

def RelayEvent.Possible (s : Relay Conn) : RelayEvent Conn → Prop
  | .net i e => e.Possible (s.conn i)
  | .consume _ _ => True
  | .forward i _ out => out.Within (s.conn i).readBuffer.unread.length

def RelayEvent.exec (s : Relay Conn) : RelayEvent Conn → Checked (Relay Conn)
  | .net i e => do
    let c ← e.exec (s.conn i)
    return { s with
      conn := Function.update s.conn i c
      received := Function.update s.received i (s.received i ++ e.heard (s.conn i)) }
  | .consume i n => s.consume i n
  | .forward i j out => s.forward i j out

def relay (Conn : Type) [DecidableEq Conn] : System (Relay Conn) (RelayEvent Conn) where
  start s := s = .create
  step s e s' := e.Possible s ∧ e.exec s = .ok s'

end

/-! ## Only reading fills the read buffer -/

namespace Connection

variable {c c' d : Connection}

theorem sendDirect_frame {data : Source} {out : SendOutcome} {nwrite : Int} {remaining : Nat}
    (h : c.sendDirect data out = .ok (d, nwrite, remaining)) :
    d.readBuffer = c.readBuffer ∧ d.writeBuffer = c.writeBuffer ∧ d.passed = c.passed := by
  cases out with
  | accepted k errno =>
    cases h
    split <;> exact ⟨rfl, rfl, rfl⟩
  | failed errno =>
    rw [sendDirect] at h
    split at h
    · cases h
      exact ⟨rfl, rfl, rfl⟩
    · obtain ⟨closed, handled, eq⟩ := bind_ok_iff.mp h
      obtain ⟨chan, rfl⟩ := netFdCloseHandle_frame handled
      cases eq
      exact ⟨rfl, rfl, rfl⟩

def sourceBytes : Option Source → List Byte
  | none => []
  | some data => data.bytes

theorem send_frame {data : Option Source} {out : SendOutcome} (hw : c.writeBuffer.Valid)
    (h : c.send data out = .ok c') :
    c'.readBuffer = c.readBuffer ∧ c'.writeBuffer.Valid ∧
      c'.passed = c.passed ++ sourceBytes data := by
  cases data with
  | none =>
    cases h
    exact ⟨rfl, hw, (List.append_nil _).symm⟩
  | some data =>
    rw [send] at h
    split at h
    · cases h
      exact ⟨rfl, hw, rfl⟩
    · obtain ⟨direct, _, h⟩ := bind_ok_iff.mp h
      obtain ⟨⟨d, nwrite, remaining⟩, first, rest⟩ := bind_ok_iff.mp h
      obtain ⟨read, write, passed⟩ : d.readBuffer = c.readBuffer ∧
          d.writeBuffer = c.writeBuffer ∧ d.passed = c.passed ++ data.bytes := by
        split at first
        · exact sendDirect_frame (c := c.pass data) first
        · cases first
          exact ⟨rfl, rfl, rfl⟩
      obtain ⟨chan, writeBuffer, rfl, valid, _⟩ := sendRest_frame (write ▸ hw) rest
      exact ⟨read, valid, passed⟩

theorem send_accepted {data : Option Source} {k : Nat} {errno : Errno} (hw : c.writeBuffer.Valid)
    (h : c.send data (.accepted k errno) = .ok c') : c'.failed = c.failed := by
  cases data with
  | none =>
    cases h
    rfl
  | some data =>
    rw [send] at h
    split at h
    · cases h
      rfl
    · obtain ⟨direct, _, h⟩ := bind_ok_iff.mp h
      obtain ⟨⟨d, nwrite, remaining⟩, first, rest⟩ := bind_ok_iff.mp h
      obtain ⟨write, failed⟩ : d.writeBuffer = c.writeBuffer ∧ d.failed = c.failed := by
        split at first
        · cases first
          split <;> exact ⟨rfl, rfl⟩
        · cases first
          exact ⟨rfl, rfl⟩
      obtain ⟨chan, writeBuffer, rfl, _⟩ := sendRest_frame (write ▸ hw) rest
      exact failed

theorem netFdWriteHandle_frame {out : SendOutcome} (hw : c.writeBuffer.Valid)
    (h : c.netFdWriteHandle out = .ok c') :
    c'.readBuffer = c.readBuffer ∧ c'.writeBuffer.Valid ∧ c'.passed = c.passed := by
  obtain ⟨_, _, rest⟩ := bind_ok_iff.mp h
  obtain ⟨_, _, rest⟩ := bind_ok_iff.mp rest
  cases out with
  | accepted k errno =>
    simp only at rest
    split at rest
    · obtain ⟨writeBuffer, removed, rest⟩ := bind_ok_iff.mp rest
      have valid := (ByteBuffer.remove_spec hw removed).1
      obtain ⟨chan, completions, rfl⟩ := drained_frame rest
      exact ⟨rfl, valid, rfl⟩
    · split at rest
      · cases rest
        exact ⟨rfl, hw, rfl⟩
      · obtain ⟨chan, rfl⟩ := netFdCloseHandle_frame rest
        exact ⟨rfl, hw, rfl⟩
  | failed errno =>
    simp only at rest
    split at rest
    · cases rest
      exact ⟨rfl, hw, rfl⟩
    · obtain ⟨chan, rfl⟩ := netFdCloseHandle_frame rest
      exact ⟨rfl, hw, rfl⟩

/-- Where bytes spill over, they are a text shorter than the array they spill into. -/
def TextSpills (c : Connection) : Event → Prop
  | .ready _ (.bytes data) =>
    data.length ≤ c.readBuffer.caps - c.readBuffer.writeIndex ∨ SpillIsText c.readBuffer data
  | _ => True

theorem readv_unread {b b' : ByteBuffer} {data : List Byte} {n : Int} (hv : b.Valid)
    (offered : ReadOffered b data)
    (text : data.length ≤ b.caps - b.writeIndex ∨ SpillIsText b data)
    (h : b.readv (.bytes data) = .ok (b', n)) : b'.unread = b.unread ++ data := by
  by_cases within : data.length ≤ b.caps - b.writeIndex
  · obtain ⟨d, delivered, _, same⟩ := delivered_within hv within
    rw [delivered] at h
    cases h
    exact same
  · obtain ⟨plain, short⟩ := text.resolve_left within
    have long : b.caps - b.writeIndex < data.length := by omega
    obtain ⟨filled, same, _⟩ := filled_spec hv long
    have spilled : cString (data.drop (b.caps - b.writeIndex) ++
        List.replicate (extrSize - (data.length - (b.caps - b.writeIndex))) 0#8) =
          .ok (data.drop (b.caps - b.writeIndex)) := by
      rw [cString_padded (by omega),
        List.takeWhile_eq_self_iff.mpr fun x hx => by simpa using plain x hx]
    rw [readv_over hv long (by have := offered.2; omega)] at h
    obtain ⟨grown, grows, h⟩ := bind_ok_iff.mp h
    rw [spilled, ok_bind] at h
    obtain ⟨d, appended, h⟩ := bind_ok_iff.mp h
    cases h
    obtain ⟨valid, kept⟩ := ByteBuffer.grow_spec filled grows
    rw [(ByteBuffer.append_spec valid appended).2, kept, same, List.append_assoc,
      List.take_append_drop]

theorem netFdReadHandle_frame {out : ReadOutcome} (hr : c.readBuffer.Valid)
    (offered : ∀ data, out = .bytes data → ReadOffered c.readBuffer data)
    (h : c.netFdReadHandle out = .ok c') :
    c'.readBuffer.Valid ∧ c'.writeBuffer = c.writeBuffer ∧ c'.passed = c.passed ∧
      ∃ n, c.readBuffer.readv out = .ok (c'.readBuffer, n) := by
  obtain ⟨⟨readBuffer, n⟩, received, rest⟩ := bind_ok_iff.mp h
  have valid := readv_valid hr offered received
  simp only at rest
  split at rest
  · obtain ⟨chan, rfl⟩ := netFdCloseHandle_frame rest
    exact ⟨valid, rfl, rfl, n, received⟩
  · cases rest
    exact ⟨valid, rfl, rfl, n, received⟩

/-- What a read leaves in the buffer. -/
theorem netFdReadHandle_unread {out : ReadOutcome} (hr : c.readBuffer.Valid)
    (offered : ∀ data, out = .bytes data → ReadOffered c.readBuffer data)
    (text : ∀ data, out = .bytes data →
      data.length ≤ c.readBuffer.caps - c.readBuffer.writeIndex ∨ SpillIsText c.readBuffer data)
    (h : c.netFdReadHandle out = .ok c') :
    c'.readBuffer.unread = c.readBuffer.unread ++ delivered out := by
  obtain ⟨_, _, _, n, received⟩ := netFdReadHandle_frame hr offered h
  cases out with
  | bytes data => exact readv_unread hr (offered data rfl) (text data rfl) received
  | eof errno | failed errno =>
    rw [ByteBuffer.readv, ByteBuffer.writableBytes_eq hr.ordered, ok_bind] at received
    obtain ⟨same, _⟩ := Prod.mk.inj (Except.ok.inj received)
    rw [← same, delivered, List.append_nil]

theorem exec_unread {e : Event} (hr : c.readBuffer.Valid) (hw : c.writeBuffer.Valid)
    (possible : e.Possible c) (text : c.TextSpills e) (h : e.exec c = .ok c') :
    c'.readBuffer.Valid ∧ c'.writeBuffer.Valid ∧
      c'.readBuffer.unread = c.readBuffer.unread ++ e.heard c := by
  cases e with
  | attach =>
    obtain ⟨chan, _, eq⟩ := bind_ok_iff.mp h
    cases eq
    exact ⟨hr, hw, (List.append_nil _).symm⟩
  | send data out =>
    obtain ⟨read, valid, _⟩ := send_frame hw h
    rw [read]
    exact ⟨hr, valid, (List.append_nil _).symm⟩
  | close =>
    obtain ⟨chan, rfl⟩ := netFdCloseHandle_frame h
    exact ⟨hr, hw, (List.append_nil _).symm⟩
  | ready which out =>
    obtain ⟨d, handled, eq⟩ := bind_ok_iff.mp h
    cases eq
    simp only [Event.heard]
    split at handled
    · rename_i heard
      obtain ⟨valid, write, _⟩ := netFdReadHandle_frame hr possible.2 handled
      have unread := netFdReadHandle_unread hr possible.2
        (fun data same => by subst same; exact text) handled
      rw [if_pos heard]
      exact ⟨valid, write ▸ hw, unread⟩
    · rename_i deaf
      cases handled
      rw [if_neg deaf, List.append_nil]
      exact ⟨hr, hw, rfl⟩
  | writeHalf out =>
    obtain ⟨d, handled, eq⟩ := bind_ok_iff.mp h
    cases eq
    split at handled
    · obtain ⟨read, valid, _⟩ := netFdWriteHandle_frame hw handled
      rw [Event.heard, List.append_nil]
      exact ⟨read ▸ hr, valid, congrArg _ read⟩
    · cases handled
      exact ⟨hr, hw, (List.append_nil _).symm⟩

/-- Only `send` passes anything to the outgoing stream. -/
theorem exec_passed {e : Event} (hr : c.readBuffer.Valid) (hw : c.writeBuffer.Valid)
    (possible : e.Possible c) (silent : ∀ data out, e ≠ .send data out) (h : e.exec c = .ok c') :
    c'.passed = c.passed := by
  cases e with
  | attach =>
    obtain ⟨chan, _, eq⟩ := bind_ok_iff.mp h
    cases eq
    rfl
  | send data out => exact absurd rfl (silent data out)
  | close =>
    obtain ⟨chan, rfl⟩ := netFdCloseHandle_frame h
    rfl
  | ready which out =>
    obtain ⟨d, handled, eq⟩ := bind_ok_iff.mp h
    cases eq
    split at handled
    · exact (netFdReadHandle_frame hr possible.2 handled).2.2.1
    · cases handled
      rfl
  | writeHalf out =>
    obtain ⟨d, handled, eq⟩ := bind_ok_iff.mp h
    cases eq
    split at handled
    · exact (netFdWriteHandle_frame hw handled).2.2
    · cases handled
      rfl

end Connection

/-! ## What the application takes -/

section
variable [DecidableEq Conn] {s s' : Relay Conn} {i j : Conn}

/-- What was received and not used is in the buffer. -/
structure Incoming (s : Relay Conn) (i : Conn) : Prop where
  read : (s.conn i).readBuffer.Valid
  write : (s.conn i).writeBuffer.Valid
  stream : s.received i = s.used i ++ (s.conn i).readBuffer.unread

omit [DecidableEq Conn] in
/-- Nothing about connection `i` has changed. -/
theorem Incoming.same (h : Incoming s i) (conn : s'.conn i = s.conn i)
    (received : s'.received i = s.received i) (used : s'.used i = s.used i) : Incoming s' i := by
  refine ⟨by rw [conn]; exact h.read, by rw [conn]; exact h.write, ?_⟩
  rw [received, used, conn]
  exact h.stream

theorem Incoming.take (h : Incoming s i) {n : Nat} {readBuffer : ByteBuffer} {slice : Slice}
    (consumed : (s.conn i).readBuffer.consume n = .ok (readBuffer, slice)) :
    Incoming (s.take i readBuffer slice) i := by
  obtain ⟨b, t, ok, valid, rest, front⟩ := ByteBuffer.consume_ok h.read n
  rw [ok] at consumed
  cases consumed
  refine ⟨?_, ?_, ?_⟩
  · simp only [Relay.take, Function.update_self]
    exact valid
  · simp only [Relay.take, Function.update_self]
    exact h.write
  · simp only [Relay.take, Function.update_self]
    rw [front, rest, List.append_assoc, List.take_append_drop]
    exact h.stream

theorem take_of_ne (s : Relay Conn) (readBuffer : ByteBuffer) (slice : Slice) (other : j ≠ i) :
    (s.take i readBuffer slice).conn j = s.conn j ∧ (s.take i readBuffer slice).used j = s.used j :=
  ⟨Function.update_of_ne other .., Function.update_of_ne other ..⟩

theorem incoming_take (h : ∀ j, Incoming s j) {n : Nat} {readBuffer : ByteBuffer} {slice : Slice}
    (consumed : (s.conn i).readBuffer.consume n = .ok (readBuffer, slice)) (j : Conn) :
    Incoming (s.take i readBuffer slice) j := by
  by_cases same : j = i
  · subst same
    exact (h j).take consumed
  · obtain ⟨conn, used⟩ := take_of_ne s readBuffer slice same
    exact (h j).same conn rfl used

/-- A connection of the relay changes, and its read buffer does not. -/
theorem incoming_put (h : ∀ j, Incoming s j) {c : Connection}
    (read : c.readBuffer = (s.conn i).readBuffer) (write : c.writeBuffer.Valid) (j : Conn) :
    Incoming { s with conn := Function.update s.conn i c } j := by
  by_cases same : j = i
  · subst same
    have before := h j
    refine ⟨?_, ?_, ?_⟩
    all_goals simp only [Function.update_self]
    · rw [read]
      exact before.read
    · exact write
    · rw [read]
      exact before.stream
  · exact (h j).same (Function.update_of_ne same ..) rfl rfl

/-- The reads of a run are such that nothing is lost. -/
def TextSpills (s : Relay Conn) : RelayEvent Conn → Prop
  | .net i e => (s.conn i).TextSpills e
  | .consume _ _ | .forward _ _ _ => True

theorem forward_cases (h : ∀ j, Incoming s j) {out : SendOutcome}
    (step : s.forward i j out = .ok s') :
    ∃ readBuffer slice data c,
      (s.conn i).readBuffer.consume (s.conn i).readBuffer.unread.length = .ok (readBuffer, slice) ∧
      Connection.sourceBytes data = (s.conn i).readBuffer.unread ∧
      slice.bytes readBuffer.buff = (s.conn i).readBuffer.unread ∧
      ((s.take i readBuffer slice).conn j).send data out = .ok c ∧
      s' = { s.take i readBuffer slice with
        conn := Function.update (s.take i readBuffer slice).conn j c } := by
  have length := ByteBuffer.unread_length (h i).read.ordered
  obtain ⟨len, counted, step⟩ := bind_ok_iff.mp step
  obtain ⟨⟨readBuffer, slice⟩, consumed, step⟩ := bind_ok_iff.mp step
  obtain ⟨data, source, step⟩ := bind_ok_iff.mp step
  obtain ⟨c, sent, step⟩ := bind_ok_iff.mp step
  cases step
  rw [ByteBuffer.unreadBytes_eq (h i).read.ordered] at counted
  cases counted
  rw [← length] at consumed
  obtain ⟨b, t, ok, _, _, front⟩ :=
    ByteBuffer.consume_ok (h i).read (s.conn i).readBuffer.unread.length
  cases ok.symm.trans consumed
  rw [List.take_length] at front
  refine ⟨readBuffer, slice, data, c, consumed, ?_, front, sent, rfl⟩
  rw [← front]
  simp only [sliceSource] at source
  split at source
  · rename_i literal
    cases source
    simp [Connection.sourceBytes, Slice.bytes, literal]
  · rename_i off there
    split at source
    · cases source
      simp [Connection.sourceBytes, Source.bytes, Slice.bytes, there]
    · cases source

theorem exec_incoming {e : RelayEvent Conn} (h : ∀ j, Incoming s j) (possible : e.Possible s)
    (text : TextSpills s e) (step : e.exec s = .ok s') (j : Conn) : Incoming s' j := by
  cases e with
  | net i e =>
    obtain ⟨c, moved, step⟩ := bind_ok_iff.mp step
    cases step
    by_cases same : j = i
    · subst same
      obtain ⟨read, write, unread⟩ :=
        Connection.exec_unread (h j).read (h j).write possible text moved
      refine ⟨?_, ?_, ?_⟩
      all_goals simp only [Function.update_self]
      · exact read
      · exact write
      · rw [unread, (h j).stream, List.append_assoc]
    · exact (h j).same (Function.update_of_ne same ..) (Function.update_of_ne same ..) rfl
  | consume i n =>
    obtain ⟨⟨readBuffer, slice⟩, consumed, step⟩ := bind_ok_iff.mp step
    cases step
    exact incoming_take h consumed j
  | forward i k out =>
    obtain ⟨readBuffer, slice, data, c, consumed, _, _, sent, rfl⟩ := forward_cases h step
    have taken := incoming_take h consumed
    obtain ⟨read, write, _⟩ := Connection.send_frame (taken k).write sent
    exact incoming_put taken read write j

omit [DecidableEq Conn] in
theorem create_incoming (j : Conn) : Incoming (.create : Relay Conn) j := by
  obtain ⟨valid, empty⟩ := create_valid reservedPrependSize initBufferSize (by decide) (by decide)
  exact ⟨valid, valid, empty.symm⟩

theorem relay_incoming (h : ((relay Conn).restrict TextSpills).Reachable s) (j : Conn) :
    Incoming s j := by
  refine System.invariant _ (P := fun s => ∀ j, Incoming s j) ?_ ?_ h j
  · rintro s rfl
    exact create_incoming
  · rintro s e s' hs ⟨text, possible, step⟩
    exact exec_incoming hs possible text step

/-! ## What it passes on -/

/-- What is received on `i` is forwarded to `route i`, and nothing else is sent. As for any other
`send`, a direct one must not be refused with `EAGAIN`. -/
def Forwards (route : Conn → Conn) (s : Relay Conn) : RelayEvent Conn → Prop
  | .net i e => (s.conn i).TextSpills e ∧ ∀ data out, e ≠ .send data out
  | .consume _ _ => False
  | .forward i j out => j = route i ∧ ∀ errno, out = .failed errno →
      (s.conn j).chan.isWritable = false → (s.conn j).writeBuffer.unread = [] →
        errno.rwRetriable = false

structure Outgoing (route : Conn → Conn) (s : Relay Conn) : Prop where
  intact : ∀ j, (s.conn j).failed = false → (s.conn j).Intact
  passed : ∀ i, (s.conn (route i)).passed = s.used i

omit [DecidableEq Conn] in
theorem Outgoing.sound {route : Conn → Conn} (h : Outgoing route s) (hi : ∀ j, Incoming s j)
    (j : Conn) : (s.conn j).Sound :=
  ⟨(hi j).read, (hi j).write, h.intact j⟩

/-- Taking bytes out of a read buffer concerns no write buffer. -/
theorem take_writes (s : Relay Conn) (i : Conn) (readBuffer : ByteBuffer) (slice : Slice)
    (j : Conn) : ∃ b, (s.take i readBuffer slice).conn j = { s.conn j with readBuffer := b } := by
  by_cases same : j = i
  · subst same
    exact ⟨readBuffer, Function.update_self ..⟩
  · exact ⟨(s.conn j).readBuffer, (take_of_ne s readBuffer slice same).1⟩

theorem forward_outgoing {route : Conn → Conn} (one : Function.Injective route)
    (hi : ∀ j, Incoming s j) (h : Outgoing route s) {out : SendOutcome}
    (within : out.Within (s.conn i).readBuffer.unread.length)
    (final : ∀ errno, out = .failed errno → (s.conn (route i)).chan.isWritable = false →
      (s.conn (route i)).writeBuffer.unread = [] → errno.rwRetriable = false)
    (step : s.forward i (route i) out = .ok s') : Outgoing route s' := by
  obtain ⟨readBuffer, slice, data, c, consumed, source, front, sent, rfl⟩ := forward_cases hi step
  have taken := incoming_take hi consumed
  obtain ⟨b, target⟩ := take_writes s i readBuffer slice (route i)
  have sound : ((s.take i readBuffer slice).conn (route i)).Sound :=
    ⟨(taken _).read, (taken _).write, by rw [target]; exact h.intact (route i)⟩
  have allowed : ((s.take i readBuffer slice).conn (route i)).DirectNotRetried
      (.send data out) := by
    rw [target]
    cases data with
    | none => trivial
    | some data =>
      cases out with
      | accepted k errno => trivial
      | failed errno => exact fun _ idle empty => final errno rfl idle empty
  have possible : Event.Possible ((s.take i readBuffer slice).conn (route i)) (.send data out) := by
    cases data with
    | none => trivial
    | some data =>
      have length := congrArg List.length source
      rw [Connection.sourceBytes, Connection.source_length] at length
      rw [← length] at within
      exact within
  have after := Connection.send_sound sound allowed possible sent
  obtain ⟨_, _, passed⟩ := Connection.send_frame (taken _).write sent
  constructor
  · intro j
    by_cases same : j = route i
    · subst same
      simp only [Function.update_self]
      exact after.intact
    · simp only [Function.update_of_ne same]
      obtain ⟨b, eq⟩ := take_writes s i readBuffer slice j
      rw [eq]
      exact h.intact j
  · intro k
    by_cases same : k = i
    · subst same
      simp only [Function.update_self]
      rw [passed, source, target]
      simp only [Relay.take, Function.update_self]
      rw [front, h.passed k]
    · simp only [Function.update_of_ne (one.ne same)]
      obtain ⟨b, eq⟩ := take_writes s i readBuffer slice (route k)
      rw [eq, (take_of_ne s readBuffer slice same).2]
      exact h.passed k

theorem exec_outgoing {route : Conn → Conn} (one : Function.Injective route)
    (hi : ∀ j, Incoming s j) (h : Outgoing route s) {e : RelayEvent Conn} (possible : e.Possible s)
    (allowed : Forwards route s e) (step : e.exec s = .ok s') : Outgoing route s' := by
  cases e with
  | net i e =>
    obtain ⟨c, moved, step⟩ := bind_ok_iff.mp step
    cases step
    have direct : (s.conn i).DirectNotRetried e := by
      cases e with
      | send data out => exact absurd rfl (allowed.2 data out)
      | attach | close | ready | writeHalf => trivial
    have sound := Connection.exec_sound (h.sound hi i) direct possible moved
    have passed := Connection.exec_passed (hi i).read (hi i).write possible allowed.2 moved
    constructor
    · intro j
      by_cases same : j = i
      · subst same
        simp only [Function.update_self]
        exact sound.intact
      · simp only [Function.update_of_ne same]
        exact h.intact j
    · intro k
      by_cases same : route k = i
      · subst same
        simp only [Function.update_self]
        rw [passed, h.passed k]
      · simp only [Function.update_of_ne same]
        exact h.passed k
  | consume i n => exact absurd allowed id
  | forward i j out =>
    obtain ⟨rfl, final⟩ := allowed
    exact forward_outgoing one hi h possible final step

omit [DecidableEq Conn] in
theorem forwards_textSpills {route : Conn → Conn} (s : Relay Conn) (e : RelayEvent Conn)
    (h : Forwards route s e) : TextSpills s e := by
  cases e with
  | net i e => exact h.1
  | consume | forward => trivial

/-! ## Runs -/

theorem ready_ok (c : Connection) (data : List Byte) (callbacks : c.chan.callbacks = true)
    (some : data ≠ []) (h : Delivered c.readBuffer data) :
    ∃ b, Event.exec c (.ready ⟨true, false⟩ (.bytes data)) =
      .ok { c with readBuffer := b, halfway := false } := by
  obtain ⟨b, read, _⟩ := h
  have positive : ¬ (data.length : Int) ≤ 0 := by
    have := List.length_pos_iff.mpr some
    omega
  refine ⟨b, ?_⟩
  rw [Event.exec, callbacks, Bool.and_self, if_pos rfl, Connection.netFdReadHandle, read, ok_bind]
  simp only [if_neg positive]
  rfl

/-- Forwarding returns on an open connection whose buffer has room. -/
theorem forward_ok (hi : ∀ j, Incoming s j) (live : (s.conn j).chan.event = true) {k : Nat}
    (errno : Errno) (hk : k ≤ (s.conn i).readBuffer.unread.length)
    (fits : (s.conn j).writeBuffer.Fits (s.conn i).readBuffer.unread.length) :
    ∃ s', s.forward i j (.accepted k errno) = .ok s' := by
  have hv := (hi i).read
  have length := ByteBuffer.unread_length hv.ordered
  obtain ⟨b, removed, valid, buff, _⟩ :=
    ByteBuffer.remove_ok hv ((s.conn i).readBuffer.writeIndex - (s.conn i).readBuffer.readIndex)
  have consumed : (s.conn i).readBuffer.consume (s.conn i).readBuffer.unread.length =
      .ok (b, ⟨.buffer (s.conn i).readBuffer.readIndex,
        (s.conn i).readBuffer.unread.length⟩) := by
    rw [ByteBuffer.consume, ByteBuffer.unreadBytes_eq hv.ordered, ok_bind, length,
      if_pos (Nat.le_refl _), removed]
    rfl
  have inside : (s.conn i).readBuffer.readIndex + (s.conn i).readBuffer.unread.length ≤
      b.buff.length ∧ b.buff.length < wordSize := by
    have size := hv.size
    have read := hv.read_le
    have write := hv.write_le
    have caps := hv.caps_lt
    rw [buff, length, size]
    omega
  let slice : Slice :=
    ⟨.buffer (s.conn i).readBuffer.readIndex, (s.conn i).readBuffer.unread.length⟩
  let data : Source := ⟨b.buff, _, _, inside.1, inside.2⟩
  have returns : ∃ c, ((s.take i b slice).conn j).send (some data) (.accepted k errno) =
      .ok c := by
    obtain ⟨b', target⟩ := take_writes s i b slice j
    rw [target]
    have room : ({ s.conn j with readBuffer := b' } : Connection).writeBuffer.Fits data.len := fits
    exact Connection.send_ok (c := { s.conn j with readBuffer := b' }) (hi j).write live room hk
  obtain ⟨c, sent⟩ := returns
  refine ⟨{ s.take i b slice with conn := Function.update (s.take i b slice).conn j c }, ?_⟩
  rw [Relay.forward, ByteBuffer.unreadBytes_eq hv.ordered, ok_bind, ← length, consumed, ok_bind]
  simp only [sliceSource, dif_pos inside, pure_eq_ok, ok_bind]
  rw [sent]
  rfl

theorem create_room : 3 ≤ Connection.create.readBuffer.caps -
    Connection.create.readBuffer.writeIndex := by
  decide

/-- Three bytes arrive on a new connection that echoes. -/
theorem three_received : ∃ s : Relay Unit, ((relay Unit).restrict (Forwards id)).Reachable s ∧
    s.received () = [1, 2, 3] ∧ s.used () = [] ∧ (s.conn ()).chan = .create ∧
    (s.conn ()).writeBuffer = .create reservedPrependSize initBufferSize ∧
    (s.conn ()).failed = false := by
  have valid := (create_valid reservedPrependSize initBufferSize (by decide) (by decide)).1
  obtain ⟨b, read⟩ := ready_ok .create [1, 2, 3] rfl nofun (delivered_within valid create_room)
  have possible : Event.Possible .create (.ready ⟨true, false⟩ (.bytes [1, 2, 3])) := by
    refine ⟨rfl, ?_⟩
    rintro data ⟨rfl⟩
    exact ⟨by decide, .inl create_room⟩
  let event : RelayEvent Unit := .net () (.ready ⟨true, false⟩ (.bytes [1, 2, 3]))
  have taken : event.exec .create = .ok { Relay.create with
      conn := fun _ => { Connection.create with readBuffer := b, halfway := false }
      received := fun _ => [1, 2, 3] } := by
    simp only [event, RelayEvent.exec, Relay.create, read]
    rfl
  have allowed : Forwards id (.create : Relay Unit) event := ⟨.inl create_room, nofun⟩
  exact ⟨_, .next (.start rfl) ⟨allowed, possible, taken⟩, rfl, rfl, rfl, rfl, rfl⟩

/-- **The application gets the stream.** In every run whose reads spill nothing but text, whenever
and however much the application takes from the buffer of a connection: what it took so far,
followed by what is still unread, is what the kernel delivered, byte for byte. -/
theorem incoming_stream_intact (h : ((relay Conn).restrict TextSpills).Reachable s) (i : Conn) :
    s.received i = s.used i ++ (s.conn i).readBuffer.unread :=
  (relay_incoming h i).stream

/-- The application takes two of three bytes. -/
theorem incoming_stream_intact_partial : ∃ s : Relay Unit,
    ((relay Unit).restrict TextSpills).Reachable s ∧ s.received () = [1, 2, 3] ∧
    s.used () = [1, 2] ∧ s.received () = s.used () ++ (s.conn ()).readBuffer.unread := by
  obtain ⟨s, reach, received, used, _⟩ := three_received
  have text := System.restrict_mono forwards_textSpills reach
  have hi := relay_incoming text ()
  have stream := hi.stream
  rw [received, used, List.nil_append] at stream
  obtain ⟨b, slice, consumed, _, _, front⟩ := ByteBuffer.consume_ok hi.read 2
  have step : s.consume () 2 = .ok (s.take () b slice) := by
    rw [Relay.consume, consumed]
    rfl
  have moved : (relay Unit).step s (.consume () 2) (s.take () b slice) := ⟨trivial, step⟩
  have after := text.allow moved trivial
  refine ⟨_, after, received, ?_, incoming_stream_intact after ()⟩
  simp only [Relay.take, Function.update_self]
  rw [used, front, ← stream]
  rfl

/-- **What is relayed arrives.** Every connection's input is forwarded to one other connection,
or back to the same one, and no two to the same. Then in every run, whatever the sizes and the
order of reads, writes and forwards: what the kernel took on the way out, what waits there, and
what has not been forwarded yet, is what came in, as long as no `::send` failed for good. -/
theorem relay_intact {route : Conn → Conn} (one : Function.Injective route)
    (h : ((relay Conn).restrict (Forwards route)).Reachable s) (i : Conn)
    (live : (s.conn (route i)).failed = false) :
    s.received i = (s.conn (route i)).taken ++ (s.conn (route i)).writeBuffer.unread ++
      (s.conn i).readBuffer.unread := by
  have incoming {s : Relay Conn} (h : ((relay Conn).restrict (Forwards route)).Reachable s)
      (j : Conn) : Incoming s j := relay_incoming (System.restrict_mono forwards_textSpills h) j
  have outgoing : Outgoing route s := by
    refine System.invariant_with _ (Q := fun s => ∀ j, Incoming s j) ?_ ?_ ?_ h
    · intro s reach j
      exact incoming reach j
    · rintro s rfl
      exact ⟨fun j => Connection.create_sound.intact, fun _ => rfl⟩
    · rintro s e s' hi ho ⟨allowed, possible, step⟩
      exact exec_outgoing one hi ho possible allowed step
  rw [outgoing.intact (route i) live, outgoing.passed i]
  exact (incoming h i).stream

/-- Three bytes are echoed, and the kernel takes two of them at once. -/
theorem relay_intact_echo : ∃ s : Relay Unit,
    ((relay Unit).restrict (Forwards id)).Reachable s ∧ s.received () = [1, 2, 3] ∧
    s.received () = (s.conn ()).taken ++ (s.conn ()).writeBuffer.unread ++
      (s.conn ()).readBuffer.unread := by
  obtain ⟨s, reach, received, used, chan, write, failed⟩ := three_received
  have hi := relay_incoming (System.restrict_mono forwards_textSpills reach)
  have stream := (hi ()).stream
  rw [received, used, List.nil_append] at stream
  have live : (s.conn ()).chan.event = true := by rw [chan]; rfl
  obtain ⟨s', sent⟩ := forward_ok (i := ()) hi live (k := 2) .eagain
    (by rw [← stream]; decide) (by rw [← stream, write]; decide)
  have possible : SendOutcome.Within (s.conn ()).readBuffer.unread.length
      (.accepted 2 .eagain) := by
    rw [← stream]
    exact Nat.le_succ 2
  have moved : (relay Unit).step s (.forward () () (.accepted 2 .eagain)) s' := ⟨possible, sent⟩
  have after := reach.allow moved ⟨rfl, nofun⟩
  obtain ⟨readBuffer, slice, data, c, _, _, _, accepted, rfl⟩ := forward_cases hi sent
  have taken : c.failed = false := by
    obtain ⟨b, target⟩ := take_writes s () readBuffer slice ()
    rw [target] at accepted
    have writes : ({ s.conn () with readBuffer := b } : Connection).writeBuffer.Valid :=
      (hi ()).write
    exact (Connection.send_accepted writes accepted).trans failed
  have echoed : Function.update (s.take () readBuffer slice).conn () c () = c :=
    Function.update_self ..
  exact ⟨_, after, received, relay_intact Function.injective_id after ()
    ((congrArg Connection.failed echoed).trans taken)⟩

end

end Libatp.Net
