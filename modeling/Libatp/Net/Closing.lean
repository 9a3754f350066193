import Libatp.Net.Interest

/-!
# A connection that was closed

Nothing in a connection records that it was closed but the missing `event_` of its
channel, and no operation looks at it. `close_fn_` is called again by every further
close, and whatever enables an event passes a null `event_` to libevent: a `send`
that has bytes left to buffer, and the second block of a `send` whose first block
met a failure and closed the connection.
-/

namespace Libatp.Net
open Base Buffer

/-! ## Buffers follow no null pointer -/

/-- Returns, or stops for another reason than a null pointer. -/
def Safe {α : Type} (x : Checked α) : Prop := Ensures .nullPointer x fun _ => True

theorem require_safe (p : Prop) [Decidable p] : Safe (require p) :=
  (ensures_require (f := .nullPointer) nofun).mono fun _ _ => trivial

theorem load_safe {α : Type} (mem : List α) (off len : Nat) : Safe (load mem off len) :=
  ensures_load nofun

theorem store_safe {α : Type} (mem src : List α) (off : Nat) : Safe (store mem off src) :=
  ensures_store nofun

theorem writableBytes_safe (b : ByteBuffer) : Safe b.writableBytes :=
  (require_safe _).bind fun _ _ => ensures_ok trivial

theorem unreadBytes_safe (b : ByteBuffer) : Safe b.unreadBytes :=
  (require_safe _).bind fun _ _ => ensures_ok trivial

theorem growRealloc_safe (b : ByteBuffer) (length unread : Nat) :
    Safe (b.growRealloc length unread) :=
  (load_safe _ _ _).bind fun _ _ => (store_safe _ _ _).bind fun _ _ => ensures_ok trivial

theorem growCompact_safe (b : ByteBuffer) (length unread : Nat) :
    Safe (b.growCompact length unread) := by
  refine (require_safe _).bind fun _ _ => (load_safe _ _ _).bind fun _ _ =>
    (store_safe _ _ _).bind fun _ _ => ?_
  refine (unreadBytes_safe _).bind fun _ _ => (require_safe _).bind fun _ _ => ?_
  exact (writableBytes_safe _).bind fun _ _ => (require_safe _).bind fun _ _ =>
    ensures_ok trivial

theorem grow_safe (b : ByteBuffer) (length : Nat) : Safe (b.grow length) := by
  refine (unreadBytes_safe b).bind fun unread _ => (writableBytes_safe b).bind fun writable _ => ?_
  split
  · exact growRealloc_safe b length unread
  · exact growCompact_safe b length unread

theorem append_safe (b : ByteBuffer) (data : List Byte) : Safe (b.append data) := by
  refine (writableBytes_safe b).bind fun writable _ => ?_
  have grown : Safe (if writable < data.length then b.grow data.length else pure b) := by
    split
    · exact grow_safe b data.length
    · exact ensures_ok trivial
  exact grown.bind fun _ _ => (store_safe _ _ _).bind fun _ _ => ensures_ok trivial

theorem cString_safe (mem : List Byte) : Safe (cString mem) := by
  unfold cString
  split
  · exact ensures_ok trivial
  · exact ⟨nofun, nofun⟩

theorem readv_safe (b : ByteBuffer) (out : ReadOutcome) : Safe (b.readv out) := by
  refine (writableBytes_safe b).bind fun writable _ => ?_
  cases out with
  | eof errno => exact ensures_ok trivial
  | failed errno => exact ensures_ok trivial
  | bytes data =>
    refine (store_safe _ _ _).bind fun _ _ => (store_safe _ _ _).bind fun _ _ => ?_
    split
    · exact ensures_ok trivial
    · exact (grow_safe _ _).bind fun _ _ => (cString_safe _).bind fun _ _ =>
        (append_safe _ _).bind fun _ _ => ensures_ok trivial

theorem source_safe (data : Source) (delta : Int) (n : Nat) : Safe (data.at delta n) := by
  unfold Source.at
  split
  · exact load_safe _ _ _
  · exact ⟨nofun, nofun⟩

namespace Connection

/-! ## Closed once -/

def Open (c : Connection) : Prop := (∃ events, c.chan = .live events) ∧ c.closes = 0

def Closed (c : Connection) : Prop := c.chan = .shut ∧ c.closes = 1

/-- The buffers are sound, and the connection is open or was closed once. -/
structure Once (c : Connection) : Prop where
  read : c.readBuffer.Valid
  write : c.writeBuffer.Valid
  state : c.Open ∨ c.Closed

/-- No direct `::send` fails for good. Once the connection is closed it is neither
attached nor closed again, and what is sent on it is taken at once, as a whole. -/
def LeftAlone (c : Connection) : Event → Prop
  | .attach | .close => c.chan.event = true
  | .send (some data) out => data.len ≠ 0 →
    if c.chan.event = true then
      c.chan.isWritable = false → c.writeBuffer.unread = [] →
        ∀ errno, out = .failed errno → errno.rwRetriable = true
    else
      c.writeBuffer.unread = [] ∧ ∃ errno, out = .accepted data.len errno
  | _ => True

/-- What a step of a connection that is left alone comes to. -/
def Settles (c : Connection) (x : Checked Connection) : Prop :=
  Ensures .nullPointer x fun c' => c'.Once ∧ (c.Closed → c'.Closed)

variable {c : Connection}

theorem Open.event (h : c.Open) : c.chan.event = true := by
  obtain ⟨⟨events, live⟩, _⟩ := h
  rw [live]
  rfl

theorem Closed.event (h : c.Closed) : c.chan.event = false := by
  rw [h.1]
  rfl

theorem Once.open_of_event (hc : c.Once) (event : c.chan.event = true) : c.Open :=
  hc.state.resolve_right fun closed => by
    rw [closed.event] at event
    cases event

theorem Open.not_closed (h : c.Open) : ¬ c.Closed := fun closed => by
  have event := h.event
  rw [closed.event] at event
  cases event

/-- From an open connection any sound one may follow. -/
theorem settles_ok {d : Connection} (from_ : c.Open) (hd : d.Once) : c.Settles (.ok d) :=
  ensures_ok ⟨hd, fun closed => absurd closed from_.not_closed⟩

/-- Closing an open connection. -/
theorem settles_close (read : c.readBuffer.Valid) (write : c.writeBuffer.Valid) (h : c.Open)
    {d : Connection} (from_ : d.Open) : d.Settles c.netFdCloseHandle := by
  obtain ⟨⟨events, live⟩, none⟩ := h
  rw [netFdCloseHandle_eq (.inr live)]
  exact settles_ok from_ ⟨read, write, .inr ⟨rfl, congrArg (· + 1) none⟩⟩

theorem settles_attach (hc : c.Once) (h : c.Open) : c.Settles c.attachToEventLoop := by
  obtain ⟨⟨events, live⟩, none⟩ := id h
  rw [attachToEventLoop, live, Channel.live_enableEvents]
  exact settles_ok h ⟨hc.read, hc.write, .inl ⟨⟨_, rfl⟩, none⟩⟩

/-- Buffering on an open connection. -/
theorem settles_sendRest {d : Connection} (hd : d.Once) (h : d.Open) (from_ : c.Open)
    (data : Source) (nwrite : Int) (remaining : Nat) :
    c.Settles (d.sendRest data nwrite remaining) := by
  unfold sendRest
  split
  · refine (source_safe data nwrite remaining).bind fun rest _ => ?_
    refine ((append_safe d.writeBuffer rest).strengthen fun _ =>
      ByteBuffer.append_spec hd.write).bind fun writeBuffer appended => ?_
    obtain ⟨⟨events, live⟩, none⟩ := h
    rw [live, Channel.live_enableEvents]
    exact settles_ok from_ ⟨hd.read, appended.1, .inl ⟨⟨_, rfl⟩, none⟩⟩
  · exact settles_ok from_ hd

/-- A direct `::send` that does not fail for good leaves an open connection open. -/
theorem sendDirect_open {data : Source} {out : SendOutcome} (hc : c.Once) (h : c.Open)
    (final : ∀ errno, out = .failed errno → errno.rwRetriable = true) :
    Ensures .nullPointer (c.sendDirect data out) fun r => r.1.Once ∧ r.1.Open := by
  cases out with
  | accepted k errno =>
    refine ensures_ok ?_
    dsimp only
    split
    · exact ⟨⟨hc.read, hc.write, hc.state⟩, h⟩
    · exact ⟨⟨hc.read, hc.write, hc.state⟩, h⟩
  | failed errno =>
    rw [sendDirect, if_pos (final errno rfl)]
    exact ensures_ok ⟨hc, h⟩

theorem settles_send_open {data : Source} {out : SendOutcome} (hc : c.Once) (h : c.Open)
    (final : c.chan.isWritable = false → c.writeBuffer.unread = [] →
      ∀ errno, out = .failed errno → errno.rwRetriable = true) :
    c.Settles (c.sendTask data out) := by
  rw [sendTask, isDirect_eq hc.write, ok_bind]
  split
  · rename_i direct
    simp only [Bool.and_eq_true, Bool.not_eq_true', List.isEmpty_iff] at direct
    refine (sendDirect_open hc h (final direct.1 direct.2)).bind fun r hr => ?_
    exact settles_sendRest hr.1 hr.2 h data _ _
  · exact settles_sendRest hc h h data _ _

/-- On a closed connection, bytes that the kernel takes as a whole leave nothing to
buffer. -/
theorem settles_send_closed {data : Source} (hc : c.Once) (h : c.Closed)
    (empty : c.writeBuffer.unread = []) (errno : Errno) :
    c.Settles (c.sendTask data (.accepted data.len errno)) := by
  have word : data.len < wordSize := by have := data.within; have := data.size; omega
  have none : wsub data.len data.len = 0 := by rw [wsub_of_le (Nat.le_refl _) word, Nat.sub_self]
  have idle : c.chan.isWritable = false := by rw [h.1]; rfl
  rw [sendTask, isDirect_eq hc.write, ok_bind, idle, empty]
  simp only [Bool.not_false, List.isEmpty_nil, Bool.and_self, if_true, sendDirect, none,
    pure_eq_ok, ok_bind, sendRest, Nat.lt_irrefl, if_false]
  exact ensures_ok ⟨⟨hc.read, hc.write, hc.state⟩, fun _ => h⟩

theorem settles_send {data : Option Source} {out : SendOutcome} (hc : c.Once)
    (alone : c.LeftAlone (.send data out)) : c.Settles (c.send data out) := by
  cases data with
  | none => exact ensures_ok ⟨hc, id⟩
  | some data =>
    have passed : (c.pass data).Once := ⟨hc.read, hc.write, hc.state⟩
    unfold send
    dsimp only
    split
    · exact ensures_ok ⟨passed, id⟩
    · rename_i len
      have condition := alone len
      split at condition
      · rename_i event
        exact settles_send_open (c := c.pass data) passed (hc.open_of_event event) condition
      · rename_i event
        have closed := hc.state.resolve_left fun h => event h.event
        obtain ⟨empty, errno, rfl⟩ := condition
        exact settles_send_closed (c := c.pass data) passed closed empty errno

theorem settles_read {out : ReadOutcome} (hc : c.Once) (h : c.Open)
    (offered : ∀ data, out = .bytes data → ReadOffered c.readBuffer data) :
    c.Settles (c.netFdReadHandle out) := by
  refine ((readv_safe c.readBuffer out).strengthen fun r received =>
    readv_valid hc.read offered received).bind fun r valid => ?_
  dsimp only
  split
  · exact settles_close (c := { c with readBuffer := r.1 }) valid hc.write h h
  · exact settles_ok h ⟨valid, hc.write, hc.state⟩

theorem settles_drained {d : Connection} (hd : d.Once) (h : d.Open) (from_ : c.Open) :
    c.Settles d.drained := by
  refine (unreadBytes_safe _).bind fun unread _ => ?_
  split
  · obtain ⟨⟨events, live⟩, none⟩ := h
    rw [live, Channel.live_disableEvents]
    exact settles_ok from_ ⟨hd.read, hd.write, .inl ⟨⟨_, rfl⟩, none⟩⟩
  · exact settles_ok from_ hd

theorem settles_write {out : SendOutcome} (hc : c.Once) (h : c.Open) :
    c.Settles (c.netFdWriteHandle out) := by
  refine (require_safe _).bind fun _ _ => (unreadBytes_safe _).bind fun _ _ => ?_
  cases out with
  | accepted k errno =>
    dsimp only
    split
    · obtain ⟨writeBuffer, removed, valid, _⟩ := ByteBuffer.remove_ok hc.write k
      rw [removed]
      exact settles_drained (d := { c with writeBuffer := writeBuffer, taken := _ })
        ⟨hc.read, valid, hc.state⟩ h h
    · split
      · exact ensures_ok ⟨hc, id⟩
      · exact settles_close hc.read hc.write h h
  | failed errno =>
    dsimp only
    split
    · exact ensures_ok ⟨hc, id⟩
    · exact settles_close (c := { c with failed := true }) hc.read hc.write h h

/-- A handler runs on an open connection only, since closing unsets it. -/
theorem Once.open_of_callbacks (hc : c.Once) (callbacks : c.chan.callbacks = true) : c.Open :=
  hc.state.resolve_right fun closed => by
    rw [closed.1] at callbacks
    cases callbacks

theorem settles_exec {e : Event} (hc : c.Once) (possible : e.Possible c) (alone : c.LeftAlone e) :
    c.Settles (e.exec c) := by
  have halfway {half : Bool} {x : Checked Connection} (h : c.Settles x) :
      c.Settles (do let d ← x; return { d with halfway := half }) :=
    h.bind fun d hd => ensures_ok ⟨⟨hd.1.read, hd.1.write, hd.1.state⟩, hd.2⟩
  cases e with
  | attach => exact settles_attach hc (hc.open_of_event alone)
  | send data out => exact settles_send hc alone
  | close =>
    have h := hc.open_of_event alone
    exact settles_close hc.read hc.write h h
  | ready which out =>
    refine halfway ?_
    split
    · rename_i handler
      rw [Bool.and_eq_true] at handler
      exact settles_read hc (hc.open_of_callbacks handler.2) possible.2
    · exact ensures_ok ⟨hc, id⟩
  | writeHalf out =>
    refine halfway ?_
    split
    · rename_i handler
      exact settles_write hc (hc.open_of_callbacks handler)
    · exact ensures_ok ⟨hc, id⟩

/-- Bytes to buffer on a closed connection are buffered, and then libevent is passed
a null `event_`. -/
theorem sendRest_shut (write : c.writeBuffer.Valid) (shut : c.chan = .shut) {data : Source}
    {nwrite : Int} {remaining : Nat} (more : 0 < remaining) {rest : List Byte}
    (loaded : data.at nwrite remaining = .ok rest) (fits : c.writeBuffer.Fits rest.length) :
    c.sendRest data nwrite remaining = .error .nullPointer := by
  obtain ⟨writeBuffer, appended⟩ := ByteBuffer.append_ok write rest fits
  rw [sendRest, if_pos more, loaded, ok_bind, appended, ok_bind, shut,
    Channel.shut_enableEvents (.inr rfl)]
  rfl

/-- A direct `::send` that fails for good closes the connection and goes on to buffer
what was not sent. -/
theorem sendTask_fails {events : Interest} (write : c.writeBuffer.Valid)
    (live : c.chan = .live events) (idle : c.chan.isWritable = false)
    (empty : c.writeBuffer.unread = []) {data : Source} (some : data.len ≠ 0) {errno : Errno}
    (final : errno.rwRetriable = false) {rest : List Byte}
    (loaded : data.at (-1) data.len = .ok rest) (fits : c.writeBuffer.Fits rest.length) :
    c.sendTask data (.failed errno) = .error .nullPointer := by
  have closed := netFdCloseHandle_eq (.inr live)
  rw [sendTask, isDirect_eq write, idle, empty, ok_bind]
  simp only [Bool.not_false, List.isEmpty_nil, Bool.and_self, if_true, sendDirect, final,
    Bool.false_eq_true, if_false, netFdErrorHandle, closed, ok_bind, pure_eq_ok]
  exact sendRest_shut (c := { c with chan := .shut, closes := c.closes + 1, failed := true }) write
    rfl (Nat.pos_of_ne_zero some) loaded fits

end Connection

/-! ## Whole runs -/

theorem connection_once {c : Connection}
    (h : (connection.restrict Connection.LeftAlone).Reachable c) : c.Once := by
  refine System.invariant _ ?_ ?_ h
  · rintro _ rfl
    obtain ⟨valid, _⟩ := create_valid reservedPrependSize initBufferSize (by decide) (by decide)
    exact ⟨valid, valid, .inl ⟨⟨.none, rfl⟩, rfl⟩⟩
  · rintro c e c' hc ⟨alone, possible, step⟩
    exact ((Connection.settles_exec hc possible alone).returns c' step).1

/-- **Closed stays closed**, in every run that leaves a closed connection alone and
in which no direct `::send` fails for good: `close_fn_` is called once, no event is
enabled afterwards, and libevent is never passed a null `event_`. -/
theorem closed_stays_closed {c : Connection}
    (h : (connection.restrict Connection.LeftAlone).Reachable c) :
    (c.closes = 0 ∧ c.chan.event = true ∨ c.closes = 1 ∧ c.chan.event = false ∧
      c.chan.events = .none ∧ c.chan.attached = false ∧ c.chan.registered = none) ∧
    ∀ e, e.Possible c → c.LeftAlone e → e.exec c ≠ .error .nullPointer ∧
      ∀ c', e.exec c = .ok c' → 0 < c.closes → c'.chan = c.chan ∧ c'.closes = 1 := by
  have hc := connection_once h
  constructor
  · rcases hc.state with live | shut
    · exact .inl ⟨live.2, live.event⟩
    · exact .inr ⟨shut.2, shut.event, by rw [shut.1]; exact ⟨rfl, rfl, rfl⟩⟩
  · intro e possible alone
    have settles := Connection.settles_exec hc possible alone
    refine ⟨settles.avoids, fun c' step closed => ?_⟩
    have shut := hc.state.resolve_left fun live => Nat.ne_of_gt closed live.2
    have after := (settles.returns c' step).2 shut
    exact ⟨after.1.trans shut.1.symm, after.2⟩

/-- The peer ends the stream of an attached connection. An event that libevent reports
afterwards changes nothing. -/
theorem closed_stays_closed_unused : ∃ c d,
    (connection.restrict Connection.LeftAlone).Reachable c ∧ c.closes = 1 ∧
      c.chan.events = .none ∧ c.chan.registered = none ∧
      connection.step c (.ready ⟨true, true⟩ (.failed (.other 104))) d ∧
      d.chan = c.chan ∧ d.closes = 1 := by
  let M := connection.restrict Connection.LeftAlone
  have start : M.Reachable .create := .start rfl
  have attached : M.Reachable attachedOnly :=
    start.next (show M.step _ .attach _ from ⟨rfl, trivial, rfl⟩)
  obtain ⟨c, ended, seen⟩ := ok_of_any
    (x := Event.exec attachedOnly (.ready ⟨true, false⟩ (.eof .eagain)))
    (p := fun c => 0 < c.closes ∧ c.halfway = false ∧
      (Event.exec c (.ready ⟨true, true⟩ (.failed (.other 104)))).toOption.any fun _ => true)
    (by decide +kernel)
  obtain ⟨closed, free, rest⟩ := of_decide_eq_true seen
  obtain ⟨d, step, _⟩ := ok_of_any rest
  have run : M.Reachable c := attached.next (show M.step _ (.ready ⟨true, false⟩ (.eof .eagain)) c
    from ⟨trivial, ⟨rfl, nofun⟩, ended⟩)
  obtain ⟨state, after⟩ := closed_stays_closed run
  have possible : Event.Possible c (.ready ⟨true, true⟩ (.failed (.other 104))) := ⟨free, nofun⟩
  obtain ⟨once, _, none, _, unregistered⟩ := state.resolve_left fun h => closed.ne' h.1
  have kept := (after _ possible trivial).2 d step closed
  exact ⟨c, d, run, once, none, unregistered, ⟨possible, step⟩, kept⟩

/-- Two calls of `close()` call `close_fn_` twice; and a `send` that fails with
`ECONNRESET` closes the connection and then enables an event on its channel. -/
theorem closed_twice :
    (∃ c, connection.Reachable c ∧ c.closes = 2) ∧
    ∃ (c : Connection) (e : Event), connection.Reachable c ∧ e.Possible c ∧
      e.exec c = .error .nullPointer := by
  have start : connection.Reachable .create := .start rfl
  constructor
  · have once : connection.step .create .close
        { Connection.create with chan := .shut, closes := 1 } := ⟨trivial, rfl⟩
    have twice : connection.step { Connection.create with chan := .shut, closes := 1 } .close
        { Connection.create with chan := .shut, closes := 2 } := ⟨trivial, rfl⟩
    exact ⟨_, (start.next once).next twice, rfl⟩
  · obtain ⟨valid, empty⟩ := create_valid reservedPrependSize initBufferSize (by decide) (by decide)
    refine ⟨.create, .send (some twoBytes) (.failed (.other 104)), start, trivial, ?_⟩
    exact Connection.sendTask_fails (c := Connection.create.pass twoBytes) valid
      (show (Connection.create.pass twoBytes).chan = .live .none from rfl) rfl empty
      (show twoBytes.len ≠ 0 by decide)
      (show (Errno.other 104).rwRetriable = false from rfl)
      (show twoBytes.at (-1) twoBytes.len = .ok [9, 1] from rfl)
      (show Connection.create.writeBuffer.Fits 2 by decide)

end Libatp.Net
