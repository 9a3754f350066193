import Libatp.Net.Connection

/-!
# The outgoing byte stream of a connection

Bytes travel on two paths: straight to the kernel, or through the write buffer
and a later write-ready event. `Intact` says that what the kernel took, followed
by what waits in the buffer, is everything passed to `send`, in order.

It survives every step but one. When a direct `::send` fails with `EAGAIN` or
`EINTR`, `nwrite` is -1, and the bytes from `data - 1` on are buffered in the
place of those from `data` on.
-/

namespace Libatp.Net
open Base Buffer

namespace Channel

theorem detachFromEventLoop_open {c : Channel} (h : c.event = true) :
    ∃ c', c.detachFromEventLoop = .ok c' ∧ c'.event = true := by
  unfold detachFromEventLoop
  by_cases attached : c.attached = true
  · refine ⟨{ c with attached := false, registered := Option.none }, ?_, h⟩
    rw [if_pos attached, if_pos h]
  · exact ⟨c, if_neg attached, h⟩

theorem attachToEventLoop_open {c : Channel} (h : c.event = true) :
    ∃ c', c.attachToEventLoop = .ok c' ∧ c'.event = true := by
  obtain ⟨d, detached, event⟩ := detachFromEventLoop_open h
  unfold attachToEventLoop
  split
  · exact ⟨c, rfl, h⟩
  · refine ⟨{ d with attached := true, registered := some d.events }, ?_, event⟩
    rw [detached, ok_bind, if_pos event]
    rfl

/-- While `event_` is there, changing the mask cannot fail. -/
theorem setEvents_open {c : Channel} (h : c.event = true) (events : Interest) :
    ∃ c', c.setEvents events = .ok c' ∧ c'.event = true := by
  unfold setEvents updateEvents
  split
  · split
    · exact detachFromEventLoop_open h
    · exact attachToEventLoop_open h
  · exact ⟨c, rfl, h⟩

end Channel

namespace Connection

/-! ## What each function leaves alone -/

theorem netFdCloseHandle_frame {c c' : Connection} (h : c.netFdCloseHandle = .ok c') :
    ∃ chan, c' = { c with chan := chan, closes := c.closes + 1 } := by
  obtain ⟨chan, _, rest⟩ := bind_ok_iff.mp h
  obtain ⟨chan', _, eq⟩ := bind_ok_iff.mp rest
  cases eq
  exact ⟨chan', rfl⟩

theorem drained_frame {c c' : Connection} (h : c.drained = .ok c') :
    ∃ chan completions, c' = { c with chan := chan, completions := completions } := by
  obtain ⟨unread, _, rest⟩ := bind_ok_iff.mp h
  split at rest
  · obtain ⟨chan, _, eq⟩ := bind_ok_iff.mp rest
    cases eq
    exact ⟨chan, _, rfl⟩
  · cases rest
    exact ⟨c.chan, c.completions, rfl⟩

/-! ## The invariant -/

/-- What the kernel has, then what waits, is what was passed. -/
def Intact (c : Connection) : Prop := c.taken ++ c.writeBuffer.unread = c.passed

structure Sound (c : Connection) : Prop where
  read : c.readBuffer.Valid
  write : c.writeBuffer.Valid
  intact : c.failed = false → c.Intact

theorem create_sound : Sound .create := by
  obtain ⟨valid, empty⟩ := create_valid reservedPrependSize initBufferSize (by decide) (by decide)
  exact ⟨valid, valid, fun _ => empty⟩

theorem isDirect_eq {c : Connection} (hw : c.writeBuffer.Valid) :
    c.isDirect = .ok (!c.chan.isWritable && c.writeBuffer.unread.isEmpty) := by
  have hl := ByteBuffer.unread_length hw.ordered
  have empty : c.writeBuffer.unread.isEmpty = decide (c.writeBuffer.writeIndex -
      c.writeBuffer.readIndex = 0) := by
    rw [← hl, Bool.eq_iff_iff, List.isEmpty_iff, decide_eq_true_iff, List.length_eq_zero_iff]
  unfold isDirect
  cases c.chan.isWritable <;> simp [ByteBuffer.unreadBytes_eq hw.ordered, empty]

/-- The bytes of the source from the `k`-th on. -/
theorem source_at {data : Source} {k : Nat} (hk : k ≤ data.len) :
    data.at k (data.len - k) = .ok (data.bytes.drop k) := by
  have := data.within
  rw [Source.at, if_pos (by omega), show ((data.off : Int) + k).toNat = data.off + k by omega,
    load_ok (by omega), Source.bytes, window_drop]

theorem source_length (data : Source) : data.bytes.length = data.len := by
  have := data.within
  rw [Source.bytes, window_length]
  omega

theorem sendRest_frame {c c' : Connection} (hw : c.writeBuffer.Valid) {data : Source}
    {nwrite : Int} {remaining : Nat} (h : c.sendRest data nwrite remaining = .ok c') :
    ∃ chan writeBuffer, c' = { c with chan := chan, writeBuffer := writeBuffer } ∧
      writeBuffer.Valid ∧ (remaining = 0 → writeBuffer = c.writeBuffer) ∧
      ∀ rest, 0 < remaining → data.at nwrite remaining = .ok rest →
        writeBuffer.unread = c.writeBuffer.unread ++ rest := by
  unfold sendRest at h
  split at h
  · obtain ⟨rest, loaded, tail⟩ := bind_ok_iff.mp h
    obtain ⟨writeBuffer, appended, tail⟩ := bind_ok_iff.mp tail
    obtain ⟨chan, _, eq⟩ := bind_ok_iff.mp tail
    obtain ⟨valid, same⟩ := ByteBuffer.append_spec hw appended
    cases eq
    refine ⟨chan, writeBuffer, rfl, valid, by omega, fun rest' _ again => ?_⟩
    rw [loaded] at again
    cases again
    exact same
  · cases h
    exact ⟨c.chan, c.writeBuffer, rfl, hw, fun _ => rfl, by omega⟩

/-- After `k` bytes were taken directly, the others are buffered. -/
theorem sendRest_spec {c c' : Connection} (hw : c.writeBuffer.Valid) {data : Source} {k : Nat}
    (hk : k ≤ data.len) (h : c.sendRest data k (data.len - k) = .ok c') :
    ∃ chan writeBuffer, c' = { c with chan := chan, writeBuffer := writeBuffer } ∧
      writeBuffer.Valid ∧ writeBuffer.unread = c.writeBuffer.unread ++ data.bytes.drop k := by
  obtain ⟨chan, writeBuffer, eq, valid, none, some⟩ := sendRest_frame hw h
  refine ⟨chan, writeBuffer, eq, valid, ?_⟩
  by_cases left : 0 < data.len - k
  · exact some _ left (source_at hk)
  · rw [none (by omega), List.drop_of_length_le (by rw [source_length]; omega), List.append_nil]

/-! ## One step -/

/-- A direct `::send` that fails does not fail with `EAGAIN` or `EINTR`. -/
def DirectNotRetried (c : Connection) : Event → Prop
  | .send (some data) (.failed errno) =>
    data.len ≠ 0 → c.chan.isWritable = false → c.writeBuffer.unread = [] →
      errno.rwRetriable = false
  | _ => True

/-- A direct `::send` under that condition either closed the connection or took
the first `k` bytes. -/
theorem sendDirect_spec {c d : Connection} {data : Source} {out : SendOutcome} {nwrite : Int}
    {remaining : Nat} (within : out.Within data.len)
    (final : ∀ errno, out = .failed errno → errno.rwRetriable = false)
    (h : c.sendDirect data out = .ok (d, nwrite, remaining)) :
    d.readBuffer = c.readBuffer ∧ d.writeBuffer = c.writeBuffer ∧ d.passed = c.passed ∧
      (d.failed = true ∨ d.failed = c.failed ∧ ∃ k : Nat, k ≤ data.len ∧ nwrite = k ∧
        remaining = data.len - k ∧ d.taken = c.taken ++ data.bytes.take k) := by
  cases out with
  | accepted k errno =>
    have word : data.len < wordSize := by have := data.within; have := data.size; omega
    have left : wsub data.len k = data.len - k := wsub_of_le within word
    simp only [sendDirect, left, pure_eq_ok, Except.ok.injEq, Prod.mk.injEq] at h
    obtain ⟨rfl, rfl, rfl⟩ := h
    split
    · exact ⟨rfl, rfl, rfl, .inr ⟨rfl, k, within, rfl, rfl, rfl⟩⟩
    · exact ⟨rfl, rfl, rfl, .inr ⟨rfl, k, within, rfl, rfl, rfl⟩⟩
  | failed errno =>
    rw [sendDirect, final errno rfl] at h
    obtain ⟨closed, handled, eq⟩ := bind_ok_iff.mp h
    obtain ⟨chan, rfl⟩ := netFdCloseHandle_frame handled
    cases eq
    exact ⟨rfl, rfl, rfl, .inl rfl⟩

/-- The task appends its bytes to the stream: those the kernel takes at once
follow what it took before, since nothing waits in the buffer then. -/
theorem sendTask_sound {c c' : Connection} {data : Source} {out : SendOutcome}
    (read : c.readBuffer.Valid) (write : c.writeBuffer.Valid)
    (before : c.failed = false → c.taken ++ c.writeBuffer.unread ++ data.bytes = c.passed)
    (within : out.Within data.len)
    (final : c.chan.isWritable = false → c.writeBuffer.unread = [] →
      ∀ errno, out = .failed errno → errno.rwRetriable = false)
    (h : c.sendTask data out = .ok c') : c'.Sound := by
  simp only [sendTask, isDirect_eq write, ok_bind] at h
  obtain ⟨⟨d, nwrite, remaining⟩, first, rest⟩ := bind_ok_iff.mp h
  simp only at rest
  split at first
  · rename_i direct
    simp only [Bool.and_eq_true, Bool.not_eq_true', List.isEmpty_iff] at direct
    obtain ⟨readSame, writeSame, passed, outcome⟩ :=
      sendDirect_spec within (final direct.1 direct.2) first
    rw [← writeSame] at write
    rcases outcome with failed | ⟨live, k, hk, rfl, rfl, taken⟩
    · obtain ⟨chan, writeBuffer, rfl, valid, _⟩ := sendRest_frame write rest
      exact ⟨readSame ▸ read, valid, fun live => by rw [failed] at live; cases live⟩
    · obtain ⟨chan, writeBuffer, rfl, valid, same⟩ := sendRest_spec write hk rest
      refine ⟨readSame ▸ read, valid, fun alive => ?_⟩
      have eq := before (live ▸ alive)
      rw [direct.2, List.append_nil] at eq
      rw [Intact, same, writeSame, direct.2, List.nil_append, taken, passed, List.append_assoc,
        List.take_append_drop, eq]
  · cases first
    obtain ⟨chan, writeBuffer, rfl, valid, same⟩ :=
      sendRest_spec (k := 0) write (Nat.zero_le _) rest
    refine ⟨read, valid, fun alive => ?_⟩
    rw [Intact, same, List.drop_zero, ← List.append_assoc]
    exact before alive

theorem send_sound {c c' : Connection} {data : Option Source} {out : SendOutcome} (hc : c.Sound)
    (allowed : c.DirectNotRetried (.send data out))
    (possible : Event.Possible c (.send data out)) (h : c.send data out = .ok c') : c'.Sound := by
  cases data with
  | none => cases h; exact hc
  | some data =>
    simp only [send] at h
    split at h
    · cases h
      refine ⟨hc.read, hc.write, fun live => ?_⟩
      have empty : data.bytes = [] :=
        List.eq_nil_of_length_eq_zero (by rw [source_length]; assumption)
      rw [Intact, pass, empty, List.append_nil]
      exact hc.intact live
    · rename_i len
      refine sendTask_sound (c := c.pass data) hc.read hc.write (fun live => ?_) possible ?_ h
      · rw [pass, ← hc.intact live]
      · intro idle empty errno eq
        subst eq
        exact allowed len idle empty

theorem netFdReadHandle_sound {c c' : Connection} {out : ReadOutcome} (hc : c.Sound)
    (offered : ∀ data, out = .bytes data → ReadOffered c.readBuffer data)
    (h : c.netFdReadHandle out = .ok c') : c'.Sound := by
  obtain ⟨⟨readBuffer, n⟩, received, rest⟩ := bind_ok_iff.mp h
  have valid := readv_valid hc.read offered received
  simp only at rest
  split at rest
  · obtain ⟨chan, rfl⟩ := netFdCloseHandle_frame rest
    exact ⟨valid, hc.write, hc.intact⟩
  · cases rest
    exact ⟨valid, hc.write, hc.intact⟩

/-- Bytes move from the front of the buffer to the end of what was taken. -/
theorem netFdWriteHandle_sound {c c' : Connection} {out : SendOutcome} (hc : c.Sound)
    (h : c.netFdWriteHandle out = .ok c') : c'.Sound := by
  obtain ⟨_, _, rest⟩ := bind_ok_iff.mp h
  obtain ⟨_, _, rest⟩ := bind_ok_iff.mp rest
  have closed {d : Connection}
      (frame : ∃ chan, c' = { d with chan := chan, closes := d.closes + 1 })
      (hd : d.Sound) : c'.Sound := by
    obtain ⟨chan, rfl⟩ := frame
    exact ⟨hd.read, hd.write, hd.intact⟩
  cases out with
  | accepted k errno =>
    simp only at rest
    split at rest
    · obtain ⟨writeBuffer, removed, rest⟩ := bind_ok_iff.mp rest
      obtain ⟨valid, dropped⟩ := ByteBuffer.remove_spec hc.write removed
      obtain ⟨chan, completions, rfl⟩ := drained_frame rest
      refine ⟨hc.read, valid, fun live => ?_⟩
      rw [Intact, dropped, List.append_assoc, List.take_append_drop]
      exact hc.intact live
    · split at rest
      · cases rest; exact hc
      · exact closed (netFdCloseHandle_frame rest) hc
  | failed errno =>
    simp only at rest
    split at rest
    · cases rest; exact hc
    · exact closed (netFdCloseHandle_frame rest) ⟨hc.read, hc.write, nofun⟩

theorem exec_sound {c c' : Connection} {e : Event} (hc : c.Sound) (allowed : c.DirectNotRetried e)
    (possible : e.Possible c) (h : e.exec c = .ok c') : c'.Sound := by
  cases e with
  | attach =>
    obtain ⟨chan, _, eq⟩ := bind_ok_iff.mp h
    cases eq
    exact ⟨hc.read, hc.write, hc.intact⟩
  | send data out => exact send_sound hc allowed possible h
  | close =>
    obtain ⟨chan, rfl⟩ := netFdCloseHandle_frame h
    exact ⟨hc.read, hc.write, hc.intact⟩
  | ready which out =>
    obtain ⟨d, handled, eq⟩ := bind_ok_iff.mp h
    have hd : d.Sound := by
      split at handled
      · exact netFdReadHandle_sound hc possible.2 handled
      · cases handled; exact hc
    cases eq
    exact ⟨hd.read, hd.write, hd.intact⟩
  | writeHalf out =>
    obtain ⟨d, handled, eq⟩ := bind_ok_iff.mp h
    have hd : d.Sound := by
      split at handled
      · exact netFdWriteHandle_sound hc handled
      · cases handled; exact hc
    cases eq
    exact ⟨hd.read, hd.write, hd.intact⟩

/-! ## Sending on an open connection returns -/

theorem sendRest_ok {c : Connection} (hw : c.writeBuffer.Valid) (live : c.chan.event = true)
    {data : Source} (fits : c.writeBuffer.Fits data.len) {nwrite : Int} {remaining : Nat}
    (le : remaining ≤ data.len) {rest : List Byte} (loaded : data.at nwrite remaining = .ok rest)
    (size : rest.length = remaining) : ∃ c', c.sendRest data nwrite remaining = .ok c' := by
  unfold sendRest
  split
  · obtain ⟨writeBuffer, appended⟩ := ByteBuffer.append_ok hw rest (size ▸ fits.mono le)
    obtain ⟨chan, enabled, _⟩ := Channel.setEvents_open live
      ⟨c.chan.events.read || false, c.chan.events.write || true⟩
    rw [loaded, ok_bind, appended, ok_bind, Channel.enableEvents, enabled]
    exact ⟨_, rfl⟩
  · exact ⟨c, rfl⟩

theorem sendTask_ok {c : Connection} (hw : c.writeBuffer.Valid) (live : c.chan.event = true)
    {data : Source} (fits : c.writeBuffer.Fits data.len) {k : Nat} {errno : Errno}
    (hk : k ≤ data.len) : ∃ c', c.sendTask data (.accepted k errno) = .ok c' := by
  have word : data.len < wordSize := by have := data.within; have := data.size; omega
  have tail {d : Connection} (same : d.writeBuffer = c.writeBuffer) (chan : d.chan = c.chan)
      {j : Nat} (hj : j ≤ data.len) : ∃ c', d.sendRest data j (data.len - j) = .ok c' :=
    sendRest_ok (same ▸ hw) (chan ▸ live) (same ▸ fits) (Nat.sub_le _ _) (source_at hj)
      (by rw [List.length_drop, source_length])
  rw [sendTask, isDirect_eq hw, ok_bind]
  split
  · simp only [sendDirect, wsub_of_le hk word, pure_eq_ok, ok_bind]
    exact tail (by split <;> rfl) (by split <;> rfl) hk
  · exact tail rfl rfl (Nat.zero_le data.len)

theorem send_ok {c : Connection} (hw : c.writeBuffer.Valid) (live : c.chan.event = true)
    {data : Source} (fits : c.writeBuffer.Fits data.len) {k : Nat} {errno : Errno}
    (hk : k ≤ data.len) : ∃ c', c.send (some data) (.accepted k errno) = .ok c' := by
  unfold send
  by_cases none : data.len = 0
  · exact ⟨c.pass data, if_pos none⟩
  · obtain ⟨c', returned⟩ := sendTask_ok (c := c.pass data) hw live fits hk
    exact ⟨c', (if_neg none).trans returned⟩

/-- **The slip.** When a direct `::send` fails and may be retried, the bytes one
place before the caller's are buffered. -/
theorem sendTask_retry {c : Connection} (hw : c.writeBuffer.Valid) (live : c.chan.event = true)
    (idle : c.chan.isWritable = false) (empty : c.writeBuffer.unread = []) {data : Source}
    (some : data.len ≠ 0) (inside : 1 ≤ data.off) (fits : c.writeBuffer.Fits data.len)
    {errno : Errno} (retry : errno.rwRetriable = true) :
    ∃ chan writeBuffer, c.sendTask data (.failed errno) =
        .ok { c with chan := chan, writeBuffer := writeBuffer } ∧
      writeBuffer.unread = window data.mem (data.off - 1) data.len := by
  have within := data.within
  have shifted : data.at (-1) data.len = .ok (window data.mem (data.off - 1) data.len) := by
    rw [Source.at, if_pos (by omega), show ((data.off : Int) + -1).toNat = data.off - 1 by omega,
      load_ok (by omega)]
  have size : (window data.mem (data.off - 1) data.len).length = data.len := by
    rw [window_length]
    omega
  obtain ⟨c', returned⟩ := sendRest_ok hw live fits (Nat.le_refl _) shifted size
  obtain ⟨chan, writeBuffer, rfl, _, _, appended⟩ := sendRest_frame hw returned
  refine ⟨chan, writeBuffer, ?_, ?_⟩
  · rw [sendTask, isDirect_eq hw, idle, empty, ok_bind]
    simp only [Bool.not_false, List.isEmpty_nil, Bool.and_self, if_true, sendDirect, retry,
      pure_eq_ok, ok_bind]
    exact returned
  · rw [appended _ (Nat.pos_of_ne_zero some) shifted, empty, List.nil_append]

end Connection

/-! ## Whole runs -/

theorem connection_sound {c : Connection}
    (h : (connection.restrict Connection.DirectNotRetried).Reachable c) : c.Sound := by
  refine System.invariant _ ?_ ?_ h
  · rintro c rfl
    exact Connection.create_sound
  · rintro c e c' hc ⟨allowed, possible, step⟩
    exact Connection.exec_sound hc allowed possible step

/-- **The outgoing stream is intact** in every run in which no direct `::send`
is asked to be retried: nothing is lost, duplicated, reordered or altered. The
sends of such a run return, as long as the connection is open and the sizes of
its buffer stay words. -/
theorem outgoing_stream_intact {c : Connection}
    (h : (connection.restrict Connection.DirectNotRetried).Reachable c) :
    (c.failed = false → c.taken ++ c.writeBuffer.unread = c.passed) ∧
      ∀ (data : Source) (k : Nat) (errno : Errno), k ≤ data.len → c.chan.event = true →
        c.writeBuffer.Fits data.len → ∃ c', c.send (some data) (.accepted k errno) = .ok c' := by
  have hc := connection_sound h
  exact ⟨hc.intact, fun data k errno hk live fits => Connection.send_ok hc.write live fits hk⟩

def twoBytes : Source := ⟨[9, 1, 2], 1, 2, by decide, by decide⟩

theorem twoBytes_fit : Connection.create.writeBuffer.Fits twoBytes.len := by decide

/-- Both bytes are sent on a new connection; the kernel takes the first. -/
theorem outgoing_stream_intact_partial :
    ∃ c, Connection.create.send (some twoBytes) (.accepted 1 .eagain) = .ok c ∧
      (c.failed = false → c.taken ++ c.writeBuffer.unread = c.passed) := by
  have start : (connection.restrict Connection.DirectNotRetried).Reachable .create := .start rfl
  obtain ⟨c, sent⟩ := (outgoing_stream_intact start).2 twoBytes 1 .eagain (by decide) rfl
    twoBytes_fit
  have step : (connection.restrict Connection.DirectNotRetried).step .create
      (.send (some twoBytes) (.accepted 1 .eagain)) c :=
    ⟨trivial, show 1 ≤ 2 by decide, sent⟩
  exact ⟨c, sent, (outgoing_stream_intact (.next start step)).1⟩

/-- The same send on the same connection, refused with `EAGAIN`: the byte in front
of the caller's data is queued, and the last byte of the data is not. -/
theorem outgoing_stream_shifted :
    ∃ c, connection.Reachable c ∧ c.failed = false ∧
      c.taken ++ c.writeBuffer.unread ≠ c.passed := by
  obtain ⟨valid, empty⟩ := create_valid reservedPrependSize initBufferSize (by decide) (by decide)
  obtain ⟨chan, writeBuffer, sent, unread⟩ := Connection.sendTask_retry
    (c := Connection.create.pass twoBytes) valid rfl rfl empty (show twoBytes.len ≠ 0 by decide)
    (by decide) twoBytes_fit (show Errno.eagain.rwRetriable = true from rfl)
  have step : connection.step .create (.send (some twoBytes) (.failed .eagain))
      { Connection.create.pass twoBytes with chan := chan, writeBuffer := writeBuffer } :=
    ⟨trivial, sent⟩
  refine ⟨_, .next (.start rfl) step, rfl, ?_⟩
  rw [unread]
  exact show [] ++ window twoBytes.mem (twoBytes.off - 1) twoBytes.len ≠ [] ++ twoBytes.bytes
    by decide

end Libatp.Net
