import Libatp.Net.Stream

/-!
# What the descriptor of a connection is watched for

A channel that is in use is determined by its mask, and one that was closed has
none: `live` and `shut` are all there is. On a connection the read bit of the mask
says that `attachToEventLoop` was called, and the write bit that bytes wait in the
write buffer.
-/

namespace Libatp.Net
open Base Buffer

namespace Channel

/-- In use: libevent watches what the mask says, unless that is nothing. -/
def live (events : Interest) : Channel where
  event := true
  events := events
  attached := events ≠ .none
  callbacks := true
  registered := if events = .none then Option.none else some events

/-- Closed. -/
def shut : Channel := ⟨false, .none, false, false, Option.none⟩

@[simp] theorem live_isWritable (events : Interest) : (live events).isWritable = events.write := rfl

theorem live_setEvents (events events' : Interest) :
    (live events).setEvents events' = .ok (live events') := by
  rcases events with ⟨_ | _, _ | _⟩ <;> rcases events' with ⟨_ | _, _ | _⟩ <;> rfl

theorem live_enableEvents (events : Interest) (readable writable : Bool) :
    (live events).enableEvents readable writable =
      .ok (live ⟨events.read || readable, events.write || writable⟩) :=
  live_setEvents _ _

theorem live_disableEvents (events : Interest) (readable writable : Bool) :
    (live events).disableEvents readable writable =
      .ok (live ⟨events.read && !readable, events.write && !writable⟩) :=
  live_setEvents _ _

/-- A closed channel has no `event_` left to enable anything with. -/
theorem shut_enableEvents {readable writable : Bool} (some : readable = true ∨ writable = true) :
    shut.enableEvents readable writable = .error .nullPointer := by
  cases readable <;> cases writable <;> first | rfl | simp at some

end Channel

namespace Connection

/-- The channel is closed, or in use with this mask. -/
def Watched (c : Connection) (events : Interest) : Prop :=
  c.chan = .shut ∨ c.chan = .live events

theorem netFdCloseHandle_eq {c : Connection} {events : Interest} (h : c.Watched events) :
    c.netFdCloseHandle = .ok { c with chan := .shut, closes := c.closes + 1 } := by
  rcases h with shut | live
  · simp only [netFdCloseHandle, shut]
    rfl
  · simp only [netFdCloseHandle, live, Channel.disableAllEvents, Channel.live_setEvents, ok_bind]
    rfl

/-! ## The invariant -/

/-- `attached` says that `attachToEventLoop` was called. -/
structure Attentive (attached : Bool) (c : Connection) : Prop where
  read : c.readBuffer.Valid
  write : c.writeBuffer.Valid
  watched : c.Watched ⟨attached, !c.writeBuffer.unread.isEmpty⟩
  halfway : c.halfway = true → c.chan.callbacks = true → c.chan.isWritable = true
  completions : ∀ left ∈ c.completions, left = []

theorem create_attentive : Attentive false .create := by
  obtain ⟨valid, empty⟩ := create_valid reservedPrependSize initBufferSize (by decide) (by decide)
  refine ⟨valid, valid, .inr ?_, nofun, nofun⟩
  simp only [create, empty]
  rfl

variable {attached : Bool} {c c' : Connection}

/-- Closing, whatever else changed on the way. -/
theorem closed_attentive (read : c.readBuffer.Valid) (write : c.writeBuffer.Valid)
    {events : Interest} (watched : c.Watched events)
    (completions : ∀ left ∈ c.completions, left = []) (h : c.netFdCloseHandle = .ok c') :
    Attentive attached c' := by
  rw [netFdCloseHandle_eq watched] at h
  cases h
  exact ⟨read, write, .inl rfl, fun _ callbacks => absurd callbacks Bool.false_ne_true,
    completions⟩

theorem attach_attentive (hc : Attentive attached c) (h : c.attachToEventLoop = .ok c') :
    Attentive true c' := by
  obtain ⟨chan, enabled, eq⟩ := bind_ok_iff.mp h
  cases eq
  rcases hc.watched with shut | live
  · rw [shut, Channel.shut_enableEvents (.inl rfl)] at enabled
    cases enabled
  · rw [live, Channel.live_enableEvents] at enabled
    cases enabled
    have half := hc.halfway
    rw [live] at half
    exact ⟨hc.read, hc.write, .inr (by simp), fun halfway _ => by simpa using half halfway rfl,
      hc.completions⟩

theorem source_at_length {data : Source} {delta : Int} {n : Nat} {bytes : List Byte}
    (h : data.at delta n = .ok bytes) : bytes.length = n := by
  unfold Source.at at h
  split at h
  · obtain ⟨bound, rfl⟩ := load_ok_iff.mp h
    rw [window_length]
    omega
  · cases h

/-- What is left is buffered and write interest enabled; on a closed channel there
is nothing left. -/
theorem sendRest_watched {data : Source} {nwrite : Int} {remaining : Nat}
    (write : c.writeBuffer.Valid) {events : Interest} (watched : c.Watched events)
    (h : c.sendRest data nwrite remaining = .ok c') :
    (remaining = 0 ∧ c' = c) ∨ ∃ writeBuffer, writeBuffer.Valid ∧ writeBuffer.unread ≠ [] ∧
      c.chan = .live events ∧
      c' = { c with chan := .live ⟨events.read, true⟩, writeBuffer := writeBuffer } := by
  unfold sendRest at h
  split at h
  · rename_i more
    obtain ⟨rest, loaded, tail⟩ := bind_ok_iff.mp h
    obtain ⟨writeBuffer, appended, tail⟩ := bind_ok_iff.mp tail
    obtain ⟨chan, enabled, eq⟩ := bind_ok_iff.mp tail
    obtain ⟨valid, unread⟩ := ByteBuffer.append_spec write appended
    have some : writeBuffer.unread ≠ [] := by
      rw [unread]
      intro none
      have := congrArg List.length none
      rw [List.length_append, source_at_length loaded, List.length_nil] at this
      omega
    rcases watched with shut | live
    · rw [shut, Channel.shut_enableEvents (.inr rfl)] at enabled
      cases enabled
    · rw [live, Channel.live_enableEvents] at enabled
      cases enabled
      cases eq
      exact .inr ⟨writeBuffer, valid, some, live, by simp⟩
  · cases h
    exact .inl ⟨by omega, rfl⟩

theorem sendRest_attentive {data : Source} {nwrite : Int} {remaining : Nat}
    (hc : Attentive attached c) (h : c.sendRest data nwrite remaining = .ok c') :
    Attentive attached c' := by
  rcases sendRest_watched hc.write hc.watched h with
    ⟨_, rfl⟩ | ⟨writeBuffer, valid, some, live, rfl⟩
  · exact hc
  · refine ⟨hc.read, valid, .inr ?_, fun _ _ => rfl, hc.completions⟩
    have full : writeBuffer.unread.isEmpty = false := by simpa using some
    simp only [full]
    rfl

theorem writeComplete_completions (h : ∀ left ∈ c.completions, left = [])
    (empty : c.writeBuffer.unread = []) : ∀ left ∈ c.writeComplete.completions, left = [] := by
  intro left member
  obtain before | last := List.mem_append.mp member
  · exact h left before
  · rw [List.mem_singleton.mp last, empty]

theorem writeComplete_attentive (hc : Attentive attached c) (empty : c.writeBuffer.unread = []) :
    Attentive attached c.writeComplete :=
  ⟨hc.read, hc.write, hc.watched, hc.halfway, writeComplete_completions hc.completions empty⟩

/-- The first block of a direct `send`. After a failure for good the channel is
closed, and there is something left. -/
theorem sendDirect_attentive {data : Source} {out : SendOutcome} {d : Connection} {nwrite : Int}
    {remaining : Nat} (hc : Attentive attached c) (empty : c.writeBuffer.unread = [])
    (h : c.sendDirect data out = .ok (d, nwrite, remaining)) :
    Attentive attached d := by
  cases out with
  | accepted k errno =>
    simp only [sendDirect, pure_eq_ok, Except.ok.injEq, Prod.mk.injEq] at h
    obtain ⟨rfl, _, _⟩ := h
    have taken : Attentive attached { c with taken := c.taken ++ data.bytes.take k } :=
      ⟨hc.read, hc.write, hc.watched, hc.halfway, hc.completions⟩
    split
    · exact writeComplete_attentive taken empty
    · exact taken
  | failed errno =>
    rw [sendDirect] at h
    split at h
    · cases h
      exact hc
    · obtain ⟨closed, handled, eq⟩ := bind_ok_iff.mp h
      have after : Attentive attached closed :=
        closed_attentive hc.read hc.write hc.watched hc.completions handled
      cases eq
      exact ⟨after.read, after.write, after.watched, after.halfway, after.completions⟩

theorem send_attentive {data : Option Source} {out : SendOutcome} (hc : Attentive attached c)
    (h : c.send data out = .ok c') : Attentive attached c' := by
  cases data with
  | none =>
    cases h
    exact hc
  | some data =>
    have passed : Attentive attached (c.pass data) :=
      ⟨hc.read, hc.write, hc.watched, hc.halfway, hc.completions⟩
    simp only [send] at h
    split at h
    · cases h
      exact passed
    · simp only [sendTask, isDirect_eq passed.write, ok_bind] at h
      obtain ⟨⟨d, nwrite, remaining⟩, first, rest⟩ := bind_ok_iff.mp h
      split at first
      · rename_i direct
        simp only [Bool.and_eq_true, List.isEmpty_iff] at direct
        exact sendRest_attentive (sendDirect_attentive passed direct.2 first) rest
      · cases first
        exact sendRest_attentive passed rest

theorem netFdReadHandle_attentive {out : ReadOutcome} (hc : Attentive attached c)
    (offered : ∀ data, out = .bytes data → ReadOffered c.readBuffer data)
    (h : c.netFdReadHandle out = .ok c') :
    Attentive attached c' ∧ (c'.chan = .shut ∨ c'.chan = c.chan) := by
  obtain ⟨⟨readBuffer, n⟩, received, rest⟩ := bind_ok_iff.mp h
  have valid := readv_valid hc.read offered received
  have read : Attentive attached { c with readBuffer := readBuffer } :=
    ⟨valid, hc.write, hc.watched, hc.halfway, hc.completions⟩
  simp only at rest
  split at rest
  · refine ⟨closed_attentive read.read read.write read.watched read.completions rest, .inl ?_⟩
    rw [netFdErrorHandle, netFdCloseHandle_eq read.watched] at rest
    cases rest
    rfl
  · cases rest
    exact ⟨read, .inr rfl⟩

/-- The buffer is drained or bytes still wait; only in the first case write
interest goes and the application is told. -/
theorem drained_attentive (read : c.readBuffer.Valid) (write : c.writeBuffer.Valid)
    (watched : c.Watched ⟨attached, true⟩) (open_ : c.chan ≠ .shut)
    (completions : ∀ left ∈ c.completions, left = []) (h : c.drained = .ok c') :
    Attentive attached { c' with halfway := false } := by
  have live := watched.resolve_left open_
  have size := ByteBuffer.unread_length write.ordered
  rw [drained, ByteBuffer.unreadBytes_eq write.ordered, ok_bind] at h
  split at h
  · rename_i none
    have empty : c.writeBuffer.unread = [] := List.eq_nil_of_length_eq_zero (by omega)
    rw [live, Channel.live_disableEvents, ok_bind] at h
    cases h
    refine ⟨read, write, .inr ?_, nofun, ?_⟩
    · simp only [writeComplete, empty]
      simp
    · exact writeComplete_completions completions empty
  · rename_i some
    cases h
    have full : c.writeBuffer.unread.isEmpty = false := by
      rw [List.isEmpty_eq_false_iff_exists_mem]
      exact List.exists_mem_of_length_pos (by omega)
    exact ⟨read, write, .inr (by simp only [live, full]; rfl), nofun, completions⟩

theorem netFdWriteHandle_attentive {out : SendOutcome} (hc : Attentive attached c)
    (h : c.netFdWriteHandle out = .ok c') : Attentive attached { c' with halfway := false } := by
  obtain ⟨_, writable, rest⟩ := bind_ok_iff.mp h
  obtain ⟨_, _, rest⟩ := bind_ok_iff.mp rest
  have open_ : c.chan ≠ .shut := by
    intro shut
    rw [shut] at writable
    cases writable
  have live := hc.watched.resolve_left open_
  have interest : c.Watched ⟨attached, true⟩ := by
    have set := require_ok_iff.mp writable
    rw [live] at set
    have full : (!c.writeBuffer.unread.isEmpty) = true := set
    rw [Watched, ← full]
    exact hc.watched
  have unhalved {d : Connection} (hd : Attentive attached d) :
      Attentive attached { d with halfway := false } :=
    ⟨hd.read, hd.write, hd.watched, nofun, hd.completions⟩
  have closed {d : Connection} (read : d.readBuffer.Valid) (write : d.writeBuffer.Valid)
      (watched : d.Watched ⟨attached, true⟩) (completions : ∀ left ∈ d.completions, left = [])
      (handled : d.netFdErrorHandle = .ok c') : Attentive attached { c' with halfway := false } :=
    unhalved (closed_attentive read write watched completions handled)
  cases out with
  | accepted k errno =>
    simp only at rest
    split at rest
    · obtain ⟨writeBuffer, removed, rest⟩ := bind_ok_iff.mp rest
      obtain ⟨valid, _⟩ := ByteBuffer.remove_spec hc.write removed
      exact drained_attentive (c := { c with writeBuffer := writeBuffer, taken := _ }) hc.read valid
        interest open_ hc.completions rest
    · split at rest
      · cases rest
        exact unhalved hc
      · exact closed hc.read hc.write interest hc.completions rest
  | failed errno =>
    simp only at rest
    split at rest
    · cases rest
      exact unhalved hc
    · exact closed (d := { c with failed := true }) hc.read hc.write interest hc.completions rest

/-! ## Whole runs -/

/-- libevent reports no event that it was not asked to watch for. -/
def Reported (c : Connection) : Event → Prop
  | .ready which _ => ∃ watched, c.chan.registered = some watched ∧
      (which.read = true → watched.read = true) ∧ (which.write = true → watched.write = true)
  | _ => True

theorem exec_attentive {e : Event} (hc : Attentive attached c) (reported : c.Reported e)
    (possible : e.Possible c) (h : e.exec c = .ok c') :
    Attentive (attached || e = .attach) c' := by
  cases e with
  | attach => simpa using attach_attentive hc h
  | send data out => simpa using send_attentive hc h
  | close =>
    have after : Attentive attached c' :=
      closed_attentive hc.read hc.write hc.watched hc.completions h
    simpa using after
  | ready which out =>
    obtain ⟨d, handled, eq⟩ := bind_ok_iff.mp h
    obtain ⟨watched, registered, _, writes⟩ := reported
    have asked : which.write = true → c.chan.isWritable = true := by
      intro write
      rcases hc.watched with shut | live
      · rw [shut] at registered
        cases registered
      · rw [live, Channel.live] at registered
        rw [live]
        split at registered
        · cases registered
        · cases registered
          exact writes write
    have hd : Attentive attached d ∧ (d.chan = .shut ∨ d.chan = c.chan) := by
      split at handled
      · exact netFdReadHandle_attentive hc possible.2 handled
      · cases handled
        exact ⟨hc, .inr rfl⟩
    cases eq
    suffices Attentive attached { d with halfway := which.write } by simpa using this
    refine ⟨hd.1.read, hd.1.write, hd.1.watched, fun write callbacks => ?_, hd.1.completions⟩
    rcases hd.2 with shut | same
    · rw [show ({ d with halfway := which.write } : Connection).chan = d.chan from rfl, shut]
        at callbacks
      cases callbacks
    · exact (congrArg Channel.isWritable same).trans (asked write)
  | writeHalf out =>
    obtain ⟨d, handled, eq⟩ := bind_ok_iff.mp h
    have hd : Attentive attached { d with halfway := false } := by
      split at handled
      · exact netFdWriteHandle_attentive hc handled
      · cases handled
        exact ⟨hc.read, hc.write, hc.watched, nofun, hc.completions⟩
    cases eq
    simpa using hd

end Connection

theorem traced_attentive {c : Connection} {history : List Event}
    (h : (connection.restrict Connection.Reported).traced.Reachable (c, history)) :
    Connection.Attentive (decide (.attach ∈ history)) c := by
  refine System.invariant _
    (P := fun s => Connection.Attentive (decide (.attach ∈ s.2)) s.1) ?_ ?_ h
  · rintro ⟨_, _⟩ ⟨rfl, rfl⟩
    exact Connection.create_attentive
  · rintro ⟨c, history⟩ e ⟨c', _⟩ hc ⟨⟨reported, possible, step⟩, rfl⟩
    have kept := Connection.exec_attentive hc reported possible step
    rw [← Bool.decide_or] at kept
    simpa [or_comm, eq_comm] using kept

/-- **Interest follows the write buffer.** Once `attachToEventLoop` was called, and
until the channel is closed, libevent watches for reading, and for writing exactly
while bytes wait. So the write handler finds write interest set, and the application
is told that everything was written only when nothing waits. -/
theorem interest_follows_buffer {c : Connection} {history : List Event}
    (h : (connection.restrict Connection.Reported).traced.Reachable (c, history)) :
    (.attach ∈ history → c.chan.event = true → ∃ watched, c.chan.registered = some watched ∧
      watched.read = true ∧ (watched.write = true ↔ c.writeBuffer.unread ≠ [])) ∧
    (c.halfway = true → c.chan.callbacks = true → c.chan.isWritable = true) ∧
    ∀ left ∈ c.completions, left = [] := by
  have hc := traced_attentive h
  refine ⟨fun attached live => ?_, hc.halfway, hc.completions⟩
  have chan := hc.watched.resolve_left (by
    intro shut
    rw [shut] at live
    cases live)
  rw [decide_eq_true attached] at chan
  refine ⟨⟨true, !c.writeBuffer.unread.isEmpty⟩, ?_, rfl, by simp⟩
  rw [chan, Channel.live, if_neg (by simp [Interest.none])]

/-- A connection that was attached and has nothing to write. -/
def attachedOnly : Connection := { Connection.create with chan := .live ⟨true, false⟩ }

theorem traced_next {c d : Connection} {history : List Event}
    (h : (connection.restrict Connection.Reported).traced.Reachable (c, history)) (e : Event)
    (reported : c.Reported e) (possible : e.Possible c) (step : e.exec c = .ok d) :
    (connection.restrict Connection.Reported).traced.Reachable (d, e :: history) :=
  h.next ⟨⟨reported, possible, step⟩, rfl⟩

/-- Of two bytes the kernel takes the first, and the second waits. Then the descriptor is ready
and the second byte is written too. -/
theorem interest_follows_buffer_attached : ∃ c history d later,
    (connection.restrict Connection.Reported).traced.Reachable (c, history) ∧
      c.writeBuffer.unread = [2] ∧
      (∃ watched, c.chan.registered = some watched ∧ watched.read = true ∧
        watched.write = true) ∧
      (connection.restrict Connection.Reported).traced.Reachable (d, later) ∧
      d.completions ≠ [] ∧ (∀ left ∈ d.completions, left = []) ∧
      ∃ watched, d.chan.registered = some watched ∧ watched.read = true ∧
        ¬ watched.write = true := by
  obtain ⟨c, sent, waits⟩ := ok_of_any
    (x := attachedOnly.send (some twoBytes) (.accepted 1 .eagain))
    (p := fun c => c.writeBuffer.unread = [2] ∧ c.halfway = false ∧ c.chan.event = true ∧
      ((Event.writeHalf (.accepted 1 .eagain)).exec { c with halfway := true }).toOption.any
        fun d => d.writeBuffer.unread = [] ∧ d.chan.event = true ∧ d.completions ≠ [])
    (by decide +kernel)
  obtain ⟨unread, free, live, rest⟩ := of_decide_eq_true waits
  obtain ⟨d, written, done⟩ := ok_of_any rest
  obtain ⟨empty, alive, told⟩ := of_decide_eq_true done
  have attached := traced_next (d := attachedOnly) (.start ⟨rfl, rfl⟩) .attach trivial trivial rfl
  have waiting := traced_next attached (.send (some twoBytes) (.accepted 1 .eagain)) trivial
    (show 1 ≤ 2 by decide) sent
  obtain ⟨watched, registered, read, write⟩ :=
    (interest_follows_buffer waiting).1 (by simp) live
  have writes : watched.write = true := write.mpr (by rw [unread]; decide)
  have ready := traced_next (d := { c with halfway := true }) waiting
    (.ready ⟨false, true⟩ (.failed .eagain)) ⟨watched, registered, fun _ => read, fun _ => writes⟩
    ⟨free, nofun⟩ rfl
  have ended := traced_next ready (.writeHalf (.accepted 1 .eagain)) trivial
    ⟨rfl, by rw [unread]; exact Nat.le_refl 1⟩ written
  obtain ⟨still, _, finished⟩ := interest_follows_buffer ended
  obtain ⟨watched', registered', read', write'⟩ := still (by simp) alive
  refine ⟨c, _, d, _, waiting, unread, ⟨watched, registered, read, writes⟩, ended, told, finished,
    watched', registered', read', ?_⟩
  rw [write', not_not]
  exact empty

end Libatp.Net
