import Libatp.Net.Stream
import Mathlib.Logic.Function.Basic

/-!
# `send` on another thread (`net/atp_tcp_conn.cpp`)

There `sendToQueue` queues the closure of `send`, which was made with `[&]`: what it
has of the call are references to the parameters `data` and `len`. It reads them,
and the bytes they designate, when the loop runs it. By then `send` may have
returned, its frame may hold anything, and the bytes may have been overwritten.

A task is run in two steps, the direct `::send` and the buffering of what is left,
so that the other threads can also move in between.
-/

namespace Libatp.Net
open Base Buffer

/-- The cells of one object of the process. -/
structure Object where
  cells : List Byte
  size : cells.length < wordSize
  deriving Repr

structure Pointer where
  object : Nat
  off : Nat
  deriving DecidableEq, Repr

/-- The frame of one call of `send`: its parameters, as they are now, and whether it
has returned. `wanted` is history: the bytes that were passed. -/
structure Call where
  data : Pointer
  len : Nat
  returned : Bool
  wanted : List Byte
  deriving DecidableEq, Repr

/-- The locals of a task that has passed its first block. `before` is history: what
had been sent or buffered when it started. -/
structure Running where
  call : Nat
  nwrite : Int
  remaining : Nat
  before : List Byte
  deriving DecidableEq, Repr

/-- A connection and the threads that send on it. `queue` has the tasks that the loop
has not started, each by its call. -/
structure Senders where
  conn : Connection
  objects : Nat → Object
  calls : List Call
  queue : List Nat
  running : Option Running

/-- The `len` bytes at `data`, as the objects are. -/
def designate (objects : Nat → Object) (data : Pointer) (len : Nat) : Checked Source :=
  if h : data.off + len ≤ (objects data.object).cells.length then
    .ok ⟨(objects data.object).cells, data.off, len, h, (objects data.object).size⟩
  else .error .outOfBounds

namespace Senders

def create (objects : Nat → Object) : Senders := ⟨.create, objects, [], [], none⟩

/-- The bytes that `data` and `len` designate now. -/
def shown (s : Senders) (data : Pointer) (len : Nat) : List Byte :=
  window (s.objects data.object).cells data.off len

/-- `send(const void*, size_t)`; `none` is a null pointer. -/
def send (s : Senders) (data : Option Pointer) (len : Nat) : Senders :=
  match data with
  | none => s
  | some data =>
    if len = 0 then s
    else { s with
      calls := s.calls ++ [⟨data, len, false, s.shown data len⟩]
      queue := s.queue ++ [s.calls.length] }

/-- `send(ByteBuffer*)`, for a buffer whose array is object `array`. -/
def sendBuffer (s : Senders) (array : Nat) (buffer : Option ByteBuffer) :
    Checked (Senders × Option ByteBuffer) :=
  match buffer with
  | none => return (s, none)
  | some b => do
    let len ← b.unreadBytes
    let (b', slice) ← b.consume len
    match slice.data with
    | .literal => return (s, some b')
    | .buffer off => return (s.send (some ⟨array, off⟩) len, some b')

def setCall (s : Senders) (i : Nat) (call : Call) : Senders :=
  { s with calls := s.calls.set i call }

def write (s : Senders) (object : Nat) (cells : Object) : Senders :=
  { s with objects := Function.update s.objects object cells }

/-- The first block of the task. -/
def taskDirect (s : Senders) (call : Call) (out : SendOutcome) :
    Checked (Connection × Int × Nat) := do
  let conn := { s.conn with passed := s.conn.passed ++ call.wanted }
  let direct ← conn.isDirect
  if direct then
    let data ← designate s.objects call.data call.len
    conn.sendDirect data out
  else
    return (conn, 0, call.len)

/-- The second block. It reads `data` again, and not `len`. -/
def taskRest (s : Senders) (call : Call) (nwrite : Int) (remaining : Nat) :
    Checked Connection := do
  if 0 < remaining then
    let data ← designate s.objects call.data 0
    s.conn.sendRest data nwrite remaining
  else
    return s.conn

def started (s : Senders) (i : Nat) (conn : Connection) (nwrite : Int) (remaining : Nat) :
    Senders :=
  { s with
    conn := conn
    queue := s.queue.erase i
    running := some ⟨i, nwrite, remaining, s.conn.taken ++ s.conn.writeBuffer.unread⟩ }

/-- The task of call `i` has not ended. -/
def Waiting (s : Senders) (i : Nat) : Prop :=
  i ∈ s.queue ∨ ∃ r, s.running = some r ∧ r.call = i

end Senders

/-- What happens next: on the loop thread, its own events and the two halves of a
task; on the others, calls of `send`, their return, and anything else that writes. -/
inductive SendersEvent where
  | loop (e : Event)
  | direct (i : Nat) (out : SendOutcome)
  | rest
  | send (data : Option Pointer) (len : Nat)
  | sendBuffer (array : Nat) (buffer : Option ByteBuffer)
  | returns (i : Nat)
  | reuse (i : Nat) (data : Pointer) (len : Nat)
  | write (object : Nat) (cells : Object)

inductive Senders.Step : Senders → SendersEvent → Senders → Prop where
  | loop {s : Senders} {e : Event} {conn : Connection} : s.running = none →
      e.Possible s.conn → e.exec s.conn = .ok conn →
      Step s (.loop e) { s with conn := conn }
  | direct {s : Senders} {i : Nat} {call : Call} {out : SendOutcome} {conn : Connection}
      {nwrite : Int} {remaining : Nat} : s.running = none → i ∈ s.queue →
      s.calls[i]? = some call → out.Within call.len →
      s.taskDirect call out = .ok (conn, nwrite, remaining) →
      Step s (.direct i out) (s.started i conn nwrite remaining)
  | rest {s : Senders} {r : Running} {call : Call} {conn : Connection} : s.running = some r →
      s.calls[r.call]? = some call → s.taskRest call r.nwrite r.remaining = .ok conn →
      Step s .rest { s with conn := conn, running := none }
  /-- The caller passes bytes that are there. -/
  | send {s : Senders} (data : Option Pointer) (len : Nat) :
      (∀ p, data = some p → p.off + len ≤ (s.objects p.object).cells.length) →
      Step s (.send data len) (s.send data len)
  | sendBuffer {s s' : Senders} {array : Nat} {buffer buffer' : Option ByteBuffer} :
      (∀ b, buffer = some b → b.Valid ∧ b.buff = (s.objects array).cells) →
      s.sendBuffer array buffer = .ok (s', buffer') → Step s (.sendBuffer array buffer) s'
  | returns {s : Senders} {i : Nat} {call : Call} : s.calls[i]? = some call →
      Step s (.returns i) (s.setCall i { call with returned := true })
  /-- The stack below a frame that is gone holds anything. -/
  | reuse {s : Senders} {i : Nat} {call : Call} (data : Pointer) (len : Nat) :
      s.calls[i]? = some call → call.returned = true →
      Step s (.reuse i data len) (s.setCall i { call with data := data, len := len })
  /-- Objects are overwritten, allocated and freed by their owners. -/
  | write {s : Senders} (object : Nat) (cells : Object) :
      Step s (.write object cells) (s.write object cells)

def senders : System Senders SendersEvent where
  start s := ∃ objects, s = .create objects
  step := Senders.Step

namespace Senders

/-- A call returns only when its task has ended, what it passed is not changed before
that, and no direct `::send` is asked to be retried. -/
def Waits (s : Senders) : SendersEvent → Prop
  | .loop e => s.conn.DirectNotRetried e
  | .direct _ out => s.conn.chan.isWritable = false → s.conn.writeBuffer.unread = [] →
    ∀ errno, out = .failed errno → errno.rwRetriable = false
  | .returns i => ¬ s.Waiting i
  | .write object cells => ∀ i call, s.Waiting i → s.calls[i]? = some call →
    (s.write object cells).shown call.data call.len = s.shown call.data call.len
  | _ => True

/-! ## What a waiting task will find -/

/-- The frame is there, and designates what was passed. -/
structure Shows (s : Senders) (call : Call) : Prop where
  there : call.returned = false
  some : 0 < call.len
  length : call.wanted.length = call.len
  bytes : s.shown call.data call.len = call.wanted

variable {s s' : Senders} {call : Call}

theorem Shows.within (h : s.Shows call) :
    call.data.off + call.len ≤ (s.objects call.data.object).cells.length := by
  have size := h.length
  rw [← h.bytes, shown, window_length] at size
  have := h.some
  omega

theorem Shows.designate (h : s.Shows call) : ∃ data,
    designate s.objects call.data call.len = .ok data ∧ data.len = call.len ∧
      data.bytes = call.wanted :=
  ⟨_, dif_pos h.within, rfl, h.bytes⟩

theorem Shows.of_objects (h : s.Shows call) (same : s'.objects = s.objects) : s'.Shows call := by
  refine ⟨h.there, h.some, h.length, ?_⟩
  rw [shown, same]
  exact h.bytes

theorem waiting_running {r : Running} (h : s.running = some r) : s.Waiting r.call :=
  .inr ⟨r, h, rfl⟩

/-! ## The two blocks of a task -/

/-- Where a task is after its first block, unless a `::send` failed for good: the
first `k` bytes are sent, and the others follow what waits in the buffer. -/
def Halfway (conn : Connection) (call : Call) (nwrite : Int) (remaining : Nat)
    (before : List Byte) : Prop :=
  conn.failed = false → ∃ k : Nat, k ≤ call.len ∧ nwrite = k ∧ remaining = call.len - k ∧
    conn.taken ++ conn.writeBuffer.unread ++ call.wanted.drop k = conn.passed ∧
      conn.passed = before ++ call.wanted

theorem taskDirect_spec {out : SendOutcome} {conn : Connection} {nwrite : Int} {remaining : Nat}
    (write : s.conn.writeBuffer.Valid) (intact : s.conn.failed = false → s.conn.Intact)
    (shows_ : s.Shows call) (within : out.Within call.len)
    (final : s.conn.chan.isWritable = false → s.conn.writeBuffer.unread = [] →
      ∀ errno, out = .failed errno → errno.rwRetriable = false)
    (h : s.taskDirect call out = .ok (conn, nwrite, remaining)) :
    conn.readBuffer = s.conn.readBuffer ∧ conn.writeBuffer = s.conn.writeBuffer ∧
      Halfway conn call nwrite remaining (s.conn.taken ++ s.conn.writeBuffer.unread) := by
  obtain ⟨data, designated, len, bytes⟩ := shows_.designate
  have write' : ({ s.conn with passed := s.conn.passed ++ call.wanted } :
      Connection).writeBuffer.Valid := write
  simp only [taskDirect, Connection.isDirect_eq write', ok_bind] at h
  split at h
  · rename_i direct
    simp only [Bool.and_eq_true, Bool.not_eq_true', List.isEmpty_iff] at direct
    rw [designated, ok_bind] at h
    obtain ⟨readSame, writeSame, passed, outcome⟩ :=
      Connection.sendDirect_spec (len ▸ within) (final direct.1 direct.2) h
    refine ⟨readSame, writeSame, fun alive => ?_⟩
    rcases outcome with failed | ⟨live, k, hk, rfl, rfl, taken⟩
    · rw [failed] at alive
      cases alive
    · have eq := intact (live ▸ alive)
      refine ⟨k, len ▸ hk, rfl, len ▸ rfl, ?_, ?_⟩
      · rw [Connection.Intact, direct.2, List.append_nil] at eq
        rw [taken, writeSame, direct.2, List.append_nil, bytes, List.append_assoc,
          List.take_append_drop, passed, eq]
      · rw [passed, ← eq]
  · cases h
    refine ⟨rfl, rfl, fun alive => ⟨0, Nat.zero_le _, rfl, rfl, ?_, ?_⟩⟩
    · rw [List.drop_zero, intact alive]
    · rw [← intact alive]

/-- The second block at the call's own source. -/
theorem taskRest_eq {data : Source} (designated : designate s.objects call.data call.len = .ok data)
    {nwrite : Int} {remaining : Nat} :
    s.taskRest call nwrite remaining = s.conn.sendRest data nwrite remaining := by
  unfold designate at designated
  split at designated
  · rename_i within
    cases designated
    have start : call.data.off + 0 ≤ (s.objects call.data.object).cells.length := by omega
    unfold taskRest Connection.sendRest
    split
    · rw [Net.designate, dif_pos start, ok_bind]
      rfl
    · rfl
  · cases designated

theorem taskRest_spec {conn : Connection} {nwrite : Int} {remaining : Nat} {before : List Byte}
    (write : s.conn.writeBuffer.Valid) (shows_ : s.Shows call)
    (halfway : Halfway s.conn call nwrite remaining before)
    (h : s.taskRest call nwrite remaining = .ok conn) :
    conn.readBuffer = s.conn.readBuffer ∧ conn.writeBuffer.Valid ∧
      (conn.failed = false → conn.Intact ∧ conn.passed = before ++ call.wanted) := by
  obtain ⟨data, designated, len, bytes⟩ := shows_.designate
  rw [taskRest_eq designated] at h
  by_cases alive : s.conn.failed = false
  · obtain ⟨k, hk, rfl, rfl, halves, passed⟩ := halfway alive
    rw [← len] at hk h
    obtain ⟨chan, writeBuffer, rfl, valid, same⟩ := Connection.sendRest_spec write hk h
    refine ⟨rfl, valid, fun _ => ⟨?_, passed⟩⟩
    rw [Connection.Intact, same, bytes, ← List.append_assoc, halves]
  · obtain ⟨chan, writeBuffer, rfl, valid, _⟩ := Connection.sendRest_frame write h
    exact ⟨rfl, valid, fun live => absurd live alive⟩

/-! ## The invariant -/

structure Kept (s : Senders) : Prop where
  read : s.conn.readBuffer.Valid
  write : s.conn.writeBuffer.Valid
  waiting : ∀ i, s.Waiting i → ∃ call, s.calls[i]? = some call ∧ s.Shows call
  idle : s.running = none → s.conn.failed = false → s.conn.Intact
  busy : ∀ r call, s.running = some r → s.calls[r.call]? = some call →
    Halfway s.conn call r.nwrite r.remaining r.before

theorem Kept.shows (h : s.Kept) {i : Nat} (waits : s.Waiting i) (at_ : s.calls[i]? = some call) :
    s.Shows call := by
  obtain ⟨call', at', shows_⟩ := h.waiting i waits
  cases at_.symm.trans at'
  exact shows_

theorem create_kept (objects : Nat → Object) : (create objects).Kept := by
  have sound := Connection.create_sound
  refine ⟨sound.read, sound.write, fun i waiting => ?_, fun _ => sound.intact, nofun⟩
  rcases waiting with queued | ⟨r, running, _⟩
  · cases queued
  · cases running

/-- The other threads keep it if the calls that wait stay as they are. -/
theorem Kept.others (h : s.Kept) (conn : s'.conn = s.conn) (running : s'.running = s.running)
    (stays : ∀ i call, s.Waiting i → s.calls[i]? = some call → s.Shows call →
      s'.calls[i]? = some call ∧ s'.Shows call)
    (fresh : ∀ i ∈ s'.queue, i ∈ s.queue ∨ ∃ call, s'.calls[i]? = some call ∧ s'.Shows call) :
    s'.Kept := by
  have stay (i : Nat) (waits : s.Waiting i) : ∃ call, s'.calls[i]? = some call ∧ s'.Shows call := by
    obtain ⟨call, at_, shows_⟩ := h.waiting i waits
    exact ⟨call, stays i call waits at_ shows_⟩
  refine ⟨conn ▸ h.read, conn ▸ h.write, fun i waits => ?_, ?_, fun r call busy at_ => ?_⟩
  · rcases waits with queued | busy
    · exact (fresh i queued).elim (fun already => stay i (.inl already)) id
    · exact stay i (.inr (running ▸ busy))
  · rw [running, conn]
    exact h.idle
  · rw [running] at busy
    obtain ⟨old, oldAt, shows_⟩ := h.waiting r.call (waiting_running busy)
    obtain ⟨newAt, _⟩ := stays r.call old (waiting_running busy) oldAt shows_
    rw [newAt] at at_
    cases at_
    rw [conn]
    exact h.busy r call busy oldAt

theorem Kept.send (h : s.Kept) {data : Option Pointer} {len : Nat}
    (within : ∀ p, data = some p → p.off + len ≤ (s.objects p.object).cells.length) :
    (s.send data len).Kept := by
  cases data with
  | none => exact h
  | some p =>
    rw [Senders.send]
    split
    · exact h
    · rename_i some
      refine h.others rfl rfl (fun i call _ at_ shows_ => ⟨?_, ?_⟩) fun i queued => ?_
      · exact (List.getElem?_append_left (List.getElem?_eq_some_iff.mp at_).1).trans at_
      · exact shows_.of_objects rfl
      · rcases List.mem_append.mp queued with old | new
        · exact .inl old
        · rw [List.mem_singleton.mp new]
          refine .inr ⟨_, List.getElem?_concat_length, rfl, Nat.pos_of_ne_zero some, ?_, rfl⟩
          have length := within p rfl
          simp only [shown, window_length]
          omega

/-- Consuming all that is unread gives its place in the array. -/
theorem sendBuffer_cases {array : Nat} {buffer buffer' : Option ByteBuffer}
    (valid : ∀ b, buffer = some b → b.Valid ∧ b.buff = (s.objects array).cells)
    (h : s.sendBuffer array buffer = .ok (s', buffer')) :
    s' = s ∨ ∃ (p : Pointer) (len : Nat), s' = s.send (some p) len ∧
      p.off + len ≤ (s.objects p.object).cells.length := by
  cases buffer with
  | none =>
    cases h
    exact .inl rfl
  | some b =>
    obtain ⟨valid, array_⟩ := valid b rfl
    obtain ⟨b', removed, _⟩ := ByteBuffer.remove_ok valid (b.writeIndex - b.readIndex)
    simp only [sendBuffer, ByteBuffer.unreadBytes_eq valid.ordered, ByteBuffer.consume, ok_bind,
      Nat.le_refl, if_true, removed, pure_eq_ok] at h
    cases h
    refine .inr ⟨⟨array, b.readIndex⟩, _, rfl, ?_⟩
    have := valid.read_le
    have := valid.write_le
    rw [← array_, valid.size]
    dsimp only
    omega

theorem Kept.setCall (h : s.Kept) {i : Nat} {call : Call} (done : ¬ s.Waiting i) :
    (s.setCall i call).Kept := by
  refine h.others rfl rfl (fun j old waits at_ shows_ => ⟨?_, ?_⟩) fun _ => .inl
  · have ne : i ≠ j := fun eq => done (eq ▸ waits)
    exact (List.getElem?_set_ne ne).trans at_
  · exact shows_.of_objects rfl

theorem Kept.overwrite (h : s.Kept) {object : Nat} {cells : Object}
    (kept : s.Waits (.write object cells)) : (s.write object cells).Kept := by
  refine h.others rfl rfl (fun i call waits at_ shows_ => ⟨at_, ?_⟩) fun _ => .inl
  exact ⟨shows_.there, shows_.some, shows_.length, (kept i call waits at_).trans shows_.bytes⟩

theorem Kept.loop (h : s.Kept) {e : Event} {conn : Connection} (idle : s.running = none)
    (allowed : s.conn.DirectNotRetried e) (possible : e.Possible s.conn)
    (step : e.exec s.conn = .ok conn) : ({ s with conn := conn } : Senders).Kept := by
  have sound := Connection.exec_sound ⟨h.read, h.write, h.idle idle⟩ allowed possible step
  refine ⟨sound.read, sound.write, fun i waits => ?_, fun _ => sound.intact, fun r _ busy => ?_⟩
  · obtain ⟨call, at_, shows_⟩ := h.waiting i waits
    exact ⟨call, at_, shows_.of_objects rfl⟩
  · cases idle.symm.trans busy

theorem Kept.direct (h : s.Kept) {i : Nat} {out : SendOutcome} {conn : Connection} {nwrite : Int}
    {remaining : Nat} (idle : s.running = none) (queued : i ∈ s.queue)
    (at_ : s.calls[i]? = some call) (within : out.Within call.len)
    (allowed : s.Waits (.direct i out))
    (task : s.taskDirect call out = .ok (conn, nwrite, remaining)) :
    (s.started i conn nwrite remaining).Kept := by
  have waits {j : Nat} (w : (s.started i conn nwrite remaining).Waiting j) : s.Waiting j := by
    rcases w with queued' | ⟨r, busy, rfl⟩
    · exact .inl (List.mem_of_mem_erase queued')
    · cases busy
      exact .inl queued
  obtain ⟨read, write, halfway⟩ :=
    taskDirect_spec h.write (h.idle idle) (h.shows (.inl queued) at_) within allowed task
  refine ⟨?_, ?_, fun j w => ?_, nofun, fun r call' busy at' => ?_⟩
  · exact show conn.readBuffer.Valid from read ▸ h.read
  · exact show conn.writeBuffer.Valid from write ▸ h.write
  · obtain ⟨call', at', shows'⟩ := h.waiting j (waits w)
    exact ⟨call', at', shows'.of_objects rfl⟩
  · cases busy
    cases at_.symm.trans at'
    exact halfway

theorem Kept.rest (h : s.Kept) {r : Running} {conn : Connection} (busy : s.running = some r)
    (at_ : s.calls[r.call]? = some call)
    (task : s.taskRest call r.nwrite r.remaining = .ok conn) :
    ({ s with conn := conn, running := none } : Senders).Kept ∧
      (conn.failed = false →
        conn.taken ++ conn.writeBuffer.unread = r.before ++ call.wanted) := by
  have shows_ := h.shows (waiting_running busy) at_
  obtain ⟨read, write, ends⟩ := taskRest_spec h.write shows_ (h.busy r call busy at_) task
  refine ⟨⟨read ▸ h.read, write, fun i waits => ?_, fun _ live => (ends live).1, nofun⟩,
    fun live => (ends live).1.trans (ends live).2⟩
  rcases waits with queued | ⟨r, busy, _⟩
  · obtain ⟨call', at', shows'⟩ := h.waiting i (.inl queued)
    exact ⟨call', at', shows'.of_objects rfl⟩
  · cases busy

theorem step_kept {e : SendersEvent} (h : s.Kept) (allowed : s.Waits e) (step : Step s e s') :
    s'.Kept := by
  cases step with
  | loop idle possible exec => exact h.loop idle allowed possible exec
  | direct idle queued at_ within task => exact h.direct idle queued at_ within allowed task
  | rest busy at_ task => exact (h.rest busy at_ task).1
  | send data len within => exact h.send within
  | sendBuffer valid sent =>
    rcases sendBuffer_cases valid sent with rfl | ⟨p, len, rfl, within⟩
    · exact h
    · exact h.send fun q eq => Option.some.inj eq ▸ within
  | returns at_ => exact h.setCall allowed
  | reuse data len at_ returned =>
    refine h.setCall fun waits => ?_
    rw [(h.shows waits at_).there] at returned
    cases returned
  | write object cells => exact h.overwrite allowed

/-! ## Tasks return -/

theorem Kept.direct_returns (h : s.Kept) {i k : Nat} (errno : Errno) (idle : s.running = none)
    (queued : i ∈ s.queue) (at_ : s.calls[i]? = some call) (hk : k ≤ call.len) :
    ∃ s', Step s (.direct i (.accepted k errno)) s' := by
  obtain ⟨data, designated, _⟩ := (h.shows (.inl queued) at_).designate
  have write : ({ s.conn with passed := s.conn.passed ++ call.wanted } :
      Connection).writeBuffer.Valid := h.write
  have returned : ∃ r, s.taskDirect call (.accepted k errno) = .ok r := by
    rw [taskDirect]
    simp only [Connection.isDirect_eq write, ok_bind, designated, Connection.sendDirect]
    split <;> exact ⟨_, rfl⟩
  obtain ⟨⟨conn, nwrite, remaining⟩, task⟩ := returned
  exact ⟨_, .direct idle queued at_ hk task⟩

theorem Kept.rest_returns (h : s.Kept) {r : Running} (busy : s.running = some r)
    (at_ : s.calls[r.call]? = some call) (alive : s.conn.failed = false)
    (live : s.conn.chan.event = true) (fits : s.conn.writeBuffer.Fits call.len) :
    ∃ s', Step s .rest s' := by
  obtain ⟨data, designated, len, _⟩ := (h.shows (waiting_running busy) at_).designate
  obtain ⟨k, hk, nwrite, remaining, _⟩ := h.busy r call busy at_ alive
  rw [← len] at hk remaining fits
  obtain ⟨conn, returned⟩ := Connection.sendRest_ok h.write live fits (Nat.sub_le data.len k)
    (Connection.source_at hk) (by rw [List.length_drop, Connection.source_length])
  rw [← nwrite, ← remaining, ← taskRest_eq designated] at returned
  exact ⟨_, .rest busy at_ returned⟩

end Senders

/-! ## One task on a new connection -/

/-- All of it is accepted: the kernel has what the frame and the object show then. -/
theorem task_accepted {s : Senders} {call : Call} {data : Source} (conn : s.conn = .create)
    (idle : s.running = none) (queue : s.queue = [0]) (calls : s.calls = [call])
    (designated : designate s.objects call.data call.len = .ok data) (len : data.len = call.len) :
    ∃ s₁ s₂, Senders.Step s (.direct 0 (.accepted data.len .eagain)) s₁ ∧
      Senders.Step s₁ .rest s₂ ∧ s₁.calls = [call] ∧
      (∃ nwrite remaining, s₁.running = some ⟨0, nwrite, remaining, []⟩) ∧
      s₂.running = none ∧ s₂.conn.failed = false ∧
      s₂.conn.taken ++ s₂.conn.writeBuffer.unread = data.bytes ∧
      s₂.conn.passed = call.wanted := by
  obtain ⟨valid, empty⟩ := create_valid reservedPrependSize initBufferSize (by decide) (by decide)
  have word : data.len < wordSize := by have := data.within; have := data.size; omega
  have whole : data.bytes.take data.len = data.bytes :=
    List.take_of_length_le (Nat.le_of_eq (Connection.source_length data))
  have unread : Connection.create.writeBuffer.unread = [] := empty
  let sent : Connection := { Connection.create with
    taken := data.bytes, passed := call.wanted, completions := [[]] }
  have first : s.taskDirect call (.accepted data.len .eagain) = .ok (sent, data.len, 0) := by
    have direct : ({ Connection.create with passed := call.wanted } : Connection).isDirect =
        .ok true := by
      rw [Connection.isDirect_eq valid]
      exact congrArg (fun l : List Byte => Except.ok (true && l.isEmpty)) unread
    simp only [Senders.taskDirect, conn, show Connection.create.passed = [] from rfl,
      List.nil_append, direct, ok_bind, if_true, designated, Connection.sendDirect,
      wsub_of_le (Nat.le_refl data.len) word, Nat.sub_self, whole, pure_eq_ok]
    rfl
  have rest : Senders.Step (s.started 0 sent data.len 0) .rest
      { s.started 0 sent data.len 0 with running := none } := by
    have frame : (s.started 0 sent data.len 0).calls[0]? = some call := by
      rw [Senders.started, calls]
      rfl
    exact .rest rfl frame rfl
  refine ⟨s.started 0 sent data.len 0, _, ?_, rest, calls, ⟨data.len, 0, ?_⟩, rfl, rfl, ?_, rfl⟩
  · exact .direct idle (queue ▸ List.mem_singleton_self 0) (calls ▸ rfl)
      (show data.len ≤ call.len from Nat.le_of_eq len) first
  · rw [Senders.started, conn]
    exact congrArg (fun l => some (Running.mk 0 data.len 0 ([] ++ l))) unread
  · exact (congrArg (data.bytes ++ ·) unread).trans (List.append_nil _)

def oneTwo : Object := ⟨[1, 2], by decide⟩

def threeFour : Object := ⟨[3, 4], by decide⟩

/-- `send(p, len)` was called, and the task waits. -/
def posted (len : Nat) : Senders :=
  { Senders.create fun _ => oneTwo with
    calls := [⟨⟨0, 0⟩, len, false, window oneTwo.cells 0 len⟩]
    queue := [0] }

theorem posted_step (len : Nat) (some : len ≠ 0) (two : len ≤ 2) :
    Senders.Step (.create fun _ => oneTwo) (.send (.some ⟨0, 0⟩) len) (posted len) := by
  have sends : (Senders.create fun _ => oneTwo).send (.some ⟨0, 0⟩) len = posted len :=
    if_neg some
  rw [← sends]
  refine .send _ len fun p eq => ?_
  cases eq
  exact (Nat.zero_add len).trans_le two

/-! ## Whole runs -/

theorem senders_kept {s : Senders} (h : (senders.restrict Senders.Waits).Reachable s) :
    s.Kept := by
  refine System.invariant _ ?_ ?_ h
  · rintro _ ⟨objects, rfl⟩
    exact Senders.create_kept objects
  · rintro s e s' kept ⟨allowed, step⟩
    exact Senders.step_kept kept allowed step

/-- **A posted `send` transmits what was passed**, in every run in which calls return
and bytes change only after the task has ended: what the task finds is what the
caller passed, and when it ends, that and nothing else was added to what was sent
or buffered. The tasks of such a run return, as for a `send` on the loop thread. -/
theorem posted_send_intact {s : Senders} (h : (senders.restrict Senders.Waits).Reachable s) :
    (∀ i call, s.Waiting i → s.calls[i]? = some call → ∃ data,
      designate s.objects call.data call.len = .ok data ∧ data.bytes = call.wanted) ∧
    (∀ r call s', s.running = some r → s.calls[r.call]? = some call →
      Senders.Step s .rest s' → s'.conn.failed = false →
        s'.conn.taken ++ s'.conn.writeBuffer.unread = r.before ++ call.wanted) ∧
    (∀ i call k errno, s.running = none → i ∈ s.queue → s.calls[i]? = some call → k ≤ call.len →
      ∃ s', Senders.Step s (.direct i (.accepted k errno)) s') ∧
    ∀ r call, s.running = some r → s.calls[r.call]? = some call → s.conn.failed = false →
      s.conn.chan.event = true → s.conn.writeBuffer.Fits call.len →
        ∃ s', Senders.Step s .rest s' := by
  have kept := senders_kept h
  refine ⟨fun i call waits at_ => ?_, fun r call s' busy at_ step live => ?_, ?_, ?_⟩
  · obtain ⟨data, designated, _, bytes⟩ := (kept.shows waits at_).designate
    exact ⟨data, designated, bytes⟩
  · cases step with
    | rest busy' at' task =>
      cases busy.symm.trans busy'
      cases at_.symm.trans at'
      exact (kept.rest busy at_ task).2 live
  · intro i call k errno idle queued at_ hk
    exact kept.direct_returns errno idle queued at_ hk
  · intro r call busy at_ alive live fits
    exact kept.rest_returns busy at_ alive live fits

/-- Both bytes are accepted while the caller is still in `send`. -/
theorem posted_send_intact_prompt :
    ∃ s s', (senders.restrict Senders.Waits).Reachable s ∧ Senders.Step s .rest s' ∧
      s'.conn.taken ++ s'.conn.writeBuffer.unread = [1, 2] := by
  have start : (senders.restrict Senders.Waits).Reachable (.create fun _ => oneTwo) :=
    .start ⟨_, rfl⟩
  have called := start.allow (posted_step 2 (by decide) (by decide)) trivial
  obtain ⟨s, s', direct, rest, calls, ⟨nwrite, remaining, busy⟩, _, alive, _⟩ :=
    task_accepted (s := posted 2) rfl rfl rfl rfl rfl rfl
  have run := called.allow direct fun _ _ _ => nofun
  refine ⟨s, s', run, rest, ?_⟩
  exact (posted_send_intact run).2.1 _ _ s' busy (by rw [calls]; rfl) rest alive

/-- The caller of `send(p, 2)` returns and writes `p` before the loop runs the task;
the caller of `send(p, 1)` returns and the memory of its parameter `len` is reused. -/
theorem posted_send_late :
    (∃ s, senders.Reachable s ∧ s.running = none ∧ s.conn.failed = false ∧
      s.conn.taken ++ s.conn.writeBuffer.unread = [3, 4] ∧ s.conn.passed = [1, 2]) ∧
    ∃ s, senders.Reachable s ∧ s.running = none ∧ s.conn.failed = false ∧
      s.conn.taken ++ s.conn.writeBuffer.unread = [1, 2] ∧ s.conn.passed = [1] := by
  have start : senders.Reachable (.create fun _ => oneTwo) := .start ⟨_, rfl⟩
  constructor
  · have called := start.next (posted_step 2 (by decide) (by decide))
    have frame : (posted 2).calls[0]? = some ⟨⟨0, 0⟩, 2, false, [1, 2]⟩ := rfl
    have returned := called.next (Senders.Step.returns frame)
    have overwritten := returned.next (Senders.Step.write 0 threeFour)
    obtain ⟨s₁, s₂, direct, rest, _, _, ends⟩ := task_accepted
      (s := ((posted 2).setCall 0 ⟨⟨0, 0⟩, 2, true, [1, 2]⟩).write 0 threeFour)
      rfl rfl rfl rfl rfl rfl
    exact ⟨s₂, (overwritten.next direct).next rest, ends⟩
  · have called := start.next (posted_step 1 (by decide) (by decide))
    have frame : (posted 1).calls[0]? = some ⟨⟨0, 0⟩, 1, false, [1]⟩ := rfl
    have returned := called.next (Senders.Step.returns frame)
    have gone : ((posted 1).setCall 0 ⟨⟨0, 0⟩, 1, true, [1]⟩).calls[0]? =
        some ⟨⟨0, 0⟩, 1, true, [1]⟩ := rfl
    have reused := returned.next (Senders.Step.reuse ⟨0, 0⟩ 2 gone rfl)
    obtain ⟨s₁, s₂, direct, rest, _, _, ends⟩ := task_accepted
      (s := (posted 1).setCall 0 ⟨⟨0, 0⟩, 2, true, [1]⟩) rfl rfl rfl rfl rfl rfl
    exact ⟨s₂, (reused.next direct).next rest, ends⟩

end Libatp.Net
