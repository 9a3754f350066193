import Libatp.Base.System
import Libatp.Buffer.Readv
import Libatp.Net.Channel

/-!
# `Connection` on its loop thread (`net/atp_tcp_conn.cpp`)

Every step is taken by the thread of the connection's loop, where `sendToQueue`
runs its task at once. The callbacks of the application stand at the end of the
functions that call them, so a `send` or `close` made inside one is the next
event; only `eventHandle` goes on afterwards, from its read half to its write
half, and `halfway` says that it still has to.
-/

namespace Libatp.Net
open Base Buffer

/-- What `const void* data` and `size_t len` designate: `len` bytes somewhere in
an object of the caller. -/
structure Source where
  mem : List Byte
  off : Nat
  len : Nat
  within : off + len ≤ mem.length
  size : mem.length < wordSize
  deriving DecidableEq, Repr

def Source.bytes (s : Source) : List Byte := window s.mem s.off s.len

/-- The `n` bytes at `data + delta`. -/
def Source.at (s : Source) (delta : Int) (n : Nat) : Checked (List Byte) :=
  if 0 ≤ s.off + delta then load s.mem (s.off + delta).toNat n else .error .outOfBounds

/-- `taken`, `passed`, `failed`, `closes` and `completions` are history: the bytes
the kernel accepted, the bytes passed to `send`, whether a `::send` failed for
good, the calls of `close_fn_`, and what the write buffer held at each call of
`write_complete_fn_`. -/
structure Connection where
  chan : Channel
  readBuffer : ByteBuffer
  writeBuffer : ByteBuffer
  halfway : Bool
  taken : List Byte
  passed : List Byte
  failed : Bool
  closes : Nat
  completions : List (List Byte)
  deriving DecidableEq, Repr

namespace Connection

def create : Connection where
  chan := .create
  readBuffer := .create reservedPrependSize initBufferSize
  writeBuffer := .create reservedPrependSize initBufferSize
  halfway := false
  taken := []
  passed := []
  failed := false
  closes := 0
  completions := []

def netFdCloseHandle (c : Connection) : Checked Connection := do
  let chan ← c.chan.disableAllEvents
  let chan ← chan.close
  return { c with chan := chan, closes := c.closes + 1 }

def netFdErrorHandle (c : Connection) : Checked Connection := c.netFdCloseHandle

def writeComplete (c : Connection) : Connection :=
  { c with completions := c.completions ++ [c.writeBuffer.unread] }

def attachToEventLoop (c : Connection) : Checked Connection := do
  let chan ← c.chan.enableEvents true false
  return { c with chan := chan }

/-- The first block of the task that `send` posts. `nwrite` stays -1 after a
failure. -/
def sendDirect (c : Connection) (data : Source) : SendOutcome → Checked (Connection × Int × Nat)
  | .accepted k _ =>
    let c := { c with taken := c.taken ++ data.bytes.take k }
    let remaining := wsub data.len k
    return (if remaining = 0 then c.writeComplete else c, k, remaining)
  | .failed errno => do
    if errno.rwRetriable then
      return (c, -1, data.len)
    else
      let c ← c.netFdErrorHandle
      return ({ c with failed := true }, -1, data.len)

/-- The second block: what is left goes to the write buffer. -/
def sendRest (c : Connection) (data : Source) (nwrite : Int) (remaining : Nat) :
    Checked Connection := do
  if 0 < remaining then
    let rest ← data.at nwrite remaining
    let writeBuffer ← c.writeBuffer.append rest
    let chan ← c.chan.enableEvents false true
    return { c with chan := chan, writeBuffer := writeBuffer }
  else
    return c

/-- No retransmission is under way. -/
def isDirect (c : Connection) : Checked Bool :=
  if c.chan.isWritable then return false
  else do return (← c.writeBuffer.unreadBytes) = 0

/-- The task that `send` posts. -/
def sendTask (c : Connection) (data : Source) (out : SendOutcome) : Checked Connection := do
  let direct ← c.isDirect
  let (c, nwrite, remaining) ←
    (if direct then c.sendDirect data out else pure (c, 0, data.len))
  c.sendRest data nwrite remaining

def pass (c : Connection) (data : Source) : Connection :=
  { c with passed := c.passed ++ data.bytes }

/-- `send(const void*, size_t)`; `none` is a null pointer. -/
def send (c : Connection) (data : Option Source) (out : SendOutcome) : Checked Connection :=
  match data with
  | none => return c
  | some data =>
    if data.len = 0 then return c.pass data else (c.pass data).sendTask data out

def netFdReadHandle (c : Connection) (out : ReadOutcome) : Checked Connection := do
  let (readBuffer, n) ← c.readBuffer.readv out
  let c := { c with readBuffer := readBuffer }
  if n ≤ 0 then c.netFdErrorHandle else return c

/-- The tail of `netFdWriteHandle` once `remove` has run. -/
def drained (c : Connection) : Checked Connection := do
  let unread ← c.writeBuffer.unreadBytes
  if unread = 0 then
    let chan ← c.chan.disableEvents false true
    return { c with chan := chan }.writeComplete
  else
    return c

/-- `errno` is read whenever nothing was accepted, also after a call that did not
fail. -/
def netFdWriteHandle (c : Connection) (out : SendOutcome) : Checked Connection := do
  require c.chan.isWritable
  let _ ← c.writeBuffer.unreadBytes
  match out with
  | .accepted k errno =>
    if 0 < k then
      let taken := c.taken ++ c.writeBuffer.unread.take k
      let writeBuffer ← c.writeBuffer.remove k
      drained { c with writeBuffer := writeBuffer, taken := taken }
    else if errno.rwRetriable then return c
    else c.netFdErrorHandle
  | .failed errno =>
    if errno.rwRetriable then return c
    else netFdErrorHandle { c with failed := true }

end Connection

/-- What happens on the loop thread next, with the outcome of the system call it
makes. `ready` is `eventHandle` up to the end of its read half. -/
inductive Event where
  | attach
  | send (data : Option Source) (out : SendOutcome)
  | close
  | ready (which : Interest) (out : ReadOutcome)
  | writeHalf (out : SendOutcome)
  deriving DecidableEq, Repr

/-- A call accepts at most what it is offered, and the two halves of `eventHandle`
follow each other. -/
def Event.Possible (c : Connection) : Event → Prop
  | .attach | .close => True
  | .send none _ => True
  | .send (some data) out => out.Within data.len
  | .ready _ out => c.halfway = false ∧ ∀ data, out = .bytes data → ReadOffered c.readBuffer data
  | .writeHalf out => c.halfway = true ∧ out.Within c.writeBuffer.unread.length

def Event.exec (c : Connection) : Event → Checked Connection
  | .attach => c.attachToEventLoop
  | .send data out => c.send data out
  | .close => c.netFdCloseHandle
  | .ready which out => do
    let c ← (if which.read && c.chan.callbacks then c.netFdReadHandle out else pure c)
    return { c with halfway := which.write }
  | .writeHalf out => do
    let c ← (if c.chan.callbacks then c.netFdWriteHandle out else pure c)
    return { c with halfway := false }

/-- One connection over its whole life. Any descriptor event can come at any
time, also one that was not asked for. -/
def connection : System Connection Event where
  start c := c = .create
  step c e c' := e.Possible c ∧ e.exec c = .ok c'

end Libatp.Net
