import Libatp.Base.Word

/-!
# Socket calls

What a non-blocking call on a socket can do. `errno` is read by some callers
after a call that did not fail, so every outcome carries the value it then has:
that of some earlier call.
-/

namespace Libatp.Base

inductive Errno where
  | eintr
  | eagain
  | other (code : Nat)
  deriving DecidableEq, Repr

/-- `EAGAIN`, which equals `EWOULDBLOCK` here, and `EINTR`. -/
def Errno.rwRetriable : Errno → Bool
  | .eintr | .eagain => true
  | .other _ => false

/-- `::readv` filled its vectors with `bytes`, met the end of the stream, or
failed. -/
inductive ReadOutcome where
  | bytes (data : List Byte)
  | eof (errno : Errno)
  | failed (errno : Errno)
  deriving DecidableEq, Repr

/-- `::send` took the first `count` bytes it was offered, or failed. -/
inductive SendOutcome where
  | accepted (count : Nat) (errno : Errno)
  | failed (errno : Errno)
  deriving DecidableEq, Repr

/-- A call that is offered `n` bytes takes no more. -/
def SendOutcome.Within (n : Nat) : SendOutcome → Prop
  | .accepted k _ => k ≤ n
  | .failed _ => True

end Libatp.Base
