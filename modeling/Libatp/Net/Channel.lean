import Libatp.Base.Checked

/-!
# `Channel` (`net/atp_channel.cpp`)

The interest of one descriptor in events. `events` is the mask the channel keeps,
`registered` what libevent watches. `event_add` and `event_del` succeed; the
callbacks are set together and cleared together.
-/

namespace Libatp.Net
open Base

/-- A mask of `ATP_READ_EVENT` and `ATP_WRITE_EVENT`. -/
structure Interest where
  read : Bool
  write : Bool
  deriving DecidableEq, Repr

def Interest.none : Interest := ⟨false, false⟩

structure Channel where
  /-- `event_` is not `NULL` -/
  event : Bool
  events : Interest
  attached : Bool
  callbacks : Bool
  registered : Option Interest
  deriving DecidableEq, Repr

namespace Channel

/-- `Channel(event_loop, fd, false, false)` with both callbacks set. -/
def create : Channel := ⟨true, .none, false, true, Option.none⟩

def isNone (c : Channel) : Bool := c.events = .none

def isWritable (c : Channel) : Bool := c.events.write

def detachFromEventLoop (c : Channel) : Checked Channel :=
  if c.attached then
    if c.event then .ok { c with attached := false, registered := Option.none }
    else .error .nullPointer
  else .ok c

def attachToEventLoop (c : Channel) : Checked Channel := do
  if c.isNone then
    return c
  else
    let c ← c.detachFromEventLoop
    if c.event then
      return { c with attached := true, registered := some c.events }
    else
      .error .nullPointer

def updateEvents (c : Channel) : Checked Channel :=
  if c.isNone then c.detachFromEventLoop else c.attachToEventLoop

/-- The mask is written first; libevent is told only if it changed. -/
def setEvents (c : Channel) (events : Interest) : Checked Channel :=
  if events ≠ c.events then { c with events := events }.updateEvents else .ok c

def enableEvents (c : Channel) (readable writable : Bool) : Checked Channel :=
  c.setEvents ⟨c.events.read || readable, c.events.write || writable⟩

def disableEvents (c : Channel) (readable writable : Bool) : Checked Channel :=
  c.setEvents ⟨c.events.read && !readable, c.events.write && !writable⟩

def disableAllEvents (c : Channel) : Checked Channel := c.setEvents .none

def close (c : Channel) : Checked Channel := do
  if c.event then
    let c ← c.detachFromEventLoop
    return { c with event := false, callbacks := false }
  else
    return { c with callbacks := false }

end Channel

end Libatp.Net
