import Libatp.Buffer.Valid
import Libatp.Rpc.RpcMessage

/-!
# `RpcServer::onMessage` and `RpcChannel` (`app/atp_rpc_server.cpp`, `app/atp_rpc_channel.cpp`)

The services are user code. A method parses its request, acts on a `World` of
the services' own and answers before `CallMethod` returns: it runs its closure
once, which is `doneCallback`. `Body` is the type of all request and response
objects. `calls` and `sent` record what the handlers did: the calls of
`CallMethod` and the bytes given to `conn->send`.

Logging is left out, and so are `CallMethod` and `outstandings_` of the channel,
which belong to a client and are empty.
-/

namespace Libatp.Rpc
open Base Buffer

variable {World Body : Type}

structure Method (World Body : Type) where
  name : List Byte
  /-- `GetRequestPrototype(method).New()` and `ParseFromString`. -/
  parseRequest : List Byte → Option Body
  callMethod : World → Body → World × Body
  serializeResponse : Body → List Byte

structure Service (World Body : Type) where
  fullName : List Byte
  methods : List (Method World Body)

def Service.findMethodByName (service : Service World Body) (name : List Byte) :
    Option (Method World Body) :=
  service.methods.find? (·.name = name)

/-- `ProtobufServicesMap`, keyed by the full names. -/
abbrev ServicesMap (World Body : Type) := List (Service World Body)

def ServicesMap.find (services : ServicesMap World Body) (name : List Byte) :
    Option (Service World Body) :=
  List.find? (·.fullName = name) services

structure Call (Body : Type) where
  service : List Byte
  method : List Byte
  request : Body
  deriving DecidableEq, Repr

structure Served (World Body : Type) where
  world : World
  calls : List (Call Body)
  sent : List (List Byte)

/-- The constructor leaves `id_` unset; `onRpcRequest` writes it before
`doneCallback` reads it. -/
structure RpcChannel (World Body : Type) where
  services : ServicesMap World Body
  id : BitVec 64 := 0

namespace RpcChannel

def doneCallback (codec : Codec) (channel : RpcChannel World Body) (s : Served World Body)
    (response : List Byte) : Served World Body :=
  let message : RpcMessage :=
    { type := some .response, id := some channel.id, response := some response }
  { s with sent := s.sent ++ [codec.serialize message] }

/-- `error` is set for a service or a method that is not there, and then nothing
is done with it. -/
def onRpcRequest (codec : Codec) (channel : RpcChannel World Body) (s : Served World Body)
    (message : RpcMessage) : Served World Body :=
  match channel.services.find (message.service.getD []) with
  | none => s
  | some service =>
    match service.findMethodByName (message.method.getD []) with
    | none => s
    | some method =>
      match method.parseRequest (message.request.getD []) with
      | none => s
      | some request =>
        let channel := { channel with id := message.id.getD 0 }
        let (world, response) := method.callMethod s.world request
        let calls := s.calls ++ [⟨service.fullName, method.name, request⟩]
        channel.doneCallback codec { s with world, calls } (method.serializeResponse response)

def onRpcMessage (codec : Codec) (channel : RpcChannel World Body) (s : Served World Body)
    (message : RpcMessage) : Served World Body :=
  match message.type.getD .unknow with
  | .request => channel.onRpcRequest codec s message
  -- `onRpcResponse` only logs
  | .response => s
  | .unknow => s

/-- What `onMessage` does with the slice it took. -/
def onSlice (codec : Codec) (channel : RpcChannel World Body) (s : Served World Body)
    (slice : List Byte) : Served World Body :=
  if slice = [] then s else channel.onRpcMessage codec s (codec.parse slice)

/-- The length `onMessage` asks `consume` for. -/
def sliceSize : Nat := 65535

def onMessage (codec : Codec) (channel : RpcChannel World Body) (s : Served World Body)
    (buff : ByteBuffer) : Checked (ByteBuffer × Served World Body) := do
  let (buff, slice) ← buff.consume sliceSize
  return (buff, channel.onSlice codec s (slice.bytes buff.buff))

end RpcChannel

/-- `RpcServer::onMessage`. Every event gets a channel of its own. -/
def onMessage (codec : Codec) (services : ServicesMap World Body) (s : Served World Body)
    (buff : ByteBuffer) : Checked (ByteBuffer × Served World Body) :=
  let channel : RpcChannel World Body := { services }
  channel.onMessage codec s buff

/-! ## A connection's read events

The read buffer is the queue of its unread bytes (`Buffer.Queue`). A read event
appends what has arrived and hands the buffer to `onMessage`. -/

structure Session (World Body : Type) where
  unread : List Byte
  served : Served World Body

def Session.read (codec : Codec) (services : ServicesMap World Body) (t : Session World Body)
    (data : List Byte) : Session World Body where
  unread := (t.unread ++ data).drop RpcChannel.sliceSize
  served := RpcChannel.onSlice codec { services } t.served
    ((t.unread ++ data).take RpcChannel.sliceSize)

def Session.run (codec : Codec) (services : ServicesMap World Body) (t : Session World Body)
    (events : List (List Byte)) : Session World Body :=
  events.foldl (Session.read codec services) t

/-- On any valid buffer that holds these bytes the handler returns, does what
the session does, and leaves the bytes the session keeps. -/
theorem onMessage_read (codec : Codec) (services : ServicesMap World Body)
    (t : Session World Body) (data : List Byte) {buff : ByteBuffer} (valid : buff.Valid)
    (holds : buff.unread = t.unread ++ data) :
    ∃ buff', onMessage codec services t.served buff =
        .ok (buff', (t.read codec services data).served) ∧
      buff'.Valid ∧ buff'.unread = (t.read codec services data).unread := by
  obtain ⟨buff', slice, taken, valid', rest, bytes⟩ :=
    ByteBuffer.consume_ok valid RpcChannel.sliceSize
  have ran : onMessage codec services t.served buff =
      .ok (buff', RpcChannel.onSlice codec { services } t.served (slice.bytes buff'.buff)) := by
    rw [onMessage, RpcChannel.onMessage, taken]
    rfl
  rw [bytes, holds] at ran
  rw [holds] at rest
  exact ⟨buff', ran, valid', rest⟩

/-- The read events of a connection on the buffer itself: `held` is the buffer
that `readv` hands over. -/
inductive Reads (codec : Codec) (services : ServicesMap World Body) :
    ByteBuffer → Served World Body → List (List Byte) → ByteBuffer → Served World Body → Prop
  | done (buff : ByteBuffer) (s : Served World Body) : Reads codec services buff s [] buff s
  | event {buff held buff₁ buff₂ : ByteBuffer} {s s₁ s₂ : Served World Body} {data : List Byte}
      {events : List (List Byte)} (valid : held.Valid) (holds : held.unread = buff.unread ++ data)
      (ran : onMessage codec services s held = .ok (buff₁, s₁))
      (rest : Reads codec services buff₁ s₁ events buff₂ s₂) :
      Reads codec services buff s (data :: events) buff₂ s₂

theorem Reads.run {codec : Codec} {services : ServicesMap World Body} {buff buff' : ByteBuffer}
    {s s' : Served World Body} {events : List (List Byte)}
    (h : Reads codec services buff s events buff' s') :
    Session.run codec services ⟨buff.unread, s⟩ events = ⟨buff'.unread, s'⟩ := by
  induction h with
  | done => rfl
  | @event buff held buff₁ buff₂ s s₁ s₂ data events valid holds ran rest ih =>
    obtain ⟨buff₁', returned, _, unread⟩ :=
      onMessage_read codec services ⟨buff.unread, s⟩ data valid holds
    rw [ran] at returned
    cases returned
    rw [unread] at ih
    exact ih

end Libatp.Rpc
