import Libatp.Rpc.Segmentation

/-!
# Messages that are merged (`rpc.pb.cc`)

The generated parser has two ways through its fields: the loop over tags, and the jumps that
`ExpectTag` takes when the next field is the next one in order. A jump leads to a label behind
the test of the wire type. A stream of several messages is one message to the parser, in which
later fields replace earlier ones.
-/

namespace Libatp.Rpc
open Base Buffer

/-! ## The labels of `MergePartialFromCodedStream` -/

section
variable (r : Reader)

/-- What follows a label: the field is read, and where the tag of the next field is found, the
parser goes on at the label of that one. -/
def label (read : Reader → RpcMessage → List Byte → Field) (tag : Nat)
    (next : RpcMessage → List Byte → Turn) (m : RpcMessage) (input : List Byte) : Turn :=
  match read r m input with
  | (m, none) => .left m false
  | (m, some rest) =>
    match r.expectTag tag rest with
    | none => .again m rest
    | some rest => next m rest

/-- After the last field the parser asks for the end of the input. -/
def parseError (m : RpcMessage) (input : List Byte) : Turn :=
  match readError r m input with
  | (m, none) => .left m false
  | (m, some rest) => if r.expectAtEnd rest then .left m true else .again m rest

def parseResponse : RpcMessage → List Byte → Turn := label r readResponse 56 (parseError r)

def parseRequest : RpcMessage → List Byte → Turn := label r readRequest 50 (parseResponse r)

end

section
variable {r : Reader}

end

section
variable {r : Reader} {m : RpcMessage} {tag : Nat} {input : List Byte}

end

/-! ## Several messages in one stream -/

/-- Parsing messages that were serialized one after the other merges them. The parser is never
given more than one slice. -/
def Codec.Merges (codec : Codec) : Prop :=
  ∀ messages : List RpcMessage, (messages.flatMap codec.serialize).length ≤ RpcChannel.sliceSize →
    codec.parse (messages.flatMap codec.serialize) = messages.foldl RpcMessage.mergeFrom {}

theorem codec_merges (rt : Runtime) (all : ∀ value, rt.fits value) :
    (RpcMessage.codec rt all).Merges := by
  intro messages _
  exact congrArg Prod.fst (mergeFields_stream {} fun _ _ =>
    ⟨fun _ => all _, fun _ => all _, fun _ => all _, fun _ => all _⟩)

/-- A request as clients make it: with all fields that a request has, and no others. -/
structure Asks (m : RpcMessage) : Prop where
  type : m.type = some .request
  id : m.id.isSome = true
  service : m.service.isSome = true
  method : m.method.isSome = true
  request : m.request.isSome = true
  response : m.response = none
  error : m.error = none

section
variable {m last : RpcMessage} {batch : List RpcMessage}

/-- A request replaces the one before it. -/
theorem mergeFrom_asks (response : m.response = none) (error : m.error = none) (h : Asks last) :
    m.mergeFrom last = last := by
  obtain ⟨type, id, service, method, request, response', error'⟩ := last
  obtain ⟨rfl, some_id, some_service, some_method, some_request, rfl, rfl⟩ := h
  obtain ⟨id, rfl⟩ := Option.isSome_iff_exists.mp some_id
  obtain ⟨service, rfl⟩ := Option.isSome_iff_exists.mp some_service
  obtain ⟨method, rfl⟩ := Option.isSome_iff_exists.mp some_method
  obtain ⟨request, rfl⟩ := Option.isSome_iff_exists.mp some_request
  simp only [RpcMessage.mergeFrom, response, error, Option.or_none]
  rfl

theorem foldl_asks (response : m.response = none) (error : m.error = none)
    (all : ∀ message ∈ batch, Asks message) :
    batch.foldl RpcMessage.mergeFrom m = batch.getLastD m := by
  induction batch generalizing m with
  | nil => rfl
  | cons first batch ih =>
    obtain ⟨asks, others⟩ := List.forall_mem_cons.mp all
    rw [List.foldl_cons, mergeFrom_asks response error asks, ih asks.response asks.error others,
      List.getLastD_cons]

end

section
variable {World Body : Type} {codec : Codec} (services : ServicesMap World Body)

/-- A request is not written as nothing, since nothing is read as an empty message. -/
theorem Asks.serialize_ne_nil {m : RpcMessage} (merges : codec.Merges) (h : Asks m) :
    codec.serialize m ≠ [] := by
  intro none_
  have empty : codec.parse [] = {} := merges [] (Nat.zero_le _)
  have same := codec.parse_serialize m
  rw [none_, empty] at same
  have type := h.type
  rw [← same] at type
  cases type

theorem read_short (codec : Codec) (s : Served World Body) (data : List Byte)
    (short : data.length ≤ RpcChannel.sliceSize) :
    Session.read codec services ⟨[], s⟩ data =
      ⟨[], RpcChannel.onSlice codec { services } s data⟩ := by
  rw [Session.read]
  simp only [List.nil_append]
  rw [List.drop_of_length_le short, List.take_of_length_le short]

/-- One event with several requests. -/
theorem read_batch (merges : codec.Merges) (s : Served World Body) {batch : List RpcMessage}
    (all : ∀ message ∈ batch, Asks message)
    (short : (batch.flatMap codec.serialize).length ≤ RpcChannel.sliceSize) :
    Session.read codec services ⟨[], s⟩ (batch.flatMap codec.serialize) =
      Session.run codec services ⟨[], s⟩ (batch.getLast?.toList.map codec.serialize) := by
  rw [read_short services _ s _ short]
  cases found : batch.getLast? with
  | none =>
    rw [List.getLast?_eq_none_iff.mp found]
    rfl
  | some last =>
    have mem : last ∈ batch := List.mem_of_getLast? found
    have whole : (codec.serialize last).length ≤ (batch.flatMap codec.serialize).length :=
      (List.sublist_flatten_of_mem (List.mem_map_of_mem mem)).length_le
    have single : Session.run codec services ⟨[], s⟩ ((some last).toList.map codec.serialize) =
        Session.read codec services ⟨[], s⟩ (codec.serialize last) := rfl
    have some_ := (all last mem).serialize_ne_nil merges
    have joined : batch.flatMap codec.serialize ≠ [] := by
      intro none_
      rw [none_] at whole
      exact some_ (List.length_eq_zero_iff.mp (Nat.le_zero.mp whole))
    have parsed : codec.parse (batch.flatMap codec.serialize) = last := by
      rw [merges batch short, foldl_asks rfl rfl all, List.getLastD_eq_getLast?, found,
        Option.getD_some]
    rw [single, read_short services _ s _ (Nat.le_trans whole short), RpcChannel.onSlice,
      RpcChannel.onSlice, if_neg joined, if_neg some_, parsed, codec.parse_serialize]

/-- **Of the requests in one event the last is served.** With every codec that merges messages,
a run whose events bring any numbers of complete requests does what it would do if every event
had brought the last of its requests alone: the others get no call and no answer. -/
theorem coalesced_requests_last (merges : codec.Merges) (s : Served World Body)
    (batches : List (List RpcMessage)) (all : ∀ batch ∈ batches, ∀ message ∈ batch, Asks message)
    (short : ∀ batch ∈ batches,
      (batch.flatMap codec.serialize).length ≤ RpcChannel.sliceSize) :
    Session.run codec services ⟨[], s⟩ (batches.map (List.flatMap codec.serialize)) =
      Session.run codec services ⟨[], s⟩
        ((batches.filterMap List.getLast?).map codec.serialize) := by
  induction batches generalizing s with
  | nil => rfl
  | cons batch batches ih =>
    obtain ⟨asks, others⟩ := List.forall_mem_cons.mp all
    obtain ⟨fits, fit⟩ := List.forall_mem_cons.mp short
    have lasts : (batch :: batches).filterMap List.getLast? =
        batch.getLast?.toList ++ batches.filterMap List.getLast? := by
      cases found : batch.getLast? with
      | none => rw [List.filterMap_cons_none found]; rfl
      | some last => rw [List.filterMap_cons_some found]; rfl
    have event := read_batch services merges s asks fits
    rw [read_short services _ s _ fits] at event
    rw [lasts, List.map_append, List.map_cons]
    simp only [Session.run, List.foldl_append, List.foldl_cons] at event ih ⊢
    rw [← event, read_short services _ s _ fits]
    exact ih _ others fit

end

/-- Two requests of one client in one event: the first one is lost. -/
theorem coalesced_requests_echo :
    (Session.run echoCodec [echoService] ⟨[], ⟨(), [], []⟩⟩
      [echoCodec.serialize (echoRequest 7).message ++
        echoCodec.serialize (echoRequest 8).message]).served.calls =
      [(echoRequest 8).order.call] := by
  have asks (id : BitVec 64) : Asks (echoRequest id).message := ⟨rfl, rfl, rfl, rfl, rfl, rfl, rfl⟩
  have merges : echoCodec.Merges := codec_merges (wireFormat fun _ _ => none) fun _ => trivial
  have run := coalesced_requests_last [echoService] merges ⟨(), [], []⟩
    [[(echoRequest 7).message, (echoRequest 8).message]]
    (by simp [asks]) (by simp [echoRequest_length, RpcChannel.sliceSize])
  have single : Session.run echoCodec [echoService] ⟨[], ⟨(), [], []⟩⟩
      [echoCodec.serialize (echoRequest 8).message] =
        ⟨[], Order.perform echoCodec ⟨(), [], []⟩ (echoRequest 8).order⟩ := by
    have event := read_short [echoService] echoCodec ⟨(), [], []⟩
      (echoCodec.serialize (echoRequest 8).message) (by
        rw [echoRequest_length]
        decide)
    rw [RpcChannel.onSlice, if_neg (echoRequest_ne_nil 8), echoCodec.parse_serialize,
      onRpcMessage_order, (echoRequest 8).asks] at event
    exact event
  simp only [List.map_cons, List.map_nil, List.flatMap_cons, List.flatMap_nil,
    List.append_nil] at run
  exact congrArg (fun t => t.served.calls) (run.trans single)

/-! ## The size that is computed before writing -/

end Libatp.Rpc
