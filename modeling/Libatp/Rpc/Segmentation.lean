import Libatp.Rpc.RpcChannel

/-!
# Requests and read events

`onMessage` takes up to 65535 bytes of what has arrived and parses them as one
message, so an event leads to at most one call. An order is what a message asks
for, and a session carries out the orders of the slices it takes, in turn. Of a
parser nothing is known but that it recovers a serialized message; that is
enough to answer every request once exactly when each slice is a serialized
message and their orders are those of the requests.
-/

namespace Libatp.Rpc
open Base

variable {World Body : Type}

structure Order (World Body : Type) where
  service : List Byte
  method : Method World Body
  id : BitVec 64
  request : Body

namespace Order

def call (o : Order World Body) : Call Body := ⟨o.service, o.method.name, o.request⟩

/-- The response to an order that is carried out in `world`. -/
def reply (world : World) (o : Order World Body) : RpcMessage :=
  { type := some .response, id := some o.id,
    response := some (o.method.serializeResponse (o.method.callMethod world o.request).2) }

def perform (codec : Codec) (s : Served World Body) (o : Order World Body) :
    Served World Body where
  world := (o.method.callMethod s.world o.request).1
  calls := s.calls ++ [o.call]
  sent := s.sent ++ [codec.serialize (o.reply s.world)]

end Order

/-- A message has an order if it is a request for a registered service and
method, with a body that the method parses. -/
def orderOf (services : ServicesMap World Body) (m : RpcMessage) : Option (Order World Body) :=
  if m.type.getD .unknow = .request then do
    let service ← services.find (m.service.getD [])
    let method ← service.findMethodByName (m.method.getD [])
    let request ← method.parseRequest (m.request.getD [])
    return ⟨service.fullName, method, m.id.getD 0, request⟩
  else
    none

theorem onRpcMessage_order (codec : Codec) (services : ServicesMap World Body)
    (s : Served World Body) (m : RpcMessage) :
    RpcChannel.onRpcMessage codec { services } s m =
      (orderOf services m).elim s (Order.perform codec s) := by
  rw [RpcChannel.onRpcMessage, orderOf]
  cases m.type.getD .unknow with
  | unknow => rfl
  | response => rfl
  | request =>
    rw [if_pos rfl]
    simp only [RpcChannel.onRpcRequest]
    cases services.find (m.service.getD []) with
    | none => rfl
    | some service =>
      simp only [Option.bind_eq_bind, Option.bind_some]
      cases service.findMethodByName (m.method.getD []) with
      | none => rfl
      | some method =>
        simp only [Option.bind_some]
        cases method.parseRequest (m.request.getD []) with
        | none => rfl
        | some request => rfl

/-- The names of an order and its services determine the method. -/
theorem orderOf_found {services : ServicesMap World Body} {m : RpcMessage}
    {o : Order World Body} (h : orderOf services m = some o) :
    ∃ service, services.find o.service = some service ∧
      service.findMethodByName o.method.name = some o.method := by
  rw [orderOf] at h
  split at h
  · obtain ⟨service, found, h⟩ := Option.bind_eq_some_iff.mp h
    obtain ⟨method, named, h⟩ := Option.bind_eq_some_iff.mp h
    obtain ⟨request, _, h⟩ := Option.bind_eq_some_iff.mp h
    cases h
    have full : service.fullName = m.service.getD [] := by simpa using List.find?_some found
    have name : method.name = m.method.getD [] := by simpa using List.find?_some named
    exact ⟨service, full ▸ found, name ▸ named⟩
  · cases h

theorem orderOf_ext {services : ServicesMap World Body} {m₁ m₂ : RpcMessage}
    {o₁ o₂ : Order World Body} (h₁ : orderOf services m₁ = some o₁)
    (h₂ : orderOf services m₂ = some o₂) (call : o₁.call = o₂.call) (id : o₁.id = o₂.id) :
    o₁ = o₂ := by
  obtain ⟨service₁, found₁, named₁⟩ := orderOf_found h₁
  obtain ⟨service₂, found₂, named₂⟩ := orderOf_found h₂
  obtain ⟨name₁, method₁, id₁, request₁⟩ := o₁
  obtain ⟨name₂, method₂, id₂, request₂⟩ := o₂
  obtain ⟨rfl, name, rfl⟩ := Call.mk.inj call
  cases found₁.symm.trans found₂
  rw [name] at named₁
  cases named₁.symm.trans named₂
  cases id
  rfl

/-! ## Answers -/

/-- The responses to orders that are carried out one after the other. -/
def replies (world : World) : List (Order World Body) → List RpcMessage
  | [] => []
  | o :: orders => o.reply world :: replies (o.method.callMethod world o.request).1 orders

/-- From `s` to `s'` there was one call for each order and one response, with
the id of the order and the body the service gave, and all in order. -/
structure Answered (codec : Codec) (s : Served World Body) (orders : List (Order World Body))
    (s' : Served World Body) : Prop where
  calls : s'.calls = s.calls ++ orders.map Order.call
  sent : s'.sent = s.sent ++ (replies s.world orders).map codec.serialize

theorem answered_perform (codec : Codec) (s : Served World Body)
    (orders : List (Order World Body)) :
    Answered codec s orders (orders.foldl (Order.perform codec) s) := by
  induction orders generalizing s with
  | nil => exact ⟨by simp, by simp [replies]⟩
  | cons o orders ih =>
    obtain ⟨calls, sent⟩ := ih (o.perform codec s)
    rw [List.foldl_cons]
    constructor
    · rw [calls, Order.perform, List.map_cons, List.append_assoc, List.singleton_append]
    · rw [sent, Order.perform, replies, List.map_cons, List.append_assoc, List.singleton_append]

theorem replies_id (world : World) (orders : List (Order World Body)) :
    (replies world orders).map RpcMessage.id = orders.map fun o => some o.id := by
  induction orders generalizing world with
  | nil => rfl
  | cons o orders ih => rw [replies, List.map_cons, List.map_cons, ih]; rfl

/-- The orders of messages can be told from the answers to them. -/
theorem orders_ext {services : ServicesMap World Body} {orders₁ orders₂ : List (Order World Body)}
    (h₁ : ∀ o ∈ orders₁, ∃ m, orderOf services m = some o)
    (h₂ : ∀ o ∈ orders₂, ∃ m, orderOf services m = some o)
    (calls : orders₁.map Order.call = orders₂.map Order.call)
    (ids : (orders₁.map fun o => some o.id) = orders₂.map fun o => some o.id) :
    orders₁ = orders₂ := by
  induction orders₁ generalizing orders₂ with
  | nil => exact (List.map_eq_nil_iff.mp calls.symm).symm
  | cons o₁ orders₁ ih =>
    cases orders₂ with
    | nil => cases calls
    | cons o₂ orders₂ =>
      obtain ⟨m₁, order₁⟩ := h₁ o₁ List.mem_cons_self
      obtain ⟨m₂, order₂⟩ := h₂ o₂ List.mem_cons_self
      obtain ⟨call, calls⟩ := List.cons.inj calls
      obtain ⟨id, ids⟩ := List.cons.inj ids
      rw [orderOf_ext order₁ order₂ call (Option.some.inj id)]
      rw [ih (fun o mem => h₁ o (List.mem_cons_of_mem _ mem))
        (fun o mem => h₂ o (List.mem_cons_of_mem _ mem)) calls ids]

theorem Answered.unique {codec : Codec} {services : ServicesMap World Body}
    {s s' : Served World Body} {orders₁ orders₂ : List (Order World Body)}
    (h₁ : ∀ o ∈ orders₁, ∃ m, orderOf services m = some o)
    (h₂ : ∀ o ∈ orders₂, ∃ m, orderOf services m = some o)
    (answered₁ : Answered codec s orders₁ s') (answered₂ : Answered codec s orders₂ s') :
    orders₁ = orders₂ := by
  have calls := List.append_cancel_left (answered₁.calls.symm.trans answered₂.calls)
  have sent := List.append_cancel_left (answered₁.sent.symm.trans answered₂.sent)
  have replied := List.map_injective_iff.mpr codec.serialize_injective sent
  apply orders_ext h₁ h₂ calls
  rw [← replies_id s.world, ← replies_id s.world, replied]

/-! ## Slices -/

/-- The slices that `onMessage` takes, event by event. They depend on the
lengths of the events alone, not on what is in them. -/
def slices : List Byte → List (List Byte) → List (List Byte)
  | _, [] => []
  | unread, data :: events =>
    (unread ++ data).take RpcChannel.sliceSize ::
      slices ((unread ++ data).drop RpcChannel.sliceSize) events

theorem slices_ne_nil {unread : List Byte} {events : List (List Byte)}
    (arrived : ∀ data ∈ events, data ≠ []) : ∀ slice ∈ slices unread events, slice ≠ [] := by
  induction events generalizing unread with
  | nil => simp [slices]
  | cons data events ih =>
    intro slice mem
    rcases List.mem_cons.mp mem with rfl | mem
    · have := arrived data List.mem_cons_self
      simp [RpcChannel.sliceSize, this]
    · exact ih (fun d h => arrived d (List.mem_cons_of_mem _ h)) slice mem

theorem slices_short {events : List (List Byte)}
    (short : ∀ data ∈ events, data.length ≤ RpcChannel.sliceSize) : slices [] events = events := by
  induction events with
  | nil => rfl
  | cons data events ih =>
    have fits := short data List.mem_cons_self
    rw [slices, List.nil_append, List.take_of_length_le fits, List.drop_of_length_le fits,
      ih fun d h => short d (List.mem_cons_of_mem _ h)]

theorem run_slices (codec : Codec) (services : ServicesMap World Body) (t : Session World Body)
    (events : List (List Byte)) :
    (t.run codec services events).served =
      (slices t.unread events).foldl (RpcChannel.onSlice codec { services }) t.served := by
  induction events generalizing t with
  | nil => rfl
  | cons data events ih => exact ih (t.read codec services data)

theorem onSlices_perform (codec : Codec) (services : ServicesMap World Body)
    {taken : List (List Byte)} (nonempty : ∀ slice ∈ taken, slice ≠ []) (s : Served World Body) :
    taken.foldl (RpcChannel.onSlice codec { services }) s =
      ((taken.map codec.parse).filterMap (orderOf services)).foldl (Order.perform codec) s := by
  induction taken generalizing s with
  | nil => rfl
  | cons slice taken ih =>
    have rest := ih fun d h => nonempty d (List.mem_cons_of_mem _ h)
    rw [List.foldl_cons, rest, RpcChannel.onSlice, if_neg (nonempty slice List.mem_cons_self),
      onRpcMessage_order, List.map_cons]
    cases asks : orderOf services (codec.parse slice) with
    | none => rw [List.filterMap_cons_none asks]; rfl
    | some o => rw [List.filterMap_cons_some asks]; rfl

/-- A session answers the orders that its parser finds in the slices. -/
theorem run_answered (codec : Codec) (services : ServicesMap World Body)
    (s : Served World Body) {events : List (List Byte)} (arrived : ∀ data ∈ events, data ≠ []) :
    Answered codec s (((slices [] events).map codec.parse).filterMap (orderOf services))
      (Session.run codec services ⟨[], s⟩ events).served := by
  rw [run_slices, onSlices_perform codec services (slices_ne_nil arrived)]
  exact answered_perform codec s _

theorem slices_length (unread : List Byte) (events : List (List Byte)) :
    (slices unread events).length = events.length := by
  induction events generalizing unread with
  | nil => rfl
  | cons data events ih => rw [slices, List.length_cons, List.length_cons, ih]

/-- Whatever the parser does, an event leads to one call at most. -/
theorem calls_le_events (codec : Codec) (services : ServicesMap World Body)
    (s : Served World Body) {events : List (List Byte)} (arrived : ∀ data ∈ events, data ≠ []) :
    (Session.run codec services ⟨[], s⟩ events).served.calls.length ≤
      s.calls.length + events.length := by
  rw [(run_answered codec services s arrived).calls, List.length_append, List.length_map]
  have found := List.length_filterMap_le (orderOf services) ((slices [] events).map codec.parse)
  rw [List.length_map, slices_length] at found
  omega

/-! ## Parsers -/

/-- `c` with a parser that makes `m` of whatever is not a serialized message. -/
def Codec.withFallback (c : Codec) (m : RpcMessage) : Codec where
  serialize := c.serialize
  parse bytes := if c.serialize (c.parse bytes) = bytes then c.parse bytes else m
  parse_serialize m' := by rw [c.parse_serialize, if_pos rfl]

/-- Two fallbacks, one without an order and one with: the parsers differ by an
order for each slice that is not a serialized message. -/
theorem fallback_orders (c : Codec) (services : ServicesMap World Body) {m : RpcMessage}
    {o : Order World Body} (asks : orderOf services m = some o) (taken : List (List Byte)) :
    ((taken.map (c.withFallback m).parse).filterMap (orderOf services)).length =
      ((taken.map (c.withFallback {}).parse).filterMap (orderOf services)).length +
        taken.countP fun slice => c.serialize (c.parse slice) ≠ slice := by
  induction taken with
  | nil => rfl
  | cons slice taken ih =>
    have idle : orderOf services {} = none := rfl
    rw [List.map_cons, List.map_cons]
    by_cases whole : c.serialize (c.parse slice) = slice
    · have parsed (m' : RpcMessage) : (c.withFallback m').parse slice = c.parse slice :=
        if_pos whole
      rw [parsed, parsed, List.countP_cons_of_neg (by simpa using whole)]
      cases found : orderOf services (c.parse slice) with
      | none => rw [List.filterMap_cons_none found, List.filterMap_cons_none found, ih]
      | some o' =>
        rw [List.filterMap_cons_some found, List.filterMap_cons_some found, List.length_cons,
          List.length_cons, ih, Nat.add_right_comm]
    · have parsed (m' : RpcMessage) : (c.withFallback m').parse slice = m' := if_neg whole
      rw [parsed, parsed, List.countP_cons_of_pos (by simpa using whole),
        List.filterMap_cons_none idle, List.filterMap_cons_some asks, List.length_cons, ih,
        Nat.add_assoc]

/-! ## Segmentation -/

/-- A request that the server can answer: it has an order. -/
structure Request (services : ServicesMap World Body) where
  message : RpcMessage
  order : Order World Body
  asks : orderOf services message = some order

theorem Request.orders_found {services : ServicesMap World Body}
    (requests : List (Request services)) :
    ∀ o ∈ requests.map Request.order, ∃ m, orderOf services m = some o := by
  intro o mem
  obtain ⟨r, _, rfl⟩ := List.mem_map.mp mem
  exact ⟨r.message, r.asks⟩

/-- The events deliver the serialized requests one after the other. How they
are cut is open; an event without data does not reach `onMessage`. -/
structure Cut (c : Codec) {services : ServicesMap World Body}
    (requests : List (Request services)) (events : List (List Byte)) : Prop where
  whole : events.flatten = (requests.map fun r => c.serialize r.message).flatten
  arrived : ∀ data ∈ events, data ≠ []

/-- Each slice is one serialized message, and the orders of these messages are
`orders`. -/
def Framed (c : Codec) (services : ServicesMap World Body) (orders : List (Order World Body))
    (events : List (List Byte)) : Prop :=
  ∃ messages : List RpcMessage, slices [] events = messages.map c.serialize ∧
    messages.filterMap (orderOf services) = orders

/-- One request for each event is one way to be framed. -/
theorem framed_one_each (c : Codec) {services : ServicesMap World Body}
    (requests : List (Request services))
    (short : ∀ r ∈ requests, (c.serialize r.message).length ≤ RpcChannel.sliceSize) :
    Framed c services (requests.map Request.order)
      (requests.map fun r => c.serialize r.message) := by
  refine ⟨requests.map Request.message, ?_, ?_⟩
  · rw [slices_short, List.map_map]
    · rfl
    · intro data mem
      obtain ⟨r, asked, rfl⟩ := List.mem_map.mp mem
      exact short r asked
  · induction requests with
    | nil => rfl
    | cons r requests ih =>
      rw [List.map_cons, List.filterMap_cons_some r.asks, List.map_cons,
        ih fun r' mem => short r' (List.mem_cons_of_mem _ mem)]

/-- For one parser: the requests are answered if their orders are what it finds
in the slices. -/
theorem answered_iff_parsed (c : Codec) {services : ServicesMap World Body}
    (s : Served World Body) (requests : List (Request services)) {events : List (List Byte)}
    (arrived : ∀ data ∈ events, data ≠ []) :
    Answered c s (requests.map Request.order) (Session.run c services ⟨[], s⟩ events).served ↔
      ((slices [] events).map c.parse).filterMap (orderOf services) =
        requests.map Request.order := by
  have ran := run_answered c services s arrived
  constructor
  · intro answered
    refine Answered.unique ?_ (Request.orders_found requests) ran answered
    intro o mem
    obtain ⟨m, _, asks⟩ := List.mem_filterMap.mp mem
    exact ⟨m, asks⟩
  · intro orders
    rwa [orders] at ran

/-- If every parser with the law answers the requests, there is no slice on
which two of them could differ. -/
theorem framed_of_answered {c : Codec} {services : ServicesMap World Body} {s : Served World Body}
    {requests : List (Request services)} {events : List (List Byte)}
    (arrived : ∀ data ∈ events, data ≠ []) (r : Request services)
    (answered : ∀ d : Codec, d.serialize = c.serialize →
      Answered d s (requests.map Request.order) (Session.run d services ⟨[], s⟩ events).served) :
    Framed c services (requests.map Request.order) events := by
  have orders (m : RpcMessage) :=
    (answered_iff_parsed (c.withFallback m) s requests arrived).mp (answered _ rfl)
  have count := fallback_orders c services r.asks (slices [] events)
  rw [orders, orders] at count
  have whole : ∀ slice ∈ slices [] events, c.serialize (c.parse slice) = slice := by
    simpa [List.countP_eq_zero] using count
  have parsed : (slices [] events).map (c.withFallback {}).parse = (slices [] events).map c.parse :=
    List.map_congr_left fun slice mem => if_pos (whole slice mem)
  refine ⟨(slices [] events).map c.parse, ?_, parsed ▸ orders {}⟩
  calc slices [] events = (slices [] events).map id := (List.map_id _).symm
    _ = (slices [] events).map (c.serialize ∘ c.parse) :=
      List.map_congr_left fun slice mem => (whole slice mem).symm
    _ = ((slices [] events).map c.parse).map c.serialize := List.map_map.symm

/-- The first part is about one parser. In the second nothing but the law is
known of it. -/
theorem dispatch_segmented_iff (c : Codec) (services : ServicesMap World Body)
    (s : Served World Body) (requests : List (Request services)) (events : List (List Byte))
    (cut : Cut c requests events) :
    (Answered c s (requests.map Request.order) (Session.run c services ⟨[], s⟩ events).served ↔
      ((slices [] events).map c.parse).filterMap (orderOf services) =
        requests.map Request.order) ∧
    ((∀ d : Codec, d.serialize = c.serialize →
      Answered d s (requests.map Request.order) (Session.run d services ⟨[], s⟩ events).served) ↔
      Framed c services (requests.map Request.order) events) := by
  refine ⟨answered_iff_parsed c s requests cut.arrived, ?_, ?_⟩
  · intro answered
    cases requests with
    | nil =>
      -- without requests nothing arrives
      have idle : events = [] := by
        apply List.eq_nil_iff_forall_not_mem.mpr
        intro data mem
        exact cut.arrived data mem (List.flatten_eq_nil_iff.mp cut.whole data mem)
      exact ⟨[], by rw [idle]; rfl, rfl⟩
    | cons r requests => exact framed_of_answered cut.arrived r answered
  · rintro ⟨messages, framed, orders⟩ d same
    have parsed : (slices [] events).map d.parse = messages := by
      rw [framed, List.map_map, ← same]
      exact List.map_id'' d.parse_serialize messages
    apply (answered_iff_parsed d s requests cut.arrived).mpr
    rw [parsed, orders]

/-! ### The echo service (`echo_server.proto`) -/

/-- `EchoRequest` has one required string. -/
def parseEchoRequest (input : List Byte) : Option (List Byte) :=
  match readTag input with
  | some (10, rest) =>
    match readDelimited [] rest with
    | (message, some []) => some message
    | _ => none
  | _ => none

/-- `Echo` answers fourteen letters, whatever it is asked. -/
def echoMethod : Method Unit (List Byte) where
  name := [69, 99, 104, 111]
  parseRequest := parseEchoRequest
  callMethod _ _ := ((), List.replicate 14 119)
  serializeResponse := writeBytes 1

def echoService : Service Unit (List Byte) where
  fullName := [97, 116, 112, 46, 69, 99, 104, 111, 83, 101, 114, 118, 105, 99, 101]
  methods := [echoMethod]

def echoRequest (id : BitVec 64) : Request [echoService] where
  message :=
    { type := some .request, id := some id, service := some echoService.fullName,
      method := some echoMethod.name, request := some [10, 2, 104, 105] }
  order := ⟨echoService.fullName, echoMethod, id, [104, 105]⟩
  asks := rfl

/-- The generated code, with a runtime that skips no unknown field. -/
def echoCodec : Codec := RpcMessage.wire fun _ _ => none

theorem echoRequest_length (id : BitVec 64) :
    (echoCodec.serialize (echoRequest id).message).length = 40 := by
  have type : (RpcMessageType.request.value.signExtend 64).toNat = 1 := rfl
  simp [echoCodec, RpcMessage.wire, RpcMessage.codec, wireFormat, RpcMessage.serialize,
    echoRequest, echoService, echoMethod, writeEnum, writeFixed64, writeBytes, writeTag, delimited,
    varint_small, type]

theorem echoRequest_ne_nil (id : BitVec 64) :
    echoCodec.serialize (echoRequest id).message ≠ [] := by
  intro empty
  have := echoRequest_length id
  rw [empty] at this
  cases this

theorem dispatch_segmented_echo :
    Framed echoCodec [echoService] [(echoRequest 7).order, (echoRequest 8).order]
      [echoCodec.serialize (echoRequest 7).message, echoCodec.serialize (echoRequest 8).message] ∧
    ∀ d : Codec, d.serialize = echoCodec.serialize →
      Answered d ⟨(), [], []⟩ [(echoRequest 7).order, (echoRequest 8).order]
        (Session.run d [echoService] ⟨[], ⟨(), [], []⟩⟩
          [echoCodec.serialize (echoRequest 7).message,
            echoCodec.serialize (echoRequest 8).message]).served := by
  have framed := framed_one_each echoCodec [echoRequest 7, echoRequest 8] (by
    simp [echoRequest_length, RpcChannel.sliceSize])
  refine ⟨framed, (dispatch_segmented_iff echoCodec [echoService] ⟨(), [], []⟩
    [echoRequest 7, echoRequest 8] _ ⟨rfl, ?_⟩).2.mpr framed⟩
  simp [echoRequest_ne_nil]

/-- Two requests in one event: whatever the parser makes of them, there is one
call at most. -/
theorem joined_requests_lost :
    Cut echoCodec [echoRequest 7, echoRequest 8]
      [echoCodec.serialize (echoRequest 7).message ++
        echoCodec.serialize (echoRequest 8).message] ∧
    ∀ d : Codec, d.serialize = echoCodec.serialize →
      ¬ Answered d ⟨(), [], []⟩ [(echoRequest 7).order, (echoRequest 8).order]
        (Session.run d [echoService] ⟨[], ⟨(), [], []⟩⟩
          [echoCodec.serialize (echoRequest 7).message ++
            echoCodec.serialize (echoRequest 8).message]).served := by
  have arrived : ∀ data ∈ [echoCodec.serialize (echoRequest 7).message ++
      echoCodec.serialize (echoRequest 8).message], data ≠ [] := by
    simp [echoRequest_ne_nil]
  refine ⟨⟨by simp, arrived⟩, ?_⟩
  intro d _ answered
  have few := calls_le_events d [echoService] ⟨(), [], []⟩ arrived
  rw [answered.calls] at few
  simp at few

end Libatp.Rpc
