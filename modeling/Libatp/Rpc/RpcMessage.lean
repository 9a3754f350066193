import Libatp.Base.Varint
import Libatp.Buffer.ByteBuffer

/-!
# `RpcMessage` (`rpc.proto`, `rpc.pb.cc`)

All fields are optional, and a getter gives the default of a field that is not
set. What `ParseFromArray` makes of bytes is a parameter of the development: a
`Codec` is any serializer with any parser that recovers one serialized message.
The protobuf runtime, which the generated code calls, is a parameter too: a `Runtime`
is any functions with the properties that its documentation promises. `wireFormat` is one,
and `RpcMessage.wire` the codec of the generated code over it, so the assumptions can be
met. Strings are byte strings. Unknown fields are skipped and not kept, since nothing
reads them.
-/

namespace Libatp.Rpc
open Base Buffer

inductive RpcMessageType where
  | unknow
  | request
  | response
  deriving DecidableEq, Repr

inductive RpcError where
  | success
  | noService
  | noMethod
  | timedout
  deriving DecidableEq, Repr

structure RpcMessage where
  type : Option RpcMessageType := none
  id : Option (BitVec 64) := none
  service : Option (List Byte) := none
  method : Option (List Byte) := none
  request : Option (List Byte) := none
  response : Option (List Byte) := none
  error : Option RpcError := none
  deriving DecidableEq, Repr

structure Codec where
  serialize : RpcMessage → List Byte
  parse : List Byte → RpcMessage
  parse_serialize : ∀ m, parse (serialize m) = m

theorem Codec.serialize_injective (c : Codec) : Function.Injective c.serialize :=
  Function.LeftInverse.injective c.parse_serialize

/-! ## Enumerations -/

def RpcMessageType.value : RpcMessageType → BitVec 32
  | .unknow => 0
  | .request => 1
  | .response => 2

/-- `none` is a value for which `RpcMessageType_IsValid` is false. -/
def RpcMessageType.ofValue (value : BitVec 32) : Option RpcMessageType :=
  [.unknow, .request, .response].find? (·.value = value)

def RpcError.value : RpcError → BitVec 32
  | .success => 0
  | .noService => -1
  | .noMethod => -2
  | .timedout => -3

def RpcError.ofValue (value : BitVec 32) : Option RpcError :=
  [.success, .noService, .noMethod, .timedout].find? (·.value = value)

/-! ## The runtime -/

/-- What the generated parser calls, on the bytes that remain. No function leaves more bytes
than there were. -/
structure Reader where
  /-- `ReadTag`, which gives 0 at the end of the input and for a broken tag -/
  readTag : List Byte → Nat × List Byte
  expectTag : Nat → List Byte → Option (List Byte)
  expectAtEnd : List Byte → Bool
  /-- `ReadPrimitive<int, TYPE_ENUM>` -/
  readEnum : List Byte → Option (BitVec 32 × List Byte)
  /-- `ReadPrimitive<uint64, TYPE_FIXED64>` -/
  readFixed64 : List Byte → Option (BitVec 64 × List Byte)
  /-- what a string holds after the attempt to read into it, and what remains if that
  succeeded -/
  readString : List Byte → List Byte → List Byte × Option (List Byte)
  readBytes : List Byte → List Byte → List Byte × Option (List Byte)
  skipField : Nat → List Byte → Option (List Byte)
  /-- `ExpectTag` is true only where `ReadTag` would give that tag, and goes past it. -/
  expectTag_readTag : ∀ {tag input rest}, expectTag tag input = some rest →
    readTag input = (tag, rest)
  /-- `ExpectAtEnd` is true only where `ReadTag` would give 0. -/
  expectAtEnd_readTag : ∀ {input}, expectAtEnd input = true → (readTag input).1 = 0
  readTag_shorter : ∀ {input}, (readTag input).1 ≠ 0 → (readTag input).2.length < input.length
  readEnum_shorter : ∀ {input value rest}, readEnum input = some (value, rest) →
    rest.length ≤ input.length
  readFixed64_shorter : ∀ {input value rest}, readFixed64 input = some (value, rest) →
    rest.length ≤ input.length
  readString_shorter : ∀ {old input value rest}, readString old input = (value, some rest) →
    rest.length ≤ input.length
  readBytes_shorter : ∀ {old input value rest}, readBytes old input = (value, some rest) →
    rest.length ≤ input.length
  skipField_shorter : ∀ {tag input rest}, skipField tag input = some rest →
    rest.length ≤ input.length

/-- What the generated serializer calls. The sizes are of type `int` and do not count the tag,
which takes one byte for the numbers below 16. -/
structure Writer where
  writeEnum : Nat → BitVec 32 → List Byte
  writeFixed64 : Nat → BitVec 64 → List Byte
  writeString : Nat → List Byte → List Byte
  writeBytes : Nat → List Byte → List Byte
  enumSize : BitVec 32 → BitVec 32
  stringSize : List Byte → BitVec 32
  bytesSize : List Byte → BitVec 32
  writeEnum_length : ∀ {number} value, number < 16 →
    (writeEnum number value).length = 1 + (enumSize value).toNat
  writeFixed64_length : ∀ {number} value, number < 16 → (writeFixed64 number value).length = 1 + 8
  writeString_length : ∀ {number value}, number < 16 → (writeString number value).length < 2 ^ 31 →
    (writeString number value).length = 1 + (stringSize value).toNat
  writeBytes_length : ∀ {number value}, number < 16 → (writeBytes number value).length < 2 ^ 31 →
    (writeBytes number value).length = 1 + (bytesSize value).toNat

/-- What is written is read back. `fits` are the strings that a message may have. -/
structure Runtime extends Reader, Writer where
  fits : List Byte → Prop
  readTag_nil : (readTag []).1 = 0
  read_writeEnum : ∀ number value rest, 0 < number → number < 16 →
    ∃ input, readTag (writeEnum number value ++ rest) = (number * 8, input) ∧
      readEnum input = some (value, rest)
  read_writeFixed64 : ∀ number value rest, 0 < number → number < 16 →
    ∃ input, readTag (writeFixed64 number value ++ rest) = (number * 8 + 1, input) ∧
      readFixed64 input = some (value, rest)
  read_writeString : ∀ number {value} rest, 0 < number → number < 16 → fits value →
    ∃ input, readTag (writeString number value ++ rest) = (number * 8 + 2, input) ∧
      ∀ old, readString old input = (value, some rest)
  read_writeBytes : ∀ number {value} rest, 0 < number → number < 16 → fits value →
    ∃ input, readTag (writeBytes number value ++ rest) = (number * 8 + 2, input) ∧
      ∀ old, readBytes old input = (value, some rest)

/-! ## `SerializeWithCachedSizes` -/

def RpcMessage.serialize (w : Writer) (m : RpcMessage) : List Byte :=
  m.type.elim [] (fun t => w.writeEnum 1 t.value) ++
    (m.id.elim [] (w.writeFixed64 2) ++
      (m.service.elim [] (w.writeString 3) ++
        (m.method.elim [] (w.writeString 4) ++
          (m.request.elim [] (w.writeBytes 5) ++
            (m.response.elim [] (w.writeBytes 6) ++
              (m.error.elim [] (fun e => w.writeEnum 7 e.value) ++ []))))))

/-! ## The fields -/

/-- The message after an attempt to read a field and, if it succeeded, what remains. -/
abbrev Field := RpcMessage × Option (List Byte)

section
variable (r : Reader) (m : RpcMessage) (input : List Byte)

/-- A value that is not valid goes to the unknown fields. -/
def readType : Field :=
  match r.readEnum input with
  | none => (m, none)
  | some (value, rest) => ({ m with type := (RpcMessageType.ofValue value).or m.type }, some rest)

def readId : Field :=
  match r.readFixed64 input with
  | none => (m, none)
  | some (value, rest) => ({ m with id := some value }, some rest)

/-- `mutable_service()` and its like set the field before it is read. -/
def readText (read : List Byte → List Byte → List Byte × Option (List Byte))
    (old : Option (List Byte)) (set : List Byte → RpcMessage) : Field :=
  (set (read (old.getD []) input).1, (read (old.getD []) input).2)

def readService : Field :=
  readText input r.readString m.service fun value => { m with service := some value }

def readMethod : Field :=
  readText input r.readString m.method fun value => { m with method := some value }

def readRequest : Field :=
  readText input r.readBytes m.request fun value => { m with request := some value }

def readResponse : Field :=
  readText input r.readBytes m.response fun value => { m with response := some value }

def readError : Field :=
  match r.readEnum input with
  | none => (m, none)
  | some (value, rest) => ({ m with error := (RpcError.ofValue value).or m.error }, some rest)

end

/-- How a turn of the loop ends: with a `return`, or in the next turn. -/
inductive Turn where
  | left (m : RpcMessage) (result : Bool)
  | again (m : RpcMessage) (input : List Byte)

/-- Without a jump the next turn follows a field. -/
def Field.turn : Field → Turn
  | (m, none) => .left m false
  | (m, some rest) => .again m rest

/-- `handle_uninterpreted` -/
def handleUninterpreted (r : Reader) (m : RpcMessage) (tag : Nat) (input : List Byte) : Turn :=
  -- `WIRETYPE_END_GROUP`
  if tag % 8 = 4 then .left m true
  else
    match r.skipField tag input with
    | none => .left m false
    | some rest => .again m rest

/-- The fields as `rpc.proto` has them, by number and wire type. -/
def readField (r : Reader) (m : RpcMessage) (tag : Nat) (input : List Byte) : Turn :=
  match tag / 8, tag % 8 with
  | 1, 0 => (readType r m input).turn
  | 2, 1 => (readId r m input).turn
  | 3, 2 => (readService r m input).turn
  | 4, 2 => (readMethod r m input).turn
  | 5, 2 => (readRequest r m input).turn
  | 6, 2 => (readResponse r m input).turn
  | 7, 0 => (readError r m input).turn
  | _, _ => handleUninterpreted r m tag input

section
variable {r : Reader} {m m' : RpcMessage} {tag : Nat} {input rest : List Byte}

theorem Field.turn_again {f : Field} (h : f.turn = .again m rest) : f = (m, some rest) := by
  obtain ⟨m', _ | rest'⟩ := f
  · cases h
  · cases h
    rfl

theorem readType_shorter (h : readType r m input = (m', some rest)) :
    rest.length ≤ input.length := by
  rw [readType] at h
  split at h
  · cases h
  · next read =>
    cases h
    exact r.readEnum_shorter read

theorem readId_shorter (h : readId r m input = (m', some rest)) : rest.length ≤ input.length := by
  rw [readId] at h
  split at h
  · cases h
  · next read =>
    cases h
    exact r.readFixed64_shorter read

theorem readError_shorter (h : readError r m input = (m', some rest)) :
    rest.length ≤ input.length := by
  rw [readError] at h
  split at h
  · cases h
  · next read =>
    cases h
    exact r.readEnum_shorter read

theorem readText_shorter {read : List Byte → List Byte → List Byte × Option (List Byte)}
    (shorter : ∀ {old input value rest}, read old input = (value, some rest) →
      rest.length ≤ input.length)
    {old : Option (List Byte)} {set : List Byte → RpcMessage}
    (h : readText input read old set = (m', some rest)) : rest.length ≤ input.length := by
  have left : (read (old.getD []) input).2 = some rest := congrArg (fun f => f.2) h
  exact shorter (Prod.ext rfl left)

theorem handleUninterpreted_shorter (h : handleUninterpreted r m tag input = .again m' rest) :
    rest.length ≤ input.length := by
  rw [handleUninterpreted] at h
  split at h
  · cases h
  · split at h
    · cases h
    · next skipped =>
      cases h
      exact r.skipField_shorter skipped

theorem readField_shorter (h : readField r m tag input = .again m' rest) :
    rest.length ≤ input.length := by
  rw [readField] at h
  split at h
  · exact readType_shorter (Field.turn_again h)
  · exact readId_shorter (Field.turn_again h)
  · exact readText_shorter r.readString_shorter (Field.turn_again h)
  · exact readText_shorter r.readString_shorter (Field.turn_again h)
  · exact readText_shorter r.readBytes_shorter (Field.turn_again h)
  · exact readText_shorter r.readBytes_shorter (Field.turn_again h)
  · exact readError_shorter (Field.turn_again h)
  · exact handleUninterpreted_shorter h

end

/-- A message is read field by field, each by its tag. -/
def mergeFields (r : Reader) (m : RpcMessage) (input : List Byte) : RpcMessage × Bool :=
  if _ : (r.readTag input).1 = 0 then (m, true)
  else
    match _ : readField r m (r.readTag input).1 (r.readTag input).2 with
    | .left m result => (m, result)
    | .again m rest => mergeFields r m rest
  termination_by input.length
  decreasing_by
    have := r.readTag_shorter (by assumption)
    have := readField_shorter (by assumption)
    omega

section
variable {r : Reader} {m m' : RpcMessage} {tag : Nat} {input rest : List Byte}

theorem mergeFields_end (h : (r.readTag input).1 = 0) : mergeFields r m input = (m, true) := by
  rw [mergeFields, dif_pos h]

/-- What the loop makes of the end of a turn. -/
def Turn.resume (r : Reader) : Turn → RpcMessage × Bool
  | .left m result => (m, result)
  | .again m rest => mergeFields r m rest

theorem mergeFields_turn (tagged : r.readTag input = (tag, rest)) (some_ : tag ≠ 0) :
    mergeFields r m input = (readField r m tag rest).resume r := by
  rw [mergeFields, dif_neg (by rw [tagged]; exact some_), tagged]
  cases readField r m tag rest with
  | left m result => rfl
  | again m rest => rfl

end

/-! ## Reading what was written -/

section
variable {rt : Runtime}

theorem mergeFields_optional {α : Type} {r : Reader} (o : Option α) (write : α → List Byte)
    (next : Option α → RpcMessage) (rest : List Byte)
    (h : ∀ a, o = some a →
      mergeFields r (next none) (write a ++ rest) = mergeFields r (next (some a)) rest) :
    mergeFields r (next none) (o.elim [] write ++ rest) = mergeFields r (next o) rest := by
  cases o with
  | none => rfl
  | some a => exact h a rfl

theorem mergeFields_type (m : RpcMessage) (t : RpcMessageType) (rest : List Byte) :
    mergeFields rt.toReader m (rt.writeEnum 1 t.value ++ rest) =
      mergeFields rt.toReader { m with type := some t } rest := by
  obtain ⟨input, tagged, read⟩ := rt.read_writeEnum 1 t.value rest (by decide)
    (by decide)
  have valid : RpcMessageType.ofValue t.value = some t := by cases t <;> rfl
  rw [mergeFields_turn tagged (by decide)]
  simp only [readField, readType, read, valid, Option.some_or, Field.turn, Turn.resume]

theorem mergeFields_error (m : RpcMessage) (e : RpcError) (rest : List Byte) :
    mergeFields rt.toReader m (rt.writeEnum 7 e.value ++ rest) =
      mergeFields rt.toReader { m with error := some e } rest := by
  obtain ⟨input, tagged, read⟩ := rt.read_writeEnum 7 e.value rest (by decide)
    (by decide)
  have valid : RpcError.ofValue e.value = some e := by cases e <;> rfl
  rw [mergeFields_turn tagged (by decide)]
  simp only [readField, readError, read, valid, Option.some_or, Field.turn, Turn.resume]

theorem mergeFields_id (m : RpcMessage) (x : BitVec 64) (rest : List Byte) :
    mergeFields rt.toReader m (rt.writeFixed64 2 x ++ rest) =
      mergeFields rt.toReader { m with id := some x } rest := by
  obtain ⟨input, tagged, read⟩ := rt.read_writeFixed64 2 x rest (by decide) (by decide)
  rw [mergeFields_turn tagged (by decide)]
  simp only [readField, readId, read, Field.turn, Turn.resume]

theorem mergeFields_service (m : RpcMessage) {value : List Byte} (fits : rt.fits value)
    (rest : List Byte) :
    mergeFields rt.toReader m (rt.writeString 3 value ++ rest) =
      mergeFields rt.toReader { m with service := some value } rest := by
  obtain ⟨input, tagged, read⟩ := rt.read_writeString 3 rest (by decide) (by decide) fits
  rw [mergeFields_turn tagged (by decide)]
  simp only [readField, readService, readText, read, Field.turn, Turn.resume]

theorem mergeFields_method (m : RpcMessage) {value : List Byte} (fits : rt.fits value)
    (rest : List Byte) :
    mergeFields rt.toReader m (rt.writeString 4 value ++ rest) =
      mergeFields rt.toReader { m with method := some value } rest := by
  obtain ⟨input, tagged, read⟩ := rt.read_writeString 4 rest (by decide) (by decide) fits
  rw [mergeFields_turn tagged (by decide)]
  simp only [readField, readMethod, readText, read, Field.turn, Turn.resume]

theorem mergeFields_request (m : RpcMessage) {value : List Byte} (fits : rt.fits value)
    (rest : List Byte) :
    mergeFields rt.toReader m (rt.writeBytes 5 value ++ rest) =
      mergeFields rt.toReader { m with request := some value } rest := by
  obtain ⟨input, tagged, read⟩ := rt.read_writeBytes 5 rest (by decide) (by decide) fits
  rw [mergeFields_turn tagged (by decide)]
  simp only [readField, readRequest, readText, read, Field.turn, Turn.resume]

theorem mergeFields_response (m : RpcMessage) {value : List Byte} (fits : rt.fits value)
    (rest : List Byte) :
    mergeFields rt.toReader m (rt.writeBytes 6 value ++ rest) =
      mergeFields rt.toReader { m with response := some value } rest := by
  obtain ⟨input, tagged, read⟩ := rt.read_writeBytes 6 rest (by decide) (by decide) fits
  rw [mergeFields_turn tagged (by decide)]
  simp only [readField, readResponse, readText, read, Field.turn, Turn.resume]

/-- `MergeFrom(const RpcMessage&)` -/
def RpcMessage.mergeFrom (m source : RpcMessage) : RpcMessage where
  type := source.type.or m.type
  id := source.id.or m.id
  service := source.service.or m.service
  method := source.method.or m.method
  request := source.request.or m.request
  response := source.response.or m.response
  error := source.error.or m.error

/-- Every string of the message fits. -/
structure RpcMessage.Fits (rt : Runtime) (m : RpcMessage) : Prop where
  service : ∀ {value}, m.service = some value → rt.fits value
  method : ∀ {value}, m.method = some value → rt.fits value
  request : ∀ {value}, m.request = some value → rt.fits value
  response : ∀ {value}, m.response = some value → rt.fits value

/-- Reading a serialized message into a message is merging it. -/
theorem mergeFields_serialize (m : RpcMessage) {source : RpcMessage} (fits : source.Fits rt)
    (rest : List Byte) :
    mergeFields rt.toReader m (source.serialize rt.toWriter ++ rest) =
      mergeFields rt.toReader (m.mergeFrom source) rest := by
  obtain ⟨type, id, service, method, request, response, error⟩ := source
  simp only [RpcMessage.serialize, List.append_assoc, List.nil_append]
  refine (mergeFields_optional type _ (fun o => { m with type := o.or m.type }) _
    fun a _ => mergeFields_type _ a _).trans ?_
  refine (mergeFields_optional id _ (fun o => { m with
    type := type.or m.type, id := o.or m.id }) _ fun a _ => mergeFields_id _ a _).trans ?_
  refine (mergeFields_optional service _ (fun o => { m with
    type := type.or m.type, id := id.or m.id, service := o.or m.service }) _
    fun a h => mergeFields_service _ (fits.service h) _).trans ?_
  refine (mergeFields_optional method _ (fun o => { m with
    type := type.or m.type, id := id.or m.id, service := service.or m.service
    method := o.or m.method }) _ fun a h => mergeFields_method _ (fits.method h) _).trans ?_
  refine (mergeFields_optional request _ (fun o => { m with
    type := type.or m.type, id := id.or m.id, service := service.or m.service
    method := method.or m.method, request := o.or m.request }) _
    fun a h => mergeFields_request _ (fits.request h) _).trans ?_
  refine (mergeFields_optional response _ (fun o => { m with
    type := type.or m.type, id := id.or m.id, service := service.or m.service
    method := method.or m.method, request := request.or m.request
    response := o.or m.response }) _ fun a h => mergeFields_response _ (fits.response h) _).trans ?_
  exact mergeFields_optional error _ (fun o => { m with
    type := type.or m.type, id := id.or m.id, service := service.or m.service
    method := method.or m.method, request := request.or m.request
    response := response.or m.response, error := o.or m.error }) _
    fun a _ => mergeFields_error _ a _

/-- A stream of messages is one message, in which later fields replace earlier ones. -/
theorem mergeFields_stream (m : RpcMessage) {sources : List RpcMessage}
    (fits : ∀ source ∈ sources, source.Fits rt) :
    mergeFields rt.toReader m (sources.flatMap (RpcMessage.serialize rt.toWriter)) =
      (sources.foldl RpcMessage.mergeFrom m, true) := by
  induction sources generalizing m with
  | nil => exact mergeFields_end rt.readTag_nil
  | cons source sources ih =>
    obtain ⟨first, others⟩ := List.forall_mem_cons.mp fits
    rw [List.flatMap_cons, mergeFields_serialize m first, List.foldl_cons]
    exact ih _ others

theorem mergeFrom_empty (m : RpcMessage) : RpcMessage.mergeFrom {} m = m := by
  simp only [RpcMessage.mergeFrom, Option.or_none]

theorem mergeFields_single {m : RpcMessage} (fits : m.Fits rt) :
    mergeFields rt.toReader {} (m.serialize rt.toWriter) = (m, true) := by
  have all : ∀ source ∈ [m], source.Fits rt := List.forall_mem_singleton.mpr fits
  have stream := mergeFields_stream {} all
  rwa [List.flatMap_singleton, List.foldl_cons, List.foldl_nil, mergeFrom_empty] at stream

end

/-- The codec of the generated code, over a runtime that takes strings of any length. -/
def RpcMessage.codec (rt : Runtime) (all : ∀ value, rt.fits value) : Codec where
  serialize := RpcMessage.serialize rt.toWriter
  parse input := (mergeFields rt.toReader {} input).1
  parse_serialize _ :=
    congrArg Prod.fst (mergeFields_single ⟨fun _ => all _, fun _ => all _, fun _ => all _,
      fun _ => all _⟩)

/-! ## The wire format -/

def writeTag (number wireType : Nat) : List Byte := varint (number * 8 + wireType)

/-- A negative value is written sign-extended to 64 bits. -/
def writeEnum (number : Nat) (value : BitVec 32) : List Byte :=
  writeTag number 0 ++ varint (value.signExtend 64).toNat

def writeFixed64 (number : Nat) (value : BitVec 64) : List Byte :=
  writeTag number 1 ++ hostBytes64 value

def writeBytes (number : Nat) (value : List Byte) : List Byte :=
  writeTag number 2 ++ delimited value

/-- The end of the input, a broken tag and the tag 0 are all no tag. -/
def readTag (input : List Byte) : Option (Nat × List Byte) :=
  match readVarint input with
  | none => none
  | some (n, rest) => if n % 2 ^ 32 = 0 then none else some (n % 2 ^ 32, rest)

/-- Only tags of one byte are expected. -/
def expectTag (tag : Nat) : List Byte → Option (List Byte)
  | [] => none
  | b :: rest => if b.toNat = tag ∧ 0 < tag ∧ tag < 128 then some rest else none

def readEnum (input : List Byte) : Option (BitVec 32 × List Byte) :=
  (readVarint input).map fun (n, rest) => (BitVec.ofNat 32 n, rest)

def readFixed64 (input : List Byte) : Option (BitVec 64 × List Byte) :=
  if 8 ≤ input.length then some (hostInt64 (input.take 8), input.drop 8) else none

theorem readTag_shorter {input rest : List Byte} {tag : Nat}
    (h : readTag input = some (tag, rest)) : rest.length < input.length := by
  rw [readTag] at h
  split at h
  · cases h
  · next read =>
    split at h
    · cases h
    · cases h
      exact readVarint_shorter read

theorem expectTag_readTag {tag : Nat} {input rest : List Byte}
    (h : expectTag tag input = some rest) : readTag input = some (tag, rest) := by
  cases input with
  | nil => cases h
  | cons b input =>
    rw [expectTag] at h
    split at h
    · next found =>
      obtain ⟨byte, pos, small⟩ := found
      cases h
      rw [readTag, readVarint, byte, if_pos small]
      simp only [Nat.mod_eq_of_lt (Nat.lt_trans small (by decide : 128 < 2 ^ 32))]
      rw [if_neg (Nat.ne_of_gt pos)]
    · cases h

theorem readTag_writeTag {number wireType : Nat} (used : 0 < number) (small : number < 16)
    (wire : wireType < 8) (rest : List Byte) :
    readTag (writeTag number wireType ++ rest) = some (number * 8 + wireType, rest) := by
  have range : number * 8 + wireType < 2 ^ 32 := by omega
  rw [readTag, writeTag, readVarint_varint]
  simp only [Nat.mod_eq_of_lt range]
  rw [if_neg (by omega)]

theorem readEnum_shorter {input rest : List Byte} {value : BitVec 32}
    (h : readEnum input = some (value, rest)) : rest.length ≤ input.length := by
  obtain ⟨⟨n, tail⟩, read, eq⟩ := Option.map_eq_some_iff.mp h
  cases eq
  exact Nat.le_of_lt (readVarint_shorter read)

theorem readFixed64_shorter {input rest : List Byte} {value : BitVec 64}
    (h : readFixed64 input = some (value, rest)) : rest.length ≤ input.length := by
  rw [readFixed64] at h
  split at h
  · cases h
    simp
  · cases h

theorem readEnum_value (value : BitVec 32) (rest : List Byte) :
    readEnum (varint (value.signExtend 64).toNat ++ rest) = some (value, rest) := by
  have low : BitVec.ofNat 32 (value.signExtend 64).toNat = value := by
    rw [BitVec.ofNat_toNat]
    ext i hi
    have inside : i < 64 := by omega
    simp [BitVec.getElem_signExtend, hi, inside]
  rw [readEnum, readVarint_varint]
  simp [low]

theorem readFixed64_hostBytes64 (x : BitVec 64) (rest : List Byte) :
    readFixed64 (hostBytes64 x ++ rest) = some (x, rest) := by
  rw [readFixed64, if_pos (by simp), List.take_left' (hostBytes64_length x),
    List.drop_left' (hostBytes64_length x), hostInt64_hostBytes64]

theorem writeTag_length {number wireType : Nat} (small : number < 16) (wire : wireType < 8) :
    (writeTag number wireType).length = 1 := by
  rw [writeTag, varint_small (by omega)]
  rfl

theorem enum_length (value : BitVec 32) : (varint (value.signExtend 64).toNat).length < 2 ^ 32 := by
  have short := varint_length_le (n := (value.signExtend 64).toNat) 9
    (Nat.lt_trans (value.signExtend 64).isLt (by decide))
  omega

/-- The functions of the wire format, for strings of any length; `skip` gives the number of
bytes of a field that is not known. -/
def wireFormat (skip : Nat → List Byte → Option Nat) : Runtime where
  readTag input := (readTag input).getD (0, [])
  expectTag := expectTag
  expectAtEnd := List.isEmpty
  readEnum := readEnum
  readFixed64 := readFixed64
  readString := readDelimited
  readBytes := readDelimited
  skipField tag input := (skip tag input).map input.drop
  expectTag_readTag h := by rw [expectTag_readTag h, Option.getD_some]
  expectAtEnd_readTag {input} h := by
    cases input with
    | nil => rfl
    | cons b input => cases h
  readTag_shorter {input} h := by
    cases read : readTag input with
    | none =>
      rw [read] at h
      exact absurd rfl h
    | some result => exact readTag_shorter read
  readEnum_shorter := readEnum_shorter
  readFixed64_shorter := readFixed64_shorter
  readString_shorter := readDelimited_shorter
  readBytes_shorter := readDelimited_shorter
  skipField_shorter h := by
    obtain ⟨n, _, rfl⟩ := Option.map_eq_some_iff.mp h
    rw [List.length_drop]
    exact Nat.sub_le ..
  writeEnum := writeEnum
  writeFixed64 := writeFixed64
  writeString := writeBytes
  writeBytes := writeBytes
  enumSize value := BitVec.ofNat 32 (varint (value.signExtend 64).toNat).length
  stringSize value := BitVec.ofNat 32 (delimited value).length
  bytesSize value := BitVec.ofNat 32 (delimited value).length
  writeEnum_length value small := by
    rw [writeEnum, List.length_append, writeTag_length small (by decide), BitVec.toNat_ofNat,
      Nat.mod_eq_of_lt (enum_length value)]
  writeFixed64_length value small := by
    rw [writeFixed64, List.length_append, writeTag_length small (by decide), hostBytes64_length]
  writeString_length small short := by
    rw [writeBytes, List.length_append, writeTag_length small (by decide)] at short ⊢
    rw [BitVec.toNat_ofNat, Nat.mod_eq_of_lt (by omega)]
  writeBytes_length small short := by
    rw [writeBytes, List.length_append, writeTag_length small (by decide)] at short ⊢
    rw [BitVec.toNat_ofNat, Nat.mod_eq_of_lt (by omega)]
  fits _ := True
  readTag_nil := rfl
  read_writeEnum _ value rest used small := by
    refine ⟨varint (value.signExtend 64).toNat ++ rest, ?_, readEnum_value value rest⟩
    rw [writeEnum, List.append_assoc, readTag_writeTag used small (by decide)]
    rfl
  read_writeFixed64 _ value rest used small := by
    refine ⟨hostBytes64 value ++ rest, ?_, readFixed64_hostBytes64 value rest⟩
    rw [writeFixed64, List.append_assoc, readTag_writeTag used small (by decide)]
    rfl
  read_writeString _ {value} rest used small _ := by
    refine ⟨delimited value ++ rest, ?_, fun old => readDelimited_delimited old value rest⟩
    rw [writeBytes, List.append_assoc, readTag_writeTag used small (by decide)]
    rfl
  read_writeBytes _ {value} rest used small _ := by
    refine ⟨delimited value ++ rest, ?_, fun old => readDelimited_delimited old value rest⟩
    rw [writeBytes, List.append_assoc, readTag_writeTag used small (by decide)]
    rfl

/-- The codec of the generated code over the wire format. -/
def RpcMessage.wire (skip : Nat → List Byte → Option Nat) : Codec :=
  RpcMessage.codec (wireFormat skip) fun _ => trivial

end Libatp.Rpc
