import Mathlib.Algebra.Group.Nat.Defs
import Semprec.Lib.Base64
import Semprec.Lib.Fragments
import Semprec.Lib.JsonText
import Semprec.TenantPool

/-!
# The agent typing stream

`publishAgentRunDelta` of `pgNotifyPublisher.ts`, which sends the delta of an agent run as the
payload of one `NOTIFY`, or as those of several when it is too large for one, and
`parseAgentStreamEnvelope`, which the listener reads a payload with.
-/

namespace Semprec

namespace AgentStream

open JsonText (Value)
open TenantPool (matchesUuidPattern)

variable {ν : Type}

structure Uuid where
  text : String
  valid : matchesUuidPattern text = true

/-- JavaScript's numbers: the integers up to `2^53` are numbers, have decimal texts, and are known
as integers by `Number.isInteger`. -/
structure JsNumbers (ν : Type) extends JsonText.NumberFormat ν where
  ofNat : ℕ → ν
  toInteger : ν → Option ℤ
  text_ofNat : ∀ n ≤ 2 ^ 53, text (ofNat n) = Nat.toDigits 10 n
  toInteger_ofNat : ∀ n ≤ 2 ^ 53, toInteger (ofNat n) = some (n : ℤ)

def utf8 (text : List Char) : List UInt8 := text.flatMap String.utf8EncodeChar

def decodeUtf8 (bytes : List UInt8) : Option (List Char) :=
  bytes.toByteArray.utf8Decode?.map Array.toList

/-- `Buffer.byteLength` in `utf8`. -/
def byteLength (text : List Char) : ℕ := (utf8 text).length

/-! ## Messages -/

/-- The `encoding` is always `base64json`. -/
structure AgentDeltaChunk where
  id : String
  index : ℕ
  total : ℕ
deriving DecidableEq

inductive AgentStreamMessage (ν : Type) where
  | whole (agentRunId : String) (delta : Value ν)
  | piece (agentRunId : String) (delta : String) (chunk : AgentDeltaChunk)

/-- A `NOTIFY` payload after validation. -/
structure RealtimeEnvelope (ν : Type) where
  tenantId : String
  message : AgentStreamMessage ν

section
variable (numbers : JsNumbers ν)

def AgentDeltaChunk.toValue (chunk : AgentDeltaChunk) : Value ν :=
  .obj [("id", .str chunk.id), ("index", .num (numbers.ofNat chunk.index)),
    ("total", .num (numbers.ofNat chunk.total)), ("encoding", .str "base64json")]

@[grind =] def AgentStreamMessage.toValue : AgentStreamMessage ν → Value ν
  | .whole agentRunId delta =>
    .obj [("type", .str "agent_run_delta"), ("agentRunId", .str agentRunId), ("delta", delta)]
  | .piece agentRunId delta chunk =>
    .obj [("type", .str "agent_run_delta"), ("agentRunId", .str agentRunId),
      ("delta", .str delta), ("chunk", chunk.toValue numbers)]

/-- `JSON.stringify` of a message. -/
def AgentStreamMessage.json (message : AgentStreamMessage ν) : List Char :=
  JsonText.stringify numbers.toNumberFormat (message.toValue numbers)

/-! ## Publishing -/

def maxAgentStreamNotifyBytes : ℕ := 7500

def agentStreamChunkBytes : ℕ := 7000

/-- PostgreSQL takes payloads shorter than this. -/
def notifyPayloadLimit : ℕ := 8000

/-- The length of a string in the language is an integer below `2 ^ 53`. -/
def maxStringLength : ℕ := 2 ^ 53 - 1

inductive PublishError where
  | invalidStringLength
  | notSerializable
  | chunkExceedsLimit
deriving DecidableEq

def serializedBytes (message : AgentStreamMessage ν) : ℕ := byteLength (message.json numbers)

/-- The text of `json_build_object('tenantId', app_tenant_default(), 'message', $2::json)`: a
value of type `json` keeps its text, and no tenant is `null`. -/
@[grind =] def publishEnveloped (tenantId : Option Uuid) (messageJson : List Char) : List Char :=
  let tenant := match tenantId with
    | some tenantId => JsonText.quote tenantId.text.toList
    | none => ['n', 'u', 'l', 'l']
  '{' :: (JsonText.quote "tenantId".toList ++ ([' '] ++ ':' :: ([' '] ++ (tenant ++ ',' ::
    ([' '] ++ (JsonText.quote "message".toList ++ ([' '] ++ ':' :: ([' '] ++
      (messageJson ++ ['}'])))))))))

def deltaChunk (agentRunId id : String) (encoded : List Char) (total index : ℕ) :
    AgentStreamMessage ν :=
  .piece agentRunId (String.ofList (Fragments.fragment agentStreamChunkBytes index encoded))
    ⟨id, index, total⟩

def publishChunks (tenantId : Option Uuid) (chunk : ℕ → AgentStreamMessage ν) :
    List ℕ → List (List Char) × Option PublishError
  | [] => ([], none)
  | index :: indices =>
    if maxAgentStreamNotifyBytes ≤ serializedBytes numbers (chunk index) then
      ([], some .chunkExceedsLimit)
    else
      let (published, error) := publishChunks tenantId chunk indices
      (publishEnveloped tenantId ((chunk index).json numbers) :: published, error)

def encodeDelta (delta : Value ν) : List Char :=
  Base64.encode (utf8 (JsonText.stringify numbers.toNumberFormat delta))

/-- The payloads published, and what was thrown; `delta` is `none` when it is `undefined`, and `id`
is the `randomUUID()` drawn for the chunks. -/
@[grind =] def publishAgentRunDelta (tenantId : Option Uuid) (agentRunId id : String)
    (delta : Option (Value ν)) : List (List Char) × Option PublishError :=
  let single : AgentStreamMessage ν := .whole agentRunId (delta.getD .null)
  if serializedBytes numbers single < maxAgentStreamNotifyBytes then
    ([publishEnveloped tenantId (single.json numbers)], none)
  else match delta with
    | none => ([], some .notSerializable)
    | some delta =>
      let encoded := encodeDelta numbers delta
      if maxStringLength < encoded.length then ([], some .invalidStringLength)
      else
        let total := Fragments.count agentStreamChunkBytes encoded.length
        publishChunks numbers tenantId (deltaChunk agentRunId id encoded total) (List.range total)

/-! ## Receiving -/

/-- `value[key] === text`. -/
def isText (value : Option (Value ν)) (text : String) : Bool :=
  match value with
  | some (.str s) => s = text
  | _ => false

@[grind =] def parseChunk (chunk : List (String × Value ν)) : Option AgentDeltaChunk :=
  match chunk.lookup "id", chunk.lookup "index", chunk.lookup "total" with
  | some (.str id), some (.num index), some (.num total) =>
    match numbers.toInteger index, numbers.toInteger total with
    | some index, some total =>
      if 0 ≤ index ∧ 0 < total ∧ index < total ∧ isText (chunk.lookup "encoding") "base64json" then
        some ⟨id, index.toNat, total.toNat⟩
      else none
    | _, _ => none
  | _, _, _ => none

@[grind =] def parseAgentStreamMessage : Value ν → Option (AgentStreamMessage ν)
  | .obj value =>
    match value.lookup "agentRunId", value.lookup "delta" with
    | some (.str agentRunId), some delta =>
      if isText (value.lookup "type") "agent_run_delta" ∧ matchesUuidPattern agentRunId then
        match value.lookup "chunk", delta with
        | none, delta => some (.whole agentRunId delta)
        | some (.obj chunk), .str delta => (parseChunk numbers chunk).map (.piece agentRunId delta)
        | _, _ => none
      else none
    | _, _ => none
  | _ => none

@[grind =] def parseAgentStreamEnvelope : Value ν → Option (RealtimeEnvelope ν)
  | .obj value =>
    match value.lookup "tenantId", value.lookup "message" with
    | some (.str tenantId), some message =>
      if matchesUuidPattern tenantId then
        (parseAgentStreamMessage numbers message).map fun message => ⟨tenantId, message⟩
      else none
    | _, _ => none
  | _ => none

/-- What the listener of `createSyncServer` reads from a payload of the stream's channel. -/
def onNotification (payload : List Char) : Option (RealtimeEnvelope ν) :=
  (JsonText.parse numbers.toNumberFormat payload).bind (parseAgentStreamEnvelope numbers)

/-! ## Reassembling

The pieces are of the base64 text of the delta's JSON text, for the client to put together.
`decodeDelta` and `reassemble` stand for the client's side of it. -/

def decodeDelta (encoded : List Char) : Option (Value ν) :=
  (Base64.decode encoded).bind fun bytes =>
    (decodeUtf8 bytes).bind (JsonText.parse numbers.toNumberFormat)

@[grind =] def AgentStreamMessage.pieceOf (id : String) :
    AgentStreamMessage ν → Option (AgentDeltaChunk × String)
  | .piece _ delta chunk => if chunk.id = id then some (chunk, delta) else none
  | .whole _ _ => none

/-- The delta whose chunks are marked `id`, from the messages that have arrived: its pieces are
joined in the order of their indices, once there is one for each index. -/
def reassemble (id : String) (arrived : List (AgentStreamMessage ν)) : Option (Value ν) :=
  let pieces := arrived.filterMap (AgentStreamMessage.pieceOf id)
  (pieces.head?).bind fun first =>
    (Fragments.gather first.1.total (pieces.map fun p => (p.1.index, p.2))).bind fun texts =>
      decodeDelta numbers (texts.flatMap String.toList)

end

end AgentStream

end Semprec
