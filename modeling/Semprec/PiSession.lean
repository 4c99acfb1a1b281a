import Semprec.Conversation
import Semprec.Json

/-!
# The pi session of a conversation and its stored transcript

A live session keeps its messages in memory; the events of its turns are mapped to payloads and
stored with the run, and a later wake converts them back into the messages that a new session is
seeded with.  The history of a run here is never too large, so that no wake compacts it.
-/

namespace Semprec

namespace PiSession

/-! ## Content -/

def stringField (o : JsonObject) (key : String) : Option String :=
  match o.get? key with
  | some (.str value) => some value
  | _ => none

def isRecord : Json → Bool
  | .obj _ => true
  | _ => false

def isString : Option Json → Bool
  | some (.str _) => true
  | _ => false

def isOptionalString : Option Json → Bool
  | none => true
  | value => isString value

def isOptionalBoolean : Option Json → Bool
  | none => true
  | some (.bool _) => true
  | _ => false

def typeIs (block : JsonObject) (type : String) : Bool :=
  match block.get? "type" with
  | some (.str s) => s = type
  | _ => false

def isTextContent (block : JsonObject) : Bool :=
  typeIs block "text" && isString (block.get? "text") &&
    isOptionalString (block.get? "textSignature")

def isImageContent (block : JsonObject) : Bool :=
  typeIs block "image" && isString (block.get? "data") && isString (block.get? "mimeType")

def isThinkingContent (block : JsonObject) : Bool :=
  typeIs block "thinking" && isString (block.get? "thinking") &&
    isOptionalString (block.get? "thinkingSignature") &&
    isOptionalBoolean (block.get? "redacted")

def isToolCall (block : JsonObject) : Bool :=
  typeIs block "toolCall" && isString (block.get? "id") && isString (block.get? "name") &&
    ((block.get? "arguments").any isRecord) &&
    isOptionalString (block.get? "thoughtSignature") && isOptionalString (block.get? "namespace")

def isAssistantContent : Json → Bool
  | .arr blocks => blocks.all fun
    | .obj block => isTextContent block || isThinkingContent block || isToolCall block
    | _ => false
  | _ => false

def isToolResultContent : Json → Bool
  | .arr blocks => blocks.all fun
    | .obj block => isTextContent block || isImageContent block
    | _ => false
  | _ => false

def STOP_REASONS : List String :=
  ["pending", "stop", "length", "toolUse", "error", "aborted", "deferred"]

/-- The ids of the `toolCall` blocks of an assistant message's content, in order. -/
def toolCallIds : Json → List String
  | .arr blocks => blocks.filterMap fun
    | .obj block => if typeIs block "toolCall" then stringField block "id" else none
    | _ => none
  | _ => []

/-! ## pi's messages -/

structure Cost where
  input : Decimal
  output : Decimal
  cacheRead : Decimal
  cacheWrite : Decimal
  total : Decimal

structure Usage where
  input : ℕ
  output : ℕ
  cacheRead : ℕ
  cacheWrite : ℕ
  totalTokens : ℕ
  cost : Cost

def Usage.zero : Usage := ⟨0, 0, 0, 0, 0, ⟨⟨0, 0⟩, ⟨0, 0⟩, ⟨0, 0⟩, ⟨0, 0⟩, ⟨0, 0⟩⟩⟩

structure Model where
  api : String
  provider : String
  id : String

structure AssistantMessage where
  content : Json
  api : String
  provider : String
  model : String
  usage : Usage
  stopReason : String
  errorMessage : Option String
  timestamp : ℤ

structure ToolResultMessage where
  toolCallId : String
  toolName : String
  content : Json
  details : Option Json
  isError : Bool
  timestamp : ℤ

inductive Message where
  | user (content : String) (timestamp : ℤ)
  | assistant (m : AssistantMessage)
  | toolResult (m : ToolResultMessage)

def Message.isUser : Message → Bool
  | .user _ _ => true
  | _ => false

/-- What a tool's `execute` returns. -/
structure AgentToolResult where
  content : Json
  details : Option Json

def detailsField : Option Json → JsonObject
  | some details => [("details", details)]
  | none => []

def AgentToolResult.toJson (r : AgentToolResult) : Json :=
  .obj (("content", r.content) :: detailsField r.details)

inductive AgentEvent where
  | agent_start
  | agent_end
  | turn_start
  | turn_end
  | message_start (m : Message)
  | message_update (type : String) (contentIndex : ℕ) (delta : String)
  | message_end (m : Message)
  | tool_execution_start (toolCallId toolName : String) (args : Json)
  | tool_execution_update (toolCallId toolName : String)
  | tool_execution_end (toolCallId toolName : String) (result : AgentToolResult) (isError : Bool)

/-! ## What is stored of an event -/

structure McpToolEventIdentity where
  toolRegistrationId : String
  serverItemId : String
  serverName : String
  toolName : String

inductive ToolEventMetadata where
  | operation (name : String)
  | mcp (identity : McpToolEventIdentity)

def ToolEventMetadata.toJson : ToolEventMetadata → JsonObject
  | .operation name => [("operation", .str name)]
  | .mcp identity => [("mcp", .obj
    [("toolRegistrationId", .str identity.toolRegistrationId),
      ("serverItemId", .str identity.serverItemId),
      ("serverName", .str identity.serverName),
      ("toolName", .str identity.toolName)])]

structure Target where
  targetDatabaseId : Option String
  targetItemId : Option String

def Target.none : Target := ⟨.none, .none⟩

def optionalField (key : String) : Option String → JsonObject
  | some value => [(key, .str value)]
  | none => []

def Target.toJson (target : Target) : JsonObject :=
  optionalField "targetDatabaseId" target.targetDatabaseId ++
    optionalField "targetItemId" target.targetItemId

abbrev Targets := List (String × Target)

def targetOf (metadata : Option ToolEventMetadata) (args : Json) : Target :=
  match metadata, args with
  | some _, .obj args => ⟨stringField args "databaseId", stringField args "itemId"⟩
  | _, _ => Target.none

def assistantText : Json → String
  | .arr blocks => String.join (blocks.filterMap fun
    | .obj block => if typeIs block "text" then stringField block "text" else none
    | _ => none)
  | _ => ""

def metadataJson : Option ToolEventMetadata → JsonObject
  | some metadata => metadata.toJson
  | none => []

variable (toolEventMetadata : String → Option ToolEventMetadata)

/-- The payload stored for an event, `none` for an event that the log does not record, and the
targets of the calls that are running. -/
def toAgentMessage (event : AgentEvent) (targets : Targets) : Option JsonObject × Targets :=
  match event with
  | .turn_start => (some [("kind", .str "turn_start")], targets)
  | .turn_end => (some [("kind", .str "turn_end")], targets)
  | .message_update type contentIndex delta =>
    if type ≠ "text_delta" ∧ type ≠ "thinking_delta" ∧ type ≠ "toolcall_delta" then
      (none, targets)
    else
      (some [("kind", .str "message_update"), ("type", .str type),
        ("contentIndex", .num ⟨contentIndex, 0⟩), ("delta", .str delta)], targets)
  | .message_end (.assistant m) =>
    (some ([("kind", .str "message"), ("role", .str "assistant"),
        ("text", .str (assistantText m.content)), ("content", m.content),
        ("stopReason", .str m.stopReason)] ++ optionalField "errorMessage" m.errorMessage),
      targets)
  | .message_end _ => (none, targets)
  | .tool_execution_start toolCallId toolName args =>
    let metadata := toolEventMetadata toolName
    let target := targetOf metadata args
    (some ((JsonObject.merge [("kind", .str "tool_use"), ("toolCallId", .str toolCallId),
        ("name", .str toolName), ("arguments", args)] (metadataJson metadata)).merge
          target.toJson),
      if metadata.isSome then (toolCallId, target) :: targets else targets)
  | .tool_execution_end toolCallId toolName result isError =>
    let target := (targets.lookup toolCallId).getD Target.none
    (some ((JsonObject.merge [("kind", .str "tool_result"), ("toolCallId", .str toolCallId),
        ("name", .str toolName), ("result", result.toJson), ("isError", .bool isError)]
          (metadataJson (toolEventMetadata toolName))).merge target.toJson),
      targets.filter fun t => t.1 ≠ toolCallId)
  | _ => (none, targets)

def PERSISTED_EVENT_KINDS : List String :=
  ["turn_start", "message", "tool_use", "tool_result", "turn_end", "run_status"]

def AGENT_MESSAGE_KINDS : List String := PERSISTED_EVENT_KINDS ++ ["message_update"]

/-- A row of `agent_run_events`. -/
structure StoredEvent where
  id : ℕ
  kind : String
  payload : JsonObject
  at_ : ℤ

/-! ## Reconstruction -/

structure ConversationEntry where
  id : String
  parentId : Option String
  seq : ℕ
  timestamp : ℤ
  message : JsonObject

def kindOf (message : JsonObject) : String := (stringField message "kind").getD ""

def parseStoredAgentMessage (event : StoredEvent) : Except String JsonObject :=
  if kindOf event.payload ∈ AGENT_MESSAGE_KINDS then .ok event.payload
  else .error s!"agent_run_events row {event.id} has a payload that is not a valid AgentMessage"

def walkStoredEvents (parentId : Option String) (seq : ℕ) :
    List StoredEvent → Except String (List ConversationEntry)
  | [] => .ok []
  | event :: events => do
    if event.kind = "run_status" then walkStoredEvents parentId seq events
    else
      let message ← parseStoredAgentMessage event
      let rest ← walkStoredEvents (some (toString event.id)) (seq + 1) events
      return ⟨toString event.id, parentId, seq, event.at_, message⟩ :: rest

def walkStoredEntries : List StoredEvent → Except String (List ConversationEntry) :=
  walkStoredEvents none 0

def protocolView (message : JsonObject) : Conversation.AgentMessage :=
  if kindOf message = "tool_use" then ⟨.tool_use, stringField message "toolCallId", ""⟩
  else if kindOf message = "tool_result" then ⟨.tool_result, stringField message "toolCallId", ""⟩
  else ⟨.message, none, ""⟩

def validateProtocolInvariants (entries : List ConversationEntry) : Except String Unit :=
  Conversation.validateProtocolInvariants
    (entries.map fun e => ⟨e.id, e.parentId, e.seq, e.timestamp, protocolView e.message⟩)

def reconstructConversationHistory (events : List StoredEvent) :
    Except String (List ConversationEntry) := do
  let entries ← walkStoredEntries events
  if entries.isEmpty then return []
  validateProtocolInvariants entries
  return entries

/-! ## Conversion -/

def invalidEntry (entry : ConversationEntry) (reason : String) : String :=
  s!"conversation entry {entry.id} (kind '{kindOf entry.message}') {reason}"

def toAssistantMessage (entry : ConversationEntry) (message : JsonObject) (model : Model) :
    Except String AssistantMessage := do
  if stringField message "role" ≠ some "assistant" then
    throw (invalidEntry entry "is not an assistant message")
  let some content := message.get? "content"
    | throw (invalidEntry entry "has malformed assistant content")
  if isAssistantContent content = false then
    throw (invalidEntry entry "has malformed assistant content")
  let some stopReason := stringField message "stopReason"
    | throw (invalidEntry entry "has an unknown stopReason")
  if stopReason ∉ STOP_REASONS then throw (invalidEntry entry "has an unknown stopReason")
  if isOptionalString (message.get? "errorMessage") = false then
    throw (invalidEntry entry "has a non-string errorMessage")
  return { content, api := model.api, provider := model.provider, model := model.id
           usage := Usage.zero, stopReason
           errorMessage := stringField message "errorMessage"
           timestamp := entry.timestamp }

def toToolResultMessage (entry : ConversationEntry) (message : JsonObject) :
    Except String ToolResultMessage :=
  match message.get? "toolCallId", message.get? "name", message.get? "isError" with
  | some (.str toolCallId), some (.str name), some (.bool isError) =>
    match message.get? "result" with
    | some (.obj result) =>
      match JsonObject.get? result "content" with
      | some content =>
        if isToolResultContent content then
          .ok { toolCallId, toolName := name, content, details := JsonObject.get? result "details"
                isError, timestamp := entry.timestamp }
        else .error (invalidEntry entry "has a malformed tool result")
      | none => .error (invalidEntry entry "has a malformed tool result")
    | _ => .error (invalidEntry entry "has a malformed tool result")
  | _, _, _ => .error (invalidEntry entry "is missing its toolCallId, name or isError")

def toPiMessage (entry : ConversationEntry) (model : Model) : Except String (List Message) :=
  if kindOf entry.message = "message" then
    (toAssistantMessage entry entry.message model).map fun m => [.assistant m]
  else if kindOf entry.message = "tool_result" then
    (toToolResultMessage entry entry.message).map fun m => [.toolResult m]
  else .ok []

def toPiMessages : List ConversationEntry → Model → Except String (List Message)
  | [], _ => .ok []
  | entry :: entries, model => do
    let messages ← toPiMessage entry model
    let rest ← toPiMessages entries model
    return messages ++ rest

/-! ## The system -/

structure Run where
  running : Bool
  events : List StoredEvent

/-- The prompt that a turn runs, as far as its events are stored: the calls of the last assistant
message that have not started, the calls that run, and the results whose messages have not ended. -/
structure Turn where
  calls : List String
  running : List String
  ended : List ToolResultMessage

def Turn.init : Turn := ⟨[], [], []⟩

inductive Phase where
  | idle
  | turn (t : Turn)
  /-- A session in memory and no turn in flight. -/
  | entry
  /-- The process has ended, and the next one has not repaired its runs. -/
  | down

/-- `runs` are in the order of their wakes.  `live` are the messages that a session which was never
interrupted holds, and `tasks` its prompts. -/
structure Sys where
  runs : List Run
  nextEventId : ℕ
  targets : Targets
  phase : Phase
  live : List Message
  tasks : List String

def Sys.init : Sys := ⟨[], 1, [], .idle, [], []⟩

/-- A message whose calls pi does not execute. -/
def AssistantMessage.failed (m : AssistantMessage) : Bool :=
  m.stopReason = "error" || m.stopReason = "aborted"

/-- What pi promises of the calls of one message, and nothing here checks. -/
def AssistantMessage.DistinctCalls (m : AssistantMessage) : Prop := (toolCallIds m.content).Nodup

instance (m : AssistantMessage) : Decidable m.DistinctCalls :=
  inferInstanceAs (Decidable (toolCallIds m.content).Nodup)

/-- The events of a prompt in the order in which pi emits them: the calls of a message start in
its order and end in any, and the next message waits for their results. -/
def Turn.event (t : Turn) : AgentEvent → Option Turn
  | .message_end (.assistant m) =>
    if t.calls = [] ∧ t.running = [] ∧ t.ended.length = 0 ∧ isAssistantContent m.content = true ∧
        m.stopReason ∈ STOP_REASONS ∧ m.DistinctCalls then
      some { t with calls := if m.failed then [] else toolCallIds m.content }
    else none
  | .message_end (.toolResult _) => none
  | .tool_execution_start toolCallId _ _ =>
    match t.calls with
    | call :: calls =>
      if call = toolCallId then some { t with calls, running := t.running ++ [call] } else none
    | [] => none
  | .tool_execution_end toolCallId toolName result isError =>
    if toolCallId ∈ t.running ∧ isToolResultContent result.content = true then
      some { t with
        running := t.running.erase toolCallId
        ended := t.ended ++ [⟨toolCallId, toolName, result.content, result.details, isError, 0⟩] }
    else none
  | _ => some t

namespace Sys

variable (s : Sys)

/-- The events of the conversation in `(wake_seq, id)` order. -/
def events : List StoredEvent := s.runs.flatMap fun run => run.events

def insertEvent (i : ℕ) (payload : JsonObject) (now : ℤ) : Sys :=
  { s with
    runs := s.runs.modify i fun run =>
      { run with events := run.events ++ [⟨s.nextEventId, kindOf payload, payload, now⟩] }
    nextEventId := s.nextEventId + 1 }

def latest : ℕ := s.runs.length - 1

def record (event : AgentEvent) (now : ℤ) : Sys :=
  let mapped := toAgentMessage toolEventMetadata event s.targets
  match mapped.1 with
  | some payload =>
    if kindOf payload ∈ PERSISTED_EVENT_KINDS then
      { s.insertEvent s.latest payload now with targets := mapped.2 }
    else { s with targets := mapped.2 }
  | none => { s with targets := mapped.2 }

def runStatus (status : String) : JsonObject :=
  [("kind", .str "run_status"), ("status", .str status)]

def createAgentRun (now : ℤ) : Sys :=
  { s with
    runs := s.runs ++ [⟨true, [⟨s.nextEventId, "run_status", runStatus "running", now⟩]⟩]
    nextEventId := s.nextEventId + 1 }

def prompt (task : String) (now : ℤ) : Sys :=
  { s with
    targets := []
    phase := .turn Turn.init
    live := s.live ++ [.user task now]
    tasks := s.tasks ++ [task] }

/-- What a new session is seeded with. -/
def initialMessages (model : Model) : Except String (List Message) := do
  let entries ← reconstructConversationHistory s.events
  toPiMessages entries model

end Sys

def interrupted : String :=
  "Run interrupted by service restart before this tool call completed (interrupted_by_restart)."

/-- `{ ...toolUsePayload, kind, error, result }`. -/
def syntheticResult (toolUsePayload : JsonObject) : JsonObject :=
  toolUsePayload.merge
    [("kind", .str "tool_result"), ("error", .bool true), ("result", .str interrupted)]

/-- An orphaned run whose last event is a `tool_use`. -/
def Run.unpaired (run : Run) : Bool :=
  run.running && run.events.getLast?.any fun last => last.kind = "tool_use"

def repairRun (id : ℕ) (now : ℤ) (run : Run) : Run :=
  match run.events.getLast? with
  | some last =>
    if run.unpaired then
      ⟨false, run.events ++ [⟨id, "tool_result", syntheticResult last.payload, now⟩]⟩
    else { run with running := false }
  | none => { run with running := false }

def repairRuns (now : ℤ) : ℕ → List Run → List Run
  | _, [] => []
  | id, run :: runs =>
    repairRun id now run :: repairRuns now (if run.unpaired then id + 1 else id) runs

def repairCurrentTenant (s : Sys) (now : ℤ) : Sys :=
  { s with
    runs := repairRuns now s.nextEventId s.runs
    nextEventId := s.nextEventId + s.runs.countP Run.unpaired }

/-- `forEachActiveTenant` passes by a tenant whose status is another. -/
def repairInterruptedRuns (s : Sys) (active : Bool) (now : ℤ) : Sys :=
  if active then repairCurrentTenant s now else s

inductive Act where
  /-- An id of the sequence is taken by another conversation. -/
  | skipEventId
  | wake (task : String) (now : ℤ)
  | failWake (now : ℤ)
  | send (task : String) (now : ℤ)
  | emit (event : AgentEvent) (now : ℤ)
  | endToolResult (toolCallId : String) (now : ℤ)
  | endTurn
  /-- The stream or a write throws, or the consumer stops. -/
  | failTurn
  /-- The close of a run by `failRun`, a pause or a drop. -/
  | finishAgentRun (i : ℕ)
  | pushRunStatus (i : ℕ) (status : String) (now : ℤ)
  | clearEntry
  | crash
  | repairInterruptedRuns (active : Bool) (now : ℤ)

def step (model : Model) (s : Sys) : Act → Option Sys
  | .skipEventId => some { s with nextEventId := s.nextEventId + 1 }
  | .wake task now =>
    match s.phase, s.initialMessages model with
    | .idle, .ok _ => some ((s.createAgentRun now).prompt task now)
    | _, _ => none
  | .failWake now =>
    match s.phase with
    | .idle => some (s.createAgentRun now)
    | _ => none
  | .send task now =>
    match s.phase with
    | .entry => some (s.prompt task now)
    | _ => none
  | .emit event now =>
    match s.phase with
    | .turn t =>
      match t.event event with
      | some t' =>
        if (s.runs[s.latest]?.any fun run => run.running) then
          some { s.record toolEventMetadata event now with
            phase := .turn t'
            live := match event with
              | .message_end (.assistant m) => s.live ++ [.assistant m]
              | _ => s.live }
        else none
      | none => none
    | _ => none
  | .endToolResult toolCallId now =>
    match s.phase with
    | .turn t =>
      match t.ended.find? fun m => m.toolCallId = toolCallId with
      | some m =>
        some { s.record toolEventMetadata (.message_end (.toolResult m)) now with
          phase := .turn { t with ended := t.ended.eraseP fun m => m.toolCallId = toolCallId }
          live := s.live ++ [.toolResult m] }
      | none => none
    | _ => none
  | .endTurn =>
    match s.phase with
    | .turn ⟨[], [], []⟩ => some { s with phase := .entry }
    | _ => none
  | .failTurn =>
    match s.phase with
    | .turn _ => some { s with phase := .idle }
    | _ => none
  | .finishAgentRun i =>
    some { s with runs := s.runs.modify i fun run => { run with running := false } }
  | .pushRunStatus i status now =>
    if (s.runs[i]?.any fun run => !run.running) then
      some (s.insertEvent i (Sys.runStatus status) now)
    else none
  | .clearEntry =>
    match s.phase with
    | .entry =>
      if (s.runs[s.latest]?.any fun run => !run.running) then some { s with phase := .idle }
      else none
    | _ => none
  | .crash => some { s with phase := .down }
  | .repairInterruptedRuns active now =>
    match s.phase with
    | .down => some { repairInterruptedRuns s active now with phase := .idle }
    | _ => none

/-! ## What is asked of the transcript -/

def Message.isAssistant : Message → Bool
  | .assistant _ => true
  | _ => false

def resultIds (messages : List Message) : List String :=
  messages.filterMap fun
    | .toolResult m => some m.toolCallId
    | _ => none

def Message.core : Message → Message
  | .user content _ => .user content 0
  | .assistant m => .assistant { m with
      api := ""
      provider := ""
      model := ""
      usage := Usage.zero
      timestamp := 0 }
  | .toolResult m => .toolResult { m with timestamp := 0 }

/-- A new session continues from the messages of the session that was never interrupted. -/
def Sys.Continues (s : Sys) (model : Model) : Prop :=
  ∃ messages, s.initialMessages model = .ok messages ∧
    messages.map Message.core = s.live.map Message.core

structure Replayable (messages : List Message) : Prop where
  answered : ∀ before m after, messages = before ++ Message.assistant m :: after →
    ∀ id ∈ toolCallIds m.content,
      (resultIds (after.takeWhile fun m => !m.isAssistant)).count id = 1
  answers : ∀ before r after, messages = before ++ Message.toolResult r :: after →
    ∃ first m rest, before = first ++ Message.assistant m :: rest ∧
      (∀ m ∈ rest, m.isAssistant = false) ∧ r.toolCallId ∈ toolCallIds m.content

def Sys.Replays (s : Sys) (model : Model) : Prop :=
  ∀ entries, reconstructConversationHistory s.events = .ok entries →
    ∃ messages, toPiMessages entries model = .ok messages ∧ Replayable messages

/-- No turn is in flight, and the runs of a process that ended are repaired. -/
def Phase.settled : Phase → Bool
  | .idle => true
  | .entry => true
  | _ => false

def Sys.unanswered (s : Sys) : ℤ :=
  s.events.countP (fun e => e.kind = "tool_use") - s.events.countP (fun e => e.kind = "tool_result")

/-- pi executes the calls of every message; where a turn is cut no call of its last message is
left to start, unless one that started stays open; and the repair closes no call, unless another
stays open. -/
def CutBetweenCalls (s : Sys) : Act → Prop
  | .emit (.message_end (.assistant m)) _ => m.failed = true → toolCallIds m.content = []
  | .failTurn => ∀ t, s.phase = .turn t → t.running = [] → t.calls = []
  | .crash => ∀ t, s.phase = .turn t → t.running = [] → t.calls = []
  | .repairInterruptedRuns active _ => active = true →
    (∀ run ∈ s.runs, run.unpaired = false) ∨ s.runs.countP Run.unpaired < s.unanswered
  | _ => True

end PiSession

end Semprec
