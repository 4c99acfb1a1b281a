import Semprec.PiSession

/-!
# Conversion of a stored transcript

What the events of a turn store converts one event at a time (`storesAs_stored`), so a history
converts to what its events add (`toPiMessages_walk`).  Read from the front, the messages answer the
calls of the last assistant message one by one (`answerAll`), and a history whose calls are all
answered is one that a session can be seeded with (`replayable_of_answerAll`).
-/

namespace Semprec

namespace PiSession

open JsonObject (get?_merge)

/-! ## Conversion of what is stored -/

theorem get?_optionalField {key key' : String} (h : key' ≠ key) (value : Option String) :
    JsonObject.get? (optionalField key value) key' = none := by
  rcases value with _ | v
  · rfl
  · have hb : (key' == key) = false := by simpa using h
    simp [optionalField, JsonObject.get?, List.lookup_cons, hb]

theorem get?_metadataJson {key : String} (h : key ≠ "operation") (h' : key ≠ "mcp")
    (metadata : Option ToolEventMetadata) :
    JsonObject.get? (metadataJson metadata) key = none := by
  have hb : (key == "operation") = false := by simpa using h
  have hb' : (key == "mcp") = false := by simpa using h'
  rcases metadata with _ | (name | identity) <;>
    simp [metadataJson, ToolEventMetadata.toJson, JsonObject.get?, List.lookup_cons, hb, hb']

theorem get?_target {key : String} (h : key ≠ "targetDatabaseId") (h' : key ≠ "targetItemId")
    (target : Target) : JsonObject.get? target.toJson key = none := by
  unfold Target.toJson
  unfold JsonObject.get?
  rw [List.lookup_append]
  have h₁ := get?_optionalField h target.targetDatabaseId
  have h₂ := get?_optionalField h' target.targetItemId
  unfold JsonObject.get? at h₁ h₂
  rw [h₁, h₂]
  rfl

theorem get?_toolPayload {key : String} (base : JsonObject) (metadata : Option ToolEventMetadata)
    (target : Target) (h₁ : key ≠ "operation") (h₂ : key ≠ "mcp")
    (h₃ : key ≠ "targetDatabaseId") (h₄ : key ≠ "targetItemId") :
    ((base.merge (metadataJson metadata)).merge target.toJson).get? key = base.get? key := by
  rw [get?_merge, get?_merge, get?_target h₃ h₄, get?_metadataJson h₁ h₂]
  simp

def StoredEvent.messages (model : Model) (e : StoredEvent) : Except String (List Message) :=
  if e.kind = "run_status" then .ok []
  else do
    let message ← parseStoredAgentMessage e
    toPiMessage ⟨toString e.id, none, 0, e.at_, message⟩ model

def storedMessages (model : Model) : List StoredEvent → Except String (List Message)
  | [] => .ok []
  | e :: events => do
    let messages ← e.messages model
    let rest ← storedMessages model events
    return messages ++ rest

theorem walk_cons {e : StoredEvent} {events : List StoredEvent} {p : Option String} {n : ℕ}
    {entries : List ConversationEntry} (hk : e.kind ≠ "run_status")
    (h : walkStoredEvents p n (e :: events) = .ok entries) :
    ∃ rest, parseStoredAgentMessage e = .ok e.payload ∧
      walkStoredEvents (some (toString e.id)) (n + 1) events = .ok rest ∧
      entries = ⟨toString e.id, p, n, e.at_, e.payload⟩ :: rest := by
  simp only [walkStoredEvents, if_neg hk] at h
  rcases hm : parseStoredAgentMessage e with _ | message
  · simp only [hm, bind, Except.bind, reduceCtorEq] at h
  · rcases hr : walkStoredEvents (some (toString e.id)) (n + 1) events with _ | rest
    · simp only [hm, hr, bind, Except.bind, reduceCtorEq] at h
    · simp only [hm, hr, bind, Except.bind, pure, Except.pure, Except.ok.injEq] at h
      have hmessage : message = e.payload := by
        unfold parseStoredAgentMessage at hm
        split_ifs at hm
        simpa using hm.symm
      subst hmessage
      exact ⟨rest, rfl, rfl, h.symm⟩

theorem toPiMessages_walk {model : Model} : ∀ {events : List StoredEvent} {p : Option String}
    {n : ℕ} {entries : List ConversationEntry}, walkStoredEvents p n events = .ok entries →
    toPiMessages entries model = storedMessages model events
  | [], _, _, _, h => by
    simp only [walkStoredEvents, Except.ok.injEq] at h
    subst h
    rfl
  | e :: events, p, n, entries, h => by
    by_cases hk : e.kind = "run_status"
    · simp only [walkStoredEvents, if_pos hk] at h
      rw [toPiMessages_walk h]
      simp only [storedMessages, StoredEvent.messages, if_pos hk, bind, Except.bind]
      cases storedMessages model events <;> rfl
    · obtain ⟨rest, hm, hr, rfl⟩ := walk_cons hk h
      simp only [toPiMessages, storedMessages, StoredEvent.messages, if_neg hk, hm,
        toPiMessages_walk hr]
      rfl

theorem storedMessages_append {model : Model} (events' : List StoredEvent) :
    ∀ (events : List StoredEvent), storedMessages model (events ++ events') = (do
      let messages ← storedMessages model events
      let rest ← storedMessages model events'
      return messages ++ rest)
  | [] => by
    simp only [List.nil_append, storedMessages, bind, Except.bind]
    cases storedMessages model events' <;> rfl
  | e :: events => by
    simp only [List.cons_append, storedMessages, storedMessages_append events' events, bind,
      Except.bind, pure, Except.pure]
    cases e.messages model <;> simp only
    cases storedMessages model events <;> simp only
    cases storedMessages model events' <;> simp only [List.append_assoc]

/-- The events that a resumed session can see. -/
def conversational (events : List StoredEvent) : List StoredEvent :=
  events.filter fun e => e.kind ≠ "run_status"

theorem storedMessages_conversational (model : Model) :
    ∀ (events : List StoredEvent),
      storedMessages model (conversational events) = storedMessages model events
  | [] => rfl
  | e :: events => by
    have ih := storedMessages_conversational model events
    by_cases hk : e.kind = "run_status"
    · have : conversational (e :: events) = conversational events := by
        simp [conversational, hk]
      rw [this, ih]
      simp only [storedMessages, StoredEvent.messages, if_pos hk, bind, Except.bind]
      cases storedMessages model events <;> rfl
    · have : conversational (e :: events) = e :: conversational events := by
        simp [conversational, hk]
      rw [this]
      simp only [storedMessages, ih]

/-! ## The protocol check -/

/-- The calls that started less those that have a result. -/
def unansweredIn (events : List StoredEvent) : ℤ :=
  events.countP (fun e => e.kind = "tool_use") - events.countP (fun e => e.kind = "tool_result")

@[simp] theorem unansweredIn_nil : unansweredIn [] = 0 := rfl

theorem unansweredIn_singleton (e : StoredEvent) : unansweredIn [e] =
    if e.kind = "tool_use" then 1 else if e.kind = "tool_result" then -1 else 0 := by
  by_cases h : e.kind = "tool_use"
  · simp [unansweredIn, h]
  · by_cases h' : e.kind = "tool_result" <;> simp [unansweredIn, h, h']

theorem unansweredIn_append (events events' : List StoredEvent) :
    unansweredIn (events ++ events') = unansweredIn events + unansweredIn events' := by
  simp only [unansweredIn, List.countP_append]
  omega

theorem unansweredIn_cons (e : StoredEvent) (events : List StoredEvent) :
    unansweredIn (e :: events) = unansweredIn [e] + unansweredIn events :=
  unansweredIn_append [e] events

theorem unansweredIn_conversational (events : List StoredEvent) :
    unansweredIn (conversational events) = unansweredIn events := by
  unfold unansweredIn conversational
  rw [List.countP_filter, List.countP_filter]
  congr 2
  · refine List.countP_congr fun e _ => ?_
    by_cases h : e.kind = "tool_use" <;> simp [h]
  · refine List.countP_congr fun e _ => ?_
    by_cases h : e.kind = "tool_result" <;> simp [h]

def Kinds (events : List StoredEvent) : Prop := ∀ e ∈ events, e.kind = kindOf e.payload

theorem length_checkMessage {pending pending' : List String} {e : StoredEvent}
    (hk : e.kind = kindOf e.payload)
    (h : Conversation.checkMessage pending (protocolView e.payload) = .ok pending') :
    (pending'.length : ℤ) = pending.length + unansweredIn [e] := by
  unfold protocolView at h
  split_ifs at h with hu hr
  · have hd : unansweredIn [e] = 1 := by simp [unansweredIn, hk, hu]
    rcases hs : stringField e.payload "toolCallId" with _ | id <;>
      simp [Conversation.checkMessage, hs] at h
    subst h
    simp [hd]
  · have hd : unansweredIn [e] = -1 := by simp [unansweredIn, hk, hr]
    rcases pending with _ | ⟨expected, rest⟩
    · simp [Conversation.checkMessage] at h
    · simp only [Conversation.checkMessage] at h
      split_ifs at h
      simp only [Except.ok.injEq] at h
      subst h
      rw [hd, List.length_cons]
      omega
  · have hd : unansweredIn [e] = 0 := by simp [unansweredIn, hk, hu, hr]
    simp only [Conversation.checkMessage, Except.ok.injEq] at h
    subst h
    simp [hd]

theorem length_openCalls : ∀ {events : List StoredEvent} {p : Option String} {n : ℕ}
    {entries : List ConversationEntry} {pending pending' : List String}, Kinds events →
    walkStoredEvents p n events = .ok entries →
    (entries.map fun e => (⟨e.id, e.parentId, e.seq, e.timestamp, protocolView e.message⟩ :
      Conversation.ConversationEntry)).foldlM
        (fun pending entry => Conversation.checkMessage pending entry.message) pending =
      .ok pending' →
    (pending'.length : ℤ) = pending.length + unansweredIn events
  | [], _, _, _, _, _, _, h, hf => by
    simp only [walkStoredEvents, Except.ok.injEq] at h
    subst h
    simp only [List.map_nil, List.foldlM_nil, pure, Except.pure, Except.ok.injEq] at hf
    simp [hf]
  | e :: events, p, n, entries, pending, pending', hk, h, hf => by
    have hk' : Kinds events := fun e' he' => hk e' (List.mem_cons_of_mem _ he')
    rw [unansweredIn_cons]
    by_cases hs : e.kind = "run_status"
    · simp only [walkStoredEvents, if_pos hs] at h
      have hd : unansweredIn [e] = 0 := by simp [unansweredIn, hs]
      have := length_openCalls hk' h hf
      omega
    · obtain ⟨rest, -, hr, rfl⟩ := walk_cons hs h
      simp only [List.map_cons, List.foldlM_cons] at hf
      rcases hc : Conversation.checkMessage pending (protocolView e.payload) with _ | pending₁
      · simp [hc, bind, Except.bind] at hf
      · simp only [hc, bind, Except.bind] at hf
        have h₁ := length_checkMessage (hk e List.mem_cons_self) hc
        have h₂ := length_openCalls hk' hr hf
        omega

theorem walk_of_reconstruct {events : List StoredEvent} {entries : List ConversationEntry}
    (h : reconstructConversationHistory events = .ok entries) :
    walkStoredEvents none 0 events = .ok entries := by
  unfold reconstructConversationHistory walkStoredEntries at h
  rcases hw : walkStoredEvents none 0 events with _ | entries'
  · simp [hw, bind, Except.bind] at h
  · simp only [hw, bind, Except.bind, pure, Except.pure] at h
    by_cases he : entries'.isEmpty = true
    · rw [if_pos he] at h
      obtain rfl : entries' = [] := by simpa using he
      exact h
    · rw [if_neg he] at h
      rcases hv : validateProtocolInvariants entries' with _ | _ <;> simp only [hv] at h
      · cases h
      · exact h

/-- A history that the protocol check accepts answers all its calls. -/
theorem unanswered_of_reconstruct {events : List StoredEvent} {entries : List ConversationEntry}
    (hk : Kinds events) (h : reconstructConversationHistory events = .ok entries) :
    unansweredIn events = 0 := by
  unfold reconstructConversationHistory walkStoredEntries at h
  rcases hw : walkStoredEvents none 0 events with _ | entries'
  · simp [hw, bind, Except.bind] at h
  · simp only [hw, bind, Except.bind, pure, Except.pure] at h
    by_cases he : entries'.isEmpty = true
    · rw [if_pos he] at h
      obtain rfl : entries' = [] := by simpa using he
      have h := @length_openCalls events none 0 [] [] [] hk hw rfl
      simpa using h.symm
    · rw [if_neg he] at h
      unfold validateProtocolInvariants Conversation.validateProtocolInvariants
        Conversation.openCalls at h
      generalize hf : List.foldlM (m := Except String) _ _ _ = r at h
      rcases r with _ | pending
      · simp [bind, Except.bind] at h
      · simp only [bind, Except.bind] at h
        have := length_openCalls hk hw hf
        rcases pending with _ | ⟨id, pending⟩
        · simpa using this.symm
        · simp at h

/-! ## What the events of a turn store -/

def added (model : Model) (now : ℤ) : AgentEvent → List Message
  | .message_end (.assistant m) =>
    [.assistant { m with
      api := model.api
      provider := model.provider
      model := model.id
      usage := Usage.zero
      timestamp := now }]
  | .tool_execution_end toolCallId toolName result isError =>
    [.toolResult ⟨toolCallId, toolName, result.content, result.details, isError, now⟩]
  | _ => []

def started : AgentEvent → ℤ
  | .tool_execution_start _ _ _ => 1
  | .tool_execution_end _ _ _ _ => -1
  | _ => 0

def stored (toolEventMetadata : String → Option ToolEventMetadata) (event : AgentEvent)
    (targets : Targets) (id : ℕ) (now : ℤ) : List StoredEvent :=
  match (toAgentMessage toolEventMetadata event targets).1 with
  | some payload =>
    if kindOf payload ∈ PERSISTED_EVENT_KINDS then [⟨id, kindOf payload, payload, now⟩] else []
  | none => []

structure StoresAs (model : Model) (now : ℤ) (event : AgentEvent) (rows : List StoredEvent) :
    Prop where
  messages : storedMessages model rows = .ok (added model now event)
  unanswered : unansweredIn rows = started event
  kinds : Kinds rows
  conversational : conversational rows = rows

theorem StoresAs.nil {model : Model} {now : ℤ} {event : AgentEvent} (h : added model now event = [])
    (hs : started event = 0) : StoresAs model now event [] :=
  ⟨by rw [h]; rfl, by rw [hs]; rfl, nofun, rfl⟩

theorem StoresAs.row {model : Model} {now : ℤ} {event : AgentEvent} {payload : JsonObject} {id : ℕ}
    (hk : kindOf payload ≠ "run_status") (hm : kindOf payload ∈ AGENT_MESSAGE_KINDS)
    (h : toPiMessage ⟨toString id, none, 0, now, payload⟩ model = .ok (added model now event))
    (hs : unansweredIn [⟨id, kindOf payload, payload, now⟩] = started event) :
    StoresAs model now event [⟨id, kindOf payload, payload, now⟩] where
  messages := by
    simp only [storedMessages, StoredEvent.messages, if_neg hk, parseStoredAgentMessage, if_pos hm,
      bind, Except.bind, h, pure, Except.pure, List.append_nil]
  unanswered := hs
  kinds := fun e he => by
    obtain rfl := List.mem_singleton.mp he
    rfl
  conversational := by simp [PiSession.conversational, hk]

variable {toolEventMetadata : String → Option ToolEventMetadata} {model : Model}

variable (toolEventMetadata model) in
theorem toAssistantMessage_stored {m : AssistantMessage} (id : ℕ) (now : ℤ)
    (hc : isAssistantContent m.content = true) (hs : m.stopReason ∈ STOP_REASONS)
    {payload : JsonObject}
    (h : (toAgentMessage toolEventMetadata (.message_end (.assistant m)) []).1 = some payload) :
    kindOf payload = "message" ∧
      toPiMessage ⟨toString id, none, 0, now, payload⟩ model =
        .ok (added model now (.message_end (.assistant m))) := by
  simp only [toAgentMessage, Option.some.injEq] at h
  subst h
  rcases he : m.errorMessage with _ | error <;>
    simp [kindOf, stringField, toPiMessage, toAssistantMessage, optionalField, JsonObject.get?,
      List.lookup_cons, hc, hs, added, isOptionalString, isString, Except.map, he, pure,
      Except.pure]

theorem toToolResultMessage_stored {toolCallId toolName : String} {result : AgentToolResult}
    {isError : Bool} (targets : Targets) (id : ℕ) (now : ℤ) {payload : JsonObject}
    (hc : isToolResultContent result.content = true)
    (h : (toAgentMessage toolEventMetadata (.tool_execution_end toolCallId toolName result isError)
      targets).1 = some payload) :
    kindOf payload = "tool_result" ∧
      toPiMessage ⟨toString id, none, 0, now, payload⟩ model =
        .ok (added model now (.tool_execution_end toolCallId toolName result isError)) := by
  simp only [toAgentMessage, Option.some.injEq] at h
  have get? : ∀ key, key ≠ "operation" → key ≠ "mcp" → key ≠ "targetDatabaseId" →
      key ≠ "targetItemId" → payload.get? key =
        JsonObject.get? [("kind", .str "tool_result"), ("toolCallId", .str toolCallId),
          ("name", .str toolName), ("result", result.toJson), ("isError", .bool isError)] key := by
    intro key h₁ h₂ h₃ h₄
    rw [← h]
    exact get?_toolPayload _ _ _ h₁ h₂ h₃ h₄
  have hkind : kindOf payload = "tool_result" := by
    unfold kindOf stringField
    rw [get? "kind" (by decide) (by decide) (by decide) (by decide)]
    rfl
  have hdetails : List.lookup "details" (detailsField result.details) = result.details := by
    cases result.details <;> rfl
  refine ⟨hkind, ?_⟩
  unfold toPiMessage
  simp only [hkind, String.reduceEq, if_false, if_true]
  unfold toToolResultMessage
  rw [get? "toolCallId" (by decide) (by decide) (by decide) (by decide),
    get? "name" (by decide) (by decide) (by decide) (by decide),
    get? "isError" (by decide) (by decide) (by decide) (by decide),
    get? "result" (by decide) (by decide) (by decide) (by decide)]
  simp only [JsonObject.get?, List.lookup_cons, String.reduceBEq, AgentToolResult.toJson]
  simp only [hc, if_true, hdetails, Except.map, added]

theorem Turn.of_event_assistant {t t' : Turn} {m : AssistantMessage}
    (h : t.event (.message_end (.assistant m)) = some t') :
    (t.calls = [] ∧ t.running = [] ∧ t.ended.length = 0 ∧ isAssistantContent m.content = true ∧
      m.stopReason ∈ STOP_REASONS ∧ (toolCallIds m.content).Nodup) ∧
      t' = { t with calls := if m.failed then [] else toolCallIds m.content } := by
  simp only [Turn.event] at h
  by_cases hg : t.calls = [] ∧ t.running = [] ∧ t.ended.length = 0 ∧
      isAssistantContent m.content = true ∧ m.stopReason ∈ STOP_REASONS ∧
      m.DistinctCalls
  · rw [if_pos hg] at h
    exact ⟨hg, (Option.some.inj h).symm⟩
  · rw [if_neg hg] at h
    cases h

variable (toolEventMetadata model) in
/-- What the log keeps of an event that pi emits converts to the message that it stands for. -/
theorem storesAs_stored {t t' : Turn} {event : AgentEvent} (h : t.event event = some t')
    (targets : Targets) (id : ℕ) (now : ℤ) :
    StoresAs model now event (stored toolEventMetadata event targets id now) := by
  unfold stored
  cases event with
  | message_end m =>
    cases m with
    | assistant m =>
      obtain ⟨⟨-, -, -, hc, hs, -⟩, -⟩ := Turn.of_event_assistant h
      obtain ⟨hk, hm⟩ := toAssistantMessage_stored toolEventMetadata model id now hc hs rfl
      change StoresAs _ _ _ (if kindOf _ ∈ PERSISTED_EVENT_KINDS then [_] else [])
      rw [if_pos (by rw [hk]; decide)]
      exact .row (by rw [hk]; decide) (by rw [hk]; decide) hm
        (by simp only [unansweredIn_singleton, hk]; rfl)
    | user content timestamp => exact .nil rfl rfl
    | toolResult m => exact .nil rfl rfl
  | turn_start => exact .row (by decide) (by decide) rfl rfl
  | turn_end => exact .row (by decide) (by decide) rfl rfl
  | message_update type contentIndex delta =>
    simp only [toAgentMessage]
    by_cases ht : type ≠ "text_delta" ∧ type ≠ "thinking_delta" ∧ type ≠ "toolcall_delta"
    · rw [if_pos ht]
      exact .nil rfl rfl
    · rw [if_neg ht]
      exact .nil rfl rfl
  | tool_execution_start toolCallId toolName args =>
    generalize hp : (toAgentMessage _ _ _).1 = payload
    simp only [toAgentMessage] at hp
    subst hp
    have hk : kindOf ((JsonObject.merge [("kind", .str "tool_use"),
        ("toolCallId", .str toolCallId), ("name", .str toolName), ("arguments", args)]
          (metadataJson (toolEventMetadata toolName))).merge
        (targetOf (toolEventMetadata toolName) args).toJson) = "tool_use" := by
      unfold kindOf stringField
      rw [get?_toolPayload _ _ _ (by decide) (by decide) (by decide) (by decide)]
      rfl
    change StoresAs _ _ _ (if kindOf _ ∈ PERSISTED_EVENT_KINDS then [_] else [])
    rw [if_pos (by rw [hk]; decide)]
    refine .row (by rw [hk]; decide) (by rw [hk]; decide) ?_
      (by simp only [unansweredIn_singleton, hk]; rfl)
    simp [toPiMessage, hk, added]
  | tool_execution_end toolCallId toolName result isError =>
    simp only [Turn.event] at h
    split_ifs at h with hg
    obtain ⟨hk, hm⟩ := @toToolResultMessage_stored toolEventMetadata model toolCallId toolName
      result isError targets id now _ hg.2 rfl
    change StoresAs _ _ _ (if kindOf _ ∈ PERSISTED_EVENT_KINDS then [_] else [])
    rw [if_pos (by rw [hk]; decide)]
    exact .row (by rw [hk]; decide) (by rw [hk]; decide) hm
      (by simp only [unansweredIn_singleton, hk]; rfl)
  | agent_start => exact .nil rfl rfl
  | agent_end => exact .nil rfl rfl
  | message_start m => exact .nil rfl rfl
  | tool_execution_update toolCallId toolName => exact .nil rfl rfl

/-! ## Calls and their answers -/

def answer (pending : List String) : Message → Option (List String)
  | .user _ _ => some pending
  | .assistant m =>
    if pending = [] ∧ (toolCallIds m.content).Nodup then some (toolCallIds m.content) else none
  | .toolResult r =>
    if r.toolCallId ∈ pending then some (pending.erase r.toolCallId) else none

def answerAll (pending : List String) (messages : List Message) : Option (List String) :=
  messages.foldlM answer pending

theorem answerAll_append (pending : List String) (ms ms' : List Message) :
    answerAll pending (ms ++ ms') = (answerAll pending ms).bind fun p => answerAll p ms' :=
  List.foldlM_append

theorem answerAll_cons (pending : List String) (m : Message) (ms : List Message) :
    answerAll pending (m :: ms) = (answer pending m).bind fun p => answerAll p ms :=
  List.foldlM_cons

theorem count_resultIds : ∀ (ms : List Message) {p : List String}, p.Nodup →
    answerAll p ms = some [] → ∀ id,
      (resultIds (ms.takeWhile fun m => !m.isAssistant)).count id = if id ∈ p then 1 else 0
  | [], p, _, h, id => by
    obtain rfl : p = [] := by simpa [answerAll] using h
    rfl
  | .user content timestamp :: ms, p, hp, h, id =>
    count_resultIds ms hp (by simpa [answerAll_cons, answer] using h) id
  | .assistant m :: ms, p, _, h, id => by
    rw [answerAll_cons] at h
    obtain ⟨q, hq, -⟩ := Option.bind_eq_some_iff.mp h
    simp only [answer] at hq
    split_ifs at hq with hg
    rw [hg.1]
    simp [Message.isAssistant, resultIds]
  | .toolResult r :: ms, p, hp, h, id => by
    rw [answerAll_cons] at h
    obtain ⟨q, hq, h⟩ := Option.bind_eq_some_iff.mp h
    simp only [answer] at hq
    split_ifs at hq with hr
    obtain rfl := Option.some.inj hq
    have ih := count_resultIds _ (hp.erase r.toolCallId) h id
    have htake : resultIds ((Message.toolResult r :: ms).takeWhile fun m => !m.isAssistant) =
        r.toolCallId :: resultIds (ms.takeWhile fun m => !m.isAssistant) := rfl
    rw [htake, List.count_cons, ih]
    by_cases hid : id = r.toolCallId
    · subst hid
      simp [hr, hp.not_mem_erase]
    · have hne : (r.toolCallId == id) = false := by simpa using fun h => hid h.symm
      simp [hne, List.mem_erase_of_ne hid]

theorem exists_assistant_of_open : ∀ {ms : List Message} {p q : List String} {id : String},
    answerAll p ms = some q → id ∈ q →
    (∃ first m rest, ms = first ++ Message.assistant m :: rest ∧
      (∀ m ∈ rest, m.isAssistant = false) ∧ id ∈ toolCallIds m.content) ∨ id ∈ p ∧ ∀ m ∈ ms, m.isAssistant = false
  | [], p, q, id, h, hid => by
    obtain rfl : p = q := by simpa [answerAll] using h
    exact .inr ⟨hid, nofun⟩
  | m :: ms, p, q, id, h, hid => by
    rw [answerAll_cons] at h
    obtain ⟨p', hp', h⟩ := Option.bind_eq_some_iff.mp h
    rcases exists_assistant_of_open h hid with ⟨first, m', rest, rfl, hrest, hm'⟩ | ⟨hp, hms⟩
    · exact .inl ⟨m :: first, m', rest, rfl, hrest, hm'⟩
    · rcases m with ⟨content, timestamp⟩ | m | r
      · obtain rfl : p = p' := by simpa [answer] using hp'
        exact .inr ⟨hp, by simpa [Message.isAssistant] using hms⟩
      · simp only [answer] at hp'
        split_ifs at hp'
        obtain rfl := Option.some.inj hp'
        exact .inl ⟨[], m, ms, rfl, hms, hp⟩
      · simp only [answer] at hp'
        split_ifs at hp'
        obtain rfl := Option.some.inj hp'
        exact .inr ⟨List.mem_of_mem_erase hp, by simpa [Message.isAssistant] using hms⟩

theorem replayable_of_answerAll {ms : List Message} (h : answerAll [] ms = some []) :
    Replayable ms where
  answered := fun before m after hms id hid => by
    subst hms
    rw [answerAll_append] at h
    obtain ⟨p, -, h⟩ := Option.bind_eq_some_iff.mp h
    rw [answerAll_cons] at h
    obtain ⟨q, hq, h⟩ := Option.bind_eq_some_iff.mp h
    simp only [answer] at hq
    split_ifs at hq with hg
    obtain rfl := Option.some.inj hq
    rw [count_resultIds _ hg.2 h, if_pos hid]
  answers := fun before r after hms => by
    subst hms
    rw [answerAll_append] at h
    obtain ⟨p, hp, h⟩ := Option.bind_eq_some_iff.mp h
    rw [answerAll_cons] at h
    obtain ⟨q, hq, -⟩ := Option.bind_eq_some_iff.mp h
    simp only [answer] at hq
    split_ifs at hq with hr
    rcases exists_assistant_of_open hp hr with h | h
    · exact h
    · exact absurd h.1 List.not_mem_nil

variable (model) in
theorem answerAll_added {t t' : Turn} {event : AgentEvent} (now : ℤ) {p : List String}
    (h : t.event event = some t') (hp : p.Perm (t.calls ++ t.running))
    (hfailed : ∀ m, event = .message_end (.assistant m) → m.failed = true →
      toolCallIds m.content = []) :
    (∃ p', answerAll p (added model now event) = some p' ∧ p'.Perm (t'.calls ++ t'.running)) ∧
      (t'.running.length : ℤ) = t.running.length + started event := by
  cases event with
  | message_end m =>
    cases m with
    | assistant m =>
      obtain ⟨⟨hcalls, hrunning, -, -, -, hnodup⟩, rfl⟩ := Turn.of_event_assistant h
      obtain rfl : p = [] := by simpa [hcalls, hrunning] using hp
      have hids : (if m.failed = true then [] else toolCallIds m.content) =
          toolCallIds m.content := by
        split_ifs with hf
        · exact (hfailed m rfl hf).symm
        · rfl
      refine ⟨⟨toolCallIds m.content, ?_, ?_⟩, by simp [started]⟩
      · simp [added, answerAll, answer, hnodup]
      · change (toolCallIds m.content).Perm ((if m.failed = true then [] else _) ++ t.running)
        rw [hids, hrunning, List.append_nil]
    | user content timestamp =>
      obtain rfl := Option.some.inj h
      exact ⟨⟨p, rfl, hp⟩, by simp [started]⟩
    | toolResult m => cases h
  | tool_execution_start toolCallId toolName args =>
    simp only [Turn.event] at h
    split at h
    · rename_i call calls hcalls
      split_ifs at h
      obtain rfl := Option.some.inj h
      rw [hcalls] at hp
      refine ⟨⟨p, rfl, hp.trans ?_⟩, by simp [started]⟩
      have : (call :: calls ++ t.running).Perm (calls ++ call :: t.running) :=
        List.perm_middle.symm
      exact this.trans (List.Perm.append_left calls (List.perm_append_singleton _ _).symm)
    · cases h
  | tool_execution_end toolCallId toolName result isError =>
    simp only [Turn.event] at h
    split_ifs at h with hg
    obtain rfl := Option.some.inj h
    have hmem : toolCallId ∈ p := hp.mem_iff.mpr (List.mem_append_right _ hg.1)
    refine ⟨⟨p.erase toolCallId, by simp [added, answerAll, answer, hmem], ?_⟩, ?_⟩
    · have hrest : (p).Perm (toolCallId :: (t.calls ++ t.running.erase toolCallId)) :=
        hp.trans (((List.perm_cons_erase hg.1).append_left t.calls).trans List.perm_middle)
      exact ((List.perm_cons_erase hmem).symm.trans hrest).cons_inv
    · have := List.length_erase_of_mem hg.1
      have := List.length_pos_of_mem hg.1
      simp only [started]
      omega
  | _ =>
    obtain rfl := Option.some.inj h
    exact ⟨⟨p, rfl, hp⟩, by simp [started]⟩

end PiSession

end Semprec
