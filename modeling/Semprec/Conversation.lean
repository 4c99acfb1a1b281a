import Mathlib.Data.List.Sort
import Mathlib.Data.Int.Notation
import Semprec.Lib.Runs

/-!
# The stored history of a session conversation

A conversation is woken on a new run when it has no session in memory: what its runs have stored is
folded back into entries, checked, compacted if it is too long, and continued.  Turns append events
to the run of the latest wake; a sweep deletes what lies before the latest checkpoint.
-/

namespace Semprec

namespace Conversation

inductive AgentMessageKind where
  | turn_start
  | message
  | tool_use
  | tool_result
  | turn_end
  | run_status
deriving DecidableEq

/-- A message of the stored kinds; `toolCallId` is `none` when it is not a string, and `body` the
rest of the message. -/
structure AgentMessage where
  kind : AgentMessageKind
  toolCallId : Option String
  body : String
deriving DecidableEq

structure ConversationEntry where
  id : String
  parentId : Option String
  seq : ℕ
  timestamp : ℤ
  message : AgentMessage
deriving DecidableEq

inductive Payload where
  | message (m : AgentMessage)
  | compaction (entries : List ConversationEntry)
deriving DecidableEq

/-- An event with the `wake_seq` of its run, the conversation's only runs being counted. -/
structure AgentRunEventRow where
  id : ℕ
  wakeSeq : ℕ
  payload : Payload
  at_ : ℤ
deriving DecidableEq

namespace AgentRunEventRow

variable (event : AgentRunEventRow)

def isCompaction : Bool :=
  match event.payload with
  | .compaction _ => true
  | .message _ => false

/-- Not among `NON_CONVERSATIONAL_KINDS`. -/
def conversational : Bool :=
  match event.payload with
  | .compaction _ => true
  | .message m => m.kind ≠ .run_status

end AgentRunEventRow

/-! ## Reconstruction -/

structure Walk where
  entries : List ConversationEntry
  seq : ℕ
  parentId : Option String
deriving DecidableEq

namespace Walk

def init : Walk := ⟨[], 0, none⟩

@[grind =] def event (w : Walk) (e : AgentRunEventRow) : Walk :=
  match e.payload with
  | .compaction entries =>
    match entries.getLast? with
    | some last => ⟨entries, last.seq + 1, some last.id⟩
    | none => ⟨entries, 0, none⟩
  | .message m =>
    if m.kind = .run_status then w
    else ⟨w.entries ++ [⟨toString e.id, w.parentId, w.seq, e.at_, m⟩], w.seq + 1,
      some (toString e.id)⟩

end Walk

def walkStoredEntries (events : List AgentRunEventRow) : List ConversationEntry :=
  (events.foldl Walk.event .init).entries

/-- `(wake_seq, id)` order. -/
def before (a b : AgentRunEventRow) : Prop :=
  a.wakeSeq < b.wakeSeq ∨ a.wakeSeq = b.wakeSeq ∧ a.id ≤ b.id

instance : DecidableRel before := fun a b => by unfold before; infer_instance

def orderByWakeSeqAndId (events : List AgentRunEventRow) : List AgentRunEventRow :=
  events.insertionSort before

/-- `max(e.id)` over the checkpoints. -/
def latestCompaction (events : List AgentRunEventRow) : Option ℕ :=
  ((events.filter fun e => e.isCompaction).map fun e => e.id).max?

def listSessionAgentRunEventsFromLastCompaction (events : List AgentRunEventRow) :
    List AgentRunEventRow :=
  orderByWakeSeqAndId (events.filter fun e => (latestCompaction events).getD 0 ≤ e.id)

@[grind =] def checkMessage (pendingToolCallIds : List String) (m : AgentMessage) :
    Except String (List String) :=
  match m.kind with
  | .tool_use =>
    match m.toolCallId with
    | some toolCallId => .ok (pendingToolCallIds ++ [toolCallId])
    | none => .error "tool_use entry is missing a string toolCallId"
  | .tool_result =>
    match pendingToolCallIds with
    | expected :: rest =>
      if m.toolCallId = some expected then .ok rest
      else .error "tool_result entry does not match the pending tool_use call"
    | [] => .error "tool_result entry does not match the pending tool_use call"
  | _ => .ok pendingToolCallIds

def openCalls (entries : List ConversationEntry) : Except String (List String) :=
  entries.foldlM (fun pending entry => checkMessage pending entry.message) []

def validateProtocolInvariants (entries : List ConversationEntry) : Except String Unit := do
  let pendingToolCallIds ← openCalls entries
  if pendingToolCallIds.length > 0 then
    .error "reconstructed history has unmatched tool_use calls"

/-- `CompactionAdapter`: `none` when the history is not too large. -/
abbrev CompactionAdapter := List ConversationEntry → Option (List ConversationEntry)

def reconstructConversationHistory (compaction : CompactionAdapter)
    (events : List AgentRunEventRow) : Except String (List ConversationEntry × Bool) := do
  let entries := walkStoredEntries (listSessionAgentRunEventsFromLastCompaction events)
  if entries = [] then return ([], false)
  validateProtocolInvariants entries
  match compaction entries with
  | none => return (entries, false)
  | some compacted => do
    validateProtocolInvariants compacted
    return (compacted, true)

/-! ## The system -/

inductive AgentRunStatus where
  | running
  | done
  | error
deriving DecidableEq

inductive Phase where
  | idle
  /-- The history is read; `compacted` is a checkpoint to be stored. -/
  | reconstructed (compacted : Option (List ConversationEntry))
  | created (wakeSeq : ℕ) (compacted : Option (List ConversationEntry))
  | turn (wakeSeq : ℕ) (openCalls : List String)
  /-- An entry with a session and no turn in flight. -/
  | entry (wakeSeq : ℕ)
  /-- The process has ended, and the next one has not repaired its runs. -/
  | down
deriving DecidableEq

/-- `runs` are the statuses of the conversation's runs by `wake_seq`, `log` the events that were
ever stored, and `sweeps` the checkpoint that each running sweep has read. -/
structure Sys where
  runs : List AgentRunStatus
  events : List AgentRunEventRow
  log : List AgentRunEventRow
  nextEventId : ℕ
  phase : Phase
  sweeps : ℕ → Option ℕ

def Sys.init : Sys := ⟨[], [], [], 1, .idle, fun _ => none⟩

namespace Sys

variable (s : Sys)

def insertEvent (wakeSeq : ℕ) (payload : Payload) (now : ℤ) : Sys :=
  let event : AgentRunEventRow := ⟨s.nextEventId, wakeSeq, payload, now⟩
  { s with
    events := s.events ++ [event]
    log := s.log ++ [event]
    nextEventId := s.nextEventId + 1 }

def setPhase (phase : Phase) : Sys := { s with phase }

@[grind =] def finishAgentRun (wakeSeq : ℕ) (status : AgentRunStatus) : Sys :=
  { s with runs := s.runs.modify wakeSeq fun old => if old = .running then status else old }

def lastEvent (wakeSeq : ℕ) : Option AgentRunEventRow :=
  (s.events.filter fun e => e.wakeSeq = wakeSeq).getLast?

end Sys

def interrupted : String :=
  "Run interrupted by service restart before this tool call completed (interrupted_by_restart)."

/-- The synthetic result of an unpaired `tool_use`: its payload with another kind. -/
def syntheticResult (m : AgentMessage) : AgentMessage :=
  { m with kind := .tool_result, body := interrupted }

def appendSyntheticResult (now : ℤ) (s : Sys) (wakeSeq : ℕ) : Sys :=
  match s.lastEvent wakeSeq with
  | some ⟨_, _, .message m, _⟩ =>
    if m.kind = .tool_use then s.insertEvent wakeSeq (.message (syntheticResult m)) now else s
  | _ => s

@[grind =] def repairRun (now : ℤ) (s : Sys) (wakeSeq : ℕ) : Sys :=
  if s.runs[wakeSeq]? = some .running then
    (appendSyntheticResult now s wakeSeq).finishAgentRun wakeSeq .error
  else s

def repairCurrentTenant (s : Sys) (now : ℤ) : Sys :=
  (List.range s.runs.length).foldl (repairRun now) s

/-- `forEachActiveTenant` passes by a tenant whose status is another. -/
def repairInterruptedRuns (s : Sys) (active : Bool) (now : ℤ) : Sys :=
  if active then repairCurrentTenant s now else s

def retentionDeleteBatchSize : ℕ := 1000

/-- 30 days, in milliseconds. -/
def agentRunEventsRetention : ℤ := 30 * 86400000

def expiredBatch (s : Sys) (compactionId : ℕ) (now : ℤ) : List AgentRunEventRow :=
  (s.events.filter fun e => s.runs[e.wakeSeq]? ≠ some .running ∧ e.id < compactionId ∧
    e.at_ < now - agentRunEventsRetention).take retentionDeleteBatchSize

inductive Act where
  /-- An id of the sequence is taken by another conversation. -/
  | skipEventId
  | reconstruct (compaction : CompactionAdapter)
  | createAgentRun
  | persistCompaction (now : ℤ)
  | createAgentSession
  /-- A call of the wake fails; a run that it created stays as it is. -/
  | failWake
  /-- The stream of the turn emits a message, which is stored. -/
  | emit (m : AgentMessage) (now : ℤ)
  | endTurn
  /-- The stream or a write throws. -/
  | failTurn
  /-- A message for the session in memory. -/
  | continueSession
  /-- The close of a run by `failRun`, a pause or a drop. -/
  | finishAgentRun (wakeSeq : ℕ) (status : AgentRunStatus)
  | pushRunStatus (wakeSeq : ℕ) (status : String) (now : ℤ)
  | clearEntry
  | crash
  | repairInterruptedRuns (active : Bool) (now : ℤ)
  | beginSweep (k : ℕ)
  | deleteBatch (k : ℕ) (now : ℤ)

/-- The run that the process is waking on or driving. -/
def Phase.drives : Phase → ℕ → Bool
  | .created w _, wakeSeq => w = wakeSeq
  | .turn w _, wakeSeq => w = wakeSeq
  | _, _ => false

/-- The stream of a turn is the only writer of its run, and the repair of a process that ended. -/
def Phase.appends : Phase → ℕ → Bool
  | .turn w _, wakeSeq => w = wakeSeq
  | .down, _ => true
  | _, _ => false

/-- The calls that the stream leaves open, as long as it answers them in order. -/
def callsAfter (openCalls : List String) (m : AgentMessage) : List String :=
  (checkMessage openCalls m).toOption.getD openCalls

@[grind =] def step (s : Sys) : Act → Option Sys
  | .skipEventId => some { s with nextEventId := s.nextEventId + 1 }
  | .reconstruct compaction =>
    match s.phase, reconstructConversationHistory compaction s.events with
    | .idle, .ok (entries, compacted) =>
      some (s.setPhase (.reconstructed (if compacted then some entries else none)))
    | _, _ => none
  | .createAgentRun =>
    match s.phase with
    | .reconstructed compacted =>
      some { s with
        runs := s.runs ++ [.running]
        phase := .created s.runs.length compacted }
    | _ => none
  | .persistCompaction now =>
    match s.phase with
    | .created w (some entries) =>
      some ((s.insertEvent w (.compaction entries) now).setPhase (.created w none))
    | _ => none
  | .createAgentSession =>
    match s.phase with
    | .created w none => some (s.setPhase (.turn w []))
    | _ => none
  | .failWake =>
    match s.phase with
    | .reconstructed _ => some (s.setPhase .idle)
    | .created _ _ => some (s.setPhase .idle)
    | _ => none
  | .emit m now =>
    match s.phase with
    | .turn w openCalls =>
      if s.runs[w]? = some .running ∨ m.kind = .run_status then
        some ((s.insertEvent w (.message m) now).setPhase (.turn w (callsAfter openCalls m)))
      else none
    | _ => none
  | .endTurn =>
    match s.phase with
    | .turn w _ => some (s.setPhase (.entry w))
    | _ => none
  | .failTurn =>
    match s.phase with
    | .turn _ _ => some (s.setPhase .idle)
    | _ => none
  | .continueSession =>
    match s.phase with
    | .entry w => some (s.setPhase (.turn w []))
    | _ => none
  | .finishAgentRun wakeSeq status =>
    if s.phase ≠ .down ∧ s.phase.drives wakeSeq = false ∧ status ≠ .running then
      some (s.finishAgentRun wakeSeq status)
    else none
  | .pushRunStatus wakeSeq status now =>
    if wakeSeq < s.runs.length ∧ s.phase.appends wakeSeq = false then
      some (s.insertEvent wakeSeq (.message ⟨.run_status, none, status⟩) now)
    else none
  | .clearEntry =>
    match s.phase with
    | .entry w => if s.runs[w]? ≠ some .running then some (s.setPhase .idle) else none
    | _ => none
  | .crash => some (s.setPhase .down)
  | .repairInterruptedRuns active now =>
    if s.phase = .down then some ((repairInterruptedRuns s active now).setPhase .idle) else none
  | .beginSweep k =>
    some { s with sweeps := Function.update s.sweeps k (latestCompaction s.events) }
  | .deleteBatch k now =>
    match s.sweeps k with
    | some compactionId =>
      some { s with events := s.events.filter (· ∉ expiredBatch s compactionId now) }
    | none => none

/-! ## What is asked of the history -/

/-- The fold over the whole log passes `e` by: a later checkpoint replaces it. -/
def Superseded (log : List AgentRunEventRow) (e : AgentRunEventRow) : Prop :=
  ∃ k ∈ log, k.isCompaction = true ∧ before e k ∧ e ≠ k

/-- The next wake reads a history that it accepts. -/
def Sys.Resumable (s : Sys) : Prop :=
  (s.phase = .idle ∨ ∃ w, s.phase = .entry w) →
    validateProtocolInvariants
      (walkStoredEntries (listSessionAgentRunEventsFromLastCompaction s.events)) = .ok ()

/-- The last event of the run is this `tool_use`. -/
def Sys.ToolUseLast (s : Sys) (wakeSeq : ℕ) (m : AgentMessage) : Prop :=
  ∃ e, s.lastEvent wakeSeq = some e ∧ e.payload = .message m ∧ m.kind = .tool_use

def AnswersInOrder (s : Sys) : Act → Prop
  | .emit m _ => ∀ w openCalls, s.phase = .turn w openCalls →
    checkMessage openCalls m = .ok (callsAfter openCalls m)
  | .endTurn => ∀ w openCalls, s.phase = .turn w openCalls → openCalls = []
  | _ => True

/-- A turn throws with no call open only, a crash cuts it with no call open or with one, whose
`tool_use` is the last event of the run, and no restart passes by a run that ends in one. -/
def CutBetweenCalls (s : Sys) : Act → Prop
  | .repairInterruptedRuns active _ => active = false →
    ∀ w m, s.runs[w]? = some .running → ¬s.ToolUseLast w m
  | .failTurn => ∀ w openCalls, s.phase = .turn w openCalls → openCalls = []
  | .crash => ∀ w openCalls, s.phase = .turn w openCalls → openCalls = [] ∨
    openCalls.length = 1 ∧ ∃ m, s.ToolUseLast w m
  | _ => True

end Conversation

end Semprec
