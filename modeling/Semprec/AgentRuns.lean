import Semprec.Lib.Runs
import Semprec.Lib.ReadCommitted

/-!
# Agent runs and their events

The `agent_runs` and `agent_run_events` tables and the transactions that append an event or close
a run, any number of them open at once under READ COMMITTED.  The foreign key of an event takes a
lock on its run that an update of the run's status does not conflict with, so an append waits for
nobody.  Event ids come from a sequence, which no rollback turns back.
-/

namespace Semprec

namespace AgentRuns

inductive AgentRunStatus where
  | running
  | done
  | error
deriving DecidableEq

inductive AgentRunEventKind where
  | turn_start
  | message
  | tool_use
  | tool_result
  | turn_end
  | run_status
  | compaction
deriving DecidableEq

structure AgentRunRow where
  id : ℕ
  tenantId : ℕ
  actorUserId : ℕ
  status : AgentRunStatus
  result : Option String
  finishedAt : Option ℤ
deriving DecidableEq

structure AgentRunEventRow where
  id : ℕ
  agentRunId : ℕ
  kind : AgentRunEventKind
  payload : String
  at' : ℤ
deriving DecidableEq

structure Tables where
  runs : List AgentRunRow
  events : List AgentRunEventRow
deriving DecidableEq

inductive Write where
  | insertRun (row : AgentRunRow)
  | closeRun (agentRunId : ℕ) (status : AgentRunStatus) (result : Option String) (finishedAt : ℤ)
  | insertEvent (row : AgentRunEventRow)
deriving DecidableEq

/-- The row an `UPDATE` of run `agentRunId` to this status leaves. -/
def AgentRunRow.closed (agentRunId : ℕ) (status : AgentRunStatus) (result : Option String)
    (finishedAt : ℤ) (row : AgentRunRow) : AgentRunRow :=
  if row.id = agentRunId then
    { row with status := status, result := result, finishedAt := some finishedAt }
  else row

def Tables.apply (tables : Tables) : Write → Tables
  | .insertRun row => { tables with runs := tables.runs ++ [row] }
  | .closeRun agentRunId status result finishedAt =>
    { tables with runs := tables.runs.map (.closed agentRunId status result finishedAt) }
  | .insertEvent row => { tables with events := tables.events ++ [row] }

def getAgentRun (tables : Tables) (agentRunId : ℕ) : Option AgentRunRow :=
  tables.runs.find? fun r => r.id = agentRunId

def MAX_AGENT_RUN_EVENT_PAYLOAD_BYTES : ℕ := 1024 * 1024

inductive AgentRunEventError where
  | validation (payloadBytes : ℕ)
  | notFound (agentRunId : ℕ)
  | conflict (agentRunId : ℕ) (status : AgentRunStatus)
deriving DecidableEq

/-- What an `INSERT ... SELECT` of an event does on the tables its statement reads: the row, or
the error the caller gets.  `serialized` is the payload as JSON text. -/
def insertAgentRunEvent (tables : Tables) (nextId agentRunId : ℕ) (kind : AgentRunEventKind)
    (serialized : String) (at' : ℤ) : Except AgentRunEventError AgentRunEventRow :=
  if MAX_AGENT_RUN_EVENT_PAYLOAD_BYTES < serialized.utf8ByteSize then
    .error (.validation serialized.utf8ByteSize)
  else match getAgentRun tables agentRunId with
    | none => .error (.notFound agentRunId)
    | some run =>
      if run.status = .running ∨ kind = .run_status then
        .ok ⟨nextId, agentRunId, kind, serialized, at'⟩
      else .error (.conflict agentRunId run.status)

/-- The terminal statuses `finishAgentRun` takes. -/
inductive FinishStatus where
  | done
  | error
deriving DecidableEq

def FinishStatus.toStatus : FinishStatus → AgentRunStatus
  | .done => .done
  | .error => .error

/-- Whether the close is this call's; `none` when there is no such run. -/
def finishAgentRun (tables : Tables) (agentRunId : ℕ) : Option Bool :=
  (getAgentRun tables agentRunId).map fun run => decide (run.status = .running)

def Write.closedRun : Write → Option ℕ
  | .closeRun agentRunId _ _ _ => some agentRunId
  | _ => none

def Write.locksRun (agentRunId : ℕ) (w : Write) : Bool := w.closedRun = some agentRunId

structure Db where
  db : ReadCommitted Tables Write
  runIdSeq : ℕ
  eventIdSeq : ℕ

def Db.init : Db := ⟨.init ⟨[], []⟩, 0, 0⟩

inductive Act where
  | begin (t : ℕ)
  | createAgentRun (t tenantId actorUserId : ℕ)
  | insertAgentRunEvent (t agentRunId : ℕ) (kind : AgentRunEventKind) (serialized : String)
      (at' : ℤ)
  | finishAgentRun (t agentRunId : ℕ) (status : FinishStatus) (result : Option String) (now : ℤ)
  | commit (t : ℕ)
  | rollback (t : ℕ)
deriving DecidableEq

/-- A statement that writes nothing leaves its transaction open: its caller decides whether the
error ends it.  A close waits for the row lock and then tests the row as it is committed. -/
def step (s : Db) : Act → Option Db
  | .begin t => (s.db.begin t).map fun db => { s with db := db }
  | .createAgentRun t tenantId actorUserId =>
    (s.db.write t [.insertRun ⟨s.runIdSeq, tenantId, actorUserId, .running, none, none⟩]).map
      fun db => { s with db := db, runIdSeq := s.runIdSeq + 1 }
  | .insertAgentRunEvent t agentRunId kind serialized at' =>
    match AgentRuns.insertAgentRunEvent (s.db.view Tables.apply t) s.eventIdSeq agentRunId kind
        serialized at' with
    | .ok row =>
      (s.db.write t [.insertEvent row]).map fun db =>
        { s with db := db, eventIdSeq := s.eventIdSeq + 1 }
    | .error _ => some s
  | .finishAgentRun t agentRunId status result now =>
    if s.db.Locked t (Write.locksRun agentRunId) then none
    else match AgentRuns.finishAgentRun (s.db.view Tables.apply t) agentRunId with
      | some true =>
        (s.db.write t [.closeRun agentRunId status.toStatus result now]).map fun db =>
          { s with db := db }
      | _ => some s
  | .commit t => (s.db.commit Tables.apply t).map fun db => { s with db := db }
  | .rollback t => (s.db.rollback t).map fun db => { s with db := db }

def Tables.Finished (tables : Tables) (agentRunId : ℕ) : Prop :=
  ∃ run, getAgentRun tables agentRunId = some run ∧ run.status ≠ .running

def Db.transcript (s : Db) (agentRunId : ℕ) : List AgentRunEventRow :=
  s.db.committed.events.filter fun e => e.agentRunId = agentRunId

def Write.appendsTo (agentRunId : ℕ) : Write → Bool
  | .insertEvent row => row.agentRunId = agentRunId ∧ row.kind ≠ .run_status
  | _ => false

/-- A transaction that closes a run commits while no other open transaction has appended to the
run. -/
def ClosesAlone (s : Db) : Act → Prop
  | .commit t =>
    ∀ w ∈ s.db.pending t, ∀ agentRunId ∈ w.closedRun,
      ¬ s.db.Locked t (Write.appendsTo agentRunId)
  | _ => True

instance (s : Db) : ∀ a, Decidable (ClosesAlone s a)
  | .commit t => inferInstanceAs (Decidable (∀ w ∈ s.db.pending t, ∀ agentRunId ∈ w.closedRun,
      ¬ s.db.Locked t (Write.appendsTo agentRunId)))
  | .begin _ | .createAgentRun _ _ _ | .insertAgentRunEvent _ _ _ _ _ | .finishAgentRun _ _ _ _ _
  | .rollback _ => isTrue trivial

end AgentRuns

end Semprec
