import Mathlib.Logic.Function.Basic
import Semprec.Json

/-!
# Approval requests

The `approval_requests` rows and every statement that writes one.  Each transition is a single
conditional `UPDATE`: Postgres evaluates its `WHERE` on the row as it is when the row is locked,
so the test and the write are one step.  Times are in microseconds.
-/

namespace Semprec

namespace Approvals

inductive ApprovalRequestStatus where
  | pending
  | approved
  | rejected
deriving DecidableEq

inductive ApprovalRequestDecision where
  | approved
  | rejected
deriving DecidableEq

inductive ApprovalRequestExecutionStatus where
  | notApproved
  | queued
  | succeeded
  | conflict
  | legacyTerminal
deriving DecidableEq

structure ApprovalResourceSnapshot where
  kind : String
  resourceId : ℕ
  sha256 : Option String
deriving DecidableEq

structure McpInvokeApprovalRequestPayload where
  mcpToolRegistrationId : ℕ
  mcpServerItemId : ℕ
  args : List (String × Json)

structure PayloadActor where
  runId : ℕ
  agentProjectItemId : ℕ
  userId : ℕ
deriving DecidableEq

structure GenericOperationApprovalRequestPayload where
  operationName : String
  canonicalInput : Json
  actor : PayloadActor
  resourceSnapshot : ApprovalResourceSnapshot

inductive ApprovalRequestPayload where
  | mcpInvoke (payload : McpInvokeApprovalRequestPayload)
  | genericOperation (payload : GenericOperationApprovalRequestPayload)

structure ApprovalRequest where
  id : ℕ
  agentRunId : ℕ
  toolName : String
  riskClass : String
  payload : ApprovalRequestPayload
  status : ApprovalRequestStatus
  requestedAt : ℤ
  decidedAt : Option ℤ
  decidedBy : Option ℕ
  resourceSnapshot : ApprovalResourceSnapshot
  executionStatus : ApprovalRequestExecutionStatus
  executedAt : Option ℤ
  executionError : Option Bool
  executionResult : Option Json

/-- The columns of an `agent_runs` row that approvals read. -/
structure AgentRun where
  projectItemId : Option ℕ
  actorUserId : ℕ

structure Tables where
  requests : ℕ → Option ApprovalRequest
  agentRuns : ℕ → Option AgentRun

/-- `UPDATE approval_requests SET … WHERE id = … AND … RETURNING *`. -/
def Tables.updateWhere (t : Tables) (id : ℕ) (guard : ApprovalRequest → Bool)
    (set : ApprovalRequest → ApprovalRequest) : Tables × Option ApprovalRequest :=
  match t.requests id with
  | none => (t, none)
  | some r =>
    if guard r then
      ({ t with requests := Function.update t.requests id (some (set r)) }, some (set r))
    else (t, none)

structure CreatePendingApprovalRequestInput where
  agentRunId : ℕ
  toolName : String
  riskClass : String
  payload : ApprovalRequestPayload
  resourceSnapshot : ApprovalResourceSnapshot

/-- The row inserted, with the columns' defaults. -/
def pendingRequest (input : CreatePendingApprovalRequestInput) (id : ℕ) (now : ℤ) :
    ApprovalRequest where
  id := id
  agentRunId := input.agentRunId
  toolName := input.toolName
  riskClass := input.riskClass
  payload := input.payload
  status := .pending
  requestedAt := now
  decidedAt := none
  decidedBy := none
  resourceSnapshot := input.resourceSnapshot
  executionStatus := .notApproved
  executedAt := none
  executionError := none
  executionResult := none

def createPendingApprovalRequest (t : Tables) (input : CreatePendingApprovalRequestInput)
    (id : ℕ) (now : ℤ) : Option Tables :=
  if (t.agentRuns input.agentRunId).isSome ∧ t.requests id = none then
    some { t with requests := Function.update t.requests id (some (pendingRequest input id now)) }
  else none

def Tables.actsFor (t : Tables) (r : ApprovalRequest) (user : ℕ) : Bool :=
  (t.agentRuns r.agentRunId).any fun run => run.actorUserId = user

def ApprovalRequestDecision.toStatus : ApprovalRequestDecision → ApprovalRequestStatus
  | .approved => .approved
  | .rejected => .rejected

def decideApprovalRequest (t : Tables) (id : ℕ) (decision : ApprovalRequestDecision)
    (decidedBy : ℕ) (now : ℤ) : Tables × Option ApprovalRequest :=
  t.updateWhere id (fun r => r.status = .pending ∧ t.actsFor r decidedBy) fun r =>
    { r with
      status := decision.toStatus
      decidedAt := some now
      decidedBy := some decidedBy
      executionStatus := if decision = .approved then .queued else r.executionStatus }

def getApprovalRequestForOwner (t : Tables) (id ownerUserId : ℕ) : Option ApprovalRequest :=
  (t.requests id).filter fun r => t.actsFor r ownerUserId

def claimApprovalRequestExecution (t : Tables) (id : ℕ) (now : ℤ) :
    Tables × Option ApprovalRequest :=
  t.updateWhere id
    (fun r => r.status = .approved ∧ r.executedAt = none ∧ r.executionStatus = .queued) fun r =>
    { r with executedAt := some now }

structure ApprovalRequestOutcome where
  error : Bool
  result : String

def recordApprovalRequestOutcome (t : Tables) (id : ℕ) (outcome : ApprovalRequestOutcome)
    (now : ℤ) : Tables × Option ApprovalRequest :=
  t.updateWhere id (fun r => r.executionStatus = .queued) fun r =>
    { r with
      executionError := some outcome.error
      executionResult := some (.str outcome.result)
      executionStatus := if outcome.error then .conflict else .succeeded
      executedAt := some (r.executedAt.getD now) }

inductive StaleApprovalClaimSettlement where
  | settled
  | inFlight
  | notClaimed

def unknownOutcomeText : String :=
  "The deferred MCP tool call was claimed by an earlier delivery that never recorded its " ++
    "outcome; the tool may or may not have run."

/-- The `UPDATE` of `settleStaleApprovalRequestClaim`. -/
def settleStaleApprovalRequestClaim (t : Tables) (id : ℕ) (staleAfterMs : ℕ) (now : ℤ) :
    Tables × Option ApprovalRequest :=
  t.updateWhere id
    (fun r => r.status = .approved ∧ r.executionStatus = .queued ∧
      r.executedAt.any fun at_ => at_ < now - staleAfterMs * 1000) fun r =>
    { r with
      executionStatus := .conflict
      executionError := some true
      executionResult := some (.str unknownOutcomeText) }

/-- What `settleStaleApprovalRequestClaim` reads when its `UPDATE` matched no row. -/
def staleClaimVerdict (t : Tables) (id : ℕ) : StaleApprovalClaimSettlement :=
  match t.requests id with
  | some r =>
    if r.executionStatus = .queued ∧ r.executedAt ≠ none then .inFlight else .notClaimed
  | none => .notClaimed

def terminalizeApprovalRequestAsConflict (t : Tables) (id : ℕ) (details : Json) (now : ℤ) :
    Tables × Option ApprovalRequest :=
  t.updateWhere id (fun r => r.executionStatus = .queued) fun r =>
    { r with
      executionStatus := .conflict
      executionError := some true
      executionResult := some
        (.obj [("error", .obj [("code", .str "version_conflict"), ("details", details)])])
      executedAt := some now }

def markApprovalRequestExecutionSucceeded (t : Tables) (id : ℕ) (result : Json) (now : ℤ) :
    Tables × Option ApprovalRequest :=
  t.updateWhere id (fun r => r.executionStatus = .queued) fun r =>
    { r with
      executionStatus := .succeeded
      executionError := some false
      executionResult := some (.obj [("result", result)])
      executedAt := some now }

inductive DecideAndEnqueueResult where
  | decided (request : ApprovalRequest)
  | unchanged (request : ApprovalRequest)

def decideAndEnqueueApprovalRequest (t : Tables) (jobs : List ℕ) (id : ℕ)
    (decision : ApprovalRequestDecision) (decidedByUserId : ℕ) (now : ℤ) :
    Tables × List ℕ × Option DecideAndEnqueueResult :=
  match decideApprovalRequest t id decision decidedByUserId now with
  | (t', none) =>
    (t', jobs, (getApprovalRequestForOwner t' id decidedByUserId).map .unchanged)
  | (t', some r) =>
    -- the job's key is derived from the request's id: a second enqueue keeps the one job
    (t', if r.status = .approved then jobs.insert id else jobs, some (.decided r))

end Approvals

end Semprec
