import Semprec.Approvals
import Semprec.Lib.Runs

/-!
# Executing approved MCP calls

The `approvalExecute` job: any number of deliveries of a request's job run at once, each a
sequence of transactions with the tool call between two of them, and each can stop for good
between any two of its steps.
-/

namespace Semprec

namespace McpExecution

open Approvals

def MCP_APPROVAL_CLAIM_STALE_AFTER_MS : ℕ := 10 * 60 * 1000

/-- A row of `mcp_tool_registrations`. -/
structure McpToolRegistration where
  id : ℕ
  mcpServerItemId : ℕ
  toolName : String
  active : Bool

structure McpServerItem where
  id : ℕ
  databaseId : ℕ
  deleted : Bool
  active : Bool

/-- A row of `project_mcp_grants`. -/
structure ProjectMcpGrant where
  projectItemId : ℕ
  mcpToolRegistrationId : ℕ
  granted : Bool

structure McpGrants where
  mcpServersDatabaseId : Option ℕ
  grants : List ProjectMcpGrant
  registrations : List McpToolRegistration
  serverItems : List McpServerItem

structure McpToolInvocationTarget where
  mcpToolRegistrationId : ℕ
  mcpServerItemId : ℕ
  toolName : String
deriving DecidableEq

def resolveGrantedMcpTool (m : McpGrants) (projectItemId mcpToolRegistrationId : ℕ) :
    Option McpToolInvocationTarget := do
  let databaseId ← m.mcpServersDatabaseId
  let _ ← m.grants.find? fun g =>
    g.projectItemId = projectItemId ∧ g.mcpToolRegistrationId = mcpToolRegistrationId ∧ g.granted
  let r ← m.registrations.find? fun r => r.id = mcpToolRegistrationId ∧ r.active
  let s ← m.serverItems.find? fun s =>
    s.databaseId = databaseId ∧ s.id = r.mcpServerItemId ∧ s.deleted = false ∧ s.active
  return ⟨r.id, s.id, r.toolName⟩

/-- A block of a tool's result; `none` for a field that is not a string. -/
inductive ContentBlock where
  | text (text : Option String)
  | media (type : String) (mimeType : Option String)
  | resource (uri : Option String)
  | other

def formatContentBlock : ContentBlock → String
  | .text (some text) => text
  | .text none | .other => "[content omitted]"
  | .media type mimeType =>
    "[" ++ type ++ " content" ++ (mimeType.map (", " ++ ·)).getD "" ++ " omitted]"
  | .resource uri => "[resource" ++ (uri.map (" " ++ ·)).getD "" ++ " omitted]"

/-- The result of `callTool`, its structured content as JSON text. -/
structure CallToolResult where
  content : List ContentBlock
  structuredContent : Option String
  isError : Bool

def formatCallToolResult (result : CallToolResult) : ApprovalRequestOutcome :=
  let text := "\n".intercalate ((result.content.map formatContentBlock).filter (· ≠ ""))
  if text ≠ "" then ⟨result.isError, text⟩
  else ⟨result.isError, result.structuredContent.getD ""⟩

inductive InvokeError where
  | mcpConnection (message : String)
  | other

def safeInvokeErrorMessage : InvokeError → String
  | .mcpConnection message => message
  | .other => "MCP tool call failed for an unexpected reason"

def noLongerAvailableOutcome : ApprovalRequestOutcome where
  error := true
  result := "This MCP tool is no longer available to the requesting project: its grant was " ++
    "revoked, or its registration or server is inactive."

def noReplayHandlerOutcome : ApprovalRequestOutcome where
  error := true
  result := "No generic-operation approval replay handler is configured for this worker."

/-- Where a delivery of the job stands: what its next step is about to do. -/
inductive Delivery where
  | started (id : ℕ)
  /-- Replays a generic operation. -/
  | replaying (request : ApprovalRequest)
  | claiming (request : ApprovalRequest)
  | settling (id : ℕ)
  | readingClaim (id : ℕ)
  /-- Resolves the tool again. -/
  | claimed (request : ApprovalRequest) (payload : McpInvokeApprovalRequestPayload)
  | resolved (request : ApprovalRequest) (payload : McpInvokeApprovalRequestPayload)
      (target : Option McpToolInvocationTarget)
  | connecting (request : ApprovalRequest) (payload : McpInvokeApprovalRequestPayload)
  | connected (request : ApprovalRequest) (payload : McpInvokeApprovalRequestPayload)
  /-- The tool has been called. -/
  | calling (request : ApprovalRequest)
  | recording (request : ApprovalRequest) (outcome : ApprovalRequestOutcome)
  | done
  /-- The job has thrown, so the queue will deliver it again. -/
  | failed

/-- A `tools/call` sent to a server, for a claimed request. -/
structure ToolCall where
  requestId : ℕ
  toolName : String
  args : List (String × Json)

structure Sys where
  tables : Tables
  grants : McpGrants
  jobs : List ℕ
  deliveries : ℕ → Option Delivery
  calls : List ToolCall

/-- How replaying a generic operation ends. -/
inductive ReplayResult where
  | thrown
  | conflict (details : Json)
  | succeeded (result : Json)

/-- What the server's side sends back. -/
inductive Reply where
  | connected
  | failed (error : InvokeError)
  | returned (result : CallToolResult)

inductive Act where
  | createAgentRun (id : ℕ) (run : AgentRun)
  | createRequest (id : ℕ) (input : CreatePendingApprovalRequestInput) (now : ℤ)
  | decide (id : ℕ) (decision : ApprovalRequestDecision) (decidedByUserId : ℕ) (now : ℤ)
  /-- Grants, registrations and servers change. -/
  | setGrants (grants : McpGrants)
  /-- The queue delivers a job, not necessarily for the first time. -/
  | deliver (d id : ℕ)
  /-- A delivery's next transaction or call. -/
  | exec (d : ℕ) (now : ℤ)
  | reply (d : ℕ) (reply : Reply)
  /-- The worker process dies. -/
  | crash (d : ℕ)

namespace Sys

def set (s : Sys) (d : ℕ) (delivery : Delivery) : Sys :=
  { s with deliveries := Function.update s.deliveries d (some delivery) }

/-- `replayApprovedGenericOperation` on the locked row, as far as the request goes. -/
def replayGeneric (replay : Sys → ApprovalRequest → ReplayResult) (s : Sys) (d id : ℕ) (now : ℤ) :
    Sys :=
  match s.tables.requests id with
  | none => s.set d .failed
  | some r =>
    match r.payload, r.executionStatus, r.status with
    | .mcpInvoke _, _, _ => s.set d .failed
    | _, .succeeded, _ | _, .conflict, _ | _, .legacyTerminal, _ => s.set d .done
    | _, .queued, .approved =>
      match replay s r with
      | .thrown => s.set d .failed
      | .conflict details =>
        { s with tables := (terminalizeApprovalRequestAsConflict s.tables id details now).1 }.set
          d .done
      | .succeeded result =>
        { s with tables := (markApprovalRequestExecutionSucceeded s.tables id result now).1 }.set
          d .done
    | _, _, _ => s.set d .failed

/-- The next step of `handleApprovalRequestExecuteTask`; `replay` is its
`genericOperationApprovalReplay`. -/
def exec (replay : Option (Sys → ApprovalRequest → ReplayResult)) (s : Sys) (d : ℕ) (now : ℤ) :
    Delivery → Option Sys
  | .started id =>
    match s.tables.requests id with
    | none => some (s.set d .done)
    | some r => some (s.set d (match r.payload with
      | .genericOperation _ => .replaying r
      | .mcpInvoke _ => .claiming r))
  | .replaying r =>
    match replay with
    | some replay => some (s.replayGeneric replay d r.id now)
    | none =>
      some ({ s with
        tables := (recordApprovalRequestOutcome s.tables r.id noReplayHandlerOutcome now).1 }.set
        d .done)
  | .claiming r =>
    match claimApprovalRequestExecution s.tables r.id now with
    | (_, none) => some (s.set d (.settling r.id))
    | (t, some claimed) =>
      some ({ s with tables := t }.set d (match claimed.payload with
        | .genericOperation _ => .done
        | .mcpInvoke payload => .claimed claimed payload))
  | .settling id =>
    match settleStaleApprovalRequestClaim s.tables id MCP_APPROVAL_CLAIM_STALE_AFTER_MS now with
    | (_, none) => some (s.set d (.readingClaim id))
    | (t, some _) => some ({ s with tables := t }.set d .done)
  | .readingClaim id =>
    match staleClaimVerdict s.tables id with
    | .inFlight => some (s.set d .failed)
    | .settled | .notClaimed => some (s.set d .done)
  | .claimed r payload =>
    let target := do
      let run ← s.tables.agentRuns r.agentRunId
      let projectItemId ← run.projectItemId
      resolveGrantedMcpTool s.grants projectItemId payload.mcpToolRegistrationId
    some (s.set d (.resolved r payload target))
  | .resolved r payload target =>
    if target.any fun t => t.mcpServerItemId = payload.mcpServerItemId ∧ t.toolName = r.toolName
    then some (s.set d (.connecting r payload))
    else some (s.set d (.recording r noLongerAvailableOutcome))
  | .connected r payload =>
    let call : ToolCall := ⟨r.id, r.toolName, payload.args⟩
    some ({ s with calls := s.calls ++ [call] }.set d (.calling r))
  | .recording r outcome =>
    some ({ s with tables := (recordApprovalRequestOutcome s.tables r.id outcome now).1 }.set
      d .done)
  | .connecting _ _ | .calling _ | .done | .failed => none

/-- What `executeMcpInvocation` does with a reply. -/
def receive (s : Sys) (d : ℕ) : Delivery → Reply → Option Sys
  | .connecting r payload, .connected => some (s.set d (.connected r payload))
  | .connecting r _, .failed error | .calling r, .failed error =>
    some (s.set d (.recording r ⟨true, safeInvokeErrorMessage error⟩))
  | .calling r, .returned result => some (s.set d (.recording r (formatCallToolResult result)))
  | _, _ => none

end Sys

variable (replay : Option (Sys → ApprovalRequest → ReplayResult))

def step (s : Sys) : Act → Option Sys
  | .createAgentRun id run =>
    match s.tables.agentRuns id with
    | none => some { s with
        tables := { s.tables with agentRuns := Function.update s.tables.agentRuns id (some run) } }
    | some _ => none
  | .createRequest id input now =>
    (createPendingApprovalRequest s.tables input id now).map fun t => { s with tables := t }
  | .decide id decision decidedByUserId now =>
    let (t, jobs, _) :=
      decideAndEnqueueApprovalRequest s.tables s.jobs id decision decidedByUserId now
    some { s with tables := t, jobs := jobs }
  | .setGrants grants => some { s with grants := grants }
  | .deliver d id =>
    if id ∈ s.jobs then
      match s.deliveries d with
      | none => some (s.set d (.started id))
      | some _ => none
    else none
  | .exec d now => (s.deliveries d).bind fun delivery => s.exec replay d now delivery
  | .reply d reply => (s.deliveries d).bind fun delivery => s.receive d delivery reply
  | .crash d => (s.deliveries d).map fun _ => s.set d .done

/-- The rows as the cutover migration leaves them: every request is settled, none is pending. -/
structure Migrated (s : Sys) : Prop where
  requests : ∀ id r, s.tables.requests id = some r →
    r.id = id ∧ r.executionStatus = .legacyTerminal ∧ r.status ≠ .pending
  deliveries : s.deliveries = fun _ => none
  calls : s.calls = []

end McpExecution

end Semprec
