import Semprec.Approvals
import Semprec.ChokePoint

/-!
# Replaying approved operations

An approved destructive operation runs when its job is delivered: one transaction locks the request,
projects the resource again, compares it with the snapshot of the request, runs the mutation and
settles the request.  A domain error is caught inside the transaction, which then commits the
conflict together with whatever the mutation had written.
-/

namespace Semprec

namespace OperationReplay

open Approvals

/-! ## Destructive operations -/

def GENERIC_OPERATION_NAMES : List String :=
  ["database.list", "database.get", "database.create", "database.patch", "database.archive",
    "database.restore", "property.list", "property.get", "property.getByKey", "property.create",
    "property.patch", "property.delete", "view.list", "view.get", "view.create", "view.patch",
    "view.delete", "view.query", "viewItem.add", "viewItem.remove", "viewItem.reorder", "item.get",
    "item.create", "item.patch", "item.delete", "item.restore", "database.query", "relation.put",
    "relation.delete"]

inductive DestructiveOperationName where
  | databaseArchive
  | propertyDelete
  | viewDelete
  | itemDelete
  | relationDelete
deriving DecidableEq

def destructiveOperationName : String → Option DestructiveOperationName
  | "database.archive" => some .databaseArchive
  | "property.delete" => some .propertyDelete
  | "view.delete" => some .viewDelete
  | "item.delete" => some .itemDelete
  | "relation.delete" => some .relationDelete
  | _ => none

inductive DestructiveInput where
  | databaseArchive (databaseId : ℕ)
  | propertyDelete (propertyId : ℕ)
  | viewDelete (viewId : ℕ)
  | itemDelete (itemId : ℕ)
  | relationDelete (input : DeleteRelationInput)

/-- The projection of the resource that an operation targets. -/
inductive Resource where
  | database (row : DatabaseRow)
  | property (row : PropertyRow) (databaseSchemaLocked : Bool) (databaseArchivedAt : Option ℤ)
  | view (row : ViewRow)
  | item (id databaseId : ℕ) (updatedAt : ℤ) (deletedAt databaseArchivedAt : Option ℤ)
  | edge (row : ItemRelationRow) (propertyId : ℕ) (owner : PropertyOwner)
      (ownerProcess : Option String) (locked : Bool)

inductive MutationResult where
  | database (row : DatabaseRow)
  | property (row : PropertyRow)
  | view (row : ViewRow)
  | item (row : Option ItemRow)
  | edge (row : Option ItemRelationRow)

structure Host where
  parseInput : DestructiveOperationName → Json → Except Failure DestructiveInput
  json : Resource → Json
  sha256 : Json → String
  resultJson : MutationResult → Json

variable (host : Host)

def Resource.snapshot (resource : Resource) : ApprovalResourceSnapshot :=
  let sha256 := some (host.sha256 (host.json resource))
  match resource with
  | .database row => ⟨"database_archive", row.id, sha256⟩
  | .property row _ _ => ⟨"property_delete", row.id, sha256⟩
  | .view row => ⟨"view_delete", row.id, sha256⟩
  | .item id _ _ _ _ => ⟨"item_delete", id, sha256⟩
  | .edge row _ _ _ _ => ⟨"relation_delete", row.id, sha256⟩

/-- `{ ...details, currentResource }`. -/
def withCurrentResource (resource : Resource) (details : Option Json) : Option Json :=
  match details with
  | some (.obj fields) =>
    some (.obj (JsonObject.merge fields [("currentResource", host.json resource)]))
  | _ => some (.obj [("currentResource", host.json resource)])

def rethrow {α : Type} (resource : Resource) : Except Failure α → Except Failure α
  | .error (.chokePoint e) =>
    .error (.chokePoint { e with details := withCurrentResource host resource e.details })
  | result => result

def projectPairedProperty (s : Store) (property : PropertyRow) (projected : Resource) :
    Except Failure Unit :=
  match s.getRelationDefinitionByPropertyId property.id with
  | none => .ok ()
  | some reldef => do
    rethrow host projected (Rollup.assertRelationDeletable s reldef.id)
    match Schema.otherPropertyId reldef property.id with
    | none => return
    | some otherPropertyId => rethrow host projected (Schema.assertPairedUnlocked s otherPropertyId)

def projectItem (s : Store) (item : ItemRow) : Except Failure Resource := do
  let database ← s.requireDatabase item.databaseId
  let projected : Resource :=
    .item item.id item.databaseId item.updatedAt item.deletedAt database.archivedAt
  rethrow host projected (s.assertDatabaseNotArchived item.databaseId)
  if Trash.isSystemActive item then
    .error (.forbiddenError
      (let id := item.id
      s!"Item {id} is a system-active project and cannot be deleted, only deactivated")
      (withCurrentResource host projected (fieldDetails "systemActive")) "forbidden")
  else return projected

def computeDestructiveResourceProjection (s : Store) (actor : Actor) :
    DestructiveInput → Except Failure Resource
  | .databaseArchive databaseId => do
    let database ← s.requireDatabase databaseId
    if database.system then
      .error (.forbiddenError "A system database cannot be archived"
        (withCurrentResource host (.database database) none) "forbidden")
    else return .database database
  | .propertyDelete propertyId => do
    let property ← s.requireProperty propertyId
    let database ← s.requireDatabase property.databaseId
    let projected : Resource := .property property database.schemaLocked database.archivedAt
    if property.type = .relation then projectPairedProperty host s property projected
    return projected
  | .viewDelete viewId => do
    let view ← Schema.requireView s viewId
    rethrow host (.view view) (Schema.assertViewWritable view actor)
    return .view view
  | .itemDelete itemId =>
    -- the row may be in the trash
    match (s.getItemsByIdsIncludingDeleted [itemId]).head? with
    | none => .error (.notFoundError s!"Item {itemId} not found" none)
    | some item =>
      if item.deletedAt.isSome then .error (.notFoundError s!"Item {itemId} not found" none)
      else projectItem host s item
  | .relationDelete input => do
    let edgeContext ←
      Relations.loadDeletableRelationEdgeContext s input.relationPropertyId none
    let sides := Relations.normalizeRelationSides edgeContext.reldef input.relationPropertyId
      input.callerItemId input.targetItemId
    let property := edgeContext.property
    match s.getItemRelationByTuple edgeContext.reldef.id sides.1 sides.2 with
    | some edge =>
      return .edge edge property.id property.owner property.ownerProcess property.locked
    | none => .error (Relations.edgeNotFound input.relationPropertyId input.callerItemId
        input.targetItemId)

def executeDestructiveWithClient (env : Env) (actor : Actor) (resource : Resource) :
    DestructiveInput → Tx TxState Failure MutationResult
  | .databaseArchive databaseId => do
    let row ← Schema.databaseArchiveWithClient env databaseId
    return .database row
  | .propertyDelete propertyId => do
    let row ← Schema.propertyDeleteWithClient propertyId
    return .property row
  | .viewDelete viewId => do
    let row ← Schema.viewDeleteWithClient viewId actor
    return .view row
  | .itemDelete itemId =>
    match resource with
    | .item _ databaseId _ _ _ => do
      let row ← Trash.itemDeleteWithClient env databaseId itemId
      return .item row
    | _ => .throw (.internal "currentResource.databaseId")
  | .relationDelete input => do
    let row ← Relations.deleteRelationWithClient input none
    return .edge row

/-! ## The replay -/

/-- What the transaction of a replay sees: the choke point's tables, and the requests. -/
structure ReplayState where
  tx : TxState
  tables : Tables

def onStore {α : Type} (x : Tx TxState Failure α) : Tx ReplayState Failure α := fun r =>
  ((x.run r.tx).1, { r with tx := (x.run r.tx).2 })

structure ReplayResult where
  error : Bool
  result : Json

/-- A statement that settles the request; `requireAffectedRows`. -/
def settle (error : Bool) (update : Tables → Tables × Option ApprovalRequest) :
    Tx ReplayState Failure ReplayResult := fun r =>
  match update r.tables with
  | (tables, some row) => (.ok ⟨error, row.executionResult.getD .null⟩, { r with tables })
  | (_, none) => (.error (.internal "approval_requests row"), r)

def dataActor (actor : PayloadActor) : Actor := ⟨.ai_agent, some actor.agentProjectItemId⟩

def parseOperation (payload : GenericOperationApprovalRequestPayload) :
    Except Failure DestructiveInput :=
  let operation := payload.operationName
  if operation ∉ GENERIC_OPERATION_NAMES then
    .error (.validationError s!"Unknown operation '{operation}' in approval request payload" none)
  else match destructiveOperationName operation with
    | none => .error (.validationError
        s!"Operation '{operation}' in approval request payload is not a destructive operation" none)
    | some name => host.parseInput name payload.canonicalInput

def assertProvenance (t : Tables) (request : ApprovalRequest) (actor : PayloadActor) :
    Except Failure Unit :=
  if (t.agentRuns request.agentRunId).any fun run => request.agentRunId = actor.runId ∧
      run.projectItemId = some actor.agentProjectItemId ∧ run.actorUserId = actor.userId then .ok ()
  else
    let id := request.id
    .error (.forbiddenError
      s!"Approval request '{id}' no longer matches its run's persisted provenance" none
      "owner_violation")

def revalidate (request : ApprovalRequest) (payload : GenericOperationApprovalRequestPayload)
    (r : ReplayState) : Except Failure (DestructiveInput × Resource) := do
  let input ← parseOperation host payload
  assertProvenance r.tables request payload.actor
  let resource ← computeDestructiveResourceProjection host r.tx.store (dataActor payload.actor) input
  return (input, resource)

def conflictDetails (e : ChokePointError) : Json :=
  let currentResource := match e.details with
    | some (.obj fields) => (JsonObject.get? fields "currentResource").getD .null
    | _ => .null
  .obj [("reason", .str e.code), ("currentResource", currentResource)]

variable (env : Env) (now : ℤ)

def replayMutation (request : ApprovalRequest) (payload : GenericOperationApprovalRequestPayload) :
    Tx ReplayState Failure ReplayResult := do
  let (input, resource) ← .query (revalidate host request payload)
  if resource.snapshot host ≠ request.resourceSnapshot then
    settle true fun t => terminalizeApprovalRequestAsConflict t request.id
      (.obj [("currentResource", host.json resource)]) now
  else do
    let result ← onStore (executeDestructiveWithClient env (dataActor payload.actor) resource input)
    settle false fun t =>
      markApprovalRequestExecutionSucceeded t request.id (host.resultJson result) now

def onFailure (request : ApprovalRequest) : Failure → Tx ReplayState Failure ReplayResult
  | .chokePoint e =>
    settle true fun t => terminalizeApprovalRequestAsConflict t request.id (conflictDetails e) now
  | .internal message => .throw (.internal message)

def ApprovalRequest.ended (request : ApprovalRequest) : Bool :=
  request.executionStatus = .succeeded ∨ request.executionStatus = .conflict ∨
    request.executionStatus = .legacyTerminal

def replayLocked (request : ApprovalRequest) (payload : GenericOperationApprovalRequestPayload) :
    Tx ReplayState Failure ReplayResult :=
  let id := request.id
  if ApprovalRequest.ended request then
    return ⟨request.executionStatus ≠ .succeeded, request.executionResult.getD .null⟩
  else if request.status ≠ .approved ∨ request.executionStatus ≠ .queued then
    .throw (.forbiddenError
      s!"Approval request '{id}' is not approved and queued for execution" none "forbidden")
  else .catchError (replayMutation host env now request payload) (onFailure now request)

def replayApprovedGenericOperation (id : ℕ) : Tx ReplayState Failure ReplayResult := do
  let locked ← .gets fun r : ReplayState => r.tables.requests id
  match locked with
  | some request =>
    match request.payload with
    | .genericOperation payload => replayLocked host env now request payload
    | .mcpInvoke _ => .throw (.notFoundError s!"Approval request '{id}' not found" none)
  | none => .throw (.notFoundError s!"Approval request '{id}' not found" none)

/-! ## Runs -/

structure Committed where
  store : Store
  jobs : List Job
  tables : Tables

structure Replay where
  id : ℕ
  env : Env
  before : Committed
  after : Committed

structure Sys where
  committed : Committed
  queue : List ℕ
  replays : List Replay

def Sys.init (store : Store) : Sys where
  committed := ⟨store, [], ⟨fun _ => none, fun _ => none⟩⟩
  queue := []
  replays := []

inductive Act where
  | operate (env : Env) (op : ChokePointOp)
  | setAgentRun (id : ℕ) (run : AgentRun)
  | createRequest (id : ℕ) (input : CreatePendingApprovalRequestInput) (now : ℤ)
  | decide (id : ℕ) (decision : ApprovalRequestDecision) (decidedByUserId : ℕ) (now : ℤ)
  /-- The queue delivers a job, not necessarily for the first time. -/
  | deliver (id : ℕ) (env : Env) (now : ℤ)

variable (pg : Postgres) (computedKeys : List String)

def step (s : Sys) : Act → Option Sys
  | .operate env op =>
    (ChokePoint.commit pg computedKeys s.committed.store env op).map fun (store, jobs) =>
      { s with committed := { s.committed with store, jobs := s.committed.jobs ++ jobs } }
  | .setAgentRun id run =>
    let agentRuns := Function.update s.committed.tables.agentRuns id (some run)
    some { s with
      committed := { s.committed with tables := { s.committed.tables with agentRuns } } }
  | .createRequest id input now =>
    (createPendingApprovalRequest s.committed.tables input id now).map fun tables =>
      { s with committed := { s.committed with tables } }
  | .decide id decision decidedByUserId now =>
    let (tables, queue, _) :=
      decideAndEnqueueApprovalRequest s.committed.tables s.queue id decision decidedByUserId now
    some { s with committed := { s.committed with tables }, queue }
  | .deliver id env now =>
    if id ∈ s.queue then
      match (replayApprovedGenericOperation host env now id).transaction
          ⟨⟨s.committed.store, []⟩, s.committed.tables⟩ with
      | (.ok _, r) =>
        let after : Committed := ⟨r.tx.store, s.committed.jobs ++ r.tx.jobs, r.tables⟩
        some { s with committed := after, replays := s.replays ++ [⟨id, env, s.committed, after⟩] }
      | (.error _, _) => some s
    else none

/-! ## Exactly once -/

def executionStatus (t : Tables) (id : ℕ) : Option ApprovalRequestExecutionStatus :=
  (t.requests id).map fun request => request.executionStatus

def Replay.ends (replay : Replay) (status : ApprovalRequestExecutionStatus) : Bool :=
  executionStatus replay.before.tables replay.id = some .queued ∧
    executionStatus replay.after.tables replay.id = some status

def Replay.Whole (replay : Replay) : Prop :=
  ∃ request payload input resource result jobs,
    replay.before.tables.requests replay.id = some request ∧
      request.payload = .genericOperation payload ∧ parseOperation host payload = .ok input ∧
        computeDestructiveResourceProjection host replay.before.store (dataActor payload.actor)
          input = .ok resource ∧
        (executeDestructiveWithClient replay.env (dataActor payload.actor) resource input).run
          ⟨replay.before.store, []⟩ = (.ok result, ⟨replay.after.store, jobs⟩) ∧
        replay.after.jobs = replay.before.jobs ++ jobs

/-- Nothing but how and when the request's execution ended may differ. -/
def OnlyStatus (id : ℕ) (before after : Tables) : Prop :=
  after.agentRuns = before.agentRuns ∧ (∀ j, j ≠ id → after.requests j = before.requests j) ∧
    ∀ request, before.requests id = some request →
      ∃ executionStatus executionError executionResult executedAt, after.requests id =
        some { request with executionStatus, executionError, executionResult, executedAt }

/-- A request's mutation is committed at most once, by the replay that makes the request succeed and
then as a whole; no other replay changes the store. -/
structure Sys.ExactlyOnce (s : Sys) : Prop where
  once : ∀ id, (s.replays.filter fun replay => replay.id = id ∧ replay.ends .succeeded).length ≤ 1
  succeeded : ∀ id, executionStatus s.committed.tables id = some .succeeded →
    ∃ replay ∈ s.replays, replay.id = id ∧ replay.ends .succeeded
  whole : ∀ replay ∈ s.replays, replay.ends .succeeded → replay.Whole host
  others : ∀ replay ∈ s.replays, ¬ replay.ends .succeeded →
    replay.after.store = replay.before.store ∧ replay.after.jobs = replay.before.jobs
  status : ∀ replay ∈ s.replays, OnlyStatus replay.id replay.before.tables replay.after.tables

/-- `propertiesStore.deleteProperty` deletes the property. -/
def Deletable (s : Store) (id : ℕ) : Prop :=
  ∃ property, s.requireProperty id = .ok property ∧
    Schema.assertPropertySchemaMutable s property = .ok ()

def OwnSideStuck (s : Store) (id : ℕ) : Prop :=
  ∃ property reldef other, s.requireProperty id = .ok property ∧ property.type = .relation ∧
    s.getRelationDefinitionByPropertyId id = some reldef ∧
    Schema.otherPropertyId reldef id = some other ∧ Deletable s other ∧
      (id = other ∨ ¬ Deletable s id)

def NotStuck (s : Sys) : Act → Prop
  | .deliver id _ _ => ∀ request payload propertyId resource,
    s.committed.tables.requests id = some request → request.payload = .genericOperation payload →
      request.status = .approved → request.executionStatus = .queued →
      revalidate host request payload ⟨⟨s.committed.store, []⟩, s.committed.tables⟩ =
        .ok (.propertyDelete propertyId, resource) →
      resource.snapshot host = request.resourceSnapshot →
        ¬ OwnSideStuck s.committed.store propertyId
  | _ => True

end OperationReplay

end Semprec
