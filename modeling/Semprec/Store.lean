import Mathlib.Data.List.Sort
import Semprec.Json
import Semprec.Lib.Transaction

/-!
# The store

The tables behind the choke point, a list of rows each, and the statements on them.  Times are in
microseconds; `gen_random_uuid()` never repeats, which is what `nextId` keeps of it.
-/

namespace Semprec

structure ChokePointError where
  status : ℕ
  code : String
  message : String
  details : Option Json

/-- What ends a transaction: a domain error, or anything else that is thrown. -/
inductive Failure where
  | chokePoint (error : ChokePointError)
  | internal (message : String)

namespace Failure

def validationError (message : String) (details : Option Json) : Failure :=
  .chokePoint ⟨400, "validation_failed", message, details⟩

def forbiddenError (message : String) (details : Option Json) (code : String) : Failure :=
  .chokePoint ⟨403, code, message, details⟩

def conflictError (message : String) (details : Option Json) : Failure :=
  .chokePoint ⟨409, "version_conflict", message, details⟩

def cardinalityViolationError (message : String) (details : Option Json) : Failure :=
  .chokePoint ⟨409, "cardinality_violation", message, details⟩

def notFoundError (message : String) (details : Option Json) : Failure :=
  .chokePoint ⟨404, "not_found", message, details⟩

def schemaLockedError (message : String) : Failure := forbiddenError message none "schema_locked"

def propertyLockedError (message : String) : Failure :=
  forbiddenError message none "property_locked"

end Failure

/-- `{ field: … }`. -/
def fieldDetails (field : String) : Option Json := some (.obj [("field", .str field)])

def idJson (id : ℕ) : Json := .str (toString id)

/-- `toISOString()` of a `timestamptz` read into a `Date`: its milliseconds. -/
def toISOString (t : ℤ) : ℤ := t / 1000

structure DatabaseRow where
  id : ℕ
  key : Option String
  name : Option String
  parentItemId : Option ℕ
  ownerProjectItemId : Option ℕ
  ownerModuleId : Option String
  schemaLocked : Bool
  system : Bool
  archivedAt : Option ℤ

inductive PropertyType where
  | text
  | number
  | select
  | multi_select
  | date
  | relation
  | rollup
  | files
  | title
  | checkbox
  | time
  | longText
  | color
  | file
  | url
  | image
  | json
deriving DecidableEq

def PropertyType.name : PropertyType → String
  | .text => "text"
  | .number => "number"
  | .select => "select"
  | .multi_select => "multi_select"
  | .date => "date"
  | .relation => "relation"
  | .rollup => "rollup"
  | .files => "files"
  | .title => "title"
  | .checkbox => "checkbox"
  | .time => "time"
  | .longText => "longText"
  | .color => "color"
  | .file => "file"
  | .url => "url"
  | .image => "image"
  | .json => "json"

inductive PropertyOwner where
  | user
  | system
deriving DecidableEq

inductive MigrationStatus where
  | stable
  | pending
  | running
  | done
  | partial_
deriving DecidableEq

inductive ConfigKey where
  | absent
  | key (key : String)
  | invalid
deriving DecidableEq

/-- The fields of a property's `config` that the code reads; a field it treats as absent when it is
not a string is `none` then. -/
structure PropertyConfig where
  relationDefinitionId : Option ℕ
  targetDatabaseId : Option ℕ
  relationPropertyKey : Option String
  targetPropertyKey : ConfigKey
  aggregation : Option String
  options : Option Json
  includeTime : Bool
  default : Option Json

def PropertyConfig.empty : PropertyConfig where
  relationDefinitionId := none
  targetDatabaseId := none
  relationPropertyKey := none
  targetPropertyKey := .absent
  aggregation := none
  options := none
  includeTime := false
  default := none

structure PropertyRow where
  id : ℕ
  databaseId : ℕ
  key : String
  name : Option String
  type : PropertyType
  config : PropertyConfig
  locked : Bool
  owner : PropertyOwner
  ownerProcess : Option String
  migrationStatus : MigrationStatus

inductive Cardinality where
  | one_to_one
  | one_to_many
  | many_to_many
deriving DecidableEq

structure RelationDefinitionRow where
  id : ℕ
  propertyIdA : ℕ
  propertyIdB : Option ℕ
  cardinality : Cardinality

structure ItemRow where
  id : ℕ
  databaseId : ℕ
  properties : JsonObject
  computed : JsonObject
  updatedAt : ℤ
  deletedAt : Option ℤ

/-- The key of an `items` row is `(database_id, id)`. -/
def ItemRow.isAt (r : ItemRow) (databaseId itemId : ℕ) : Bool :=
  r.databaseId = databaseId ∧ r.id = itemId

structure ItemRelationRow where
  id : ℕ
  relationDefinitionId : ℕ
  itemA : ℕ
  itemB : ℕ
  metadata : JsonObject

structure RollupDependencyRow where
  rollupPropertyId : ℕ
  relationDefinitionId : ℕ
  sourceDatabaseId : ℕ
  sourcePropertyKey : Option String

inductive CreatedBy where
  | user
  | ai_agent
  | system
deriving DecidableEq

structure ViewRow where
  id : ℕ
  databaseId : Option ℕ
  type : String
  name : String
  config : JsonObject
  isDefault : Bool
  ownerModuleId : Option String
  createdBy : CreatedBy
  creatorProjectItemId : Option ℕ

structure IdempotencyKeyRow where
  key : String
  databaseId : ℕ
  itemId : ℕ

/-- A row of `task_recurrence`; its rule is read by `computeNextDueDate` only. -/
structure TaskRecurrence where
  itemId : ℕ
  mode : String
  rule : Json
  active : Bool

structure Store where
  databases : List DatabaseRow
  properties : List PropertyRow
  relationDefinitions : List RelationDefinitionRow
  items : List ItemRow
  itemRelations : List ItemRelationRow
  rollupDependencies : List RollupDependencyRow
  views : List ViewRow
  idempotencyKeys : List IdempotencyKeyRow
  taskRecurrences : List TaskRecurrence
  nextId : ℕ

namespace Store

def empty : Store where
  databases := []
  properties := []
  relationDefinitions := []
  items := []
  itemRelations := []
  rollupDependencies := []
  views := []
  idempotencyKeys := []
  taskRecurrences := []
  nextId := 0

/-! ## Databases -/

def getDatabase (s : Store) (id : ℕ) : Option DatabaseRow :=
  s.databases.find? fun d => d.id = id

def requireDatabase (s : Store) (id : ℕ) : Except Failure DatabaseRow :=
  match s.getDatabase id with
  | some d => .ok d
  | none => .error (.notFoundError s!"Database {id} not found" none)

def getDatabaseByModuleId (s : Store) (ownerModuleId : String) :
    Except Failure (Option DatabaseRow) :=
  match s.databases.filter fun d => d.ownerModuleId = some ownerModuleId ∧ d.system with
  | [] => .ok none
  | [d] => .ok (some d)
  | ds => .error (.internal
      s!"Module id '{ownerModuleId}' resolves to {ds.length} system databases, expected at most one")

def listDatabasesByParentItem (s : Store) (itemId : ℕ) : List DatabaseRow :=
  s.databases.filter fun d => d.parentItemId = some itemId

def assertDatabaseNotArchived (s : Store) (databaseId : ℕ) : Except Failure Unit := do
  let database ← s.requireDatabase databaseId
  if database.archivedAt.isSome then
    .error (.forbiddenError s!"Database {databaseId} is archived and cannot be written to"
      (fieldDetails "databaseId") "database_archived")

/-! ## Properties -/

def getProperty (s : Store) (id : ℕ) : Option PropertyRow :=
  s.properties.find? fun p => p.id = id

def requireProperty (s : Store) (id : ℕ) : Except Failure PropertyRow :=
  match s.getProperty id with
  | some p => .ok p
  | none => .error (.notFoundError s!"Property {id} not found" none)

def listPropertiesByDatabase (s : Store) (databaseId : ℕ) : List PropertyRow :=
  (s.properties.filter fun p => p.databaseId = databaseId).insertionSort fun p q => p.key ≤ q.key

/-! ## Relations -/

def getRelationDefinition (s : Store) (id : ℕ) : Option RelationDefinitionRow :=
  s.relationDefinitions.find? fun d => d.id = id

def getRelationDefinitionByPropertyId (s : Store) (propertyId : ℕ) :
    Option RelationDefinitionRow :=
  s.relationDefinitions.find? fun d => d.propertyIdA = propertyId ∨ d.propertyIdB = some propertyId

def getItemRelationByTuple (s : Store) (relationDefinitionId itemA itemB : ℕ) :
    Option ItemRelationRow :=
  s.itemRelations.find? fun e =>
    e.relationDefinitionId = relationDefinitionId ∧ e.itemA = itemA ∧ e.itemB = itemB

def listRelationsForItem (s : Store) (relationDefinitionId itemId : ℕ) : List ItemRelationRow :=
  s.itemRelations.filter fun e =>
    e.relationDefinitionId = relationDefinitionId ∧ (e.itemA = itemId ∨ e.itemB = itemId)

def listAllRelationsForItem (s : Store) (itemId : ℕ) : List ItemRelationRow :=
  s.itemRelations.filter fun e => e.itemA = itemId ∨ e.itemB = itemId

/-! ## Items -/

def getItemById (s : Store) (databaseId itemId : ℕ) : Option ItemRow :=
  s.items.find? fun r => r.isAt databaseId itemId

def getItemsByIds (s : Store) (itemIds : List ℕ) : List ItemRow :=
  s.items.filter fun r => r.id ∈ itemIds ∧ r.deletedAt = none

def getItemsByIdsIncludingDeleted (s : Store) (itemIds : List ℕ) : List ItemRow :=
  s.items.filter fun r => r.id ∈ itemIds

def getAllItemsInDatabase (s : Store) (databaseId : ℕ) : List ItemRow :=
  s.items.filter fun r => r.databaseId = databaseId

/-- `UPDATE items SET … WHERE database_id = … AND id = … AND … RETURNING …`. -/
def updateItem (s : Store) (databaseId itemId : ℕ) (guard : ItemRow → Bool)
    (set : ItemRow → ItemRow) : Option ItemRow × Store :=
  ((s.items.find? fun r => r.isAt databaseId itemId && guard r).map set,
    { s with items := s.items.map fun r =>
        if r.isAt databaseId itemId && guard r then set r else r })

def softDeleteItem (s : Store) (databaseId itemId : ℕ) (now : ℤ) : Option ItemRow × Store :=
  s.updateItem databaseId itemId (fun r => r.deletedAt = none) fun r =>
    { r with deletedAt := some now }

def restoreItem (s : Store) (databaseId itemId : ℕ) : Option ItemRow × Store :=
  s.updateItem databaseId itemId (fun r => r.deletedAt ≠ none) fun r => { r with deletedAt := none }

/-- Writes `computed` only, and never advances `updated_at`. -/
def writeComputed (s : Store) (databaseId itemId : ℕ) (key : String) (value : Json) :
    Option ItemRow × Store :=
  s.updateItem databaseId itemId (fun _ => true) fun r =>
    { r with computed := r.computed.merge [(key, value)] }

/-! ## Rollup dependencies -/

def findDependenciesByRelationDefinition (s : Store) (relationDefinitionId : ℕ) :
    List RollupDependencyRow :=
  s.rollupDependencies.filter fun d => d.relationDefinitionId = relationDefinitionId

def findDependenciesBySource (s : Store) (sourceDatabaseId : ℕ) (sourcePropertyKey : String) :
    List RollupDependencyRow :=
  s.rollupDependencies.filter fun d =>
    d.sourceDatabaseId = sourceDatabaseId ∧ d.sourcePropertyKey = some sourcePropertyKey

def getRollupDependency (s : Store) (rollupPropertyId : ℕ) : Option RollupDependencyRow :=
  s.rollupDependencies.find? fun d => d.rollupPropertyId = rollupPropertyId

def upsertRollupDependency (s : Store) (input : RollupDependencyRow) : Store :=
  { s with rollupDependencies :=
      if s.rollupDependencies.any fun d => d.rollupPropertyId = input.rollupPropertyId then
        s.rollupDependencies.map fun d =>
          if d.rollupPropertyId = input.rollupPropertyId then input else d
      else s.rollupDependencies ++ [input] }

/-! ## Views -/

def getView (s : Store) (id : ℕ) : Option ViewRow := s.views.find? fun v => v.id = id

def deleteView (s : Store) (id : ℕ) : Store :=
  { s with views := s.views.filter fun v => v.id ≠ id }

end Store

/-! ## Transactions -/

inductive Job where
  | rollupRecompute (rollupPropertyId itemId : ℕ)
  | rollupRecomputeFull (rollupPropertyId : ℕ)
  | propertyTypeMigration (propertyId : ℕ) (fromType : PropertyType)
deriving DecidableEq

/-- A transaction's view of the tables, and the jobs it has enqueued. -/
structure TxState where
  store : Store
  jobs : List Job

namespace TxState

def check {α : Type} (f : Store → Except Failure α) : Tx TxState Failure α :=
  .query fun t => f t.store

def select {α : Type} (f : Store → α) : Tx TxState Failure α := .gets fun t => f t.store

def statement {α : Type} (f : Store → α × Store) : Tx TxState Failure α :=
  .write fun t => ((f t.store).1, { t with store := (f t.store).2 })

def execute (f : Store → Store) : Tx TxState Failure Unit := statement fun s => ((), f s)

def enqueueJob (job : Job) : Tx TxState Failure Unit :=
  .write fun t => ((), { t with jobs := t.jobs ++ [job] })

end TxState

def withTransaction {α : Type} (x : Tx TxState Failure α) (s : Store) :
    Except Failure (α × List Job) × Store :=
  match x.transaction ⟨s, []⟩ with
  | (.ok a, t) => (.ok (a, t.jobs), t.store)
  | (.error e, t) => (.error e, t.store)

end Semprec
