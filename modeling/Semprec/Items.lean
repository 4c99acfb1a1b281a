import Semprec.Relations

/-!
# Item writes

Creating and updating an item, with the checks the two share, the derivation of Tasks `time`, and
the advance of a recurring task that completing it makes in the same transaction.
-/

namespace Semprec

/-- A patch as JavaScript passes it on: a key may be there with the value `undefined`. -/
abbrev JsPatch := List (String × Option Json)

/-- What `JSON.stringify` keeps of it. -/
def JsPatch.defined (patch : JsPatch) : JsonObject :=
  patch.filterMap fun f => f.2.map fun v => (f.1, v)

structure CreateItemInput where
  databaseId : ℕ
  properties : JsPatch
  idempotencyKey : Option String

structure UpdateItemInput where
  databaseId : ℕ
  itemId : ℕ
  propertiesPatch : JsonObject
  ifVersion : Option ℤ

structure WriteOptions where
  allowedSystemKeys : List String
  systemOwnerProcess : Option String
  humanWriterUserId : Option ℕ

def WriteOptions.none : WriteOptions := ⟨[], Option.none, Option.none⟩

structure UpdateItemResult where
  item : ItemRow
  previous : JsonObject

/-- What a write reads outside the tables: the clock, time zones, and the hooks that only check. -/
structure Env where
  now : ℤ
  validTimezone : String → Bool
  /-- The date of the transaction in a time zone. -/
  today : String → String
  /-- The mode and the rule of a recurrence and a time zone. -/
  computeNextDueDate : String → Json → String → String
  /-- The rules on the connection configuration of an MCP server item. -/
  assertWrittenConfigStorable : Option String → JsonObject → Option ℕ → Except Failure Unit
  relationEdgeWriteHook : RelationEdgeWriteHook

namespace Items

open TxState

/-! ## Checks -/

def assertWritableProperty (properties : List PropertyRow) (options : WriteOptions)
    (key : String) : Except Failure Unit :=
  match properties.find? fun p => p.key = key with
  | none => .error (.validationError s!"Unknown property key '{key}'" (fieldDetails key))
  | some property =>
    if property.type = .rollup then
      .error (.forbiddenError
        s!"Property '{key}' is a rollup; its value lives in computed and is read-only here"
        (fieldDetails key) "computed_readonly")
    else if property.type = .relation then
      .error (.validationError (s!"Property '{key}' is a relation; write it via " ++
        "createRelation/deleteRelation, not item properties") (fieldDetails key))
    else if property.owner = .system ∧ key ∉ options.allowedSystemKeys then
      .error (.forbiddenError
        s!"Property '{key}' is owned by 'system' and cannot be written by this caller"
        (fieldDetails key) "forbidden")
    else if property.owner = .system ∧
        options.systemOwnerProcess.any fun p => p ≠ "" ∧ property.ownerProcess ≠ some p then
      .error (.forbiddenError s!"Property '{key}' is not owned by this system process"
        (fieldDetails key) "owner_violation")
    else .ok ()

def assertWritableProperties (properties : List PropertyRow) (patchKeys : List String)
    (options : WriteOptions) : Except Failure Unit :=
  patchKeys.forM (assertWritableProperty properties options)

def findIdempotentReplay (s : Store) (databaseId : ℕ) (idempotencyKey : String) : Option ItemRow :=
  match s.idempotencyKeys.find? fun k => k.key = idempotencyKey with
  | none => none
  | some reserved =>
    if reserved.databaseId = databaseId then
      (s.getItemById databaseId reserved.itemId).filter fun item => item.deletedAt = none
    else none

def assertDatabaseWritableForCreate (s : Store) (databaseId : ℕ) (idempotencyKey : Option String) :
    Except Failure (Option ItemRow) := do
  let database ← s.requireDatabase databaseId
  if database.archivedAt = none then return none
  match (idempotencyKey.filter fun key => key ≠ "").bind (findIdempotentReplay s databaseId) with
  | some replay => return some replay
  | none => .error (.forbiddenError s!"Database {databaseId} is archived and cannot be written to"
      (fieldDetails "databaseId") "database_archived")

/-! ## System settings -/

def systemSettingsModuleId : String := "systemSettings"

def settingsDatabase (s : Store) : Option DatabaseRow :=
  s.databases.find? fun d => d.ownerModuleId = some systemSettingsModuleId ∧ d.system

def settingsItem (s : Store) : Option ItemRow :=
  (settingsDatabase s).bind fun d => s.items.find? fun r => r.databaseId = d.id

def defaultTimezone : String := "Europe/Prague"

def getSystemTimezone (s : Store) : Except Failure String :=
  match settingsItem s with
  | none => .ok defaultTimezone
  | some item =>
    match item.properties.get? "timezone" with
    | none => .ok defaultTimezone
    | some (.str timezone) => .ok timezone
    | some _ => .error (.internal "system settings properties")

def assertValidTimezone (env : Env) (timezone : String) : Except Failure Unit :=
  if env.validTimezone timezone then .ok ()
  else .error (.validationError s!"Invalid IANA timezone: '{timezone}'" (fieldDetails "timezone"))

/-! ## Tasks `time` -/

def tasksModuleId : String := "tasks"

/-- `padStart(2, "0")`. -/
def padTwo (digits : List Char) : String :=
  String.ofList (List.replicate (2 - digits.length) '0' ++ digits)

/-- The zero-padded form of `^(\d{1,2}):(\d{1,2})$`; any other text stays. -/
def formatTaskTime (value : String) : String :=
  let hours := value.toList.takeWhile Char.isDigit
  match value.toList.dropWhile Char.isDigit with
  | ':' :: minutes =>
    if hours ≠ [] ∧ hours.length ≤ 2 ∧ minutes ≠ [] ∧ minutes.length ≤ 2 ∧
        minutes.all Char.isDigit then
      padTwo hours ++ ":" ++ padTwo minutes
    else value
  | _ => value

def deriveTaskTime : Option String → Option String → Json
  | some timeFrom, some timeTo => .str (formatTaskTime timeFrom ++ "–" ++ formatTaskTime timeTo)
  | some timeFrom, none => .str (formatTaskTime timeFrom)
  | none, some timeTo => .str (formatTaskTime timeTo)
  | none, none => .null

def stringValue : Option Json → Option String
  | some (.str s) => some s
  | _ => none

/-! ## Creation -/

def randomUUID : Tx TxState Failure ℕ :=
  statement fun s => (s.nextId, { s with nextId := s.nextId + 1 })

def applyDefaults (env : Env) (s : Store) (properties : List PropertyRow) (input : JsPatch)
    (itemProperties : JsonObject) : Except Failure JsonObject :=
  properties.foldlM (fun acc property =>
    match property.config.default with
    | none => .ok acc
    | some value =>
      if input.any fun f => f.1 = property.key then .ok acc
      else match property.type, value with
        | .date, .str "today" => do
          let timezone ← getSystemTimezone s
          assertValidTimezone env timezone
          return acc.merge [(property.key, .str (env.today timezone))]
        | _, _ => .ok (acc.merge [(property.key, value)])) itemProperties

def insertItem (env : Env) (id databaseId : ℕ) (properties : JsonObject) :
    Tx TxState Failure ItemRow :=
  statement fun s =>
    let item : ItemRow :=
      { id, databaseId, properties, computed := [], updatedAt := env.now, deletedAt := none }
    (item, { s with items := s.items ++ [item] })

def reserveKey (key : String) (databaseId itemId : ℕ) (s : Store) : Store :=
  { s with idempotencyKeys := s.idempotencyKeys ++ [{ key, databaseId, itemId }] }

def releaseKey (key : String) (s : Store) : Store :=
  { s with idempotencyKeys := s.idempotencyKeys.filter fun k => k.key ≠ key }

def reserveIdempotencyKey (key : String) (databaseId itemId : ℕ) :
    Tx TxState Failure (Option ItemRow) := do
  let reserved ← select fun s => s.idempotencyKeys.find? fun k => k.key = key
  match reserved with
  | none =>
    execute (reserveKey key databaseId itemId)
    return none
  | some reserved =>
    if reserved.databaseId ≠ databaseId then
      .throw (.conflictError s!"Idempotency key '{key}' was already used for a different database"
        (some (.obj [("key", .str key)])))
    else
      let existing ← select fun s => s.getItemById databaseId reserved.itemId
      match existing.filter fun item => item.deletedAt = none with
      | some existing => return some existing
      | none =>
        execute fun s => reserveKey key databaseId itemId (releaseKey key s)
        return none

def insertItemWithReplay (env : Env) (databaseId : ℕ) (idempotencyKey : Option String)
    (resolveCreateProperties : Store → Except Failure JsonObject) :
    Tx TxState Failure (ItemRow × Bool) := do
  let itemId ← randomUUID
  let existing ← match idempotencyKey with
    | none | some "" => pure none
    | some key => reserveIdempotencyKey key databaseId itemId
  match existing with
  | some item => return (item, false)
  | none =>
    let properties ← check resolveCreateProperties
    let item ← insertItem env itemId databaseId properties
    return (item, true)

def createdProperties (database : DatabaseRow) (input : JsPatch) : JsonObject :=
  let properties := input.defined
  if database.ownerModuleId = some tasksModuleId then
    properties.merge [("time", deriveTaskTime (stringValue (properties.get? "timeFrom"))
      (stringValue (properties.get? "timeTo")))]
  else properties

def createItemWithClient (env : Env) (input : CreateItemInput) (options : WriteOptions) :
    Tx TxState Failure ItemRow := do
  let replay ← check fun s =>
    assertDatabaseWritableForCreate s input.databaseId input.idempotencyKey
  match replay with
  | some replay => return replay
  | none =>
    let properties ← select fun s => s.listPropertiesByDatabase input.databaseId
    check fun _ =>
      assertWritableProperties properties (input.properties.map Prod.fst) options
    let database ← check fun s => s.requireDatabase input.databaseId
    let inserted ← insertItemWithReplay env input.databaseId input.idempotencyKey fun s =>
      applyDefaults env s properties input.properties (createdProperties database input.properties)
    if inserted.2 then
      check fun _ => env.assertWrittenConfigStorable database.ownerModuleId
        inserted.1.properties options.humanWriterUserId
    return inserted.1

/-! ## Recurring tasks -/

/-- The ends of an edge of `fromItemId` once `toItemId` stands in its place. -/
def relinked (fromItemId toItemId : ℕ) (e : ItemRelationRow) : ℕ × ℕ :=
  (if e.itemA = fromItemId then toItemId else e.itemA,
    if e.itemB = fromItemId then toItemId else e.itemB)

def copiedSide (s : Store) (fromItemId : ℕ) (e : ItemRelationRow) : Option ℕ :=
  match s.getRelationDefinition e.relationDefinitionId with
  | none => none
  | some reldef =>
    match s.getProperty reldef.propertyIdA with
    | none => none
    | some propertyA =>
      match propertyA.config.targetDatabaseId with
      | none => none
      | some targetDatabaseId =>
        let counterpart :=
          if e.itemA ≠ fromItemId then s.getItemById propertyA.databaseId e.itemA
          else s.getItemById targetDatabaseId e.itemB
        match counterpart with
        | none => none
        | some item => if item.deletedAt.isSome then none else some reldef.propertyIdA

def tasksRelationContext : SystemRelationWriteContext := ⟨tasksModuleId⟩

def copyRelationEdge (env : Env) (fromItemId toItemId : ℕ) (e : ItemRelationRow) :
    Tx TxState Failure Unit := do
  let side ← select fun s => copiedSide s fromItemId e
  match side with
  | none => return
  | some relationPropertyId =>
    let ends := relinked fromItemId toItemId e
    let _ ← Relations.createRelationWithClient env.relationEdgeWriteHook
      ⟨relationPropertyId, ends.1, ends.2, some e.metadata⟩ (some tasksRelationContext)

def copyRelationEdges (env : Env) (fromItemId toItemId : ℕ) : Tx TxState Failure Unit := do
  let edges ← select fun s => s.listAllRelationsForItem fromItemId
  forM edges (copyRelationEdge env fromItemId toItemId)

def getTaskRecurrence (s : Store) (itemId : ℕ) : Option TaskRecurrence :=
  s.taskRecurrences.find? fun r => r.itemId = itemId

def createTaskRecurrence (row : TaskRecurrence) (s : Store) : Store :=
  { s with taskRecurrences := s.taskRecurrences ++ [row] }

def setTaskRecurrenceActive (itemId : ℕ) (active : Bool) (s : Store) : Store :=
  { s with
    taskRecurrences := s.taskRecurrences.map fun r =>
      if r.itemId = itemId then { r with active } else r }

def nextInstance (current : JsonObject) (nextDate : String) : JsPatch :=
  [("name", current.get? "name"), ("status", some (.str "notDone")), ("date", some (.str nextDate)),
    ("timeFrom", some ((current.get? "timeFrom").getD .null)),
    ("timeTo", some ((current.get? "timeTo").getD .null)),
    ("notifications", some (nullish (current.get? "notifications"))),
    ("persistent", some (nullish (current.get? "persistent")))]
where
  /-- `value ?? false`. -/
  nullish : Option Json → Json
    | none | some .null => .bool false
    | some v => v

def advanceTaskRecurrenceWithClient (env : Env) (databaseId itemId : ℕ) (timezone : String) :
    Tx TxState Failure Unit := do
  let recurrence ← select fun s => getTaskRecurrence s itemId
  match recurrence.filter fun r => r.active with
  | none => return
  | some recurrence =>
    let current ← select fun s => s.getItemById databaseId itemId
    match current with
    | none => .throw (.notFoundError s!"Task {itemId} not found" none)
    | some current =>
      check fun _ => assertValidTimezone env timezone
      let nextDate := env.computeNextDueDate recurrence.mode recurrence.rule timezone
      let newItem ← createItemWithClient env
        ⟨databaseId, nextInstance current.properties nextDate, none⟩ .none
      execute (createTaskRecurrence ⟨newItem.id, recurrence.mode, recurrence.rule, true⟩)
      execute (setTaskRecurrenceActive itemId false)
      copyRelationEdges env itemId newItem.id

def taskRecurrenceItemUpdateHook (env : Env) (database : DatabaseRow) (item : ItemRow)
    (propertiesPatch : JsonObject) : Tx TxState Failure Unit := do
  if database.ownerModuleId = some tasksModuleId ∧
      stringValue (propertiesPatch.get? "status") = some "done" then
    let timezone ← check getSystemTimezone
    advanceTaskRecurrenceWithClient env item.databaseId item.id timezone
  else return

/-! ## Update -/

/-- An item as an error's details report it. -/
def itemJson (item : ItemRow) : Json :=
  .obj [("id", idJson item.id), ("databaseId", idJson item.databaseId),
    ("properties", .obj item.properties), ("computed", .obj item.computed),
    ("updatedAt", .num ⟨toISOString item.updatedAt, 0⟩),
    ("deletedAt", match item.deletedAt with
      | none => .null
      | some t => .num ⟨toISOString t, 0⟩)]

/-- The row an update writes over: live, and as the caller last saw it. -/
def lockUpdatable (s : Store) (databaseId itemId : ℕ) (ifVersion : Option ℤ) :
    Except Failure ItemRow :=
  match (s.getItemById databaseId itemId).filter fun item => item.deletedAt = none with
  | none => .error (.notFoundError s!"Item {itemId} not found" none)
  | some current =>
    if ifVersion.any fun v => v ≠ toISOString current.updatedAt then
      .error (.conflictError "Item was modified since ifVersion was read"
        (some (.obj [("current", itemJson current)])))
    else .ok current

def writeProperties (env : Env) (databaseId itemId : ℕ) (patch : JsonObject) (s : Store) :
    Option ItemRow × Store :=
  s.updateItem databaseId itemId (fun _ => true) fun r =>
    { r with properties := r.properties.merge patch, updatedAt := env.now }

def derivedPatch (database : DatabaseRow) (itemId : ℕ) (patch : JsonObject) (s : Store) :
    Except Failure JsonObject :=
  if database.ownerModuleId = some tasksModuleId ∧
      (patch.hasOwn "timeFrom" ∨ patch.hasOwn "timeTo") then
    match (s.getItemById database.id itemId).filter fun item => item.deletedAt = none with
    | none => .error (.notFoundError s!"Item {itemId} not found" none)
    | some current =>
      let effective := current.properties.merge patch
      .ok (patch.merge [("time", deriveTaskTime (stringValue (effective.get? "timeFrom"))
        (stringValue (effective.get? "timeTo")))])
  else .ok patch

def otherSide (relation : ItemRelationRow) (itemId : ℕ) : Except Failure ℕ :=
  let relationId := relation.id
  if relation.itemA = itemId then .ok relation.itemB
  else if relation.itemB = itemId then .ok relation.itemA
  else .error (.validationError s!"Item {itemId} is not part of relation {relationId}" none)

def enqueueForKey (databaseId itemId : ℕ) (key : String) : Tx TxState Failure Unit := do
  let dependencies ← select fun s => s.findDependenciesBySource databaseId key
  forM dependencies fun dependency => do
    let edges ← select fun s => s.listRelationsForItem dependency.relationDefinitionId itemId
    forM edges fun edge => do
      let other ← check fun _ => otherSide edge itemId
      Rollup.enqueueRollupRecompute dependency.rollupPropertyId other

def updateItemProperties (env : Env) (databaseId itemId : ℕ) (patch : JsonObject)
    (ifVersion : Option ℤ) : Tx TxState Failure UpdateItemResult := do
  let current ← check fun s => lockUpdatable s databaseId itemId ifVersion
  let written ← statement (writeProperties env databaseId itemId patch)
  match written with
  | none => .throw (.internal "items row")
  | some item => return {
      item
      previous := patch.map fun f => (f.1, (current.properties.get? f.1).getD .null) }

def assertSettingsTimezone (env : Env) (s : Store) (itemId : ℕ) (patch : JsonObject) :
    Except Failure Unit :=
  match stringValue (patch.get? "timezone") with
  | none => .ok ()
  | some timezone =>
    if (settingsItem s).any fun item => item.id = itemId then assertValidTimezone env timezone
    else .ok ()

def updateItemWithClient (env : Env) (input : UpdateItemInput) (options : WriteOptions) :
    Tx TxState Failure UpdateItemResult := do
  check fun s => s.assertDatabaseNotArchived input.databaseId
  let properties ← select fun s => s.listPropertiesByDatabase input.databaseId
  let patchKeys := input.propertiesPatch.map Prod.fst
  check fun _ => assertWritableProperties properties patchKeys options
  let database ← check fun s => s.requireDatabase input.databaseId
  let propertiesPatch ← check (derivedPatch database input.itemId input.propertiesPatch)
  let result ← updateItemProperties env input.databaseId input.itemId propertiesPatch
    input.ifVersion
  check fun _ => env.assertWrittenConfigStorable database.ownerModuleId propertiesPatch
    options.humanWriterUserId
  taskRecurrenceItemUpdateHook env database result.item propertiesPatch
  forM patchKeys (enqueueForKey input.databaseId input.itemId)
  check fun s => assertSettingsTimezone env s input.itemId input.propertiesPatch
  return { result with previous := result.previous.filter fun f => f.1 ∈ patchKeys }

end Items

end Semprec
