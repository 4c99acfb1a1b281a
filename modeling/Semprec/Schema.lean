import Semprec.Trash

/-!
# Schema operations

Creating, archiving and restoring databases; creating, reconfiguring, retyping and deleting
properties; creating a relation property with its inverse and their relation definition; deleting
views.
-/

namespace Semprec

structure CreateDatabaseInput where
  name : Option String
  key : Option String
  parentItemId : Option ℕ
  ownerProjectItemId : Option ℕ
  ownerModuleId : Option String
  schemaLocked : Bool
  system : Bool

structure CreatePropertyInput where
  databaseId : ℕ
  key : String
  name : Option String
  type : PropertyType
  config : PropertyConfig
  locked : Bool
  owner : PropertyOwner
  ownerProcess : Option String

structure RelationPropertySideInput where
  key : String
  name : Option String
  owner : PropertyOwner
  ownerProcess : Option String
  locked : Bool

structure CreateRelationPropertyInput where
  sourceDatabaseId : ℕ
  source : RelationPropertySideInput
  targetDatabaseId : ℕ
  cardinality : Cardinality
  inverse : Option RelationPropertySideInput

structure Actor where
  type : CreatedBy
  agentProjectItemId : Option ℕ

namespace Schema

open TxState Rollup

/-! ## Databases -/

/-- A name or a key that is absent or empty. -/
def missing (name : Option String) : Bool := name.all fun n => n = ""

def assertCreatableDatabase (s : Store) (input : CreateDatabaseInput) : Except Failure Unit := do
  if !input.system && missing input.name then
    .error (.validationError "name is required for a non-system database" (fieldDetails "name"))
  if !missing input.key && !input.system then
    .error (.validationError "key is only valid for system databases" (fieldDetails "key"))
  if input.system && missing input.name && missing input.key then
    .error (.validationError "key is required for a system database with a null name"
      (fieldDetails "key"))
  if input.parentItemId.any fun id => s.getItemsByIds [id] = [] then
    .error (.validationError "'parentItemId' does not reference an existing item"
      (fieldDetails "parentItemId"))
  if input.key.any fun key => s.databases.any fun d => d.key = some key then
    let key := input.key.getD ""
    .error (.conflictError s!"Database key '{key}' is already in use" (fieldDetails "key"))

def insertDatabase (input : CreateDatabaseInput) (s : Store) : DatabaseRow × Store :=
  let database : DatabaseRow :=
    { id := s.nextId
      key := input.key
      name := input.name
      parentItemId := input.parentItemId
      ownerProjectItemId := input.ownerProjectItemId
      ownerModuleId := input.ownerModuleId
      schemaLocked := input.schemaLocked
      system := input.system
      archivedAt := none }
  (database, { s with databases := s.databases ++ [database], nextId := s.nextId + 1 })

def createDatabase (input : CreateDatabaseInput) : Tx TxState Failure DatabaseRow := do
  check fun s => assertCreatableDatabase s input
  statement (insertDatabase input)

def setArchivedAt (id : ℕ) (archivedAt : Option ℤ) (s : Store) : Store :=
  { s with
    databases := s.databases.map fun d => if d.id = id then { d with archivedAt } else d }

def assertArchivable (s : Store) (id : ℕ) : Except Failure DatabaseRow := do
  let database ← s.requireDatabase id
  if database.system then
    .error (.forbiddenError "A system database cannot be archived" none "forbidden")
  else return database

def databaseArchiveWithClient (env : Env) (id : ℕ) : Tx TxState Failure DatabaseRow := do
  let database ← check fun s => assertArchivable s id
  execute (setArchivedAt id (some env.now))
  return { database with archivedAt := some env.now }

def renameDatabase (id : ℕ) (name : String) : Tx TxState Failure DatabaseRow := do
  let database ← check fun s => s.requireDatabase id
  execute fun s => { s with
    databases := s.databases.map fun d => if d.id = id then { d with name := some name } else d }
  return { database with name := some name }

def restoreDatabase (id : ℕ) : Tx TxState Failure DatabaseRow := do
  let database ← check fun s => s.requireDatabase id
  execute (setArchivedAt id none)
  return { database with archivedAt := none }

/-! ## Properties -/

/-- A `select` option: `{ key, label? }`. -/
def isSelectOption : Json → Except Failure Unit
  | .obj option =>
    match JsonObject.get? option "key", JsonObject.get? option "label" with
    | some (.str key), label =>
      if key = "" then .error (.validationError
        "each select/multi_select option requires a non-empty string 'key'" (fieldDetails "config"))
      else match label with
        | none | some (.str _) => .ok ()
        | some _ => .error (.validationError
            "a select/multi_select option's 'label' must be a string when present"
            (fieldDetails "config"))
    | _, _ => .error (.validationError
        "each select/multi_select option requires a non-empty string 'key'" (fieldDetails "config"))
  | _ => .error (.validationError
      "each select/multi_select option must be an object of shape \x7b key, label? \x7d"
      (fieldDetails "config"))

def assertValidSelectOptions (type : PropertyType) (config : PropertyConfig) :
    Except Failure Unit :=
  if type ≠ .select ∧ type ≠ .multi_select then .ok ()
  else match config.options with
    | none => .ok ()
    | some (.arr options) => options.forM isSelectOption
    | some _ => .error (.validationError "select/multi_select config.options must be an array"
        (fieldDetails "config"))

def hasOption (options : Option Json) (key : String) : Bool :=
  match options with
  | some (.arr options) => options.any fun option =>
    match option with
    | .obj fields => Items.stringValue (JsonObject.get? fields "key") = some key
    | _ => false
  | _ => false

def isValidDefault (type : PropertyType) (config : PropertyConfig) (value : Json) : Bool :=
  match type, value with
  | .select, .str key | .multi_select, .str key => hasOption config.options key
  | .checkbox, .bool _ => true
  | .number, .num _ => true
  | .text, .str _ => true
  | .date, .str value => value = "today" && !config.includeTime
  | _, _ => false

def assertValidPropertyConfig (type : PropertyType) (config : PropertyConfig) :
    Except Failure Unit := do
  assertValidSelectOptions type config
  if config.default.any fun value => !isValidDefault type config value then
    .error (.validationError "Default does not match the property type or config"
      (fieldDetails "config"))

def assertDatabaseSchemaUnlocked (s : Store) (databaseId : ℕ) : Except Failure DatabaseRow := do
  let database ← s.requireDatabase databaseId
  if database.schemaLocked then
    .error (.schemaLockedError
      "The owning database's schema is locked; only a code-level migration may change it")
  else return database

def assertPropertySchemaMutable (s : Store) (property : PropertyRow) : Except Failure Unit :=
  let id := property.id
  if property.locked then
    .error (.propertyLockedError s!"Property {id} is locked; its schema cannot be changed")
  else (assertDatabaseSchemaUnlocked s property.databaseId).map fun _ => ()

def assertCreatableProperty (input : CreatePropertyInput) (s : Store) : Except Failure Unit := do
  let key := input.key
  let databaseId := input.databaseId
  let database ← assertDatabaseSchemaUnlocked s databaseId
  if !database.system && missing input.name then
    .error (.validationError "name is required for a property of a non-system database"
      (fieldDetails "name"))
  assertValidPropertyConfig input.type input.config
  if s.properties.any fun p => p.databaseId = databaseId ∧ p.key = key then
    .error (.conflictError s!"Property key '{key}' already exists in database {databaseId}"
      (some (.obj [("field", .str "key"), ("reason", .str "duplicate")])))

def insertProperty (input : CreatePropertyInput) (s : Store) : PropertyRow × Store :=
  let property : PropertyRow :=
    { id := s.nextId
      databaseId := input.databaseId
      key := input.key
      name := input.name
      type := input.type
      config := input.config
      locked := input.locked
      owner := input.owner
      ownerProcess := input.ownerProcess
      migrationStatus := .stable }
  (property, { s with properties := s.properties ++ [property], nextId := s.nextId + 1 })

/-- `propertiesStore.createProperty`. -/
def insertCheckedProperty (input : CreatePropertyInput) : Tx TxState Failure PropertyRow := do
  check (assertCreatableProperty input)
  statement (insertProperty input)

def assertNoComputedKeyCollision (computedKeys : List String) (key : String) :
    Except Failure Unit :=
  if key ∈ computedKeys then
    .error (.validationError s!"Property key '{key}' collides with a declared module cache key"
      (fieldDetails key))
  else .ok ()

def createProperty (computedKeys : List String) (input : CreatePropertyInput) :
    Tx TxState Failure PropertyRow := do
  check fun _ => assertNoComputedKeyCollision computedKeys input.key
  let property ← insertCheckedProperty input
  if input.type = .rollup then
    applyRollupConfig property
    enqueueRollupBackfill property.id
  return property

def setProperty (id : ℕ) (set : PropertyRow → PropertyRow) (s : Store) : Store :=
  { s with properties := s.properties.map fun p => if p.id = id then set p else p }

def renameProperty (id : ℕ) (name : String) : Tx TxState Failure PropertyRow := do
  let property ← check fun s => s.requireProperty id
  execute (setProperty id fun p => { p with name := some name })
  return { property with name := some name }

/-- `propertiesStore.updatePropertyConfig`. -/
def writePropertyConfig (id : ℕ) (config : PropertyConfig) : Tx TxState Failure PropertyRow := do
  let property ← check fun s => s.requireProperty id
  check fun s => assertPropertySchemaMutable s property
  check fun _ => assertValidPropertyConfig property.type config
  execute (setProperty id fun p => { p with config })
  return { property with config }

def updatePropertyConfigWithClient (id : ℕ) (config : PropertyConfig) :
    Tx TxState Failure PropertyRow := do
  let property ← writePropertyConfig id config
  if property.type = .rollup then
    applyRollupConfig property
    enqueueRollupBackfill property.id
  return property

def isConversionSupported (source target : PropertyType) : Bool :=
  source = target || (source, target) ∈
    [(PropertyType.text, PropertyType.number), (.text, .date), (.number, .text), (.date, .text)]

def assertRetypeAllowed (property : PropertyRow) (newType : PropertyType) (s : Store) :
    Except Failure Unit := do
  if property.type = .relation ∨ newType = .relation ∨ property.type = .rollup ∨
      newType = .rollup then
    .error (.validationError
      "Retyping into or out of 'relation'/'rollup' is not supported via changePropertyType"
      (fieldDetails "type"))
  assertSourceRetypeAllowed s property.databaseId property.key newType
  if !isConversionSupported property.type newType then
    let source := property.type.name
    let target := newType.name
    .error (.validationError
      s!"No conversion path from '{source}' to '{target}'; create a new property instead"
      (fieldDetails "type"))

def changePropertyTypeWithClient (id : ℕ) (newType : PropertyType)
    (config : Option PropertyConfig) : Tx TxState Failure PropertyRow := do
  let property ← check fun s => match s.getProperty id with
    | some property => .ok property
    | none => .error (.validationError s!"Property {id} not found" none)
  if property.type = newType then return property
  else
    check (assertRetypeAllowed property newType)
    check fun s => assertPropertySchemaMutable s property
    let finalConfig := config.getD property.config
    check fun _ => assertValidPropertyConfig newType finalConfig
    execute (setProperty id fun p =>
      { p with type := newType, migrationStatus := .pending, config := finalConfig })
    enqueueJob (.propertyTypeMigration id property.type)
    return { property with type := newType, migrationStatus := .pending, config := finalConfig }

structure UpdatePropertyInput where
  name : Option String
  config : Option PropertyConfig
  type : Option PropertyType

def assertUpdatableProperty (id : ℕ) (input : UpdatePropertyInput) (property : PropertyRow) :
    Except Failure Unit := do
  if input.name.isNone && input.config.isNone && input.type.isNone then
    .error (.validationError "Patch must include at least one field"
      (some (.obj [("reason", .str "empty_patch")])))
  if property.type = .relation && (input.type.isSome || input.config.isSome) then
    let field := if input.type.isSome then "type" else "config"
    .error (.validationError
      s!"Property {id} is a relation; {field} is changed only via its relation definition"
      (some (.obj [("field", .str field), ("reason", .str "relation_definition_required")])))

def updatePropertyWithClient (id : ℕ) (input : UpdatePropertyInput) :
    Tx TxState Failure PropertyRow := do
  let property ← check fun s => s.requireProperty id
  check fun _ => assertUpdatableProperty id input property
  let property ← match input.name with
    | some name => renameProperty id name
    | none => pure property
  match input.type.filter fun type => type ≠ property.type with
  | some type => changePropertyTypeWithClient id type input.config
  | none =>
    match input.config with
    | some config => updatePropertyConfigWithClient id config
    | none => return property

/-- `propertiesStore.deleteProperty`. -/
def deletePropertyRow (id : ℕ) : Tx TxState Failure Unit := do
  let property ← check fun s => s.requireProperty id
  check fun s => assertPropertySchemaMutable s property
  execute (Trash.deleteProperties fun p => p.id = id)

def otherPropertyId (reldef : RelationDefinitionRow) (id : ℕ) : Option ℕ :=
  if reldef.propertyIdA = id then reldef.propertyIdB else some reldef.propertyIdA

def assertPairedUnlocked (s : Store) (otherPropertyId : ℕ) : Except Failure Unit :=
  if (s.getProperty otherPropertyId).any fun p => p.locked then
    .error (.forbiddenError
      s!"Cannot delete: the paired relation property {otherPropertyId} is locked" none "forbidden")
  else .ok ()

def deletePairedProperty (reldef : RelationDefinitionRow) (id : ℕ) : Tx TxState Failure Unit := do
  check fun s => assertRelationDeletable s reldef.id
  match otherPropertyId reldef id with
  | none => return
  | some otherPropertyId =>
    check fun s => assertPairedUnlocked s otherPropertyId
    deletePropertyRow otherPropertyId

def propertyDeleteWithClient (id : ℕ) : Tx TxState Failure PropertyRow := do
  let property ← check fun s => s.requireProperty id
  if property.type = .relation then
    let reldef ← select fun s => s.getRelationDefinitionByPropertyId id
    match reldef with
    | none => pure ()
    | some reldef => deletePairedProperty reldef id
  else check fun s => assertSourceDeletable s property.databaseId property.key
  deletePropertyRow id
  return property

/-! ## Relation properties -/

def assertValidOwnerSide (side : RelationPropertySideInput) (field : String) :
    Except Failure Unit :=
  match side.owner with
  | .system =>
    if missing side.ownerProcess then
      .error (.validationError
        s!"{field}.ownerProcess is required and non-empty when {field}.owner is 'system'"
        (fieldDetails s!"{field}.ownerProcess"))
    else .ok ()
  | .user =>
    if side.ownerProcess.isSome then
      .error (.validationError
        s!"{field}.ownerProcess must be omitted unless {field}.owner is 'system'"
        (fieldDetails s!"{field}.ownerProcess"))
    else .ok ()

def assertRelationSideCreatable (side : RelationPropertySideInput)
    (context : Option SystemRelationWriteContext) (field : String) : Except Failure Unit :=
  if side.owner = .system ∧
      (context.isNone ∨ context.map (·.ownerProcess) ≠ side.ownerProcess) then
    .error (.forbiddenError
      s!"Creating {field} as owner:'system' requires a matching SystemRelationWriteContext"
      (fieldDetails field) "owner_violation")
  else .ok ()

def assertRelationSide (context : Option SystemRelationWriteContext) (field : String)
    (side : RelationPropertySideInput) : Except Failure Unit := do
  assertValidOwnerSide side field
  assertRelationSideCreatable side context field

def relationSideProperty (databaseId : ℕ) (side : RelationPropertySideInput) :
    CreatePropertyInput where
  databaseId := databaseId
  key := side.key
  name := side.name
  type := .relation
  config := .empty
  locked := false
  owner := side.owner
  ownerProcess := side.ownerProcess

def insertRelationDefinition (propertyIdA : ℕ) (propertyIdB : Option ℕ)
    (cardinality : Cardinality) (s : Store) : RelationDefinitionRow × Store :=
  let reldef : RelationDefinitionRow := { id := s.nextId, propertyIdA, propertyIdB, cardinality }
  (reldef, { s with
    relationDefinitions := s.relationDefinitions ++ [reldef]
    nextId := s.nextId + 1 })

/-- What both sides' configuration names. -/
def relationConfig (relationDefinitionId targetDatabaseId : ℕ) : PropertyConfig :=
  { PropertyConfig.empty with
    relationDefinitionId := some relationDefinitionId
    targetDatabaseId := some targetDatabaseId }

def lockSide (locked : Bool) (property : PropertyRow) : Tx TxState Failure PropertyRow :=
  if locked then do
    execute (setProperty property.id fun p => { p with locked := true })
    return { property with locked := true }
  else return property

def assertRelationPropertyCreatable (computedKeys : List String)
    (context : Option SystemRelationWriteContext) (input : CreateRelationPropertyInput)
    (s : Store) : Except Failure Unit := do
  let targetDatabaseId := input.targetDatabaseId
  assertNoComputedKeyCollision computedKeys input.source.key
  input.inverse.toList.forM fun inverse => assertNoComputedKeyCollision computedKeys inverse.key
  assertRelationSide context "source" input.source
  input.inverse.toList.forM (assertRelationSide context "inverse")
  if (s.getDatabase targetDatabaseId).isNone then
    .error (.validationError s!"Target database {targetDatabaseId} does not exist"
      (fieldDetails "targetDatabaseId"))

def createInverseProperty (input : CreateRelationPropertyInput) :
    Tx TxState Failure (Option PropertyRow) :=
  match input.inverse with
  | none => return none
  | some inverse => do
    let property ← insertCheckedProperty (relationSideProperty input.targetDatabaseId inverse)
    return some property

def configureInverse (inverseProperty : Option PropertyRow) (config : PropertyConfig) :
    Tx TxState Failure (Option PropertyRow) :=
  match inverseProperty with
  | none => return none
  | some property => do
    let property ← writePropertyConfig property.id config
    return some property

def lockInverse (locked : Bool) (inverseProperty : Option PropertyRow) :
    Tx TxState Failure (Option PropertyRow) :=
  match inverseProperty with
  | none => return none
  | some property => do
    let property ← lockSide locked property
    return some property

def createRelationPropertyWithClient (computedKeys : List String)
    (input : CreateRelationPropertyInput) (context : Option SystemRelationWriteContext) :
    Tx TxState Failure (PropertyRow × Option PropertyRow) := do
  check (assertRelationPropertyCreatable computedKeys context input)
  let property ← insertCheckedProperty (relationSideProperty input.sourceDatabaseId input.source)
  let inverseProperty ← createInverseProperty input
  let reldef ← statement (insertRelationDefinition property.id
    (inverseProperty.map fun p => p.id) input.cardinality)
  let property ←
    writePropertyConfig property.id (relationConfig reldef.id input.targetDatabaseId)
  let inverseProperty ← configureInverse inverseProperty
    (relationConfig reldef.id input.sourceDatabaseId)
  let property ← lockSide input.source.locked property
  let inverseProperty ← lockInverse (input.inverse.any fun side => side.locked) inverseProperty
  return (property, inverseProperty)

/-! ## Views -/

def projectsModuleId : String := "projects"

def agentIdentityError (message reason : String) : Failure :=
  .forbiddenError message
    (some (.obj [("field", .str "agentProjectItemId"), ("reason", .str reason)])) "owner_violation"

def assertAuthenticatedAgentIdentity (s : Store) (actor : Actor) : Except Failure Unit :=
  if actor.type ≠ .ai_agent then .ok ()
  else match actor.agentProjectItemId with
    | none => .error (agentIdentityError "An agent actor requires actor.agentProjectItemId"
        "missing_authenticated_agent_identity")
    | some itemId => do
      match ← s.getDatabaseByModuleId projectsModuleId with
      | none => .error (agentIdentityError
          ("The Projects system database does not exist, " ++
            "so no agent identity can be verified") "unknown_authenticated_agent_identity")
      | some database =>
        if (s.getItemById database.id itemId).any fun item => item.deletedAt.isNone then .ok ()
        else .error (agentIdentityError s!"Projects item {itemId} does not exist"
          "unknown_authenticated_agent_identity")

def ownerViolation (view : ViewRow) (reason : String) : Failure :=
  let id := view.id
  .forbiddenError s!"View {id} write rejected by owner_violation: {reason}"
    (some (.obj [("field", .str "creatorProjectItemId"), ("viewId", idJson id),
      ("reason", .str reason)])) "owner_violation"

def assertViewWritable (view : ViewRow) (actor : Actor) : Except Failure Unit :=
  if actor.type ≠ .ai_agent then .ok ()
  else match view.createdBy with
    | .system => .error (ownerViolation view "system_owned")
    | .user => .error (ownerViolation view "user_owned")
    | .ai_agent =>
      if view.creatorProjectItemId.isNone then
        .error (ownerViolation view "legacy_creator_unknown")
      else if view.creatorProjectItemId ≠ actor.agentProjectItemId then
        .error (ownerViolation view "creator_mismatch")
      else .ok ()

def requireView (s : Store) (id : ℕ) : Except Failure ViewRow :=
  match s.getView id with
  | some view => .ok view
  | none => .error (.notFoundError s!"View {id} not found" none)

def viewDeleteWithClient (id : ℕ) (actor : Actor) : Tx TxState Failure ViewRow := do
  check fun s => assertAuthenticatedAgentIdentity s actor
  let view ← check fun s => requireView s id
  check fun _ => assertViewWritable view actor
  execute fun s => s.deleteView id
  return view

end Schema

end Semprec
