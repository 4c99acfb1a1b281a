import Semprec.Rollup

/-!
# Relation edges

Linking, re-linking and unlinking two items, with the checks that run before the write.  A relation
property names the caller's side of its relation definition; an edge is stored once, its ends in
the order of the definition's sides.
-/

namespace Semprec

structure RelationEdgeContext where
  reldef : RelationDefinitionRow
  property : PropertyRow
  targetDatabaseId : ℕ

structure SystemRelationWriteContext where
  ownerProcess : String

structure CreateRelationInput where
  relationPropertyId : ℕ
  callerItemId : ℕ
  targetItemId : ℕ
  metadata : Option JsonObject

structure UpdateRelationInput where
  relationPropertyId : ℕ
  callerItemId : ℕ
  targetItemId : ℕ
  metadata : JsonObject

structure DeleteRelationInput where
  relationPropertyId : ℕ
  callerItemId : ℕ
  targetItemId : ℕ

def Cardinality.name : Cardinality → String
  | .one_to_one => "one_to_one"
  | .one_to_many => "one_to_many"
  | .many_to_many => "many_to_many"

abbrev RelationEdgeWriteHook :=
  Store → RelationEdgeContext → ℕ → ℕ → Option JsonObject → Except Failure Unit

namespace Relations

open TxState Rollup

/-! ## Checks -/

def loadRelationEdgeContext (s : Store) (relationPropertyId : ℕ) :
    Except Failure RelationEdgeContext := do
  let property ← match s.getProperty relationPropertyId with
    | some property =>
      if property.type = .relation then .ok property
      else .error (.validationError s!"{relationPropertyId} is not a relation property"
        (fieldDetails "relationPropertyId"))
    | none => .error (.validationError s!"{relationPropertyId} is not a relation property"
        (fieldDetails "relationPropertyId"))
  match property.config.relationDefinitionId, property.config.targetDatabaseId with
  | some relationDefinitionId, some targetDatabaseId =>
    match s.getRelationDefinition relationDefinitionId with
    | some reldef =>
      if reldef.propertyIdA = relationPropertyId ∨ reldef.propertyIdB = some relationPropertyId then
        return { reldef, property, targetDatabaseId }
      else .error (.validationError
        s!"Relation property {relationPropertyId} has no matching relation definition"
        (fieldDetails "relationPropertyId"))
    | none => .error (.validationError
        s!"Relation property {relationPropertyId} has no matching relation definition"
        (fieldDetails "relationPropertyId"))
  | _, _ => .error (.validationError
      s!"Relation property {relationPropertyId} is missing a valid relationDefinitionId/targetDatabaseId"
      (fieldDetails "relationPropertyId"))

def normalizeRelationSides (reldef : RelationDefinitionRow)
    (relationPropertyId callerItemId targetItemId : ℕ) : ℕ × ℕ :=
  if reldef.propertyIdA = relationPropertyId then (callerItemId, targetItemId)
  else (targetItemId, callerItemId)

def assertRelationPropertyWritable (property : PropertyRow)
    (context : Option SystemRelationWriteContext) : Except Failure Unit :=
  let id := property.id
  if property.owner = .system ∧
      (context.isNone ∨ context.map (·.ownerProcess) ≠ property.ownerProcess) then
    .error (.forbiddenError
      s!"Relation property {id} is owned by 'system' and cannot be written by this caller"
      (fieldDetails "relationPropertyId") "owner_violation")
  else .ok ()

def assertRelationDatabasesNotArchived (s : Store) (context : RelationEdgeContext) :
    Except Failure Unit := do
  s.assertDatabaseNotArchived context.property.databaseId
  s.assertDatabaseNotArchived context.targetDatabaseId

def assertRelationEndpointValid (s : Store) (databaseId itemId : ℕ) (field : String) :
    Except Failure Unit :=
  match s.getItemById databaseId itemId with
  | some item =>
    if item.deletedAt.isNone then .ok ()
    else .error (.validationError
      s!"Relation endpoint {itemId} does not exist, is deleted, or is not in database {databaseId}"
      (fieldDetails field))
  | none => .error (.validationError
      s!"Relation endpoint {itemId} does not exist, is deleted, or is not in database {databaseId}"
      (fieldDetails field))

def assertRelationEndpointsValid (s : Store) (context : RelationEdgeContext)
    (callerItemId targetItemId : ℕ) : Except Failure Unit := do
  assertRelationEndpointValid s context.property.databaseId callerItemId "callerItemId"
  assertRelationEndpointValid s context.targetDatabaseId targetItemId "targetItemId"

def loadCreatableRelationEdgeContext (hook : RelationEdgeWriteHook) (s : Store)
    (relationPropertyId callerItemId targetItemId : ℕ) (metadata : Option JsonObject)
    (context : Option SystemRelationWriteContext) : Except Failure RelationEdgeContext := do
  let edgeContext ← loadRelationEdgeContext s relationPropertyId
  assertRelationDatabasesNotArchived s edgeContext
  assertRelationPropertyWritable edgeContext.property context
  assertRelationEndpointsValid s edgeContext callerItemId targetItemId
  hook s edgeContext callerItemId targetItemId metadata
  return edgeContext

/-! ## The `item_relations` statements -/

/-- Whether another edge of the definition stands in the way of this one: the trigger
`enforce_relation_cardinality`. -/
def cardinalityConflict (s : Store) (definition : RelationDefinitionRow) (itemA itemB : ℕ) : Bool :=
  s.itemRelations.any fun e =>
    e.relationDefinitionId = definition.id && !(e.itemA = itemA && e.itemB = itemB) &&
      match definition.cardinality with
      | .one_to_one => e.itemA = itemA || e.itemB = itemB
      | .one_to_many => e.itemB = itemB
      | .many_to_many => false

def isEdge (relationDefinitionId itemA itemB : ℕ) (e : ItemRelationRow) : Bool :=
  e.relationDefinitionId = relationDefinitionId ∧ e.itemA = itemA ∧ e.itemB = itemB

/-- `INSERT … ON CONFLICT … DO UPDATE SET metadata`. -/
def upsertEdge (relationDefinitionId itemA itemB : ℕ) (metadata : JsonObject) (s : Store) :
    ItemRelationRow × Store :=
  match s.itemRelations.find? (isEdge relationDefinitionId itemA itemB) with
  | some e =>
    ({ e with metadata },
      { s with
        itemRelations := s.itemRelations.map fun e =>
          if isEdge relationDefinitionId itemA itemB e then { e with metadata } else e })
  | none =>
    let e : ItemRelationRow := { id := s.nextId, relationDefinitionId, itemA, itemB, metadata }
    (e, { s with itemRelations := s.itemRelations ++ [e], nextId := s.nextId + 1 })

def assertCardinality (s : Store) (relationDefinitionId itemA itemB : ℕ) : Except Failure Unit :=
  match s.getRelationDefinition relationDefinitionId with
  | none => .error (.notFoundError s!"Relation definition {relationDefinitionId} not found" none)
  | some definition =>
    let cardinality := definition.cardinality.name
    if cardinalityConflict s definition itemA itemB then
      .error (.cardinalityViolationError
        (s!"Relation {relationDefinitionId} ({cardinality}) rejected item_a={itemA}/" ++
          s!"item_b={itemB}: cardinality violation")
        (some (.obj [("relationDefinitionId", idJson relationDefinitionId),
          ("cardinality", .str cardinality), ("itemA", idJson itemA), ("itemB", idJson itemB)])))
    else .ok ()

def createItemRelation (relationDefinitionId itemA itemB : ℕ) (metadata : Option JsonObject) :
    Tx TxState Failure ItemRelationRow := do
  check fun s => assertCardinality s relationDefinitionId itemA itemB
  statement (upsertEdge relationDefinitionId itemA itemB (metadata.getD []))

def updateItemRelationMetadata (relationDefinitionId itemA itemB : ℕ) (metadata : JsonObject)
    (s : Store) : Option ItemRelationRow × Store :=
  ((s.itemRelations.find? (isEdge relationDefinitionId itemA itemB)).map fun e =>
      { e with metadata },
    { s with
      itemRelations := s.itemRelations.map fun e =>
        if isEdge relationDefinitionId itemA itemB e then { e with metadata } else e })

def deleteItemRelation (relationDefinitionId itemA itemB : ℕ) (s : Store) :
    Option ItemRelationRow × Store :=
  (s.itemRelations.find? (isEdge relationDefinitionId itemA itemB),
    { s with
      itemRelations := s.itemRelations.filter fun e => !isEdge relationDefinitionId itemA itemB e })

/-! ## Operations -/

variable (hook : RelationEdgeWriteHook)

def createRelationWithClient (input : CreateRelationInput)
    (context : Option SystemRelationWriteContext) : Tx TxState Failure ItemRelationRow := do
  let edgeContext ← check fun s => loadCreatableRelationEdgeContext hook s
    input.relationPropertyId input.callerItemId input.targetItemId input.metadata context
  let sides := normalizeRelationSides edgeContext.reldef input.relationPropertyId
    input.callerItemId input.targetItemId
  let edge ← createItemRelation edgeContext.reldef.id sides.1 sides.2 input.metadata
  enqueueRollupRecomputeForEdge edgeContext.reldef.id sides.1 sides.2
  return edge

def edgeNotFound (relationPropertyId callerItemId targetItemId : ℕ) : Failure :=
  .notFoundError "Relation edge not found" (some (.obj [("resource", .str "relationEdge"),
    ("relationPropertyId", idJson relationPropertyId), ("callerItemId", idJson callerItemId),
    ("targetItemId", idJson targetItemId)]))

def updateRelationWithClient (input : UpdateRelationInput)
    (context : Option SystemRelationWriteContext) : Tx TxState Failure ItemRelationRow := do
  let edgeContext ← check fun s => loadCreatableRelationEdgeContext hook s
    input.relationPropertyId input.callerItemId input.targetItemId (some input.metadata) context
  let sides := normalizeRelationSides edgeContext.reldef input.relationPropertyId
    input.callerItemId input.targetItemId
  let edge ← statement
    (updateItemRelationMetadata edgeContext.reldef.id sides.1 sides.2 input.metadata)
  match edge with
  | none =>
    .throw (edgeNotFound input.relationPropertyId input.callerItemId input.targetItemId)
  | some edge =>
    enqueueRollupRecomputeForEdge edgeContext.reldef.id sides.1 sides.2
    return edge

/-- The checks of an unlink: the ends need not be live. -/
def loadDeletableRelationEdgeContext (s : Store) (relationPropertyId : ℕ)
    (context : Option SystemRelationWriteContext) : Except Failure RelationEdgeContext := do
  let edgeContext ← loadRelationEdgeContext s relationPropertyId
  assertRelationDatabasesNotArchived s edgeContext
  assertRelationPropertyWritable edgeContext.property context
  return edgeContext

def deleteRelationWithClient (input : DeleteRelationInput)
    (context : Option SystemRelationWriteContext) :
    Tx TxState Failure (Option ItemRelationRow) := do
  let edgeContext ← check fun s =>
    loadDeletableRelationEdgeContext s input.relationPropertyId context
  let sides := normalizeRelationSides edgeContext.reldef input.relationPropertyId
    input.callerItemId input.targetItemId
  let edge ← statement (deleteItemRelation edgeContext.reldef.id sides.1 sides.2)
  enqueueRollupRecomputeForEdge edgeContext.reldef.id sides.1 sides.2
  return edge

end Relations

end Semprec
