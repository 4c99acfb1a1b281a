import Semprec.Postgres
import Semprec.Store

/-!
# Rollups

A rollup property's configuration, its row in `rollup_dependencies`, the query that computes one
cell, and which cells an edge's recompute jobs are enqueued for.
-/

namespace Semprec

inductive RollupAggregation where
  | count
  | count_filled
  | count_empty
  | percent_filled
  | percent_empty
  | sum
  | avg
  | min
  | max
  | earliest
  | latest
deriving DecidableEq

structure RollupConfig where
  relationPropertyKey : String
  targetPropertyKey : Option String
  aggregation : RollupAggregation

namespace Rollup

open TxState

/-! ## Configuration -/

def rollupAggregations : List (String × RollupAggregation) :=
  [("count", .count), ("count_filled", .count_filled), ("count_empty", .count_empty),
    ("percent_filled", .percent_filled), ("percent_empty", .percent_empty), ("sum", .sum),
    ("avg", .avg), ("min", .min), ("max", .max), ("earliest", .earliest), ("latest", .latest)]

def RollupAggregation.name (a : RollupAggregation) : String :=
  ((rollupAggregations.find? fun f => f.2 = a).map Prod.fst).getD ""

def parseRollupConfig (raw : PropertyConfig) : Except Failure RollupConfig := do
  let relationPropertyKey ← match raw.relationPropertyKey with
    | none | some "" => .error (.validationError
        "rollup config.relationPropertyKey must be a non-empty string"
        (fieldDetails "relationPropertyKey"))
    | some key => .ok key
  let aggregation ← match raw.aggregation.bind fun name => rollupAggregations.lookup name with
    | none => .error (.validationError
        ("rollup config.aggregation must be one of " ++
          ", ".intercalate (rollupAggregations.map Prod.fst))
        (fieldDetails "aggregation"))
    | some aggregation => .ok aggregation
  let targetPropertyKey ← match raw.targetPropertyKey with
    | .invalid => .error (.validationError "rollup config.targetPropertyKey must be a string"
        (fieldDetails "targetPropertyKey"))
    | .absent => .ok none
    | .key key => .ok (some key)
  return { relationPropertyKey, targetPropertyKey, aggregation }

def numberOnly (a : RollupAggregation) : Bool := a = .sum ∨ a = .avg ∨ a = .min ∨ a = .max

def dateOnly (a : RollupAggregation) : Bool := a = .earliest ∨ a = .latest

def noTarget (a : RollupAggregation) : Bool := a = .count

def assertTargetTypeCompatible (aggregation : RollupAggregation) (targetType : PropertyType) :
    Except Failure Unit := do
  if numberOnly aggregation && targetType ≠ .number then
    .error (.validationError
      s!"aggregation '{RollupAggregation.name aggregation}' requires a number targetPropertyKey"
      (fieldDetails "targetPropertyKey"))
  if dateOnly aggregation && targetType ≠ .date then
    .error (.validationError
      s!"aggregation '{RollupAggregation.name aggregation}' requires a date targetPropertyKey"
      (fieldDetails "targetPropertyKey"))

structure ValidatedRollupConfig where
  config : RollupConfig
  relationProperty : PropertyRow
  targetProperty : Option PropertyRow

def validateRollupConfig (raw : PropertyConfig)
    (sameDatabaseProperties targetDatabaseProperties : List PropertyRow) :
    Except Failure ValidatedRollupConfig := do
  let config ← parseRollupConfig raw
  let relationPropertyKey := config.relationPropertyKey
  let relationProperty ←
    match sameDatabaseProperties.find? fun p => p.key = relationPropertyKey with
    | some p =>
      if p.type = .relation then .ok p
      else .error (.validationError
        s!"relationPropertyKey '{relationPropertyKey}' must be a relation property of the same database"
        (fieldDetails "relationPropertyKey"))
    | none => .error (.validationError
        s!"relationPropertyKey '{relationPropertyKey}' must be a relation property of the same database"
        (fieldDetails "relationPropertyKey"))
  if noTarget config.aggregation then
    return { config, relationProperty, targetProperty := none }
  let targetPropertyKey ← match config.targetPropertyKey with
    | none | some "" => .error (.validationError
        s!"aggregation '{RollupAggregation.name config.aggregation}' requires targetPropertyKey"
        (fieldDetails "targetPropertyKey"))
    | some key => .ok key
  match targetDatabaseProperties.find? fun p => p.key = targetPropertyKey with
  | none => .error (.validationError
      s!"targetPropertyKey '{targetPropertyKey}' not found in the relation's target database"
      (fieldDetails "targetPropertyKey"))
  | some targetProperty =>
    if targetProperty.type = .rollup ∨ targetProperty.type = .relation then
      .error (.validationError
        "targetPropertyKey must not itself be a rollup or relation property (no transitive chains)"
        (fieldDetails "targetPropertyKey"))
    assertTargetTypeCompatible config.aggregation targetProperty.type
    return { config, relationProperty, targetProperty := some targetProperty }

def rollupDependency (s : Store) (property : PropertyRow) : Except Failure RollupDependencyRow := do
  let sameDatabaseProperties := s.listPropertiesByDatabase property.databaseId
  let relationProperty := property.config.relationPropertyKey.bind fun key =>
    sameDatabaseProperties.find? fun p => p.key = key
  let targetDatabaseId := relationProperty.bind fun p => p.config.targetDatabaseId
  let targetDatabaseProperties := match targetDatabaseId with
    | some id => s.listPropertiesByDatabase id
    | none => []
  let validated ←
    validateRollupConfig property.config sameDatabaseProperties targetDatabaseProperties
  let relationKey := validated.relationProperty.key
  let reldef ← match s.getRelationDefinitionByPropertyId validated.relationProperty.id with
    | some reldef => .ok reldef
    | none => .error (.validationError
        s!"Relation property '{relationKey}' has no relation definition"
        (fieldDetails "relationPropertyKey"))
  let sourceDatabaseId ← match targetDatabaseId with
    | some id => .ok id
    | none => .error (.validationError "Relation property has no targetDatabaseId in config"
        (fieldDetails "relationPropertyKey"))
  return {
    rollupPropertyId := property.id
    relationDefinitionId := reldef.id
    sourceDatabaseId := sourceDatabaseId
    sourcePropertyKey := validated.targetProperty.map fun p => p.key }

def applyRollupConfig (property : PropertyRow) : Tx TxState Failure Unit := do
  let dependency ← check fun s => rollupDependency s property
  execute fun s => s.upsertRollupDependency dependency

/-! ## Lifecycle of what a rollup reads -/

def dependentRollups (dependents : List RollupDependencyRow) : Option Json :=
  some (.obj [("dependentRollups", .arr (dependents.map fun d => idJson d.rollupPropertyId))])

def assertRelationDeletable (s : Store) (relationDefinitionId : ℕ) : Except Failure Unit :=
  let dependents := s.findDependenciesByRelationDefinition relationDefinitionId
  if dependents = [] then .ok ()
  else .error (.validationError
    "Cannot delete a relation property that dependent rollups still reference"
    (dependentRollups dependents))

def assertSourceDeletable (s : Store) (sourceDatabaseId : ℕ) (sourcePropertyKey : String) :
    Except Failure Unit :=
  let dependents := s.findDependenciesBySource sourceDatabaseId sourcePropertyKey
  if dependents = [] then .ok ()
  else .error (.validationError "Cannot delete a property that dependent rollups still aggregate"
    (dependentRollups dependents))

def assertAggregationCompatibleWithType (aggregation : RollupAggregation)
    (newType : PropertyType) : Except Failure Unit := do
  if newType = .rollup ∨ newType = .relation then
    .error (.validationError "a rollup's targetPropertyKey cannot be retyped to rollup or relation"
      (fieldDetails "type"))
  assertTargetTypeCompatible aggregation newType

def incompatibleDependent (s : Store) (newType : PropertyType) (d : RollupDependencyRow) :
    Except Failure Bool :=
  match s.getProperty d.rollupPropertyId with
  | none => .ok false
  | some p => do
    let config ← parseRollupConfig p.config
    match assertAggregationCompatibleWithType config.aggregation newType with
    | .ok _ => return false
    | .error _ => return true

def assertSourceRetypeAllowed (s : Store) (sourceDatabaseId : ℕ) (sourcePropertyKey : String)
    (newType : PropertyType) : Except Failure Unit := do
  let dependents := s.findDependenciesBySource sourceDatabaseId sourcePropertyKey
  let incompatible ← dependents.filterM (incompatibleDependent s newType)
  if incompatible = [] then .ok ()
  else .error (.validationError
    "Cannot retype a property that dependent rollups still reference incompatibly"
    (dependentRollups incompatible))

/-! ## The value of a cell -/

/-- `^-?[0-9]+(\.[0-9]+)?$`. -/
def isNumericText (text : String) : Bool :=
  let unsigned := match text.toList with
    | '-' :: cs => cs
    | cs => cs
  let whole := unsigned.takeWhile Char.isDigit
  match unsigned.dropWhile Char.isDigit with
  | [] => whole ≠ []
  | '.' :: fraction => whole ≠ [] && fraction ≠ [] && fraction.all Char.isDigit
  | _ => false

/-- `^\d{4}-\d{2}-\d{2}(T[\d:.+\-Z]*)?$`. -/
def isIsoDateText (digit : Char → Bool) (text : String) : Bool :=
  match text.toList with
  | y₁ :: y₂ :: y₃ :: y₄ :: '-' :: m₁ :: m₂ :: '-' :: d₁ :: d₂ :: rest =>
    [y₁, y₂, y₃, y₄, m₁, m₂, d₁, d₂].all digit &&
      match rest with
      | [] => true
      | 'T' :: time => time.all fun c => digit c || c ∈ [':', '.', '+', '-', 'Z']
      | _ => false
  | _ => false

variable (pg : Postgres)

/-- `properties -> $3`; `$3` is null when the rollup has no target. -/
def target (key : Option String) (properties : JsonObject) : Option Json :=
  key.bind properties.get?

/-- `properties ? $3 AND properties -> $3 IS DISTINCT FROM 'null'`. -/
def isFilled (key : Option String) (properties : JsonObject) : Bool :=
  match target key properties with
  | none | some .null => false
  | some _ => true

/-- `NOT (properties ? $3) OR properties -> $3 IS NOT DISTINCT FROM 'null'`. -/
def isEmpty (key : Option String) (properties : JsonObject) : Bool :=
  key.isSome && !isFilled key properties

/-- The `CASE` around the `::numeric` of a row's value. -/
def guardedNumeric (key : Option String) (properties : JsonObject) :
    Except CastError (Option Numeric) :=
  match (target key properties).bind pg.text with
  | none => .ok none
  | some text => if isNumericText text then some <$> pg.castNumeric text else .ok none

/-- `GUARDED_TIMESTAMP`. -/
def guardedTimestamp (key : Option String) (properties : JsonObject) :
    Except CastError (Option Timestamp) :=
  match (target key properties).bind pg.text with
  | none => .ok none
  | some text => if isIsoDateText pg.digit text then some <$> pg.castTimestamptz text else .ok none

/-- An aggregate over the non-null values, cast `::float8`; null over none. -/
def numericAggregate (f : List Numeric → Numeric) (key : Option String) (rows : List JsonObject) :
    Except CastError Json := do
  let values := (← rows.mapM (guardedNumeric pg key)).filterMap id
  if values = [] then return .null
  pg.castFloat8 (f values)

def timestampAggregate (f : List Timestamp → Option Timestamp) (key : Option String)
    (rows : List JsonObject) : Except CastError Json := do
  let values := (← rows.mapM (guardedTimestamp pg key)).filterMap id
  return ((f values).map pg.timestampJson).getD .null

def countJson (n : ℕ) : Json := .num ⟨n, 0⟩

/-- `aggregationSql`, evaluated over the `properties` of the joined rows. -/
def aggregate (aggregation : RollupAggregation) (key : Option String) (rows : List JsonObject) :
    Except CastError Json :=
  match aggregation with
  | .count => .ok (countJson rows.length)
  | .count_filled => .ok (countJson (rows.countP (isFilled key)))
  | .count_empty => .ok (countJson (rows.countP (isEmpty key)))
  | .percent_filled => .ok (
      if rows = [] then countJson 0 else pg.ratio (rows.countP (isFilled key)) rows.length)
  | .percent_empty => .ok (
      if rows = [] then countJson 0 else pg.ratio (rows.countP (isEmpty key)) rows.length)
  | .sum => numericAggregate pg (fun ns => ns.foldl Numeric.add (.finite 0)) key rows
  | .avg => numericAggregate pg pg.avg key rows
  | .min => numericAggregate pg (fun ns => ns.min?.getD .nan) key rows
  | .max => numericAggregate pg (fun ns => ns.max?.getD .nan) key rows
  | .earliest => timestampAggregate pg List.min? key rows
  | .latest => timestampAggregate pg List.max? key rows

/-- The end of an edge that the cell of `itemId` aggregates. -/
def joinedEnd (e : ItemRelationRow) (itemId : ℕ) : ℕ :=
  if e.itemA = itemId then e.itemB else e.itemA

/-- The rows `item_relations ir JOIN items t` of the cell's query. -/
def cellRows (s : Store) (dependency : RollupDependencyRow) (itemId : ℕ) : List JsonObject :=
  (s.listRelationsForItem dependency.relationDefinitionId itemId).flatMap fun e =>
    (s.items.filter fun t =>
      t.isAt dependency.sourceDatabaseId (joinedEnd e itemId) && t.deletedAt = none).map
      fun t => t.properties

def cellValue (s : Store) (dependency : RollupDependencyRow) (config : RollupConfig)
    (itemId : ℕ) : Except CastError Json :=
  aggregate pg config.aggregation config.targetPropertyKey (cellRows s dependency itemId)

def recomputeRollupCell (rollupPropertyId itemId : ℕ) : Tx TxState Failure Unit := do
  let s ← select id
  match s.getProperty rollupPropertyId with
  | none => return
  | some rollupProperty =>
    if (s.getItemById rollupProperty.databaseId itemId).isNone then return
    match s.getRollupDependency rollupPropertyId with
    | none => return
    | some dependency =>
      let config ← check fun _ => parseRollupConfig rollupProperty.config
      match cellValue pg s dependency config itemId with
      | .error _ => .throw (.internal "the aggregation failed on a cast")
      | .ok value => do
        let _ ← statement fun s =>
          s.writeComputed rollupProperty.databaseId itemId rollupProperty.key value

/-! ## Recompute jobs -/

def enqueueRollupRecompute (rollupPropertyId itemId : ℕ) : Tx TxState Failure Unit :=
  enqueueJob (.rollupRecompute rollupPropertyId itemId)

def enqueueRollupBackfill (rollupPropertyId : ℕ) : Tx TxState Failure Unit :=
  enqueueJob (.rollupRecomputeFull rollupPropertyId)

def resolveRollupRecomputeTargets (s : Store) (relationDefinitionId itemA itemB : ℕ) :
    List (ℕ × ℕ) :=
  match s.getRelationDefinition relationDefinitionId with
  | none => []
  | some reldef =>
    match s.getProperty reldef.propertyIdA with
    | none => []
    | some propertyA =>
      (s.findDependenciesByRelationDefinition relationDefinitionId).filterMap fun dependency =>
        (s.getProperty dependency.rollupPropertyId).map fun rollupProperty =>
          (dependency.rollupPropertyId,
            if rollupProperty.databaseId = propertyA.databaseId then itemA else itemB)

def enqueueRollupRecomputeForEdge (relationDefinitionId itemA itemB : ℕ) :
    Tx TxState Failure Unit := do
  let targets ← select fun s =>
    resolveRollupRecomputeTargets s relationDefinitionId itemA itemB
  targets.forM fun target => enqueueRollupRecompute target.1 target.2

end Rollup

end Semprec
