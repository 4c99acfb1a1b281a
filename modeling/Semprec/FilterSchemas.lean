import Semprec.Json

/-!
# The two schemas of a filter

The schema a request's filter is read with (`shared/src/genericOperations/filterSort.ts`) and the
one the data layer reads it with again (`data/src/views/filterTree.ts`).  Both are unions of objects
told apart by their `type`; a strict object has no keys but those its schema names.
-/

namespace Semprec

namespace FilterSchemas

inductive EqualityType where
  | equals
  | not_equals
deriving DecidableEq

inductive TextType where
  | contains
  | not_contains
  | starts_with
  | ends_with
deriving DecidableEq

inductive EmptyType where
  | is_empty
  | is_not_empty
deriving DecidableEq

inductive DateType where
  | before
  | after
  | on_or_before
  | on_or_after
deriving DecidableEq

inductive RelationType where
  | relation_contains
  | relation_not_contains
deriving DecidableEq

inductive GroupType where
  | and
  | or
deriving DecidableEq

inductive ScalarValue where
  | str (s : String)
  | num (n : Decimal)
  | bool (b : Bool)
deriving DecidableEq

inductive FilterCondition where
  | equality (type : EqualityType) (property : String) (value : ScalarValue)
  | text (type : TextType) (property value : String)
  | empty (type : EmptyType) (property : String)
  | date (type : DateType) (property value : String)
  | date_range (property from_ to_ : String)
  | in_ (property : String) (value : List String)
  | relation (type : RelationType) (property value : String)
  | relation_path_contains (path : String × String) (value : String)
deriving DecidableEq

inductive FilterNode where
  | condition (c : FilterCondition)
  | group (type : GroupType) (nodes : List FilterNode)
  | not (node : FilterNode)

/-! ## Schemas -/

/-- What a schema makes of a value; `none` when it rejects it. -/
abbrev Schema (α : Type) := Json → Option α

variable {α τ : Type}

/-- The first of the schemas that accepts the value. -/
def union (options : List (Schema α)) : Schema α := fun v => options.findSome? fun option => option v

def string : Schema String
  | .str s => some s
  | _ => none

def filterProperty : Schema String := fun v => (string v).filter (· ≠ "")

def filterScalarValue : Schema ScalarValue
  | .str s => some (.str s)
  | .num n => some (.num n)
  | .bool b => some (.bool b)
  | _ => none

@[grind =] def array (max : Option ℕ) (element : Schema α) : Schema (List α)
  | .arr vs =>
    if vs = [] ∨ ∃ bound ∈ max, bound < vs.length then none else vs.mapM element
  | _ => none

def field (fields : JsonObject) (key : String) (schema : Schema α) : Option α :=
  (fields.get? key).bind schema

def HasOnly (keys : List String) (fields : JsonObject) : Prop := ∀ f ∈ fields, f.1 ∈ keys

instance (keys : List String) (fields : JsonObject) : Decidable (HasOnly keys fields) :=
  inferInstanceAs (Decidable (∀ f ∈ fields, f.1 ∈ keys))

@[grind =] def object (strict : Bool) (keys : List String) (read : JsonObject → Option α) : Schema α
  | .obj fields => if strict = true ∧ ¬HasOnly keys fields then none else read fields
  | _ => none

def typed (strict : Bool) (types : List (String × τ)) (keys : List String)
    (read : τ → JsonObject → Option α) : Schema α :=
  object strict ("type" :: keys) fun fields =>
    (field fields "type" string).bind fun type => (types.lookup type).bind fun t => read t fields

section
variable (uuid : String → Bool)

/-- A string that is a UUID by `z.uuid()`. -/
def uuidString : Schema String := fun v => (string v).filter (uuid ·)

def equality (strict : Bool) : Schema FilterCondition :=
  typed strict [("equals", .equals), ("not_equals", .not_equals)] ["property", "value"]
    fun type fields => do
      let property ← field fields "property" filterProperty
      let value ← field fields "value" filterScalarValue
      return .equality type property value

def text (strict : Bool) : Schema FilterCondition :=
  typed strict [("contains", .contains), ("not_contains", .not_contains),
    ("starts_with", .starts_with), ("ends_with", .ends_with)] ["property", "value"]
    fun type fields => do
      let property ← field fields "property" filterProperty
      let value ← field fields "value" string
      return .text type property value

def empty (strict : Bool) : Schema FilterCondition :=
  typed strict [("is_empty", .is_empty), ("is_not_empty", .is_not_empty)] ["property"]
    fun type fields => do
      let property ← field fields "property" filterProperty
      return .empty type property

def date (strict : Bool) : Schema FilterCondition :=
  typed strict [("before", .before), ("after", .after), ("on_or_before", .on_or_before),
    ("on_or_after", .on_or_after)] ["property", "value"] fun type fields => do
      let property ← field fields "property" filterProperty
      let value ← field fields "value" string
      return .date type property value

def range (strict : Bool) : Schema (String × String) :=
  object strict ["from", "to"] fun fields => do
    let from_ ← field fields "from" string
    let to_ ← field fields "to" string
    return (from_, to_)

def dateRange (strict : Bool) : Schema FilterCondition :=
  typed strict [("date_range", ())] ["property", "value"] fun _ fields => do
    let property ← field fields "property" filterProperty
    let value ← field fields "value" (range strict)
    return .date_range property value.1 value.2

def in_ (strict : Bool) : Schema FilterCondition :=
  typed strict [("in", ())] ["property", "value"] fun _ fields => do
    let property ← field fields "property" filterProperty
    let value ← field fields "value" (array none string)
    return .in_ property value

def relation (strict : Bool) : Schema FilterCondition :=
  typed strict [("relation_contains", .relation_contains),
    ("relation_not_contains", .relation_not_contains)] ["property", "value"]
    fun type fields => do
      let property ← field fields "property" filterProperty
      let value ← field fields "value" (uuidString uuid)
      return .relation type property value

def path : Schema (String × String)
  | .arr [v, w] => do
    let relation ← filterProperty v
    let property ← filterProperty w
    return (relation, property)
  | _ => none

/-- It is strict in both schemas. -/
def relationPath : Schema FilterCondition :=
  typed true [("relation_path_contains", ())] ["path", "value"] fun _ fields => do
    let path ← field fields "path" path
    let value ← field fields "value" (uuidString uuid)
    return .relation_path_contains path value

def conditions (strict : Bool) : Schema FilterCondition :=
  union [equality strict, text strict, empty strict, date strict, dateRange strict, in_ strict,
    relation uuid strict, relationPath uuid]

def group (strict : Bool) (max : Option ℕ) (type : String × GroupType)
    (child : Schema FilterNode) : Schema FilterNode :=
  typed strict [type] ["nodes"] fun t fields =>
    (field fields "nodes" (array max child)).map (FilterNode.group t)

def negation (strict : Bool) (child : Schema FilterNode) : Schema FilterNode :=
  typed strict [("not", ())] ["node"] fun _ fields => (field fields "node" child).map .not

def nodes (strict : Bool) (max : Option ℕ) (child : Schema FilterNode) : Schema FilterNode :=
  union [fun v => (conditions uuid strict v).map .condition,
    group strict max ("and", .and) child, group strict max ("or", .or) child,
    negation strict child]

namespace Shared

def MAX_FILTER_DEPTH : ℕ := 8

def MAX_FILTER_NODES_PER_LEVEL : ℕ := 20

def filterConditionSchema : Schema FilterCondition := conditions uuid true

@[grind =] def buildFilterNodeSchema : ℕ → Schema FilterNode
  | 0 => fun v => (filterConditionSchema uuid v).map .condition
  | remainingDepth + 1 =>
    nodes uuid true (some MAX_FILTER_NODES_PER_LEVEL) (buildFilterNodeSchema remainingDepth)

def filterNodeSchema : Schema FilterNode := buildFilterNodeSchema uuid MAX_FILTER_DEPTH

end Shared

namespace Data

def filterConditionSchema : Schema FilterCondition := conditions uuid false

/-- The schema refers to itself; `fuel` bounds how often it is entered. -/
@[grind =] def filterNodeSchema : ℕ → Schema FilterNode
  | 0 => fun _ => none
  | fuel + 1 => nodes uuid false none (filterNodeSchema fuel)

mutual

/-- How deep arrays and objects are nested in the value. -/
@[grind =] def depth : Json → ℕ
  | .arr vs => depthOfElements vs + 1
  | .obj fields => depthOfFields fields + 1
  | .null | .bool _ | .num _ | .str _ => 0

@[grind =] def depthOfElements : List Json → ℕ
  | [] => 0
  | v :: vs => max (depth v) (depthOfElements vs)

@[grind =] def depthOfFields : List (String × Json) → ℕ
  | [] => 0
  | (_, v) :: fields => max (depth v) (depthOfFields fields)

end

/-- The schema is entered at most once for each object that is nested in another. -/
def parseFilterNode (raw : Json) : Option FilterNode := filterNodeSchema uuid (depth raw + 1) raw

end Data

end

/-! ### What the request's schema asks for besides -/

def FilterCondition.HasOnlyKeys (c : FilterCondition) (fields : JsonObject) : Prop :=
  match c with
  | .empty _ _ => HasOnly ["type", "property"] fields
  | .relation_path_contains _ _ => HasOnly ["type", "path", "value"] fields
  | .date_range _ _ _ => HasOnly ["type", "property", "value"] fields ∧
      ∀ range, fields.get? "value" = some (.obj range) → HasOnly ["from", "to"] range
  | .equality _ _ _ | .text _ _ _ | .date _ _ _ | .in_ _ _ | .relation _ _ _ =>
      HasOnly ["type", "property", "value"] fields

inductive HasOnlyKeys : Json → FilterNode → Prop
  | condition {fields : JsonObject} {c : FilterCondition} : c.HasOnlyKeys fields →
      HasOnlyKeys (.obj fields) (.condition c)
  | group {fields : JsonObject} {vs : List Json} {t : GroupType} {ns : List FilterNode} :
      HasOnly ["type", "nodes"] fields → fields.get? "nodes" = some (.arr vs) →
      List.Forall₂ HasOnlyKeys vs ns → HasOnlyKeys (.obj fields) (.group t ns)
  | not {fields : JsonObject} {v : Json} {n : FilterNode} : HasOnly ["type", "node"] fields →
      fields.get? "node" = some v → HasOnlyKeys v n → HasOnlyKeys (.obj fields) (.not n)

/-- Groups and negations are nested at most this deep, and no group has more nodes than a level may
have. -/
inductive WithinLimits : ℕ → FilterNode → Prop
  | condition (depth : ℕ) (c : FilterCondition) : WithinLimits depth (.condition c)
  | group {depth : ℕ} {t : GroupType} {ns : List FilterNode} :
      ns.length ≤ Shared.MAX_FILTER_NODES_PER_LEVEL → (∀ n ∈ ns, WithinLimits depth n) →
      WithinLimits (depth + 1) (.group t ns)
  | not {depth : ℕ} {n : FilterNode} : WithinLimits depth n → WithinLimits (depth + 1) (.not n)

end FilterSchemas

end Semprec
