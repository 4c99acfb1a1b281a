import Semprec.Postgres
import Semprec.Store

/-!
# The relation filter of an event heartbeat

`passesItemRelationFilter` follows a relation from the item that fired.  Its query finds the
database of a related item through the property on the other side of the definition, and looks for
the item there only.
-/

namespace Semprec

namespace ItemRelationFilter

structure ItemRelationFilterConfig where
  relationPropertyId : ℕ
  property : String
  include_ : List String
  exclude : List String

/-- `CASE WHEN rd.property_id_a = $1 THEN rd.property_id_b ELSE rd.property_id_a END`. -/
def otherPropertyId (reldef : RelationDefinitionRow) (relationPropertyId : ℕ) : Option ℕ :=
  if reldef.propertyIdA = relationPropertyId then reldef.propertyIdB else some reldef.propertyIdA

/-- `CASE WHEN r.item_a = $3 THEN r.item_b ELSE r.item_a END`. -/
def otherItemId (edge : ItemRelationRow) (itemId : ℕ) : ℕ :=
  if edge.itemA = itemId then edge.itemB else edge.itemA

variable (pg : Postgres) (s : Store)

/-- `properties ->> key`. -/
def textAt (item : ItemRow) (key : String) : Option String := (item.properties.get? key).bind pg.text

def ITEM_RELATION_FILTER_QUERY (relationPropertyId : ℕ) (property : String) (itemId : ℕ) :
    List (Option String) :=
  (s.relationDefinitions.filter fun rd => rd.propertyIdA = relationPropertyId ∨
    rd.propertyIdB = some relationPropertyId).flatMap fun rd =>
  (s.properties.filter fun op => some op.id = otherPropertyId rd relationPropertyId).flatMap fun op =>
  (s.itemRelations.filter fun r => r.relationDefinitionId = rd.id ∧
    (r.itemA = itemId ∨ r.itemB = itemId)).flatMap fun r =>
  (s.items.filter fun item => item.isAt op.databaseId (otherItemId r itemId) ∧
    item.deletedAt = none).map fun item => textAt pg item property

def passesItemRelationFilter (itemId : ℕ) (filter : ItemRelationFilterConfig) : Bool :=
  let values :=
    (ITEM_RELATION_FILTER_QUERY pg s filter.relationPropertyId filter.property itemId).filterMap id
  let included := filter.include_.isEmpty || values.any fun value => value ∈ filter.include_
  let excluded := values.any fun value => value ∈ filter.exclude
  included && !excluded

/-! ## What the filter is for -/

def JoinedBy (relationPropertyId itemId : ℕ) (rd : RelationDefinitionRow) (related : ItemRow) :
    Prop :=
  rd ∈ s.relationDefinitions ∧
    (rd.propertyIdA = relationPropertyId ∨ rd.propertyIdB = some relationPropertyId) ∧
    related ∈ s.items ∧ related.deletedAt = none ∧
    ∃ r ∈ s.itemRelations, r.relationDefinitionId = rd.id ∧
      (r.itemA = itemId ∧ r.itemB = related.id ∨ r.itemB = itemId ∧ r.itemA = related.id)

def RelatedValue (relationPropertyId : ℕ) (property : String) (itemId : ℕ) (value : String) : Prop :=
  ∃ rd related, JoinedBy s relationPropertyId itemId rd related ∧
    textAt pg related property = some value

def Names (itemId : ℕ) (filter : ItemRelationFilterConfig) : Prop :=
  (filter.include_ = [] ∨ ∃ value ∈ filter.include_,
    RelatedValue pg s filter.relationPropertyId filter.property itemId value) ∧
  ¬∃ value ∈ filter.exclude,
    RelatedValue pg s filter.relationPropertyId filter.property itemId value

def OnOtherSide (relationPropertyId : ℕ) (rd : RelationDefinitionRow) (related : ItemRow) : Prop :=
  ∃ op ∈ s.properties, otherPropertyId rd relationPropertyId = some op.id ∧
    related.databaseId = op.databaseId

def ValuesOnOtherSide (relationPropertyId : ℕ) (property : String) (itemId : ℕ) : Prop :=
  ∀ value, RelatedValue pg s relationPropertyId property itemId value →
    ∃ rd related, JoinedBy s relationPropertyId itemId rd related ∧
      OnOtherSide s relationPropertyId rd related ∧ textAt pg related property = some value

end ItemRelationFilter

end Semprec
