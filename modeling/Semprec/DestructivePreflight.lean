import Semprec.OperationReplay

/-!
# The preflight of a destructive operation

An approval is asked for what `computeDestructiveResourceProjection` accepts.  It looks at the
resource itself, and at the pair of a relation property; it does not look at the lock of the
property or of a schema, at rollups over a plain property, or at databases nested under an item.
-/

namespace Semprec

namespace DestructivePreflight

open OperationReplay

def IsDelete : DestructiveInput → Bool
  | .databaseArchive _ | .propertyDelete _ | .itemDelete _ => true
  | .viewDelete _ | .relationDelete _ => false

def mutation (env : Env) (actor : Actor) (s : Store) (input : DestructiveInput) :
    Tx TxState Failure MutationResult :=
  match input with
  | .itemDelete itemId =>
    match (s.getItemsByIdsIncludingDeleted [itemId]).head? with
    | none => pure (.item none)
    | some item => executeDestructiveWithClient env actor
        (.item itemId item.databaseId item.updatedAt item.deletedAt none) input
  | .propertyDelete propertyId => do
    let row ← Schema.propertyDeleteWithClient propertyId
    return .property row
  | .databaseArchive databaseId => do
    let row ← Schema.databaseArchiveWithClient env databaseId
    return .database row
  | .viewDelete viewId => do
    let row ← Schema.viewDeleteWithClient viewId actor
    return .view row
  | .relationDelete input => do
    let row ← Relations.deleteRelationWithClient input none
    return .edge row

/-- The errors are the same but for their details. -/
def SameKind : Failure → Failure → Prop
  | .chokePoint e, .chokePoint e' =>
    e.status = e'.status ∧ e.code = e'.code ∧ e.message = e'.message
  | .internal message, .internal message' => message = message'
  | _, _ => False

def Gone (s : Store) : DestructiveInput → Prop
  | .itemDelete itemId =>
    ∀ item, (s.getItemsByIdsIncludingDeleted [itemId]).head? = some item → item.deletedAt ≠ none
  | _ => False

/-- Nothing that the preflight does not look at is in the way of the mutation. -/
def Unhindered (s : Store) : DestructiveInput → Prop
  | .propertyDelete id => Deletable s id ∧ ∀ property, s.requireProperty id = .ok property →
      (property.type ≠ .relation →
        Rollup.assertSourceDeletable s property.databaseId property.key = .ok ()) ∧
      ∀ reldef other, property.type = .relation →
        s.getRelationDefinitionByPropertyId id = some reldef →
        Schema.otherPropertyId reldef id = some other → id ≠ other ∧ Deletable s other
  | .itemDelete itemId => ∀ item, (s.getItemsByIdsIncludingDeleted [itemId]).head? = some item →
      ∀ row ∈ Trash.collectItemSubtree s item fun _ => true,
        s.assertDatabaseNotArchived row.databaseId = .ok ()
  | _ => True

def Changed (env : Env) (s s' : Store) (resource : Resource) : DestructiveInput → Prop
  | .databaseArchive databaseId => ∃ row, resource = .database row ∧
      s.getDatabase databaseId = some row ∧
      s' = Schema.setArchivedAt databaseId (some env.now) s
  | .propertyDelete propertyId => ∃ row locked archivedAt,
      resource = .property row locked archivedAt ∧ s.getProperty propertyId = some row ∧
      s'.getProperty propertyId = none
  | .itemDelete itemId => ∃ row archivedAt,
      resource = .item row.id row.databaseId row.updatedAt row.deletedAt archivedAt ∧
      s.getItemById row.databaseId itemId = some row ∧ row.deletedAt = none ∧
      ∀ row' ∈ s'.items, row'.isAt row.databaseId itemId = true → row'.deletedAt ≠ none
  | _ => True

def ForeignKeys (s : Store) : Prop :=
  ∀ property ∈ s.properties, ∃ database, s.getDatabase property.databaseId = some database

/-- What the preflight rejects, but for an item that is gone, the mutation rejects with the same
kind of error; what it accepts and nothing hinders goes through, and the mutation changes the row
that the preflight has projected. -/
def Agrees (host : Host) (env : Env) (actor : Actor) (t : TxState) (input : DestructiveInput) :
    Prop :=
  match computeDestructiveResourceProjection host t.store actor input with
  | .error e => Gone t.store input ∨
      ∃ e' t', (mutation env actor t.store input).run t = (.error e', t') ∧ SameKind e e'
  | .ok resource =>
    (Unhindered t.store input → ∃ result t',
      (mutation env actor t.store input).run t = (.ok result, t')) ∧
    ∀ result t', (mutation env actor t.store input).run t = (.ok result, t') →
      Changed env t.store t'.store resource input

end DestructivePreflight

end Semprec
