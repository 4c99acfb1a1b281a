import Semprec.Lib.ReadCommitted
import Semprec.Lib.Runs
import Semprec.Relations

/-!
# Relation edges under concurrency

Any number of open transactions create, update and delete edges, and trash and restore items.  The
insert of an edge runs the trigger `enforce_relation_cardinality` first: it takes the advisory lock
of the relation definition, which its transaction then keeps, and looks for an edge in the way with
a snapshot of its own.  Updates and deletes take no advisory lock.
-/

namespace Semprec

namespace RelationEdges

open Relations

inductive EdgeWrite where
  | insert (edge : ItemRelationRow)
  | setMetadata (relationDefinitionId itemA itemB : ℕ) (metadata : JsonObject)
  | delete (relationDefinitionId itemA itemB : ℕ)
  | setDeletedAt (databaseId itemId : ℕ) (deletedAt : Option ℤ)

def apply (s : Store) : EdgeWrite → Store
  | .insert edge => { s with itemRelations := s.itemRelations ++ [edge] }
  | .setMetadata d a b metadata => (updateItemRelationMetadata d a b metadata s).2
  | .delete d a b => (deleteItemRelation d a b s).2
  | .setDeletedAt databaseId itemId deletedAt =>
    (s.updateItem databaseId itemId (fun _ => true) fun item => { item with deletedAt }).2

def EdgeWrite.onEdge (d a b : ℕ) : EdgeWrite → Bool
  | .insert edge => isEdge d a b edge
  | .setMetadata d' a' b' _ | .delete d' a' b' => d' = d ∧ a' = a ∧ b' = b
  | .setDeletedAt .. => false

def EdgeWrite.onItem (databaseId itemId : ℕ) : EdgeWrite → Bool
  | .setDeletedAt databaseId' itemId' _ => databaseId' = databaseId ∧ itemId' = itemId
  | _ => false

inductive EdgeOp where
  | create (metadata : Option JsonObject)
  | update (metadata : JsonObject)
  | delete

/-- A call that has passed its checks. -/
structure Call where
  op : EdgeOp
  relationDefinitionId : ℕ
  itemA : ℕ
  itemB : ℕ

/-- `locks` are the advisory locks by relation definition, and `returned` the edges the create
calls have returned. -/
structure Sys where
  db : ReadCommitted Store EdgeWrite
  calls : ℕ → Option Call
  locks : ℕ → Option ℕ
  returned : List ItemRelationRow
  edgeSeq : ℕ

namespace Sys

/-- The tables before any edge. -/
def init (s : Store) : Sys :=
  ⟨.init { s with itemRelations := [] }, fun _ => none, fun _ => none, [], 0⟩

variable (s : Sys)

def view (t : ℕ) : Store := s.db.view apply t

def setCall (t : ℕ) (call : Option Call) : Sys :=
  { s with calls := Function.update s.calls t call }

def close (t : ℕ) (db : ReadCommitted Store EdgeWrite) : Sys :=
  { s.setCall t none with
    db := db
    locks := fun d => (s.locks d).filter (· ≠ t) }

def write (t : ℕ) (w : EdgeWrite) : Option Sys :=
  (s.db.write t [w]).map fun db => { s.setCall t none with db := db }

/-- `INSERT … ON CONFLICT … DO UPDATE SET metadata`: the edge it returns, and its write. -/
def upsertWrite (t d a b : ℕ) (metadata : JsonObject) : ItemRelationRow × EdgeWrite :=
  match (s.view t).itemRelations.find? (isEdge d a b) with
  | some e => ({ e with metadata }, .setMetadata d a b metadata)
  | none =>
    let e : ItemRelationRow :=
      { id := s.edgeSeq, relationDefinitionId := d, itemA := a, itemB := b, metadata }
    (e, .insert e)

end Sys

inductive Act where
  | begin (t : ℕ)
  | createRelation (t : ℕ) (input : CreateRelationInput)
      (context : Option SystemRelationWriteContext)
  | updateRelation (t : ℕ) (input : UpdateRelationInput)
      (context : Option SystemRelationWriteContext)
  | deleteRelation (t : ℕ) (input : DeleteRelationInput)
      (context : Option SystemRelationWriteContext)
  | lock (t : ℕ)
  | statement (t : ℕ)
  /-- The write of `softDeleteItem` or `restoreItem`. -/
  | setDeletedAt (t : ℕ) (databaseId itemId : ℕ) (deletedAt : Option ℤ)
  | commit (t : ℕ)
  | rollback (t : ℕ)

def callOf (op : EdgeOp) (context : RelationEdgeContext)
    (relationPropertyId callerItemId targetItemId : ℕ) : Call :=
  let sides := normalizeRelationSides context.reldef relationPropertyId callerItemId targetItemId
  ⟨op, context.reldef.id, sides.1, sides.2⟩

variable (hook : RelationEdgeWriteHook)

def step (s : Sys) : Act → Option Sys
  | .begin t => (s.db.begin t).map fun db => { s with db := db }
  | .createRelation t input context =>
    if t ∈ s.db.opened ∧ (s.calls t).isNone then
      match loadCreatableRelationEdgeContext hook (s.view t) input.relationPropertyId
        input.callerItemId input.targetItemId input.metadata context with
      | .ok edgeContext => some (s.setCall t (some (callOf (.create input.metadata) edgeContext
          input.relationPropertyId input.callerItemId input.targetItemId)))
      | .error _ => (s.db.rollback t).map (s.close t)
    else none
  | .updateRelation t input context =>
    if t ∈ s.db.opened ∧ (s.calls t).isNone then
      match loadCreatableRelationEdgeContext hook (s.view t) input.relationPropertyId
        input.callerItemId input.targetItemId (some input.metadata) context with
      | .ok edgeContext => some (s.setCall t (some (callOf (.update input.metadata) edgeContext
          input.relationPropertyId input.callerItemId input.targetItemId)))
      | .error _ => (s.db.rollback t).map (s.close t)
    else none
  | .deleteRelation t input context =>
    if t ∈ s.db.opened ∧ (s.calls t).isNone then
      match loadDeletableRelationEdgeContext (s.view t) input.relationPropertyId context with
      | .ok edgeContext => some (s.setCall t (some (callOf .delete edgeContext
          input.relationPropertyId input.callerItemId input.targetItemId)))
      | .error _ => (s.db.rollback t).map (s.close t)
    else none
  | .lock t =>
    (s.calls t).bind fun c =>
      match c.op with
      | .create _ =>
        if (s.locks c.relationDefinitionId).all (· = t) then
          some { s with locks := Function.update s.locks c.relationDefinitionId (some t) }
        else none
      | _ => none
  | .statement t =>
    (s.calls t).bind fun c =>
      if s.db.Locked t (EdgeWrite.onEdge c.relationDefinitionId c.itemA c.itemB) then none
      else
        match c.op with
        | .create metadata =>
          if s.locks c.relationDefinitionId = some t then
            match assertCardinality (s.view t) c.relationDefinitionId c.itemA c.itemB with
            | .ok _ =>
              let (edge, w) :=
                s.upsertWrite t c.relationDefinitionId c.itemA c.itemB (metadata.getD [])
              (s.write t w).map fun s =>
                { s with returned := s.returned ++ [edge], edgeSeq := s.edgeSeq + 1 }
            | .error _ => (s.db.rollback t).map (s.close t)
          else none
        | .update metadata =>
          if (s.view t).itemRelations.any (isEdge c.relationDefinitionId c.itemA c.itemB) then
            s.write t (.setMetadata c.relationDefinitionId c.itemA c.itemB metadata)
          else (s.db.rollback t).map (s.close t)
        | .delete => s.write t (.delete c.relationDefinitionId c.itemA c.itemB)
  | .setDeletedAt t databaseId itemId deletedAt =>
    if s.db.Locked t (EdgeWrite.onItem databaseId itemId) then none
    else
      (s.db.write t [.setDeletedAt databaseId itemId deletedAt]).map fun db => { s with db := db }
  | .commit t =>
    if (s.calls t).isNone then (s.db.commit apply t).map (s.close t) else none
  | .rollback t => (s.db.rollback t).map (s.close t)

/-! ## What the edges are to keep to -/

/-- No tuple occurs twice, a one-to-one definition uses an item once a side, and a one-to-many
definition uses an item B once. -/
structure EdgesOk (s : Store) : Prop where
  tuple : s.itemRelations.Pairwise fun e e' =>
    ¬ (e.relationDefinitionId = e'.relationDefinitionId ∧ e.itemA = e'.itemA ∧ e.itemB = e'.itemB)
  one_to_one : ∀ d, s.getRelationDefinition d.id = some d → d.cardinality = .one_to_one →
    (s.itemRelations.filter (·.relationDefinitionId = d.id)).Pairwise fun e e' =>
      e.itemA ≠ e'.itemA ∧ e.itemB ≠ e'.itemB
  one_to_many : ∀ d, s.getRelationDefinition d.id = some d → d.cardinality = .one_to_many →
    (s.itemRelations.filter (·.relationDefinitionId = d.id)).Pairwise fun e e' =>
      e.itemB ≠ e'.itemB

def Sys.RecreateKeeps (s : Sys) : Prop :=
  ∀ t c metadata e s', s.calls t = some c → c.op = .create metadata →
    e ∈ (s.view t).itemRelations → isEdge c.relationDefinitionId c.itemA c.itemB e →
      step hook s (.statement t) = some s' → (s'.view t).itemRelations = (s.view t).itemRelations

end RelationEdges

end Semprec
