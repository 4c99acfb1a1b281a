import Semprec.Lib.Runs
import Semprec.Schema

/-!
# The choke point

Every write of the tables is one of these operations, each in a transaction of its own.  A run is a
list of them; what an operation reads outside the tables is given with it.
-/

namespace Semprec

inductive ChokePointOp where
  | createDatabase (input : CreateDatabaseInput)
  | archiveDatabase (id : ℕ)
  | restoreDatabase (id : ℕ)
  | renameDatabase (id : ℕ) (name : String)
  | createProperty (input : CreatePropertyInput)
  | renameProperty (id : ℕ) (name : String)
  | updatePropertyConfig (id : ℕ) (config : PropertyConfig)
  | changePropertyType (id : ℕ) (newType : PropertyType)
  | updateProperty (id : ℕ) (input : Schema.UpdatePropertyInput)
  | deleteProperty (id : ℕ)
  | createRelationProperty (input : CreateRelationPropertyInput)
      (context : Option SystemRelationWriteContext)
  | createItem (input : CreateItemInput) (options : WriteOptions)
  | createTaskRecurrence (row : TaskRecurrence)
  | createRelation (input : CreateRelationInput) (context : Option SystemRelationWriteContext)
  | updateRelation (input : UpdateRelationInput) (context : Option SystemRelationWriteContext)
  | deleteRelation (input : DeleteRelationInput) (context : Option SystemRelationWriteContext)
  | updateItem (input : UpdateItemInput) (options : WriteOptions)
  | deleteItem (databaseId itemId : ℕ)
  | restoreItem (databaseId itemId : ℕ)
  | purgeExpiredTrashSubtree (rootItemId : ℕ) (cutoff : ℤ)
  | deleteView (id : ℕ) (actor : Actor)
  | recomputeRollupCell (rollupPropertyId itemId : ℕ)

namespace ChokePoint

open TxState

/-- Forgets the result. -/
def unit {α : Type} (x : Tx TxState Failure α) : Tx TxState Failure Unit := do
  let _ ← x
  return

variable (pg : Postgres) (computedKeys : List String)

def perform (env : Env) : ChokePointOp → Tx TxState Failure Unit
  | .createDatabase input => unit (Schema.createDatabase input)
  | .archiveDatabase id => unit (Schema.databaseArchiveWithClient env id)
  | .restoreDatabase id => unit (Schema.restoreDatabase id)
  | .renameDatabase id name => unit (Schema.renameDatabase id name)
  | .createProperty input => unit (Schema.createProperty computedKeys input)
  | .renameProperty id name => unit (Schema.renameProperty id name)
  | .updatePropertyConfig id config => unit (Schema.updatePropertyConfigWithClient id config)
  | .changePropertyType id newType => unit (Schema.changePropertyTypeWithClient id newType none)
  | .updateProperty id input => unit (Schema.updatePropertyWithClient id input)
  | .deleteProperty id => unit (Schema.propertyDeleteWithClient id)
  | .createRelationProperty input context =>
    unit (Schema.createRelationPropertyWithClient computedKeys input context)
  | .createItem input options => unit (Items.createItemWithClient env input options)
  | .createTaskRecurrence row => execute (Items.createTaskRecurrence row)
  | .createRelation input context =>
    unit (Relations.createRelationWithClient env.relationEdgeWriteHook input context)
  | .updateRelation input context =>
    unit (Relations.updateRelationWithClient env.relationEdgeWriteHook input context)
  | .deleteRelation input context => unit (Relations.deleteRelationWithClient input context)
  | .updateItem input options => unit (Items.updateItemWithClient env input options)
  | .deleteItem databaseId itemId => unit (Trash.itemDeleteWithClient env databaseId itemId)
  | .restoreItem databaseId itemId => unit (Trash.restoreItemWithClient databaseId itemId)
  | .purgeExpiredTrashSubtree rootItemId cutoff =>
    unit (Trash.purgeExpiredTrashSubtree rootItemId cutoff)
  | .deleteView id actor => unit (Schema.viewDeleteWithClient id actor)
  | .recomputeRollupCell rollupPropertyId itemId =>
    Rollup.recomputeRollupCell pg rollupPropertyId itemId

def commit (s : Store) (env : Env) (op : ChokePointOp) : Option (Store × List Job) :=
  match withTransaction (perform pg computedKeys env op) s with
  | (.ok (_, jobs), s') => some (s', jobs)
  | (.error _, _) => none

def step (s : Store) (a : Env × ChokePointOp) : Option Store :=
  (commit pg computedKeys s a.1 a.2).map Prod.fst

abbrev Reachable (s : Store) : Prop :=
  Reach (step pg computedKeys) (fun _ _ => True) Store.empty s

end ChokePoint

end Semprec
