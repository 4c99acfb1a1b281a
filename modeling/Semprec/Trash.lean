import Semprec.Items

/-!
# Trash

Trashing and restoring an item together with the rows nested under it, and the purge of what has
been in the trash for long enough.  An item nests the rows of the inline databases it owns, and
those nest theirs.
-/

namespace Semprec

namespace Trash

open TxState

/-! ## The subtree -/

def visitDatabase (s : Store) (include_ : ItemRow → Bool) (acc : List ℕ × List ItemRow)
    (database : DatabaseRow) : List ℕ × List ItemRow :=
  if database.id ∈ acc.1 then acc
  else (database.id :: acc.1, acc.2 ++ (s.getAllItemsInDatabase database.id).filter include_)

def visitFrontier (s : Store) (include_ : ItemRow → Bool) (frontier visited : List ℕ) :
    List ℕ × List ItemRow :=
  (frontier.flatMap s.listDatabasesByParentItem).foldl (visitDatabase s include_) (visited, [])

/-- The levels below a frontier; each walks a database that no level before it has. -/
def subtreeBelow (s : Store) (include_ : ItemRow → Bool) :
    ℕ → List ℕ → List ℕ → List ItemRow
  | 0, _, _ => []
  | fuel + 1, frontier, visited =>
    match visitFrontier s include_ frontier visited with
    | (_, []) => []
    | (visited', rows) => rows ++ subtreeBelow s include_ fuel (rows.map fun r => r.id) visited'

/-- Root first, by level; a row that `include_` rejects is neither collected nor descended into. -/
def collectItemSubtree (s : Store) (root : ItemRow) (include_ : ItemRow → Bool) : List ItemRow :=
  root :: subtreeBelow s include_ s.databases.length [root.id] []

/-! ## Trash and restore -/

def enqueueForEdges (itemId : ℕ) : Tx TxState Failure Unit := do
  let edges ← select fun s => s.listAllRelationsForItem itemId
  forM edges fun e => Rollup.enqueueRollupRecomputeForEdge e.relationDefinitionId e.itemA e.itemB

def cascadeRow (write : ItemRow → Store → Option ItemRow × Store) (itemId : ℕ)
    (rootResult : Option ItemRow) (row : ItemRow) : Tx TxState Failure (Option ItemRow) := do
  let item ← statement (write row)
  match item with
  | none => return rootResult
  | some item =>
    enqueueForEdges row.id
    return if row.id = itemId then some item else rootResult

def softDeleteRow (now : ℤ) (row : ItemRow) (s : Store) : Option ItemRow × Store :=
  s.softDeleteItem row.databaseId row.id now

/-- Restores a row trashed together with the root, which is what the time of it tells. -/
def restoreRow (cascadeEpoch : ℤ) (row : ItemRow) (s : Store) : Option ItemRow × Store :=
  if row.deletedAt.map toISOString = some (toISOString cascadeEpoch) then
    s.restoreItem row.databaseId row.id
  else (none, s)

def isSystemActive (item : ItemRow) : Bool :=
  match item.properties.get? "systemActive" with
  | some (.bool true) => true
  | _ => false

def writableSubtree (root : ItemRow) (s : Store) : Except Failure (List ItemRow) := do
  let subtree := collectItemSubtree s root fun _ => true
  subtree.forM fun row => s.assertDatabaseNotArchived row.databaseId
  return subtree

def lockDeletable (databaseId itemId : ℕ) (s : Store) : Except Failure (Option ItemRow) := do
  s.assertDatabaseNotArchived databaseId
  match s.getItemById databaseId itemId with
  | none => return none
  | some before =>
    if isSystemActive before then
      .error (.forbiddenError
        s!"Item {itemId} is a system-active project and cannot be deleted, only deactivated"
        (fieldDetails "systemActive") "forbidden")
    else return some before

def itemDeleteWithClient (env : Env) (databaseId itemId : ℕ) :
    Tx TxState Failure (Option ItemRow) := do
  let before ← check (lockDeletable databaseId itemId)
  match before with
  | none => return none
  | some before =>
    if before.deletedAt.isSome then return some before
    else
      let subtree ← check (writableSubtree before)
      subtree.foldlM (cascadeRow (softDeleteRow env.now) itemId) none

def restoreItemWithClient (databaseId itemId : ℕ) : Tx TxState Failure (Option ItemRow) := do
  check fun s => s.assertDatabaseNotArchived databaseId
  let before ← select fun s => s.getItemById databaseId itemId
  match before with
  | none => return none
  | some before =>
    match before.deletedAt with
    | none => return some before
    | some cascadeEpoch =>
      let subtree ← check (writableSubtree before)
      subtree.foldlM (cascadeRow (restoreRow cascadeEpoch) itemId) none

/-! ## Purge -/

def deleteProperties (gone : PropertyRow → Bool) (s : Store) : Store :=
  let goneId (id : ℕ) : Bool := s.properties.any fun p => gone p && p.id = id
  let goneReldef (d : RelationDefinitionRow) : Bool := goneId d.propertyIdA || d.propertyIdB.any goneId
  let goneReldefId (id : ℕ) : Bool := s.relationDefinitions.any fun d => goneReldef d && d.id = id
  { s with
    properties := s.properties.filter fun p => !gone p
    relationDefinitions := s.relationDefinitions.filter fun d => !goneReldef d
    itemRelations := s.itemRelations.filter fun e => !goneReldefId e.relationDefinitionId
    rollupDependencies := s.rollupDependencies.filter fun d =>
      !goneId d.rollupPropertyId && !goneReldefId d.relationDefinitionId }

def dropDatabaseWithPartition (id : ℕ) (s : Store) : Store :=
  let s := { s with rollupDependencies := s.rollupDependencies.filter fun d =>
    d.sourceDatabaseId ≠ id }
  let s := deleteProperties (fun p => p.databaseId = id) s
  { s with
    databases := s.databases.filter fun d => d.id ≠ id
    views := s.views.filter fun v => v.databaseId ≠ some id }

def purgeRow (row : ItemRow) (s : Store) : Bool × Store :=
  if s.items.any fun r => r.isAt row.databaseId row.id && r.deletedAt.isSome then
    (true, { s with
      items := s.items.filter fun r =>
        !(r.isAt row.databaseId row.id && r.deletedAt.isSome)
      itemRelations := s.itemRelations.filter fun e => e.itemA ≠ row.id ∧ e.itemB ≠ row.id
      idempotencyKeys := s.idempotencyKeys.filter fun k =>
        ¬(k.itemId = row.id ∧ k.databaseId = row.databaseId)
      taskRecurrences := s.taskRecurrences.filter fun r => r.itemId ≠ row.id })
  else (false, s)

def dropIfEmpty (rootDatabaseId : ℕ) (id : ℕ) (s : Store) : Store :=
  if id = rootDatabaseId ∨ s.items.any (fun r => r.databaseId = id) then s
  else dropDatabaseWithPartition id s

def purgeRows : List ItemRow → Store → List ℕ × Store
  | [], s => ([], s)
  | row :: rows, s =>
    match purgeRow row s with
    | (true, s) => ((row.id :: (purgeRows rows s).1), (purgeRows rows s).2)
    | (false, s) => purgeRows rows s

def isExpired (cutoff : ℤ) (row : ItemRow) : Bool :=
  row.deletedAt.any fun t => toISOString t < cutoff

def purgeExpiredTrashSubtree (rootItemId : ℕ) (cutoff : ℤ) : Tx TxState Failure (List ℕ) := do
  let root ← select fun s => (s.getItemsByIdsIncludingDeleted [rootItemId]).head?
  match root.filter (isExpired cutoff) with
  | none => return []
  | some root =>
    let subtree ← select fun s => collectItemSubtree s root (isExpired cutoff)
    check fun s => subtree.forM fun row => s.assertDatabaseNotArchived row.databaseId
    let purged ← statement (purgeRows subtree)
    execute fun s =>
      (purged.flatMap s.listDatabasesByParentItem).foldl
        (fun s d => dropIfEmpty root.databaseId d.id s) s
    return purged

end Trash

end Semprec
