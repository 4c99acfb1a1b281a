import Semprec.Items
import Semprec.RelationEdges

/-!
# Completing recurring tasks under concurrency

Any number of open transactions mark tasks done.  The `UPDATE` of the item and the hook's
`SELECT … FOR UPDATE` of its recurrence wait for the transactions that hold those rows; the rest of
the advance reads what its transaction sees, and copies the edges one at a time, each with the
advisory lock of its relation definition.  Between
the completions everything else may be edited.
-/

namespace Semprec

namespace RecurringTasks

open Relations Items

inductive Write where
  | setProperties (databaseId itemId : ℕ) (patch : JsonObject)
  | insertItem (item : ItemRow)
  | createTaskRecurrence (row : TaskRecurrence)
  | setTaskRecurrenceActive (itemId : ℕ) (active : Bool)
  | edge (w : RelationEdges.EdgeWrite)

/-- `computeNextDueDate` may throw, unlike that of `Env`. -/
structure Context where
  env : Env
  computeNextDueDate : String → Json → String → Except Failure String

variable (ctx : Context)

def apply (s : Store) : Write → Store
  | .setProperties databaseId itemId patch =>
    (s.updateItem databaseId itemId (fun _ => true) fun r =>
      { r with properties := r.properties.merge patch, updatedAt := ctx.env.now }).2
  | .insertItem item => { s with items := s.items ++ [item] }
  | .createTaskRecurrence row => Items.createTaskRecurrence row s
  | .setTaskRecurrenceActive itemId active => Items.setTaskRecurrenceActive itemId active s
  | .edge w => RelationEdges.apply s w

/-- A statement on the item's row waits for the transaction that has written it. -/
def Write.onItem (databaseId itemId : ℕ) : Write → Bool
  | .setProperties databaseId' itemId' _ => databaseId' = databaseId ∧ itemId' = itemId
  | _ => false

/-! ## The statements -/

/-- The checks of the update, in one with its `UPDATE`: the patch that is written. -/
def updateChecks (s : Store) (input : UpdateItemInput) (options : WriteOptions) :
    Except Failure JsonObject := do
  s.assertDatabaseNotArchived input.databaseId
  assertWritableProperties (s.listPropertiesByDatabase input.databaseId)
    (input.propertiesPatch.map Prod.fst) options
  let database ← s.requireDatabase input.databaseId
  let patch ← derivedPatch database input.itemId input.propertiesPatch s
  let _ ← lockUpdatable s input.databaseId input.itemId input.ifVersion
  ctx.env.assertWrittenConfigStorable database.ownerModuleId patch options.humanWriterUserId
  return patch

/-- Whether the hook on item updates advances a recurrence. -/
def completes (s : Store) (databaseId : ℕ) (patch : JsonObject) : Bool :=
  ((s.getDatabase databaseId).bind (·.ownerModuleId)) = some tasksModuleId ∧
    stringValue (patch.get? "status") = some "done"

def newItem (s : Store) (databaseId : ℕ) (properties : JsPatch) (id : ℕ) :
    Except Failure ItemRow := do
  let _ ← assertDatabaseWritableForCreate s databaseId none
  assertWritableProperties (s.listPropertiesByDatabase databaseId) (properties.map Prod.fst) .none
  let database ← s.requireDatabase databaseId
  let created ← applyDefaults ctx.env s (s.listPropertiesByDatabase databaseId) properties
    (createdProperties database properties)
  ctx.env.assertWrittenConfigStorable database.ownerModuleId created none
  return ⟨id, databaseId, created, [], ctx.env.now, none⟩

def nextItem (s : Store) (timezone : String) (databaseId itemId : ℕ) (recurrence : TaskRecurrence)
    (id : ℕ) : Except Failure ItemRow :=
  match s.getItemById databaseId itemId with
  | none => .error (.notFoundError s!"Task {itemId} not found" none)
  | some current => do
    assertValidTimezone ctx.env timezone
    let nextDate ← ctx.computeNextDueDate recurrence.mode recurrence.rule timezone
    newItem ctx s databaseId (nextInstance current.properties nextDate) id

def activeRecurrence (s : Store) (itemId : ℕ) : Option TaskRecurrence :=
  (getTaskRecurrence s itemId).filter fun r => r.active

def copyWrite (s : Store) (fromItemId toItemId : ℕ) (e : ItemRelationRow)
    (relationPropertyId id : ℕ) : Except Failure Write := do
  let ends := relinked fromItemId toItemId e
  let context ← loadCreatableRelationEdgeContext ctx.env.relationEdgeWriteHook s
    relationPropertyId ends.1 ends.2 (some e.metadata) (some tasksRelationContext)
  let sides := normalizeRelationSides context.reldef relationPropertyId ends.1 ends.2
  assertCardinality s context.reldef.id sides.1 sides.2
  match s.itemRelations.find? (isEdge context.reldef.id sides.1 sides.2) with
  | some _ => return .edge (.setMetadata context.reldef.id sides.1 sides.2 e.metadata)
  | none => return .edge (.insert ⟨id, context.reldef.id, sides.1, sides.2, e.metadata⟩)

/-! ## The system -/

inductive Phase where
  | update
  | advance
  | list (next : ℕ)
  | copy (next : ℕ) (seen : Store) (left : List ItemRelationRow)
  | done (next : Option (ℕ × Store))
  /-- The update is no completion of a task. -/
  | plain
  /-- The update itself is refused. -/
  | refused (e : Failure)
  /-- The advance has thrown. -/
  | failed (e : Failure)

structure Call where
  input : UpdateItemInput
  options : WriteOptions
  phase : Phase

/-- A completion that has committed, with the tables before and after. -/
structure Completion where
  databaseId : ℕ
  itemId : ℕ
  next : Option (ℕ × Store)
  before : Store
  after : Store

/-- `locks` are the recurrences read `FOR UPDATE`, by item, and `advisory` the advisory locks by
relation definition; `root` is the chain an item is in, and `log` the completions that have
committed. -/
structure Sys where
  db : ReadCommitted Store Write
  calls : ℕ → Option Call
  locks : ℕ → Option ℕ
  advisory : ℕ → Option ℕ
  seq : ℕ
  root : ℕ → ℕ
  log : List Completion

namespace Sys

def init (s : Store) (seq : ℕ) (root : ℕ → ℕ) : Sys :=
  ⟨.init s, fun _ => none, fun _ => none, fun _ => none, seq, root, []⟩

variable (s : Sys)

def view (t : ℕ) : Store := s.db.view (apply ctx) t

def setPhase (t : ℕ) (c : Call) (phase : Phase) : Sys :=
  { s with calls := Function.update s.calls t (some { c with phase }) }

def write (t : ℕ) (c : Call) (ws : List Write) (phase : Phase) : Option Sys :=
  (s.db.write t ws).map fun db => { s.setPhase t c phase with db }

def close (t : ℕ) (db : ReadCommitted Store Write) : Sys :=
  { s with
    db
    calls := Function.update s.calls t none
    locks := fun itemId => (s.locks itemId).filter (· ≠ t)
    advisory := fun relationDefinitionId => (s.advisory relationDefinitionId).filter (· ≠ t) }

end Sys

inductive Act where
  | begin (t : ℕ) (input : UpdateItemInput) (options : WriteOptions)
  /-- The next statement of the transaction, or its end. -/
  | run (t : ℕ)
  /-- The connection is lost, or a deadlock is resolved against the transaction. -/
  | abort (t : ℕ)
  /-- Everything but the recurrences is edited, between the completions; the ids are below `seq`. -/
  | edit (tables : Store) (seq : ℕ)

def Below (seq : ℕ) (s : Store) : Prop :=
  (∀ r ∈ s.items, r.id < seq) ∧ (∀ e ∈ s.itemRelations, e.itemA < seq ∧ e.itemB < seq) ∧
    ∀ r ∈ s.taskRecurrences, r.itemId < seq

instance (seq : ℕ) (s : Store) : Decidable (Below seq s) := by
  unfold Below
  infer_instance

def commit (s : Sys) (t : ℕ) (c : Call) (next : Option (ℕ × Store)) : Option Sys :=
  (s.db.commit (apply ctx) t).map fun db =>
    { s.close t db with
      root := match next with
        | some (n, _) => Function.update s.root n (s.root c.input.itemId)
        | none => s.root
      log := s.log ++ [⟨c.input.databaseId, c.input.itemId, next, s.db.committed, db.committed⟩] }

def run (s : Sys) (t : ℕ) (c : Call) : Option Sys :=
  match c.phase with
  | .update =>
    if s.db.Locked t (Write.onItem c.input.databaseId c.input.itemId) then none
    else
      match updateChecks ctx (s.view ctx t) c.input c.options with
      | .error e => some (s.setPhase t c (.refused e))
      | .ok patch =>
        s.write t c [.setProperties c.input.databaseId c.input.itemId patch]
          (if completes (s.view ctx t) c.input.databaseId patch then .advance else .plain)
  | .advance =>
    match getSystemTimezone (s.view ctx t) with
    | .error e => some (s.setPhase t c (.failed e))
    | .ok timezone =>
      if (s.locks c.input.itemId).all (· = t) then
        let s := { s with locks := Function.update s.locks c.input.itemId (some t) }
        match activeRecurrence (s.view ctx t) c.input.itemId with
        | none => some (s.setPhase t c (.done none))
        | some r =>
          match nextItem ctx (s.view ctx t) timezone c.input.databaseId c.input.itemId r s.seq with
          | .error e => some (s.setPhase t c (.failed e))
          | .ok item =>
            ({ s with seq := s.seq + 1 }.write t c [.insertItem item,
              .createTaskRecurrence ⟨item.id, r.mode, r.rule, true⟩,
              .setTaskRecurrenceActive c.input.itemId false] (.list item.id))
      else none
  | .list next =>
    some (s.setPhase t c (.copy next (s.view ctx t)
      ((s.view ctx t).listAllRelationsForItem c.input.itemId)))
  | .copy next seen (e :: left) =>
    match copiedSide (s.view ctx t) c.input.itemId e with
    | none => some (s.setPhase t c (.copy next seen left))
    | some p =>
      if (s.advisory e.relationDefinitionId).all (· = t) then
        let s :=
          { s with advisory := Function.update s.advisory e.relationDefinitionId (some t) }
        match copyWrite ctx (s.view ctx t) c.input.itemId next e p s.seq with
        | .error e => some (s.setPhase t c (.failed e))
        | .ok w => { s with seq := s.seq + 1 }.write t c [w] (.copy next seen left)
      else none
  | .copy next seen [] => some (s.setPhase t c (.done (some (next, seen))))
  | .done next => commit ctx s t c next
  | .plain => (s.db.commit (apply ctx) t).map (s.close t)
  | .refused _ | .failed _ => (s.db.rollback t).map (s.close t)

def step (s : Sys) : Act → Option Sys
  | .begin t input options =>
    if (s.calls t).isNone then
      (s.db.begin t).map fun db =>
        { s with db, calls := Function.update s.calls t (some ⟨input, options, .update⟩) }
    else none
  | .run t => (s.calls t).bind (run ctx s t)
  | .abort t => (s.db.rollback t).map (s.close t)
  | .edit tables seq =>
    if s.db.opened = ∅ ∧ s.seq ≤ seq ∧
        Below seq { tables with taskRecurrences := s.db.committed.taskRecurrences } then
      some { s with
        db := .init { tables with taskRecurrences := s.db.committed.taskRecurrences }
        seq }
    else none

end RecurringTasks

end Semprec
