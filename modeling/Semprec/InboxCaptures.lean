import Semprec.ChokePoint
import Semprec.JournalItems

/-!
# Inbox captures

`createInboxItemWithClient` of `packages/data/src/inbox/inboxStore.ts`: an Inbox item, the edge to
its type and the edge to its Journal day, which is created on the first capture of the day.  The
recompute of the day's list that it enqueues at the end only adds a job.
-/

namespace Semprec

namespace InboxCaptures

open TxState Items
open JournalItems (Luxon JournalPeriodType)

/-- What the date library reads in a date and a time zone. -/
structure Dates extends Luxon where
  isValidISO : String → Bool
  fromISO : String → String → ℤ

variable (env : Env)

def getOrCreateJournalItem (L : Luxon) (journalDatabaseId : ℕ) (type : JournalPeriodType)
    (referenceDate : ℤ) (timezone : String) : Tx TxState Failure ItemRow := do
  check fun _ => assertValidTimezone env timezone
  createItemWithClient env
    (JournalItems.journalInput journalDatabaseId type
      (JournalItems.periodOf L type referenceDate timezone))
    JournalItems.journalOptions

structure CreateInboxItemInput where
  inboxDatabaseId : ℕ
  journalDatabaseId : ℕ
  timezone : String
  date : String
  time : String
  text : Option String
  type : Option ℕ
  idempotencyKey : Option String

def inboxModuleId : String := "inbox"

def inboxRelationContext : SystemRelationWriteContext := ⟨inboxModuleId⟩

def getRelationProperty (s : Store) (databaseId : ℕ) (key : String) : Except Failure PropertyRow :=
  match (s.listPropertiesByDatabase databaseId).find? fun p => p.key = key with
  | some property => .ok property
  | none => .error (.notFoundError
      s!"Inbox database {databaseId} has no '{key}' relation property" none)

variable (L : Dates) (input : CreateInboxItemInput)

def assertInput : Except Failure Unit := do
  if input.date = "" then
    .error (.validationError "Inbox items require 'date'" (fieldDetails "date"))
  if input.time = "" then
    .error (.validationError "Inbox items require 'time'" (fieldDetails "time"))
  if !L.isValidISO input.date then
    .error (.validationError "Inbox items require a valid ISO date for 'date'"
      (fieldDetails "date"))
  assertValidTimezone env input.timezone

def itemInput : CreateItemInput where
  databaseId := input.inboxDatabaseId
  properties := [("date", some (.str input.date)), ("time", some (.str input.time))] ++
    (input.text.map fun text => ("text", some (.str text))).toList
  idempotencyKey := input.idempotencyKey

def linkItem (key : String) (itemId targetItemId : ℕ)
    (context : Option SystemRelationWriteContext) : Tx TxState Failure Unit := do
  let property ← check fun s => getRelationProperty s input.inboxDatabaseId key
  let _ ← Relations.createRelationWithClient env.relationEdgeWriteHook
    ⟨property.id, itemId, targetItemId, none⟩ context

def linkType (itemId : ℕ) : Tx TxState Failure Unit :=
  match input.type with
  | some type => linkItem env input "type" itemId type none
  | none => return

def journalDay : Tx TxState Failure ItemRow :=
  getOrCreateJournalItem env L.toLuxon input.journalDatabaseId .day
    (L.fromISO input.date input.timezone) input.timezone

def createInboxItemWithClient : Tx TxState Failure ItemRow := do
  check fun _ => assertInput env L input
  let item ← createItemWithClient env (itemInput input) .none
  linkType env input item.id
  let property ← check fun s => getRelationProperty s input.inboxDatabaseId "journalDay"
  let day ← journalDay env L input
  let _ ← Relations.createRelationWithClient env.relationEdgeWriteHook
    ⟨property.id, item.id, day.id, none⟩ (some inboxRelationContext)
  return item

/-! ## Replays -/

def dayKey : String :=
  JournalItems.idempotencyKey input.journalDatabaseId .day
    (JournalItems.periodOf L.toLuxon .day (L.fromISO input.date input.timezone) input.timezone)

/-- What may happen to the tables between a capture and its replay: nothing that changes a schema,
and nothing that is purged. -/
def keepsSchema : ChokePointOp → Bool
  | .createItem .. | .createTaskRecurrence .. | .createRelation .. | .updateRelation ..
  | .deleteRelation .. | .updateItem .. | .deleteItem .. | .restoreItem .. => true
  | _ => false

def IsLive (s : Store) (databaseId itemId : ℕ) : Prop :=
  ∃ item, s.getItemById databaseId itemId = some item ∧ item.deletedAt = none

def Replays (s : Store) (itemId : ℕ) : Prop :=
  ∃ item t, (createInboxItemWithClient env L input).run ⟨s, []⟩ = (.ok item, t) ∧
    s.getItemById input.inboxDatabaseId itemId = some item ∧ t.store.items = s.items ∧
      t.store.itemRelations = s.itemRelations

open Relations in
def InPlace (s : Store) (key : String) (itemId targetItemId : ℕ) : Prop :=
  ∃ property edgeContext, getRelationProperty s input.inboxDatabaseId key = .ok property ∧
    loadRelationEdgeContext s property.id = .ok edgeContext ∧
      assertRelationEndpointsValid s edgeContext itemId targetItemId = .ok () ∧
        let sides := normalizeRelationSides edgeContext.reldef property.id itemId targetItemId
        assertCardinality s edgeContext.reldef.id sides.1 sides.2 = .ok () ∧
          (∃ e ∈ s.itemRelations, isEdge edgeContext.reldef.id sides.1 sides.2 e = true) ∧
            ∀ e ∈ s.itemRelations, isEdge edgeContext.reldef.id sides.1 sides.2 e = true →
              e.metadata = []

def Linked (s : Store) (itemId : ℕ) : Prop :=
  (∀ type, input.type = some type → InPlace input s "type" itemId type) ∧
    ∃ day, findIdempotentReplay s input.journalDatabaseId (dayKey L input) = some day ∧
      InPlace input s "journalDay" itemId day.id

def JudgesRelation (hook : RelationEdgeWriteHook) : Prop :=
  ∀ (s s' : Store) edgeContext itemId targetItemId itemId' targetItemId',
    s.databases = s'.databases →
      hook s edgeContext itemId targetItemId none = hook s' edgeContext itemId' targetItemId' none

/-- The captured item stays live while `keepsSchema` operations run. -/
def Undisturbed (itemId : ℕ) (s : Store) (a : Env × ChokePointOp) : Prop :=
  keepsSchema a.2 = true ∧ IsLive s input.inboxDatabaseId itemId

end InboxCaptures

end Semprec
