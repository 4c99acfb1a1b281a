import Mathlib.Data.Fintype.Basic
import Semprec.ItemCreates
import Semprec.Trash

/-!
# The Journal's items

`getOrCreateJournalItem` of `packages/data/src/journal/journalStore.ts` is a create under a key made
of the period, so any number of open transactions run it as they run other creates (`ItemCreates`),
while others trash, restore and purge items.
-/

namespace Semprec

namespace JournalItems

open Items Trash
open ItemCreates (Call Created Tables Write Sys)

inductive JournalPeriodType where
  | year
  | quarter
  | month
  | week
  | day
deriving DecidableEq

def JournalPeriodType.name : JournalPeriodType → String
  | .year => "year"
  | .quarter => "quarter"
  | .month => "month"
  | .week => "week"
  | .day => "day"

/-- What the date library computes of an instant in a time zone; `toISODate` of an invalid date is
`null`. -/
structure Luxon where
  DateTime : Type
  fromJSDate : ℤ → String → DateTime
  year : DateTime → ℤ
  quarter : DateTime → ℤ
  toFormat : DateTime → String → String
  toISODate : DateTime → Option String

variable (L : Luxon)

def computeJournalPeriodKey (type : JournalPeriodType) (reference : L.DateTime) : String :=
  match type with
  | .year => toString (L.year reference)
  | .quarter => s!"{L.year reference}-Q{L.quarter reference}"
  | .month => L.toFormat reference "yyyy-LL"
  | .week => L.toFormat reference "kkkk-'W'WW"
  | .day => (L.toISODate reference).getD "null"

def periodOf (type : JournalPeriodType) (referenceDate : ℤ) (timezone : String) : String :=
  computeJournalPeriodKey L type (L.fromJSDate referenceDate timezone)

variable (journalDatabaseId : ℕ)

def idempotencyKey (type : JournalPeriodType) (period : String) : String :=
  s!"journal:{journalDatabaseId}:{type.name}:{period}"

def journalInput (type : JournalPeriodType) (period : String) : CreateItemInput where
  databaseId := journalDatabaseId
  properties := [("name", some (.str s!"📓 {period}")), ("type", some (.str type.name)),
    ("period", some (.str period))]
  idempotencyKey := some (idempotencyKey journalDatabaseId type period)

def journalOptions : WriteOptions := ⟨["name", "type", "period"], none, none⟩

def isJournalKey (key : String) : Bool := "journal:".toList.isPrefixOf key.toList

inductive Act where
  | getOrCreateJournalItem (t : ℕ) (type : JournalPeriodType) (referenceDate : ℤ)
    (timezone : String)
  | trash (t databaseId itemId : ℕ) (now : ℤ)
  | restore (t databaseId itemId : ℕ)
  /-- The statements of a create, a purge, a create under another key, the bounds of a
  transaction. -/
  | other (a : ItemCreates.Act)

variable (env : Env)

def step (s : Sys) (a : Act) : Option Sys :=
  match a with
  | .getOrCreateJournalItem t type referenceDate timezone =>
    if env.validTimezone timezone then
      ItemCreates.step env s (.createItem t
        (journalInput journalDatabaseId type (periodOf L type referenceDate timezone))
        journalOptions)
    else if (s.calls t).isNone then s.throw t
    else none
  | .trash t databaseId itemId now =>
    -- one row of the cascade, which writes each row of the subtree so
    match lockDeletable databaseId itemId (s.view t).store with
    | .error _ => s.throw t
    | .ok none => some s
    | .ok (some before) =>
      if before.deletedAt.isSome then some s
      else ItemCreates.step env s (.setDeletedAt t databaseId itemId (some now))
  | .restore t databaseId itemId =>
    match (s.view t).store.assertDatabaseNotArchived databaseId with
    | .error _ => s.throw t
    | .ok _ =>
      if ((s.view t).store.getItemById databaseId itemId).any fun before =>
          before.deletedAt.isSome then
        ItemCreates.step env s (.setDeletedAt t databaseId itemId none)
      else some s
  | .other a =>
    match a with
    | .createItem _ input _ =>
      if input.idempotencyKey.any isJournalKey then none else ItemCreates.step env s a
    | .setDeletedAt .. => none
    | _ => ItemCreates.step env s a

/-! ## One item for each period -/

def Live (tables : Tables) (c : Created) : Prop :=
  ∃ item, tables.store.getItemById c.databaseId c.itemId = some item ∧ item.deletedAt = none

def OneLive (s : Sys) : Prop :=
  ∀ type period, ∀ c ∈ s.db.committed.created, ∀ c' ∈ s.db.committed.created,
    c.key = some (idempotencyKey journalDatabaseId type period) →
      c'.key = some (idempotencyKey journalDatabaseId type period) →
        Live s.db.committed c → Live s.db.committed c' → c = c'

/-- What a call for an instant returned was live as it was read, and has the period of the
instant. -/
def ReturnsPeriod (s : Sys) : Prop :=
  ∀ r ∈ s.returned, ∀ type referenceDate timezone,
    r.key = some (idempotencyKey journalDatabaseId type
        (periodOf L type referenceDate timezone)) →
      r.item.databaseId = journalDatabaseId ∧ r.item.deletedAt = none ∧
        r.item.properties.get? "type" = some (.str type.name) ∧
        r.item.properties.get? "period" = some (.str (periodOf L type referenceDate timezone))

def Write.restores (databaseId itemId : ℕ) : Write → Bool
  | .setDeletedAt databaseId' itemId' none => databaseId' = databaseId ∧ itemId' = itemId
  | _ => false

def reservedItem (call : Call) : Option ℕ :=
  match call.phase with
  | .reserved itemId | .takeOver itemId => some itemId
  | _ => none

/-- A Journal item is taken out of the trash only while its key's row names it, and no other
transaction has written that row; a row is taken over only while its item is not live still, and no
other transaction has taken it out of the trash. -/
def ReservationKept (s : Sys) : Act → Prop
  | .restore t databaseId itemId =>
    ((s.view t).store.getItemById databaseId itemId).any (fun item => item.deletedAt.isSome) →
      ∀ c ∈ (s.view t).created, c.itemId = itemId → c.databaseId = databaseId →
        ∀ key ∈ c.key, isJournalKey key →
          (∃ row ∈ (s.view t).store.idempotencyKeys, row.key = key ∧ row.itemId = itemId) ∧
            ¬ s.db.Locked t (ItemCreates.Write.onKey key)
  | .other (.takeOver t) =>
    ∀ call ∈ s.calls t, ∀ itemId ∈ reservedItem call,
      s.liveItem t call.input.databaseId itemId = none ∧
        ¬ s.db.Locked t (Write.restores call.input.databaseId itemId)
  | _ => True

instance (s : Sys) : ∀ a, Decidable (ReservationKept s a)
  | .restore .. => by
    unfold ReservationKept
    infer_instance
  | .other a => by
    cases a <;> unfold ReservationKept <;> infer_instance
  | .getOrCreateJournalItem .. | .trash .. => isTrue trivial

end JournalItems

end Semprec
