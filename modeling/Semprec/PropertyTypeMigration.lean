import Mathlib.Data.List.Sort
import Mathlib.Logic.Function.Basic
import Semprec.Lib.Runs
import Semprec.Store

/-!
# Migrating the values of a retyped property

`runPropertyTypeMigrationJob` converts the values of one property in pages by id, each in a
transaction of its own, and then settles the status.  A retry starts over, at whatever an earlier
attempt has committed, so a value of the shape that the converters make is left as it is.
-/

namespace Semprec

namespace PropertyTypeMigration

/-! ## Converters -/

/-- What the host makes of texts and numbers: `Number(text)` when it is finite, `String(n)`, and
`Date.parse(text)` when it is a number. -/
structure Host where
  number : String → Option Decimal
  string : Decimal → String
  dateParse : String → Option ℤ

def civil (day : ℤ) : ℤ × ℕ × ℕ :=
  let era := (day + 719468) / 146097
  let dayOfEra := ((day + 719468) % 146097).toNat
  let yearOfEra := (dayOfEra - dayOfEra / 1460 + dayOfEra / 36524 - dayOfEra / 146096) / 365
  let dayOfYear := dayOfEra - (365 * yearOfEra + yearOfEra / 4 - yearOfEra / 100)
  -- months from March on
  let index := (5 * dayOfYear + 2) / 153
  let month := if index < 10 then index + 3 else index - 9
  (yearOfEra + era * 400 + if month ≤ 2 then 1 else 0, month, dayOfYear - (153 * index + 2) / 5 + 1)

def utcYear (ms : ℤ) : ℤ := (civil (ms / 86400000)).1

/-- The last digits of a number, this many. -/
def digits : ℕ → ℕ → List Char
  | 0, _ => []
  | width + 1, n => digits width (n / 10) ++ [Char.ofNat (48 + n % 10)]

def isoYear (year : ℤ) : List Char :=
  if 0 ≤ year ∧ year ≤ 9999 then digits 4 year.toNat
  else (if year < 0 then '-' else '+') :: digits 6 year.natAbs

/-- `new Date(ms).toISOString()`. -/
def toISOString (ms : ℤ) : String :=
  let date := civil (ms / 86400000)
  let time := (ms % 86400000).toNat
  String.ofList (isoYear date.1 ++ '-' :: digits 2 date.2.1 ++ '-' :: digits 2 date.2.2 ++
    'T' :: digits 2 (time / 3600000) ++ ':' :: digits 2 (time / 60000 % 60) ++
    ':' :: digits 2 (time / 1000 % 60) ++ '.' :: digits 3 (time % 1000) ++ ['Z'])

/-- Character by character, where `d` in the shape stands for a digit. -/
def matchesShape : List Char → List Char → Bool
  | [], [] => true
  | p :: shape, c :: text => (if p = 'd' then c.isDigit else c = p) && matchesShape shape text
  | _, _ => false

def ISO_8601_DATE (text : String) : Bool :=
  let times := ["Tdd:dd", "Tdd:dd:dd", "Tdd:dd:dd.d", "Tdd:dd:dd.dd", "Tdd:dd:dd.ddd"]
  let shapes := "" :: times.flatMap fun time => ["Z", "+dd:dd", "-dd:dd"].map (time ++ ·)
  shapes.any fun shape => matchesShape ("dddd-dd-dd" ++ shape).toList text.toList

def CONVERTED_DATE_SHAPE (text : String) : Bool :=
  matchesShape "dddd-dd-ddTdd:dd:dd.dddZ".toList text.toList

/-- What `trim` takes away. -/
def isWhiteSpace (c : Char) : Bool :=
  let n := c.toNat
  (9 ≤ n && n ≤ 13) || n ∈ [32, 160, 5760, 8232, 8233, 8239, 8287, 12288, 65279] ||
    (8192 ≤ n && n ≤ 8202)

variable (host : Host)

def CONVERTERS : PropertyType → PropertyType → Option (Json → Option Json)
  | .text, .number => some fun
    | .str value =>
      if value.toList.all isWhiteSpace then none else (host.number value).map .num
    | _ => none
  | .text, .date => some fun
    | .str value =>
      if ISO_8601_DATE value then
        (host.dateParse value).map fun parsed => .str (toISOString parsed)
      else none
    | _ => none
  | .number, .text => some fun
    | .num value => some (.str (host.string value))
    | _ => none
  | .date, .text => some fun
    | .str value => some (.str value)
    | _ => none
  | _, _ => none

/-- `none` is `{ ok: false }`. -/
def convertPropertyValue (source target : PropertyType) (value : Json) : Option Json :=
  if source = target then some value
  else match CONVERTERS host source target with
    | some converter => converter value
    | none => none

def isAlreadyTargetType : PropertyType → Json → Bool
  | .number, .num _ => true
  | .text, .str _ => true
  | .date, .str value => CONVERTED_DATE_SHAPE value
  | _, _ => false

/-! ## The job -/

/-- A row of `items`: its value of the property when the type changed, and now. -/
structure Item where
  id : ℕ
  original : Option Json
  value : Option Json
  updatedAt : ℤ

inductive Phase where
  | page (cursor : Option ℕ)
  | settle
deriving DecidableEq

/-- `migrationStatus` and `droppedValues` are the property's; several attempts can be under way, as
a worker can lose its job and go on. -/
structure Sys where
  items : List Item
  migrationStatus : MigrationStatus
  droppedValues : Bool
  attempts : ℕ → Option Phase

def pageSize : ℕ := 500

namespace Sys

/-- Items with these ids and values, as `changePropertyType` leaves them. -/
def init (items : List (ℕ × Option Json)) : Sys where
  items := items.map fun i => ⟨i.1, i.2, i.2, 0⟩
  migrationStatus := .pending
  droppedValues := false
  attempts := fun _ => none

variable (s : Sys)

def setAttempt (a : ℕ) (phase : Option Phase) : Sys :=
  { s with attempts := Function.update s.attempts a phase }

/-- The ids of `lockItemBatch`. -/
def batch (cursor : Option ℕ) : List ℕ :=
  (((s.items.map (·.id)).filter fun id => cursor.all (· < id)).insertionSort (· ≤ ·)).take pageSize

end Sys

def migrateItem (source target : PropertyType) (now : ℤ) (item : Item) : Item × Bool :=
  match item.value with
  | none => (item, false)
  | some value =>
    if source ≠ target ∧ isAlreadyTargetType target value = true then (item, false)
    else match convertPropertyValue host source target value with
      | some value => ({ item with value := some value, updatedAt := now }, false)
      | none => ({ item with value := none, updatedAt := now }, true)

def nextPhase (rows : List ℕ) : Phase :=
  match rows.getLast? with
  | none => .settle
  | some last => if rows.length < pageSize then .settle else .page (some last)

inductive Act where
  | start (attempt : ℕ)
  | commitBatch (attempt : ℕ) (now : ℤ)
  | settle (attempt : ℕ)
  /-- A crash, or an error that a retry follows. -/
  | fail (attempt : ℕ)
  | failFinally (attempt : ℕ)

variable (source target : PropertyType)

def step (s : Sys) : Act → Option Sys
  | .start a =>
    if s.attempts a = none then
      some { s.setAttempt a (some (.page none)) with migrationStatus := .running }
    else none
  | .commitBatch a now =>
    match s.attempts a with
    | some (.page cursor) =>
      let rows := s.batch cursor
      some { s.setAttempt a (some (nextPhase rows)) with
        items := s.items.map fun item =>
          if item.id ∈ rows then (migrateItem host source target now item).1 else item
        droppedValues := s.droppedValues || s.items.any fun item =>
          item.id ∈ rows && (migrateItem host source target now item).2 }
    | _ => none
  | .settle a =>
    if s.attempts a = some .settle then
      some { s.setAttempt a none with
        migrationStatus := if s.droppedValues then .partial_ else .done }
    else none
  | .fail a => (s.attempts a).map fun _ => s.setAttempt a none
  | .failFinally a =>
    (s.attempts a).map fun _ =>
      { s.setAttempt a none with droppedValues := true, migrationStatus := .partial_ }

/-! ## What a finished migration is to be -/

def Sys.Finished (s : Sys) : Prop := s.migrationStatus = .done ∨ s.migrationStatus = .partial_

/-- Every value is the conversion of the one the item had, the status says whether one was dropped,
and a converted value stays as it is when it is migrated again. -/
structure Sys.Migrated (s : Sys) : Prop where
  values : ∀ item ∈ s.items,
    item.value = item.original.bind (convertPropertyValue host source target)
  status : s.migrationStatus = .partial_ ↔
    ∃ item ∈ s.items, ∃ value ∈ item.original, convertPropertyValue host source target value = none
  again : ∀ item ∈ s.items, ∀ now, (migrateItem host source target now item).1.value = item.value ∧
    (migrateItem host source target now item).2 = false

/-- Only what the conversion makes has the shape of the target type, and what it makes has it: no
number among texts, no text among numbers, and of the texts that are to be dates those of the
converted shape are what `toISOString` writes, and the others have years of four digits. -/
def Fits (source target : PropertyType) (value : Json) : Prop :=
  source = target ∨
    match source, target, value with
    | .text, .date, .str text =>
      if CONVERTED_DATE_SHAPE text = true then (host.dateParse text).map toISOString = some text
      else ISO_8601_DATE text = true →
        ∀ ms ∈ host.dateParse text, 0 ≤ utcYear ms ∧ utcYear ms ≤ 9999
    | .date, .text, _ => True
    | _, target, value => isAlreadyTargetType target value = false

def NeverGivenUp (_ : Sys) : Act → Prop
  | .failFinally _ => False
  | _ => True

end PropertyTypeMigration

end Semprec
