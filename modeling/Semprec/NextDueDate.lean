import Semprec.Lib.Calendar
import Mathlib.Data.List.Basic

/-!
# Due dates of recurring tasks

The rules a task recurs by, their validation and `computeNextDueDate`.  The `DateTime`s and their
arithmetic are the date library's (`Luxon`).
-/

namespace Semprec

namespace Tasks

open Calendar

inductive Weekday where
  | mon
  | tue
  | wed
  | thu
  | fri
  | sat
  | sun
deriving DecidableEq

def WEEKDAY_TO_LUXON : Weekday → ℤ
  | .mon => 1
  | .tue => 2
  | .wed => 3
  | .thu => 4
  | .fri => 5
  | .sat => 6
  | .sun => 7

inductive FixedRecurrenceRule where
  | weekdays (days : List Weekday)
  | monthDates (dates : List ℤ)
  | nthWeekday (n : ℤ) (weekday : Weekday)
deriving DecidableEq

inductive FloatingUnit where
  | days
  | weeks
  | months
deriving DecidableEq

structure FloatingRecurrenceRule where
  unit : FloatingUnit
  n : ℤ
deriving DecidableEq

inductive TaskRecurrenceMode where
  | fixed
  | floating
deriving DecidableEq

inductive TaskRecurrenceRule where
  | fixed (rule : FixedRecurrenceRule)
  | floating (rule : FloatingRecurrenceRule)
deriving DecidableEq

def FixedRecurrenceRule.valid : FixedRecurrenceRule → Bool
  | .weekdays days => days ≠ []
  | .monthDates dates => dates ≠ [] ∧ ∀ d ∈ dates, 1 ≤ d ∧ d ≤ 31
  | .nthWeekday n _ => n ≠ 0

def FloatingRecurrenceRule.valid (rule : FloatingRecurrenceRule) : Bool := 0 < rule.n

@[grind =] def parseTaskRecurrenceRule (mode : TaskRecurrenceMode) (raw : TaskRecurrenceRule) :
    Option TaskRecurrenceRule :=
  match mode, raw with
  | .fixed, .fixed rule => if rule.valid then some raw else none
  | .floating, .floating rule => if rule.valid then some raw else none
  | _, _ => none

/-- The library's `DateTime`s in one time zone.  An operation gives none where its result is
invalid, and what is made of an invalid `DateTime` is invalid.  Weekday and month are the date's. -/
structure Luxon where
  DateTime : Type
  fromJSDate : ℤ → Option DateTime
  date : DateTime → Date
  valueOf : DateTime → ℤ
  startOfDay : DateTime → Option DateTime
  startOfMonth : DateTime → Option DateTime
  endOfMonth : DateTime → Option DateTime
  plusDays : DateTime → ℤ → Option DateTime
  plusWeeks : DateTime → ℤ → Option DateTime
  plusMonths : DateTime → ℤ → Option DateTime

section library

variable (L : Luxon)

def nthWeekdayOfMonth (monthStart : L.DateTime) (weekday : Weekday) (n : ℤ) : Option L.DateTime :=
  let targetWeekday := WEEKDAY_TO_LUXON weekday
  if 0 < n then
    let firstOfKind := L.plusDays monthStart ((targetWeekday - (L.date monthStart).weekday + 7) % 7)
    firstOfKind.bind (L.plusWeeks · (n - 1))
  else
    -- counted back from the last day of the month
    ((L.endOfMonth monthStart).bind L.startOfDay).bind fun monthEnd =>
      let lastOfKind := L.plusDays monthEnd (-(((L.date monthEnd).weekday - targetWeekday + 7) % 7))
      lastOfKind.bind (L.plusWeeks · (n + 1))

def nthWeekdayCandidate (n : ℤ) (weekday : Weekday) (reference : L.DateTime) (monthOffset : ℕ) :
    Option L.DateTime :=
  ((L.startOfMonth reference).bind (L.plusMonths · monthOffset)).bind fun monthStart =>
    ((nthWeekdayOfMonth L monthStart weekday n).bind L.startOfDay).filter fun candidate =>
      (L.date candidate).month % 12 = (L.date monthStart).month % 12 ∧
        L.valueOf reference < L.valueOf candidate

def sweep (p : Date → Bool) (reference : L.DateTime) (days : ℕ) : Option L.DateTime :=
  (List.range days).findSome? fun offset : ℕ =>
    ((L.plusDays reference (offset + 1)).bind L.startOfDay).filter fun candidate =>
      p (L.date candidate)

@[grind =] def nextFixedDate (rule : FixedRecurrenceRule) (reference : Option L.DateTime) :
    Except String L.DateTime :=
  match rule with
  | .weekdays days =>
    match reference.bind (sweep L (fun d => d.weekday ∈ days.map WEEKDAY_TO_LUXON) · 7) with
    | some candidate => .ok candidate
    | none =>
      .error "weekdays rule has no matching weekday — unreachable, days is validated non-empty"
  | .monthDates dates =>
    match reference.bind (sweep L (fun d => (d.day : ℤ) ∈ dates) · 366) with
    | some candidate => .ok candidate
    | none =>
      .error "monthDates rule matched no date within a year — unreachable, dates is validated 1-31"
  | .nthWeekday n weekday =>
    match reference.bind fun reference =>
        (List.range 13).findSome? (nthWeekdayCandidate L n weekday reference) with
    | some candidate => .ok candidate
    | none =>
      .error "nthWeekday rule matched no date within a year — unreachable for a valid n/weekday"

def nextFloatingDate (rule : FloatingRecurrenceRule) (reference : L.DateTime) : Option L.DateTime :=
  let next := match rule.unit with
    | .days => L.plusDays reference rule.n
    | .weeks => L.plusWeeks reference rule.n
    | .months => L.plusMonths reference rule.n
  next.bind L.startOfDay

def referenceDateTime (reference : ℤ) : Option L.DateTime :=
  (L.fromJSDate reference).bind L.startOfDay

/-- An invalid `DateTime` has no ISO text. -/
@[grind =] def computeNextDueDate (rule : TaskRecurrenceRule) (reference : ℤ) :
    Except String (Option Date) :=
  match rule with
  | .fixed rule => (nextFixedDate L rule (referenceDateTime L reference)).map fun d => L.date d
  | .floating rule =>
    .ok (((referenceDateTime L reference).bind (nextFloatingDate L rule)).map L.date)

end library

end Tasks

end Semprec
