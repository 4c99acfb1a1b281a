import Semprec.HeartbeatRules
import Mathlib.Data.Int.Order.Basic

/-!
# The next fire time in a zone with offset changes

`computeNextFireAt` once more, with the date library's own arithmetic in place of the abstract
calendar: a zone is its offset as a function of the instant, a local time is resolved by guessing
with the offset of the `DateTime` it was made from, and the platform's dates end.
-/

namespace Semprec

namespace Scheduler

def dayLength : ℤ := 86400000

/-- The platform's last date, and its first one negated. -/
def maxTime : ℤ := 8640000000000000

def holds (t : ℤ) : Bool := -maxTime ≤ t ∧ t ≤ maxTime

def maxOffset : ℤ := 57600000

/-- The offset from UTC of every instant.  It is shorter than sixteen hours, and it changes at most
once in four days. -/
structure Zone where
  offset : ℤ → ℤ
  offset_bounds : ∀ t, -maxOffset < offset t ∧ offset t < maxOffset
  changes : ∀ a b c, a ≤ b → b ≤ c → c - a ≤ 4 * dayLength →
    offset a = offset b ∨ offset b = offset c

def TimeOfDay.millis (at' : TimeOfDay) : ℤ := ((at'.hour : ℤ) * 60 + at'.minute) * 60000

/-- Monday is 1, and 1970-01-01, which is day 0, was a Thursday. -/
def weekdayOf (day : ℤ) : ℤ := (day + 3) % 7 + 1

namespace Zone

variable (zone : Zone) (t : ℤ)

def localTime : ℤ := t + zone.offset t

def day : ℤ := zone.localTime t / dayLength

/-- A valid `DateTime` is its instant; the platform holds it and its local fields. -/
def dateTime : Option ℤ := if holds t ∧ holds (zone.localTime t) then some t else none

/-- The offset `o` is a guess.  Where the offset of neither guess holds, the local time is taken to
be in a hole, and is not adjusted. -/
def fixOffset (localTS o : ℤ) : ℤ :=
  let o2 := zone.offset (localTS - o)
  if o = o2 then localTS - o
  else
    let o3 := zone.offset (localTS - o2)
    if o2 = o3 then localTS - o2 else localTS - min o2 o3

/-- The offset at what is no date of the platform is no number, and neither is what is made of it. -/
def resolve (localTS o : ℤ) : Option ℤ :=
  let o2 := zone.offset (localTS - o)
  if holds localTS ∧ holds (localTS - o) ∧ (o = o2 ∨ holds (localTS - o2)) then
    zone.dateTime (zone.fixOffset localTS o)
  else none

def plusDays (n : ℤ) : Option ℤ := zone.resolve (zone.localTime t + n * dayLength) (zone.offset t)

def plusMinutes (n : ℤ) : Option ℤ := zone.dateTime (t + n * 60000)

def atLocalTime (at' : TimeOfDay) : Option ℤ :=
  zone.resolve (zone.day t * dayLength + at'.millis) (zone.offset t)

/-- An invalid `DateTime` has no weekday, and is not later than the reference. -/
def weeklyCandidate (reference : ℤ) (days : List Weekday) (at' : TimeOfDay) : List ℕ → Option ℤ
  | [] => none
  | offset :: offsets =>
    match (zone.plusDays reference offset).filter fun day =>
        weekdayOf (zone.day day) ∈ days.map WEEKDAY_TO_LUXON with
    | none => weeklyCandidate reference days at' offsets
    | some day =>
      match (zone.atLocalTime day at').filter (reference < ·) with
      | none => weeklyCandidate reference days at' offsets
      | some candidate => some candidate

/-- The result is null, or a date, which is an Invalid Date where the library's is invalid. -/
def computeNextFireAt (rule : AnyHeartbeatRule) (after : ℤ)
    (moduleRuleKinds : String → Option (String → Zone → ℤ → Option (Option ℤ))) :
    Except RuleError (Option (Option ℤ)) :=
  let reference := zone.dateTime after
  match rule with
  | .module kind fields =>
    match moduleRuleKinds kind with
    | none => .error (.noCalculator kind)
    | some nextFireAt => .ok (nextFireAt fields zone after)
  | .dailyTime at' =>
    match reference.bind (zone.atLocalTime · at') with
    | none => .ok (some none)
    | some candidate =>
      if candidate ≤ after then .ok (some (zone.plusDays candidate 1))
      else .ok (some (some candidate))
  | .weekly days at' =>
    match reference.bind (zone.weeklyCandidate · days at' (List.range 8)) with
    | some candidate => .ok (some (some candidate))
    | none => .error .noMatchingWeekday
  | .everyNDays n at' =>
    .ok (some ((reference.bind (zone.plusDays · n)).bind (zone.atLocalTime · at')))
  | .interval minutes => .ok (some (reference.bind (zone.plusMinutes · minutes)))
  | .onItemEvent _ _ => .ok none

end Zone

end Scheduler

end Semprec
