import Mathlib.Data.Int.Notation
import Mathlib.Data.Nat.Notation
import Mathlib.Data.List.Basic
import Mathlib.Tactic.SplitIfs

/-!
# Heartbeat rules

The rules a heartbeat fires by, their validation and `computeNextFireAt`.  Instants are in
milliseconds.  The calendar arithmetic of a time zone is the library's (`Luxon`); what the
scheduler relies on is that its local days are numbered in order (`Luxon.Lawful`).
-/

namespace Semprec

namespace Scheduler

structure TimeOfDay where
  hour : ℕ
  minute : ℕ
deriving DecidableEq

def TimeOfDay.valid (at' : TimeOfDay) : Bool := at'.hour < 24 ∧ at'.minute < 60

inductive Weekday where
  | mon
  | tue
  | wed
  | thu
  | fri
  | sat
  | sun
deriving DecidableEq

def WEEKDAY_TO_LUXON : Weekday → ℤ
  | .mon => 1
  | .tue => 2
  | .wed => 3
  | .thu => 4
  | .fri => 5
  | .sat => 6
  | .sun => 7

inductive ItemEvent where
  | create
  | update
  | delete
deriving DecidableEq

/-- A rule as it is stored or received.  `fields` are the other fields of a module's rule, as
`jsonb` text. -/
inductive AnyHeartbeatRule where
  | dailyTime (at' : TimeOfDay)
  | weekly (days : List Weekday) (at' : TimeOfDay)
  | everyNDays (n : ℤ) (at' : TimeOfDay)
  | interval (minutes : ℤ)
  | onItemEvent (databaseId : ℕ) (event : ItemEvent)
  | module (kind fields : String)
deriving DecidableEq

namespace AnyHeartbeatRule

def isOnItemEvent : AnyHeartbeatRule → Bool
  | .onItemEvent _ _ => true
  | _ => false

def isFloating : AnyHeartbeatRule → Bool
  | .everyNDays _ _ | .interval _ => true
  | _ => false

/-- What core's schema accepts. -/
def coreValid : AnyHeartbeatRule → Bool
  | .dailyTime at' => at'.valid
  | .weekly days at' => days ≠ [] ∧ at'.valid
  | .everyNDays n at' => 0 < n ∧ at'.valid
  | .interval minutes => 0 < minutes
  | .onItemEvent _ _ => true
  | .module _ _ => false

end AnyHeartbeatRule

/-- The time-zone library: the number of the local day of an instant (day 0 is 1970-01-01), the
instant of a local time on that day, and the same local time some days later. -/
structure Luxon where
  Timezone : Type
  dayOf : Timezone → ℤ → ℤ
  set : Timezone → ℤ → TimeOfDay → ℤ
  plusDays : Timezone → ℤ → ℤ → ℤ

/-- The laws of zones whose clock never jumps over a midnight nor up to one, and never falls back
across one (America/Nuuk does the first since 2024, America/St_Johns did the other until 2011). -/
structure Luxon.Lawful (L : Luxon) : Prop where
  lt_of_dayOf_lt : ∀ tz a b, L.dayOf tz a < L.dayOf tz b → a < b
  dayOf_set : ∀ tz a at', at'.valid = true → L.dayOf tz (L.set tz a at') = L.dayOf tz a
  dayOf_plusDays : ∀ tz a n, L.dayOf tz (L.plusDays tz a n) = L.dayOf tz a + n

/-- Monday is 1, and 1970-01-01 was a Thursday. -/
def Luxon.weekday (L : Luxon) (tz : L.Timezone) (a : ℤ) : ℤ := (L.dayOf tz a + 3) % 7 + 1

variable {L : Luxon}

structure HeartbeatRuleKindHandler (L : Luxon) where
  safeParse : String → Option String
  nextFireAt : String → L.Timezone → ℤ → Option ℤ

/-- A module's calculator computes a next instant, strictly later than the given one. -/
def HeartbeatRuleKindHandler.Lawful (handler : HeartbeatRuleKindHandler L) : Prop :=
  ∀ fields tz after, ∃ v, handler.nextFireAt fields tz after = some v ∧ after < v

abbrev HeartbeatRuleKindRegistry (L : Luxon) := String → Option (HeartbeatRuleKindHandler L)

inductive RuleError where
  | validationFailed
  | unknownKind (kind : String)
  | invalidModuleRule (kind : String)
  | noCalculator (kind : String)
  | noMatchingWeekday
deriving DecidableEq

def parseHeartbeatRule (raw : AnyHeartbeatRule) (moduleRuleKinds : HeartbeatRuleKindRegistry L) :
    Except RuleError AnyHeartbeatRule :=
  match raw with
  | .module kind fields =>
    match moduleRuleKinds kind with
    | none => .error (.unknownKind kind)
    | some handler =>
      match handler.safeParse fields with
      | none => .error (.invalidModuleRule kind)
      | some data => .ok (.module kind data)
  | _ => if raw.coreValid then .ok raw else .error .validationFailed

def weeklyCandidate (L : Luxon) (tz : L.Timezone) (reference : ℤ) (days : List Weekday)
    (at' : TimeOfDay) : List ℕ → Option ℤ
  | [] => none
  | offset :: offsets =>
    let day := L.plusDays tz reference offset
    if L.weekday tz day ∈ days.map WEEKDAY_TO_LUXON ∧ reference < L.set tz day at' then
      some (L.set tz day at')
    else weeklyCandidate L tz reference days at' offsets

def computeNextFireAt (rule : AnyHeartbeatRule) (tz : L.Timezone) (after : ℤ)
    (moduleRuleKinds : HeartbeatRuleKindRegistry L) : Except RuleError (Option ℤ) :=
  match rule with
  | .module kind fields =>
    match moduleRuleKinds kind with
    | none => .error (.noCalculator kind)
    | some handler => .ok (handler.nextFireAt fields tz after)
  | .dailyTime at' =>
    let candidate := L.set tz after at'
    if candidate ≤ after then .ok (some (L.plusDays tz candidate 1)) else .ok (some candidate)
  | .weekly days at' =>
    match weeklyCandidate L tz after days at' (List.range 8) with
    | some candidate => .ok (some candidate)
    | none => .error .noMatchingWeekday
  | .everyNDays n at' => .ok (some (L.set tz (L.plusDays tz after n) at'))
  | .interval minutes => .ok (some (after + minutes * 60000))
  | .onItemEvent _ _ => .ok none

section laws

variable {moduleRuleKinds : HeartbeatRuleKindRegistry L} {raw rule : AnyHeartbeatRule}

theorem parseHeartbeatRule_of_coreValid (h : rule.coreValid = true) :
    parseHeartbeatRule rule moduleRuleKinds = .ok rule := by
  cases rule with
  | module kind fields => cases h
  | _ =>
    unfold parseHeartbeatRule
    rw [if_pos h]

def AnyHeartbeatRule.Parsed (rule : AnyHeartbeatRule) : Prop :=
  rule.coreValid = true ∨ ∃ kind fields, rule = .module kind fields

theorem parsed_of_parseHeartbeatRule (h : parseHeartbeatRule raw moduleRuleKinds = .ok rule) :
    rule.Parsed := by
  unfold parseHeartbeatRule at h
  split at h
  · split at h
    · cases h
    · split at h
      · cases h
      · cases h
        exact .inr ⟨_, _, rfl⟩
  · split_ifs at h with hv
    cases h
    exact .inl hv

theorem parseHeartbeatRule_isOnItemEvent
    (h : parseHeartbeatRule raw moduleRuleKinds = .ok rule) :
    rule.isOnItemEvent = raw.isOnItemEvent := by
  unfold parseHeartbeatRule at h
  split at h
  · split at h
    · cases h
    · split at h <;> cases h
      rfl
  · split_ifs at h
    cases h
    rfl

theorem weeklyCandidate_later {tz : L.Timezone} {after v : ℤ} {days : List Weekday}
    {at' : TimeOfDay} {offsets : List ℕ}
    (h : weeklyCandidate L tz after days at' offsets = some v) : after < v := by
  induction offsets with
  | nil => cases h
  | cons offset offsets ih =>
    unfold weeklyCandidate at h
    simp only [] at h
    split_ifs at h with hc
    · cases h
      exact hc.2
    · exact ih h

/-- The next instant of a parsed rule is strictly later than `after`, and a rule other than
`onItemEvent` has one. -/
theorem computeNextFireAt_later (hL : L.Lawful)
    (hm : ∀ kind handler, moduleRuleKinds kind = some handler → handler.Lawful)
    (hr : rule.Parsed) (ht : rule.isOnItemEvent = false) {tz : L.Timezone} {after : ℤ}
    {next : Option ℤ} (h : computeNextFireAt rule tz after moduleRuleKinds = .ok next) :
    ∃ v, next = some v ∧ after < v := by
  unfold computeNextFireAt at h
  cases rule with
  | module kind fields =>
    simp only [] at h
    split at h
    · cases h
    · rename_i handler hh
      cases h
      obtain ⟨v, hv, hlt⟩ := hm kind handler hh fields tz after
      exact ⟨v, hv, hlt⟩
  | dailyTime at' =>
    have hv : at'.valid = true := by
      rcases hr with hr | ⟨_, _, hr⟩
      · exact hr
      · cases hr
    simp only [] at h
    split_ifs at h with hc
    · cases h
      refine ⟨_, rfl, hL.lt_of_dayOf_lt tz _ _ ?_⟩
      rw [hL.dayOf_plusDays, hL.dayOf_set tz after at' hv]
      omega
    · cases h
      exact ⟨_, rfl, by omega⟩
  | weekly days at' =>
    simp only [] at h
    split at h
    · rename_i v hv
      cases h
      exact ⟨v, rfl, weeklyCandidate_later hv⟩
    · cases h
  | everyNDays n at' =>
    have hv : 0 < n ∧ at'.valid = true := by
      rcases hr with hr | ⟨_, _, hr⟩
      · simpa [AnyHeartbeatRule.coreValid] using hr
      · cases hr
    cases h
    refine ⟨_, rfl, hL.lt_of_dayOf_lt tz _ _ ?_⟩
    rw [hL.dayOf_set tz _ at' hv.2, hL.dayOf_plusDays]
    omega
  | interval minutes =>
    have hv : 0 < minutes := by
      rcases hr with hr | ⟨_, _, hr⟩
      · simpa [AnyHeartbeatRule.coreValid] using hr
      · cases hr
    cases h
    exact ⟨_, rfl, by omega⟩
  | onItemEvent databaseId event => cases ht

theorem computeNextFireAt_floating (hr : rule.isFloating = true) (tz : L.Timezone) (after : ℤ) :
    ∃ next, computeNextFireAt rule tz after moduleRuleKinds = .ok next := by
  cases rule with
  | everyNDays n at' => exact ⟨_, rfl⟩
  | interval minutes => exact ⟨_, rfl⟩
  | _ => cases hr

theorem coreValid_of_floating (hr : rule.Parsed) (hf : rule.isFloating = true) :
    rule.coreValid = true := by
  rcases hr with hr | ⟨kind, fields, rfl⟩
  · exact hr
  · cases hf

theorem isOnItemEvent_of_floating (hf : rule.isFloating = true) : rule.isOnItemEvent = false := by
  cases rule with
  | onItemEvent databaseId event => cases hf
  | _ => rfl

end laws

/-- The calendar of a zone without offset changes. -/
def Luxon.utc : Luxon where
  Timezone := Unit
  dayOf _ a := a / 86400000
  set _ a at' := a / 86400000 * 86400000 + (at'.hour * 60 + at'.minute) * 60000
  plusDays _ a n := a + n * 86400000

theorem Luxon.utc_lawful : Luxon.utc.Lawful := by
  refine ⟨fun _ a b h => ?_, fun _ a at' h => ?_, fun _ a n => ?_⟩
  · simp only [Luxon.utc] at h
    omega
  · simp only [TimeOfDay.valid, decide_eq_true_eq] at h
    simp only [Luxon.utc]
    omega
  · simp only [Luxon.utc]
    omega

end Scheduler

end Semprec
