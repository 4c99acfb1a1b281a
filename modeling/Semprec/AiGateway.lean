import Mathlib.Algebra.Order.Ring.Rat
import Mathlib.Logic.Function.Basic
import Semprec.Lib.Runs
import Semprec.PropertyTypeMigration

/-!
# The AI budget

A gateway call reserves its estimate in a transaction that holds the budget's advisory lock, calls
the provider, and then settles its row at the real cost, or fails it.  A transaction's `now()` is
when it began, which is before it has the lock; it is the time of its row and of the windows it is
checked against.
-/

namespace Semprec

namespace AiGateway

/-! ## Windows -/

/-- A zone of the time zone database: its first offset from UTC in seconds, and the instants at
which it changes, in order, each with the offset from then on. -/
structure Timezone where
  standard : ℤ
  transitions : List (ℤ × ℤ)

namespace Timezone

variable (z : Timezone)

def utc : Timezone := ⟨0, []⟩

def utcOffset (instant : ℤ) : ℤ :=
  (((z.transitions.filter fun change => change.1 ≤ instant).getLast?).map fun change =>
    change.2).getD z.standard

/-- `timestamptz AT TIME ZONE z`. -/
def toLocal (instant : ℤ) : ℤ := instant + z.utcOffset instant

/-- `timestamp AT TIME ZONE z`: of two instants at which the clock shows this time the later one,
and for a time the clock skips the offset before the change. -/
def toInstant (time : ℤ) : ℤ :=
  let instants := ((z.standard :: z.transitions.map fun change => change.2).map fun offset =>
    time - offset).filter fun instant => z.toLocal instant = time
  match instants.max? with
  | some instant => instant
  | none =>
    match z.transitions.find? fun change =>
      change.1 + z.utcOffset (change.1 - 1) ≤ time ∧ time < change.1 + change.2 with
    | some change => time - z.utcOffset (change.1 - 1)
    | none => time - z.standard

end Timezone

inductive Period where
  | day
  | month
deriving DecidableEq

def secondsOfDay : ℤ := 86400

/-- `date_trunc` on a timestamp without a zone. -/
def Period.trunc : Period → ℤ → ℤ
  | .day, time => time / secondsOfDay * secondsOfDay
  | .month, time =>
    let day := time / secondsOfDay
    (day - ((PropertyTypeMigration.civil day).2.2 - 1 : ℕ)) * secondsOfDay

/-! ## Calls -/

inductive Status where
  | reserved
  | settled
  | failed
deriving DecidableEq

structure AiGatewayCallRow where
  id : ℕ
  tenantId : ℕ
  at_ : ℤ
  costUsd : ℚ
  status : Status
  estimate : ℚ
  moves : List Status
deriving DecidableEq

structure Limit where
  tenantId : Option ℕ
  period : Period
  timezone : Timezone
  capUsd : ℚ

namespace Limit

variable (l : Limit)

def window (instant : ℤ) : ℤ := l.period.trunc (l.timezone.toLocal instant)

def windowStart (now : ℤ) : ℤ := l.timezone.toInstant (l.window now)

def covers (row : AiGatewayCallRow) : Bool := l.tenantId.all fun tenantId => row.tenantId = tenantId

/-- The sum of `getGatewaySpend` or of `ai_global_spend()`. -/
def spent (rows : List AiGatewayCallRow) (now : ℤ) : ℚ :=
  ((rows.filter fun row => l.covers row ∧ l.windowStart now ≤ row.at_).map fun row =>
    row.costUsd).sum

def windowRows (rows : List AiGatewayCallRow) (window : ℤ) : List AiGatewayCallRow :=
  rows.filter fun row => l.covers row ∧ l.window row.at_ = window

end Limit

structure TenantAiBudget where
  dailyCapUsd : Option ℚ
  monthlyCapUsd : Option ℚ

structure Config where
  budget : ℕ → Option TenantAiBudget
  timezone : ℕ → Timezone
  globalDailyCapUsd : ℚ
  globalMonthlyCapUsd : ℚ

namespace Config

variable (config : Config)

def tenantLimits (tenantId : ℕ) : List Limit :=
  match config.budget tenantId with
  | none => []
  | some budget =>
    (budget.dailyCapUsd.toList.map fun cap =>
      ⟨some tenantId, .day, config.timezone tenantId, cap⟩) ++
    budget.monthlyCapUsd.toList.map fun cap =>
      ⟨some tenantId, .month, config.timezone tenantId, cap⟩

def globalLimits : List Limit :=
  [⟨none, .day, .utc, config.globalDailyCapUsd⟩, ⟨none, .month, .utc, config.globalMonthlyCapUsd⟩]

def limits (tenantId : ℕ) : List Limit := config.tenantLimits tenantId ++ config.globalLimits

/-- Whether `assertWithinBudget` lets the call through. -/
def withinBudget (rows : List AiGatewayCallRow) (tenantId : ℕ) (now : ℤ) : Bool :=
  (config.budget tenantId).isSome &&
    (config.limits tenantId).all fun l => decide (l.spent rows now < l.capUsd)

end Config

/-- Where a gateway call stands. -/
inductive Phase where
  /-- The reserving transaction has begun, and waits for the lock. -/
  | began
  | locked
  | checked
  | reserved
  | invoked
  /-- The provider has answered; `attempts` settles have failed. -/
  | succeeded (costUsd : ℚ) (attempts : ℕ)
  | rejected
deriving DecidableEq

structure Call where
  tenantId : ℕ
  now : ℤ
  estimatedCostUsd : ℚ
  phase : Phase

/-- `lock` is the call whose transaction holds the advisory lock, and `invoked` the calls whose
provider has been invoked. -/
structure Sys where
  rows : List AiGatewayCallRow
  calls : ℕ → Option Call
  used : List ℕ
  lock : Option ℕ
  invoked : List ℕ

def Sys.init : Sys := ⟨[], fun _ => none, [], none, []⟩

namespace Sys

variable (s : Sys) (c : ℕ)

def setCall (call : Option Call) : Sys := { s with calls := Function.update s.calls c call }

/-- The lock is released with its transaction. -/
def unlock : Sys := { s with lock := s.lock.filter (· ≠ c) }

/-- `UPDATE … WHERE id = c AND status = 'reserved'`. -/
def moveRow (status : Status) (costUsd : ℚ) : Sys :=
  { s with rows := s.rows.map fun row =>
      if row.id = c ∧ row.status = .reserved then
        { row with status, costUsd, moves := row.moves ++ [status] }
      else row }

end Sys

def settleMaxAttempts : ℕ := 3

inductive Act where
  | call (c tenantId : ℕ) (estimatedCostUsd : ℚ) (now : ℤ)
  | acquireLock (c : ℕ)
  | assertWithinBudget (c : ℕ)
  | commitReservation (c : ℕ)
  | invoke (c : ℕ)
  | providerReturns (c : ℕ) (costUsd : ℚ)
  | providerRejects (c : ℕ)
  | settle (c : ℕ)
  | settleFails (c : ℕ)
  | fail (c : ℕ)
  /-- The process ends, or a statement fails, and the call's open transaction rolls back. -/
  | crash (c : ℕ)

variable (config : Config)

def step (s : Sys) : Act → Option Sys
  | .call c tenantId estimatedCostUsd now =>
    if c ∉ s.used ∧ 0 ≤ estimatedCostUsd then
      some { s.setCall c (some ⟨tenantId, now, estimatedCostUsd, .began⟩) with used := c :: s.used }
    else none
  | .acquireLock c =>
    match s.calls c with
    | some ⟨tenantId, now, estimate, .began⟩ =>
      if s.lock = none then
        some { s.setCall c (some ⟨tenantId, now, estimate, .locked⟩) with lock := some c }
      else none
    | _ => none
  | .assertWithinBudget c =>
    match s.calls c with
    | some ⟨tenantId, now, estimate, .locked⟩ =>
      if config.withinBudget s.rows tenantId now then
        some (s.setCall c (some ⟨tenantId, now, estimate, .checked⟩))
      else some ((s.setCall c none).unlock c)
    | _ => none
  | .commitReservation c =>
    match s.calls c with
    | some ⟨tenantId, now, estimate, .checked⟩ =>
      some { (s.setCall c (some ⟨tenantId, now, estimate, .reserved⟩)).unlock c with
        rows := s.rows ++ [⟨c, tenantId, now, estimate, .reserved, estimate, []⟩] }
    | _ => none
  | .invoke c =>
    match s.calls c with
    | some ⟨tenantId, now, estimate, .reserved⟩ =>
      some { s.setCall c (some ⟨tenantId, now, estimate, .invoked⟩) with
        invoked := s.invoked ++ [c] }
    | _ => none
  | .providerReturns c costUsd =>
    match s.calls c with
    | some ⟨tenantId, now, estimate, .invoked⟩ =>
      if 0 ≤ costUsd ∧ costUsd ≤ estimate then
        some (s.setCall c (some ⟨tenantId, now, estimate, .succeeded costUsd 0⟩))
      else none
    | _ => none
  | .providerRejects c =>
    match s.calls c with
    | some ⟨tenantId, now, estimate, .invoked⟩ =>
      some (s.setCall c (some ⟨tenantId, now, estimate, .rejected⟩))
    | _ => none
  | .settle c =>
    match s.calls c with
    | some ⟨_, _, _, .succeeded costUsd _⟩ => some ((s.moveRow c .settled costUsd).setCall c none)
    | _ => none
  | .settleFails c =>
    match s.calls c with
    | some ⟨tenantId, now, estimate, .succeeded costUsd attempts⟩ =>
      some (s.setCall c (if settleMaxAttempts ≤ attempts + 1 then none
        else some ⟨tenantId, now, estimate, .succeeded costUsd (attempts + 1)⟩))
    | _ => none
  | .fail c =>
    match s.calls c with
    | some ⟨_, _, _, .rejected⟩ => some ((s.moveRow c .failed 0).setCall c none)
    | _ => none
  | .crash c => (s.calls c).map fun _ => (s.setCall c none).unlock c

/-! ## What the budget is to bound -/

/-- Each capped window has cost less than its cap and one of its calls' estimates, if it has a call
at all; a provider has been invoked for committed reservations only; and a row has moved once at
most, from `reserved`. -/
structure Sys.WithinCaps (s : Sys) : Prop where
  windows : ∀ tenantId, ∀ l ∈ config.limits tenantId, ∀ window,
    l.windowRows s.rows window = [] ∨ ∃ row ∈ l.windowRows s.rows window,
      ((l.windowRows s.rows window).map fun row => row.costUsd).sum < l.capUsd + row.estimate
  invoked : ∀ c ∈ s.invoked, ∃ row ∈ s.rows, row.id = c
  moves : ∀ row ∈ s.rows, (row.moves = [] ∧ row.status = .reserved) ∨
    ∃ status, row.moves = [status] ∧ row.status = status ∧ status ≠ .reserved

/-- A reservation is made when each capped window of its tenant has begun: local midnight is not
still to come, as it is when the clock shows the hour after midnight for the first of two times. -/
def WindowsBegun (s : Sys) : Act → Prop
  | .commitReservation c => ∀ call ∈ s.calls c, ∀ l ∈ config.tenantLimits call.tenantId,
      l.windowStart call.now ≤ call.now
  | _ => True

end AiGateway

end Semprec
