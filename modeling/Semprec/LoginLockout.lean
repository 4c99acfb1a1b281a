import Mathlib.Algebra.Group.Nat.Defs
import Mathlib.Data.List.MinMax
import Mathlib.Data.Nat.Notation
import Mathlib.Logic.Function.Basic
import Semprec.Lib.Runs

/-!
# Lockout of an email and an IP

`login` and `deleteOwnAccount` read the failure streak of their pair of normalised email and IP,
check the password outside any transaction, and record the failure in a statement of its own.  Only
a login that succeeds records its success, with the time its transaction began.
-/

namespace Semprec

namespace LoginLockout

/-- A normalised email and an IP. -/
abbrev Pair := String × String

/-- `attemptedAt` is in microseconds. -/
structure LoginAttemptRow where
  pair : Pair
  succeeded : Bool
  attemptedAt : ℕ
deriving DecidableEq

structure FailureStreak where
  count : ℕ
  lastFailedAt : Option ℕ
deriving DecidableEq

def lockoutThreshold : ℕ := 5

def lockoutBaseSeconds : ℕ := 30

def lockoutMaxSeconds : ℕ := 60 * 60

@[grind =] def lockoutDurationSeconds (failureCount : ℕ) : ℕ :=
  if failureCount < lockoutThreshold then 0
  else min (lockoutBaseSeconds * 2 ^ (failureCount - lockoutThreshold)) lockoutMaxSeconds

def lastSuccessAt (attempts : List LoginAttemptRow) (pair : Pair) : Option ℕ :=
  ((attempts.filter fun a => a.pair = pair ∧ a.succeeded = true).map fun a => a.attemptedAt).max?

def failures (attempts : List LoginAttemptRow) (pair : Pair) : List LoginAttemptRow :=
  attempts.filter fun a => a.pair = pair ∧ a.succeeded = false ∧
    (lastSuccessAt attempts pair).all fun t => t < a.attemptedAt

def getFailureStreak (attempts : List LoginAttemptRow) (pair : Pair) : FailureStreak :=
  ⟨(failures attempts pair).length, ((failures attempts pair).map fun a => a.attemptedAt).max?⟩

/-- `Date.now()` and the time of a row are in milliseconds in the process. -/
def FailureStreak.locked (streak : FailureStreak) (now : ℕ) : Bool :=
  match streak.lastFailedAt with
  | none => false
  | some lastFailedAt =>
    now / 1000 < lastFailedAt / 1000 + lockoutDurationSeconds streak.count * 1000

inductive RequestKind where
  | login
  | deleteOwnAccount
deriving DecidableEq

inductive Phase where
  | streakRead (streak : FailureStreak)
  /-- Not locked out: the password is checked next. -/
  | unlocked (streak : FailureStreak)
  /-- The failed attempt is to be recorded; `verified` if its password was checked. -/
  | failed (verified : Bool)
  | authenticated
  /-- The transaction of the session has begun. -/
  | inTransaction (startedAt : ℕ)
deriving DecidableEq

structure Request where
  kind : RequestKind
  pair : Pair
  phase : Phase
deriving DecidableEq

/-- `unrecorded` counts the pair's wrong passwords whose failure is not recorded yet, `guesses` the
wrong passwords checked since its last success while no lockout applied, and `lockedChecks` the
passwords checked while the pair was locked out. -/
structure Sys where
  attempts : List LoginAttemptRow
  now : ℕ
  requests : ℕ → Option Request
  unrecorded : Pair → ℕ
  guesses : Pair → ℕ
  lockedChecks : List Pair

def Sys.init : Sys := ⟨[], 0, fun _ => none, fun _ => 0, fun _ => 0, []⟩

namespace Sys

variable (s : Sys)

def streak (pair : Pair) : FailureStreak := getFailureStreak s.attempts pair

def setRequest (r : ℕ) (request : Option Request) : Sys :=
  { s with requests := Function.update s.requests r request }

def recordLoginAttempt (a : LoginAttemptRow) : Sys := { s with attempts := s.attempts ++ [a] }

@[grind =] def observeCheck (pair : Pair) (passwordOk : Bool) : Sys :=
  { s with
    unrecorded := if passwordOk then s.unrecorded
      else Function.update s.unrecorded pair (s.unrecorded pair + 1)
    guesses := if passwordOk ∨ lockoutThreshold ≤ (s.streak pair).count then s.guesses
      else Function.update s.guesses pair (s.guesses pair + 1)
    lockedChecks := if (s.streak pair).locked s.now then s.lockedChecks ++ [pair]
      else s.lockedChecks }

end Sys

inductive Act where
  | request (r : ℕ) (kind : RequestKind) (pair : Pair)
  | checkLockout (r : ℕ)
  /-- A login of an unknown user or of a tenant that is not active is a wrong password. -/
  | verifyPassword (r : ℕ) (passwordOk : Bool)
  | recordFailure (r : ℕ)
  | beginSession (r : ℕ)
  | commitSession (r : ℕ)
  /-- The tenant is not active any more. -/
  | refuseSession (r : ℕ)
  /-- The transaction of `deleteOwnAccount`, whether it deletes the account or refuses. -/
  | deleteAccount (r : ℕ)

@[grind =] def act (s : Sys) : Act → Option Sys
  | .request r kind pair =>
    if s.requests r = none then
      some (s.setRequest r (some ⟨kind, pair, .streakRead (s.streak pair)⟩))
    else none
  | .checkLockout r =>
    match s.requests r with
    | some ⟨kind, pair, .streakRead streak⟩ =>
      some (s.setRequest r (some ⟨kind, pair,
        if streak.locked s.now then .failed false else .unlocked streak⟩))
    | _ => none
  | .verifyPassword r passwordOk =>
    match s.requests r with
    | some ⟨kind, pair, .unlocked _⟩ =>
      some ((s.observeCheck pair passwordOk).setRequest r (some ⟨kind, pair,
        if passwordOk then .authenticated else .failed true⟩))
    | _ => none
  | .recordFailure r =>
    match s.requests r with
    | some ⟨_, pair, .failed verified⟩ =>
      some { s.recordLoginAttempt ⟨pair, false, s.now⟩ with
        requests := Function.update s.requests r none
        unrecorded := if verified then
          Function.update s.unrecorded pair (s.unrecorded pair - 1) else s.unrecorded }
    | _ => none
  | .beginSession r =>
    match s.requests r with
    | some ⟨.login, pair, .authenticated⟩ =>
      some (s.setRequest r (some ⟨.login, pair, .inTransaction s.now⟩))
    | _ => none
  | .commitSession r =>
    match s.requests r with
    | some ⟨_, pair, .inTransaction startedAt⟩ =>
      some { s.recordLoginAttempt ⟨pair, true, startedAt⟩ with
        requests := Function.update s.requests r none
        guesses := Function.update s.guesses pair 0 }
    | _ => none
  | .refuseSession r =>
    match s.requests r with
    | some ⟨kind, pair, .inTransaction _⟩ =>
      some (s.setRequest r (some ⟨kind, pair, .failed false⟩))
    | _ => none
  | .deleteAccount r =>
    match s.requests r with
    | some ⟨.deleteOwnAccount, _, .authenticated⟩ => some (s.setRequest r none)
    | _ => none

/-- Every step takes time, so what two statements record has different times. -/
def step (s : Sys) (a : Act × ℕ) : Option Sys :=
  (act s a.1).map fun s' => { s' with now := s.now + a.2 + 1 }

/-! ## What the lockout is to bound -/

/-- No password is checked while its pair is locked out, and between two successes no more wrong ones
than the threshold are checked before a lockout applies. -/
structure Sys.Bounded (s : Sys) : Prop where
  locked : s.lockedChecks = []
  guesses : ∀ pair, s.guesses pair ≤ lockoutThreshold

/-- A wrong password is checked while the failures recorded and those still to be recorded are below
the threshold; from the threshold on, a password is checked while the streak that its request has
read is still the pair's. -/
def Timely (s : Sys) (a : Act × ℕ) : Prop :=
  match a.1 with
  | .verifyPassword r passwordOk => ∀ kind pair streak, s.requests r = some ⟨kind, pair, .unlocked streak⟩ →
      if (s.streak pair).count < lockoutThreshold then
        passwordOk = false → (s.streak pair).count + s.unrecorded pair < lockoutThreshold
      else s.streak pair = streak
  | _ => True

end LoginLockout

end Semprec
