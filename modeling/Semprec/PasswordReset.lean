import Mathlib.Data.Nat.Notation
import Mathlib.Logic.Function.Basic
import Semprec.Lib.Runs

/-!
# Logins beside password resets

`login` verifies a password against the hash it has read, and creates the session in a later
transaction that locks the user's row `FOR KEY SHARE` and reads the tenant's status again.
`resetPassword` writes the new hash and revokes the sessions its statement sees.  The two locks do
not conflict, so either transaction can commit while the other is open.
-/

namespace Semprec

namespace PasswordReset

/-- `verifiedHash` is the hash that the login that created the session checked the password
against. -/
structure SessionRow where
  id : ℕ
  userId : ℕ
  verifiedHash : String
  revoked : Bool
deriving DecidableEq

structure Tables where
  passwordHash : ℕ → Option String
  tenantActive : ℕ → Bool
  sessions : List SessionRow

inductive LoginPhase where
  /-- The user has been read, and the password is being checked. -/
  | verifying
  | verified
  | inserted (sessionId : ℕ)
deriving DecidableEq

structure Login where
  userId : ℕ
  passwordHash : String
  phase : LoginPhase
deriving DecidableEq

/-- Where an open transaction of `resetPassword` stands. -/
inductive Reset where
  | consumed (userId : ℕ)
  | updated (userId : ℕ) (passwordHash : String)
  | revoked (userId : ℕ) (passwordHash : String) (sessionIds : List ℕ)
deriving DecidableEq

/-- `rowLock` is the transaction that has updated the user's row and is open, and `resetTo` the hash
the last committed reset of each user wrote. -/
structure Sys where
  tables : Tables
  logins : ℕ → Option Login
  resets : ℕ → Option Reset
  rowLock : ℕ → Option ℕ
  resetTo : ℕ → Option String
  nextSessionId : ℕ

def Sys.init (users : ℕ → Option String) : Sys :=
  ⟨⟨users, fun _ => true, []⟩, fun _ => none, fun _ => none, fun _ => none, fun _ => none, 0⟩

namespace Sys

variable (s : Sys)

def setLogin (r : ℕ) (l : Option Login) : Sys := { s with logins := Function.update s.logins r l }

def setReset (p : ℕ) (x : Reset) : Sys := { s with resets := Function.update s.resets p (some x) }

def closeReset (p : ℕ) : Sys :=
  { s with
    resets := Function.update s.resets p none
    rowLock := fun userId => (s.rowLock userId).filter (· ≠ p) }

/-- What `revokeAllSessionsForUser` finds. -/
def activeSessionIds (userId : ℕ) : List ℕ :=
  (s.tables.sessions.filter fun row => row.userId = userId ∧ row.revoked = false).map
    fun row => row.id

def revoke (sessionIds : List ℕ) : List SessionRow :=
  s.tables.sessions.map fun row =>
    if row.id ∈ sessionIds then { row with revoked := true } else row

end Sys

inductive Act where
  | setTenantActive (userId : ℕ) (active : Bool)
  | revokeSession (sessionId : ℕ)
  | login (r userId : ℕ)
  | verifyPassword (r : ℕ) (passwordOk : Bool)
  | createSession (r : ℕ)
  | commitLogin (r : ℕ)
  | abortLogin (r : ℕ)
  /-- The token of the user is consumed, and the tenant's status checked. -/
  | consumeToken (p userId : ℕ)
  | updatePasswordHash (p : ℕ) (passwordHash : String)
  | revokeSessions (p : ℕ)
  | commitReset (p : ℕ)
  | rollbackReset (p : ℕ)

def step (s : Sys) : Act → Option Sys
  | .setTenantActive userId active =>
    some { s with tables := { s.tables with
      tenantActive := Function.update s.tables.tenantActive userId active } }
  | .revokeSession sessionId =>
    some { s with tables := { s.tables with sessions := s.revoke [sessionId] } }
  | .login r userId =>
    if s.logins r = none then
      (s.tables.passwordHash userId).map fun hash => s.setLogin r (some ⟨userId, hash, .verifying⟩)
    else none
  | .verifyPassword r passwordOk =>
    match s.logins r with
    | some ⟨userId, hash, .verifying⟩ =>
      if passwordOk ∧ s.tables.tenantActive userId then
        some (s.setLogin r (some ⟨userId, hash, .verified⟩))
      else some (s.setLogin r none)
    | _ => none
  | .createSession r =>
    match s.logins r with
    | some ⟨userId, hash, .verified⟩ =>
      -- only the status of the tenant is read again
      if s.tables.tenantActive userId then
        some { s.setLogin r (some ⟨userId, hash, .inserted s.nextSessionId⟩) with
          nextSessionId := s.nextSessionId + 1 }
      else some (s.setLogin r none)
    | _ => none
  | .commitLogin r =>
    match s.logins r with
    | some ⟨userId, hash, .inserted sessionId⟩ =>
      some { s.setLogin r none with tables := { s.tables with
        sessions := s.tables.sessions ++ [⟨sessionId, userId, hash, false⟩] } }
    | _ => none
  | .abortLogin r => (s.logins r).map fun _ => s.setLogin r none
  | .consumeToken p userId =>
    if s.resets p = none then
      if s.tables.tenantActive userId then some (s.setReset p (.consumed userId)) else some s
    else none
  | .updatePasswordHash p hash =>
    match s.resets p with
    | some (.consumed userId) =>
      if s.rowLock userId = none then
        some { s.setReset p (.updated userId hash) with
          rowLock := Function.update s.rowLock userId (some p) }
      else none
    | _ => none
  | .revokeSessions p =>
    match s.resets p with
    | some (.updated userId hash) =>
      some (s.setReset p (.revoked userId hash (s.activeSessionIds userId)))
    | _ => none
  | .commitReset p =>
    match s.resets p with
    | some (.revoked userId hash sessionIds) =>
      some { s.closeReset p with
        tables := { s.tables with
          passwordHash := Function.update s.tables.passwordHash userId (some hash)
          sessions := s.revoke sessionIds }
        resetTo := Function.update s.resetTo userId (some hash) }
    | _ => none
  | .rollbackReset p => (s.resets p).map fun _ => s.closeReset p

/-- No session that is not revoked stands on a password other than the one the last reset of its
user set. -/
def Sys.OldPasswordsEnded (s : Sys) : Prop :=
  ∀ userId hash, s.resetTo userId = some hash → ∀ row ∈ s.tables.sessions, row.userId = userId →
    row.revoked = false → row.verifiedHash = hash

/-- The session of a login is committed while the hash it verified is the user's, and a reset is
committed when no session of its user has been since it revoked them. -/
def NotOvertaken (s : Sys) : Act → Prop
  | .commitLogin r => ∀ l ∈ s.logins r, s.tables.passwordHash l.userId = some l.passwordHash
  | .commitReset p => ∀ userId hash sessionIds, s.resets p = some (.revoked userId hash sessionIds) →
      ∀ sessionId ∈ s.activeSessionIds userId, sessionId ∈ sessionIds
  | _ => True

end PasswordReset

end Semprec
