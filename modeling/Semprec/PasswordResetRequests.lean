import Mathlib.Data.Int.Notation
import Mathlib.Data.Nat.Notation
import Mathlib.Logic.Function.Basic
import Semprec.Lib.Runs

/-!
# How many password resets a user is sent

`requestPasswordReset` locks the user's row `FOR KEY SHARE` and its tenant's `FOR SHARE`, counts
the user's recent tokens and inserts one, in three statements of a transaction.  Neither lock
conflicts with that of another request, so any number of requests are between their statements.
`now()` is the time the transaction began, in microseconds.
-/

namespace Semprec

namespace PasswordResetRequests

def PASSWORD_RESET_RATE_LIMIT_WINDOW_SECONDS : ℤ := 60 * 60

def PASSWORD_RESET_MAX_REQUESTS_PER_WINDOW : ℕ := 3

def windowLength : ℤ := PASSWORD_RESET_RATE_LIMIT_WINDOW_SECONDS * 1000000

structure PasswordResetTokenRow where
  id : ℕ
  userId : ℕ
  createdAt : ℤ
  expiresAt : ℤ
  consumedAt : Option ℤ
deriving DecidableEq

def countRecentPasswordResetTokens (tokens : List PasswordResetTokenRow) (userId : ℕ) (now : ℤ) :
    ℕ :=
  (tokens.filter fun token =>
    token.userId = userId ∧ now - windowLength < token.createdAt).length

inductive Phase where
  | locked
  | counted (recentCount : ℕ)
  | created (recentCount : ℕ) (token : PasswordResetTokenRow)
deriving DecidableEq

/-- An open transaction of `requestPasswordReset`. -/
structure Request where
  userId : ℕ
  startedAt : ℤ
  phase : Phase
deriving DecidableEq

structure Sys where
  tokens : List PasswordResetTokenRow
  requests : ℕ → Option Request
  now : ℤ
  nextId : ℕ

def Sys.init (now : ℤ) : Sys := ⟨[], fun _ => none, now, 0⟩

def Sys.setRequest (s : Sys) (t : ℕ) (request : Option Request) : Sys :=
  { s with requests := Function.update s.requests t request }

/-- Unconsumed and unexpired. -/
def PasswordResetTokenRow.usable (token : PasswordResetTokenRow) (now : ℤ) : Bool :=
  token.consumedAt = none ∧ now < token.expiresAt

inductive Act where
  | tick (now : ℤ)
  /-- The user of the email is found and bound to an active tenant. -/
  | begin (t userId : ℕ)
  | countRecent (t : ℕ)
  /-- A token is inserted, or the account has hit the cap; `expiresAt` is by the process's clock. -/
  | create (t : ℕ) (expiresAt : ℤ)
  | commit (t : ℕ)
  /-- The tenant is not active after all, or the connection is lost. -/
  | abort (t : ℕ)
  /-- `resetPassword` consumes the token. -/
  | consume (id : ℕ)
  | purge (userId : ℕ)

def consumePasswordResetToken (tokens : List PasswordResetTokenRow) (id : ℕ) (now : ℤ) :
    List PasswordResetTokenRow :=
  tokens.map fun token =>
    if token.id = id ∧ token.usable now = true then { token with consumedAt := some now } else token

def step (s : Sys) : Act → Option Sys
  | .tick now => if s.now ≤ now then some { s with now } else none
  | .begin t userId =>
    if s.requests t = none then some (s.setRequest t (some ⟨userId, s.now, .locked⟩)) else none
  | .countRecent t =>
    match s.requests t with
    | some ⟨userId, startedAt, .locked⟩ =>
      some (s.setRequest t (some ⟨userId, startedAt,
        .counted (countRecentPasswordResetTokens s.tokens userId startedAt)⟩))
    | _ => none
  | .create t expiresAt =>
    match s.requests t with
    | some ⟨userId, startedAt, .counted recentCount⟩ =>
      if PASSWORD_RESET_MAX_REQUESTS_PER_WINDOW ≤ recentCount then some (s.setRequest t none)
      else
        let token : PasswordResetTokenRow := ⟨s.nextId, userId, startedAt, expiresAt, none⟩
        some { s.setRequest t (some ⟨userId, startedAt, .created recentCount token⟩) with
          nextId := s.nextId + 1 }
    | _ => none
  | .commit t =>
    match s.requests t with
    | some ⟨_, _, .created _ token⟩ =>
      some { s.setRequest t none with tokens := s.tokens ++ [token] }
    | _ => none
  | .abort t => if s.requests t = none then none else some (s.setRequest t none)
  | .consume id =>
    if s.tokens.any fun token => token.id = id ∧ token.usable s.now = true then
      some { s with tokens := consumePasswordResetToken s.tokens id s.now }
    else none
  | .purge userId => some { s with tokens := s.tokens.filter fun token => token.userId ≠ userId }

/-! ## What is asked of the tokens -/

def Sys.createdInWindow (s : Sys) (userId : ℕ) (till : ℤ) : List PasswordResetTokenRow :=
  s.tokens.filter fun token =>
    token.userId = userId ∧ till - windowLength < token.createdAt ∧ token.createdAt ≤ till

def Sys.Capped (s : Sys) : Prop :=
  ∀ userId till,
    (s.createdInWindow userId till).length ≤ PASSWORD_RESET_MAX_REQUESTS_PER_WINDOW

def Sys.OneUsable (s : Sys) : Prop :=
  ∀ userId, (s.tokens.filter fun token => token.userId = userId ∧ token.usable s.now).length ≤ 1

/-- A request commits its token while its count stands, or, where others have committed since then,
while the user's recent tokens are under the cap still. -/
def NotOvertaken (s : Sys) : Act → Prop
  | .commit t => ∀ userId startedAt recentCount token,
    s.requests t = some ⟨userId, startedAt, .created recentCount token⟩ →
      recentCount < countRecentPasswordResetTokens s.tokens userId startedAt →
        countRecentPasswordResetTokens s.tokens userId startedAt <
          PASSWORD_RESET_MAX_REQUESTS_PER_WINDOW
  | _ => True

end PasswordResetRequests

end Semprec
