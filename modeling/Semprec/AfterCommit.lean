import Mathlib.Data.Nat.Notation
import Mathlib.Logic.Function.Basic
import Semprec.Lib.Runs

/-!
# What runs after a transaction

Calls of `withTransaction` overlap, each on a client of its own; a nested call is one more, and a
client goes from one call to the next with what the map of callbacks has for it.  The server has a
transaction per client, which a failed statement puts in the failed state.
-/

namespace Semprec

namespace AfterCommit

structure Callback where
  id : ℕ
  tx : ℕ
deriving DecidableEq

inductive Phase where
  | beginning
  | body
  | committing
  | rollingBack
deriving DecidableEq

/-- A call of `withTransaction` on its client. -/
structure Call where
  tx : ℕ
  phase : Phase
deriving DecidableEq

structure ServerTx where
  failed : Bool
  savepoints : ℕ
deriving DecidableEq

structure Client where
  call : Option Call
  server : Option ServerTx
  /-- What `afterCommitCallbacks` has for the client. -/
  afterCommit : Option (List Callback)
  destroyed : Bool
deriving DecidableEq

def Client.init : Client := ⟨none, none, none, false⟩

structure Sys where
  clients : ℕ → Client
  nextTx : ℕ
  nextCallback : ℕ
  registered : List Callback
  ran : List Callback
  /-- The transactions that the database has committed. -/
  committed : List ℕ

def Sys.init : Sys := ⟨fun _ => .init, 0, 0, [], [], []⟩

inductive Stmt where
  | query
  | savepoint
  | rollbackToSavepoint
  | releaseSavepoint
deriving DecidableEq

/-- How a `COMMIT` goes: the server answers it, refuses it with an error, or carries it out while the
connection breaks. -/
inductive CommitOutcome where
  | answered
  | error
  | answerLost
deriving DecidableEq

inductive Act where
  | withTransaction (c : ℕ)
  | begin (c : ℕ) (ok : Bool)
  /-- A statement of the body; the body may swallow its error. -/
  | stmt (c : ℕ) (stmt : Stmt) (ok : Bool)
  | runAfterCommit (c : ℕ)
  | bodyReturns (c : ℕ)
  | bodyThrows (c : ℕ)
  | commit (c : ℕ) (outcome : CommitOutcome)
  | rollback (c : ℕ) (ok : Bool)
deriving DecidableEq

def ServerTx.serve (tx : ServerTx) : Stmt → Bool → Option ServerTx
  | _, false => some { tx with failed := true }
  | .query, true => if tx.failed then none else some tx
  | .savepoint, true => if tx.failed then none else some { tx with savepoints := tx.savepoints + 1 }
  | .rollbackToSavepoint, true => if tx.savepoints = 0 then none else some { tx with failed := false }
  | .releaseSavepoint, true =>
    if tx.failed ∨ tx.savepoints = 0 then none else some { tx with savepoints := tx.savepoints - 1 }

/-- Whether a `COMMIT` that the server carries out commits. -/
def ServerTx.commits (tx : Option ServerTx) : Bool := tx.any fun tx => !tx.failed

namespace Sys

def setClient (s : Sys) (c : ℕ) (client : Client) : Sys :=
  { s with clients := Function.update s.clients c client }

/-- The `finally` of `withTransaction`. -/
def release (s : Sys) (c : ℕ) (client : Client) (releaseError : Bool) : Sys :=
  s.setClient c { client with call := none, server := none, destroyed := releaseError }

/-- The server carries out the `COMMIT` of a client's transaction. -/
def serveCommit (s : Sys) (tx : ℕ) (server : Option ServerTx) : Sys :=
  if ServerTx.commits server then { s with committed := s.committed ++ [tx] } else s

/-- The `catch` of `withTransaction` up to its `ROLLBACK`. -/
def discard (s : Sys) (c : ℕ) (client : Client) (tx : ℕ) : Sys :=
  s.setClient c { client with call := some ⟨tx, .rollingBack⟩, afterCommit := none }

/-- After a `COMMIT` that was answered: the callbacks are called one after the other, and what one of
them throws is logged. -/
def runCallbacks (s : Sys) (c : ℕ) (client : Client) : Sys :=
  { s with ran := s.ran ++ client.afterCommit.getD [] }.release c { client with afterCommit := none }
    false

def runAfterCommit (s : Sys) (c : ℕ) (client : Client) (tx : ℕ) : Sys :=
  let callback : Callback := ⟨s.nextCallback, tx⟩
  { s.setClient c { client with afterCommit := some (client.afterCommit.getD [] ++ [callback]) } with
    nextCallback := s.nextCallback + 1
    registered := s.registered ++ [callback] }

end Sys

def during (s : Sys) (c : ℕ) (phase : Phase) (next : ℕ → Client → Option Sys) : Option Sys :=
  (s.clients c).call.bind fun call =>
    if call.phase = phase then next call.tx (s.clients c) else none

def step (s : Sys) : Act → Option Sys
  | .withTransaction c =>
    if (s.clients c).call = none ∧ (s.clients c).destroyed = false then
      some { s.setClient c { s.clients c with call := some ⟨s.nextTx, .beginning⟩ } with
        nextTx := s.nextTx + 1 }
    else none
  | .begin c ok => during s c .beginning fun tx client =>
    some <| if ok then
      s.setClient c { client with call := some ⟨tx, .body⟩, server := some ⟨false, 0⟩ }
    else s.release c client false
  | .stmt c stmt ok => during s c .body fun _ client =>
    client.server.bind fun tx =>
      (tx.serve stmt ok).map fun tx => s.setClient c { client with server := some tx }
  | .runAfterCommit c => during s c .body fun tx client => some (s.runAfterCommit c client tx)
  | .bodyReturns c => during s c .body fun tx client =>
    some (s.setClient c { client with call := some ⟨tx, .committing⟩ })
  | .bodyThrows c => during s c .body fun tx client => some (s.discard c client tx)
  | .commit c outcome => during s c .committing fun tx client =>
    some <| match outcome with
    | .answered => (s.serveCommit tx client.server).runCallbacks c client
    | .error => s.discard c { client with server := none } tx
    | .answerLost => (s.serveCommit tx client.server).discard c { client with server := none } tx
  | .rollback c ok => during s c .rollingBack fun _ client => some (s.release c client !ok)

/-! ## What the callbacks are for -/

/-- Some call of `withTransaction` still has this transaction. -/
def Sys.Pending (s : Sys) (tx : ℕ) : Prop := ∃ c, ∃ call ∈ (s.clients c).call, call.tx = tx

/-- A callback is called once, for the transaction it was registered in, if that was committed, and
by the end of the transaction's call it has been. -/
structure Exact (s : Sys) : Prop where
  once : s.ran.Nodup
  own : ∀ callback ∈ s.ran, callback ∈ s.registered ∧ callback.tx ∈ s.committed
  called : ∀ callback ∈ s.registered, callback.tx ∈ s.committed → ¬ s.Pending callback.tx →
    callback ∈ s.ran

/-- A `COMMIT` behind callbacks is of a transaction that is not in the failed state, and its answer
arrives if it commits. -/
def Faithful (s : Sys) : Act → Prop
  | .commit c outcome => (s.clients c).afterCommit.getD [] ≠ [] →
    (outcome = .answered → ServerTx.commits (s.clients c).server = true) ∧
    (outcome = .answerLost → ServerTx.commits (s.clients c).server = false)
  | _ => True

instance (s : Sys) (act : Act) : Decidable (Faithful s act) := by
  cases act <;> unfold Faithful <;> infer_instance

end AfterCommit

end Semprec
