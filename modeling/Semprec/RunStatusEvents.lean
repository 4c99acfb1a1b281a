import Semprec.AgentRuns

/-!
# The `run_status` events of a run

A run is driven by the jobs that are delivered for it, by the heartbeat that opened it, or by no
one when it backs an MCP credential.  A job commits a terminal event with the row; a heartbeat
commits the event in `runHeartbeatSession` and the row later, in `coreAgentRunAction`.
-/

namespace Semprec

namespace RunStatusEvents

open AgentRuns (AgentRunStatus)

inductive RunPath where
  | queued
  | heartbeat
  | mcp
deriving DecidableEq

/-- What the driver sees of a statement or of a transaction: `lost` is a failure that it is told of
after the commit. -/
inductive Outcome where
  | acknowledged
  | failed
  | lost
deriving DecidableEq

def Outcome.ok (outcome : Outcome) : Bool := outcome = .acknowledged

/-- The statement that a job of `createAgentRunTask` is about to run; the last three are those of
`runAgentSessionForRun`. -/
inductive TaskPhase where
  | getAgentRun
  | compose
  | closeUncomposedRun
  | claimRunningRun
  | runAgentTurn
  | closeDone
  | closeError
deriving DecidableEq

/-- The statement that a heartbeat is about to run, in `runHeartbeatSession` or, for the last two,
in `coreAgentRunAction`. -/
inductive HeartbeatPhase where
  | getAgentRun
  | compose
  | pushRunning
  | runAgentTurn
  | pushDone
  | pushError
  | finishDone
  | finishError
deriving DecidableEq

structure Run where
  path : RunPath
  status : AgentRunStatus
  /-- The statuses of its `run_status` events, in the order they were committed in. -/
  events : List AgentRunStatus
  jobs : List TaskPhase
  /-- The attempt at the heartbeat's action that opened it, while it is under way. -/
  action : Option HeartbeatPhase
deriving DecidableEq

namespace Run

variable (run : Run)

def terminalEvents : List AgentRunStatus := run.events.filter (· ≠ .running)

def pushRunStatus (status : AgentRunStatus) : Run := { run with events := run.events ++ [status] }

/-- `UPDATE … WHERE status = 'running'` -/
def finishAgentRun (status : AgentRunStatus) : Run :=
  if run.status = .running then { run with status } else run

/-- The row and its event in one transaction, which ends at once when another closed the row. -/
def closeAtomically (status : AgentRunStatus) : Run :=
  if run.status = .running then (run.finishAgentRun status).pushRunStatus status else run

/-- The run after a transaction that ends this way. -/
def commit (outcome : Outcome) (f : Run → Run) : Run := if outcome = .failed then run else f run

/-! ## The jobs -/

def setJob (j : ℕ) (phase : TaskPhase) : Run := { run with jobs := run.jobs.set j phase }

def endJob (j : ℕ) : Run := { run with jobs := run.jobs.eraseIdx j }

def advanceJob (j : ℕ) (outcome : Outcome) : TaskPhase → Run
  | .getAgentRun =>
    if outcome.ok && run.status = .running then run.setJob j .compose else run.endJob j
  | .compose => run.setJob j (if outcome.ok then .claimRunningRun else .closeUncomposedRun)
  | .closeUncomposedRun => (run.commit outcome (closeAtomically · .error)).endJob j
  | .claimRunningRun =>
    if run.status = .running then
      let claimed := run.commit outcome (pushRunStatus · .running)
      if outcome.ok then claimed.setJob j .runAgentTurn else claimed.endJob j
    else run.endJob j
  | .runAgentTurn => run.setJob j (if outcome.ok then .closeDone else .closeError)
  | .closeDone =>
    let closed := run.commit outcome (closeAtomically · .done)
    if outcome.ok then closed.endJob j else closed.setJob j .closeError
  | .closeError => (run.commit outcome (closeAtomically · .error)).endJob j

/-! ## The heartbeat -/

def setAction (action : Option HeartbeatPhase) : Run := { run with action }

def advanceAction (outcome : Outcome) : HeartbeatPhase → Run
  | .getAgentRun => run.setAction (some (if outcome.ok then .compose else .finishError))
  | .compose => run.setAction (some (if outcome.ok then .pushRunning else .pushError))
  | .pushRunning =>
    (run.commit outcome (pushRunStatus · .running)).setAction
      (some (if outcome.ok then .runAgentTurn else .pushError))
  | .runAgentTurn => run.setAction (some (if outcome.ok then .pushDone else .pushError))
  | .pushDone =>
    (run.commit outcome (pushRunStatus · .done)).setAction
      (some (if outcome.ok then .finishDone else .pushError))
  -- the error is thrown on even where its event could not be written
  | .pushError =>
    (run.commit outcome (pushRunStatus · .error)).setAction (some .finishError)
  | .finishDone =>
    (run.commit outcome (finishAgentRun · .done)).setAction
      (if outcome.ok then none else some .finishError)
  | .finishError => (run.commit outcome (finishAgentRun · .error)).setAction none

end Run

/-! ## Runs of the system -/

/-- `repair` is `repairInterruptedRuns`, which writes no event; `expire` is
`handleMcpRunCredentialExpirySweepTask`, which selects the row `FOR UPDATE`. -/
inductive RunAct where
  | deliver
  | advanceJob (j : ℕ) (outcome : Outcome)
  | crashJob (j : ℕ)
  | advanceAction (outcome : Outcome)
  | crashAction
  | repair
  | expire

def runStep (run : Run) : RunAct → Option Run
  | .deliver =>
    if run.path = .queued then some { run with jobs := run.jobs ++ [.getAgentRun] } else none
  | .advanceJob j outcome => run.jobs[j]?.map (run.advanceJob j outcome)
  | .crashJob j => if j < run.jobs.length then some (run.endJob j) else none
  | .advanceAction outcome => run.action.map (run.advanceAction outcome)
  | .crashAction => run.action.map fun _ => run.setAction none
  | .repair => if run.path ≠ .mcp then some (run.finishAgentRun .error) else none
  | .expire =>
    if run.path = .mcp ∧ run.status = .running then
      some ((run.finishAgentRun .done).pushRunStatus .done)
    else none

abbrev Sys := ℕ → Run

def init (path : ℕ → RunPath) : Sys := fun i =>
  { path := path i, status := .running, events := [], jobs := [],
    action := if path i = .heartbeat then some .getAgentRun else none }

def step (s : Sys) (act : ℕ × RunAct) : Option Sys :=
  (runStep (s act.1) act.2).map (Function.update s act.1)

/-- A run has at most one terminal event, and one that it has is the only status that its row is or
becomes terminal with. -/
def Agrees (ok : Sys → ℕ × RunAct → Prop) (s : Sys) : Prop :=
  ∀ i, (s i).terminalEvents.length ≤ 1 ∧
    ∀ e ∈ (s i).terminalEvents, ∀ s', Reach step ok s s' →
      (s' i).status = .running ∨ (s' i).status = e

/-- A heartbeat's `done` event is written for a row that is not closed as `error`, and is
acknowledged if it is written; the row is closed next. -/
def Uninterrupted (s : Sys) (act : ℕ × RunAct) : Prop :=
  match act.2 with
  | .advanceAction outcome =>
    ((s act.1).action = some .pushDone →
      outcome = .failed ∨ outcome = .acknowledged ∧ (s act.1).status ≠ .error) ∧
    ((s act.1).action = some .finishDone → outcome ≠ .failed)
  | .crashAction => (s act.1).action ≠ some .finishDone
  | .repair => (s act.1).action ≠ some .finishDone
  | _ => True

end RunStatusEvents

end Semprec
