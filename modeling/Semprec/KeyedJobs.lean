import Mathlib.Data.Nat.Notation
import Mathlib.Logic.Function.Basic
import Semprec.Lib.Traces

/-!
# Jobs under a key

`enqueueJob` adds a job to graphile-worker's queue, and `registerTask` wraps the handler a worker
runs for it.  Adding under the key of a job that waits replaces it in its row; adding under the key
of a job that runs takes the key from its row, with its remaining attempts, and adds another row.
A handler's failure is looked into afterwards, in a statement of its own.
-/

namespace Semprec

namespace KeyedJobs

variable {Payload : Type}

/-- A job to enqueue; the queue's own number of attempts is filled in. -/
structure JobSpec (Payload : Type) where
  payload : Payload
  jobKey : Option String
  maxAttempts : ℕ

structure Job (Payload : Type) where
  key : Option String
  payload : Payload
  attempts : ℕ
  maxAttempts : ℕ
  locked : Bool

/-- Where `registerTask` is: the handler's error is still to be looked into, or is rethrown, or is
swallowed. -/
inductive Phase where
  | running
  | failed
  | rethrown
  | swallowed
deriving DecidableEq

/-- `helpers.job` as the worker took it. -/
structure Run (Payload : Type) where
  key : Option String
  payload : Payload
  phase : Phase

/-- `superseded` keeps the jobs whose key went to another job while they ran, with that job and the
key, and `removed` those whose key was cleared by `remove_job`. -/
structure Sys (Payload : Type) where
  jobs : ℕ → Option (Job Payload)
  nextId : ℕ
  runs : ℕ → Option (Run Payload)
  superseded : List (ℕ × ℕ × String)
  removed : List (ℕ × String)

namespace Sys

def init : Sys Payload := ⟨fun _ => none, 0, fun _ => none, [], []⟩

variable (s : Sys Payload)

def setJob (id : ℕ) (job : Option (Job Payload)) : Sys Payload :=
  { s with jobs := Function.update s.jobs id job }

def setRun (id : ℕ) (run : Option (Run Payload)) : Sys Payload :=
  { s with runs := Function.update s.runs id run }

def insertJob (job : Job Payload) : Sys Payload :=
  { s.setJob s.nextId (some job) with nextId := s.nextId + 1 }

def jobOfKey (key : String) : Option ℕ :=
  (List.range s.nextId).find? fun id => (s.jobs id).any fun job => job.key = some key

/-- `add_job` in mode `replace` or `preserve_run_at`. -/
def addJob (spec : JobSpec Payload) : Sys Payload :=
  let new : Job Payload := ⟨spec.jobKey, spec.payload, 0, spec.maxAttempts, false⟩
  match spec.jobKey with
  | none => s.insertJob new
  | some key =>
    match (s.jobOfKey key).bind fun id => (s.jobs id).map (id, ·) with
    | none => s.insertJob new
    | some (id, job) =>
      if job.locked then
        { (s.setJob id (some { job with key := none, attempts := job.maxAttempts })).insertJob new
          with superseded := s.superseded ++ [(id, s.nextId, key)] }
      else s.setJob id (some new)

def removeJob (key : String) : Sys Payload :=
  match (s.jobOfKey key).bind fun id => (s.jobs id).map (id, ·) with
  | none => s
  | some (id, job) =>
    if job.locked then
      { s.setJob id (some { job with key := none, attempts := job.maxAttempts })
        with removed := s.removed ++ [(id, key)] }
    else s.setJob id none

def Available (id : ℕ) : Prop :=
  ∃ job, s.jobs id = some job ∧ job.locked = false ∧ job.attempts < job.maxAttempts

def completeJob (id : ℕ) : Sys Payload := (s.setJob id none).setRun id none

def unlock (id : ℕ) : Sys Payload :=
  (s.setJob id ((s.jobs id).map fun job => { job with locked := false })).setRun id none

def jobKeyWasCleared (id : ℕ) : Bool := (s.jobs id).any fun job => job.key = none

end Sys

inductive Act (Payload : Type) where
  | addJob (spec : JobSpec Payload)
  | removeJob (key : String)
  | getJob (id : ℕ)
  | handlerReturns (id : ℕ)
  /-- `runInTaskScope` does not call the handler for a tenant that is not active. -/
  | tenantInactive (id : ℕ)
  | handlerFails (id : ℕ)
  | jobKeyWasCleared (id : ℕ)
  | lookupFails (id : ℕ)
  | completeJob (id : ℕ)
  | failJob (id : ℕ)
  | workerLost (id : ℕ)

def step (s : Sys Payload) : Act Payload → Option (Sys Payload)
  | .addJob spec => some (s.addJob spec)
  | .removeJob key => some (s.removeJob key)
  | .getJob id =>
    (s.jobs id).bind fun job =>
      if job.locked = false ∧ job.attempts < job.maxAttempts then
        some ((s.setJob id (some { job with locked := true, attempts := job.attempts + 1 })).setRun
          id (some ⟨job.key, job.payload, .running⟩))
      else none
  | .handlerReturns id | .tenantInactive id =>
    (s.runs id).bind fun run =>
      if run.phase = .running then some (s.completeJob id) else none
  | .handlerFails id =>
    (s.runs id).bind fun run =>
      if run.phase = .running then
        some (s.setRun id
          (some { run with phase := if run.key = none then .rethrown else .failed }))
      else none
  | .jobKeyWasCleared id =>
    (s.runs id).bind fun run =>
      if run.phase = .failed then
        some (s.setRun id
          (some { run with phase := if s.jobKeyWasCleared id then .swallowed else .rethrown }))
      else none
  | .lookupFails id =>
    (s.runs id).bind fun run =>
      if run.phase = .failed then some (s.setRun id (some { run with phase := .rethrown }))
      else none
  | .completeJob id =>
    (s.runs id).bind fun run =>
      if run.phase = .swallowed then some (s.completeJob id) else none
  | .failJob id =>
    (s.runs id).bind fun run =>
      if run.phase = .rethrown then some (s.unlock id) else none
  | .workerLost id => (s.runs id).map fun _ => s.unlock id

/-! ## What becomes of a failure and of a payload -/

def Sys.Cleared (s : Sys Payload) (id : ℕ) (key : String) : Prop :=
  (∃ new, (id, new, key) ∈ s.superseded) ∨ (id, key) ∈ s.removed

def Sys.ReplacementThere (s : Sys Payload) : Prop :=
  ∀ id run, s.runs id = some run → run.phase = .swallowed →
    ∃ key, run.key = some key ∧ ∃ new job, s.jobs new = some job ∧ job.key = some key

def Act.Touches (key : String) : Act Payload → Prop
  | .addJob spec => spec.jobKey = some key
  | .removeJob key' => key' = key
  | _ => False

abbrev Jobs (Payload : Type) := Trace (@step Payload) .init

def TakesJobs (tr : Jobs Payload) : Prop :=
  ∀ n id, (tr.state n).Available id → ∃ m, n ≤ m ∧ ¬ (tr.state m).Available id

def RunsEnd (tr : Jobs Payload) : Prop :=
  ∀ n id, (tr.state n).runs id ≠ none → ∃ m, n ≤ m ∧ (tr.state m).runs id = none

def Represented (tr : Jobs Payload) (n : ℕ) (key : String) (payload : Payload) : Prop :=
  (∃ id run, (tr.state n).runs id = some run ∧ run.key = some key ∧ run.payload = payload ∧
    (tr.act n = some (.handlerReturns id) ∨ tr.act n = some (.tenantInactive id))) ∨
  ∃ id job, (tr.state n).jobs id = some job ∧ job.key = some key ∧ job.payload = payload ∧
    job.locked = false ∧ job.maxAttempts ≤ job.attempts

end KeyedJobs

end Semprec
