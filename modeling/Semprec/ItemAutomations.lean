import Semprec.TranscriptionTask

/-!
# Item automation and its jobs

Two pipelines share `item_automation`: the metadata of the library and the transcription of files.
The status of a row is written by the attempts at a job, by the sweep and by the user's lock; the
job is in the queue, under a key of the item.
-/

namespace Semprec

namespace ItemAutomations

open Transcription (ItemAutomation ItemAutomationStatus)

def MAX_ATTEMPTS : ℕ := 3

inductive Pipeline where
  | libraryMetadata
  | transcription
deriving DecidableEq

abbrev Patch := List (String × String)

/-- Where an attempt is: `create` and `opening` are step 0 of the transcription and
`startTranscriptionAttempt`, `failed` is the `catch` of either. -/
inductive Phase where
  | read
  | fetch
  | write (patch : Patch)
  | gone
  | create
  | opening
  | steps
  | failed (message : String) (budgetRejected : Bool)
deriving DecidableEq

/-- Whether the code there is within the `try`. -/
def Phase.isTried : Phase → Bool
  | fetch => true
  | write _ => true
  | steps => true
  | _ => false

/-- `used` counts the attempts at the job up to this one; `keyed` is whether the job still has the
key, so that it is retried. -/
structure Attempt where
  used : ℕ
  keyed : Bool
  phase : Phase
deriving DecidableEq

structure Cell where
  pipeline : Pipeline
  live : Bool
  fields : Patch
  automation : Option ItemAutomation
  /-- A user has unlocked the row since a job was last enqueued. -/
  unlocked : Bool
  job : Option ℕ
  running : List Attempt

def Pipeline.firstPhase : Pipeline → Phase
  | .libraryMetadata => .read
  | .transcription => .create

namespace Cell

variable (c : Cell)

def isLocked : Bool := c.automation.any fun row => row.status = .locked

/-! ## The rows -/

def ensureItemAutomation : Cell :=
  { c with automation := some (c.automation.getD ⟨.pending, none, 0⟩) }

/-- `UPDATE … WHERE status != 'locked'` -/
def updateItemAutomation (f : ItemAutomation → ItemAutomation) : Cell :=
  { c with automation := c.automation.map fun row => if row.status = .locked then row else f row }

def markItemAutomationDone : Cell :=
  c.updateItemAutomation fun row => { row with status := .done, error := none }

def markItemAutomationError (error : String) : Cell :=
  c.updateItemAutomation fun row =>
    { row with status := .error, error := some error, attempts := row.attempts + 1 }

def startItemAutomationAttempt : Cell :=
  c.updateItemAutomation fun row => { row with status := .pending, attempts := row.attempts + 1 }

def recordItemAutomationFailure (error : String) (status : ItemAutomationStatus) : Cell :=
  c.updateItemAutomation fun row => { row with status, error := some error }

def setItemAutomationLocked (locked : Bool) : Option Cell :=
  c.automation.map fun row =>
    if locked then { c with automation := some { row with status := .locked } }
    else if row.status = .locked then
      { c with automation := some { row with status := .pending }, unlocked := true }
    else c

/-! ## The queue -/

def enqueueJob : Cell :=
  { c with
    job := some 0, unlocked := false
    running := c.running.map fun attempt => { attempt with keyed := false } }

def setPhase (a : ℕ) (attempt : Attempt) (phase : Phase) : Cell :=
  { c with running := c.running.set a { attempt with phase } }

/-- The handler returns. -/
def complete (a : ℕ) : Cell := { c with running := c.running.eraseIdx a }

/-- The handler throws, or its process dies. -/
def retry (a : ℕ) (attempt : Attempt) : Cell :=
  { c.complete a with
    job := if attempt.keyed && attempt.used < MAX_ATTEMPTS then some attempt.used else c.job }

def enqueueLibraryMetadataProcessing : Cell := c.ensureItemAutomation.enqueueJob

def enqueueProcessing : Cell :=
  match c.pipeline with
  | .libraryMetadata => c.enqueueLibraryMetadataProcessing
  | .transcription => c.enqueueJob

/-- `listErroredItemAutomationForDatabases` -/
def errored : Bool := c.live && c.automation.any fun row => row.status = .error

/-! ## The attempts -/

/-- The plain read at the start of `handleProcessLibraryMetadataTask`. -/
def read (a : ℕ) (attempt : Attempt) : Cell :=
  if c.isLocked then c.complete a
  else if !c.live then c.setPhase a attempt .gone
  else c.setPhase a attempt .fetch

/-- The fields and the row in one transaction, unless a user has locked the row meanwhile. -/
def writeDone (a : ℕ) (patch : Patch) : Cell :=
  if c.isLocked then c.complete a
  else ({ c with fields := patch ++ c.fields }.markItemAutomationDone).complete a

/-- `startTranscriptionAttempt` -/
def openAttempt (a : ℕ) (attempt : Attempt) : Cell :=
  let ensured := c.ensureItemAutomation
  if ensured.isLocked then ensured.complete a
  else ensured.startItemAutomationAttempt.setPhase a attempt .steps

/-- The transaction of a step, after `requireTranscriptionUnlocked`. -/
def stepWrite (a : ℕ) (patch : Patch) : Cell :=
  if c.isLocked then c.complete a else { c with fields := patch ++ c.fields }

def recordTranscriptionFailure (message : String) (permanent : Bool) : Cell :=
  if c.automation = none ∨ c.isLocked then c
  else if permanent then
    { c.recordItemAutomationFailure message .error with fields := ("status", "error") :: c.fields }
  else c.recordItemAutomationFailure message .pending

def recordFailure (a : ℕ) (attempt : Attempt) (message : String) (budgetRejected : Bool) : Cell :=
  match c.pipeline with
  | .libraryMetadata => (c.markItemAutomationError message).retry a attempt
  | .transcription =>
    let recorded := c.recordTranscriptionFailure message
      (budgetRejected || MAX_ATTEMPTS ≤ attempt.used)
    if budgetRejected then recorded.complete a else recorded.retry a attempt

end Cell

abbrev Sys := ℕ → Cell

def init (pipeline : ℕ → Pipeline) : Sys := fun i => ⟨pipeline i, true, [], none, false, none, []⟩

inductive CellAct where
  /-- The trigger on the item's creation, or `POST /api/transcriptions`. -/
  | enqueue
  /-- `POST /api/transcriptions/:id/rerun` -/
  | rerun
  | start
  | read (a : ℕ)
  | fetched (a : ℕ) (patch : Patch)
  | writeDone (a : ℕ)
  | settleGone (a : ℕ)
  | create (a : ℕ)
  | openAttempt (a : ℕ)
  | stepWrite (a : ℕ) (patch : Patch)
  | finalize (a : ℕ) (patch : Patch)
  /-- A shutdown: a fresh job takes the place of this one. -/
  | interrupt (a : ℕ)
  | throw (a : ℕ) (message : String) (budgetRejected : Bool)
  | recordFailure (a : ℕ)
  /-- A crash, or an error that is not recorded. -/
  | die (a : ℕ)
  | setLocked (locked : Bool)
  | edit (patch : Patch)
  | trash
  | restore
deriving DecidableEq

def CellAct.IsUsers : CellAct → Prop
  | setLocked _ => True
  | edit _ => True
  | trash => True
  | restore => True
  | _ => False

instance (act : CellAct) : Decidable act.IsUsers := by
  cases act <;> unfold CellAct.IsUsers <;> infer_instance

def cellStep (c : Cell) : CellAct → Option Cell
  | .enqueue => some c.enqueueProcessing
  | .rerun =>
    if c.pipeline = .transcription ∧ c.automation ≠ none ∧ c.isLocked = false then some c.enqueueJob
    else none
  | .start =>
    match c.job with
    | none => none
    | some used =>
      -- the transcriptions have a lane
      if used < MAX_ATTEMPTS ∧ (c.pipeline = .transcription → c.running = []) then
        some { c with
          job := none, running := c.running ++ [⟨used + 1, true, c.pipeline.firstPhase⟩] }
      else none
  | .read a =>
    match c.running[a]? with
    | some ⟨used, keyed, .read⟩ => some (c.read a ⟨used, keyed, .read⟩)
    | _ => none
  | .fetched a patch =>
    match c.running[a]? with
    | some ⟨used, keyed, .fetch⟩ => some (c.setPhase a ⟨used, keyed, .fetch⟩ (.write patch))
    | _ => none
  | .writeDone a =>
    match c.running[a]? with
    | some ⟨_, _, .write patch⟩ => some (c.writeDone a patch)
    | _ => none
  | .settleGone a =>
    match c.running[a]? with
    | some ⟨_, _, .gone⟩ => some (c.markItemAutomationDone.complete a)
    | _ => none
  | .create a =>
    match c.running[a]? with
    | some ⟨used, keyed, .create⟩ =>
      some (c.ensureItemAutomation.setPhase a ⟨used, keyed, .create⟩ .opening)
    | _ => none
  | .openAttempt a =>
    match c.running[a]? with
    | some ⟨used, keyed, .opening⟩ => some (c.openAttempt a ⟨used, keyed, .opening⟩)
    | _ => none
  | .stepWrite a patch =>
    match c.running[a]? with
    | some ⟨_, _, .steps⟩ => some (c.stepWrite a patch)
    | _ => none
  | .finalize a patch =>
    match c.running[a]? with
    | some ⟨_, _, .steps⟩ => some (c.writeDone a patch)
    | _ => none
  | .interrupt a =>
    match c.running[a]? with
    | some ⟨_, _, .steps⟩ => some (c.enqueueJob.complete a)
    | _ => none
  | .throw a message budgetRejected =>
    match c.running[a]? with
    | some ⟨used, keyed, phase⟩ =>
      if phase.isTried then
        some (c.setPhase a ⟨used, keyed, phase⟩ (.failed message budgetRejected))
      else none
    | none => none
  | .recordFailure a =>
    match c.running[a]? with
    | some ⟨used, keyed, .failed message budgetRejected⟩ =>
      some (c.recordFailure a ⟨used, keyed, .failed message budgetRejected⟩ message budgetRejected)
    | _ => none
  | .die a => c.running[a]?.map fun attempt => c.retry a attempt
  | .setLocked locked => c.setItemAutomationLocked locked
  | .edit patch => some { c with fields := patch ++ c.fields }
  | .trash => some { c with live := false }
  | .restore => some { c with live := true }

inductive Act where
  | item (i : ℕ) (act : CellAct)
  /-- The daily sweep over one pipeline's databases. -/
  | sweep (pipeline : Pipeline)

def sweep (pipeline : Pipeline) (s : Sys) : Sys := fun i =>
  if (s i).pipeline = pipeline && (s i).errored then (s i).enqueueProcessing else s i

def step (s : Sys) : Act → Option Sys
  | .item i act => (cellStep (s i) act).map (Function.update s i)
  | .sweep pipeline => some (sweep pipeline s)

/-! ## What is not to be stranded -/

def Cell.HasJob (c : Cell) : Prop := (∃ used ∈ c.job, used < MAX_ATTEMPTS) ∨ c.running ≠ []

structure LocksHold (s : Sys) : Prop where
  swept : ∀ i, (s i).live = true → ∀ row ∈ (s i).automation, row.status = .error →
    (sweep (s i).pipeline s i).job = some 0
  locked : ∀ act s', step s act = some s' → ∀ i, (∀ userAct, userAct.IsUsers → act ≠ .item i userAct) →
    ∀ row ∈ (s i).automation, row.status = .locked →
      (s' i).automation = some row ∧ (s' i).fields = (s i).fields
  unlock : ∀ i, ∀ row ∈ (s i).automation, row.status = .locked →
    ∃ s', step s (.item i (.setLocked false)) = some s' ∧
      (s' i).automation = some { row with status := .pending }

structure NotStranded (s : Sys) : Prop extends LocksHold s where
  pending : ∀ i, (s i).live = true → ∀ row ∈ (s i).automation, row.status = .pending →
    (s i).HasJob ∨ (s i).unlocked = true

def Records (s : Sys) : Act → Prop
  | .item i (.die a) => ∀ attempt, (s i).running[a]? = some attempt → attempt.keyed = true →
      attempt.used < MAX_ATTEMPTS
  | _ => True

end ItemAutomations

end Semprec
