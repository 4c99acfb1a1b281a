import Mathlib.Data.Int.Notation
import Mathlib.Data.Nat.Notation
import Mathlib.Logic.Function.Basic
import Semprec.Lib.Runs

/-!
# The data exports of a tenant

A request inserts a pending row with its job.  An attempt of the job claims the row, writes the
archive outside the transactions that mark the row, and marks it; a sweep deletes expired rows and
then their archives.  The archive of an export has a key of its own.
-/

namespace Semprec

namespace TenantExports

inductive TenantExportStatus where
  | pending
  | running
  | ready (byteSize : ℕ) (completedAt expiresAt : ℤ)
  | failed
deriving DecidableEq

structure TenantExport where
  status : TenantExportStatus
  createdAt : ℤ
deriving DecidableEq

/-- What the files root holds under the key of an export. -/
inductive Archive where
  | absent
  | part
  | full (byteSize : ℕ)
deriving DecidableEq

/-- Why the build of an archive stopped. -/
inductive Cause where
  | interrupted
  | failure
deriving DecidableEq

/-- Where an attempt of a `tenantExport` job is. -/
inductive Attempt where
  | idle
  | picked (exportId : ℕ)
  /-- The tenant is active. -/
  | admitted (exportId : ℕ)
  | writing (exportId : ℕ)
  /-- The archive's transaction has committed. -/
  | written (exportId : ℕ) (byteSize : ℕ)
  | deletePartialArchive (exportId : ℕ) (cause : Cause)
  | requeueInterruptedExport (exportId : ℕ)
  | markFailed (exportId : ℕ)
deriving DecidableEq

namespace Attempt

def claimed : Attempt → Option ℕ
  | .writing i | .written i _ | .deletePartialArchive i _ | .requeueInterruptedExport i
  | .markFailed i => some i
  | _ => none

def claims : Attempt → Option ℕ
  | .picked i | .admitted i => some i
  | _ => none

def stores : Attempt → Option ℕ
  | .writing i | .written i _ | .deletePartialArchive i _ => some i
  | _ => none

end Attempt

/-- `jobs` are the exports whose job waits, `sweeps` the archives that each running sweep still
deletes.  `left` are the exports whose archive a delete or a process left behind, and `killed`
those whose process ended in an attempt. -/
structure Sys where
  active : Bool
  rows : ℕ → Option TenantExport
  nextId : ℕ
  jobs : List ℕ
  attempts : ℕ → Attempt
  files : ℕ → Archive
  sweeps : ℕ → List ℕ
  left : List ℕ
  killed : List ℕ

def Sys.init : Sys := ⟨true, fun _ => none, 0, [], fun _ => .idle, fun _ => .absent, fun _ => [],
  [], []⟩

def TENANT_EXPORT_RETENTION : ℤ := 7 * 86400000

def TenantExportStatus.isActive : TenantExportStatus → Bool
  | .pending | .running => true
  | _ => false

def TenantExportStatus.isReady : TenantExportStatus → Bool
  | .ready _ _ _ => true
  | _ => false

namespace Sys

variable (s : Sys)

/-- `tenant_exports_active_uq`. -/
def hasActive : Bool := (List.range s.nextId).any fun i => (s.rows i).any fun row =>
  row.status.isActive

def requestTenantExport (now : ℤ) : Sys :=
  if s.hasActive then s
  else { s with
    rows := Function.update s.rows s.nextId (some ⟨.pending, now⟩)
    nextId := s.nextId + 1
    jobs := s.nextId :: s.jobs }

def setAttempt (k : ℕ) (attempt : Attempt) : Sys :=
  { s with attempts := Function.update s.attempts k attempt }

def setFile (i : ℕ) (archive : Archive) : Sys :=
  { s with files := Function.update s.files i archive }

/-- `UPDATE ... WHERE id = $1 AND status = ...`; `none` when `requireAffectedRows` throws. -/
def mark (i : ℕ) (old new : TenantExportStatus) : Option Sys :=
  match s.rows i with
  | some row =>
    if row.status = old then
      some { s with rows := Function.update s.rows i (some { row with status := new }) }
    else none
  | none => none

def markTenantExportRunning (i : ℕ) : Option Sys := s.mark i .pending .running

def markTenantExportReady (i byteSize : ℕ) (now : ℤ) : Option Sys :=
  s.mark i .running (.ready byteSize now (now + TENANT_EXPORT_RETENTION))

def markTenantExportFailed (i : ℕ) : Option Sys := s.mark i .running .failed

def markTenantExportPending (i : ℕ) : Option Sys := s.mark i .running .pending

def expired (row : TenantExport) (now : ℤ) : Bool :=
  match row.status with
  | .ready _ _ expiresAt => expiresAt ≤ now
  | .failed => row.createdAt ≤ now - TENANT_EXPORT_RETENTION
  | _ => false

def deleteExpiredTenantExports (j : ℕ) (now : ℤ) : Sys :=
  { s with
    rows := fun i => (s.rows i).filter fun row => !expired row now
    sweeps := Function.update s.sweeps j ((List.range s.nextId).filter fun i =>
      (s.rows i).any fun row => expired row now && row.status.isReady) }

end Sys

inductive Act where
  | request (now : ℤ)
  | setTenantActive (active : Bool)
  | pick (k exportId : ℕ)
  /-- The tenant's status is read; a task of an inactive tenant is a completed no-op. -/
  | tryAdmit (k : ℕ)
  /-- The tenant's status cannot be read. -/
  | failAdmit (k : ℕ)
  /-- The row is marked running, or the task ends when it is not pending. -/
  | claim (k : ℕ)
  | failClaim (k : ℕ)
  | write (k : ℕ)
  /-- The archive is complete, and its transaction commits. -/
  | finishArchive (k byteSize : ℕ)
  /-- The archive's transaction does not commit; `stored` is what its key holds. -/
  | failArchive (k : ℕ) (cause : Cause) (stored : Archive)
  | markReady (k : ℕ) (now : ℤ)
  | failMarkReady (k : ℕ)
  /-- The row is marked, and the answer of the commit is lost. -/
  | loseMarkReady (k : ℕ) (now : ℤ)
  | deletePartial (k : ℕ) (deleted : Bool)
  | requeue (k : ℕ)
  | failRequeue (k : ℕ)
  | loseRequeue (k : ℕ)
  | markFailed (k : ℕ)
  | failMarkFailed (k : ℕ)
  /-- The process of the attempt ends. -/
  | kill (k : ℕ)
  | beginSweep (j : ℕ) (now : ℤ)
  | sweepDelete (j : ℕ) (deleted : Bool)
  | killSweep (j : ℕ)

/-- After `deletePartialArchive`. -/
def Cause.next (i : ℕ) : Cause → Attempt
  | .interrupted => .requeueInterruptedExport i
  | .failure => .markFailed i

def step (s : Sys) : Act → Option Sys
  | .request now => some (s.requestTenantExport now)
  | .setTenantActive active => some { s with active }
  | .pick k i =>
    if s.attempts k = .idle ∧ i ∈ s.jobs then
      some { s.setAttempt k (.picked i) with jobs := s.jobs.erase i }
    else none
  | .tryAdmit k =>
    match s.attempts k with
    | .picked i => some (s.setAttempt k (if s.active then .admitted i else .idle))
    | _ => none
  | .failAdmit k =>
    match s.attempts k with
    | .picked _ => some (s.setAttempt k .idle)
    | _ => none
  | .claim k =>
    match s.attempts k with
    | .admitted i =>
      match s.markTenantExportRunning i with
      | some s' => some (s'.setAttempt k (.writing i))
      | none => some (s.setAttempt k .idle)
    | _ => none
  | .failClaim k =>
    match s.attempts k with
    | .admitted _ => some (s.setAttempt k .idle)
    | _ => none
  | .write k =>
    match s.attempts k with
    | .writing i => some (s.setFile i .part)
    | _ => none
  | .finishArchive k byteSize =>
    match s.attempts k with
    | .writing i => some ((s.setFile i (.full byteSize)).setAttempt k (.written i byteSize))
    | _ => none
  | .failArchive k cause stored =>
    match s.attempts k with
    | .writing i => some ((s.setFile i stored).setAttempt k (.deletePartialArchive i cause))
    | _ => none
  | .markReady k now =>
    match s.attempts k with
    | .written i byteSize =>
      match s.markTenantExportReady i byteSize now with
      | some s' => some (s'.setAttempt k .idle)
      | none => some (s.setAttempt k (.deletePartialArchive i .failure))
    | _ => none
  | .failMarkReady k =>
    match s.attempts k with
    | .written i _ => some (s.setAttempt k (.deletePartialArchive i .failure))
    | _ => none
  | .loseMarkReady k now =>
    match s.attempts k with
    | .written i byteSize =>
      (s.markTenantExportReady i byteSize now).map fun s' =>
        s'.setAttempt k (.deletePartialArchive i .failure)
    | _ => none
  | .deletePartial k deleted =>
    match s.attempts k with
    | .deletePartialArchive i cause =>
      if deleted then some ((s.setFile i .absent).setAttempt k (cause.next i))
      else some { s.setAttempt k (cause.next i) with left := i :: s.left }
    | _ => none
  | .requeue k =>
    match s.attempts k with
    | .requeueInterruptedExport i =>
      match s.markTenantExportPending i with
      | some s' => some { s'.setAttempt k .idle with jobs := i :: s.jobs }
      | none => some (s.setAttempt k (.markFailed i))
    | _ => none
  | .failRequeue k =>
    match s.attempts k with
    | .requeueInterruptedExport i => some (s.setAttempt k (.markFailed i))
    | _ => none
  | .loseRequeue k =>
    match s.attempts k with
    | .requeueInterruptedExport i =>
      (s.markTenantExportPending i).map fun s' =>
        { s'.setAttempt k (.markFailed i) with jobs := i :: s.jobs }
    | _ => none
  | .markFailed k =>
    match s.attempts k with
    | .markFailed i =>
      match s.markTenantExportFailed i with
      | some s' => some (s'.setAttempt k .idle)
      | none => some (s.setAttempt k .idle)
    | _ => none
  | .failMarkFailed k =>
    match s.attempts k with
    | .markFailed _ => some (s.setAttempt k .idle)
    | _ => none
  | .kill k =>
    some { s.setAttempt k .idle with
      left := (s.attempts k).stores.toList ++ s.left
      killed := ((s.attempts k).claimed.or (s.attempts k).claims).toList ++ s.killed }
  | .beginSweep j now =>
    if s.active ∧ s.sweeps j = [] then some (s.deleteExpiredTenantExports j now) else none
  | .sweepDelete j deleted =>
    match s.sweeps j with
    | i :: rest =>
      let s' := { s with sweeps := Function.update s.sweeps j rest }
      if deleted then some (s'.setFile i .absent) else some { s' with left := i :: s.left }
    | [] => none
  | .killSweep j =>
    some { s with sweeps := Function.update s.sweeps j [], left := s.sweeps j ++ s.left }

/-! ## What is asked of the exports -/

namespace Sys

variable (s : Sys)

def IsReady (i : ℕ) : Prop := ((s.rows i).any fun row => row.status.isReady) = true

def Driven (i : ℕ) : Prop :=
  i ∈ s.jobs ∨ ∃ k, (s.attempts k).claims = some i ∨ (s.attempts k).claimed = some i

structure NeverStuck : Prop where
  ready : ∀ i row byteSize completedAt expiresAt, s.rows i = some row →
    row.status = .ready byteSize completedAt expiresAt → s.files i = .full byteSize
  stored : ∀ i, s.files i ≠ .absent → s.IsReady i ∨ (∃ k, (s.attempts k).stores = some i) ∨
    ∃ j, i ∈ s.sweeps j
  active : ∀ i row, s.rows i = some row → row.status.isActive = true → s.Driven i

/-- The same but for what the process that ended, and a delete that failed, left. -/
structure LeftByDesign : Prop where
  ready : ∀ i row byteSize completedAt expiresAt, s.rows i = some row →
    row.status = .ready byteSize completedAt expiresAt → s.files i = .full byteSize
  stored : ∀ i, s.files i ≠ .absent → s.IsReady i ∨ (∃ k, (s.attempts k).stores = some i) ∨
    (∃ j, i ∈ s.sweeps j) ∨ i ∈ s.left
  active : ∀ i row, s.rows i = some row → row.status.isActive = true →
    s.Driven i ∨ i ∈ s.killed

def ClaimsPending (k : ℕ) : Prop :=
  ∃ i row, (s.attempts k).claims = some i ∧ s.rows i = some row ∧ row.status = .pending

end Sys

/-- An attempt that picked a pending export gets to claim it, the commit that marks a row ready
answers, and the row of a failed build is marked. -/
def Claims (s : Sys) : Act → Prop
  | .tryAdmit k => s.active = true ∨ ¬ s.ClaimsPending k
  | .failAdmit k => ¬ s.ClaimsPending k
  | .failClaim k => ¬ s.ClaimsPending k
  | .loseMarkReady _ _ => False
  | .failMarkFailed _ => False
  | _ => True

end TenantExports

end Semprec
