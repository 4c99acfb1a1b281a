import Semprec.Lib.ReadCommitted
import Semprec.Lib.Runs
import Semprec.TenantPurgeOrder

/-!
# The purge of a deleted tenant

Runs of the purge sweep, each for one tenant under the tenant's advisory lock, beside the open
transactions and the file writes of any tenant.  A run deletes the tenant's rows and files step by
step, each step committed on its own, and finalises in one transaction under READ COMMITTED.  It may
stop between any two steps: a crash, a shutdown, a statement that fails.
-/

namespace Semprec

namespace TenantPurge

/-! ### Rows and files -/

inductive TenantStatus where
  | active
  | suspended
  | deleting
deriving DecidableEq

structure TenantRow where
  id : ℕ
  status : TenantStatus
deriving DecidableEq

inductive Root where
  | files
  | mailAttachments
deriving DecidableEq

/-- A key of the tenant's bytes; one from before the prefix is not under `<root>/<tenantId>`. -/
structure StorageKey where
  tenantId : ℕ
  prefixed : Bool
  name : ℕ
deriving DecidableEq

structure DatabaseId where
  tenantId : ℕ
  n : ℕ
deriving DecidableEq

/-- A row of a tenant table: the partition of a row of `items`, the bytes of one of `blobs` or
`tenant_exports`.  The foreign key of `items` has the tenant in it. -/
structure Row where
  table : String
  tenantId : ℕ
  id : ℕ
  databaseId : Option DatabaseId
  storageKey : Option StorageKey
  databaseId_tenant : ∀ d ∈ databaseId, d.tenantId = tenantId
  storageKey_tenant : ∀ key ∈ storageKey, key.tenantId = tenantId
deriving DecidableEq

structure UserRow where
  id : ℕ
  tenantId : ℕ
  email : String
deriving DecidableEq

inductive IdentityRow where
  | ofUser (table : String) (userId : ℕ)
  | ofEmail (table : String) (email : String)
deriving DecidableEq

def IdentityRow.isOf (user : UserRow) : IdentityRow → Bool
  | .ofUser _ userId => userId = user.id
  | .ofEmail _ email => email = user.email

structure JobRow where
  id : ℕ
  tenantId : ℕ
  locked : Bool
deriving DecidableEq

structure Tables where
  tenants : List TenantRow
  rows : List Row
  users : List UserRow
  identity : List IdentityRow
  jobs : List JobRow
  tombstones : List ℕ
deriving DecidableEq

inductive Write where
  | insertRow (row : Row)
  | deleteRows (tenantId : ℕ) (ids : List (String × ℕ))
  | dropPartition (databaseId : DatabaseId)
  | insertIdentity (row : IdentityRow)
  | deleteIdentity (user : UserRow)
  | deleteUser (user : UserRow)
  | insertJob (row : JobRow)
  | lockJob (id : ℕ)
  | deleteJobs (tenantId : ℕ) (ids : List ℕ)
  | setDeleting (tenantId : ℕ)
  | insertTombstone (tenantId : ℕ)
  | deleteTenant (tenantId : ℕ)
deriving DecidableEq

namespace Tables

variable (t : Tables)

def apply : Write → Tables
  | .insertRow row => { t with rows := t.rows ++ [row] }
  | .deleteRows tenantId ids =>
    { t with rows := t.rows.filter fun r => !(r.tenantId = tenantId && (r.table, r.id) ∈ ids) }
  | .dropPartition d => { t with rows := t.rows.filter fun r => r.databaseId ≠ some d }
  | .insertIdentity row => { t with identity := t.identity ++ [row] }
  | .deleteIdentity user => { t with identity := t.identity.filter fun i => !i.isOf user }
  -- what global tables have of the user's id (a budget's `updated_by`, an invite's `invited_by`) is
  -- set to NULL
  | .deleteUser user => { t with users := t.users.filter (·.id ≠ user.id) }
  | .insertJob row => { t with jobs := t.jobs ++ [row] }
  | .lockJob id =>
    { t with jobs := t.jobs.map fun j => if j.id = id then { j with locked := true } else j }
  | .deleteJobs tenantId ids =>
    { t with jobs := t.jobs.filter fun j => !(j.tenantId = tenantId && j.id ∈ ids) }
  | .setDeleting tenantId =>
    { t with
      tenants := t.tenants.map fun x =>
        if x.id = tenantId then { x with status := .deleting } else x }
  | .insertTombstone tenantId => { t with tombstones := t.tombstones ++ [tenantId] }
  | .deleteTenant tenantId => { t with tenants := t.tenants.filter (·.id ≠ tenantId) }

def hasTenant (tenantId : ℕ) : Bool := t.tenants.any (·.id = tenantId)

def isDeleting (tenantId : ℕ) : Bool :=
  t.tenants.any fun x => x.id = tenantId && x.status = .deleting

/-- `WHERE tenant_id = $1`. -/
def rowsOf (table : String) (tenantId : ℕ) : List Row :=
  t.rows.filter fun r => r.table = table && r.tenantId = tenantId

def usersOf (tenantId : ℕ) : List UserRow := t.users.filter (·.tenantId = tenantId)

end Tables

structure File where
  root : Root
  key : StorageKey
  stored : ℕ
deriving DecidableEq

def rowChunk : ℕ := 1000

def blobPage : ℕ := 500

/-- What `readCatalog` returns of the schema. -/
structure Catalog where
  tables : List String
  partitioned : List String
  foreignKeys : List TenantPurgeOrder.TableForeignKey

def credentialsTable : String := "agent_run_mcp_credentials"

/-! ### Runs -/

inductive Phase where
  | idle
  /-- The advisory lock is held; the tenant is read again. -/
  | locked
  | keys
  | jobs
  | blobs (afterId : Option ℕ)
  /-- The files of a page are removed; the last of a full page is where the next starts. -/
  | removeBlobs (files : List (Root × StorageKey)) (last : Option ℕ)
  | exports
  | removeExports (files : List (Root × StorageKey))
  | directories (roots : List Root)
  | databases
  | partitions (databases : List DatabaseId)
  | credentials
  | rows (tables : List String)
  | latePartitions (databases : List DatabaseId) (tables : List String)
  /-- The rows of a table whose partitions have been dropped. -/
  | items (table : String) (tables : List String)
  | directoriesAgain (roots : List Root)
  | checking (tables : List String)
  | identity (users : List UserRow)
  | tombstone
  | tenant
  | committing
deriving DecidableEq

/-- `named` are the keys that the bytes step has read, and `cleared` the files stored when the
directory was removed again. -/
structure Run where
  tenantId : ℕ
  phase : Phase
  named : List StorageKey
  cleared : Root → ℕ

structure Sys where
  db : ReadCommitted Tables Write
  files : List File
  stored : ℕ
  runs : ℕ → Run
  advisory : ℕ → Option ℕ

/-- The transactions of the runs, and those of everyone else. -/
def runTx (r : ℕ) : ℕ := 2 * r

def writerTx (w : ℕ) : ℕ := 2 * w + 1

namespace Sys

variable (s : Sys)

def setRun (r : ℕ) (run : Run) : Sys := { s with runs := Function.update s.runs r run }

def setPhase (r : ℕ) (phase : Phase) : Sys := s.setRun r { s.runs r with phase }

def runStatement (r : ℕ) (ws : List Write) : Option Sys :=
  (s.db.begin (runTx r)).bind fun db => (db.write (runTx r) ws).bind fun db =>
    (db.commit Tables.apply (runTx r)).map fun db => { s with db }

/-- A statement of the finalising transaction. -/
def write (r : ℕ) (ws : List Write) : Option Sys :=
  (s.db.write (runTx r) ws).map fun db => { s with db }

/-- Ends the run and releases its lock. -/
def finish (r : ℕ) : Sys :=
  { s.setPhase r .idle with
    advisory := fun tenantId => (s.advisory tenantId).filter (· ≠ r) }

def stop (r : ℕ) : Sys :=
  { s.finish r with
    db := if runTx r ∈ s.db.opened then s.db.close (runTx r) s.db.committed else s.db }

def remove (root : Root) (key : StorageKey) : Sys :=
  { s with files := s.files.filter fun f => !(f.root = root && f.key = key) }

/-- `rm` of `<root>/<tenantId>`. -/
def removeDirectory (root : Root) (tenantId : ℕ) : Sys :=
  { s with
    files := s.files.filter fun f =>
      !(f.root = root && f.key.prefixed && f.key.tenantId = tenantId) }

end Sys

def roots : List Root := [.files, .mailAttachments]

def inBothRoots (keys : List StorageKey) : List (Root × StorageKey) :=
  keys.flatMap fun key => roots.map fun root => (root, key)

def readBlobPage (t : Tables) (tenantId : ℕ) (afterId : Option ℕ) : List Row :=
  (((t.rowsOf "blobs" tenantId).filter fun r => afterId.all (· < r.id)).insertionSort
    fun a b => a.id ≤ b.id).take blobPage

def databasesOf (t : Tables) (tenantId : ℕ) : List DatabaseId :=
  (t.rowsOf "databases" tenantId).map fun r => ⟨r.tenantId, r.id⟩

def rowIds (rows : List Row) : List (String × ℕ) := rows.map fun r => (r.table, r.id)

section step

variable (catalog : Catalog)

def advance (s : Sys) (r : ℕ) : Option Sys :=
  let run := s.runs r
  let T := run.tenantId
  let t := s.db.committed
  match run.phase with
  | .idle => none
  | .locked => some (if t.isDeleting T then s.setPhase r .keys else s.finish r)
  | .keys =>
    (s.runStatement r [.deleteRows T (rowIds (t.rowsOf "tenant_keys" T))]).map (·.setPhase r .jobs)
  | .jobs =>
    let jobs := (t.jobs.filter fun j => j.tenantId = T && !j.locked).take rowChunk
    if jobs.isEmpty then some (s.setPhase r (.blobs none))
    else s.runStatement r [.deleteJobs T (jobs.map (·.id))]
  | .blobs afterId =>
    let page := readBlobPage t T afterId
    let keys := page.filterMap (·.storageKey)
    some (s.setRun r { run with
      phase := .removeBlobs (inBothRoots keys)
        (if page.length < blobPage then none else page.getLast?.map (·.id))
      named := run.named ++ keys })
  | .removeBlobs ((root, key) :: files) last =>
    some ((s.remove root key).setPhase r (.removeBlobs files last))
  | .removeBlobs [] last =>
    some (s.setPhase r (match last with | none => .exports | some id => .blobs (some id)))
  | .exports =>
    let keys := (t.rowsOf "tenant_exports" T).filterMap (·.storageKey)
    some (s.setRun r { run with
      phase := .removeExports (inBothRoots keys)
      named := run.named ++ keys })
  | .removeExports ((root, key) :: files) =>
    some ((s.remove root key).setPhase r (.removeExports files))
  | .removeExports [] => some (s.setPhase r (.directories roots))
  | .directories (root :: left) => some ((s.removeDirectory root T).setPhase r (.directories left))
  | .directories [] => some (s.setPhase r .databases)
  | .databases => some (s.setPhase r (.partitions (databasesOf t T)))
  | .partitions (d :: left) =>
    (s.runStatement r [.dropPartition d]).map (·.setPhase r (.partitions left))
  | .partitions [] => some (s.setPhase r .credentials)
  | .credentials =>
    match TenantPurgeOrder.orderTablesForPurge catalog.tables catalog.foreignKeys with
    | some (.ok order) =>
      (s.runStatement r [.deleteRows T (rowIds (t.rowsOf credentialsTable T))]).map
        (·.setPhase r (.rows order))
    | _ => none
  | .rows (table :: left) =>
    if table = "items" then some (s.setPhase r (.latePartitions (databasesOf t T) left))
    else if table ∈ catalog.partitioned then some (s.setPhase r (.items table left))
    else
      let rows := t.rowsOf table T
      let selfReferencing := catalog.foreignKeys.any fun key =>
        key.table = table && key.referencedTable = table
      if selfReferencing then
        (s.runStatement r [.deleteRows T (rowIds rows)]).map (·.setPhase r (.rows left))
      else if rows.isEmpty then some (s.setPhase r (.rows left))
      else s.runStatement r [.deleteRows T (rowIds (rows.take rowChunk))]
  | .rows [] => some (s.setPhase r (.directoriesAgain roots))
  | .latePartitions (d :: left) tables =>
    (s.runStatement r [.dropPartition d]).map (·.setPhase r (.latePartitions left tables))
  | .latePartitions [] tables => some (s.setPhase r (.items "items" tables))
  | .items table tables =>
    -- rows that it finds are deleted, and the run fails
    let rows := t.rowsOf table T
    (s.runStatement r [.deleteRows T (rowIds rows)]).map fun s =>
      if rows.isEmpty then s.setPhase r (.rows tables) else s.finish r
  | .directoriesAgain (root :: left) =>
    some ((s.removeDirectory root T).setRun r { run with
      phase := .directoriesAgain left
      cleared := Function.update run.cleared root s.stored })
  | .directoriesAgain [] =>
    (s.db.begin (runTx r)).map fun db =>
      { s.setPhase r (.checking (catalog.tables ++ [credentialsTable])) with db }
  | .checking (table :: left) =>
    if (t.rowsOf table T).isEmpty then some (s.setPhase r (.checking left)) else some (s.stop r)
  | .checking [] => some (s.setPhase r (.identity (t.usersOf T)))
  | .identity (user :: left) =>
    (s.write r [.deleteIdentity user, .deleteUser user]).map (·.setPhase r (.identity left))
  | .identity [] => some (s.setPhase r .tombstone)
  | .tombstone =>
    if t.isDeleting T then (s.write r [.insertTombstone T]).map (·.setPhase r .tenant)
    else some (s.stop r)
  | .tenant =>
    -- waits for the rows being inserted that reference the tenant, then checks the foreign keys
    if s.db.Locked (runTx r) (fun | .insertRow row => row.tenantId = T | _ => false) then none
    else if t.isDeleting T && t.rows.all (·.tenantId ≠ T) then
      (s.write r [.deleteTenant T]).map (·.setPhase r .committing)
    else some (s.stop r)
  | .committing =>
    (s.db.commit Tables.apply (runTx r)).map fun db => { s.finish r with db }

inductive WriterStatement where
  | insertRow (row : Row)
  | deleteRows (tenantId : ℕ) (ids : List (String × ℕ))
  | insertIdentity (row : IdentityRow)
  | insertJob (row : JobRow)
  | lockJob (id : ℕ)
  | beginTenantDeletion (tenantId : ℕ)

def WriterStatement.write : WriterStatement → Write
  | .insertRow row => .insertRow row
  | .deleteRows tenantId ids => .deleteRows tenantId ids
  | .insertIdentity row => .insertIdentity row
  | .insertJob row => .insertJob row
  | .lockJob id => .lockJob id
  | .beginTenantDeletion tenantId => .setDeleting tenantId

def WriterStatement.allowed (s : Sys) (t : ℕ) : WriterStatement → Prop
  | .insertRow row => s.db.committed.hasTenant row.tenantId = true ∧
      ¬ s.db.Locked t fun | .deleteTenant tenantId => tenantId = row.tenantId | _ => false
  | _ => True

instance (s : Sys) (t : ℕ) (statement : WriterStatement) : Decidable (statement.allowed s t) := by
  cases statement <;> unfold WriterStatement.allowed <;> infer_instance

inductive Act where
  | begin (w : ℕ)
  | statement (w : ℕ) (statement : WriterStatement)
  | commit (w : ℕ)
  | rollback (w : ℕ)
  /-- Bytes are written under the prefix of a tenant. -/
  | store (root : Root) (tenantId name : ℕ)
  | discard (root : Root) (key : StorageKey)
  /-- `pg_try_advisory_lock` of a tenant that a sweep has listed. -/
  | acquire (r tenantId : ℕ)
  | advance (r : ℕ)
  | stop (r : ℕ)

def step (s : Sys) : Act → Option Sys
  | .begin w => (s.db.begin (writerTx w)).map fun db => { s with db }
  | .statement w statement =>
    if statement.allowed s (writerTx w) then
      (s.db.write (writerTx w) [statement.write]).map fun db => { s with db }
    else none
  | .commit w => (s.db.commit Tables.apply (writerTx w)).map fun db => { s with db }
  | .rollback w => (s.db.rollback (writerTx w)).map fun db => { s with db }
  | .store root tenantId name =>
    some { s with
      files := s.files ++ [⟨root, ⟨tenantId, true, name⟩, s.stored⟩]
      stored := s.stored + 1 }
  | .discard root key => some (s.remove root key)
  | .acquire r tenantId =>
    if (s.runs r).phase = .idle ∧ s.advisory tenantId = none then
      some { s.setRun r ⟨tenantId, .locked, [], fun _ => 0⟩ with
        advisory := Function.update s.advisory tenantId (some r) }
    else none
  | .advance r => advance catalog s r
  | .stop r => some (s.stop r)

end step

/-! ### What is claimed -/

structure Start where
  tables : Tables
  files : List File
  stored : ℕ
  tenant_fk : ∀ row ∈ tables.rows, tables.hasTenant row.tenantId = true
  users_pkey : ∀ u ∈ tables.users, ∀ v ∈ tables.users, u.id = v.id → u = v
  users_email_key : ∀ u ∈ tables.users, ∀ v ∈ tables.users, u.email = v.email → u = v

def Start.sys (start : Start) : Sys where
  db := .init start.tables
  files := start.files
  stored := start.stored
  runs := fun _ => ⟨0, .idle, [], fun _ => 0⟩
  advisory := fun _ => none

/-- What is left of the tenant when the run has finalised it: files stored after their directory
was removed the second time, and ones without a prefix that no row has named. -/
structure Erased (run : Run) (s : Sys) : Prop where
  rows : ∀ row ∈ s.db.committed.rows, row.tenantId ≠ run.tenantId
  tenant : s.db.committed.hasTenant run.tenantId = false
  directory : ∀ f ∈ s.files, f.key.tenantId = run.tenantId → f.key.prefixed = true →
    run.cleared f.root ≤ f.stored
  named : ∀ f ∈ s.files, f.key.tenantId = run.tenantId → f.key.prefixed = false →
    f.key ∉ run.named

structure ErasedFully (tenantId : ℕ) (s : Sys) : Prop where
  rows : ∀ row ∈ s.db.committed.rows, row.tenantId ≠ tenantId
  files : ∀ f ∈ s.files, f.key.tenantId ≠ tenantId

structure Part where
  tenants : List TenantRow
  rows : List Row
  users : List UserRow
  identity : List IdentityRow
  jobs : List JobRow

def Tables.part (t : Tables) (tenantId : ℕ) : Part where
  tenants := t.tenants.filter (·.id = tenantId)
  rows := t.rows.filter (·.tenantId = tenantId)
  users := t.usersOf tenantId
  identity := t.identity.filter fun i => (t.usersOf tenantId).any fun user => i.isOf user
  jobs := t.jobs.filter (·.tenantId = tenantId)

structure Spared (tenantId : ℕ) (s s' : Sys) : Prop where
  tables : s'.db.committed.part tenantId = s.db.committed.part tenantId
  files : s'.files.filter (·.key.tenantId = tenantId) = s.files.filter (·.key.tenantId = tenantId)

def Act.run? : Act → Option ℕ
  | .acquire r _ | .advance r | .stop r => some r
  | _ => none

end TenantPurge

end Semprec
