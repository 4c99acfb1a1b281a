import Semprec.Items
import Semprec.Lib.ReadCommitted
import Semprec.Lib.Runs
import Semprec.Schema

/-!
# Idempotent creates under concurrency

Any number of open transactions call `createItem`, trash, restore and purge items, and archive and
unarchive databases.  A create reads the database, reserves its key, reads the item a reservation
names, takes the reservation over, inserts the item and runs the hooks in statements of their own;
no statement locks the row of the database.
-/

namespace Semprec

namespace ItemCreates

open Items

structure Created where
  itemId : ℕ
  key : Option String
  databaseId : ℕ
deriving DecidableEq

/-- `created` keeps the items that were inserted, and `effects` those whose hooks, heartbeat
triggers and invalidation have run. -/
structure Tables where
  store : Store
  created : List Created
  effects : List ℕ

inductive Write where
  | insertKey (row : IdempotencyKeyRow)
  | deleteKey (key : String)
  | insertItem (item : ItemRow) (key : Option String)
  | createEffects (itemId : ℕ)
  | setDeletedAt (databaseId itemId : ℕ) (deletedAt : Option ℤ)
  | hardDelete (databaseId itemId : ℕ)
  | setArchivedAt (databaseId : ℕ) (archivedAt : Option ℤ)

def apply (tables : Tables) : Write → Tables
  | .insertKey row =>
    { tables with store := reserveKey row.key row.databaseId row.itemId tables.store }
  | .deleteKey key => { tables with store := releaseKey key tables.store }
  | .insertItem item key => { tables with
      store := { tables.store with items := tables.store.items ++ [item] }
      created := tables.created ++ [⟨item.id, key, item.databaseId⟩] }
  | .createEffects itemId => { tables with effects := tables.effects ++ [itemId] }
  | .setDeletedAt databaseId itemId deletedAt => { tables with
      store := (tables.store.updateItem databaseId itemId (fun _ => true)
        fun item => { item with deletedAt }).2 }
  | .hardDelete databaseId itemId => { tables with
      store := { tables.store with
        items := tables.store.items.filter fun item => !item.isAt databaseId itemId } }
  | .setArchivedAt databaseId archivedAt =>
    { tables with store := Schema.setArchivedAt databaseId archivedAt tables.store }

def Write.onKey (key : String) : Write → Bool
  | .insertKey row => row.key = key
  | .deleteKey key' => key' = key
  | _ => false

def Write.onItem (databaseId itemId : ℕ) : Write → Bool
  | .setDeletedAt databaseId' itemId' _ | .hardDelete databaseId' itemId' =>
    databaseId' = databaseId ∧ itemId' = itemId
  | _ => false

def Write.onDatabase (databaseId : ℕ) : Write → Bool
  | .setArchivedAt databaseId' _ => databaseId' = databaseId
  | _ => false

/-- What a create does next. -/
inductive Phase where
  /-- The database is archived: `findIdempotentReplay`. -/
  | findReplay
  | replay (itemId : ℕ)
  /-- `insertItemWithReplay`, from its first statement on. -/
  | reserve
  | conflict
  | reserved (itemId : ℕ)
  /-- The reserved item was read as purged or trashed. -/
  | takeOver (itemId : ℕ)
  | insert
  | effects (item : ItemRow)
deriving Inhabited

/-- A call of `createItem`; `key` is the input's when it is not empty, and `newId` the id that the
item gets. -/
structure Call where
  input : CreateItemInput
  key : Option String
  newId : ℕ
  database : DatabaseRow
  properties : List PropertyRow
  humanWriterUserId : Option ℕ
  phase : Phase

structure Returned where
  key : Option String
  databaseId : ℕ
  item : ItemRow
  created : Bool
  archived : Bool

/-- `keyLocks` are the rows of `idempotency_keys` locked `FOR UPDATE`; `finished` is what an open
transaction's calls have returned, `returned` that of the committed ones. -/
structure Sys where
  db : ReadCommitted Tables Write
  calls : ℕ → Option Call
  keyLocks : String → Option ℕ
  finished : ℕ → List Returned
  returned : List Returned
  nextId : ℕ

namespace Sys

/-- The tables before any create. -/
def init (s : Store) : Sys where
  db := .init ⟨{ s with items := [], idempotencyKeys := [] }, [], []⟩
  calls := fun _ => none
  keyLocks := fun _ => none
  finished := fun _ => []
  returned := []
  nextId := s.nextId

variable (s : Sys)

def view (t : ℕ) : Tables := s.db.view apply t

def setCall (t : ℕ) (call : Option Call) : Sys :=
  { s with calls := Function.update s.calls t call }

def setPhase (t : ℕ) (call : Call) (phase : Phase) : Sys :=
  s.setCall t (some { call with phase := phase })

def write (t : ℕ) (ws : List Write) (call : Option Call) : Option Sys :=
  (s.db.write t ws).map fun db => { s.setCall t call with db := db }

def finish (t : ℕ) (r : Returned) : Sys :=
  { s.setCall t none with finished := Function.update s.finished t (s.finished t ++ [r]) }

def close (t : ℕ) (db : ReadCommitted Tables Write) (returned : List Returned) : Sys :=
  { s.setCall t none with
    db := db
    keyLocks := fun key => (s.keyLocks key).filter (· ≠ t)
    finished := Function.update s.finished t []
    returned := returned }

def throw (t : ℕ) : Option Sys := (s.db.rollback t).map fun db => s.close t db s.returned

def keyRow (t : ℕ) (key : String) : Option IdempotencyKeyRow :=
  (s.view t).store.idempotencyKeys.find? fun row => row.key = key

def liveItem (t databaseId itemId : ℕ) : Option ItemRow :=
  ((s.view t).store.getItemById databaseId itemId).filter fun item => item.deletedAt = none

def KeyLocked (t : ℕ) (key : String) : Prop :=
  s.db.Locked t (Write.onKey key) ∨ (s.keyLocks key).any (· ≠ t) = true

instance (t : ℕ) (key : String) : Decidable (s.KeyLocked t key) := by
  unfold KeyLocked
  infer_instance

end Sys

inductive Act where
  | begin (t : ℕ)
  | createItem (t : ℕ) (input : CreateItemInput) (options : WriteOptions)
  | findReplay (t : ℕ)
  | readReplay (t : ℕ)
  | reserveKey (t : ℕ)
  | selectKey (t : ℕ)
  | readReserved (t : ℕ)
  | takeOver (t : ℕ)
  | insertItem (t : ℕ)
  | runEffects (t : ℕ)
  | setDeletedAt (t databaseId itemId : ℕ) (deletedAt : Option ℤ)
  | purge (t databaseId itemId : ℕ)
  | setArchivedAt (t databaseId : ℕ) (archivedAt : Option ℤ)
  | commit (t : ℕ)
  | rollback (t : ℕ)

variable (env : Env)

def startCall (store : Store) (newId : ℕ) (input : CreateItemInput) (options : WriteOptions) :
    Except Failure Call := do
  let database ← store.requireDatabase input.databaseId
  let properties := store.listPropertiesByDatabase input.databaseId
  let key := input.idempotencyKey.filter fun key => key ≠ ""
  let call : Call := ⟨input, key, newId, database, properties, options.humanWriterUserId, .insert⟩
  if database.archivedAt.isSome then
    if key.isSome then return { call with phase := .findReplay }
    else .error (.forbiddenError
      s!"Database {input.databaseId} is archived and cannot be written to"
      (fieldDetails "databaseId") "database_archived")
  else
    assertWritableProperties properties (input.properties.map Prod.fst) options
    return { call with phase := if key.isSome then .reserve else .insert }

def newItem (store : Store) (call : Call) : Except Failure ItemRow :=
  (applyDefaults env store call.properties call.input.properties
    (createdProperties call.database call.input.properties)).map fun properties =>
      { id := call.newId, databaseId := call.input.databaseId, properties, computed := [],
        updatedAt := env.now, deletedAt := none }

def createStep (s : Sys) (t : ℕ) (call : Call) : Act → Option Sys
  | .findReplay _ =>
    match call.phase, call.key with
    | .findReplay, some key =>
      match s.keyRow t key with
      | some row =>
        if row.databaseId = call.input.databaseId then some (s.setPhase t call (.replay row.itemId))
        else s.throw t
      | none => s.throw t
    | _, _ => none
  | .readReplay _ =>
    match call.phase with
    | .replay itemId =>
      match s.liveItem t call.input.databaseId itemId with
      | some item => some (s.finish t ⟨call.key, call.input.databaseId, item, false, true⟩)
      | none => s.throw t
    | _ => none
  | .reserveKey _ =>
    match call.phase, call.key with
    | .reserve, some key =>
      if s.db.Locked t (Write.onKey key) then none
      else
        match s.keyRow t key with
        | none => s.write t [.insertKey ⟨key, call.input.databaseId, call.newId⟩]
            (some { call with phase := .insert })
        | some _ => some (s.setPhase t call .conflict)
    | _, _ => none
  | .selectKey _ =>
    match call.phase, call.key with
    | .conflict, some key =>
      if s.KeyLocked t key then none
      else
        match s.keyRow t key with
        | some row =>
          if row.databaseId = call.input.databaseId then
            some { s.setPhase t call (.reserved row.itemId) with
              keyLocks := Function.update s.keyLocks key (some t) }
          else s.throw t
        | none => s.throw t
    | _, _ => none
  | .readReserved _ =>
    match call.phase with
    | .reserved itemId =>
      match s.liveItem t call.input.databaseId itemId with
      | some item => some (s.finish t ⟨call.key, call.input.databaseId, item, false, false⟩)
      | none => some (s.setPhase t call (.takeOver itemId))
    | _ => none
  | .takeOver _ =>
    match call.phase, call.key with
    | .takeOver _, some key =>
      -- the row is the transaction's, so nothing comes between the DELETE and the INSERT
      if s.KeyLocked t key then none
      else s.write t [.deleteKey key, .insertKey ⟨key, call.input.databaseId, call.newId⟩]
        (some { call with phase := .insert })
    | _, _ => none
  | .insertItem _ =>
    match call.phase with
    | .insert =>
      match newItem env (s.view t).store call with
      | .ok item =>
        s.write t [.insertItem item call.key] (some { call with phase := .effects item })
      | .error _ => s.throw t
    | _ => none
  | .runEffects _ =>
    match call.phase with
    | .effects item =>
      match env.assertWrittenConfigStorable call.database.ownerModuleId item.properties
        call.humanWriterUserId with
      | .ok _ => (s.write t [.createEffects item.id] none).map fun s =>
          s.finish t ⟨call.key, call.input.databaseId, item, true, false⟩
      | .error _ => s.throw t
    | _ => none
  | _ => none

def step (s : Sys) (a : Act) : Option Sys :=
  match a with
  | .begin t => (s.db.begin t).map fun db => { s with db := db }
  | .createItem t input options =>
    if t ∈ s.db.opened ∧ (s.calls t).isNone then
      match startCall (s.view t).store s.nextId input options with
      | .ok call => some { s.setCall t (some call) with nextId := s.nextId + 1 }
      | .error _ => s.throw t
    else none
  | .findReplay t | .readReplay t | .reserveKey t | .selectKey t | .readReserved t | .takeOver t
  | .insertItem t | .runEffects t => (s.calls t).bind fun call => createStep env s t call a
  | .setDeletedAt t databaseId itemId deletedAt =>
    if s.db.Locked t (Write.onItem databaseId itemId) then none
    else s.write t [.setDeletedAt databaseId itemId deletedAt] (s.calls t)
  | .purge t databaseId itemId =>
    -- the trashed row, and the reservations of the item with it
    let keys := ((s.view t).store.idempotencyKeys.filter fun row =>
      row.itemId = itemId ∧ row.databaseId = databaseId).map (·.key)
    if ((s.view t).store.getItemById databaseId itemId).any (fun item => item.deletedAt.isSome) ∧
        ¬ s.db.Locked t (Write.onItem databaseId itemId) ∧ (∀ key ∈ keys, ¬ s.KeyLocked t key) ∧
        (s.calls t).isNone then
      s.write t (.hardDelete databaseId itemId :: keys.map .deleteKey) none
    else none
  | .setArchivedAt t databaseId archivedAt =>
    if s.db.Locked t (Write.onDatabase databaseId) then none
    else s.write t [.setArchivedAt databaseId archivedAt] (s.calls t)
  | .commit t =>
    if (s.calls t).isNone then
      (s.db.commit apply t).map fun db => s.close t db (s.returned ++ s.finished t)
    else none
  | .rollback t => s.throw t

/-! ## What the creates are to keep to -/

def LastCreated (tables : Tables) (row : IdempotencyKeyRow) : Prop :=
  (tables.created.filter fun c => c.key = some row.key).getLast? =
    some ⟨row.itemId, some row.key, row.databaseId⟩

/-- The item of a key's row is the last one created under the key; a call returned an item that it
or an earlier call created under its key and database, live as the call read it; every created item
has an id of its own and had its effects once; and a call that found its database archived created
nothing. -/
structure Sys.Idempotent (s : Sys) : Prop where
  lifetime : ∀ row ∈ s.db.committed.store.idempotencyKeys, LastCreated s.db.committed row
  returned : ∀ r ∈ s.returned, ⟨r.item.id, r.key, r.databaseId⟩ ∈ s.db.committed.created ∧
    r.item.deletedAt = none
  effects : s.db.committed.effects = s.db.committed.created.map (·.itemId)
  once : s.db.committed.effects.Nodup
  archived : ∀ r ∈ s.returned, r.archived = true → r.created = false

def Sys.CreatesOnce (s s' : Sys) : Prop :=
  ∀ row ∈ s.db.committed.store.idempotencyKeys, row ∈ s'.db.committed.store.idempotencyKeys →
    s'.db.committed.created.filter (fun c => c.key = some row.key) =
      s.db.committed.created.filter fun c => c.key = some row.key

def Sys.OnlyReplays (s : Sys) : Prop :=
  ∀ t s', step env s (.commit t) = some s' → ∀ r ∈ s.finished t, r.created = true →
    ∀ database, s.db.committed.store.getDatabase r.databaseId = some database →
      database.archivedAt = none

end ItemCreates

end Semprec
