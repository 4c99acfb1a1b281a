import Semprec.Lib.Runs
import Semprec.Lib.ReadCommitted

/-!
# Blobs shared by file uploads

File uploads, trash purges and item edits of one tenant, each in its own transaction under READ
COMMITTED, with the storage that holds the bytes.  An upload streams its bytes first and then
looks its content up by hash; a purge removes a trashed item and the blob nothing references any
more.  The random ids an upload draws (storage key, blob and item) are all its own number.
-/

namespace Semprec

namespace Blobs

structure BlobRow where
  id : ℕ
  storageKey : ℕ
  contentHash : String
deriving DecidableEq

/-- An item whose `properties.file.blobId` names a blob. -/
structure FileItem where
  id : ℕ
  databaseId : ℕ
  blobId : ℕ
  deleted : Bool
deriving DecidableEq

structure Tables where
  blobs : List BlobRow
  items : List FileItem
  databases : List ℕ
  mailAttachments : List ℕ
deriving DecidableEq

inductive Write where
  | insertBlob (row : BlobRow)
  | deleteBlob (row : BlobRow)
  | insertItem (row : FileItem)
  | deleteItem (itemId : ℕ)
  | setDeleted (itemId : ℕ) (deleted : Bool)
  | insertDatabase (databaseId : ℕ)
deriving DecidableEq

def FileItem.setDeleted (itemId : ℕ) (deleted : Bool) (row : FileItem) : FileItem :=
  if row.id = itemId then { row with deleted := deleted } else row

def Tables.apply (tables : Tables) : Write → Tables
  | .insertBlob row => { tables with blobs := tables.blobs ++ [row] }
  | .deleteBlob row => { tables with blobs := tables.blobs.filter fun b => b.id ≠ row.id }
  | .insertItem row => { tables with items := tables.items ++ [row] }
  | .deleteItem itemId => { tables with items := tables.items.filter fun i => i.id ≠ itemId }
  | .setDeleted itemId deleted =>
    { tables with items := tables.items.map (.setDeleted itemId deleted) }
  | .insertDatabase databaseId => { tables with databases := tables.databases ++ [databaseId] }

def getBlobByContentHash (tables : Tables) (contentHash : String) : Option BlobRow :=
  tables.blobs.find? fun b => b.contentHash = contentHash

def findFileItemByBlobId (tables : Tables) (databaseId blobId : ℕ) : Option FileItem :=
  tables.items.find? fun i => i.databaseId = databaseId ∧ ¬ i.deleted ∧ i.blobId = blobId

/-- The blob the `DELETE` removes: it is there, every database visible now is one of the ids read
before, and neither an item of those databases nor a mail attachment names it. -/
def deleteBlobIfUnreferenced (tables : Tables) (blobId : ℕ) (databaseIds : List ℕ) :
    Option BlobRow :=
  if (∀ d ∈ tables.databases, d ∈ databaseIds) ∧
      (∀ i ∈ tables.items, i.databaseId ∈ databaseIds → i.blobId ≠ blobId) ∧
      blobId ∉ tables.mailAttachments then
    tables.blobs.find? fun b => b.id = blobId
  else none

/-- How far `ingestUploadedFile` has come. -/
inductive UploadPhase where
  | streamed
  /-- The `INSERT` met a row of the same content. -/
  | conflicted
  /-- `findOrCreateBlob` has returned. -/
  | resolved (blob : BlobRow)
  /-- No live item has the blob. -/
  | creating (blob : BlobRow)
  | returned (blob : BlobRow) (created : Bool)
  | committed (blob : BlobRow)
  | rolledBack
deriving DecidableEq

/-- A purge between two rows has nothing to check; after a row it has the row's blob, and then
the database ids too. -/
inductive Proc where
  | upload (contentHash : String) (filesDatabaseId : ℕ) (phase : UploadPhase)
  | purge (checking : Option (ℕ × Option (List ℕ))) (blobStorageKeys : List ℕ) (ended : Bool)
  | edit
deriving DecidableEq

structure Sys where
  db : ReadCommitted Tables Write
  stored : Finset ℕ
  procs : ℕ → Option Proc

def Sys.init (databases mailAttachments : List ℕ) : Sys :=
  ⟨.init ⟨[], [], databases, mailAttachments⟩, ∅, fun _ => none⟩

inductive Act where
  /-- `writeStream` and `BEGIN`. -/
  | upload (t : ℕ) (contentHash : String) (filesDatabaseId : ℕ)
  | insertBlob (t : ℕ)
  | getBlobByContentHash (t : ℕ)
  | findFileItemByBlobId (t : ℕ)
  | createItem (t : ℕ)
  | purge (t : ℕ)
  | hardDeleteItem (t itemId : ℕ)
  | visibleDatabaseIds (t : ℕ)
  | deleteBlob (t : ℕ)
  | edit (t : ℕ)
  | setDeleted (t itemId : ℕ) (deleted : Bool)
  | insertDatabase (t databaseId : ℕ)
  | commit (t : ℕ)
  | rollback (t : ℕ)
  /-- Bytes removed from storage once their transaction has ended. -/
  | deleteBytes (t storageKey : ℕ)
deriving DecidableEq

namespace Sys

def view (s : Sys) (t : ℕ) : Tables := s.db.view Tables.apply t

def setProc (s : Sys) (t : ℕ) (p : Proc) : Sys :=
  { s with procs := Function.update s.procs t (some p) }

def begin (s : Sys) (t : ℕ) (p : Proc) : Option Sys :=
  if (s.procs t).isNone then (s.db.begin t).map fun db => { s with db := db }.setProc t p
  else none

def write (s : Sys) (t : ℕ) (ws : List Write) (p : Proc) : Option Sys :=
  (s.db.write t ws).map fun db => { s with db := db }.setProc t p

end Sys

/-- What an `INSERT` of a blob of this content waits for. -/
def Write.ofContent (contentHash : String) : Write → Bool
  | .insertBlob row | .deleteBlob row => row.contentHash = contentHash
  | _ => false

def Write.locksBlob (blobId : ℕ) : Write → Bool
  | .deleteBlob row => row.id = blobId
  | _ => false

def Write.locksItem (itemId : ℕ) : Write → Bool
  | .deleteItem id | .setDeleted id _ => id = itemId
  | _ => false

def Proc.committed : Proc → Option Proc
  | .upload contentHash d (.returned blob _) => some (.upload contentHash d (.committed blob))
  | .purge none keys false => some (.purge none keys true)
  | .edit => some .edit
  | _ => none

def UploadPhase.isOpen : UploadPhase → Bool
  | .committed _ | .rolledBack => false
  | _ => true

def Proc.rolledBack : Proc → Option Proc
  | .upload contentHash d phase =>
    if phase.isOpen then some (.upload contentHash d .rolledBack) else none
  | .purge _ _ false => some (.purge none [] true)
  | .purge _ _ true => none
  | .edit => some .edit

def Proc.garbage (t : ℕ) : Proc → List ℕ
  | .upload _ _ (.committed blob) => if blob.storageKey ≠ t then [t] else []
  | .upload _ _ .rolledBack => [t]
  | .purge _ keys true => keys
  | _ => []

@[grind =] def step (s : Sys) : Act → Option Sys
  | .upload t contentHash d =>
    ({ s with stored := insert t s.stored } : Sys).begin t (.upload contentHash d .streamed)
  | .insertBlob t =>
    match s.procs t with
    | some (.upload contentHash d .streamed) =>
      if s.db.Locked t (Write.ofContent contentHash) then none
      else match Blobs.getBlobByContentHash (s.view t) contentHash with
        | some _ => some (s.setProc t (.upload contentHash d .conflicted))
        | none => s.write t [.insertBlob ⟨t, t, contentHash⟩]
            (.upload contentHash d (.resolved ⟨t, t, contentHash⟩))
    | _ => none
  | .getBlobByContentHash t =>
    match s.procs t with
    | some (.upload contentHash d .conflicted) =>
      (Blobs.getBlobByContentHash (s.view t) contentHash).map fun blob =>
        s.setProc t (.upload contentHash d (.resolved blob))
    | _ => none
  | .findFileItemByBlobId t =>
    match s.procs t with
    | some (.upload contentHash d (.resolved blob)) =>
      match Blobs.findFileItemByBlobId (s.view t) d blob.id with
      | some _ => some (s.setProc t (.upload contentHash d (.returned blob false)))
      | none => some (s.setProc t (.upload contentHash d (.creating blob)))
    | _ => none
  | .createItem t =>
    match s.procs t with
    | some (.upload contentHash d (.creating blob)) =>
      if d ∈ (s.view t).databases then
        s.write t [.insertItem ⟨t, d, blob.id, false⟩]
          (.upload contentHash d (.returned blob true))
      else none
    | _ => none
  | .purge t => s.begin t (.purge none [] false)
  | .hardDeleteItem t itemId =>
    match s.procs t with
    | some (.purge none keys false) =>
      if s.db.Locked t (Write.locksItem itemId) then none
      else match (s.view t).items.find? fun i => i.id = itemId with
        | some item =>
          if item.deleted then
            s.write t [.deleteItem itemId] (.purge (some (item.blobId, none)) keys false)
          else some s
        | none => some s
    | _ => none
  | .visibleDatabaseIds t =>
    match s.procs t with
    | some (.purge (some (blobId, none)) keys false) =>
      some (s.setProc t (.purge (some (blobId, some (s.view t).databases)) keys false))
    | _ => none
  | .deleteBlob t =>
    match s.procs t with
    | some (.purge (some (blobId, some databaseIds)) keys false) =>
      if s.db.Locked t (Write.locksBlob blobId) then none
      else match deleteBlobIfUnreferenced (s.view t) blobId databaseIds with
        | some blob =>
          s.write t [.deleteBlob blob] (.purge none (keys ++ [blob.storageKey]) false)
        | none => some (s.setProc t (.purge none keys false))
    | _ => none
  | .edit t => s.begin t .edit
  | .setDeleted t itemId deleted =>
    match s.procs t with
    | some .edit =>
      if s.db.Locked t (Write.locksItem itemId) then none
      else s.write t [.setDeleted itemId deleted] .edit
    | _ => none
  | .insertDatabase t databaseId =>
    match s.procs t with
    | some .edit => s.write t [.insertDatabase databaseId] .edit
    | _ => none
  | .commit t =>
    ((s.procs t).bind Proc.committed).bind fun p =>
      (s.db.commit Tables.apply t).map fun db => { s with db := db }.setProc t p
  | .rollback t =>
    ((s.procs t).bind Proc.rolledBack).bind fun p =>
      (s.db.rollback t).map fun db => { s with db := db }.setProc t p
  | .deleteBytes t storageKey =>
    match s.procs t with
    | some p =>
      if storageKey ∈ p.garbage t then some { s with stored := s.stored.erase storageKey }
      else none
    | none => none

def Sys.NoDangling (s : Sys) : Prop :=
  ∀ item ∈ s.db.committed.items, item.deleted = false →
    ∃ blob ∈ s.db.committed.blobs, blob.id = item.blobId ∧ blob.storageKey ∈ s.stored

/-- The upload may still put an item on a blob of its content. -/
def UploadPhase.reuses : UploadPhase → Bool
  | .conflicted | .resolved _ | .creating _ | .returned _ true => true
  | _ => false

def Proc.reuses (contentHash : String) : Proc → Bool
  | .upload h _ phase => h = contentHash ∧ phase.reuses
  | _ => false

def Sys.deletes (s : Sys) (t : ℕ) : Option BlobRow :=
  match s.procs t with
  | some (.purge (some (blobId, some databaseIds)) _ false) =>
    deleteBlobIfUnreferenced (s.view t) blobId databaseIds
  | _ => none

/-- A purge deletes a blob while no upload of the same content is between its `INSERT` and its
commit. -/
def NoReuseInFlight (s : Sys) : Act → Prop
  | .deleteBlob t =>
    ∀ blob ∈ s.deletes t, ∀ u ∈ s.db.opened, ∀ p ∈ s.procs u, p.reuses blob.contentHash = false
  | _ => True

instance (s : Sys) : ∀ a, Decidable (NoReuseInFlight s a)
  | .deleteBlob t => inferInstanceAs (Decidable (∀ blob ∈ s.deletes t, ∀ u ∈ s.db.opened,
      ∀ p ∈ s.procs u, p.reuses blob.contentHash = false))
  | .upload _ _ _ | .insertBlob _ | .getBlobByContentHash _ | .findFileItemByBlobId _
  | .createItem _ | .purge _ | .hardDeleteItem _ _ | .visibleDatabaseIds _ | .edit _
  | .setDeleted _ _ _ | .insertDatabase _ _ | .commit _ | .rollback _ | .deleteBytes _ _ =>
    isTrue trivial

end Blobs

end Semprec
