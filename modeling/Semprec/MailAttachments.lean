import Mathlib.Data.Nat.Notation
import Mathlib.Logic.Function.Basic
import Semprec.Lib.Transaction

/-!
# Attachments of a mail sync pass

A pass ingests messages in one transaction.  The bytes of an attachment are written to storage before
the row that names them commits, so a pass keeps the keys it writes to and removes them when it
fails.  A blob of the same content is shared: the bytes written for it again are removed.
-/

namespace Semprec

namespace MailAttachments

abbrev Bytes := List UInt8

inductive MailError where
  | attachmentCapExceeded
  | other
deriving DecidableEq

/-- What a stream yields, and the error it ends with, if any. -/
structure Source where
  content : Bytes
  error : Option MailError
deriving DecidableEq

/-- `extractable` is whether the content type is one that text is extracted from. -/
structure ClassifiedAttachment where
  extractable : Bool
  openStream : Except MailError Source

/-- What the disk and the database refuse while one attachment is ingested. -/
structure Faults where
  mkdir : Bool
  disk : Bool
  findOrCreateBlob : Bool
  reference : Bool
deriving DecidableEq

def Faults.none : Faults := ⟨false, false, false, false⟩

structure FetchedMessage where
  messageId : String
  attachments : List (ClassifiedAttachment × Faults)
  /-- A statement before the attachments fails, or one after them. -/
  failsBefore : Bool
  failsAfter : Bool

structure BlobRow where
  id : ℕ
  storageKey : ℕ
  contentHash : String
  byteSize : ℕ
deriving DecidableEq

structure MailAttachmentRow where
  messageItemId : ℕ
  blobId : ℕ
  byteSize : ℕ
deriving DecidableEq

/-- The tables as the transaction sees them, the storage, and the next number to draw an id from. -/
structure Store where
  blobs : List BlobRow
  mailAttachments : List MailAttachmentRow
  emails : List (ℕ × String)
  cursor : ℕ
  files : ℕ → Option Bytes
  writtenKeys : List ℕ
  nextId : ℕ

namespace Store

variable (s : Store) (storageKey : ℕ)

def putFile (content : Option Bytes) : Store :=
  { s with files := Function.update s.files storageKey content }

def delete : Store := s.putFile storageKey none

end Store

variable (sha256 : Bytes → String)

def randomUUID : Tx Store MailError ℕ := Tx.write fun s => (s.nextId, { s with nextId := s.nextId + 1 })

/-- The writer that `trackWrittenKeys` wraps: a write that fails removes what it has written. -/
def writeStream (storageKey : ℕ) (source : Source) (faults : Faults) :
    Tx Store MailError (ℕ × String) := do
  Tx.write fun s => ((), { s with writtenKeys := storageKey :: s.writtenKeys })
  if faults.mkdir then Tx.throw .other
  else do
    Tx.write fun s => ((), s.putFile storageKey (some source.content))
    match if faults.disk then some .other else source.error with
    | some err => do
      Tx.write fun s => ((), s.delete storageKey)
      Tx.throw err
    | none => pure (source.content.length, sha256 source.content)

def getBlobByContentHash (s : Store) (contentHash : String) : Option BlobRow :=
  s.blobs.find? fun row => row.contentHash = contentHash

/-- `ON CONFLICT DO NOTHING`, and the row in the way. -/
def findOrCreateBlob (storageKey byteSize : ℕ) (contentHash : String) : Tx Store MailError BlobRow :=
  Tx.write fun s =>
    match getBlobByContentHash s contentHash with
    | some row => (row, s)
    | none =>
      let row : BlobRow := ⟨storageKey, storageKey, contentHash, byteSize⟩
      (row, { s with blobs := s.blobs ++ [row] })

/-- The whole stream in memory: text is extracted from it, and it is streamed again. -/
def bufferStream (source : Source) : Except MailError Source :=
  match source.error with
  | some err => .error err
  | none => .ok ⟨source.content, none⟩

/-- The bytes that are to be written, or why there are none. -/
def ClassifiedAttachment.source (attachment : ClassifiedAttachment) : Except MailError Source :=
  attachment.openStream.bind fun source =>
    if attachment.extractable then bufferStream source else .ok source

def ingestAttachmentBody (messageItemId storageKey : ℕ) (attachment : ClassifiedAttachment)
    (faults : Faults) : Tx Store MailError Unit := do
  let source ← Tx.query fun _ => attachment.source
  let (byteSize, contentHash) ← writeStream sha256 storageKey source faults
  if faults.findOrCreateBlob then Tx.throw .other
  else do
    let blob ← findOrCreateBlob storageKey byteSize contentHash
    Tx.write fun s => ((), if blob.storageKey ≠ storageKey then s.delete storageKey else s)
    if faults.reference then Tx.throw .other
    else Tx.write fun s => ((), { s with
      mailAttachments := s.mailAttachments ++ [⟨messageItemId, blob.id, byteSize⟩] })

/-- One round of `ingestAttachments`: an attachment over the cap is skipped. -/
def ingestAttachment (messageItemId : ℕ) (attachment : ClassifiedAttachment × Faults) :
    Tx Store MailError Unit := do
  let storageKey ← randomUUID
  (ingestAttachmentBody sha256 messageItemId storageKey attachment.1 attachment.2).catchError
    fun err => if err = .attachmentCapExceeded then pure () else Tx.throw err

def ingestAttachments (messageItemId : ℕ) (attachments : List (ClassifiedAttachment × Faults)) :
    Tx Store MailError Unit :=
  forM attachments (ingestAttachment sha256 messageItemId)

/-- A message that has an item already is linked to its folder and no more. -/
def ingestEmailMessage (message : FetchedMessage) : Tx Store MailError Unit := do
  let emails ← Tx.gets Store.emails
  if emails.any fun email => email.2 = message.messageId then pure ()
  else if message.failsBefore then Tx.throw .other
  else do
    let itemId ← randomUUID
    Tx.write fun s => ((), { s with emails := s.emails ++ [(itemId, message.messageId)] })
    ingestAttachments sha256 itemId message.attachments
    if message.failsAfter then Tx.throw .other else pure ()

def reconcileAccount (messages : List FetchedMessage) (newCursor : ℕ) : Tx Store MailError Unit := do
  forM messages (ingestEmailMessage sha256)
  Tx.write fun s => ((), { s with cursor := newCursor })

/-- How `COMMIT` ends: an error may come back although it took effect. -/
inductive CommitOutcome where
  | acknowledged
  | failed
  | lost
deriving DecidableEq

namespace Store

def rollback (s before : Store) : Store :=
  { s with
    blobs := before.blobs, mailAttachments := before.mailAttachments
    emails := before.emails, cursor := before.cursor }

/-- What the pass does when it fails. -/
def cleanUp (s : Store) : Store :=
  s.writtenKeys.foldl Store.delete s

end Store

def handleSyncMailAccountTask (messages : List FetchedMessage) (newCursor : ℕ)
    (commit : CommitOutcome) (before : Store) : Except MailError Unit × Store :=
  match (reconcileAccount sha256 messages newCursor).run { before with writtenKeys := [] } with
  | (.error err, s) => (.error err, (s.rollback before).cleanUp)
  | (.ok (), s) =>
    match commit with
    | .acknowledged => (.ok (), s)
    | .failed => (.error .other, (s.rollback before).cleanUp)
    | .lost => (.error .other, s.cleanUp)

def ends (attachment : ClassifiedAttachment × Faults) : Except Unit (Option Bytes) :=
  let write (source : Source) : Except MailError Bytes :=
    if attachment.2.mkdir ∨ attachment.2.disk then .error .other
    else match source.error with
      | some err => .error err
      | none =>
        if attachment.2.findOrCreateBlob ∨ attachment.2.reference then .error .other
        else .ok source.content
  match attachment.1.source.bind write with
  | .ok content => .ok (some content)
  | .error .attachmentCapExceeded => .ok none
  | .error .other => .error ()

def ingested : List String → List FetchedMessage → List FetchedMessage
  | _, [] => []
  | known, message :: messages =>
    if message.messageId ∈ known then ingested known messages
    else message :: ingested (known ++ [message.messageId]) messages

def FetchedMessage.Succeeds (message : FetchedMessage) : Prop :=
  message.failsBefore = false ∧ message.failsAfter = false ∧
    ∀ attachment ∈ message.attachments, ends attachment ≠ .error ()

def FetchedMessage.stored (message : FetchedMessage) : List Bytes :=
  message.attachments.filterMap fun attachment => (ends attachment).toOption.join

def Store.HasBytes (s : Store) (row : BlobRow) : Prop :=
  ∃ content, s.files row.storageKey = some content ∧ content.length = row.byteSize ∧
    sha256 content = row.contentHash

structure Store.Sound (s : Store) : Prop where
  bytes : ∀ row ∈ s.blobs, s.HasBytes sha256 row
  fresh : ∀ row ∈ s.blobs, row.storageKey < s.nextId

/-- The ids of the messages that have an item. -/
def known (s : Store) : List String := s.emails.map Prod.snd

structure Store.Agrees (s : Store) : Prop where
  bytes : ∀ row ∈ s.blobs, s.HasBytes sha256 row
  noOrphans : ∀ key ∈ s.writtenKeys, (∀ row ∈ s.blobs, row.storageKey ≠ key) → s.files key = none

/-- The commit took effect although its acknowledgement was lost, and it made a row for content that
no row had before. -/
def LosesBytes (messages : List FetchedMessage) (commit : CommitOutcome) (before : Store) : Prop :=
  commit = .lost ∧ (∀ message ∈ ingested (known before) messages, message.Succeeds) ∧
    ∃ message ∈ ingested (known before) messages, ∃ content ∈ message.stored,
      ∀ row ∈ before.blobs, row.contentHash ≠ sha256 content

end MailAttachments

end Semprec
