import Semprec.Lib.ReadCommitted
import Semprec.MailThreads

/-!
# Reconcile passes that ingest the same messages

A reconcile pass is one transaction and calls `ingestEmailMessage` for one message after the other;
passes of one mailbox run beside each other, and beside `sendDraftEmail`.  The lookup of
`ingestEmailMessage`, the item it creates and the upsert are statements of their own.  A claim and
its compensating delete are transactions of one statement.
-/

namespace Semprec

namespace Mail

inductive MetaWrite where
  | createItem (itemId : ℕ)
  | insertMeta (row : MailMessageMetaRow)
  | updateMeta (row : MailMessageMetaRow) (threadId : Option ℕ) (providerMessageId : Option String)
deriving DecidableEq

def Tables.apply (t : Tables) : MetaWrite → Tables
  | .createItem itemId => { t with emails := t.emails ++ [itemId] }
  | .insertMeta row => { t with mailMessageMeta := t.mailMessageMeta ++ [row] }
  | .updateMeta existing threadId providerMessageId => { t with
      mailMessageMeta := t.mailMessageMeta.map fun row =>
        if row.itemId = existing.itemId then
          { row with
            threadId := threadId <|> row.threadId
            providerMessageId := providerMessageId <|> row.providerMessageId }
        else row }

/-- The write of `upsertMailMessageMeta`, or the index it violates. -/
def upsertWrite (t : Tables) (input : MailMessageMetaRow) : Except UniqueViolation MetaWrite :=
  let taken (itemId : ℕ) := input.providerMessageId ≠ none ∧
    t.mailMessageMeta.any fun row =>
      row.providerMessageId = input.providerMessageId ∧ row.itemId ≠ itemId
  match t.getMailMessageMetaByMailboxAndMessageId input.mailboxItemId input.messageId with
  | some existing =>
    if taken existing.itemId then .error .mail_message_meta_tenant_provider_msg_uq
    else .ok (.updateMeta existing input.threadId input.providerMessageId)
  | none =>
    if t.mailMessageMeta.any (·.itemId = input.itemId) then .error .mail_message_meta_pkey
    else if taken input.itemId then .error .mail_message_meta_tenant_provider_msg_uq
    else .ok (.insertMeta input)

/-- The two rows have one key of the table's unique indexes in common. -/
def SameKey (row input : MailMessageMetaRow) : Prop :=
  (row.mailboxItemId = input.mailboxItemId ∧ row.messageId = input.messageId) ∨
    row.itemId = input.itemId ∨
    (input.providerMessageId ≠ none ∧ row.providerMessageId = input.providerMessageId)

instance (row input : MailMessageMetaRow) : Decidable (SameKey row input) := by
  unfold SameKey
  infer_instance

def MetaWrite.conflicts (input : MailMessageMetaRow) : MetaWrite → Bool
  | .createItem _ => false
  | .insertMeta row => SameKey row input
  | .updateMeta row threadId providerMessageId => SameKey
      { row with
        threadId := threadId
        providerMessageId := providerMessageId <|> row.providerMessageId } input

def MetaWrite.locks (itemId : ℕ) : MetaWrite → Bool
  | .updateMeta row _ _ => row.itemId = itemId
  | _ => false

/-- What a call was given, and what it returned. -/
structure Ingested where
  message : MailMessage
  providerMessageId : Option String
  result : IngestEmailMessageResult
deriving DecidableEq

/-- `calls` are the calls whose lookup found nothing, `finished` what a pass's calls have returned,
`ingested` that of the committed passes, and `itemIds` the ids given to items. -/
structure Passes where
  db : ReadCommitted Tables MetaWrite
  calls : ℕ → Option (MailMessage × Option String)
  finished : ℕ → List Ingested
  ingested : List Ingested
  sending : List ℕ
  itemIds : List ℕ

namespace Passes

def init : Passes := ⟨.init ⟨[], [], [], 0⟩, fun _ => none, fun _ => [], [], [], []⟩

variable (s : Passes)

def view (t : ℕ) : Tables := s.db.view Tables.apply t

def finish (t : ℕ) (db : ReadCommitted Tables MetaWrite) (r : Ingested) : Passes :=
  { s with
    db := db
    calls := Function.update s.calls t none
    finished := Function.update s.finished t (s.finished t ++ [r]) }

def close (t : ℕ) (db : ReadCommitted Tables MetaWrite) (ingested : List Ingested) : Passes :=
  { s with
    db := db
    calls := Function.update s.calls t none
    finished := Function.update s.finished t []
    ingested := ingested }

def setTables (tables : Tables) : Passes := { s with db := { s.db with committed := tables } }

end Passes

inductive PassAct where
  | begin (t : ℕ)
  /-- `m.itemId` is the id the item gets if one is created. -/
  | lookup (t : ℕ) (m : MailMessage) (providerMessageId : Option String)
  | store (t : ℕ) (threadId : ℕ)
  | commit (t : ℕ)
  | rollback (t : ℕ)
  | createDraft (itemId : ℕ)
  | claim (m : MailMessage)
  | sendMail (itemId : ℕ)
  | sendMailFails (itemId : ℕ)

/-- No other transaction sees a created item before the commit, so `store` creates it with its
row. -/
def passStep (s : Passes) : PassAct → Option Passes
  | .begin t => (s.db.begin t).map fun db => { s with db := db }
  | .lookup t m providerMessageId =>
    if t ∈ s.db.opened ∧ s.calls t = none ∧ m.itemId ∉ s.itemIds then
      match (s.view t).getMailMessageMetaByMailboxAndMessageId m.mailboxItemId m.messageId with
      | some existing =>
        some (s.finish t s.db ⟨m, providerMessageId, ⟨existing.itemId, false⟩⟩)
      | none => some { s with
          calls := Function.update s.calls t (some (m, providerMessageId))
          itemIds := m.itemId :: s.itemIds }
    else none
  | .store t threadId =>
    (s.calls t).bind fun (m, providerMessageId) =>
      let input : MailMessageMetaRow := ⟨m, some threadId, providerMessageId⟩
      if s.db.Locked t (MetaWrite.conflicts input) then none
      else
        match upsertWrite (s.view t) input with
        | .ok w => (s.db.write t [.createItem m.itemId, w]).map fun db =>
            s.finish t db ⟨m, providerMessageId, ⟨m.itemId, true⟩⟩
        | .error .mail_message_meta_tenant_provider_msg_uq =>
          (providerMessageId.bind (s.view t).getMailMessageMetaByProviderMessageId).map fun winner =>
            s.finish t s.db ⟨m, providerMessageId, ⟨winner.itemId, false⟩⟩
        | .error .mail_message_meta_pkey => none
  | .commit t =>
    if s.calls t = none then
      (s.db.commit Tables.apply t).map fun db => s.close t db (s.ingested ++ s.finished t)
    else none
  | .rollback t => (s.db.rollback t).map fun db => s.close t db s.ingested
  | .createDraft itemId =>
    if itemId ∈ s.itemIds then none
    else some { s.setTables { s.db.committed with emails := s.db.committed.emails ++ [itemId] } with
      itemIds := itemId :: s.itemIds }
  | .claim m =>
    if m.itemId ∈ s.db.committed.emails ∧
        (∀ row ∈ s.db.committed.mailMessageMeta, row.messageId ≠ m.messageId) ∧
        ¬ ∃ t ∈ s.db.opened, (s.db.pending t).any (MetaWrite.conflicts ⟨m, none, none⟩) = true then
      match claimDraft s.db.committed m with
      | .ok tables => some { s.setTables tables with sending := s.sending ++ [m.itemId] }
      | .error _ => some s
    else none
  | .sendMail itemId =>
    if itemId ∈ s.sending then some { s with sending := s.sending.filter (· ≠ itemId) } else none
  | .sendMailFails itemId =>
    if itemId ∈ s.sending ∧
        ¬ ∃ t ∈ s.db.opened, (s.db.pending t).any (MetaWrite.locks itemId) = true then
      some { s.setTables (s.db.committed.deleteMailMessageMetaByItemId itemId) with
        sending := s.sending.filter (· ≠ itemId) }
    else none

/-! ## What the passes are to leave behind -/

/-- The row stands for the message: by its Message-ID, or by the provider's id. -/
def Ingested.Names (r : Ingested) (row : MailMessageMetaRow) : Prop :=
  row.itemId = r.result.itemId ∧
    ((row.mailboxItemId = r.message.mailboxItemId ∧ row.messageId = r.message.messageId) ∨
      (r.providerMessageId ≠ none ∧ row.providerMessageId = r.providerMessageId))

/-- Each message of a mailbox has one row, and so has each item, and every call of a committed pass
returned an item whose row stands for its message. -/
structure Passes.OneItem (s : Passes) : Prop where
  message : ∀ row ∈ s.db.committed.mailMessageMeta, ∀ row' ∈ s.db.committed.mailMessageMeta,
    row.mailboxItemId = row'.mailboxItemId → row.messageId = row'.messageId → row = row'
  item : ∀ row ∈ s.db.committed.mailMessageMeta, ∀ row' ∈ s.db.committed.mailMessageMeta,
    row.itemId = row'.itemId → row = row'
  ingested : ∀ r ∈ s.ingested, ∃ row ∈ s.db.committed.mailMessageMeta, r.Names row

/-- No row of the message has been stored since its lookup, and no message whose SMTP call fails
has been found by a pass. -/
def FirstToStore (s : Passes) : PassAct → Prop
  | .store t _ => ∀ m ∈ s.calls t, (s.view t).getMailMessageMetaByMailboxAndMessageId
      m.1.mailboxItemId m.1.messageId = none
  | .sendMailFails itemId => (∀ r ∈ s.ingested, r.result.itemId ≠ itemId) ∧
      ∀ t ∈ s.db.opened, ∀ r ∈ s.finished t, r.result.itemId ≠ itemId
  | _ => True

end Mail

end Semprec
