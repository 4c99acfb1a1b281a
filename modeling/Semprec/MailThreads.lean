import Mathlib.Data.List.Basic
import Mathlib.Data.Nat.Notation

/-!
# Mail messages and their threads

`mail_message_meta` has one row for each Emails item that is a message: those `ingestEmailMessage`
creates, in the thread `resolveThreadId` finds for them, and the drafts `sendDraftEmail` claims
before it sends them.  A row of another tenant is not visible, and each call is one transaction.
-/

namespace Semprec

namespace Mail

/-- What a row of `mail_message_meta` keeps of its message for good. -/
structure MailMessage where
  itemId : ℕ
  mailboxItemId : ℕ
  messageId : String
  inReplyTo : Option String
  references : List String
deriving DecidableEq

structure MailMessageMetaRow extends MailMessage where
  threadId : Option ℕ
  providerMessageId : Option String
deriving DecidableEq

structure Tables where
  emails : List ℕ
  mailMessageMeta : List MailMessageMetaRow
  mailThreads : List ℕ
  threadSeq : ℕ

namespace Tables

variable (t : Tables)

def getMailMessageMetaByMailboxAndMessageId (mailboxItemId : ℕ) (messageId : String) :
    Option MailMessageMetaRow :=
  t.mailMessageMeta.find? fun row =>
    row.mailboxItemId = mailboxItemId ∧ row.messageId = messageId

def getMailMessageMetaByProviderMessageId (providerMessageId : String) :
    Option MailMessageMetaRow :=
  t.mailMessageMeta.find? fun row => row.providerMessageId = some providerMessageId

def createMailThread : ℕ × Tables :=
  (t.threadSeq,
    { t with mailThreads := t.mailThreads ++ [t.threadSeq], threadSeq := t.threadSeq + 1 })

def reassignThread (fromThreadId toThreadId : ℕ) : Tables :=
  { t with
    mailMessageMeta := t.mailMessageMeta.map fun row =>
      if row.threadId = some fromThreadId then { row with threadId := some toThreadId } else row
    mailThreads := t.mailThreads.filter (· ≠ fromThreadId) }

def deleteMailMessageMetaByItemId (itemId : ℕ) : Tables :=
  { t with mailMessageMeta := t.mailMessageMeta.filter (·.itemId ≠ itemId) }

end Tables

/-! ## Threads -/

/-- `v is string` keeps what is not empty. -/
def ancestorIds (m : MailMessage) : List String :=
  ((m.inReplyTo.toList ++ m.references).filter (· ≠ "")).eraseDups

def threadedRows (t : Tables) (m : MailMessage) : List MailMessageMetaRow :=
  (t.mailMessageMeta.filter fun row => row.messageId ∈ ancestorIds m) ++
    t.mailMessageMeta.filter fun row =>
      row.inReplyTo = some m.messageId ∨ m.messageId ∈ row.references

def foundThreadIds (t : Tables) (m : MailMessage) : List ℕ :=
  ((threadedRows t m).filterMap (·.threadId)).eraseDups

def resolveThreadId (t : Tables) (m : MailMessage) : ℕ × Tables :=
  match foundThreadIds t m with
  | [] => t.createMailThread
  | target :: rest => (target, rest.foldl (fun t other => t.reassignThread other target) t)

/-! ## Messages -/

/-- The unique indexes of `mail_message_meta` a plain insert can violate. -/
inductive UniqueViolation where
  | mail_message_meta_pkey
  | mail_message_meta_tenant_provider_msg_uq
deriving DecidableEq

/-- `ON CONFLICT (mailbox_item_id, message_id) DO UPDATE` keeps what the statement gives no value
for. -/
def upsertMailMessageMeta (t : Tables) (input : MailMessageMetaRow) :
    Except UniqueViolation Tables :=
  let taken (itemId : ℕ) := input.providerMessageId ≠ none ∧
    t.mailMessageMeta.any fun row =>
      row.providerMessageId = input.providerMessageId ∧ row.itemId ≠ itemId
  match t.getMailMessageMetaByMailboxAndMessageId input.mailboxItemId input.messageId with
  | some existing =>
    if taken existing.itemId then .error .mail_message_meta_tenant_provider_msg_uq
    else .ok { t with
      mailMessageMeta := t.mailMessageMeta.map fun row =>
        if row.itemId = existing.itemId then
          { row with
            threadId := input.threadId <|> row.threadId
            providerMessageId := input.providerMessageId <|> row.providerMessageId }
        else row }
  | none =>
    if t.mailMessageMeta.any (·.itemId = input.itemId) then .error .mail_message_meta_pkey
    else if taken input.itemId then .error .mail_message_meta_tenant_provider_msg_uq
    else .ok { t with mailMessageMeta := t.mailMessageMeta ++ [input] }

structure IngestEmailMessageResult where
  itemId : ℕ
  created : Bool
deriving DecidableEq

/-- `m.itemId` is the id the item gets if one is created.  A conflict on the provider's id rolls
back to before the threads were merged, and gives the row that has it. -/
def ingestEmailMessage (t : Tables) (m : MailMessage) (providerMessageId : Option String) :
    Option (IngestEmailMessageResult × Tables) :=
  match t.getMailMessageMetaByMailboxAndMessageId m.mailboxItemId m.messageId with
  | some existing => some (⟨existing.itemId, false⟩, t)
  | none =>
    let (threadId, t') := resolveThreadId t m
    let t' := { t' with emails := t'.emails ++ [m.itemId] }
    match upsertMailMessageMeta t' ⟨m, some threadId, providerMessageId⟩ with
    | .ok t' => some (⟨m.itemId, true⟩, t')
    | .error .mail_message_meta_tenant_provider_msg_uq =>
      (providerMessageId.bind t.getMailMessageMetaByProviderMessageId).map fun winner =>
        (⟨winner.itemId, false⟩, t)
    | .error .mail_message_meta_pkey => none

/-- The claim of `sendDraftEmail`: a row without a thread. -/
def claimDraft (t : Tables) (m : MailMessage) : Except UniqueViolation Tables :=
  upsertMailMessageMeta t ⟨m, none, none⟩

/-! ## The mailboxes over time -/

structure Sys where
  tables : Tables
  sending : List ℕ
  sent : List ℕ

def Sys.init : Sys := ⟨⟨[], [], [], 0⟩, [], []⟩

inductive Act where
  | ingest (m : MailMessage) (providerMessageId : Option String)
  | createDraft (itemId : ℕ)
  /-- `m` is the draft with its new Message-ID. -/
  | claim (m : MailMessage)
  | sendMail (itemId : ℕ)
  | sendMailFails (itemId : ℕ)

/-- A new item's id is new, and so is a Message-ID that `sendDraftEmail` generates. -/
def step (s : Sys) : Act → Option Sys
  | .ingest m providerMessageId =>
    if m.itemId ∈ s.tables.emails then none
    else (ingestEmailMessage s.tables m providerMessageId).map fun (_, t) => { s with tables := t }
  | .createDraft itemId =>
    if itemId ∈ s.tables.emails then none
    else some { s with tables := { s.tables with emails := s.tables.emails ++ [itemId] } }
  | .claim m =>
    if m.itemId ∈ s.tables.emails ∧ ∀ row ∈ s.tables.mailMessageMeta, row.messageId ≠ m.messageId
    then
      match claimDraft s.tables m with
      | .ok t => some { s with tables := t, sending := s.sending ++ [m.itemId] }
      | .error _ => some s
    else none
  | .sendMail itemId =>
    if itemId ∈ s.sending then
      some { s with sending := s.sending.filter (· ≠ itemId), sent := s.sent ++ [itemId] }
    else none
  | .sendMailFails itemId =>
    if itemId ∈ s.sending then
      some { s with
        tables := s.tables.deleteMailMessageMetaByItemId itemId
        sending := s.sending.filter (· ≠ itemId) }
    else none

/-! ## What the threads are to be -/

def Names (u v : MailMessage) : Prop := u.inReplyTo = some v.messageId ∨ v.messageId ∈ u.references

instance (u v : MailMessage) : Decidable (Names u v) := by
  unfold Names
  infer_instance

def Tables.Stored (t : Tables) : Set MailMessage :=
  {m | ∃ row ∈ t.mailMessageMeta, row.toMailMessage = m}

def Tables.SameThread (t : Tables) (u v : MailMessage) : Prop :=
  ∃ ru ∈ t.mailMessageMeta, ∃ rv ∈ t.mailMessageMeta, ru.toMailMessage = u ∧
    rv.toMailMessage = v ∧ ∃ thread, ru.threadId = some thread ∧ rv.threadId = some thread

def Tables.NoEmptyThread (t : Tables) : Prop :=
  ∀ thread ∈ t.mailThreads, ∃ row ∈ t.mailMessageMeta, row.threadId = some thread

/-- The message was stored by `sendDraftEmail`. -/
def Sys.IsSent (s : Sys) (m : MailMessage) : Prop :=
  m ∈ s.tables.Stored ∧ (m.itemId ∈ s.sending ∨ m.itemId ∈ s.sent)

/-- A message that has an empty id in its headers is not ingested when a message has that id. -/
def NoBlankId (s : Sys) : Act → Prop
  | .ingest m _ => (m.inReplyTo = some "" ∨ "" ∈ m.references) →
    ∀ u ∈ s.tables.Stored, u.messageId ≠ ""
  | _ => True

end Mail

end Semprec
