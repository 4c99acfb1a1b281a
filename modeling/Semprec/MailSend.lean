import Mathlib.Logic.Function.Basic
import Semprec.Lib.Runs
import Semprec.MailThreads

/-!
# Sending a draft

Calls of `sendDraftEmail` beside each other and beside the sync.  A call claims its draft with a row
of `mail_message_meta` under a new Message-ID, in a transaction of its own, before it asks for an
SMTP client and hands the message over; only a rejected submission gives the claim back.
-/

namespace Semprec

namespace Mail

/-- Where a call of `sendDraftEmail` stands; before the claim it has read the draft only. -/
inductive SendCall where
  | preparing (draftItemId : ℕ)
  | claimed (m : MailMessage)
  | connected (m : MailMessage)
  | rejected (m : MailMessage)
  | sent (m : MailMessage)
deriving DecidableEq

/-- `messageIds` are those generated so far, `submitted` the messages `smtp.sendMail` has taken, and
`unsent` the claims of the calls that ended without handing their message over. -/
structure Sends where
  tables : Tables
  calls : ℕ → Option SendCall
  messageIds : List String
  submitted : List MailMessage
  unsent : List MailMessage

namespace Sends

def init : Sends := ⟨⟨[], [], [], 0⟩, fun _ => none, [], [], []⟩

variable (s : Sends) (c : ℕ)

def setCall (call : SendCall) : Sends := { s with calls := Function.update s.calls c (some call) }

def endCall : Sends := { s with calls := Function.update s.calls c none }

end Sends

inductive SendAct where
  | createDraft (itemId : ℕ)
  | ingest (m : MailMessage) (providerMessageId : Option String)
  | call (c draftItemId : ℕ)
  /-- A check, the credential or the claim's transaction fails. -/
  | prepareFails (c : ℕ)
  /-- `m` is the draft with its new Message-ID. -/
  | claim (c : ℕ) (m : MailMessage)
  | createSmtpClient (c : ℕ)
  | createSmtpClientFails (c : ℕ)
  | sendMail (c : ℕ)
  | sendMailFails (c : ℕ)
  | releaseClaim (c : ℕ)
  /-- The transaction that files the draft as sent, whether it commits or fails. -/
  | finalize (c : ℕ)

def sendStep (s : Sends) : SendAct → Option Sends
  | .createDraft itemId =>
    if itemId ∈ s.tables.emails then none
    else some { s with tables := { s.tables with emails := s.tables.emails ++ [itemId] } }
  | .ingest m providerMessageId =>
    if m.itemId ∈ s.tables.emails then none
    else (ingestEmailMessage s.tables m providerMessageId).map fun (_, t) => { s with tables := t }
  | .call c draftItemId =>
    if s.calls c = none then
      if draftItemId ∈ s.tables.emails then some (s.setCall c (.preparing draftItemId)) else some s
    else none
  | .prepareFails c =>
    match s.calls c with
    | some (.preparing _) => some (s.endCall c)
    | _ => none
  | .claim c m =>
    if s.calls c = some (.preparing m.itemId) ∧ m.messageId ∉ s.messageIds ∧
        ∀ row ∈ s.tables.mailMessageMeta, row.messageId ≠ m.messageId then
      let s := { s with messageIds := m.messageId :: s.messageIds }
      match claimDraft s.tables m with
      | .ok t => some ({ s with tables := t }.setCall c (.claimed m))
      -- the draft is claimed already: `ConflictError`
      | .error _ => some (s.endCall c)
    else none
  | .createSmtpClient c =>
    match s.calls c with
    | some (.claimed m) => some (s.setCall c (.connected m))
    | _ => none
  | .createSmtpClientFails c =>
    match s.calls c with
    | some (.claimed m) => some { s.endCall c with unsent := s.unsent ++ [m] }
    | _ => none
  | .sendMail c =>
    match s.calls c with
    | some (.connected m) => some { s.setCall c (.sent m) with submitted := s.submitted ++ [m] }
    | _ => none
  | .sendMailFails c =>
    match s.calls c with
    | some (.connected m) => some (s.setCall c (.rejected m))
    | _ => none
  | .releaseClaim c =>
    match s.calls c with
    | some (.rejected m) => some { s.endCall c with
        tables := s.tables.deleteMailMessageMetaByItemId m.itemId
        unsent := s.unsent ++ [m] }
    | _ => none
  | .finalize c =>
    match s.calls c with
    | some (.sent _) => some (s.endCall c)
    | _ => none

/-! ## What sending is to guarantee -/

/-- A draft is submitted once at most, and a call that ended without submitting its message has left
no claim behind. -/
structure Sends.Sound (s : Sends) : Prop where
  atMostOnce : (s.submitted.map fun m => m.itemId).Nodup
  released : ∀ m ∈ s.unsent, m ∉ s.tables.Stored

def SmtpClientCreated (_ : Sends) : SendAct → Prop
  | .createSmtpClientFails _ => False
  | _ => True

end Mail

end Semprec
