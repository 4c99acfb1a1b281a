import Mathlib.Logic.Function.Basic
import Semprec.Lib.Runs
import Semprec.Store

/-!
# Processing proposals

The cards of the Inbox: a tick proposes one for its source item, and a user confirms, rejects or
revises it.  A decision locks the card's row and runs under READ COMMITTED; a tick reads in one
REPEATABLE READ transaction, asks the model, and writes in another.
-/

namespace Semprec

namespace Proposals

inductive ProposalEntityKind where
  | pageContent
  | database
  | relation
deriving DecidableEq

structure ProposalEnvelope where
  entityKind : ProposalEntityKind
  target : String
  properties : JsonObject

inductive ProposalStatus where
  | proposed
  | needsClarification
  | invalid
  | confirmed
  | rejected
deriving DecidableEq

def ProposalStatus.name : ProposalStatus → String
  | .proposed => "proposed"
  | .needsClarification => "needsClarification"
  | .invalid => "invalid"
  | .confirmed => "confirmed"
  | .rejected => "rejected"

/-- Membership in `LOCKED_PROPOSAL_STATUSES`. -/
def ProposalStatus.locked : ProposalStatus → Bool
  | .confirmed => true
  | .rejected => true
  | _ => false

inductive ProposalKind where
  | inbox
  | transcript
deriving DecidableEq

inductive Author where
  | ai
  | user
deriving DecidableEq

structure ProposalHistoryEntry where
  author : Author
  message : String
deriving DecidableEq

/-- A card, with its edges to what it is for; `version` counts the writes of the row. -/
structure ProposalRow where
  id : ℕ
  kind : ProposalKind
  sourceInbox : Option ℕ
  sourceTranscript : Option ℕ
  status : ProposalStatus
  proposal : Option ProposalEnvelope
  fingerprint : Option String
  history : List ProposalHistoryEntry
  resultItemId : Option String
  resultLabel : Option String
  deleted : Bool
  updatedAt : ℤ
  version : ℕ

namespace ProposalRow

variable (row : ProposalRow)

def appendHistoryEntry (message : String) (author : Author) : List ProposalHistoryEntry :=
  row.history ++ [⟨author, message⟩]

/-- What every write of a row does beside what it sets. -/
def touch (now : ℤ) : ProposalRow := { row with updatedAt := now, version := row.version + 1 }

end ProposalRow

/-! ## The checks of an envelope -/

/-- What the checks read of the tables of a destination, when they run; `uuid` is the id that a text
in the form of one names. -/
structure Destination where
  store : Store
  uuid : String → Option ℕ
  assertValidMcpServerProposalProperties : JsonObject → Except Failure Unit
  assertRelationCreatable : ℕ → ℕ → ℕ → Option JsonObject → Except Failure Unit

def mcpServersModuleId : String := "mcpServers"

def eventsModuleId : String := "events"

def transcriptsModuleId : String := "transcripts"

def transcriptSpeakersPropertyKey : String := "speakers"

def transcriptEventPropertyKey : String := "event"

def semprecReadOnlyModuleIds : List String := ["inbox", "inboxItemTypes"]

def invalid {α : Type} (message field : String) : Except Failure α :=
  .error (.validationError message (fieldDetails field))

def isObject : Json → Bool
  | .obj _ => true
  | _ => false

def isStringArray : Json → Bool
  | .arr elements => elements.all fun
    | .str _ => true
    | _ => false
  | _ => false

def isText : Option Json → Bool
  | some (.str s) => s ≠ ""
  | _ => false

def assertSettable (target : DatabaseRow) (properties : List PropertyRow) (key : String) :
    Except Failure Unit :=
  match properties.find? fun p => p.key = key with
  | none => invalid
      s!"Proposal properties reference unknown property '{key}' on target database {target.id}" key
  | some property =>
    if property.type = .relation then
      invalid s!"Proposal properties cannot set relation property '{key}' directly" key
    else if property.type = .rollup then
      invalid s!"Proposal properties cannot set read-only rollup property '{key}'" key
    else if property.owner = .system then
      invalid s!"Proposal properties cannot set system-owned property '{key}'" key
    else .ok ()

def assertValidProposalEnvelope (d : Destination) (envelope : ProposalEnvelope) :
    Except Failure (Option DatabaseRow) :=
  let target := envelope.target
  match envelope.entityKind with
  | .database =>
    match d.uuid target with
    | none => invalid s!"Proposal envelope target '{target}' is not a database id" "target"
    | some id =>
      match (d.store.getDatabase id).filter fun database => database.archivedAt.isNone with
      | none =>
        invalid s!"Proposal envelope target '{target}' is not an existing target database" "target"
      | some database => do
        if database.ownerModuleId.any (semprecReadOnlyModuleIds.contains ·) then
          invalid s!"Proposal envelope target '{target}' is not a writable target database" "target"
        if database.ownerModuleId = some mcpServersModuleId then
          d.assertValidMcpServerProposalProperties envelope.properties
        envelope.properties.forM fun f =>
          assertSettable database (d.store.listPropertiesByDatabase id) f.1
        return some database
  | .relation => do
    if (d.uuid target).isNone then
      invalid s!"Proposal envelope target '{target}' is not an item id" "target"
    if (envelope.properties.any fun f => f.1 ≠ "propertyKey" ∧ f.1 ≠ "metadata") ∨
        isText (envelope.properties.get? "propertyKey") = false ∨
        (envelope.properties.get? "metadata").all isObject = false then
      invalid ("Proposal properties for entityKind 'relation' must be \x7b propertyKey \x7d plus " ++
        "an optional metadata object") "properties"
    return none
  | .pageContent => do
    if (d.uuid target).isNone then
      invalid s!"Proposal envelope target '{target}' is not a page id" "target"
    if d.store.getItemsByIds (d.uuid target).toList |>.isEmpty then
      invalid s!"Proposal envelope target '{target}' is not an existing page" "target"
    if isText (envelope.properties.get? "flavour") = false then
      invalid ("Proposal properties for entityKind 'pageContent' must carry a 'flavour' block " ++
        "field") "properties"
    if (envelope.properties.get? "fields").all isObject = false then
      invalid "Proposal properties 'fields', if present, must be a plain object" "properties"
    if (envelope.properties.get? "children").all isStringArray = false then
      invalid "Proposal properties 'children', if present, must be an array of strings" "properties"
    return none

inductive TranscriptCardRole where
  | event
  | speaker
deriving DecidableEq

structure TranscriptCardEdge where
  role : TranscriptCardRole
  transcriptId : ℕ
  relationPropertyId : ℕ

structure EnvelopeForCard where
  transcriptCardEdge : Option TranscriptCardEdge
  targetDatabase : Option DatabaseRow

def namesProperty (envelope : ProposalEnvelope) (key : String) : Bool :=
  match envelope.properties.get? "propertyKey" with
  | some (.str k) => k = key
  | _ => false

def transcriptCardRole (envelope : ProposalEnvelope) : TranscriptCardRole :=
  if envelope.entityKind = .relation ∧ namesProperty envelope transcriptSpeakersPropertyKey then
    .speaker
  else .event

def relationEnvelopeMetadata (envelope : ProposalEnvelope) : Option JsonObject :=
  match envelope.properties.get? "metadata" with
  | some (.obj fields) => some fields
  | _ => none

def requireDatabaseIdByModuleId (d : Destination) (moduleId : String) : Except Failure ℕ := do
  match ← d.store.getDatabaseByModuleId moduleId with
  | some database => return database.id
  | none => .error (.notFoundError s!"Database for module '{moduleId}' not found" none)

def requireRelationPropertyId (d : Destination) (databaseId : ℕ) (key : String) :
    Except Failure ℕ :=
  match (d.store.listPropertiesByDatabase databaseId).find? fun p => p.key = key with
  | some property => .ok property.id
  | none => .error (.notFoundError s!"Property '{key}' not found on database {databaseId}" none)

def requireSourceTranscriptId (proposal : ProposalRow) : Except Failure ℕ :=
  match proposal.sourceTranscript with
  | some transcriptId => .ok transcriptId
  | none => invalid s!"Transcript proposal {proposal.id} has no source transcript" "sourceTranscript"

def assertValidEnvelopeForCard (d : Destination) (proposal : ProposalRow)
    (envelope : ProposalEnvelope) : Except Failure EnvelopeForCard := do
  let targetDatabase ← assertValidProposalEnvelope d envelope
  if proposal.kind ≠ .transcript then
    if envelope.entityKind = .relation then
      invalid "entityKind 'relation' is only valid on a transcript proposal" "entityKind"
    return ⟨none, targetDatabase⟩
  let role := transcriptCardRole envelope
  if proposal.proposal.any fun current => transcriptCardRole current ≠ role then
    invalid "A transcript proposal cannot switch between an Event and a speaker mapping"
      "entityKind"
  let transcriptId ← requireSourceTranscriptId proposal
  let transcriptsDatabaseId ← requireDatabaseIdByModuleId d transcriptsModuleId
  let relationPropertyId ← requireRelationPropertyId d transcriptsDatabaseId
    (if role = .speaker then transcriptSpeakersPropertyKey else transcriptEventPropertyKey)
  match envelope.entityKind with
  | .database =>
    let eventsDatabaseId ← requireDatabaseIdByModuleId d eventsModuleId
    if d.uuid envelope.target ≠ some eventsDatabaseId then
      invalid "A transcript proposal can only create an Event" "target"
  | .relation =>
    if role = .event ∧ namesProperty envelope transcriptEventPropertyKey = false then
      invalid ("A transcript proposal can only link through the 'event' or 'speakers' " ++
        "relation") "properties"
    (d.uuid envelope.target).toList.forM fun target =>
      d.assertRelationCreatable relationPropertyId transcriptId target
        (relationEnvelopeMetadata envelope)
  | .pageContent => invalid "A transcript proposal cannot append page content" "entityKind"
  return ⟨some ⟨role, transcriptId, relationPropertyId⟩, targetDatabase⟩

/-! ## What a confirm writes -/

structure ConfirmProposalCredentialInput where
  credentialType : String
  plaintext : String

inductive DestinationWrite where
  | createItem (itemId : ℕ) (databaseId : String) (properties : JsonObject)
  | storeCredential (itemId : ℕ) (credential : ConfirmProposalCredentialInput)
  | createRelation (relationPropertyId callerItemId : ℕ) (targetItemId : String)
      (metadata : Option JsonObject)
  | putBlock (pageId : String) (blockId : ℕ) (flavour fields children : Option Json)

/-- The writes of `confirmProposalWithClient` before that of the card, in their order; `createdId`
is the id of the item that a `database` envelope creates. -/
def destinationWrites (proposalId : ℕ) (envelope : ProposalEnvelope)
    (transcriptCardEdge : Option TranscriptCardEdge)
    (credential : Option ConfirmProposalCredentialInput) (createdId : ℕ) : List DestinationWrite :=
  match envelope.entityKind with
  | .database =>
    [.createItem createdId envelope.target envelope.properties] ++
      (credential.map fun c => .storeCredential createdId c).toList ++
      (transcriptCardEdge.map fun e =>
        .createRelation e.relationPropertyId e.transcriptId (toString createdId) none).toList
  | .relation =>
    (transcriptCardEdge.map fun e =>
      .createRelation e.relationPropertyId e.transcriptId envelope.target
        (relationEnvelopeMetadata envelope)).toList
  | .pageContent =>
    [.putBlock envelope.target proposalId (envelope.properties.get? "flavour")
      (envelope.properties.get? "fields") (envelope.properties.get? "children")]

/-- What a confirm finds before it writes: the envelope, the edge of a transcript card and the
writes to make; `none` for a card that is confirmed already. -/
def confirmPlan (d : Destination) (proposal : ProposalRow)
    (credential : Option ConfirmProposalCredentialInput) (createdId : ℕ) :
    Except Failure (Option (ProposalEnvelope × List DestinationWrite)) :=
  if proposal.status = .confirmed then .ok none
  else if proposal.status ≠ .proposed then
    invalid s!"Cannot confirm a proposal in status '{proposal.status.name}'" "status"
  else match proposal.proposal with
    | none => invalid "Proposal has no computed envelope to confirm" "proposal"
    | some envelope => do
      let forCard ← assertValidEnvelopeForCard d proposal envelope
      if envelope.entityKind = .database ∧ credential.isSome ∧
          (forCard.targetDatabase.bind fun t => t.ownerModuleId) ≠ some mcpServersModuleId then
        invalid "A credential may only be supplied when confirming an MCP server proposal"
          "credential"
      else if envelope.entityKind = .relation ∧ forCard.transcriptCardEdge.isNone then
        .error (.internal s!"Relation proposal {proposal.id} has no source item to link from")
      else return some (envelope, destinationWrites proposal.id envelope forCard.transcriptCardEdge
        credential createdId)

/-- What a decision that passed its checks does next. -/
inductive Outcome where
  /-- The row is returned as it is. -/
  | unchanged
  | execute (envelope : ProposalEnvelope) (writes : List DestinationWrite)
  | update (row : ProposalRow)

structure ReviseProposalInput where
  message : String
  envelope : ProposalEnvelope

inductive Decision where
  | confirm (credential : Option ConfirmProposalCredentialInput)
  | reject (message : Option String)
  | revise (input : ReviseProposalInput)

@[grind =]
def rejectProposal (proposal : ProposalRow) (message : Option String) : Except Failure Outcome :=
  if proposal.status = .rejected then .ok .unchanged
  else if proposal.status = .confirmed then
    invalid "Cannot reject a proposal that has already been confirmed" "status"
  else .ok (.update { proposal with
    status := .rejected
    history := proposal.appendHistoryEntry (message.getD "Rejected by user.") .user })

@[grind =]
def reviseProposal (d : Destination) (proposal : ProposalRow) (input : ReviseProposalInput) :
    Except Failure Outcome :=
  if proposal.status.locked then
    invalid s!"Cannot revise a locked proposal (status '{proposal.status.name}')" "status"
  else do
    let _ ← assertValidEnvelopeForCard d proposal input.envelope
    return .update { proposal with
      proposal := some input.envelope
      status := .proposed
      history := proposal.appendHistoryEntry input.message .user }

def Decision.credential : Decision → Option ConfirmProposalCredentialInput
  | .confirm credential => credential
  | _ => none

@[grind =] def decideProposal (d : Destination) (createdId : ℕ) (proposal : ProposalRow) :
    Decision → Except Failure Outcome
  | .confirm credential => do
    match ← confirmPlan d proposal credential createdId with
    | none => return .unchanged
    | some (envelope, writes) => return .execute envelope writes
  | .reject message => rejectProposal proposal message
  | .revise input => reviseProposal d proposal input

/-- The write of the card that ends a confirm. -/
def confirmed (proposal : ProposalRow) (resultItemId resultLabel : String) : ProposalRow :=
  { proposal with
    status := .confirmed
    resultItemId := some resultItemId
    resultLabel := some resultLabel
    history := proposal.appendHistoryEntry "Confirmed by user." .user }

/-! ## The tick -/

inductive ProcessingMethod where
  | database (targetDatabaseId : String)
  | pageContent
deriving DecidableEq

structure RecognizedType where
  emoji : String
  processingMethod : ProcessingMethod
deriving DecidableEq

/-- An Inbox item as a tick reads it. -/
structure SourceItem where
  deleted : Bool
  recognizedType : Option RecognizedType
  text : String
deriving DecidableEq

structure ConfirmCall where
  credential : Option ConfirmProposalCredentialInput
  destination : Destination
  createdId : ℕ

structure Execution where
  proposal : ProposalRow
  call : ConfirmCall
  envelope : ProposalEnvelope
  writes : List DestinationWrite

def Execution.proposalId (e : Execution) : ℕ := e.proposal.id

structure Tables where
  proposals : ℕ → Option ProposalRow
  nextId : ℕ
  sources : ℕ → Option SourceItem
  executed : List Execution

namespace Tables

variable (tables : Tables)

def liveProposals (sourceItemId : ℕ) : List ProposalRow :=
  ((List.range tables.nextId).filterMap tables.proposals).filter fun row =>
    row.sourceInbox = some sourceItemId ∧ row.deleted = false

/-- The heap order of the edges decides which of several cards is found, `pick` if that is one. -/
def findExistingProposal (sourceItemId pick : ℕ) : Option ProposalRow :=
  ((tables.liveProposals sourceItemId).find? fun row => row.id = pick).or
    (tables.liveProposals sourceItemId).head?

def setProposal (row : ProposalRow) : Tables :=
  { tables with proposals := Function.update tables.proposals row.id (some row) }

def createProposal (row : ProposalRow) : Tables :=
  { tables with
    proposals := Function.update tables.proposals tables.nextId
      (some { row with id := tables.nextId })
    nextId := tables.nextId + 1 }

end Tables

structure TickSnapshot where
  sourceItemId : ℕ
  processingMethod : ProcessingMethod
  existingProposal : Option ProposalRow
  fingerprint : String

/-- The writes of a tick to a card that exists. -/
inductive TickPatch where
  | revise (fingerprint : String) (envelope : ProposalEnvelope)
  | needsClarification (fingerprint : Option String) (message : String)
  | invalid

def TickPatch.apply (row : ProposalRow) : TickPatch → ProposalRow
  | .revise fingerprint envelope => { row with
      fingerprint := some fingerprint
      proposal := some envelope
      status := .proposed
      history := row.appendHistoryEntry "Revised the proposal after the source item changed." .ai }
  | .needsClarification fingerprint message => { row with
      fingerprint := fingerprint
      proposal := none
      status := .needsClarification
      history := row.appendHistoryEntry message .ai }
  | .invalid => { row with
      status := .invalid
      history := row.appendHistoryEntry "Source Inbox item was deleted." .ai }

def newProposal (sourceItemId : ℕ) (fingerprint : Option String)
    (proposal : Option ProposalEnvelope) (status : ProposalStatus) (message : String) :
    ProposalRow where
  id := 0
  kind := .inbox
  sourceInbox := some sourceItemId
  sourceTranscript := none
  status := status
  proposal := proposal
  fingerprint := fingerprint
  history := [⟨.ai, message⟩]
  resultItemId := none
  resultLabel := none
  deleted := false
  updatedAt := 0
  version := 0

inductive TickStep where
  | done
  | relock (existing : ProposalRow) (patch : TickPatch)
  | create (row : ProposalRow)
  | compute (snapshot : TickSnapshot)

def writeNeedsClarification (sourceItemId : ℕ) (existing : Option ProposalRow) (message : String)
    (fingerprint : Option String) : TickStep :=
  match existing with
  | some row =>
    if row.status.locked then .done
    else if row.status = .needsClarification ∧ row.fingerprint = fingerprint then .done
    else .relock row (.needsClarification fingerprint message)
  | none => .create (newProposal sourceItemId fingerprint none .needsClarification message)

def invalidateProposalForDeletedSource (existing : Option ProposalRow) : TickStep :=
  match existing with
  | some row =>
    if row.status.locked ∨ row.status = .invalid then .done else .relock row .invalid
  | none => .done

section

variable (computeInboxFingerprint : String → String → String)

@[grind =] def readTickSnapshot (snapshot : Tables) (sourceItemId pick : ℕ) : TickStep :=
  let existing := snapshot.findExistingProposal sourceItemId pick
  match (snapshot.sources sourceItemId).filter fun item => !item.deleted with
  | none => invalidateProposalForDeletedSource existing
  | some item =>
    match item.recognizedType with
    | none => writeNeedsClarification sourceItemId existing
        "Source item has no recognized type; needs clarification." none
    | some type =>
      let fingerprint := computeInboxFingerprint type.emoji item.text
      if existing.any fun row => row.status.locked ∨ row.fingerprint = some fingerprint then .done
      else .compute ⟨sourceItemId, type.processingMethod, existing, fingerprint⟩

@[grind =] def writeTickResult (snapshot : Tables) (d : Destination) (t : TickSnapshot)
    (envelope : ProposalEnvelope) (pick : ℕ) : TickStep :=
  match (snapshot.sources t.sourceItemId).filter fun item => !item.deleted with
  | none => .done
  | some item =>
    match item.recognizedType with
    | none => .done
    | some type =>
      let fingerprint := computeInboxFingerprint type.emoji item.text
      let existing := t.existingProposal.or (snapshot.findExistingProposal t.sourceItemId pick)
      if fingerprint ≠ t.fingerprint then .done
      else match assertValidProposalEnvelope d envelope with
        | .error (.internal _) => .done
        | .error (.chokePoint e) =>
          if e.code ≠ "validation_failed" then .done
          else writeNeedsClarification t.sourceItemId existing
            s!"Computed proposal failed validation: {e.message}" (some fingerprint)
        | .ok _ => match existing with
          | some row => .relock row (.revise fingerprint envelope)
          | none => .create (newProposal t.sourceItemId (some fingerprint) (some envelope) .proposed
              "Created a proposal for the source item.")

end

def buildProposalEnvelope (t : TickSnapshot) (target : Option String) (properties : JsonObject) :
    Option ProposalEnvelope :=
  match t.processingMethod with
  | .database targetDatabaseId => some ⟨.database, targetDatabaseId, properties⟩
  | .pageContent => target.map fun page => ⟨.pageContent, page, properties⟩

/-! ## The system -/

/-- Where a transaction stands, or a tick between its two.  A tick keeps what its transaction
sees. -/
inductive Phase where
  | deciding (proposalId : ℕ) (decision : Decision)
  | locked (proposal : ProposalRow) (decision : Decision)
  | executing (proposal : ProposalRow) (call : ConfirmCall) (envelope : ProposalEnvelope)
      (written unwritten : List DestinationWrite)
  /-- The row of the card is written, and `execution` with it, to be committed. -/
  | updated (row : ProposalRow) (execution : Option Execution)
  | reading (sourceItemId : ℕ) (snapshot : Tables)
  | computing (t : TickSnapshot)
  | computed (t : TickSnapshot) (envelope : ProposalEnvelope)
  | writing (t : TickSnapshot) (envelope : ProposalEnvelope) (snapshot : Tables)
  | relocking (existing : ProposalRow) (patch : TickPatch) (snapshot : Tables)
  | creating (row : ProposalRow) (snapshot : Tables)

structure Sys where
  tables : Tables
  transactions : ℕ → Option Phase
  locks : ℕ → Option ℕ

def Sys.init : Sys := ⟨⟨fun _ => none, 0, fun _ => none, []⟩, fun _ => none, fun _ => none⟩

namespace Sys

variable (s : Sys) (t : ℕ)

def setPhase (phase : Phase) : Sys :=
  { s with transactions := Function.update s.transactions t (some phase) }

def close (tables : Tables) : Sys where
  tables := tables
  transactions := Function.update s.transactions t none
  locks := fun proposalId => (s.locks proposalId).filter (· ≠ t)

def lockRow (proposalId : ℕ) (phase : Phase) : Sys :=
  { s.setPhase t phase with locks := Function.update s.locks proposalId (some t) }

def setTables (tables : Tables) : Sys := { s with tables }

def tickStep (snapshot : Tables) (now : ℤ) : TickStep → Sys
  | .done => s.close t s.tables
  | .relock existing patch => s.setPhase t (.relocking existing patch snapshot)
  | .create row => s.setPhase t (.creating { row with updatedAt := now } snapshot)
  | .compute snapshot => s.setPhase t (.computing snapshot)

/-- The row as the lock of a tick's transaction returns it: `none` when another transaction has
written it since the snapshot, and when it is not the row that the tick decided on. -/
def lockUnlockedProposal (existing : ProposalRow) (snapshot : Tables) : Option ProposalRow :=
  match s.tables.proposals existing.id, snapshot.proposals existing.id with
  | some current, some row =>
    if current.version ≠ row.version then none
    else if current.deleted = true ∨ current.status.locked ∨
        current.updatedAt ≠ existing.updatedAt then none
    else some current
  | _, _ => none

end Sys

inductive Act where
  | setSource (sourceItemId : ℕ) (source : Option SourceItem)
  | createTranscriptProposal (transcriptId : ℕ) (envelope : ProposalEnvelope) (now : ℤ)
  | deleteProposal (proposalId : ℕ) (now : ℤ)
  | decide (t proposalId : ℕ) (decision : Decision)
  | lockLiveProposal (t : ℕ)
  | check (t : ℕ) (d : Destination) (createdId : ℕ) (now : ℤ)
  | writeDestination (t : ℕ)
  | updateConfirmed (t : ℕ) (resultItemId resultLabel : String) (now : ℤ)
  | tick (t sourceItemId : ℕ)
  | readTickSnapshot (t pick : ℕ) (now : ℤ)
  | computeProposal (t : ℕ) (target : Option String) (properties : JsonObject)
  | beginWrite (t : ℕ)
  | writeTickResult (t pick : ℕ) (d : Destination) (now : ℤ)
  | lockUnlockedProposal (t : ℕ) (now : ℤ)
  | commit (t : ℕ)
  /-- An error, or a connection that is lost: the transaction is rolled back. -/
  | fail (t : ℕ)

variable (computeInboxFingerprint : String → String → String)

@[grind =] def step (s : Sys) : Act → Option Sys
  | .setSource sourceItemId source =>
    some (s.setTables { s.tables with
      sources := Function.update s.tables.sources sourceItemId source })
  | .createTranscriptProposal transcriptId envelope now =>
    some (s.setTables (s.tables.createProposal
      ⟨0, .transcript, none, some transcriptId, .proposed, some envelope, none, [], none, none,
        false, now, 0⟩))
  | .deleteProposal proposalId now =>
    match s.tables.proposals proposalId with
    | some row =>
      if s.locks proposalId = none ∧ row.deleted = false then
        some (s.setTables (s.tables.setProposal ({ row with deleted := true }.touch now)))
      else none
    | none => none
  | .decide t proposalId decision =>
    match s.transactions t with
    | none => some (s.setPhase t (.deciding proposalId decision))
    | some _ => none
  | .lockLiveProposal t =>
    match s.transactions t with
    | some (.deciding proposalId decision) =>
      if s.locks proposalId = none then
        match (s.tables.proposals proposalId).filter fun row => !row.deleted with
        | some row => some (s.lockRow t proposalId (.locked row decision))
        | none => some (s.close t s.tables)
      else none
    | _ => none
  | .check t d createdId now =>
    match s.transactions t with
    | some (.locked proposal decision) =>
      match decideProposal d createdId proposal decision with
      | .ok (.execute envelope writes) =>
        some (s.setPhase t
          (.executing proposal ⟨decision.credential, d, createdId⟩ envelope [] writes))
      | .ok (.update row) => some (s.setPhase t (.updated (row.touch now) none))
      | .ok .unchanged => some (s.close t s.tables)
      | .error _ => some (s.close t s.tables)
    | _ => none
  | .writeDestination t =>
    match s.transactions t with
    | some (.executing proposal call envelope written (w :: unwritten)) =>
      some (s.setPhase t (.executing proposal call envelope (written ++ [w]) unwritten))
    | _ => none
  | .updateConfirmed t resultItemId resultLabel now =>
    match s.transactions t with
    | some (.executing proposal call envelope written []) =>
      some (s.setPhase t (.updated ((confirmed proposal resultItemId resultLabel).touch now)
        (some ⟨proposal, call, envelope, written⟩)))
    | _ => none
  | .tick t sourceItemId =>
    match s.transactions t with
    | none => some (s.setPhase t (.reading sourceItemId s.tables))
    | some _ => none
  | .readTickSnapshot t pick now =>
    match s.transactions t with
    | some (.reading sourceItemId snapshot) =>
      some (s.tickStep t snapshot now
        (readTickSnapshot computeInboxFingerprint snapshot sourceItemId pick))
    | _ => none
  | .computeProposal t target properties =>
    match s.transactions t with
    | some (.computing snapshot) =>
      match buildProposalEnvelope snapshot target properties with
      | some envelope => some (s.setPhase t (.computed snapshot envelope))
      | none => some (s.close t s.tables)
    | _ => none
  | .beginWrite t =>
    match s.transactions t with
    | some (.computed snapshot envelope) =>
      some (s.setPhase t (.writing snapshot envelope s.tables))
    | _ => none
  | .writeTickResult t pick d now =>
    match s.transactions t with
    | some (.writing t' envelope snapshot) =>
      some (s.tickStep t snapshot now
        (writeTickResult computeInboxFingerprint snapshot d t' envelope pick))
    | _ => none
  | .lockUnlockedProposal t now =>
    match s.transactions t with
    | some (.relocking existing patch snapshot) =>
      if s.locks existing.id = none then
        match s.lockUnlockedProposal existing snapshot with
        | some row => some (s.lockRow t row.id (.updated ((patch.apply row).touch now) none))
        | none => some (s.close t s.tables)
      else none
    | _ => none
  | .commit t =>
    match s.transactions t with
    | some (.updated row execution) =>
      some (s.close t { s.tables.setProposal row with
        executed := s.tables.executed ++ execution.toList })
    | some (.creating row _) => some (s.close t (s.tables.createProposal row))
    | _ => none
  | .fail t =>
    match s.transactions t with
    | some _ => some (s.close t s.tables)
    | none => none

/-! ## What the decisions and the ticks keep -/

/-- All that the confirm of this envelope writes, and nothing else: with the credential that it was
called with, and the edge of the card as it was locked. -/
def Execution.Exact (e : Execution) : Prop :=
  e.writes ≠ [] ∧ e.proposal.proposal = some e.envelope ∧
    ∃ forCard, assertValidEnvelopeForCard e.call.destination e.proposal e.envelope = .ok forCard ∧
      e.writes = destinationWrites e.proposalId e.envelope forCard.transcriptCardEdge
        e.call.credential e.call.createdId

/-- The destination of a card is written once, together with the status `confirmed`, and for the
envelope that the card holds. -/
structure Tables.DecidedOnce (tables : Tables) : Prop where
  once : (tables.executed.map fun e => e.proposalId).Nodup
  confirmed : ∀ e ∈ tables.executed, e.Exact ∧ ∃ row, tables.proposals e.proposalId = some row ∧
    row.status = .confirmed ∧ row.proposal = some e.envelope
  executed : ∀ proposalId row, tables.proposals proposalId = some row → row.status = .confirmed →
    ∃ e ∈ tables.executed, e.proposalId = proposalId

def Tables.OneCard (tables : Tables) : Prop :=
  ∀ sourceItemId p q row row', tables.proposals p = some row → tables.proposals q = some row' →
    row.sourceInbox = some sourceItemId → row'.sourceInbox = some sourceItemId →
    row.deleted = false → row'.deleted = false → p = q

/-- A card that is confirmed or rejected stays as it is, until it is deleted. -/
def Sys.KeepsLocked (s s' : Sys) : Prop :=
  ∀ p row, s.tables.proposals p = some row → row.status.locked = true →
    s'.tables.proposals p = some row

/-- A tick commits a new card only when each card of its item that is there and not deleted was
there at the snapshot of its transaction. -/
def NotRaced (s : Sys) : Act → Prop
  | .commit t => ∀ row snapshot, s.transactions t = some (.creating row snapshot) →
    ∀ p < s.tables.nextId, ∀ card, s.tables.proposals p = some card →
      card.sourceInbox = row.sourceInbox → card.deleted = false → (snapshot.proposals p).isSome
  | _ => True

end Proposals

end Semprec
