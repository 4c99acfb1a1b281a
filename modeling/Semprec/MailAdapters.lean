import Mathlib.Data.List.Infix
import Semprec.MailAttachments
import Semprec.PropertyTypeMigration

/-!
# Attachments as the three mail adapters open them

Each adapter walks a message's MIME tree, or the provider's list of attachments, keeps what is not
rendered with the body, and opens a part when its turn comes.  The cap is the same for the three, and
each has its own way to notice that a part is over it.
-/

namespace Semprec

namespace MailAdapters

open MailAttachments

def MAX_ATTACHMENT_BYTES : ℕ := 100 * 1024 * 1024

def IMAP_PARTIAL_FETCH_BYTES : ℕ := 64 * 1024

/-- What Node decodes and parses: base64 in its URL-safe form, UTF-8, and the Drive and Docs links
of a text in their normal form. -/
structure Codecs where
  decodeBase64Url : String → Bytes
  utf8 : Bytes → String
  normalizedGoogleShareUrls : String → List String

/-! ## The MIME tree -/

inductive MimeNode (α : Type) where
  | node (value : α) (children : List (MimeNode α))

structure MimeTree (α : Type) where
  textPlainPart : Option α
  textHtmlPart : Option α
  attachmentParts : List α

namespace MimeTree

variable {α : Type} (isPlain isHtml : α → Bool)

def empty : MimeTree α := ⟨none, none, []⟩

def visitLeaf (tree : MimeTree α) (leaf : α) : MimeTree α :=
  if tree.textPlainPart.isNone && isPlain leaf then { tree with textPlainPart := some leaf }
  else if tree.textHtmlPart.isNone && isHtml leaf then { tree with textHtmlPart := some leaf }
  else { tree with attachmentParts := tree.attachmentParts ++ [leaf] }

mutual

def visit (tree : MimeTree α) : MimeNode α → MimeTree α
  | .node value [] => visitLeaf isPlain isHtml tree value
  | .node _ (child :: children) => visitAll (visit tree child) children

def visitAll (tree : MimeTree α) : List (MimeNode α) → MimeTree α
  | [] => tree
  | child :: children => visitAll (visit tree child) children

end

end MimeTree

/-! ## Gmail -/

structure GmailBody where
  size : Option ℕ
  data : Option String
  attachmentId : Option String
deriving DecidableEq

structure GmailPart where
  mimeType : String
  filename : Option String
  headers : List (String × String)
  body : Option GmailBody
deriving DecidableEq

abbrev GmailPayloadPart := MimeNode GmailPart

/-- What the API answers for an attachment's id. -/
inductive GmailAttachmentResponse where
  | notFound
  | failed
  | found (size : ℕ) (data : String)
deriving DecidableEq

/-- The names and types that the adapters look for have ASCII letters. -/
def toLowerCase (text : String) : String := String.ofList (text.toList.map Char.toLower)

/-- Whether JavaScript takes a string that may be missing for one that is there. -/
def truthy (value : Option String) : Option String := value.filter fun v => v ≠ ""

def partHeader (part : GmailPart) (name : String) : Option String :=
  (part.headers.find? fun h => toLowerCase h.1 = toLowerCase name).map Prod.snd

def walkGmailPayload (root : GmailPayloadPart) : MimeTree GmailPart :=
  MimeTree.visit
    (fun part => toLowerCase part.mimeType = "text/plain" && (truthy part.filename).isNone)
    (fun part => toLowerCase part.mimeType = "text/html" && (truthy part.filename).isNone) .empty root

variable (codecs : Codecs)

def decodePartText (part : Option GmailPart) : Option String :=
  (truthy ((part.bind GmailPart.body).bind GmailBody.data)).map fun data =>
    codecs.utf8 (codecs.decodeBase64Url data)

/-- The links of the message as it is rendered. -/
def renderedDriveUrls (html text : Option String) : List String :=
  html.elim [] codecs.normalizedGoogleShareUrls ++ text.elim [] codecs.normalizedGoogleShareUrls

def isGmailDriveReplacement (part : GmailPart) (renderedDriveUrls : List String) : Bool :=
  match part.body.bind GmailBody.size, truthy (decodePartText codecs part) with
  | some reportedSize, some decodedText =>
    reportedSize * 2 < decodedText.utf8ByteSize &&
      (codecs.normalizedGoogleShareUrls decodedText).any fun url => renderedDriveUrls.contains url
  | _, _ => false

def fetchAttachmentBytes : GmailAttachmentResponse → Except MailError Source
  | .notFound => .error .other
  | .failed => .error .other
  | .found size data =>
    if MAX_ATTACHMENT_BYTES < size then .error .other
    else .ok ⟨codecs.decodeBase64Url data, none⟩

def openGmailStream (body : Option GmailBody) (attachments : String → GmailAttachmentResponse) :
    Except MailError Source :=
  match truthy (body.bind GmailBody.data) with
  | some data =>
    if MAX_ATTACHMENT_BYTES < (body.bind GmailBody.size).getD 0 then .error .other
    else .ok ⟨codecs.decodeBase64Url data, none⟩
  | none =>
    match truthy (body.bind GmailBody.attachmentId) with
    | none => .error .other
    | some attachmentId => fetchAttachmentBytes codecs (attachments attachmentId)

/-! ## Graph -/

inductive GraphAttachmentType where
  | fileAttachment
  | itemAttachment
  | referenceAttachment
deriving DecidableEq

/-- What `$value` answers, a body as the chunks it comes in. -/
inductive GraphValueResponse where
  | failed
  | noBody
  | body (chunks : List Bytes)
deriving DecidableEq

structure GraphAttachmentResource where
  type : GraphAttachmentType
  contentType : Option String
  isInline : Bool
  contentId : Option String
  value : GraphValueResponse
deriving DecidableEq

/-- The `Transform` that counts what it lets through. -/
def limiter (received : ℕ) : List Bytes → Source
  | [] => ⟨[], none⟩
  | chunk :: chunks =>
    if MAX_ATTACHMENT_BYTES < received + chunk.length then ⟨[], some .other⟩
    else
      let rest := limiter (received + chunk.length) chunks
      ⟨chunk ++ rest.content, rest.error⟩

def fetchAttachmentStream : GraphValueResponse → Except MailError Source
  | .failed => .error .other
  | .noBody => .error .other
  | .body chunks => .ok (limiter 0 chunks)

/-! ## IMAP -/

/-- A part on the server and how its download goes: `chunks` is what the stream yields before it
ends or, when `fails`, breaks off.  imapflow limits what it yields to `maxBytes`. -/
structure ImapPart where
  bytes : Bytes
  chunks : List Bytes
  fails : Bool
  yielded : chunks.flatten <+: bytes.take MAX_ATTACHMENT_BYTES
  complete : fails = false → chunks.flatten = bytes.take MAX_ATTACHMENT_BYTES

structure ImapNode where
  type : String
  disposition : Option String
  id : Option String
  part : ImapPart

abbrev MessageStructureObject := MimeNode ImapNode

def walkBodyStructure (root : MessageStructureObject) : MimeTree ImapNode :=
  MimeTree.visit
    (fun node => toLowerCase node.type = "text/plain" && node.disposition ≠ some "attachment")
    (fun node => toLowerCase node.type = "text/html" && node.disposition ≠ some "attachment") .empty root

/-- A range of a part's decoded bytes, as the server answers for it. -/
def fetchOne (bytes : Bytes) (start maxLength : ℕ) : Bytes := (bytes.drop start).take maxLength

def nextAttachmentOffset (offset length : ℕ) : Except MailError ℕ :=
  if length = 0 then .error .other
  else if MAX_ATTACHMENT_BYTES < offset + length then .error .attachmentCapExceeded
  else .ok (offset + length)

def fetchAttachmentRanges (bytes : Bytes) : (rounds offset : ℕ) → (needsEofProbe : Bool) → Source
  | 0, _, _ => ⟨[], none⟩
  | rounds + 1, offset, needsEofProbe =>
    if offset < MAX_ATTACHMENT_BYTES || needsEofProbe then
      let maxLength :=
        if needsEofProbe then 1 else min IMAP_PARTIAL_FETCH_BYTES (MAX_ATTACHMENT_BYTES - offset)
      let chunk := fetchOne bytes offset maxLength
      if chunk.length = 0 then
        if offset = MAX_ATTACHMENT_BYTES then ⟨[], none⟩ else ⟨[], some .other⟩
      else if maxLength < chunk.length then ⟨[], some .other⟩
      else if offset = MAX_ATTACHMENT_BYTES then ⟨[], some .attachmentCapExceeded⟩
      else
        match nextAttachmentOffset offset chunk.length with
        | .error err => ⟨[], some err⟩
        | .ok next =>
          if chunk.length < maxLength then ⟨chunk, none⟩
          else
            let rest := fetchAttachmentRanges bytes rounds next (next = MAX_ATTACHMENT_BYTES)
            ⟨chunk ++ rest.content, rest.error⟩
    else ⟨[], none⟩

/-- The loop over the download's chunks, and the ranges after it where it breaks off.  An offset goes
up in each round and ends at the cap. -/
def streamAttachment (part : ImapPart) (offset : ℕ) : List Bytes → Source
  | [] =>
    if part.fails then
      fetchAttachmentRanges part.bytes (MAX_ATTACHMENT_BYTES + 1 - offset) offset
        (offset = MAX_ATTACHMENT_BYTES)
    else ⟨[], none⟩
  | chunk :: chunks =>
    match nextAttachmentOffset offset chunk.length with
    | .error .attachmentCapExceeded => ⟨[], some .attachmentCapExceeded⟩
    | .error .other =>
      fetchAttachmentRanges part.bytes (MAX_ATTACHMENT_BYTES + 1 - offset) offset
        (offset = MAX_ATTACHMENT_BYTES)
    | .ok next =>
      let rest := streamAttachment part next chunks
      ⟨chunk ++ rest.content, rest.error⟩

/-! ## What is kept of a message -/

inductive Disposition where
  | attachment
  | inline
deriving DecidableEq

/-- What an `openStream` closes over. -/
inductive Part where
  | gmail (body : Option GmailBody) (attachments : String → GmailAttachmentResponse)
  | graph (value : GraphValueResponse)
  | imap (part : ImapPart)

def Part.openStream : Part → Except MailError Source
  | .gmail body attachments => openGmailStream codecs body attachments
  | .graph value => fetchAttachmentStream value
  | .imap part => .ok (streamAttachment part 0 part.chunks)

structure Candidate where
  contentType : String
  contentId : Option String
  disposition : Disposition
  part : Part

def DOCX_CONTENT_TYPE : String :=
  "application/vnd.openxmlformats-officedocument.wordprocessingml.document"

def isTextExtractableContentType (contentType : String) : Bool :=
  contentType = "application/pdf" || contentType = DOCX_CONTENT_TYPE

def Candidate.classified (candidate : Candidate) : ClassifiedAttachment :=
  ⟨isTextExtractableContentType candidate.contentType, candidate.part.openStream codecs⟩

def includes (text sub : String) : Bool := decide (sub.toList <:+: text.toList)

/-- An inline part that the HTML body shows is not an attachment. -/
def keepCandidates (html : Option String) (candidates : List Candidate) : List Candidate :=
  candidates.filter fun a =>
    !(a.disposition = .inline && a.contentId.any fun contentId =>
      html.any fun html => includes html ("cid:" ++ contentId))

/-- `replace(/^<|>$/g, "")` -/
def stripAngles (id : String) : String :=
  let opened := match id.toList with
    | '<' :: rest => rest
    | all => all
  String.ofList (if opened.getLast? = some '>' then opened.dropLast else opened)

def startsWithInline (header : String) : Bool :=
  "inline".toList.isPrefixOf
    ((toLowerCase header).toList.dropWhile PropertyTypeMigration.isWhiteSpace)

def classifyGmailAttachmentParts (attachments : String → GmailAttachmentResponse)
    (parts : List GmailPart) (html text : Option String) : List Candidate :=
  let rendered := renderedDriveUrls codecs html text
  keepCandidates html <| (parts.filter fun part => !isGmailDriveReplacement codecs part rendered).map
    fun part =>
      { contentType := part.mimeType
        contentId := (truthy (partHeader part "Content-ID")).map stripAngles
        disposition :=
          if (partHeader part "Content-Disposition").any startsWithInline then .inline
          else .attachment
        part := .gmail part.body attachments }

def classifyGraphAttachments (metas : List GraphAttachmentResource) (html : Option String) :
    List Candidate :=
  keepCandidates html <| (metas.filter fun m => m.type = .fileAttachment).map fun m =>
    { contentType := (truthy m.contentType).getD "application/octet-stream"
      contentId := m.contentId
      disposition := if m.isInline then .inline else .attachment
      part := .graph m.value }

def classifyAttachmentParts (parts : List ImapNode) (html : Option String) : List Candidate :=
  keepCandidates html <| parts.map fun node =>
    { contentType := node.type
      contentId := (truthy node.id).map stripAngles
      disposition := if node.disposition = some "inline" then .inline else .attachment
      part := .imap node.part }

/-- A message as the provider has it, the HTML body of the last two as the adapter has read it. -/
inductive ProviderMessage where
  | gmail (messageId : String) (payload : GmailPayloadPart)
      (attachments : String → GmailAttachmentResponse)
  | graph (messageId : String) (metas : List GraphAttachmentResource) (html : Option String)
  | imap (messageId : String) (bodyStructure : Option MessageStructureObject) (html : Option String)

namespace ProviderMessage

def messageId : ProviderMessage → String
  | gmail messageId _ _ => messageId
  | graph messageId _ _ => messageId
  | imap messageId _ _ => messageId

def candidates : ProviderMessage → List Candidate
  | gmail _ payload attachments =>
    let tree := walkGmailPayload payload
    classifyGmailAttachmentParts codecs attachments tree.attachmentParts
      (decodePartText codecs tree.textHtmlPart) (decodePartText codecs tree.textPlainPart)
  | graph _ metas html => classifyGraphAttachments metas html
  | imap _ bodyStructure html =>
    classifyAttachmentParts
      (bodyStructure.elim [] fun root => (walkBodyStructure root).attachmentParts) html

/-- The message for the ingest.  The disk and the database take what they are given. -/
def fetched (message : ProviderMessage) : FetchedMessage where
  messageId := message.messageId
  attachments := (message.candidates codecs).map fun a => (a.classified codecs, .none)
  failsBefore := false
  failsAfter := false

end ProviderMessage

/-! ## What the ingest is for -/

def Part.content : Part → Option Bytes
  | .gmail body attachments =>
    match truthy (body.bind GmailBody.data), truthy (body.bind GmailBody.attachmentId) with
    | some data, _ => some (codecs.decodeBase64Url data)
    | none, none => some []
    | none, some attachmentId =>
      match attachments attachmentId with
      | .found _ data => some (codecs.decodeBase64Url data)
      | _ => none
  | .graph (.body chunks) => some chunks.flatten
  | .graph _ => none
  | .imap part => some part.bytes

def ProviderMessage.withinCap (message : ProviderMessage) : List Bytes :=
  (message.candidates codecs).filterMap fun a =>
    (a.part.content codecs).filter fun content => content.length ≤ MAX_ATTACHMENT_BYTES

def ImapPart.Completes (part : ImapPart) : Prop :=
  part.fails = false ∧ ∀ chunk ∈ part.chunks, chunk ≠ []

instance (part : ImapPart) : Decidable part.Completes :=
  inferInstanceAs (Decidable (_ ∧ _))

/-- What has been read of an IMAP part when its download breaks off. -/
def ImapPart.offset (part : ImapPart) : ℕ :=
  (part.chunks.takeWhile fun chunk => chunk ≠ []).flatten.length

def ImapPart.Exact (part : ImapPart) : Prop :=
  if part.bytes.length ≤ MAX_ATTACHMENT_BYTES then
    streamAttachment part 0 part.chunks = ⟨part.bytes, none⟩
  else (streamAttachment part 0 part.chunks).error = some .attachmentCapExceeded

/-- The part's size by the provider is what Gmail is asked, the bytes it answers with what there is.
A part of Graph is one that fits.  A part of IMAP that is over the cap is skipped only where its
download breaks off, and one that is not is read to its end unless the ranges end with a full one. -/
def Part.Meets : Part → Prop
  | .gmail body attachments =>
    match truthy (body.bind GmailBody.data), truthy (body.bind GmailBody.attachmentId) with
    | some data, _ => (body.bind GmailBody.size).getD 0 ≤ MAX_ATTACHMENT_BYTES ∧
        (codecs.decodeBase64Url data).length ≤ MAX_ATTACHMENT_BYTES
    | none, none => False
    | none, some attachmentId =>
      match attachments attachmentId with
      | .found size data => size ≤ MAX_ATTACHMENT_BYTES ∧
          (codecs.decodeBase64Url data).length ≤ MAX_ATTACHMENT_BYTES
      | _ => False
  | .graph (.body chunks) => chunks.flatten.length ≤ MAX_ATTACHMENT_BYTES
  | .graph _ => False
  | .imap part =>
    if part.Completes then part.bytes.length ≤ MAX_ATTACHMENT_BYTES
    else MAX_ATTACHMENT_BYTES ≤ part.bytes.length ∨
      (part.bytes.length - part.offset) % IMAP_PARTIAL_FETCH_BYTES ≠ 0

def fresh : List String → List ProviderMessage → List ProviderMessage
  | _, [] => []
  | known, message :: messages =>
    if message.messageId ∈ known then fresh known messages
    else message :: fresh (known ++ [message.messageId]) messages

def HasContent (sha256 : Bytes → String) (blobs : List BlobRow) (row : MailAttachmentRow)
    (content : Bytes) : Prop :=
  row.byteSize = content.length ∧
    ∃ blob ∈ blobs, blob.id = row.blobId ∧ blob.contentHash = sha256 content

def Records (sha256 : Bytes → String) (s : MailAttachments.Store) (itemId : ℕ)
    (contents : List Bytes) : Prop :=
  List.Forall₂ (HasContent sha256 s.blobs)
    (s.mailAttachments.filter fun row => row.messageItemId = itemId) contents

/-- The pass does not throw, its cursor is stored, and each of its messages has an item, with the
attachments that are within the cap and no other. -/
def Advances (sha256 : Bytes → String) (messages : List ProviderMessage) (newCursor : ℕ)
    (before : MailAttachments.Store) : Prop :=
  ∃ s, (reconcileAccount sha256 (messages.map (ProviderMessage.fetched codecs)) newCursor).run
      { before with writtenKeys := [] } = (.ok (), s) ∧ s.cursor = newCursor ∧
    ∀ message ∈ fresh (known before) messages, message.messageId ∈ known s ∧
      ∀ itemId, (itemId, message.messageId) ∈ s.emails →
        Records sha256 s itemId (message.withinCap codecs)

def Numbered (s : MailAttachments.Store) : Prop :=
  ∀ row ∈ s.mailAttachments, row.messageItemId < s.nextId

end MailAdapters

end Semprec
