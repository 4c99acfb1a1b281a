import Mathlib.Data.List.Sort
import Semprec.Json
import Semprec.Lib.ReadCommitted
import Semprec.Lib.Runs

/-!
# Matching a transcript to its calendar event

Any number of open transactions run `matchTranscriptToEvent`, each for a transcript whose row it has
locked.  The relation of transcripts and events is one to one: the trigger of the insert takes the
advisory lock of the relation and looks for an edge in the way.
-/

namespace Semprec

namespace TranscriptEventMatch

def MATCHABLE_EVENT_TYPES : List String := ["standup", "meeting"]

def MATCH_WINDOW_LEAD_MS : ℤ := 30 * 60 * 1000

/-- `/^\d{4}-\d{2}-\d{2}T\d{2}:\d{2}/`. -/
def DATE_WITH_TIME_RE (text : String) : Bool :=
  match text.toList with
  | y₁ :: y₂ :: y₃ :: y₄ :: '-' :: m₁ :: m₂ :: '-' :: d₁ :: d₂ :: 'T' :: h₁ :: h₂ :: ':' :: n₁ ::
      n₂ :: _ => [y₁, y₂, y₃, y₄, m₁, m₂, d₁, d₂, h₁, h₂, n₁, n₂].all Char.isDigit
  | _ => false

structure Row where
  id : ℕ
  properties : JsonObject
  deletedAt : Option ℤ

section Candidates

-- `Date.parse`, in milliseconds, `none` for `NaN`
variable (dateParse : String → Option ℤ)

def parseDateWithTime : Option Json → Option ℤ
  | some (.str value) => if DATE_WITH_TIME_RE value then dateParse value else none
  | _ => none

def isMatchable (event : Row) : Bool :=
  match event.properties.get? "type" with
  | some (.str type) => type ∈ MATCHABLE_EVENT_TYPES
  | _ => false

def listCandidateEventIds (events : List Row) (startMs endMs : ℤ) : List ℕ :=
  ((events.filter fun event => event.deletedAt = none ∧ isMatchable event ∧
    (parseDateWithTime dateParse (event.properties.get? "date")).any fun at_ =>
      startMs - MATCH_WINDOW_LEAD_MS ≤ at_ ∧ at_ ≤ endMs).map (·.id)).insertionSort (· ≤ ·)

end Candidates

structure Edge where
  eventId : ℕ
  transcriptId : ℕ
deriving DecidableEq

/-- A suggestion card under the idempotency key of its transcript, and its `sourceTranscript`. -/
structure Card where
  transcriptId : ℕ
  properties : JsonObject
  history : String

structure Tables where
  edges : List Edge
  cards : List Card

inductive Write where
  | lockTranscript (transcriptId : ℕ)
  | lockRelation
  | insertEdge (edge : Edge)
  | insertCard (card : Card)

def apply (tables : Tables) : Write → Tables
  | .lockTranscript _ | .lockRelation => tables
  | .insertEdge edge => { tables with edges := tables.edges ++ [edge] }
  | .insertCard card => { tables with cards := tables.cards ++ [card] }

def Write.locksTranscript (transcriptId : ℕ) : Write → Bool
  | .lockTranscript transcriptId' => transcriptId' = transcriptId
  | _ => false

def Write.locksRelation : Write → Bool
  | .lockRelation => true
  | _ => false

def Write.reserves (transcriptId : ℕ) : Write → Bool
  | .insertCard card => card.transcriptId = transcriptId
  | _ => false

inductive Outcome where
  | linked
  | suggested
  | alreadyLinked
  | alreadySuggested
deriving DecidableEq

inductive Phase where
  | begun
  | locked (transcript : Row)
  | unlinked (transcript : Row)
  /-- There is no card either. -/
  | unmatched (transcript : Row)
  /-- One event is in the window. -/
  | candidate (transcript : Row) (eventId : ℕ)
  /-- The event has no edge. -/
  | linking (eventId : ℕ)
  | suggesting (transcript : Row) (candidates : ℕ)
  | done (outcome : Outcome)
  /-- A cardinality violation is thrown. -/
  | conflict

structure Tx where
  transcriptId : ℕ
  durationMs : ℤ
  phase : Phase

structure Sys where
  db : ReadCommitted Tables Write
  txs : ℕ → Option Tx
  transcripts : List Row
  events : List Row
  finished : List ℕ

def Sys.init (transcripts events : List Row) : Sys :=
  ⟨.init ⟨[], []⟩, fun _ => none, transcripts, events, []⟩

inductive Act where
  | begin (t transcriptId : ℕ) (durationMs : ℤ)
  | lockItemById (t : ℕ)
  | listTranscriptEdges (t : ℕ)
  | findIdempotentReplay (t : ℕ)
  | listCandidates (t : ℕ)
  | listEventEdges (t : ℕ)
  /-- `createRelationWithClient`. -/
  | createRelation (t : ℕ)
  /-- The card and its edge to the transcript, which nothing is in the way of. -/
  | createCard (t : ℕ)
  | commit (t : ℕ)
  /-- The run throws, or the connection is lost. -/
  | abort (t : ℕ)
  | setEvents (events : List Row)
  | setTranscripts (transcripts : List Row)

def Sys.write (s : Sys) (t : ℕ) (writes : List Write) (tx : Tx) : Option Sys :=
  (s.db.write t writes).map fun db => { s with db, txs := Function.update s.txs t (some tx) }

def cardOf (transcript : Row) (transcriptId candidates : ℕ) : Card where
  transcriptId := transcriptId
  properties := ((transcript.properties.get? "name").map ("name", ·)).toList ++
    [("type", .str "meeting")] ++ ((transcript.properties.get? "date").map ("date", ·)).toList
  history := (if candidates = 1 then "1 Event" else s!"{candidates} Events") ++
    " matched the recording's time window, so none was linked; proposed a new Event."

variable (dateParse : String → Option ℤ)

def step (s : Sys) : Act → Option Sys
  | .begin t transcriptId durationMs =>
    (s.db.begin t).map fun db =>
      { s with db, txs := Function.update s.txs t (some ⟨transcriptId, durationMs, .begun⟩) }
  | .lockItemById t =>
    match s.txs t with
    | some ⟨transcriptId, durationMs, .begun⟩ =>
      if s.db.Locked t (Write.locksTranscript transcriptId) then none
      else match s.transcripts.find? (·.id = transcriptId) with
        | some transcript =>
          if transcript.deletedAt.isSome then none
          else s.write t [.lockTranscript transcriptId]
            ⟨transcriptId, durationMs, .locked transcript⟩
        | none => none
    | _ => none
  | .listTranscriptEdges t =>
    match s.txs t with
    | some ⟨transcriptId, durationMs, .locked transcript⟩ =>
      if (s.db.view apply t).edges.any (·.transcriptId = transcriptId) then
        s.write t [] ⟨transcriptId, durationMs, .done .alreadyLinked⟩
      else s.write t [] ⟨transcriptId, durationMs, .unlinked transcript⟩
    | _ => none
  | .findIdempotentReplay t =>
    match s.txs t with
    | some ⟨transcriptId, durationMs, .unlinked transcript⟩ =>
      if (s.db.view apply t).cards.any (·.transcriptId = transcriptId) then
        s.write t [] ⟨transcriptId, durationMs, .done .alreadySuggested⟩
      else s.write t [] ⟨transcriptId, durationMs, .unmatched transcript⟩
    | _ => none
  | .listCandidates t =>
    match s.txs t with
    | some ⟨transcriptId, durationMs, .unmatched transcript⟩ =>
      match parseDateWithTime dateParse (transcript.properties.get? "date") with
      | none => none
      | some startMs =>
        match listCandidateEventIds dateParse s.events startMs (startMs + durationMs) with
        | [onlyCandidate] =>
          s.write t [] ⟨transcriptId, durationMs, .candidate transcript onlyCandidate⟩
        | candidates =>
          s.write t [] ⟨transcriptId, durationMs, .suggesting transcript candidates.length⟩
    | _ => none
  | .listEventEdges t =>
    match s.txs t with
    | some ⟨transcriptId, durationMs, .candidate transcript eventId⟩ =>
      if (s.db.view apply t).edges.any (·.eventId = eventId) then
        s.write t [] ⟨transcriptId, durationMs, .suggesting transcript 1⟩
      else s.write t [] ⟨transcriptId, durationMs, .linking eventId⟩
    | _ => none
  | .createRelation t =>
    match s.txs t with
    | some ⟨transcriptId, durationMs, .linking eventId⟩ =>
      if s.db.Locked t Write.locksRelation then none
      else if (s.db.view apply t).edges.any fun edge =>
          (edge.eventId = eventId ∨ edge.transcriptId = transcriptId) ∧
            edge ≠ ⟨eventId, transcriptId⟩ then
        s.write t [.lockRelation] ⟨transcriptId, durationMs, .conflict⟩
      else s.write t [.lockRelation, .insertEdge ⟨eventId, transcriptId⟩]
        ⟨transcriptId, durationMs, .done .linked⟩
    | _ => none
  | .createCard t =>
    match s.txs t with
    | some ⟨transcriptId, durationMs, .suggesting transcript candidates⟩ =>
      -- the unique key
      if s.db.Locked t (Write.reserves transcriptId) then none
      else s.write t [.insertCard (cardOf transcript transcriptId candidates)]
        ⟨transcriptId, durationMs, .done .suggested⟩
    | _ => none
  | .commit t =>
    match s.txs t with
    | some ⟨transcriptId, _, .done _⟩ =>
      (s.db.commit apply t).map fun db =>
        { s with db, txs := Function.update s.txs t none, finished := transcriptId :: s.finished }
    | _ => none
  | .abort t =>
    (s.db.rollback t).map fun db => { s with db, txs := Function.update s.txs t none }
  | .setEvents events => some { s with events }
  | .setTranscripts transcripts => some { s with transcripts }

/-! ## What is asked of the runs -/

def Tables.total (tables : Tables) (transcriptId : ℕ) : ℕ :=
  (tables.edges.filter (·.transcriptId = transcriptId)).length +
    (tables.cards.filter (·.transcriptId = transcriptId)).length

/-- No run is thrown off by the cardinality of the relation, and a transcript has one edge or one
card once a run for it has finished, never more. -/
structure Sys.Settled (s : Sys) : Prop where
  noConflict : ∀ t tx, s.txs t = some tx → tx.phase ≠ .conflict
  atMostOne : ∀ transcriptId, s.db.committed.total transcriptId ≤ 1
  finished : ∀ transcriptId ∈ s.finished, s.db.committed.total transcriptId = 1

def Sys.Links (s : Sys) (t eventId : ℕ) : Prop :=
  (∃ tx, s.txs t = some tx ∧ tx.phase = .linking eventId) ∨
    ∃ transcriptId, .insertEdge ⟨eventId, transcriptId⟩ ∈ s.db.pending t

def OneLinks (s : Sys) : Act → Prop
  | .listEventEdges t => ∀ tx transcript eventId, s.txs t = some tx →
      tx.phase = .candidate transcript eventId → ∀ u ∈ s.db.opened, u ≠ t → ¬s.Links u eventId
  | _ => True

end TranscriptEventMatch

end Semprec
