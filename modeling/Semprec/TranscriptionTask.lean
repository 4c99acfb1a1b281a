import Semprec.Lib.Runs
import Semprec.Lib.Transaction
import Semprec.TranscriptMerge

/-!
# The transcription job

The nine steps of `createTranscriptionTask` for one source file, each with the transactions it is
made of and the calls between them.  Any number of runs of the job go on side by side; a run may
fail, be interrupted or crash between any two of its transactions, while the user replaces the
source's file and locks or unlocks the transcript.  Each transaction of steps 1–8 takes the lock of
the transcript's `item_automation` row first and holds it until it ends, so that none of another
run's, nor the user's lock, lands inside it.  Step 0 takes no lock: what it reads is a step of its
own (`Phase.createItem`).
-/

namespace Semprec

namespace Transcription

/-! ### Rows -/

inductive TaskError where
  | validation (message : String)
  | notFound (message : String)
  | sourceChanged (fileItemId : String)
  | locked (transcriptId : String)
  /-- The gateway's rejection of a call against its budget caps. -/
  | budgetExceeded
  /-- What a media tool, the storage, the gateway or the database throws. -/
  | failed (message : String)
  deriving DecidableEq

def TaskError.message : TaskError → String
  | .validation message | .notFound message | .failed message => message
  | .sourceChanged fileItemId =>
    s!"Files item '{fileItemId}' changed its file while step 1 was normalizing it"
  | .locked transcriptId => s!"Transcriptions item '{transcriptId}' was locked by a user"
  | .budgetExceeded => "Gateway rejected the call: budget exceeded"

def isBudgetRejection (e : TaskError) : Bool := e = .budgetExceeded

structure PrepareStepResult where
  normalizedBlobId : String
  durationSeconds : ℚ
  creationTime : Option String
  deriving DecidableEq

structure AsrChunkResult where
  text : String
  segments : List TranscriptionSegment
  deriving DecidableEq

structure AsrCheckpoint where
  language : Option String
  chunks : ℕ → Option AsrChunkResult

/-- The Files item: two of its properties, and the pipeline's keys of its `computed`. -/
structure Source where
  name : Option String
  file : Option String
  create : Option String
  prepare : Option PrepareStepResult
  diarize : Option (List DiarizationTurn)
  asr : Option AsrCheckpoint
  suggestSpeakers : Option (List String)

inductive TranscriptStatus where
  | processing
  | done
  | error
  deriving DecidableEq

structure Transcript where
  name : String
  status : TranscriptStatus
  link : String
  date : Option String
  segments : Option (List TranscriptSegment)
  language : Option (Option String)
  summaryByInstruction : Option (String → Option String)

inductive ItemAutomationStatus where
  | pending
  | done
  | error
  | locked
  deriving DecidableEq

structure ItemAutomation where
  status : ItemAutomationStatus
  error : Option String
  attempts : ℕ
  deriving DecidableEq

structure Blob where
  id : String
  storageKey : String
  mimeType : String
  createdAt : String
  deriving DecidableEq

structure Notification where
  userId : String
  sourceId : String
  transitionInstance : String
  deriving DecidableEq

variable {ρ : Type}

/-- `related` is what steps 6 and 7 read and write: events, relation edges, suggestion cards. -/
structure Tables (ρ : Type) where
  source : Source
  /-- The item created under the idempotency key of this file. -/
  replay : Option String
  transcripts : String → Option Transcript
  itemAutomation : String → Option ItemAutomation
  blobs : List Blob
  notifications : List Notification
  tenantUserId : Option String
  related : ρ

structure Task (ρ : Type) where
  fileItemId : String
  summaryInstruction : String
  matchTranscriptToEvent : String → ℚ → ρ → Except TaskError ρ
  /-- Whether there is anything to ask. -/
  readSpeakerSuggestionContext : String → ρ → Bool
  proposeSpeakerMappings : String → List (String × String) → ρ → Except TaskError (List String × ρ)

/-! ### The stores -/

abbrev Trans (ρ α : Type) : Type := Tx (Tables ρ) TaskError α

def lockItemAutomation (itemId : String) : Trans ρ (Option ItemAutomation) :=
  .gets fun t => t.itemAutomation itemId

def ensureItemAutomation (itemId : String) : Trans ρ Unit :=
  .write fun t => ((), match t.itemAutomation itemId with
    | some _ => t
    | none =>
      { t with
        itemAutomation := Function.update t.itemAutomation itemId (some ⟨.pending, none, 0⟩) })

/-- `UPDATE item_automation … WHERE item_id = $1 AND …`: whether a row was updated. -/
def updateItemAutomation (itemId : String) (cond : ItemAutomationStatus → Bool)
    (f : ItemAutomation → ItemAutomation) : Trans ρ Bool :=
  .write fun t => match t.itemAutomation itemId with
    | some row =>
      if cond row.status then
        (true, { t with itemAutomation := Function.update t.itemAutomation itemId (some (f row)) })
      else (false, t)
    | none => (false, t)

def markItemAutomationDone (itemId : String) : Trans ρ Bool :=
  updateItemAutomation itemId (· ≠ .locked) fun row => { row with status := .done, error := none }

def startItemAutomationAttempt (itemId : String) : Trans ρ Bool :=
  updateItemAutomation itemId (· ≠ .locked) fun row =>
    { row with status := .pending, attempts := row.attempts + 1 }

def recordItemAutomationFailure (itemId error : String) (status : ItemAutomationStatus) :
    Trans ρ Bool :=
  updateItemAutomation itemId (· ≠ .locked) fun row => { row with status, error := some error }

def setItemAutomationLocked (itemId : String) (locked : Bool) : Trans ρ Bool :=
  updateItemAutomation itemId (fun status => if locked then status ≠ .locked else status = .locked)
    fun row => { row with status := if locked then .locked else .pending }

def getSource : Trans ρ Source := .gets Tables.source

/-- `writeComputed` on the source. -/
def writeSource (f : Source → Source) : Trans ρ Unit :=
  .write fun t => ((), { t with source := f t.source })

/-- `lockItemById` with `requireTranscript`. -/
def requireTranscript (transcriptId : String) : Trans ρ Transcript :=
  .query fun t => match t.transcripts transcriptId with
    | some transcript => .ok transcript
    | none => .error (.notFound s!"Transcripts item '{transcriptId}' not found")

def writeTranscript (transcriptId : String) (f : Transcript → Transcript) : Trans ρ Unit :=
  .write fun t => ((), { t with
    transcripts := Function.update t.transcripts transcriptId
      ((t.transcripts transcriptId).map f) })

def getBlob (id : String) : Trans ρ Blob :=
  .query fun t => match t.blobs.find? (·.id = id) with
    | some blob => .ok blob
    | none => .error (.notFound s!"Blob '{id}' not found")

def createBlob (blob : Blob) : Trans ρ Unit :=
  .write fun t => ((), { t with blobs := t.blobs ++ [blob] })

/-- A second insert with the same key returns the row of the first one. -/
def createItemWithClient (newId : String) (row : Transcript) : Trans ρ String :=
  .write fun t => match t.replay with
    | some id => (id, t)
    | none => (newId, { t with
        replay := some newId
        transcripts := Function.update t.transcripts newId (some row) })

def writeNotification (n : Notification) : Trans ρ Unit :=
  .write fun t => ((), if n ∈ t.notifications then t
    else { t with notifications := t.notifications ++ [n] })

/-! ### Checkpoints -/

def requireTranscriptId (fileItemId : String) (source : Source) : Except TaskError String :=
  match source.create with
  | some transcriptId => .ok transcriptId
  | none => .error (.notFound s!"Files item '{fileItemId}' has no 'create' checkpoint yet")

def requirePrepareCheckpoint (fileItemId : String) (source : Source) :
    Except TaskError PrepareStepResult :=
  match source.prepare with
  | some prepare => .ok prepare
  | none => .error (.notFound s!"Files item '{fileItemId}' has no 'prepare' checkpoint yet")

def readAsrCheckpoint (source : Source) : AsrCheckpoint :=
  source.asr.getD ⟨none, fun _ => none⟩

def requireSegments (transcriptId : String) (transcript : Transcript) :
    Except TaskError (List TranscriptSegment) :=
  match transcript.segments with
  | some segments => .ok segments
  | none => .error (.notFound s!"Transcripts item '{transcriptId}' has no 'segments' yet")

def readSummaries (transcript : Transcript) : String → Option String :=
  transcript.summaryByInstruction.getD fun _ => none

def requireTranscriptionUnlocked (transcriptId : String) : Trans ρ Unit := do
  match ← lockItemAutomation transcriptId with
  | none => .throw (.notFound s!"item_automation row for item '{transcriptId}' not found")
  | some automation =>
    if automation.status = .locked then .throw (.locked transcriptId) else pure ()

def liftExcept {α : Type} (x : Except TaskError α) : Trans ρ α := .query fun _ => x

/-! ### Steps -/

structure PrepareSnapshot where
  sourceBlobId : String
  storageKey : String
  uploadedAt : String
  normalizedStorageKey : String

structure NormalizedMedia where
  creationTime : Option String
  durationSeconds : ℚ

structure TranscriptionResult where
  text : String
  language : Option String
  segments : List TranscriptionSegment

/-- Where a run is: the transaction or the call it makes next, with what it keeps in memory. -/
inductive Phase where
  | idle
  | create
  | createItem (name : Option String)
  | attempt
  | prepare
  | normalize (snapshot : PrepareSnapshot)
  | prepareWrite (snapshot : PrepareSnapshot) (media : NormalizedMedia)
  | diarize
  | diarizeBlob (prepare : PrepareStepResult)
  | diarizeCall
  | diarizeWrite (turns : List DiarizationTurn)
  | asr
  | asrDone (boundaries : List AsrChunkBoundary) (normalizedBlobId : String)
  | asrBlob (boundaries : List AsrChunkBoundary) (normalizedBlobId : String)
  | asrChunk (boundaries : List AsrChunkBoundary) (index : ℕ) (language : Option String)
  | asrCall (boundaries : List AsrChunkBoundary) (index : ℕ) (language : Option String)
  | asrWrite (boundaries : List AsrChunkBoundary) (index : ℕ) (language : Option String)
    (result : TranscriptionResult)
  | merge
  | summarize
  | summarizeCall (segments : List TranscriptSegment) (language : Option String)
  | summarizeWrite (summary : String)
  | matchEvent
  | suggestSpeakers
  | suggestCall (segments : List TranscriptSegment)
  | suggestWrite (suggestions : List (String × String))
  | finalize
  | failed (e : TaskError)

def sourceName : Option String → Except TaskError String
  | some name =>
    if name.length > 0 then .ok name else .error (.validation "Source file has no name")
  | none => .error (.validation "Source file has no name")

def transcriptionSourceLink (fileItemId : String) : String := "semprec://items/" ++ fileItemId

section steps

variable (task : Task ρ)

def runCreateRead : Trans ρ Phase := do
  let source ← getSource
  pure (if source.create.isSome then .attempt else .createItem source.name)

def runCreateItem (name : Option String) (newId : String) : Trans ρ Phase := do
  let name ← liftExcept (sourceName name)
  let transcriptId ← createItemWithClient newId
    { name, status := .processing, link := transcriptionSourceLink task.fileItemId, date := none,
      segments := none, language := none, summaryByInstruction := none }
  ensureItemAutomation transcriptId
  writeSource fun source => { source with create := some transcriptId }
  pure .attempt

/-- `none` when a user locked the row. -/
def startTranscriptionAttempt : Trans ρ (Option String) := do
  let source ← getSource
  let transcriptId ← liftExcept (requireTranscriptId task.fileItemId source)
  ensureItemAutomation transcriptId
  let started ← startItemAutomationAttempt transcriptId
  pure (if started then some transcriptId else none)

def runPrepareRead (transcriptId normalizedStorageKey : String) : Trans ρ Phase := do
  requireTranscriptionUnlocked transcriptId
  let source ← getSource
  if source.prepare.isSome then pure .diarize
  else match source.file with
    | none => .throw (.validation "Source file has no blob")
    | some sourceBlobId =>
      let sourceBlob ← getBlob sourceBlobId
      pure (.normalize
        ⟨sourceBlobId, sourceBlob.storageKey, sourceBlob.createdAt, normalizedStorageKey⟩)

def runPrepareWrite (transcriptId : String) (snapshot : PrepareSnapshot) (media : NormalizedMedia)
    (newId now : String) : Trans ρ Phase := do
  requireTranscriptionUnlocked transcriptId
  let source ← getSource
  if source.prepare.isSome then pure .diarize
  else if source.file ≠ some snapshot.sourceBlobId then .throw (.sourceChanged task.fileItemId)
  else
    createBlob ⟨newId, snapshot.normalizedStorageKey, "audio/ogg", now⟩
    let _ ← requireTranscript transcriptId
    writeTranscript transcriptId fun transcript =>
      { transcript with date := some (media.creationTime.getD snapshot.uploadedAt) }
    writeSource fun source =>
      { source with prepare := some ⟨newId, media.durationSeconds, media.creationTime⟩ }
    pure .diarize

def runDiarizeRead (transcriptId : String) : Trans ρ Phase := do
  requireTranscriptionUnlocked transcriptId
  let source ← getSource
  if source.diarize.isSome then pure .asr
  else
    let prepare ← liftExcept (requirePrepareCheckpoint task.fileItemId source)
    pure (.diarizeBlob prepare)

def runDiarizeWrite (transcriptId : String) (turns : List DiarizationTurn) : Trans ρ Phase := do
  requireTranscriptionUnlocked transcriptId
  let source ← getSource
  if source.diarize.isSome then pure .asr
  else
    writeSource fun source => { source with diarize := some turns }
    pure .asr

def runAsrRead : Trans ρ Phase := do
  let source ← getSource
  let prepare ← liftExcept (requirePrepareCheckpoint task.fileItemId source)
  let boundaries := computeAsrChunkBoundaries prepare.durationSeconds
  pure (if boundaries = [] then .merge else .asrDone boundaries prepare.normalizedBlobId)

def runAsrDone (boundaries : List AsrChunkBoundary) (normalizedBlobId : String) :
    Trans ρ Phase := do
  let source ← getSource
  pure (if boundaries.zipIdx.all fun (_, index) => ((readAsrCheckpoint source).chunks index).isSome
    then .merge else .asrBlob boundaries normalizedBlobId)

/-- The next round of the loop over the chunks, or what follows the loop. -/
def nextChunk (boundaries : List AsrChunkBoundary) (index : ℕ) (language : Option String) : Phase :=
  if index + 1 < boundaries.length then .asrChunk boundaries (index + 1) language else .merge

def runAsrChunkRead (transcriptId : String) (boundaries : List AsrChunkBoundary) (index : ℕ)
    (language : Option String) : Trans ρ Phase := do
  requireTranscriptionUnlocked transcriptId
  let source ← getSource
  let current := readAsrCheckpoint source
  pure (if (current.chunks index).isSome then nextChunk boundaries index current.language
    else .asrCall boundaries index language)

def runAsrChunkWrite (transcriptId : String) (boundaries : List AsrChunkBoundary) (index : ℕ)
    (language : Option String) (result : TranscriptionResult) : Trans ρ Phase := do
  requireTranscriptionUnlocked transcriptId
  let source ← getSource
  let base := readAsrCheckpoint source
  if (base.chunks index).isSome then pure (nextChunk boundaries index language)
  else
    let merged : AsrCheckpoint :=
      { language := if index = 0 then result.language else base.language
        chunks := Function.update base.chunks index (some ⟨result.text, result.segments⟩) }
    writeSource fun source => { source with asr := some merged }
    pure (nextChunk boundaries index language)

def asrChunks (fileItemId : String) (asr : AsrCheckpoint) (boundaries : List AsrChunkBoundary) :
    Except TaskError (List AsrChunkInput) :=
  boundaries.zipIdx.mapM fun (boundary, index) =>
    match asr.chunks index with
    | some chunk => .ok ⟨boundary, chunk.segments⟩
    | none => .error (.notFound
      s!"Files item '{fileItemId}' has no ASR checkpoint for chunk {index} yet")

def runMergeStep (transcriptId : String) : Trans ρ Phase := do
  requireTranscriptionUnlocked transcriptId
  let source ← getSource
  let transcript ← requireTranscript transcriptId
  if transcript.segments.isSome then pure .summarize
  else
    let prepare ← liftExcept (requirePrepareCheckpoint task.fileItemId source)
    let turns ← liftExcept (source.diarize.elim (.error (.failed "Required")) .ok)
    let asr := readAsrCheckpoint source
    let chunks ← liftExcept
      (asrChunks task.fileItemId asr (computeAsrChunkBoundaries prepare.durationSeconds))
    writeTranscript transcriptId fun transcript =>
      { transcript with segments := some (mergeTranscriptSegments turns chunks) }
    writeTranscript transcriptId fun transcript =>
      { transcript with language := some asr.language }
    pure .summarize

def runSummarizeRead (transcriptId : String) : Trans ρ Phase := do
  requireTranscriptionUnlocked transcriptId
  let transcript ← requireTranscript transcriptId
  if (readSummaries transcript task.summaryInstruction).isSome then pure .matchEvent
  else
    let language ← liftExcept (transcript.language.elim (.error (.failed "Required")) .ok)
    let segments ← liftExcept (requireSegments transcriptId transcript)
    pure (if segments = [] then .summarizeWrite "" else .summarizeCall segments language)

def runSummarizeWrite (transcriptId summary : String) : Trans ρ Phase := do
  requireTranscriptionUnlocked transcriptId
  let transcript ← requireTranscript transcriptId
  if (readSummaries transcript task.summaryInstruction).isSome then pure .matchEvent
  else
    writeTranscript transcriptId fun transcript =>
      { transcript with
        summaryByInstruction := some
          (Function.update (readSummaries transcript) task.summaryInstruction (some summary)) }
    pure .matchEvent

def updateRelated {α : Type} (f : ρ → Except TaskError (α × ρ)) : Trans ρ α := do
  let (a, related) ← .query fun t => f t.related
  .write fun t => (a, { t with related })

def runMatchStep (transcriptId : String) : Trans ρ Phase := do
  requireTranscriptionUnlocked transcriptId
  let source ← getSource
  let prepare ← liftExcept (requirePrepareCheckpoint task.fileItemId source)
  updateRelated fun related =>
    (task.matchTranscriptToEvent transcriptId prepare.durationSeconds related).map ((), ·)
  pure .suggestSpeakers

def runSuggestSpeakersRead (transcriptId : String) : Trans ρ Phase := do
  requireTranscriptionUnlocked transcriptId
  let source ← getSource
  if source.suggestSpeakers.isSome then pure .finalize
  else
    let transcript ← requireTranscript transcriptId
    let segments ← liftExcept (requireSegments transcriptId transcript)
    let asked ← .gets fun t => task.readSpeakerSuggestionContext transcriptId t.related
    pure (if asked then .suggestCall segments else .finalize)

def runSuggestSpeakersWrite (transcriptId : String) (suggestions : List (String × String)) :
    Trans ρ Phase := do
  requireTranscriptionUnlocked transcriptId
  let source ← getSource
  if source.suggestSpeakers.isSome then pure .finalize
  else
    let proposedSpeakers ← updateRelated (task.proposeSpeakerMappings transcriptId suggestions)
    writeSource fun source => { source with suggestSpeakers := some proposedSpeakers }
    pure .finalize

def runFinalizeStep (transcriptId : String) : Trans ρ Phase := do
  requireTranscriptionUnlocked transcriptId
  let transcript ← requireTranscript transcriptId
  if transcript.status = .done then
    let _ ← markItemAutomationDone transcriptId
    pure .idle
  else
    let _ ← liftExcept (requireSegments transcriptId transcript)
    let instruction := task.summaryInstruction
    if (readSummaries transcript instruction).isNone then
      .throw (.notFound s!"Transcripts item '{transcriptId}' has no '{instruction}' summary yet")
    else
      writeTranscript transcriptId fun transcript => { transcript with status := .done }
      let _ ← markItemAutomationDone transcriptId
      pure .idle

def recordTranscriptionFailure (transcriptId message : String) (permanent : Bool) :
    Trans ρ Bool := do
  match ← lockItemAutomation transcriptId with
  | none => pure false
  | some automation =>
    if automation.status = .locked then pure false
    else
      let written ← recordItemAutomationFailure transcriptId message
        (if permanent then .error else .pending)
      if !written then
        .throw
          (.failed s!"item_automation row for item {transcriptId} was not updated while locked")
      else if !permanent then pure true
      else
        let _ ← requireTranscript transcriptId
        writeTranscript transcriptId fun transcript => { transcript with status := .error }
        match ← .gets Tables.tenantUserId with
        | none => pure true
        | some userId =>
          let attempts := automation.attempts
          writeNotification ⟨userId, transcriptId, s!"attempt:{attempts}"⟩
          pure true

/-- The transaction of a phase, `none` where the run is at a call or at its end; `fresh` is the
uuid that the transaction generates and `now` its time. -/
def Task.transaction (transcriptId fresh now : String) : Phase → Option (Trans ρ Phase)
  | .create => some runCreateRead
  | .createItem name => some (runCreateItem task name fresh)
  | .prepare => some (runPrepareRead transcriptId fresh)
  | .prepareWrite snapshot media =>
    some (runPrepareWrite task transcriptId snapshot media fresh now)
  | .diarize => some (runDiarizeRead task transcriptId)
  | .diarizeBlob prepare => some do
    let _ ← getBlob prepare.normalizedBlobId
    pure .diarizeCall
  | .diarizeWrite turns => some (runDiarizeWrite transcriptId turns)
  | .asr => some (runAsrRead task)
  | .asrDone boundaries normalizedBlobId => some (runAsrDone boundaries normalizedBlobId)
  | .asrBlob boundaries normalizedBlobId => some do
    let _ ← getBlob normalizedBlobId
    pure (.asrChunk boundaries 0 none)
  | .asrChunk boundaries index language =>
    some (runAsrChunkRead transcriptId boundaries index language)
  | .asrWrite boundaries index language result =>
    some (runAsrChunkWrite transcriptId boundaries index language result)
  | .merge => some (runMergeStep task transcriptId)
  | .summarize => some (runSummarizeRead task transcriptId)
  | .summarizeWrite summary => some (runSummarizeWrite task transcriptId summary)
  | .matchEvent => some (runMatchStep task transcriptId)
  | .suggestSpeakers => some (runSuggestSpeakersRead task transcriptId)
  | .suggestWrite suggestions => some (runSuggestSpeakersWrite task transcriptId suggestions)
  | .finalize => some (runFinalizeStep task transcriptId)
  | _ => none

end steps

/-! ### Runs -/

structure Run where
  transcriptId : String
  phase : Phase

/-- A transcription the gateway has answered with. -/
structure TranscribeCall where
  index : ℕ
  audioSeconds : ℚ
  language : Option String
  chunk : AsrChunkResult

structure Sys (ρ : Type) where
  tables : Tables ρ
  runs : ℕ → Run
  calls : List TranscribeCall

inductive Answer where
  | media (media : NormalizedMedia)
  | turns (turns : List DiarizationTurn)
  | transcription (result : TranscriptionResult)
  | summary (summary : String)
  | suggestions (suggestions : List (String × String))

inductive Act where
  | deliver (r : ℕ)
  | transact (r : ℕ) (fresh now : String)
  | answer (r : ℕ) (a : Answer)
  /-- A transaction, a tool or the gateway fails. -/
  | fail (r : ℕ) (e : TaskError)
  /-- A crash, or a shutdown, which enqueues the job again. -/
  | stop (r : ℕ)
  /-- The handler's `catch`. -/
  | settle (r : ℕ) (lastAttempt : Bool)
  | replaceFile (blob : Blob)
  | setLocked (locked : Bool)

def Sys.setPhase (s : Sys ρ) (r : ℕ) (phase : Phase) : Sys ρ :=
  { s with runs := Function.update s.runs r { s.runs r with phase } }

def Phase.answer : Phase → Answer → Option Phase
  | .normalize snapshot, .media media => some (.prepareWrite snapshot media)
  | .diarizeCall, .turns turns => some (.diarizeWrite turns)
  | .asrCall boundaries index language, .transcription result =>
    some (.asrWrite boundaries index (if index = 0 then result.language else language) result)
  | .summarizeCall _ _, .summary summary => some (.summarizeWrite summary)
  | .suggestCall _, .suggestions suggestions => some (.suggestWrite suggestions)
  | _, _ => none

def Phase.calls : Phase → Answer → List TranscribeCall
  | .asrCall boundaries index language, .transcription result =>
    (boundaries[index]?.map fun boundary =>
      { index, audioSeconds := boundary.stop - boundary.start
        language := if index = 0 then none else language
        chunk := ⟨result.text, result.segments⟩ }).toList
  | _, _ => []

def Phase.failure (e : TaskError) : Phase → Phase
  | .idle | .create | .createItem _ | .attempt => .idle
  | .failed e' => .failed e'
  | _ => .failed e

def step (task : Task ρ) (s : Sys ρ) : Act → Option (Sys ρ)
  | .deliver r =>
    match (s.runs r).phase with
    | .idle => some (s.setPhase r .create)
    | _ => none
  | .transact r fresh now =>
    match (s.runs r).phase with
    | .attempt =>
      match (startTranscriptionAttempt task).transaction s.tables with
      | (.ok (some transcriptId), tables) =>
        some { s with tables, runs := Function.update s.runs r ⟨transcriptId, .prepare⟩ }
      | (_, tables) => some ({ s with tables }.setPhase r .idle)
    | phase =>
      (task.transaction (s.runs r).transcriptId fresh now phase).map fun x =>
        match x.transaction s.tables with
        | (.ok next, tables) => { s with tables }.setPhase r next
        | (.error e, tables) => { s with tables }.setPhase r (phase.failure e)
  | .answer r a =>
    ((s.runs r).phase.answer a).map fun phase =>
      { s.setPhase r phase with calls := s.calls ++ (s.runs r).phase.calls a }
  | .fail r e => some (s.setPhase r ((s.runs r).phase.failure e))
  | .stop r => some (s.setPhase r .idle)
  | .settle r lastAttempt =>
    match (s.runs r).phase with
    | .failed (.locked _) => some (s.setPhase r .idle)
    | .failed e =>
      some ({ s with
        tables := ((recordTranscriptionFailure (s.runs r).transcriptId e.message
          (isBudgetRejection e || lastAttempt)).transaction s.tables).2 }.setPhase r .idle)
    | _ => none
  | .replaceFile blob =>
    some { s with tables := { s.tables with
      blobs := s.tables.blobs ++ [blob]
      source := { s.tables.source with file := some blob.id } } }
  | .setLocked locked =>
    s.tables.source.create.map fun transcriptId =>
      { s with tables := ((setItemAutomationLocked transcriptId locked).transaction s.tables).2 }

def init (name file : Option String) (blobs : List Blob) (notifications : List Notification)
    (tenantUserId : Option String) (related : ρ) : Sys ρ where
  tables :=
    { source :=
        { name, file, create := none, prepare := none, diarize := none, asr := none
          suggestSpeakers := none }
      replay := none
      transcripts := fun _ => none
      itemAutomation := fun _ => none
      blobs, notifications, tenantUserId, related }
  runs := fun _ => ⟨"", .idle⟩
  calls := []

/-- Where a run finds its first chunk already checkpointed, and the second one not: the language it
has detected itself is the one that is checkpointed. -/
def Phase.keepsLanguage (t : Tables ρ) (transcriptId : String) : Phase → Bool
  | .asrWrite boundaries 0 _ result =>
    let asr := readAsrCheckpoint t.source
    (asr.chunks 0).isNone || (asr.chunks 1).isSome || boundaries.length ≤ 1 ||
      (t.itemAutomation transcriptId).any (·.status = .locked) || result.language = asr.language
  | _ => true

def Sys.keepsLanguage (s : Sys ρ) : Act → Bool
  | .transact r _ _ => (s.runs r).phase.keepsLanguage s.tables (s.runs r).transcriptId
  | _ => true

end Transcription

end Semprec
