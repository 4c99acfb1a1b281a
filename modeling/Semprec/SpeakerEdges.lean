import Semprec.Lib.LockingPrograms
import Semprec.Schema

/-!
# Speaker edges

The edges of Transcripts' `speakers` relation, each of which maps one diarization key of a
transcript to a person.  The hook on edge writes locks the transcript and reads its other edges;
the pipeline's merge step writes the segments that the keys come from; items are created, edited,
trashed, restored and purged, and relation properties are created, side by side.
-/

namespace Semprec

namespace SpeakerEdges

open ReadCommitted (Program Programs)
open Relations Schema

def transcriptsModuleId : String := "transcripts"

/-- `TRANSCRIPT_SPEAKERS_PROPERTY_KEY`. -/
def speakersPropertyKey : String := "speakers"

/-- `TRANSCRIPT_SEGMENTS_COMPUTED_KEY`. -/
def segmentsComputedKey : String := "segments"

/-! ### Statements and locks -/

inductive Write where
  | upsertEdge (relationDefinitionId itemA itemB : ℕ) (metadata : JsonObject)
  | setMetadata (relationDefinitionId itemA itemB : ℕ) (metadata : JsonObject)
  | deleteEdge (relationDefinitionId itemA itemB : ℕ)
  | deleteEdges (ids : List ℕ)
  | insertItem (row : ItemRow)
  | setProperties (databaseId itemId : ℕ) (patch : JsonObject)
  | setDeletedAt (databaseId itemId : ℕ) (deletedAt : Option ℤ)
  | writeComputed (databaseId itemId : ℕ) (key : String) (value : Json)
  | hardDeleteItem (databaseId itemId : ℕ)
  | insertProperty (row : PropertyRow)
  | insertRelationDefinition (row : RelationDefinitionRow)

def apply (s : Store) : Write → Store
  | .upsertEdge d a b metadata => (upsertEdge d a b metadata s).2
  | .setMetadata d a b metadata => (updateItemRelationMetadata d a b metadata s).2
  | .deleteEdge d a b => (deleteItemRelation d a b s).2
  | .deleteEdges ids => { s with itemRelations := s.itemRelations.filter fun e => e.id ∉ ids }
  | .insertItem row => { s with items := s.items ++ [row] }
  | .setProperties databaseId itemId patch =>
    (s.updateItem databaseId itemId (fun _ => true) fun r =>
      { r with properties := r.properties.merge patch }).2
  | .setDeletedAt databaseId itemId deletedAt =>
    (s.updateItem databaseId itemId (fun _ => true) fun r => { r with deletedAt }).2
  | .writeComputed databaseId itemId key value =>
    (s.writeComputed databaseId itemId key value).2
  | .hardDeleteItem databaseId itemId =>
    { s with items := s.items.filter fun r => !r.isAt databaseId itemId }
  | .insertProperty row => { s with properties := s.properties ++ [row] }
  | .insertRelationDefinition row =>
    { s with relationDefinitions := s.relationDefinitions ++ [row] }

/-- The rows that are locked until the end of the transaction; of an edge that is not there, its
entry in the unique index. -/
inductive Lock where
  | item (databaseId itemId : ℕ)
  | edge (relationDefinitionId itemA itemB : ℕ)
deriving DecidableEq

def Lock.conflicts (l m : Lock) : Bool := l == m

abbrev Transaction := Program Store Write Lock

def select (next : Store → Transaction) : Transaction := .statement (fun _ => []) next

def check {α : Type} (f : Store → Except Failure α) (next : α → Transaction) : Transaction :=
  select fun s =>
    match f s with
    | .error _ => .rollback
    | .ok a => next a

def write (w : Write) (next : Transaction) : Transaction := .statement (fun _ => [w]) fun _ => next

/-- `SELECT … FOR UPDATE`: a row that is found is read again once its lock is granted. -/
def lockItemById (databaseId itemId : ℕ) (next : Option ItemRow → Transaction) : Transaction :=
  select fun s =>
    match s.getItemById databaseId itemId with
    | none => next none
    | some _ => .acquire (.item databaseId itemId) <|
      select fun s => next (s.getItemById databaseId itemId)

/-! ### The hook -/

/-- The key in an edge's metadata, when the metadata is exactly `{ speaker }`. -/
def parseSpeakerEdgeMetadata : JsonObject → Option String
  | [(key, .str speaker)] => if key = "speaker" ∧ speaker ≠ "" then some speaker else none
  | _ => none

/-- `edge.metadata.speaker`, when it is a string. -/
def speakerOf (metadata : JsonObject) : Option String :=
  match metadata.get? "speaker" with
  | some (.str speaker) => some speaker
  | _ => none

def segmentSpeaker : Json → Option String
  | .obj fields => speakerOf fields
  | _ => none

def listSegmentSpeakers (transcript : ItemRow) : Option (List String) :=
  match transcript.computed.get? segmentsComputedKey with
  | none => some []
  | some (.arr segments) => (segments.mapM segmentSpeaker).map List.eraseDups
  | some _ => none

def otherSide (edge : ItemRelationRow) (itemId : ℕ) : Option ℕ :=
  if edge.itemA = itemId then some edge.itemB
  else if edge.itemB = itemId then some edge.itemA
  else none

def isTranscriptSpeakersProperty (property : PropertyRow) (s : Store) : Bool :=
  property.key = speakersPropertyKey &&
    (s.getDatabase property.databaseId).any fun database =>
      database.ownerModuleId = some transcriptsModuleId

def isHolder (speaker : String) (transcriptId personId : ℕ) (edge : ItemRelationRow) : Bool :=
  speakerOf edge.metadata = some speaker && otherSide edge transcriptId ≠ some personId

def assertSpeakerEdgeWritable (relationDefinitionId transcriptsDatabaseId transcriptId personId : ℕ)
    (metadata : Option JsonObject) (next : Transaction) : Transaction :=
  match parseSpeakerEdgeMetadata (metadata.getD []) with
  | none => .rollback
  | some speaker =>
    lockItemById transcriptsDatabaseId transcriptId fun
      | none => .rollback
      | some transcript =>
        if transcript.deletedAt.isSome then .rollback
        else if ((listSegmentSpeakers transcript).getD []).contains speaker then
          select fun s =>
            if (s.listRelationsForItem relationDefinitionId transcriptId).any
                (isHolder speaker transcriptId personId) then
              .rollback
            else next
        else .rollback

def transcriptSpeakerEdgeWriteHook (edgeContext : RelationEdgeContext)
    (callerItemId targetItemId : ℕ) (metadata : Option JsonObject) (next : Transaction) :
    Transaction :=
  select fun s =>
    if isTranscriptSpeakersProperty edgeContext.property s then
      assertSpeakerEdgeWritable edgeContext.reldef.id edgeContext.property.databaseId callerItemId
        targetItemId metadata next
    else next

/-! ### Edge writes -/

def loadEdgeContext (relationPropertyId : ℕ) (context : Option SystemRelationWriteContext)
    (next : RelationEdgeContext → Transaction) : Transaction :=
  check (loadRelationEdgeContext · relationPropertyId) fun edgeContext =>
  check (·.assertDatabaseNotArchived edgeContext.property.databaseId) fun _ =>
  check (·.assertDatabaseNotArchived edgeContext.targetDatabaseId) fun _ =>
  check (fun _ => assertRelationPropertyWritable edgeContext.property context) fun _ =>
  next edgeContext

def loadWritableEdge (relationPropertyId callerItemId targetItemId : ℕ)
    (metadata : Option JsonObject) (context : Option SystemRelationWriteContext)
    (next : RelationEdgeContext → Transaction) : Transaction :=
  loadEdgeContext relationPropertyId context fun edgeContext =>
  check (assertRelationEndpointValid · edgeContext.property.databaseId callerItemId
    "callerItemId") fun _ =>
  check (assertRelationEndpointValid · edgeContext.targetDatabaseId targetItemId
    "targetItemId") fun _ =>
  transcriptSpeakerEdgeWriteHook edgeContext callerItemId targetItemId metadata (next edgeContext)

def createRelation (input : CreateRelationInput) (context : Option SystemRelationWriteContext) :
    Transaction :=
  loadWritableEdge input.relationPropertyId input.callerItemId input.targetItemId input.metadata
    context fun edgeContext =>
  let sides := normalizeRelationSides edgeContext.reldef input.relationPropertyId
    input.callerItemId input.targetItemId
  .acquire (.edge edgeContext.reldef.id sides.1 sides.2) <|
  check (assertCardinality · edgeContext.reldef.id sides.1 sides.2) fun _ =>
  write (.upsertEdge edgeContext.reldef.id sides.1 sides.2 (input.metadata.getD [])) .commit

def updateRelation (input : UpdateRelationInput) (context : Option SystemRelationWriteContext) :
    Transaction :=
  loadWritableEdge input.relationPropertyId input.callerItemId input.targetItemId
    (some input.metadata) context fun edgeContext =>
  let sides := normalizeRelationSides edgeContext.reldef input.relationPropertyId
    input.callerItemId input.targetItemId
  .acquire (.edge edgeContext.reldef.id sides.1 sides.2) <| select fun s =>
  if (s.getItemRelationByTuple edgeContext.reldef.id sides.1 sides.2).isSome then
    write (.setMetadata edgeContext.reldef.id sides.1 sides.2 input.metadata) .commit
  else .rollback

def deleteRelation (input : DeleteRelationInput) (context : Option SystemRelationWriteContext) :
    Transaction :=
  loadEdgeContext input.relationPropertyId context fun edgeContext =>
  let sides := normalizeRelationSides edgeContext.reldef input.relationPropertyId
    input.callerItemId input.targetItemId
  .acquire (.edge edgeContext.reldef.id sides.1 sides.2) <|
  write (.deleteEdge edgeContext.reldef.id sides.1 sides.2) .commit

/-! ### Items -/

/-- A new row has no computed values. -/
def createItem (databaseId itemId : ℕ) (properties : JsonObject) (now : ℤ) : Transaction :=
  write (.insertItem ⟨itemId, databaseId, properties, [], now, none⟩) .commit

def updateItem (databaseId itemId : ℕ) (patch : JsonObject) : Transaction :=
  lockItemById databaseId itemId fun
    | none => .rollback
    | some item =>
      if item.deletedAt.isSome then .rollback
      else write (.setProperties databaseId itemId patch) .commit

def softDeleteItem (databaseId itemId : ℕ) (now : ℤ) : Transaction :=
  lockItemById databaseId itemId fun
    | none => .commit
    | some item =>
      if item.deletedAt.isSome then .commit
      else write (.setDeletedAt databaseId itemId (some now)) .commit

def restoreItem (databaseId itemId : ℕ) : Transaction :=
  lockItemById databaseId itemId fun
    | none => .commit
    | some item =>
      if item.deletedAt.isSome then write (.setDeletedAt databaseId itemId none) .commit
      else .commit

def purgeItem (databaseId itemId : ℕ) : Transaction :=
  lockItemById databaseId itemId fun
    | none => .commit
    | some item =>
      if item.deletedAt.isSome then
        write (.hardDeleteItem databaseId itemId) <|
        .statement (fun s => [.deleteEdges ((s.listAllRelationsForItem itemId).map (·.id))])
          fun _ => .commit
      else .commit

def runMergeStep (transcriptsDatabaseId transcriptId : ℕ) (segments language : Json) :
    Transaction :=
  lockItemById transcriptsDatabaseId transcriptId fun
    | none => .rollback
    | some transcript =>
      if transcript.computed.hasOwn segmentsComputedKey then .commit
      else
        write (.writeComputed transcriptsDatabaseId transcriptId segmentsComputedKey segments) <|
        write (.writeComputed transcriptsDatabaseId transcriptId "language" language) .commit

structure RelationPropertyIds where
  property : ℕ
  inverseProperty : ℕ
  relationDefinition : ℕ

def sidePropertyRow (id databaseId relationDefinitionId targetDatabaseId : ℕ)
    (side : RelationPropertySideInput) : PropertyRow where
  id := id
  databaseId := databaseId
  key := side.key
  name := side.name
  type := .relation
  config := { PropertyConfig.empty with
    relationDefinitionId := some relationDefinitionId
    targetDatabaseId := some targetDatabaseId }
  locked := side.locked
  owner := side.owner
  ownerProcess := side.ownerProcess
  migrationStatus := .stable

def createRelationProperty (input : CreateRelationPropertyInput) (ids : RelationPropertyIds) :
    Transaction :=
  check (assertDatabaseSchemaUnlocked · input.sourceDatabaseId) fun _ =>
  write (.insertProperty (sidePropertyRow ids.property input.sourceDatabaseId
    ids.relationDefinition input.targetDatabaseId input.source)) <|
  match input.inverse with
  | none => write (.insertRelationDefinition
      ⟨ids.relationDefinition, ids.property, none, input.cardinality⟩) .commit
  | some side =>
    check (assertDatabaseSchemaUnlocked · input.targetDatabaseId) fun _ =>
    write (.insertProperty (sidePropertyRow ids.inverseProperty input.targetDatabaseId
      ids.relationDefinition input.sourceDatabaseId side)) <|
    write (.insertRelationDefinition
      ⟨ids.relationDefinition, ids.property, some ids.inverseProperty, input.cardinality⟩) .commit

/-- A user, an agent or the confirmation of a suggestion job's card writes an edge by
`createRelation`; the job itself creates the card, an item, and writes no `speakers` edge. -/
inductive Op where
  | createRelation (input : CreateRelationInput) (context : Option SystemRelationWriteContext)
  | updateRelation (input : UpdateRelationInput) (context : Option SystemRelationWriteContext)
  | deleteRelation (input : DeleteRelationInput) (context : Option SystemRelationWriteContext)
  | createItem (databaseId itemId : ℕ) (properties : JsonObject) (now : ℤ)
  | updateItem (databaseId itemId : ℕ) (patch : JsonObject)
  | softDeleteItem (databaseId itemId : ℕ) (now : ℤ)
  | restoreItem (databaseId itemId : ℕ)
  | purgeItem (databaseId itemId : ℕ)
  | runMergeStep (transcriptsDatabaseId transcriptId : ℕ) (segments language : Json)
  | createRelationProperty (input : CreateRelationPropertyInput) (ids : RelationPropertyIds)

def transaction : Op → Transaction
  | .createRelation input context => createRelation input context
  | .updateRelation input context => updateRelation input context
  | .deleteRelation input context => deleteRelation input context
  | .createItem databaseId itemId properties now => createItem databaseId itemId properties now
  | .updateItem databaseId itemId patch => updateItem databaseId itemId patch
  | .softDeleteItem databaseId itemId now => softDeleteItem databaseId itemId now
  | .restoreItem databaseId itemId => restoreItem databaseId itemId
  | .purgeItem databaseId itemId => purgeItem databaseId itemId
  | .runMergeStep databaseId itemId segments language =>
    runMergeStep databaseId itemId segments language
  | .createRelationProperty input ids => createRelationProperty input ids

abbrev Sys := Programs Store Write Lock

abbrev Act := ReadCommitted.ProgramAct Op

abbrev step : Sys → Act → Option Sys := Programs.step apply Lock.conflicts transaction

/-! ### What is claimed -/

/-- The `speakers` relation of a tenant: Transcripts' database, the relation property in it and
their relation definition, which has no property on the side of People. -/
structure SpeakersRelation where
  transcriptsDatabaseId : ℕ
  propertyId : ℕ
  relationDefinitionId : ℕ

namespace SpeakersRelation

variable (r : SpeakersRelation)

/-- The rows that the seed leaves. -/
structure InSchema (s : Store) : Prop where
  database : ∃ d, s.getDatabase r.transcriptsDatabaseId = some d ∧
    d.ownerModuleId = some transcriptsModuleId
  property : ∃ p, s.getProperty r.propertyId = some p ∧
    p.databaseId = r.transcriptsDatabaseId ∧ p.key = speakersPropertyKey
  definition : ∃ d, s.getRelationDefinition r.relationDefinitionId = some d ∧
    d.propertyIdA = r.propertyId ∧ d.propertyIdB = none

def Mapped (s : Store) (transcriptId : ℕ) (speaker : String) (personId : ℕ) : Prop :=
  ∃ e ∈ s.itemRelations, e.relationDefinitionId = r.relationDefinitionId ∧
    e.itemA = transcriptId ∧ e.itemB = personId ∧ speakerOf e.metadata = some speaker

def Occurs (s : Store) (transcriptId : ℕ) (speaker : String) : Prop :=
  ∃ row, s.getItemById r.transcriptsDatabaseId transcriptId = some row ∧
    ∃ speakers, listSegmentSpeakers row = some speakers ∧ speaker ∈ speakers

structure OnePerson (s : Store) : Prop where
  unique : ∀ transcriptId speaker personId personId', r.Mapped s transcriptId speaker personId →
    r.Mapped s transcriptId speaker personId' → personId = personId'
  occurs : ∀ transcriptId speaker personId, r.Mapped s transcriptId speaker personId →
    r.Occurs s transcriptId speaker

end SpeakersRelation

structure Seeded where
  relation : SpeakersRelation
  store : Store
  inSchema : relation.InSchema store
  no_edges : ∀ e ∈ store.itemRelations, e.relationDefinitionId ≠ relation.relationDefinitionId

end SpeakerEdges

end Semprec
