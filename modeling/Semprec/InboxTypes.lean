import Semprec.Lib.ReadCommitted
import Semprec.Lib.Runs
import Semprec.Store

/-!
# The processing configuration of an Inbox type

`createInboxTypeWithClient` and `updateInboxTypeWithClient` check the two fields of the
configuration together; an update reads the item without a lock to do so.  The generic item
operations write either field as they are told.
-/

namespace Semprec

namespace InboxTypes

def PROCESSING_METHODS : List String := ["pageContent", "database"]

def TEN_DATABASE_MODULE_IDS : List String :=
  ["areas", "projects", "tasks", "people", "files", "events", "healthRecords", "companies",
    "transcripts", "journal"]

/-- Neither `undefined` nor `null`. -/
def isSet : Option Json → Bool
  | none | some .null => false
  | some _ => true

def assertValidProcessingConfig (resolvedMethod resolvedTarget : Option Json) :
    Except Failure Unit :=
  if isSet resolvedMethod = false then
    if isSet resolvedTarget then
      .error (.validationError "'targetDatabase' requires 'processingMethod' to be 'database'"
        (fieldDetails "targetDatabase"))
    else .ok ()
  else match resolvedMethod with
    | some (.str "database") =>
      match resolvedTarget with
      | some (.str target) =>
        if target ∈ TEN_DATABASE_MODULE_IDS then .ok ()
        else .error (.validationError
          (s!"processingMethod 'database' requires 'targetDatabase' to be one of " ++
            ", ".intercalate TEN_DATABASE_MODULE_IDS) (fieldDetails "targetDatabase"))
      | _ => .error (.validationError
          (s!"processingMethod 'database' requires 'targetDatabase' to be one of " ++
            ", ".intercalate TEN_DATABASE_MODULE_IDS) (fieldDetails "targetDatabase"))
    | some (.str "pageContent") =>
      if isSet resolvedTarget then
        .error (.validationError "processingMethod 'pageContent' must not set 'targetDatabase'"
          (fieldDetails "targetDatabase"))
      else .ok ()
    | _ => .error (.validationError
        ("'processingMethod' must be one of " ++ ", ".intercalate PROCESSING_METHODS)
        (fieldDetails "processingMethod"))

structure TypeItem where
  properties : JsonObject
  deletedAt : Option ℤ

structure CreateInboxTypeInput where
  name : String
  emoji : String
  status : Option String
  processingMethod : String
  targetDatabase : Option String

def CreateInboxTypeInput.properties (input : CreateInboxTypeInput) : JsonObject :=
  [("name", Json.str input.name), ("emoji", Json.str input.emoji)] ++
    (input.status.map fun status => ("status", Json.str status)).toList ++
    [("processingMethod", Json.str input.processingMethod)] ++
    (input.targetDatabase.map fun target => ("targetDatabase", Json.str target)).toList

inductive Write where
  | insert (itemId : ℕ) (properties : JsonObject)
  | update (itemId : ℕ) (propertiesPatch : JsonObject)
  | setDeletedAt (itemId : ℕ) (deletedAt : Option ℤ)
  | hardDelete (itemId : ℕ)

def Write.itemId : Write → ℕ
  | .insert itemId _ | .update itemId _ | .setDeletedAt itemId _ | .hardDelete itemId => itemId

def Write.row (row : Option TypeItem) : Write → Option TypeItem
  | .insert _ properties => some ⟨properties, none⟩
  | .update _ propertiesPatch =>
    row.map fun item => { item with properties := item.properties.merge propertiesPatch }
  | .setDeletedAt _ deletedAt => row.map fun item => { item with deletedAt }
  | .hardDelete _ => none

abbrev Table := ℕ → Option TypeItem

def apply (items : Table) (w : Write) : Table :=
  Function.update items w.itemId (w.row (items w.itemId))

/-- An open transaction, and the update whose check has passed. -/
abbrev Tx := Option (ℕ × JsonObject)

structure Sys where
  db : ReadCommitted Table Write
  txs : ℕ → Tx
  nextId : ℕ

def Sys.init : Sys := ⟨.init fun _ => none, fun _ => none, 0⟩

inductive Act where
  | begin (t : ℕ)
  | createInboxType (t : ℕ) (input : CreateInboxTypeInput)
  /-- `updateInboxTypeWithClient` reads the item and checks what the patch would make of it. -/
  | readCurrent (t itemId : ℕ) (propertiesPatch : JsonObject)
  /-- Its write. -/
  | updateInboxType (t : ℕ)
  | createItem (t : ℕ) (properties : JsonObject)
  | updateItem (t itemId : ℕ) (propertiesPatch : JsonObject)
  /-- Trash or restore. -/
  | setDeletedAt (t itemId : ℕ) (deletedAt : Option ℤ)
  | purge (t itemId : ℕ)
  | commit (t : ℕ)
  | abort (t : ℕ)

/-- A statement waits for the transaction that has written its row. -/
def Sys.write (s : Sys) (t : ℕ) (w : Write) (tx : Tx) : Option Sys :=
  if s.db.Locked t (·.itemId = w.itemId) then none
  else (s.db.write t [w]).map fun db => { s with db, txs := Function.update s.txs t tx }

def Sys.insert (s : Sys) (t : ℕ) (properties : JsonObject) : Option Sys :=
  ({ s with nextId := s.nextId + 1 }).write t (.insert s.nextId properties) none

def Sys.updateItemWithClient (s : Sys) (t itemId : ℕ) (propertiesPatch : JsonObject) : Option Sys :=
  match s.db.view apply t itemId with
  | some ⟨_, none⟩ => s.write t (.update itemId propertiesPatch) none
  | _ => none

def step (s : Sys) : Act → Option Sys
  | .begin t => (s.db.begin t).map fun db => { s with db }
  | .createInboxType t input =>
    if (s.txs t).isSome then none
    else match assertValidProcessingConfig (some (.str input.processingMethod))
        (input.targetDatabase.map .str) with
      | .ok _ => s.insert t input.properties
      | .error _ => none
  | .readCurrent t itemId propertiesPatch =>
    if t ∈ s.db.opened ∧ s.txs t = none then
      match s.db.view apply t itemId with
      | none => none
      | some current =>
        let resolvedMethod :=
          if propertiesPatch.hasOwn "processingMethod" then propertiesPatch.get? "processingMethod"
          else current.properties.get? "processingMethod"
        let resolvedTarget :=
          if propertiesPatch.hasOwn "targetDatabase" then propertiesPatch.get? "targetDatabase"
          else current.properties.get? "targetDatabase"
        match assertValidProcessingConfig resolvedMethod resolvedTarget with
        | .ok _ => some { s with txs := Function.update s.txs t (some (itemId, propertiesPatch)) }
        | .error _ => none
    else none
  | .updateInboxType t =>
    match s.txs t with
    | some (itemId, propertiesPatch) => s.updateItemWithClient t itemId propertiesPatch
    | none => none
  | .createItem t properties => if (s.txs t).isSome then none else s.insert t properties
  | .updateItem t itemId propertiesPatch =>
    if (s.txs t).isSome then none else s.updateItemWithClient t itemId propertiesPatch
  | .setDeletedAt t itemId deletedAt =>
    if (s.txs t).isSome ∨ (s.db.view apply t itemId).isNone then none
    else s.write t (.setDeletedAt itemId deletedAt) none
  | .purge t itemId =>
    if (s.txs t).isSome ∨ (s.db.view apply t itemId).isNone then none
    else s.write t (.hardDelete itemId) none
  | .commit t =>
    if (s.txs t).isSome then none
    else (s.db.commit apply t).map fun db => { s with db }
  | .abort t =>
    (s.db.rollback t).map fun db => { s with db, txs := Function.update s.txs t none }

/-! ## What the tick makes of a type -/

/-- `resolveRecognizedType`, of the type that an item names. -/
def recognizedMethod (type : TypeItem) : Option String :=
  if type.deletedAt.isSome then none
  else match type.properties.get? "processingMethod" with
    | some (.str method) => if method ∈ PROCESSING_METHODS then some method else none
    | _ => none

def targetModuleId (typeId : ℕ) (type : TypeItem) : Except Failure (Option String) :=
  match recognizedMethod type with
  | some "database" =>
    match type.properties.get? "targetDatabase" with
    | some (.str targetModuleId) =>
      if targetModuleId ∈ TEN_DATABASE_MODULE_IDS then .ok (some targetModuleId)
      else .error (.internal s!"No database seeded for owner_module_id '{targetModuleId}'")
    | _ => .error (.internal
        s!"Inbox item type {typeId} has processingMethod 'database' but no 'targetDatabase'")
  | _ => .ok none

/-! ## Validity -/

def Valid (properties : JsonObject) : Prop :=
  assertValidProcessingConfig (properties.get? "processingMethod")
    (properties.get? "targetDatabase") = .ok ()

/-- Every type item satisfies `assertValidProcessingConfig`, and the tick takes it. -/
def Sys.TypesValid (s : Sys) : Prop :=
  ∀ itemId item, s.db.committed itemId = some item →
    Valid item.properties ∧ ∃ target, targetModuleId itemId item = .ok target

def configures (properties : JsonObject) : Bool :=
  properties.hasOwn "processingMethod" || properties.hasOwn "targetDatabase"

def Write.configures : Write → Bool
  | .insert _ _ => true
  | .update _ propertiesPatch => InboxTypes.configures propertiesPatch
  | _ => false

/-- The transaction is about to write the configuration of the item, or has. -/
def Sys.Configuring (s : Sys) (t itemId : ℕ) : Prop :=
  (∃ propertiesPatch, s.txs t = some (itemId, propertiesPatch) ∧
    configures propertiesPatch = true) ∨
  ∃ w ∈ s.db.pending t, w.itemId = itemId ∧ w.configures = true

/-- Configurations are written by the operations of Inbox types only, and that of one item by no two
transactions at the same time. -/
def OneWriter (s : Sys) : Act → Prop
  | .createItem _ properties | .updateItem _ _ properties => configures properties = false
  | .readCurrent t itemId propertiesPatch =>
    configures propertiesPatch = true → ∀ u, u ≠ t → ¬s.Configuring u itemId
  | _ => True

end InboxTypes

end Semprec
