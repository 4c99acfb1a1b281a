import Semprec.InboxCaptures
import Semprec.Proofs.TrashRestore

/-!
# Items created under a key

What the writes of a run leave as it is (the schema, and but for a create under a key the
reservations), and what a create under a key returns: the item that the key's row names, or a new
one that it names from then on.
-/

namespace Semprec

namespace InboxCaptures

open TxState Items Relations

variable {env env' : Env} {L : Dates} {input : CreateInboxItemInput} {s s' : Store} {t t' : TxState}
  {key : String} {itemId : ℕ}

/-! ## What the operations leave as it is -/

/-- The tables that say what an item and an edge may be. -/
def schema (s : Store) : List DatabaseRow × List PropertyRow × List RelationDefinitionRow :=
  (s.databases, s.properties, s.relationDefinitions)

/-- The tables with the reservations. -/
def fixed (s : Store) :
    (List DatabaseRow × List PropertyRow × List RelationDefinitionRow) × List IdempotencyKeyRow :=
  (schema s, s.idempotencyKeys)

section keeps

variable {β : Type} {f : Store → β} {v : β}

theorem keeps_check {α : Type} (g : Store → Except Failure α) :
    Tx.Keeps (fun t : TxState => f t.store = v) (check g) := fun t a t' ht h => by
  obtain rfl := Tx.readOnly_query (fun t : TxState => g t.store) t (.ok a) t' h
  exact ht

theorem keeps_select {α : Type} (g : Store → α) :
    Tx.Keeps (fun t : TxState => f t.store = v) (select g) := Tx.keeps_gets _

theorem keeps_throw {α : Type} (e : Failure) :
    Tx.Keeps (fun t : TxState => f t.store = v) (.throw e : Tx TxState Failure α) :=
  fun _ _ _ _ h => nomatch h

theorem keeps_statement {α : Type} {g : Store → α × Store} (h : ∀ s, f (g s).2 = f s) :
    Tx.Keeps (fun t : TxState => f t.store = v) (statement g) :=
  Tx.triple_write fun t ht => (h t.store).trans ht

theorem keeps_enqueueForEdge (relationDefinitionId itemA itemB : ℕ) :
    Tx.Keeps (fun t : TxState => f t.store = v)
      (Rollup.enqueueRollupRecomputeForEdge relationDefinitionId itemA itemB) :=
  (keeps_select _).bind fun _ => Tx.Keeps.forM fun _ _ => Tx.triple_write fun _ h => h

end keeps

section fixed

variable {v : (List DatabaseRow × List PropertyRow × List RelationDefinitionRow) ×
  List IdempotencyKeyRow}

theorem fixed_upsertEdge (relationDefinitionId itemA itemB : ℕ) (metadata : JsonObject)
    (s : Store) : fixed (upsertEdge relationDefinitionId itemA itemB metadata s).2 = fixed s := by
  unfold upsertEdge
  split <;> rfl

theorem keeps_createRelation (hook : RelationEdgeWriteHook) (input : CreateRelationInput)
    (context : Option SystemRelationWriteContext) :
    Tx.Keeps (fun t : TxState => fixed t.store = v)
      (createRelationWithClient hook input context) := by
  refine (keeps_check _).bind fun edgeContext => Tx.Triple.bind ?_ fun edge =>
    (keeps_enqueueForEdge _ _ _).bind fun _ => Tx.keeps_pure _
  exact (keeps_check _).bind fun _ => keeps_statement fun s => fixed_upsertEdge _ _ _ _ s

theorem keeps_updateRelation (hook : RelationEdgeWriteHook) (input : UpdateRelationInput)
    (context : Option SystemRelationWriteContext) :
    Tx.Keeps (fun t : TxState => fixed t.store = v)
      (updateRelationWithClient hook input context) := by
  refine (keeps_check _).bind fun edgeContext =>
    Tx.Triple.bind (keeps_statement fun s => rfl) fun edge => ?_
  cases edge with
  | none => exact keeps_throw _
  | some edge => exact (keeps_enqueueForEdge _ _ _).bind fun _ => Tx.keeps_pure _

theorem keeps_deleteRelation (input : DeleteRelationInput)
    (context : Option SystemRelationWriteContext) :
    Tx.Keeps (fun t : TxState => fixed t.store = v) (deleteRelationWithClient input context) :=
  (keeps_check _).bind fun _ => Tx.Triple.bind (keeps_statement fun _ => rfl) fun _ =>
    (keeps_enqueueForEdge _ _ _).bind fun _ => Tx.keeps_pure _

end fixed

section create

variable {β : Type} {f : Store → β} {v : β}

theorem keeps_reserve (hkeys : ∀ (s : Store) keys, f { s with idempotencyKeys := keys } = f s)
    (key : String) (databaseId itemId : ℕ) :
    Tx.Keeps (fun t : TxState => f t.store = v) (reserveIdempotencyKey key databaseId itemId) := by
  refine (keeps_select _).bind fun reserved => ?_
  cases reserved with
  | none => exact (keeps_statement fun s => hkeys s _).bind fun _ => Tx.keeps_pure _
  | some reserved =>
    dsimp only
    split
    · exact keeps_throw _
    · refine (keeps_select _).bind fun existing => ?_
      split
      · exact Tx.keeps_pure _
      · exact (keeps_statement fun s => hkeys s _).bind fun _ => Tx.keeps_pure _

theorem keeps_insertUnless (env : Env)
    (hitems : ∀ (s : Store) items, f { s with items := items } = f s) (databaseId itemId : ℕ)
    (resolve : Store → Except Failure JsonObject) (existing : Option ItemRow) :
    Tx.Keeps (fun t : TxState => f t.store = v)
      (match existing with
      | some item => pure (item, false)
      | none => do
        let properties ← check resolve
        let item ← insertItem env itemId databaseId properties
        return (item, true)) := by
  cases existing with
  | some item => exact Tx.keeps_pure _
  | none => exact (keeps_check _).bind fun _ =>
      Tx.Triple.bind (keeps_statement fun s => hitems s _) fun _ => Tx.keeps_pure _

theorem keeps_createItem (hid : ∀ (s : Store) n, f { s with nextId := n } = f s)
    (hitems : ∀ (s : Store) items, f { s with items := items } = f s) (input : CreateItemInput)
    (hkeys : input.idempotencyKey = none ∨ input.idempotencyKey = some "" ∨
      ∀ (s : Store) keys, f { s with idempotencyKeys := keys } = f s) (options : WriteOptions) :
    Tx.Keeps (fun t : TxState => f t.store = v) (createItemWithClient env input options) := by
  have hinsert : ∀ resolve, Tx.Keeps (fun t : TxState => f t.store = v)
      (insertItemWithReplay env input.databaseId input.idempotencyKey resolve) := by
    intro resolve
    have hrest := fun itemId =>
      keeps_insertUnless (v := v) env hitems input.databaseId itemId resolve
    refine Tx.Triple.bind (keeps_statement fun s => hid s _) fun itemId => ?_
    dsimp only
    split
    · exact (Tx.keeps_pure _).bind fun existing => hrest itemId existing
    · exact (Tx.keeps_pure _).bind fun existing => hrest itemId existing
    · rename_i hne heq
      rcases hkeys with hkeys | hkeys | hkeys
      · cases hkeys.symm.trans heq
      · exact absurd (Option.some.inj (heq.symm.trans hkeys)) (fun h => hne (h ▸ rfl))
      · exact (keeps_reserve hkeys _ _ _).bind fun existing => hrest itemId existing
  refine (keeps_check _).bind fun replay => ?_
  cases replay with
  | some replay => exact Tx.keeps_pure _
  | none =>
    refine (keeps_select _).bind fun _ => (keeps_check _).bind fun _ => (keeps_check _).bind
      fun database => (hinsert _).bind fun inserted => ?_
    dsimp only
    split
    · exact (keeps_check _).bind fun _ => Tx.keeps_pure _
    · exact Tx.keeps_pure _

end create

section operations

variable {v : (List DatabaseRow × List PropertyRow × List RelationDefinitionRow) ×
  List IdempotencyKeyRow}

theorem keeps_copyRelationEdges (fromItemId toItemId : ℕ) :
    Tx.Keeps (fun t : TxState => fixed t.store = v)
      (copyRelationEdges env fromItemId toItemId) := by
  refine (keeps_select _).bind fun edges => Tx.Keeps.forM fun e _ => ?_
  refine (keeps_select _).bind fun side => ?_
  cases side with
  | none => exact Tx.keeps_pure _
  | some relationPropertyId =>
    exact (keeps_createRelation _ _ _).bind fun _ => Tx.keeps_pure _

theorem keeps_advance (databaseId itemId : ℕ) (timezone : String) :
    Tx.Keeps (fun t : TxState => fixed t.store = v)
      (advanceTaskRecurrenceWithClient env databaseId itemId timezone) := by
  refine (keeps_select _).bind fun recurrence => ?_
  split
  · exact Tx.keeps_pure _
  · refine (keeps_select _).bind fun current => ?_
    cases current with
    | none => exact keeps_throw _
    | some current =>
      refine (keeps_check _).bind fun _ =>
        (keeps_createItem (fun _ _ => rfl) (fun _ _ => rfl) _ (.inl rfl) _).bind fun newItem => ?_
      exact (keeps_statement fun _ => rfl).bind fun _ => (keeps_statement fun _ => rfl).bind
        fun _ => keeps_copyRelationEdges _ _

theorem keeps_updateItem (input : UpdateItemInput) (options : WriteOptions) :
    Tx.Keeps (fun t : TxState => fixed t.store = v) (updateItemWithClient env input options) := by
  have hproperties : ∀ patch, Tx.Keeps (fun t : TxState => fixed t.store = v)
      (updateItemProperties env input.databaseId input.itemId patch input.ifVersion) := by
    intro patch
    refine (keeps_check _).bind fun current => Tx.Triple.bind (keeps_statement fun _ => rfl)
      fun written => ?_
    cases written with
    | none => exact keeps_throw _
    | some item => exact Tx.keeps_pure _
  have hhook : ∀ database item patch, Tx.Keeps (fun t : TxState => fixed t.store = v)
      (taskRecurrenceItemUpdateHook env database item patch) := by
    intro database item patch
    unfold taskRecurrenceItemUpdateHook
    split
    · exact (keeps_check _).bind fun _ => keeps_advance _ _ _
    · exact Tx.keeps_pure _
  have henqueue : ∀ key, Tx.Keeps (fun t : TxState => fixed t.store = v)
      (enqueueForKey input.databaseId input.itemId key) := fun key =>
    (keeps_select _).bind fun _ => Tx.Keeps.forM fun _ _ => (keeps_select _).bind fun _ =>
      Tx.Keeps.forM fun _ _ => (keeps_check _).bind fun _ => Tx.triple_write fun _ h => h
  exact (keeps_check _).bind fun _ => (keeps_select _).bind fun _ => (keeps_check _).bind fun _ =>
    (keeps_check _).bind fun _ => (keeps_check _).bind fun _ => (hproperties _).bind fun _ =>
    (keeps_check _).bind fun _ => (hhook _ _ _).bind fun _ =>
    (Tx.Keeps.forM fun key _ => henqueue key).bind fun _ => (keeps_check _).bind fun _ =>
    Tx.keeps_pure _

theorem keeps_cascade {write : ItemRow → Store → Option ItemRow × Store}
    (hwrite : ∀ row s, fixed (write row s).2 = fixed s) (itemId : ℕ) (rows : List ItemRow) :
    Tx.Keeps (fun t : TxState => fixed t.store = v)
      (rows.foldlM (Trash.cascadeRow write itemId) none) := by
  refine Tx.Keeps.foldlM fun row _ acc => ?_
  refine Tx.Triple.bind (keeps_statement fun s => hwrite row s) fun item => ?_
  cases item with
  | none => exact Tx.keeps_pure _
  | some item =>
    exact ((keeps_select _).bind fun _ => Tx.Keeps.forM fun _ _ => keeps_enqueueForEdge _ _ _).bind
      fun _ => Tx.keeps_pure _

theorem keeps_deleteItem (databaseId itemId : ℕ) :
    Tx.Keeps (fun t : TxState => fixed t.store = v)
      (Trash.itemDeleteWithClient env databaseId itemId) := by
  refine (keeps_check _).bind fun before => ?_
  cases before with
  | none => exact Tx.keeps_pure _
  | some before =>
    dsimp only
    split
    · exact Tx.keeps_pure _
    · exact (keeps_check _).bind fun rows => keeps_cascade (fun _ _ => rfl) _ rows

theorem keeps_restoreItem (databaseId itemId : ℕ) :
    Tx.Keeps (fun t : TxState => fixed t.store = v)
      (Trash.restoreItemWithClient databaseId itemId) := by
  refine (keeps_check _).bind fun _ => (keeps_select _).bind fun before => ?_
  cases before with
  | none => exact Tx.keeps_pure _
  | some before =>
    dsimp only
    split
    · exact Tx.keeps_pure _
    · refine (keeps_check _).bind fun rows => keeps_cascade (fun row s => ?_) _ rows
      unfold Trash.restoreRow
      split <;> rfl

end operations

/-! ## A create under a key -/

/-- The checks of a create that only read the schema. -/
def Creatable (s : Store) (input : CreateItemInput) (options : WriteOptions) : Prop :=
  ∃ database, s.requireDatabase input.databaseId = .ok database ∧
    (database.archivedAt = none → assertWritableProperties
      (s.listPropertiesByDatabase input.databaseId) (input.properties.map Prod.fst) options =
        .ok ())

theorem Creatable.congr {input : CreateItemInput} {options : WriteOptions}
    (h : Creatable s input options) (hschema : schema s' = schema s) :
    Creatable s' input options := by
  obtain ⟨hdatabases, hrest⟩ := Prod.mk.inj hschema
  obtain ⟨hproperties, -⟩ := Prod.mk.inj hrest
  unfold Creatable Store.requireDatabase Store.getDatabase Store.listPropertiesByDatabase
  rw [hdatabases, hproperties]
  exact h

/-- Only the ids that have been handed out differ. -/
def SameTables (t t' : TxState) : Prop := ∃ n, t'.store = { t.store with nextId := n }

/-- The item that was reserved, or a new one that now is. -/
def Created (t t' : TxState) (databaseId : ℕ) (key : String) (item : ItemRow) : Prop :=
  findIdempotentReplay t.store databaseId key = some item ∧ SameTables t t' ∨
    t'.store.items = t.store.items ++ [item] ∧ item.databaseId = databaseId ∧
      t'.store.itemRelations = t.store.itemRelations ∧
        (t'.store.idempotencyKeys.find? fun k => k.key = key) = some ⟨key, databaseId, item.id⟩ ∧
          findIdempotentReplay t.store databaseId key = none ∧
            (∀ row, (t.store.idempotencyKeys.find? fun k => k.key = key) = some row →
              row.databaseId = databaseId) ∧
            ∀ key', key' ≠ key → (t'.store.idempotencyKeys.find? fun k => k.key = key') =
              t.store.idempotencyKeys.find? fun k => k.key = key'

theorem find?_reserveKey {databaseId : ℕ} {keys : List IdempotencyKeyRow}
    (hnone : (keys.find? fun k => k.key = key) = none) :
    ((keys ++ [(⟨key, databaseId, itemId⟩ : IdempotencyKeyRow)]).find? fun k => k.key = key) =
      some ⟨key, databaseId, itemId⟩ := by
  rw [List.find?_append, hnone]
  simp

theorem find?_reserveKey_ne {databaseId : ℕ} {keys : List IdempotencyKeyRow} {key' : String}
    (hne : key' ≠ key) :
    ((keys ++ [(⟨key, databaseId, itemId⟩ : IdempotencyKeyRow)]).find? fun k => k.key = key') =
      keys.find? fun k => k.key = key' := by
  rw [List.find?_append]
  simp [Ne.symm hne]

theorem find?_releaseKey {keys : List IdempotencyKeyRow} :
    ((keys.filter fun k => k.key ≠ key).find? fun k => k.key = key) = none := by
  rw [List.find?_eq_none]
  intro k hk heq
  exact of_decide_eq_true (List.mem_filter.mp hk).2 (of_decide_eq_true heq)

theorem find?_releaseKey_ne {keys : List IdempotencyKeyRow} {key' : String} (hne : key' ≠ key) :
    ((keys.filter fun k => k.key ≠ key).find? fun k => k.key = key') =
      keys.find? fun k => k.key = key' := by
  rw [List.find?_filter]
  congr 1
  funext k
  by_cases hk : k.key = key'
  · simp [hk, hne]
  · simp [hk]

theorem reserve_run {databaseId : ℕ} {existing : Option ItemRow}
    (h : (reserveIdempotencyKey key databaseId itemId).run t = (.ok existing, t')) :
    existing = findIdempotentReplay t.store databaseId key ∧
      (existing.isSome = true ∧ t' = t ∨
        existing = none ∧ (∀ row, (t.store.idempotencyKeys.find? fun k => k.key = key) = some row →
            row.databaseId = databaseId) ∧
          ∃ keys, t'.store = { t.store with idempotencyKeys := keys } ∧
          (keys.find? fun k => k.key = key) = some ⟨key, databaseId, itemId⟩ ∧
            ∀ key', key' ≠ key → (keys.find? fun k => k.key = key') =
              t.store.idempotencyKeys.find? fun k => k.key = key') := by
  unfold reserveIdempotencyKey at h
  rw [select, Tx.run_gets_bind] at h
  unfold findIdempotentReplay
  cases hfind : t.store.idempotencyKeys.find? fun k => k.key = key with
  | none =>
    rw [hfind] at h
    cases h
    exact ⟨rfl, .inr ⟨rfl, fun row hrow => (by cases hrow), _, rfl,
      find?_reserveKey hfind, fun key' hne => find?_reserveKey_ne hne⟩⟩
  | some reserved =>
    rw [hfind] at h
    dsimp only at h ⊢
    split at h
    case isTrue => cases h
    case isFalse hdb =>
      rw [if_pos (not_not.mp hdb)]
      rw [select, Tx.run_gets_bind] at h
      cases hlive : (t.store.getItemById databaseId reserved.itemId).filter
          fun item => item.deletedAt = none with
      | some item =>
        rw [hlive] at h
        cases h
        exact ⟨rfl, .inl ⟨rfl, rfl⟩⟩
      | none =>
        rw [hlive] at h
        cases h
        refine ⟨rfl, .inr ⟨rfl, fun row hrow => ?_, _, rfl, find?_reserveKey find?_releaseKey,
          fun key' hne => ?_⟩⟩
        · obtain rfl := Option.some.inj hrow
          exact not_not.mp hdb
        exact (find?_reserveKey_ne hne).trans (find?_releaseKey_ne hne)

theorem insertItemWithReplay_key (hne : key ≠ "") (databaseId : ℕ)
    (resolve : Store → Except Failure JsonObject) :
    insertItemWithReplay env databaseId (some key) resolve = (do
      let itemId ← randomUUID
      let existing ← reserveIdempotencyKey key databaseId itemId
      match existing with
      | some item => return (item, false)
      | none =>
        let properties ← check resolve
        let item ← insertItem env itemId databaseId properties
        return (item, true)) := by
  unfold insertItemWithReplay
  congr 1
  funext itemId
  split
  · contradiction
  · rename_i heq
    exact absurd (Option.some.inj heq) hne
  · rename_i heq
    obtain rfl := Option.some.inj heq
    rfl

theorem findIdempotentReplay_nextId (s : Store) (n databaseId : ℕ) (key : String) :
    findIdempotentReplay { s with nextId := n } databaseId key =
      findIdempotentReplay s databaseId key := rfl

theorem insert_run {databaseId : ℕ} {resolve : Store → Except Failure JsonObject}
    {inserted : ItemRow × Bool} (hne : key ≠ "")
    (h : (insertItemWithReplay env databaseId (some key) resolve).run t = (.ok inserted, t')) :
    Created t t' databaseId key inserted.1 := by
  rw [insertItemWithReplay_key hne] at h
  obtain ⟨itemId, t₁, hid, h⟩ := Tx.run_bind_ok.mp h
  cases hid
  obtain ⟨existing, t₂, hreserve, h⟩ := Tx.run_bind_ok.mp h
  obtain ⟨hexisting, hcases⟩ := reserve_run hreserve
  rw [findIdempotentReplay_nextId] at hexisting
  rcases hcases with ⟨hsome, rfl⟩ | ⟨hnone, hdb, keys, hstore, hnew, hother⟩
  · obtain ⟨item, hitem⟩ := Option.isSome_iff_exists.mp hsome
    rw [hitem] at h hexisting
    cases h
    exact .inl ⟨hexisting.symm, _, rfl⟩
  · rw [hnone] at h hexisting
    obtain ⟨properties, -, h⟩ := Tx.run_query_bind_ok.mp h
    obtain ⟨item, t₃, hinsert, h⟩ := Tx.run_bind_ok.mp h
    cases hinsert
    cases h
    refine .inr ⟨?_, rfl, ?_, ?_, hexisting.symm, hdb, fun key' hk => ?_⟩
    · show t₂.store.items ++ _ = _
      rw [hstore]
    · show t₂.store.itemRelations = _
      rw [hstore]
    · show (t₂.store.idempotencyKeys.find? _) = _
      rw [hstore]
      exact hnew
    · show (t₂.store.idempotencyKeys.find? _) = _
      rw [hstore]
      exact hother key' hk

theorem createItem_run {input : CreateItemInput} {options : WriteOptions} {item : ItemRow}
    (hkey : input.idempotencyKey = some key) (hne : key ≠ "")
    (h : (createItemWithClient env input options).run t = (.ok item, t')) :
    Created t t' input.databaseId key item ∧ Creatable t.store input options := by
  obtain ⟨replay, hreplay, h⟩ := Tx.run_query_bind_ok.mp h
  unfold assertDatabaseWritableForCreate at hreplay
  obtain ⟨database, hdatabase, hreplay⟩ := except_bind_ok.mp hreplay
  split at hreplay
  case isTrue hopen =>
    cases hreplay
    rw [select, Tx.run_gets_bind] at h
    obtain ⟨⟨⟩, hwritable, h⟩ := Tx.run_query_bind_ok.mp h
    obtain ⟨owner, -, h⟩ := Tx.run_query_bind_ok.mp h
    obtain ⟨inserted, t₁, hinsert, h⟩ := Tx.run_bind_ok.mp h
    rw [hkey] at hinsert
    have hcreated := insert_run hne hinsert
    suffices hsame : item = inserted.1 ∧ t' = t₁ by
      obtain ⟨rfl, rfl⟩ := hsame
      exact ⟨hcreated, database, hdatabase, fun _ => hwritable⟩
    dsimp only at h
    split at h
    · obtain ⟨⟨⟩, -, h⟩ := Tx.run_query_bind_ok.mp h
      cases h
      exact ⟨rfl, rfl⟩
    · cases h
      exact ⟨rfl, rfl⟩
  case isFalse harchived =>
    refine ⟨.inl ?_, database, hdatabase, fun hopen => absurd hopen harchived⟩
    rw [hkey, Option.filter_some, if_pos (decide_eq_true hne), Option.bind_some] at hreplay
    cases hfind : findIdempotentReplay t.store input.databaseId key with
    | none =>
      rw [hfind] at hreplay
      cases hreplay
    | some found =>
      rw [hfind] at hreplay
      cases hreplay
      cases h
      exact ⟨rfl, t.store.nextId, rfl⟩

theorem reserve_found {databaseId : ℕ} {item : ItemRow}
    (hfind : findIdempotentReplay t.store databaseId key = some item) (itemId : ℕ) :
    (reserveIdempotencyKey key databaseId itemId).run t = (.ok (some item), t) := by
  unfold findIdempotentReplay at hfind
  unfold reserveIdempotencyKey
  rw [select, Tx.run_gets_bind]
  cases hrow : t.store.idempotencyKeys.find? fun k => k.key = key with
  | none =>
    rw [hrow] at hfind
    cases hfind
  | some reserved =>
    rw [hrow] at hfind
    dsimp only at hfind ⊢
    split at hfind
    case isTrue hdb =>
      rw [if_neg (not_not.mpr hdb), select, Tx.run_gets_bind, hfind]
      rfl
    case isFalse => cases hfind

theorem createItem_replay (env : Env) (t : TxState) {input : CreateItemInput}
    {options : WriteOptions} {item : ItemRow} (hkey : input.idempotencyKey = some key)
    (hne : key ≠ "") (hcreatable : Creatable t.store input options)
    (hfind : findIdempotentReplay t.store input.databaseId key = some item) :
    ∃ t', (createItemWithClient env input options).run t = (.ok item, t') ∧ SameTables t t' := by
  obtain ⟨database, hdatabase, hwritable⟩ := hcreatable
  by_cases hopen : database.archivedAt = none
  · have hreplay : assertDatabaseWritableForCreate t.store input.databaseId
        input.idempotencyKey = .ok none := by
      unfold assertDatabaseWritableForCreate
      exact except_bind_ok.mpr ⟨database, hdatabase, if_pos hopen⟩
    let bumped : TxState := ⟨{ t.store with nextId := t.store.nextId + 1 }, t.jobs⟩
    have hfound : findIdempotentReplay bumped.store input.databaseId key = some item := hfind
    refine ⟨bumped, ?_, t.store.nextId + 1, rfl⟩
    refine Tx.run_query_bind_ok.mpr ⟨none, hreplay, ?_⟩
    dsimp only
    rw [select, Tx.run_gets_bind]
    refine Tx.run_query_bind_ok.mpr ⟨(), hwritable hopen, ?_⟩
    refine Tx.run_query_bind_ok.mpr ⟨database, hdatabase, ?_⟩
    refine Tx.run_bind_ok.mpr ⟨(item, false), bumped, ?_, rfl⟩
    rw [hkey, insertItemWithReplay_key hne]
    exact Tx.run_bind_ok.mpr ⟨t.store.nextId, bumped, rfl,
      Tx.run_bind_ok.mpr ⟨some item, bumped, reserve_found hfound _, rfl⟩⟩
  · have hreplay : assertDatabaseWritableForCreate t.store input.databaseId
        input.idempotencyKey = .ok (some item) := by
      unfold assertDatabaseWritableForCreate
      refine except_bind_ok.mpr ⟨database, hdatabase, ?_⟩
      rw [if_neg hopen, hkey, Option.filter_some, if_pos (decide_eq_true hne), Option.bind_some,
        hfind]
      rfl
    exact ⟨t, Tx.run_query_bind_ok.mpr ⟨some item, hreplay, rfl⟩, t.store.nextId, rfl⟩

end InboxCaptures

end Semprec
