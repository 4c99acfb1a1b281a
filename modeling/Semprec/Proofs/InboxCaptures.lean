import Semprec.Proofs.ItemReplays
import Semprec.Proofs.JournalItems
import Semprec.Proofs.OperationReplay

/-!
# A capture run again

Only the item's insert knows that it is a replay: the edges are created again.  So a replay leaves
all as it is exactly when the edges to the type and to the day that it names are there and could be
created now.
-/

namespace Semprec

namespace InboxCaptures

open TxState Items Relations

variable {env env' : Env} {L : Dates} {input : CreateInboxItemInput} {s s' : Store} {t t' : TxState}
  {key : String} {itemId : ℕ}

/-! ## An edge created again -/

section edges

variable {d d' a a' b b' : ℕ} {l : List ItemRelationRow} {e : ItemRelationRow}

def cleared (d a b : ℕ) (e : ItemRelationRow) : ItemRelationRow :=
  if isEdge d a b e then { e with metadata := [] } else e

theorem metadata_cleared (h : isEdge d a b e = true ∨ e.metadata = []) :
    (cleared d a b e).metadata = [] := by
  unfold cleared
  split
  · rfl
  · exact h.resolve_left ‹_›

/-- The edge is there, and as a create without metadata would leave it. -/
def EdgeInPlace (d a b : ℕ) (l : List ItemRelationRow) : Prop :=
  (∃ e ∈ l, isEdge d a b e = true) ∧ ∀ e ∈ l, isEdge d a b e = true → e.metadata = []

theorem cleared_of_edgeInPlace (h : EdgeInPlace d a b l) (he : e ∈ l) : cleared d a b e = e := by
  unfold cleared
  split
  case isTrue hedge =>
    obtain ⟨id, relationDefinitionId, itemA, itemB, metadata⟩ := e
    obtain rfl := h.2 _ he hedge
    rfl
  case isFalse => rfl

/-- A create updates the edge or appends it. -/
theorem itemRelations_upsertEdge (s : Store) :
    (upsertEdge d a b [] s).2.itemRelations = s.itemRelations.map (cleared d a b) ∧
        (∃ e ∈ s.itemRelations, isEdge d a b e = true) ∨
      (upsertEdge d a b [] s).2.itemRelations.length = s.itemRelations.length + 1 := by
  unfold upsertEdge
  cases hfind : s.itemRelations.find? (isEdge d a b) with
  | some e => exact .inl ⟨rfl, e, List.mem_of_find?_eq_some hfind, List.find?_some hfind⟩
  | none => exact .inr List.length_append

theorem length_le_upsertEdge (s : Store) :
    s.itemRelations.length ≤ (upsertEdge d a b [] s).2.itemRelations.length := by
  rcases itemRelations_upsertEdge s with ⟨h, -⟩ | h
  · rw [h, List.length_map]
  · rw [h]
    exact Nat.le_succ _

theorem upsertEdge_inPlace (h : EdgeInPlace d a b s.itemRelations) :
    (upsertEdge d a b [] s).2 = s := by
  obtain ⟨e, he, hedge⟩ := h.1
  have hsame : s.itemRelations.map (cleared d a b) = s.itemRelations :=
    (List.map_congr_left fun e he => cleared_of_edgeInPlace h he).trans (List.map_id _)
  unfold upsertEdge
  cases hfind : s.itemRelations.find? (isEdge d a b) with
  | none => exact absurd hedge (List.find?_eq_none.mp hfind e he)
  | some e =>
    show ({ s with itemRelations := s.itemRelations.map (cleared d a b) } : Store) = s
    rw [hsame]

/-- Edges that a create, and perhaps another, leaves as they are. -/
theorem edgeInPlace_of_map {f : ItemRelationRow → ItemRelationRow}
    (hf : ∀ e, e.metadata = [] → (f e).metadata = [])
    (h : l.map (f ∘ cleared d a b) = l) (hex : ∃ e ∈ l, isEdge d a b e = true) :
    EdgeInPlace d a b l := by
  refine ⟨hex, fun e he hedge => ?_⟩
  have hsame : f (cleared d a b e) = e := List.map_inj_left.mp (h.trans (List.map_id l).symm) e he
  exact hsame ▸ hf _ (metadata_cleared (.inl hedge))

theorem edgeInPlace_of_upsertEdge
    (h : (upsertEdge d a b [] s).2.itemRelations = s.itemRelations) :
    EdgeInPlace d a b s.itemRelations := by
  rcases itemRelations_upsertEdge s with ⟨hmap, hex⟩ | hlength
  · exact edgeInPlace_of_map (f := id) (fun _ h => h) (hmap.symm.trans h) hex
  · rw [h] at hlength
    exact absurd hlength (Nat.succ_ne_self _).symm

/-- Of two creates after which the edges are as before, the first changed nothing. -/
theorem edgeInPlace_of_upsertEdge₂ (s s' : Store)
    (hbetween : s'.itemRelations = (upsertEdge d a b [] s).2.itemRelations)
    (h : (upsertEdge d' a' b' [] s').2.itemRelations = s.itemRelations) :
    EdgeInPlace d a b s.itemRelations := by
  have hfirst := length_le_upsertEdge (d := d) (a := a) (b := b) s
  have hsecond := length_le_upsertEdge (d := d') (a := a') (b := b') s'
  rw [h] at hsecond
  rw [← hbetween] at hfirst
  rcases itemRelations_upsertEdge (d := d) (a := a) (b := b) s with ⟨hmap, hex⟩ | hlength
  · rcases itemRelations_upsertEdge (d := d') (a := a') (b := b') s' with ⟨hmap', -⟩ | hlength
    · refine edgeInPlace_of_map (f := cleared d' a' b')
        (fun e he => metadata_cleared (.inr he)) ?_ hex
      rw [← List.map_map, ← hmap, ← hbetween, ← hmap', h]
    · rw [h] at hlength
      omega
  · rw [← hbetween] at hlength
    omega

end edges

/-! ## One link -/

section link

variable {hook : RelationEdgeWriteHook} {context : Option SystemRelationWriteContext}
  {property : PropertyRow} {edgeContext : RelationEdgeContext} {i j : ℕ}

/-- What the schema says of an edge from an item, whatever its ends. -/
structure Accepts (hook : RelationEdgeWriteHook) (context : Option SystemRelationWriteContext)
    (s : Store) (property : PropertyRow) (edgeContext : RelationEdgeContext) : Prop where
  loads : loadRelationEdgeContext s property.id = .ok edgeContext
  open_ : assertRelationDatabasesNotArchived s edgeContext = .ok ()
  writable : assertRelationPropertyWritable edgeContext.property context = .ok ()
  hooked : ∀ i j, hook s edgeContext i j none = .ok ()

theorem Accepts.congr (hjudges : JudgesRelation hook)
    (h : Accepts hook context s property edgeContext) (hschema : schema s' = schema s) :
    Accepts hook context s' property edgeContext := by
  obtain ⟨hdatabases, hrest⟩ := Prod.mk.inj hschema
  obtain ⟨hproperties, hdefinitions⟩ := Prod.mk.inj hrest
  refine ⟨?_, ?_, h.writable, fun i j => (hjudges s' s edgeContext i j i j hdatabases).trans
    (h.hooked i j)⟩
  · rw [← h.loads]
    unfold loadRelationEdgeContext Store.getProperty Store.getRelationDefinition
    rw [hproperties, hdefinitions]
  · rw [← h.open_]
    unfold assertRelationDatabasesNotArchived Store.assertDatabaseNotArchived Store.requireDatabase
      Store.getDatabase
    rw [hdatabases]

/-- What the tables say of this edge. -/
structure Fits (s : Store) (property : PropertyRow) (edgeContext : RelationEdgeContext)
    (i j : ℕ) : Prop where
  endpoints : assertRelationEndpointsValid s edgeContext i j = .ok ()
  cardinality : assertCardinality s edgeContext.reldef.id
    (normalizeRelationSides edgeContext.reldef property.id i j).1
    (normalizeRelationSides edgeContext.reldef property.id i j).2 = .ok ()

/-- The edges with this one. -/
def link (property : PropertyRow) (edgeContext : RelationEdgeContext) (i j : ℕ) (s : Store) :
    Store :=
  (upsertEdge edgeContext.reldef.id
    (normalizeRelationSides edgeContext.reldef property.id i j).1
    (normalizeRelationSides edgeContext.reldef property.id i j).2 [] s).2

theorem enqueueForEdge_run (d a b : ℕ) (t : TxState) :
    ∃ t', (Rollup.enqueueRollupRecomputeForEdge d a b).run t = (.ok (), t') ∧
      t'.store = t.store := by
  rcases hrun : (Rollup.enqueueRollupRecomputeForEdge d a b).run t with ⟨e | u, t'⟩
  · exact absurd hrun (OperationReplay.infallible_enqueueForEdge d a b t e t')
  · exact ⟨t', rfl, keeps_enqueueForEdge (f := id) d a b t u t' rfl hrun⟩

theorem createRelation_ok {edge : ItemRelationRow} (hjudges : JudgesRelation hook)
    (h : (createRelationWithClient hook ⟨property.id, i, j, none⟩ context).run t = (.ok edge, t')) :
    ∃ edgeContext, Accepts hook context t.store property edgeContext ∧
      Fits t.store property edgeContext i j ∧ t'.store = link property edgeContext i j t.store := by
  obtain ⟨edgeContext, hloads, h⟩ := Tx.run_query_bind_ok.mp h
  obtain ⟨edgeContext, hload, hloads⟩ := except_bind_ok.mp hloads
  obtain ⟨⟨⟩, hopen, hloads⟩ := except_bind_ok.mp hloads
  obtain ⟨⟨⟩, hwritable, hloads⟩ := except_bind_ok.mp hloads
  obtain ⟨⟨⟩, hendpoints, hloads⟩ := except_bind_ok.mp hloads
  obtain ⟨⟨⟩, hhook, hloads⟩ := except_bind_ok.mp hloads
  cases hloads
  obtain ⟨edge, t₁, hedge, h⟩ := Tx.run_bind_ok.mp h
  obtain ⟨⟨⟩, hcardinality, hedge⟩ := Tx.run_query_bind_ok.mp hedge
  cases hedge
  obtain ⟨⟨⟩, t₂, henqueue, h⟩ := Tx.run_bind_ok.mp h
  cases h
  refine ⟨edgeContext, ⟨hload, hopen, hwritable, fun i' j' =>
    (hjudges _ _ edgeContext i' j' i j rfl).trans hhook⟩, ⟨hendpoints, hcardinality⟩, ?_⟩
  exact keeps_enqueueForEdge (f := id) _ _ _ _ _ _ rfl henqueue

theorem createRelation_run (haccepts : Accepts hook context t.store property edgeContext)
    (hfits : Fits t.store property edgeContext i j) :
    ∃ edge t', (createRelationWithClient hook ⟨property.id, i, j, none⟩ context).run t =
      (.ok edge, t') ∧ t'.store = link property edgeContext i j t.store := by
  have hcontext : loadCreatableRelationEdgeContext hook t.store property.id i j none context =
      .ok edgeContext :=
    except_bind_ok.mpr ⟨edgeContext, haccepts.loads, except_bind_ok.mpr ⟨(), haccepts.open_,
      except_bind_ok.mpr ⟨(), haccepts.writable, except_bind_ok.mpr ⟨(), hfits.endpoints,
        except_bind_ok.mpr ⟨(), haccepts.hooked i j, rfl⟩⟩⟩⟩⟩
  let linked : TxState := ⟨link property edgeContext i j t.store, t.jobs⟩
  obtain ⟨t', henqueue, hstore⟩ := enqueueForEdge_run edgeContext.reldef.id
    (normalizeRelationSides edgeContext.reldef property.id i j).1
    (normalizeRelationSides edgeContext.reldef property.id i j).2 linked
  have hedge : ∃ edge, (createItemRelation edgeContext.reldef.id
      (normalizeRelationSides edgeContext.reldef property.id i j).1
      (normalizeRelationSides edgeContext.reldef property.id i j).2 none).run t =
        (.ok edge, linked) :=
    ⟨_, Tx.run_query_bind_ok.mpr ⟨(), hfits.cardinality, rfl⟩⟩
  obtain ⟨edge, hedge⟩ := hedge
  exact ⟨edge, t', Tx.run_query_bind_ok.mpr ⟨edgeContext, hcontext,
    Tx.run_bind_ok.mpr ⟨edge, linked, hedge, Tx.run_bind_ok.mpr ⟨(), t', henqueue, rfl⟩⟩⟩, hstore⟩

theorem getRelationProperty_congr (hschema : schema s' = schema s) (databaseId : ℕ) (key : String) :
    getRelationProperty s' databaseId key = getRelationProperty s databaseId key := by
  obtain ⟨-, hrest⟩ := Prod.mk.inj hschema
  obtain ⟨hproperties, -⟩ := Prod.mk.inj hrest
  unfold getRelationProperty Store.listPropertiesByDatabase
  rw [hproperties]

theorem linkItem_ok {context : Option SystemRelationWriteContext}
    (hjudges : JudgesRelation env.relationEdgeWriteHook)
    (h : (linkItem env input key i j context).run t = (.ok (), t')) :
    ∃ property edgeContext,
      getRelationProperty t.store input.inboxDatabaseId key = .ok property ∧
        Accepts env.relationEdgeWriteHook context t.store property edgeContext ∧
          Fits t.store property edgeContext i j ∧
            t'.store = link property edgeContext i j t.store := by
  obtain ⟨property, hproperty, h⟩ := Tx.run_query_bind_ok.mp h
  obtain ⟨edge, t₁, hcreate, h⟩ := Tx.run_bind_ok.mp h
  cases h
  obtain ⟨edgeContext, haccepts, hfits, hstore⟩ := createRelation_ok hjudges hcreate
  exact ⟨property, edgeContext, hproperty, haccepts, hfits, hstore⟩

theorem inPlace_iff (hproperty : getRelationProperty s input.inboxDatabaseId key = .ok property)
    (hload : loadRelationEdgeContext s property.id = .ok edgeContext) :
    InPlace input s key i j ↔ Fits s property edgeContext i j ∧
      EdgeInPlace edgeContext.reldef.id
        (normalizeRelationSides edgeContext.reldef property.id i j).1
        (normalizeRelationSides edgeContext.reldef property.id i j).2 s.itemRelations := by
  constructor
  · rintro ⟨property', edgeContext', hproperty', hload', hendpoints, hcardinality, hedge⟩
    obtain rfl := Except.ok.inj (hproperty.symm.trans hproperty')
    obtain rfl := Except.ok.inj (hload.symm.trans hload')
    exact ⟨⟨hendpoints, hcardinality⟩, hedge⟩
  · rintro ⟨⟨hendpoints, hcardinality⟩, hedge⟩
    exact ⟨property, edgeContext, hproperty, hload, hendpoints, hcardinality, hedge⟩

end link

/-! ## The reservation of a captured item -/

theorem isAt_iff {r : ItemRow} {databaseId i : ℕ} :
    r.isAt databaseId i = true ↔ r.databaseId = databaseId ∧ r.id = i := by
  unfold ItemRow.isAt
  exact decide_eq_true_iff

section reserved

variable {databaseId i : ℕ} {item : ItemRow}

def Reserved (databaseId : ℕ) (key : String) (i : ℕ) (s : Store) : Prop :=
  (s.idempotencyKeys.find? fun k => k.key = key) = some ⟨key, databaseId, i⟩

theorem reserved_of_finds (h : findIdempotentReplay s databaseId key = some item) :
    Reserved databaseId key item.id s ∧ s.getItemById databaseId item.id = some item ∧
      item.deletedAt = none := by
  unfold findIdempotentReplay at h
  unfold Reserved
  cases hrow : s.idempotencyKeys.find? fun k => k.key = key with
  | none =>
    rw [hrow] at h
    cases h
  | some reserved =>
    rw [hrow] at h
    dsimp only at h
    split at h
    case isTrue hdatabase =>
      obtain ⟨hget, hlive⟩ := Option.filter_eq_some_iff.mp h
      have hkey : reserved.key = key :=
        of_decide_eq_true
          (List.find?_some (p := fun k : IdempotencyKeyRow => decide (k.key = key)) hrow)
      have hid : item.id = reserved.itemId :=
        (isAt_iff.mp (List.find?_some (p := fun r : ItemRow => r.isAt databaseId reserved.itemId)
          hget)).2
      obtain ⟨reservedKey, reservedDatabase, reservedItem⟩ := reserved
      dsimp only at hdatabase hkey hid hget
      subst hdatabase hkey hid
      exact ⟨rfl, hget, of_decide_eq_true hlive⟩
    case isFalse => cases h

theorem Reserved.finds (h : Reserved databaseId key i s)
    (hitem : s.getItemById databaseId i = some item) (hlive : item.deletedAt = none) :
    findIdempotentReplay s databaseId key = some item := by
  unfold findIdempotentReplay
  rw [h]
  dsimp only
  rw [if_pos rfl, hitem, Option.filter_some, if_pos (decide_eq_true hlive)]

theorem Created.reserved_self (h : Created t t' databaseId key item) :
    Reserved databaseId key item.id t'.store := by
  rcases h with ⟨hfind, n, hstore⟩ | ⟨-, -, -, hreserved, -⟩
  · unfold Reserved
    rw [hstore]
    exact (reserved_of_finds hfind).1
  · exact hreserved

theorem Created.reserved {databaseId' : ℕ} {key' : String}
    (h : Created t t' databaseId' key' item) (hreserved : Reserved databaseId key i t.store)
    (hlive : IsLive t.store databaseId i) : Reserved databaseId key i t'.store := by
  rcases h with ⟨-, n, hstore⟩ | ⟨-, -, -, -, hnone, hdatabase, hother⟩
  · unfold Reserved
    rw [hstore]
    exact hreserved
  · by_cases hkey : key = key'
    · subst hkey
      obtain rfl : databaseId = databaseId' := hdatabase _ hreserved
      obtain ⟨live, hget, hnot⟩ := hlive
      rw [hreserved.finds hget hnot] at hnone
      cases hnone
    · exact (hother key hkey).trans hreserved

theorem Created.items (h : Created t t' databaseId key item) :
    t'.store.items = t.store.items ∧ SameTables t t' ∧
        findIdempotentReplay t.store databaseId key = some item ∨
      t'.store.items = t.store.items ++ [item] := by
  rcases h with ⟨hfind, n, hstore⟩ | ⟨hitems, -⟩
  · exact .inl ⟨by rw [hstore], ⟨n, hstore⟩, hfind⟩
  · exact .inr hitems

theorem Created.exists_item (h : Created t t' databaseId key item) :
    ∃ row, t'.store.getItemById databaseId item.id = some row := by
  rcases h with ⟨hfind, n, hstore⟩ | ⟨hitems, hdatabase, -⟩
  · rw [hstore]
    exact ⟨item, (reserved_of_finds hfind).2.1⟩
  · refine Option.isSome_iff_exists.mp (List.find?_isSome.mpr ⟨item, ?_, ?_⟩)
    · rw [hitems]
      exact List.mem_concat_self
    · exact isAt_iff.mpr ⟨hdatabase, rfl⟩

theorem Created.getItemById {databaseId' : ℕ} {row : ItemRow}
    (h : Created t t' databaseId' key item) (hrow : t.store.getItemById databaseId i = some row) :
    t'.store.getItemById databaseId i = some row := by
  unfold Store.getItemById at hrow ⊢
  rcases h.items with ⟨hitems, -⟩ | hitems
  · rw [hitems]
    exact hrow
  · rw [hitems, List.find?_append, hrow]
    rfl

variable {pg : Postgres} {computedKeys : List String}

theorem kept_step {a : Env × ChokePointOp}
    (h : ChokePoint.step pg computedKeys s a = some s') (hkeeps : keepsSchema a.2 = true)
    (hlive : IsLive s databaseId i) (hreserved : Reserved databaseId key i s) :
    schema s' = schema s ∧ Reserved databaseId key i s' := by
  have hfixed : fixed s' = fixed s → schema s' = schema s ∧ Reserved databaseId key i s' := by
    intro hfixed
    obtain ⟨hschema, hkeys⟩ := Prod.mk.inj hfixed
    refine ⟨hschema, ?_⟩
    unfold Reserved
    rw [hkeys]
    exact hreserved
  obtain ⟨env, op⟩ := a
  cases op with
  | createItem input options =>
    obtain ⟨item, t, hrun, rfl⟩ := Trash.step_unit rfl h
    refine ⟨keeps_createItem (f := schema) (fun _ _ => rfl) (fun _ _ => rfl) input
      (.inr (.inr fun _ _ => rfl)) options _ _ _ rfl hrun, ?_⟩
    by_cases hkey : input.idempotencyKey = none ∨ input.idempotencyKey = some ""
    · exact (hfixed (keeps_createItem (f := fixed) (fun _ _ => rfl) (fun _ _ => rfl) input
        (hkey.elim .inl fun hkey => .inr (.inl hkey)) options _ _ _ rfl hrun)).2
    · obtain ⟨hsome, hne⟩ := not_or.mp hkey
      obtain ⟨key', hkey'⟩ := Option.ne_none_iff_exists'.mp hsome
      have hcreated := (createItem_run hkey' (fun h => hne (h ▸ hkey')) hrun).1
      exact hcreated.reserved hreserved hlive
  | createTaskRecurrence row =>
    cases h
    exact hfixed rfl
  | createRelation input context =>
    obtain ⟨_, t, hrun, rfl⟩ := Trash.step_unit rfl h
    exact hfixed (keeps_createRelation _ _ _ _ _ _ rfl hrun)
  | updateRelation input context =>
    obtain ⟨_, t, hrun, rfl⟩ := Trash.step_unit rfl h
    exact hfixed (keeps_updateRelation _ _ _ _ _ _ rfl hrun)
  | deleteRelation input context =>
    obtain ⟨_, t, hrun, rfl⟩ := Trash.step_unit rfl h
    exact hfixed (keeps_deleteRelation _ _ _ _ _ rfl hrun)
  | updateItem input options =>
    obtain ⟨_, t, hrun, rfl⟩ := Trash.step_unit rfl h
    exact hfixed (keeps_updateItem _ _ _ _ _ rfl hrun)
  | deleteItem databaseId itemId =>
    obtain ⟨_, t, hrun, rfl⟩ := Trash.step_unit rfl h
    exact hfixed (keeps_deleteItem _ _ _ _ _ rfl hrun)
  | restoreItem databaseId itemId =>
    obtain ⟨_, t, hrun, rfl⟩ := Trash.step_unit rfl h
    exact hfixed (keeps_restoreItem _ _ _ _ _ rfl hrun)
  | _ => cases hkeeps

theorem isLive_of_run (h : Reach (ChokePoint.step pg computedKeys) (Undisturbed input i) s s')
    (hlive : IsLive s' input.inboxDatabaseId i) : IsLive s input.inboxDatabaseId i := by
  induction h with
  | refl => exact hlive
  | tail _ hok _ ih => exact ih hok.2

theorem kept_run (h : Reach (ChokePoint.step pg computedKeys) (Undisturbed input i) s s')
    (hreserved : Reserved input.inboxDatabaseId key i s) :
    schema s' = schema s ∧ Reserved input.inboxDatabaseId key i s' := by
  induction h with
  | refl => exact ⟨rfl, hreserved⟩
  | tail _ hok hstep ih =>
    obtain ⟨hschema, hreserved⟩ := kept_step hstep hok.1 hok.2 ih.2
    exact ⟨hschema.trans ih.1, hreserved⟩

end reserved

/-! ## A capture, step by step -/

section capture

variable {item day : ItemRow} {property : PropertyRow} {edgeContext : RelationEdgeContext}
  {i j : ℕ} {t₁ t₂ t₃ : TxState}

def dayInput (L : Dates) (input : CreateInboxItemInput) : CreateItemInput :=
  JournalItems.journalInput input.journalDatabaseId .day
    (JournalItems.periodOf L.toLuxon .day (L.fromISO input.date input.timezone) input.timezone)

/-- What the schema and the date library say of a capture. -/
structure Ready (env : Env) (L : Dates) (input : CreateInboxItemInput) (s : Store) : Prop where
  valid : assertInput env L input = .ok ()
  item : Creatable s (itemInput input) .none
  day : Creatable s (dayInput L input) JournalItems.journalOptions
  type : ∀ type, input.type = some type → ∃ property edgeContext,
    getRelationProperty s input.inboxDatabaseId "type" = .ok property ∧
      Accepts env.relationEdgeWriteHook none s property edgeContext
  journalDay : ∃ property edgeContext,
    getRelationProperty s input.inboxDatabaseId "journalDay" = .ok property ∧
      Accepts env.relationEdgeWriteHook (some inboxRelationContext) s property edgeContext

theorem Ready.congr (hvalid : env'.validTimezone = env.validTimezone)
    (hhook : env'.relationEdgeWriteHook = env.relationEdgeWriteHook)
    (hjudges : JudgesRelation env.relationEdgeWriteHook) (h : Ready env L input s)
    (hschema : schema s' = schema s) : Ready env' L input s' := by
  refine ⟨?_, h.item.congr hschema, h.day.congr hschema, fun type htype => ?_, ?_⟩
  · rw [← h.valid]
    unfold assertInput assertValidTimezone
    rw [hvalid]
  · obtain ⟨property, edgeContext, hproperty, haccepts⟩ := h.type type htype
    rw [hhook]
    exact ⟨property, edgeContext, (getRelationProperty_congr hschema _ _).trans hproperty,
      haccepts.congr hjudges hschema⟩
  · obtain ⟨property, edgeContext, hproperty, haccepts⟩ := h.journalDay
    rw [hhook]
    exact ⟨property, edgeContext, (getRelationProperty_congr hschema _ _).trans hproperty,
      haccepts.congr hjudges hschema⟩

theorem keeps_linkType {v : (List DatabaseRow × List PropertyRow × List RelationDefinitionRow) ×
    List IdempotencyKeyRow} (i : ℕ) :
    Tx.Keeps (fun t : TxState => fixed t.store = v) (linkType env input i) := by
  unfold linkType
  split
  · exact (keeps_check _).bind fun _ => (keeps_createRelation _ _ _).bind fun _ => Tx.keeps_pure _
  · exact Tx.keeps_pure _

def TypeLinked (env : Env) (input : CreateInboxItemInput) (i : ℕ) (s s' : Store) : Prop :=
  (input.type = none ∧ s' = s) ∨ ∃ type, input.type = some type ∧ ∃ property edgeContext,
    getRelationProperty s input.inboxDatabaseId "type" = .ok property ∧
      Accepts env.relationEdgeWriteHook none s property edgeContext ∧
        Fits s property edgeContext i type ∧ s' = link property edgeContext i type s

theorem linkType_ok (hjudges : JudgesRelation env.relationEdgeWriteHook)
    (h : (linkType env input i).run t = (.ok (), t')) :
    TypeLinked env input i t.store t'.store := by
  unfold linkType at h
  cases htype : input.type with
  | none =>
    rw [htype] at h
    cases h
    exact .inl ⟨htype, rfl⟩
  | some type =>
    rw [htype] at h
    exact .inr ⟨type, htype, linkItem_ok hjudges h⟩

theorem TypeLinked.items (h : TypeLinked env input i s s') : s'.items = s.items := by
  rcases h with ⟨-, rfl⟩ | ⟨type, -, property, edgeContext, -, -, -, rfl⟩
  · rfl
  · unfold link upsertEdge
    split <;> rfl

structure Steps (env : Env) (L : Dates) (input : CreateInboxItemInput) (key : String)
    (t t₁ t₂ t₃ t' : TxState) (item day : ItemRow) (property : PropertyRow)
    (edgeContext : RelationEdgeContext) : Prop where
  valid : assertInput env L input = .ok ()
  creatable : Creatable t.store (itemInput input) .none
  created : Created t t₁ input.inboxDatabaseId key item
  schema₁ : schema t₁.store = schema t.store
  typeLinked : TypeLinked env input item.id t₁.store t₂.store
  fixed₂ : fixed t₂.store = fixed t₁.store
  hasProperty : getRelationProperty t₂.store input.inboxDatabaseId "journalDay" = .ok property
  dayCreatable : Creatable t₂.store (dayInput L input) JournalItems.journalOptions
  dayCreated : Created t₂ t₃ input.journalDatabaseId (dayKey L input) day
  schema₃ : schema t₃.store = schema t₂.store
  accepts : Accepts env.relationEdgeWriteHook (some inboxRelationContext) t₃.store property
    edgeContext
  fits : Fits t₃.store property edgeContext item.id day.id
  linked : t'.store = link property edgeContext item.id day.id t₃.store

theorem dayKey_ne_empty : dayKey L input ≠ "" := by
  unfold dayKey JournalItems.idempotencyKey
  intro h
  have := congrArg String.toList h
  simp at this

theorem capture_ok (hjudges : JudgesRelation env.relationEdgeWriteHook)
    (hkey : input.idempotencyKey = some key) (hne : key ≠ "")
    (h : (createInboxItemWithClient env L input).run t = (.ok item, t')) :
    ∃ t₁ t₂ t₃ day property edgeContext,
      Steps env L input key t t₁ t₂ t₃ t' item day property edgeContext := by
  obtain ⟨⟨⟩, hvalid, h⟩ := Tx.run_query_bind_ok.mp h
  obtain ⟨item, t₁, hitem, h⟩ := Tx.run_bind_ok.mp h
  obtain ⟨⟨⟩, t₂, htype, h⟩ := Tx.run_bind_ok.mp h
  obtain ⟨property, hproperty, h⟩ := Tx.run_query_bind_ok.mp h
  obtain ⟨day, t₃, hday, h⟩ := Tx.run_bind_ok.mp h
  obtain ⟨edge, t₄, hlink, h⟩ := Tx.run_bind_ok.mp h
  cases h
  obtain ⟨⟨⟩, hzone, hday⟩ := Tx.run_query_bind_ok.mp hday
  obtain ⟨hcreated, hcreatable⟩ := createItem_run hkey hne hitem
  obtain ⟨hdayCreated, hdayCreatable⟩ := createItem_run rfl dayKey_ne_empty hday
  obtain ⟨edgeContext, haccepts, hfits, hlinked⟩ := createRelation_ok hjudges hlink
  exact ⟨t₁, t₂, t₃, day, property, edgeContext, {
    valid := hvalid
    creatable := hcreatable
    created := hcreated
    schema₁ := keeps_createItem (f := schema) (fun _ _ => rfl) (fun _ _ => rfl) _
      (.inr (.inr fun _ _ => rfl)) _ _ _ _ rfl hitem
    typeLinked := linkType_ok hjudges htype
    fixed₂ := keeps_linkType _ _ _ _ rfl htype
    hasProperty := hproperty
    dayCreatable := hdayCreatable
    dayCreated := hdayCreated
    schema₃ := keeps_createItem (f := schema) (fun _ _ => rfl) (fun _ _ => rfl) _
      (.inr (.inr fun _ _ => rfl)) _ _ _ _ rfl hday
    accepts := haccepts
    fits := hfits
    linked := hlinked }⟩

theorem Steps.ready {t₁ t₂ t₃ : TxState} (hjudges : JudgesRelation env.relationEdgeWriteHook)
    (h : Steps env L input key t t₁ t₂ t₃ t' item day property edgeContext) :
    Ready env L input t.store := by
  have hschema₂ : schema t₂.store = schema t₁.store := congrArg Prod.fst h.fixed₂
  have hschema : schema t.store = schema t₂.store := (hschema₂.trans h.schema₁).symm
  refine ⟨h.valid, h.creatable, h.dayCreatable.congr hschema, fun type htype => ?_, ?_⟩
  · rcases h.typeLinked with ⟨hnone, -⟩ | ⟨type', -, property, edgeContext, hproperty, haccepts, -⟩
    · exact nomatch hnone.symm.trans htype
    · exact ⟨property, edgeContext,
        (getRelationProperty_congr h.schema₁.symm _ _).trans hproperty,
        haccepts.congr hjudges h.schema₁.symm⟩
  · exact ⟨property, edgeContext, (getRelationProperty_congr hschema _ _).trans h.hasProperty,
      h.accepts.congr hjudges (hschema.trans h.schema₃.symm)⟩

theorem link_items (s : Store) : (link property edgeContext i j s).items = s.items := by
  unfold link upsertEdge
  split <;> rfl

theorem fixed_link (s : Store) : fixed (link property edgeContext i j s) = fixed s :=
  fixed_upsertEdge _ _ _ _ s

theorem schema_link (s : Store) : schema (link property edgeContext i j s) = schema s :=
  congrArg Prod.fst (fixed_link s)

theorem Steps.reserved {t₁ t₂ t₃ : TxState}
    (h : Steps env L input key t t₁ t₂ t₃ t' item day property edgeContext)
    (hlive : IsLive t'.store input.inboxDatabaseId item.id) :
    Reserved input.inboxDatabaseId key item.id t'.store ∧ schema t'.store = schema t.store := by
  have hkeys₂ : t₂.store.idempotencyKeys = t₁.store.idempotencyKeys := congrArg Prod.snd h.fixed₂
  have hreserved₂ : Reserved input.inboxDatabaseId key item.id t₂.store := by
    unfold Reserved
    rw [hkeys₂]
    exact h.created.reserved_self
  have hlive₂ : IsLive t₂.store input.inboxDatabaseId item.id := by
    obtain ⟨live, hget, hnot⟩ := hlive
    obtain ⟨row, hrow⟩ := h.created.exists_item
    have hrow₂ : t₂.store.getItemById input.inboxDatabaseId item.id = some row := by
      unfold Store.getItemById at hrow ⊢
      rw [h.typeLinked.items]
      exact hrow
    have hget₃ : t₃.store.getItemById input.inboxDatabaseId item.id = some live := by
      unfold Store.getItemById at hget ⊢
      rw [h.linked, link_items] at hget
      exact hget
    obtain rfl := Option.some.inj ((h.dayCreated.getItemById hrow₂).symm.trans hget₃)
    exact ⟨row, hrow₂, hnot⟩
  have hkeys : t'.store.idempotencyKeys = t₃.store.idempotencyKeys := by
    rw [h.linked]
    exact congrArg Prod.snd (fixed_link t₃.store)
  have hschema₂ : schema t₂.store = schema t₁.store := congrArg Prod.fst h.fixed₂
  refine ⟨?_, ?_⟩
  · unfold Reserved
    rw [hkeys]
    exact h.dayCreated.reserved hreserved₂ hlive₂
  · rw [h.linked, schema_link, h.schema₃, hschema₂, h.schema₁]

theorem Steps.linked_of_unchanged {jobs : List Job} {t₁ t₂ t₃ : TxState}
    (h : Steps env L input key ⟨s, jobs⟩ t₁ t₂ t₃ t' item day property edgeContext)
    (hitems : t'.store.items = s.items) (hrelations : t'.store.itemRelations = s.itemRelations) :
    Linked L input s item.id := by
  obtain ⟨s₁, jobs₁⟩ := t₁
  obtain ⟨s₂, jobs₂⟩ := t₂
  obtain ⟨s₃, jobs₃⟩ := t₃
  rw [h.linked, link_items] at hitems
  have hitems₂ : s₂.items = s₁.items := h.typeLinked.items
  -- an item that was added would still be there
  have hsame : (∃ n, s₁ = { s with nextId := n }) ∧ (∃ n, s₃ = { s₂ with nextId := n }) ∧
      findIdempotentReplay s₂ input.journalDatabaseId (dayKey L input) = some day := by
    have hlength := congrArg List.length hitems
    rcases h.created.items with ⟨-, hsame, -⟩ | happend
    · rcases h.dayCreated.items with ⟨-, hsame₃, hfind⟩ | happend₃
      · exact ⟨hsame, hsame₃, hfind⟩
      · obtain ⟨n, rfl⟩ := hsame
        dsimp only at happend₃ hlength hitems₂
        rw [happend₃, List.length_append, hitems₂] at hlength
        exact absurd hlength (Nat.succ_ne_self _)
    · dsimp only at happend hlength hitems₂
      have hle : s₂.items.length ≤ s₃.items.length := by
        rcases h.dayCreated.items with ⟨hitems₃, -⟩ | hitems₃
        · exact (congrArg List.length hitems₃).ge
        · dsimp only at hitems₃
          rw [hitems₃, List.length_append]
          exact Nat.le_add_right _ _
      rw [hlength, hitems₂, happend, List.length_append] at hle
      exact absurd hle (Nat.not_succ_le_self _)
  obtain ⟨⟨n, rfl⟩, ⟨m, rfl⟩, hfind⟩ := hsame
  have hlast : (link property edgeContext item.id day.id
      ({ s₂ with nextId := m } : Store)).itemRelations = s.itemRelations := by
    rw [← hrelations, h.linked]
  -- so the first edge was there
  have htype : s₂ = ({ s with nextId := n } : Store) ∧ ∀ type, input.type = some type →
      InPlace input s "type" item.id type := by
    rcases h.typeLinked with ⟨hnone, hs₂⟩ |
      ⟨type, hsome, typeProperty, typeContext, hproperty, haccepts, hfits, hs₂⟩
    · exact ⟨hs₂, fun type htype => nomatch hnone.symm.trans htype⟩
    · have hedge := edgeInPlace_of_upsertEdge₂ { s with nextId := n } { s₂ with nextId := m }
        (show s₂.itemRelations = _ from congrArg Store.itemRelations hs₂) hlast
      refine ⟨hs₂.trans (upsertEdge_inPlace hedge), fun type' htype => ?_⟩
      obtain rfl := Option.some.inj (hsome.symm.trans htype)
      have hplace : InPlace input ({ s with nextId := n } : Store) "type" item.id type :=
        (inPlace_iff hproperty haccepts.loads).mpr ⟨hfits, hedge⟩
      exact hplace
  obtain ⟨rfl, htype⟩ := htype
  refine ⟨htype, day, hfind, ?_⟩
  have hplace : InPlace input ({ s with nextId := m } : Store) "journalDay" item.id day.id :=
    (inPlace_iff h.hasProperty h.accepts.loads).mpr
      ⟨⟨h.fits.endpoints, h.fits.cardinality⟩,
        edgeInPlace_of_upsertEdge (s := { s with nextId := m }) hlast⟩
  exact hplace

end capture

/-! ## A replay -/

section replay

variable {item : ItemRow} {i : ℕ}

theorem assertInput_ok (h : assertInput env L input = .ok ()) :
    assertValidTimezone env input.timezone = .ok () := by
  unfold assertInput at h
  by_cases hdate : input.date = ""
  · rw [if_pos hdate] at h
    cases h
  · rw [if_neg hdate] at h
    by_cases htime : input.time = ""
    · rw [if_pos htime] at h
      cases h
    · rw [if_neg htime] at h
      by_cases hiso : (!L.isValidISO input.date) = true
      · rw [if_pos hiso] at h
        cases h
      · rw [if_neg hiso] at h
        exact h

theorem linkType_inPlace (hready : Ready env L input t.store)
    (htype : ∀ type, input.type = some type → InPlace input t.store "type" i type) :
    ∃ t', (linkType env input i).run t = (.ok (), t') ∧ t'.store = t.store := by
  unfold linkType
  cases hinput : input.type with
  | none => exact ⟨t, rfl, rfl⟩
  | some type =>
    obtain ⟨property, edgeContext, hproperty, haccepts⟩ := hready.type type hinput
    obtain ⟨hfits, hedge⟩ := (inPlace_iff hproperty haccepts.loads).mp (htype type hinput)
    obtain ⟨edge, t', hrun, hstore⟩ := createRelation_run haccepts hfits
    exact ⟨t', Tx.run_query_bind_ok.mpr ⟨property, hproperty,
      Tx.run_bind_ok.mpr ⟨edge, t', hrun, rfl⟩⟩, hstore.trans (upsertEdge_inPlace hedge)⟩

theorem replays_of_linked (hjudges : JudgesRelation env.relationEdgeWriteHook)
    (hkey : input.idempotencyKey = some key) (hne : key ≠ "") (hready : Ready env L input s)
    (hfind : findIdempotentReplay s input.inboxDatabaseId key = some item)
    (hlinked : Linked L input s item.id) : Replays env L input s item.id := by
  obtain ⟨htype, day, hday, hplace⟩ := hlinked
  obtain ⟨⟨s₁, jobs₁⟩, hitem, n, hs₁⟩ :=
    createItem_replay env ⟨s, []⟩ hkey hne hready.item hfind
  obtain rfl : s₁ = { s with nextId := n } := hs₁
  have hready₁ : Ready env L input ({ s with nextId := n } : Store) := 
    hready.congr rfl rfl hjudges rfl
  obtain ⟨⟨s₂, jobs₂⟩, hlink, hs₂⟩ :=
    linkType_inPlace (t := ⟨{ s with nextId := n }, jobs₁⟩) (i := item.id) hready₁ htype
  obtain rfl : s₂ = { s with nextId := n } := hs₂
  obtain ⟨⟨s₃, jobs₃⟩, hcreate, m, hs₃⟩ :=
    createItem_replay env ⟨{ s with nextId := n }, jobs₂⟩ rfl dayKey_ne_empty hready₁.day hday
  obtain rfl : s₃ = { s with nextId := m } := hs₃
  have hready₃ : Ready env L input ({ s with nextId := m } : Store) := 
    hready.congr rfl rfl hjudges rfl
  obtain ⟨property, edgeContext, hproperty, haccepts⟩ := hready₃.journalDay
  have hplace₃ : InPlace input ({ s with nextId := m } : Store) "journalDay" item.id day.id :=
    hplace
  obtain ⟨hfits, hedge⟩ := (inPlace_iff hproperty haccepts.loads).mp hplace₃
  obtain ⟨edge, t', hrun, hstore⟩ :=
    createRelation_run (t := ⟨{ s with nextId := m }, jobs₃⟩) haccepts hfits
  replace hstore : t'.store = { s with nextId := m } := hstore.trans (upsertEdge_inPlace hedge)
  have hjournal : (journalDay env L input).run ⟨{ s with nextId := n }, jobs₂⟩ =
      (.ok day, ⟨{ s with nextId := m }, jobs₃⟩) := by
    refine Tx.run_query_bind_ok.mpr ⟨(), ?_, hcreate⟩
    exact assertInput_ok hready.valid
  refine ⟨item, t', ?_, (reserved_of_finds hfind).2.1, ?_, ?_⟩
  · exact Tx.run_query_bind_ok.mpr ⟨(), hready.valid, Tx.run_bind_ok.mpr ⟨item, _, hitem,
      Tx.run_bind_ok.mpr ⟨(), _, hlink, Tx.run_query_bind_ok.mpr ⟨property, hproperty,
        Tx.run_bind_ok.mpr ⟨day, _, hjournal, Tx.run_bind_ok.mpr ⟨edge, t', hrun, rfl⟩⟩⟩⟩⟩⟩
  · rw [hstore]
  · rw [hstore]

theorem getItemById_id {databaseId : ℕ} (h : s.getItemById databaseId i = some item) :
    item.id = i :=
  (isAt_iff.mp (List.find?_some (p := fun r : ItemRow => r.isAt databaseId i) h)).2

theorem replays_iff_of_ready (hjudges : JudgesRelation env.relationEdgeWriteHook)
    (hkey : input.idempotencyKey = some key) (hne : key ≠ "") (hready : Ready env L input s)
    (hfind : findIdempotentReplay s input.inboxDatabaseId key = some item) :
    Replays env L input s item.id ↔ Linked L input s item.id := by
  constructor
  · rintro ⟨returned, t', hrun, hget, hitems, hrelations⟩
    obtain ⟨t₁, t₂, t₃, day, property, edgeContext, hsteps⟩ := capture_ok hjudges hkey hne hrun
    have hid : returned.id = item.id := getItemById_id hget
    have hlinked := hsteps.linked_of_unchanged hitems hrelations
    rwa [hid] at hlinked
  · exact replays_of_linked hjudges hkey hne hready hfind

/-- A capture run again changes nothing exactly when the type and the day that it names are still
linked. -/
theorem replays_iff {pg : Postgres} {computedKeys : List String} {s₀ s₂ : Store}
    (hvalid : env'.validTimezone = env.validTimezone)
    (hhook : env'.relationEdgeWriteHook = env.relationEdgeWriteHook)
    (hjudges : JudgesRelation env.relationEdgeWriteHook)
    (hkey : input.idempotencyKey = some key) (hne : key ≠ "")
    (hcapture : (createInboxItemWithClient env L input).run ⟨s₀, []⟩ = (.ok item, t))
    (hlater : Reach (ChokePoint.step pg computedKeys) (Undisturbed input item.id) t.store s₂)
    (hlive : IsLive s₂ input.inboxDatabaseId item.id) :
    Replays env' L input s₂ item.id ↔ Linked L input s₂ item.id := by
  obtain ⟨t₁, t₂, t₃, day, property, edgeContext, hsteps⟩ := capture_ok hjudges hkey hne hcapture
  obtain ⟨hreserved, hschema⟩ := hsteps.reserved (isLive_of_run hlater hlive)
  obtain ⟨hschema₂, hreserved₂⟩ := kept_run hlater hreserved
  obtain ⟨live, hget, hnot⟩ := hlive
  have hfind := hreserved₂.finds hget hnot
  have hready : Ready env' L input s₂ :=
    (hsteps.ready hjudges).congr hvalid hhook hjudges (hschema₂.trans hschema)
  have hiff := replays_iff_of_ready (hhook ▸ hjudges) hkey hne hready hfind
  rwa [getItemById_id hget] at hiff

end replay

/-! ## A link that was cleared -/

def plainDates : Dates where
  toLuxon := JournalItems.plainDates
  isValidISO _ := true
  fromISO _ _ := 0

def textProperty (id databaseId : ℕ) (key : String) (owner : PropertyOwner) : PropertyRow :=
  ⟨id, databaseId, key, none, .text, .empty, false, owner, none, .stable⟩

def relationProperty (id : ℕ) (key : String) (definition target : ℕ) (owner : PropertyOwner)
    (ownerProcess : Option String) : PropertyRow where
  id := id
  databaseId := 1
  key := key
  name := none
  type := .relation
  config := { PropertyConfig.empty with
    relationDefinitionId := some definition, targetDatabaseId := some target }
  locked := false
  owner := owner
  ownerProcess := ownerProcess
  migrationStatus := .stable

def pipeline : Store where
  databases := [1, 2, 3].map fun id => ⟨id, none, none, none, none, none, false, false, none⟩
  properties := [textProperty 4 1 "date" .user, textProperty 5 1 "time" .user,
    relationProperty 6 "type" 10 2 .user none,
    relationProperty 7 "journalDay" 11 3 .system (some inboxModuleId),
    textProperty 8 3 "name" .system, textProperty 9 3 "type" .system,
    textProperty 12 3 "period" .system]
  relationDefinitions := [⟨10, 6, none, .many_to_many⟩, ⟨11, 7, none, .many_to_many⟩]
  items := [⟨20, 2, [], [], 0, none⟩]
  itemRelations := []
  rollupDependencies := []
  views := []
  idempotencyKeys := []
  taskRecurrences := []
  nextId := 30

def typed : CreateInboxItemInput := ⟨1, 3, "UTC", "2026-08-28", "14:30", none, some 20, some "k"⟩

def capture : Except Failure ItemRow × TxState :=
  (createInboxItemWithClient ItemCreates.noHooks plainDates typed).run ⟨pipeline, []⟩

theorem capture_eq : ∃ item t, capture = (.ok item, t) ∧ item.id = 30 := by
  have hid : capture.1.toOption.map ItemRow.id = some 30 := by decide +kernel
  rcases hrun : capture with ⟨_ | item, t⟩
  · rw [hrun] at hid
    cases hid
  · rw [hrun] at hid
    exact ⟨item, t, rfl, Option.some.inj hid⟩

/-- The capture is edited, and its type's edge is written once more. -/
def edited : List (Env × ChokePointOp) :=
  [(ItemCreates.noHooks, .updateItem ⟨1, 30, [("time", .str "15:00")], none⟩ .none),
    (ItemCreates.noHooks, .createRelation ⟨6, 30, 20, none⟩ none)]

def clearedType : List (Env × ChokePointOp) :=
  [(ItemCreates.noHooks, .deleteRelation ⟨6, 30, 20⟩ none)]

def isLiveCheck (s : Store) (databaseId itemId : ℕ) : Bool :=
  (s.getItemById databaseId itemId).any fun item => item.deletedAt = none

theorem isLive_of_check {databaseId i : ℕ} (h : isLiveCheck s databaseId i = true) :
    IsLive s databaseId i := by
  unfold isLiveCheck at h
  unfold IsLive
  cases hget : s.getItemById databaseId i with
  | none =>
    rw [hget] at h
    cases h
  | some item =>
    rw [hget] at h
    exact ⟨item, rfl, of_decide_eq_true h⟩

def undisturbedCheck (s : Store) (a : Env × ChokePointOp) : Bool :=
  keepsSchema a.2 && isLiveCheck s 1 30

theorem undisturbed_of_check (s : Store) (a : Env × ChokePointOp)
    (h : undisturbedCheck s a = true) : Undisturbed typed 30 s a :=
  have h := Bool.and_eq_true_iff.mp h
  ⟨h.1, isLive_of_check h.2⟩

theorem replays_iff_edited : ∃ item t s₂, capture = (.ok item, t) ∧
    runActs (ChokePoint.step Trash.noCasts []) t.store edited = some s₂ ∧
      (Replays ItemCreates.noHooks plainDates typed s₂ item.id ↔
        Linked plainDates typed s₂ item.id) := by
  obtain ⟨item, t, hcapture, hid⟩ := capture_eq
  obtain ⟨s₂, hs⟩ := Option.isSome_iff_exists.mp
    (by decide +kernel : (runChecked (ChokePoint.step Trash.noCasts []) undisturbedCheck
      capture.2.store edited).isSome = true)
  have hlive := eq_of_map_eq (f := fun s => isLiveCheck s 1 30) (b := true) hs (by decide +kernel)
  rw [hcapture] at hs
  refine ⟨item, t, s₂, hcapture, runActs_of_runChecked hs, ?_⟩
  have hlater : Reach (ChokePoint.step Trash.noCasts []) (Undisturbed typed item.id) t.store s₂ :=
    hid ▸ Reach.of_runChecked undisturbed_of_check hs
  exact replays_iff rfl rfl (fun _ _ _ _ _ _ _ _ => rfl) rfl (by decide) hcapture hlater
    (hid ▸ isLive_of_check hlive)

/-- The replay gives the item its type back. -/
theorem clearedType_replay : ¬ ∀ (pg : Postgres) (computedKeys : List String) (env env' : Env)
    (L : Dates) (input : CreateInboxItemInput) (s₀ s₂ : Store) (item : ItemRow) (t : TxState)
    (key : String), env'.validTimezone = env.validTimezone →
      env'.relationEdgeWriteHook = env.relationEdgeWriteHook →
      JudgesRelation env.relationEdgeWriteHook → input.idempotencyKey = some key → key ≠ "" →
      (createInboxItemWithClient env L input).run ⟨s₀, []⟩ = (.ok item, t) →
      Reach (ChokePoint.step pg computedKeys) (Undisturbed input item.id) t.store s₂ →
      IsLive s₂ input.inboxDatabaseId item.id → Replays env' L input s₂ item.id := by
  intro hall
  obtain ⟨item, t, hcapture, hid⟩ := capture_eq
  obtain ⟨s₂, hs⟩ := Option.isSome_iff_exists.mp
    (by decide +kernel : (runChecked (ChokePoint.step Trash.noCasts []) undisturbedCheck
      capture.2.store clearedType).isSome = true)
  have hlive := eq_of_map_eq (f := fun s => isLiveCheck s 1 30) (b := true) hs (by decide +kernel)
  have hedges := eq_of_map_eq
    (f := fun s : Store => (s.itemRelations.length, ((createInboxItemWithClient ItemCreates.noHooks
      plainDates typed).run ⟨s, []⟩).2.store.itemRelations.length)) (b := (1, 2)) hs
    (by decide +kernel)
  rw [hcapture] at hs
  obtain ⟨returned, t', hrun, -, -, hrelations⟩ := hall Trash.noCasts [] ItemCreates.noHooks
    ItemCreates.noHooks plainDates typed pipeline s₂ item t "k" rfl rfl
    (fun _ _ _ _ _ _ _ _ => rfl) rfl (by decide) hcapture
    (hid ▸ Reach.of_runChecked undisturbed_of_check hs) (hid ▸ isLive_of_check hlive)
  rw [hrun, hrelations] at hedges
  obtain ⟨hone, htwo⟩ := Prod.mk.inj hedges
  exact absurd (hone.symm.trans htwo) (by decide)

end InboxCaptures

end Semprec
