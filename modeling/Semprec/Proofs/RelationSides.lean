import Semprec.Proofs.ItemReplays

/-!
# An edge from either side

A two-sided relation stores one edge, whichever side it is written from: unlinking from the other
side undoes a link.
-/

namespace Semprec

namespace Relations

open InboxCaptures

variable {hook : RelationEdgeWriteHook} {context : Option SystemRelationWriteContext}
  {definition : RelationDefinitionRow} {s s' : Store} {t t' : TxState} {p q i j : ℕ}

def IsSide (definition : RelationDefinitionRow) (p : ℕ) : Prop :=
  definition.propertyIdA = p ∨ definition.propertyIdB = some p

theorem normalizeRelationSides_swap (hp : IsSide definition p) (hq : IsSide definition q)
    (hne : p ≠ q) :
    normalizeRelationSides definition q j i = normalizeRelationSides definition p i j := by
  unfold normalizeRelationSides
  by_cases ha : definition.propertyIdA = p
  · rw [if_pos ha, if_neg fun h => hne (ha.symm.trans h)]
  · have hb : definition.propertyIdB = some p := hp.resolve_left ha
    have haq : definition.propertyIdA = q :=
      hq.resolve_right fun h => hne (Option.some.inj (hb.symm.trans h))
    rw [if_neg ha, if_pos haq]

theorem isSide_of_load {c : RelationEdgeContext}
    (h : loadRelationEdgeContext s p = .ok c) : IsSide c.reldef p := by
  unfold loadRelationEdgeContext at h
  split at h
  case h_2 => cases h
  split at h
  case isFalse => cases h
  dsimp only [bind, Except.bind] at h
  split at h
  case h_2 => cases h
  split at h
  case h_2 => cases h
  split at h
  case isFalse => cases h
  case isTrue hside =>
    cases h
    exact hside

theorem loadRelationEdgeContext_congr (hschema : schema s' = schema s) :
    loadRelationEdgeContext s' p = loadRelationEdgeContext s p := by
  obtain ⟨-, hrest⟩ := Prod.mk.inj hschema
  obtain ⟨hproperties, hdefinitions⟩ := Prod.mk.inj hrest
  unfold loadRelationEdgeContext Store.getProperty Store.getRelationDefinition
  rw [hproperties, hdefinitions]

theorem itemRelations_upsertEdge_new {d a b : ℕ} (metadata : JsonObject)
    (hnew : ∀ e ∈ s.itemRelations, isEdge d a b e = false) :
    (upsertEdge d a b metadata s).2.itemRelations =
      s.itemRelations ++ [(upsertEdge d a b metadata s).1] ∧
        isEdge d a b (upsertEdge d a b metadata s).1 = true := by
  have hfind : s.itemRelations.find? (isEdge d a b) = none :=
    List.find?_eq_none.mpr fun e he => by rw [hnew e he]; decide
  unfold upsertEdge
  rw [hfind]
  exact ⟨rfl, decide_eq_true ⟨rfl, rfl, rfl⟩⟩

theorem unlink_otherSide {context' : Option SystemRelationWriteContext} {c c' : RelationEdgeContext}
    {metadata : Option JsonObject} {edge : ItemRelationRow} {removed : Option ItemRelationRow}
    {t₁ t₂ : TxState} (hp : loadRelationEdgeContext t.store p = .ok c)
    (hq : loadRelationEdgeContext t.store q = .ok c') (hdefinition : c'.reldef = c.reldef)
    (hne : p ≠ q)
    (hnew : ∀ e ∈ t.store.itemRelations, isEdge c.reldef.id
      (normalizeRelationSides c.reldef p i j).1 (normalizeRelationSides c.reldef p i j).2 e = false)
    (hlink : (createRelationWithClient hook ⟨p, i, j, metadata⟩ context).run t = (.ok edge, t₁))
    (hunlink : (deleteRelationWithClient ⟨q, j, i⟩ context').run t₁ = (.ok removed, t₂)) :
    removed = some edge ∧ t₂.store.itemRelations = t.store.itemRelations := by
  have hsides := normalizeRelationSides_swap (i := i) (j := j) (isSide_of_load hp)
    (hdefinition ▸ isSide_of_load hq) hne
  have hschema : schema t₁.store = schema t.store :=
    congrArg Prod.fst (keeps_createRelation hook _ _ t edge t₁ rfl hlink)
  obtain ⟨c₁, hload, hlink⟩ := Tx.run_query_bind_ok.mp hlink
  obtain ⟨c₁, hc₁, hload⟩ := except_bind_ok.mp hload
  obtain rfl := Except.ok.inj (hp.symm.trans hc₁)
  obtain ⟨⟨⟩, -, hload⟩ := except_bind_ok.mp hload
  obtain ⟨⟨⟩, -, hload⟩ := except_bind_ok.mp hload
  obtain ⟨⟨⟩, -, hload⟩ := except_bind_ok.mp hload
  obtain ⟨⟨⟩, -, hload⟩ := except_bind_ok.mp hload
  cases hload
  obtain ⟨edge, t₀, hedge, hlink⟩ := Tx.run_bind_ok.mp hlink
  obtain ⟨⟨⟩, -, hedge⟩ := Tx.run_query_bind_ok.mp hedge
  cases hedge
  obtain ⟨⟨⟩, t', henqueue, hlink⟩ := Tx.run_bind_ok.mp hlink
  cases hlink
  obtain ⟨happended, hisEdge⟩ := itemRelations_upsertEdge_new (metadata.getD []) hnew
  have hstore := keeps_enqueueForEdge (f := id) _ _ _ _ _ _ rfl henqueue
  -- the unlink loads the same definition, and names the same edge
  obtain ⟨c₂, hload, hunlink⟩ := Tx.run_query_bind_ok.mp hunlink
  obtain ⟨c₂, hc₂, hload⟩ := except_bind_ok.mp hload
  rw [loadRelationEdgeContext_congr hschema] at hc₂
  obtain rfl := Except.ok.inj (hq.symm.trans hc₂)
  obtain ⟨⟨⟩, -, hload⟩ := except_bind_ok.mp hload
  obtain ⟨⟨⟩, -, hload⟩ := except_bind_ok.mp hload
  cases hload
  obtain ⟨found, t₃, hdelete, hunlink⟩ := Tx.run_bind_ok.mp hunlink
  cases hdelete
  obtain ⟨⟨⟩, t', henqueue', hunlink⟩ := Tx.run_bind_ok.mp hunlink
  cases hunlink
  have hstore' := keeps_enqueueForEdge (f := id) _ _ _ _ _ _ rfl henqueue'
  have hrelations : t₁.store.itemRelations = _ :=
    (congrArg Store.itemRelations hstore).trans happended
  refine ⟨?_, (congrArg Store.itemRelations hstore').trans ?_⟩
  · show t₁.store.itemRelations.find? (isEdge c'.reldef.id
      (normalizeRelationSides c'.reldef q j i).1 (normalizeRelationSides c'.reldef q j i).2) = _
    rw [hdefinition, hsides, hrelations, List.find?_append,
      List.find?_eq_none.mpr fun e he => by rw [hnew e he]; decide, Option.none_or,
      List.find?_cons_of_pos hisEdge]
  · show t₁.store.itemRelations.filter (fun e => !isEdge c'.reldef.id
      (normalizeRelationSides c'.reldef q j i).1 (normalizeRelationSides c'.reldef q j i).2 e) = _
    rw [hdefinition, hsides, hrelations, List.filter_append,
      List.filter_eq_self.mpr fun e he => by rw [hnew e he]; rfl,
      List.filter_cons_of_neg (by rw [hisEdge]; decide), List.filter_nil, List.append_nil]

def unhooked : RelationEdgeWriteHook := fun _ _ _ _ _ => .ok ()

def side (id databaseId targetDatabaseId : ℕ) : PropertyRow where
  id := id
  databaseId := databaseId
  key := "side"
  name := none
  type := .relation
  config := { PropertyConfig.empty with
    relationDefinitionId := some 9, targetDatabaseId := some targetDatabaseId }
  locked := false
  owner := .user
  ownerProcess := none
  migrationStatus := .stable

def twoSided : Store :=
  { Store.empty with
    databases := [1, 2].map fun id => ⟨id, none, none, none, none, none, false, false, none⟩
    properties := [side 3 1 2, side 4 2 1]
    relationDefinitions := [⟨9, 3, some 4, .one_to_many⟩]
    items := [⟨5, 1, [], [], 0, none⟩, ⟨6, 2, [], [], 0, none⟩] }

def linkRun : Except Failure ItemRelationRow × TxState :=
  (createRelationWithClient unhooked ⟨3, 5, 6, none⟩ none).run ⟨twoSided, []⟩

theorem unlink_otherSide_twoSided : ∃ edge removed t₁ t₂, linkRun = (.ok edge, t₁) ∧
    (deleteRelationWithClient ⟨4, 6, 5⟩ none).run t₁ = (.ok removed, t₂) ∧
      removed = some edge ∧ t₂.store.itemRelations = [] := by
  have hruns : linkRun.1.isOk = true ∧
      ((deleteRelationWithClient ⟨4, 6, 5⟩ none).run linkRun.2).1.isOk = true := by decide +kernel
  rcases hlink : linkRun with ⟨_ | edge, t₁⟩
  · rw [hlink] at hruns
    cases hruns.1
  · rw [hlink] at hruns
    rcases hunlink : (deleteRelationWithClient ⟨4, 6, 5⟩ none).run t₁ with ⟨_ | removed, t₂⟩
    · rw [hunlink] at hruns
      cases hruns.2
    · have hload : loadRelationEdgeContext twoSided 4 =
          .ok ⟨⟨9, 3, some 4, .one_to_many⟩, side 4 2 1, 1⟩ := rfl
      refine ⟨edge, removed, t₁, t₂, rfl, hunlink, unlink_otherSide (p := 3) rfl hload ?_
        (by decide) (fun _ he => absurd he List.not_mem_nil) hlink hunlink⟩
      rfl

end Relations

end Semprec
