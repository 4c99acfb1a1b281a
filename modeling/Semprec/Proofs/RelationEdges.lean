import Mathlib.Data.List.Nodup
import Mathlib.Data.List.Pairwise
import Semprec.RelationEdges

/-!
# The cardinality of committed edges

Which edges stand beside each other depends on their tuples only.  What a transaction has done to
the tuples is to keep some of those that are committed and to add its own; the definitions of those
it adds are locked, so of two transactions' new tuples no two are of one definition, and each new
tuple has been compared with all that its transaction keeps.
-/

namespace Semprec

namespace RelationEdges

open Relations

variable {hook : RelationEdgeWriteHook} {base store : Store} {s s' : Sys} {t u d a b : ℕ}
  {ws : List EdgeWrite} {w : EdgeWrite} {call : Call}

/-! ## Tuples -/

abbrev Tuple := ℕ × ℕ × ℕ

def tupleOf (e : ItemRelationRow) : Tuple := (e.relationDefinitionId, e.itemA, e.itemB)

def tuples (store : Store) : List Tuple := store.itemRelations.map tupleOf

theorem isEdge_iff {e : ItemRelationRow} : isEdge d a b e = true ↔ tupleOf e = (d, a, b) := by
  simp [isEdge, tupleOf]

/-- The two tuples may stand beside each other. -/
def Compatible (base : Store) (k k' : Tuple) : Prop :=
  k.1 = k'.1 → k.2 ≠ k'.2 ∧ ∀ definition, base.getRelationDefinition k.1 = some definition →
    (definition.cardinality = .one_to_one → k.2.1 ≠ k'.2.1 ∧ k.2.2 ≠ k'.2.2) ∧
      (definition.cardinality = .one_to_many → k.2.2 ≠ k'.2.2)

theorem tuples_insert (e : ItemRelationRow) :
    tuples (apply store (.insert e)) = tuples store ++ [tupleOf e] :=
  List.map_append

theorem tuples_setMetadata (metadata : JsonObject) :
    tuples (apply store (.setMetadata d a b metadata)) = tuples store := by
  simp only [tuples, apply, updateItemRelationMetadata, List.map_map]
  refine List.map_congr_left fun e _ => ?_
  simp only [Function.comp_apply]
  split_ifs <;> rfl

theorem tuples_delete :
    tuples (apply store (.delete d a b)) = (tuples store).filter (· ≠ (d, a, b)) := by
  simp only [tuples, apply, deleteItemRelation, List.filter_map]
  congr 1
  refine List.filter_congr fun e _ => ?_
  rw [Bool.eq_iff_iff, Function.comp_apply, decide_eq_true_eq, Bool.not_eq_true',
    ← Bool.not_eq_true, isEdge_iff]

theorem tuples_foldl (ws : List EdgeWrite) : ∃ keep : Tuple → Bool, ∃ added : List Tuple,
    (∀ k ∈ added, ∃ e, .insert e ∈ ws ∧ tupleOf e = k) ∧
      ∀ store, tuples (ws.foldl apply store) = (tuples store).filter keep ++ added := by
  induction ws with
  | nil => exact ⟨fun _ => true, [], fun k h => absurd h List.not_mem_nil, fun _ => by simp⟩
  | cons w ws ih =>
    obtain ⟨keep, added, hadded, htuples⟩ := ih
    have hlater : ∀ k ∈ added, ∃ e, .insert e ∈ w :: ws ∧ tupleOf e = k := fun k hk => by
      obtain ⟨e, he, htuple⟩ := hadded k hk
      exact ⟨e, List.mem_cons_of_mem _ he, htuple⟩
    cases w with
    | insert e =>
      refine ⟨keep, [tupleOf e].filter keep ++ added, fun k hk => ?_, fun store => ?_⟩
      · rcases List.mem_append.mp hk with hk | hk
        · exact ⟨e, List.mem_cons_self, (List.mem_singleton.mp (List.mem_filter.mp hk).1).symm⟩
        · exact hlater k hk
      · rw [List.foldl_cons, htuples, tuples_insert, List.filter_append, List.append_assoc]
    | setMetadata d a b metadata =>
      refine ⟨keep, added, hlater, fun store => ?_⟩
      rw [List.foldl_cons, htuples, tuples_setMetadata]
    | delete d a b =>
      refine ⟨fun k => keep k && k ≠ (d, a, b), added, hlater, fun store => ?_⟩
      rw [List.foldl_cons, htuples, tuples_delete, List.filter_filter]
    | setDeletedAt databaseId itemId deletedAt =>
      exact ⟨keep, added, hlater, fun store => by rw [List.foldl_cons, htuples]; rfl⟩

theorem apply_relationDefinitions (w : EdgeWrite) :
    (apply store w).relationDefinitions = store.relationDefinitions := by
  cases w <;> rfl

theorem foldl_relationDefinitions (ws : List EdgeWrite) :
    ∀ store, (ws.foldl apply store).relationDefinitions = store.relationDefinitions := by
  induction ws with
  | nil => exact fun _ => rfl
  | cons w ws ih => exact fun store => (ih _).trans (apply_relationDefinitions w)

theorem getRelationDefinition_congr (h : store.relationDefinitions = base.relationDefinitions) :
    store.getRelationDefinition = base.getRelationDefinition := by
  unfold Store.getRelationDefinition
  rw [h]

theorem edgesOk_of_compatible (hd : store.relationDefinitions = base.relationDefinitions)
    (h : (tuples store).Pairwise (Compatible base)) : EdgesOk store := by
  have hedges : store.itemRelations.Pairwise fun e e' =>
      Compatible base (tupleOf e) (tupleOf e') := List.pairwise_map.mp h
  have hget := getRelationDefinition_congr hd
  refine ⟨hedges.imp fun hc hsame => ?_, fun definition hdef hcard => ?_,
    fun definition hdef hcard => ?_⟩
  · exact (hc hsame.1).1 (Prod.ext hsame.2.1 hsame.2.2)
  · rw [List.pairwise_filter]
    refine hedges.imp fun {e e'} hc he he' => ?_
    rw [decide_eq_true_eq] at he he'
    have hdef' : base.getRelationDefinition e.relationDefinitionId = some definition := by
      rw [he, ← hget]
      exact hdef
    exact ((hc (he.trans he'.symm)).2 definition hdef').1 hcard
  · rw [List.pairwise_filter]
    refine hedges.imp fun {e e'} hc he he' => ?_
    rw [decide_eq_true_eq] at he he'
    have hdef' : base.getRelationDefinition e.relationDefinitionId = some definition := by
      rw [he, ← hget]
      exact hdef
    exact ((hc (he.trans he'.symm)).2 definition hdef').2 hcard

/-- The check of the trigger: the new tuple may stand beside all that its transaction sees. -/
theorem compatible_of_assertCardinality
    (hd : store.relationDefinitions = base.relationDefinitions)
    (hok : assertCardinality store d a b = .ok ())
    (hnew : store.itemRelations.find? (isEdge d a b) = none) :
    ∀ k ∈ tuples store, Compatible base k (d, a, b) := by
  intro k hk hsame
  obtain ⟨e, he, rfl⟩ := List.mem_map.mp hk
  have hne : tupleOf e ≠ (d, a, b) := fun h => List.find?_eq_none.mp hnew e he (isEdge_iff.mpr h)
  have hed : e.relationDefinitionId = d := hsame
  refine ⟨fun h => hne (Prod.ext hsame h), fun definition hdef => ?_⟩
  have hget : store.getRelationDefinition d = some definition := by
    rw [getRelationDefinition_congr hd]
    exact hed ▸ hdef
  have hid : definition.id = d := by
    simpa using List.find?_some (show List.find? _ _ = some definition from hget)
  unfold assertCardinality at hok
  rw [hget] at hok
  dsimp only at hok
  split_ifs at hok with hconflict
  have hfree := List.any_eq_false.mp (Bool.eq_false_iff.mpr hconflict) e he
  have htuple : ¬ e.itemA = a ∨ ¬ e.itemB = b :=
    not_and_or.mp fun h => hne (Prod.ext hed (Prod.ext h.1 h.2))
  refine ⟨fun hcard => ?_, fun hcard => ?_⟩
  · have hends : ¬ e.itemA = a ∨ ¬ e.itemB = b → ¬ e.itemA = a ∧ ¬ e.itemB = b := by
      simpa [hcard, hid, hed] using hfree
    exact hends htuple
  · have hends : ¬ e.itemA = a ∨ ¬ e.itemB = b → ¬ e.itemB = b := by
      simpa [hcard, hid, hed] using hfree
    exact hends htuple

/-! ## The invariant -/

structure Inv (base : Store) (s : Sys) : Prop where
  definitions : s.db.committed.relationDefinitions = base.relationDefinitions
  committed : (tuples s.db.committed).Pairwise (Compatible base)
  views : ∀ t, (tuples (s.view t)).Pairwise (Compatible base)
  locked : ∀ t e, .insert e ∈ s.db.pending t → s.locks e.relationDefinitionId = some t
  calls : ∀ t c, s.calls t = some c →
    ∃ definition, base.getRelationDefinition c.relationDefinitionId = some definition

theorem inv_init : Inv base (.init base) where
  definitions := rfl
  committed := .nil
  views := fun _ => .nil
  locked := fun _ _ h => absurd h List.not_mem_nil
  calls := fun _ _ h => nomatch h

theorem view_relationDefinitions (hi : Inv base s) (t : ℕ) :
    (s.view t).relationDefinitions = base.relationDefinitions :=
  (foldl_relationDefinitions _ _).trans hi.definitions

theorem Inv.setCall (hi : Inv base s) {c : Option Call} (hc : ∀ call ∈ c,
    ∃ definition, base.getRelationDefinition call.relationDefinitionId = some definition) :
    Inv base (s.setCall t c) where
  definitions := hi.definitions
  committed := hi.committed
  views := hi.views
  locked := hi.locked
  calls := fun u call h => by
    by_cases hut : u = t
    · subst hut
      rw [show (s.setCall u c).calls u = c from Function.update_self ..] at h
      exact hc call h
    · rw [show (s.setCall t c).calls u = s.calls u from Function.update_of_ne hut ..] at h
      exact hi.calls u call h

/-- A statement leaves its transaction with edges that may stand beside each other. -/
theorem Inv.write (hi : Inv base s) {db : ReadCommitted Store EdgeWrite}
    (hdb : s.db.write t [w] = some db)
    (hview : (tuples (apply (s.view t) w)).Pairwise (Compatible base))
    (hlock : ∀ e, w = .insert e → s.locks e.relationDefinitionId = some t) :
    Inv base { s with db := db } := by
  have hp := ReadCommitted.write_pending hdb
  have hc := ReadCommitted.write_committed hdb
  refine ⟨by rw [hc]; exact hi.definitions, by rw [hc]; exact hi.committed, fun u => ?_,
    fun u e he => ?_, hi.calls⟩
  · change (tuples ((db.pending u).foldl apply db.committed)).Pairwise (Compatible base)
    rw [hc, hp]
    by_cases hut : u = t
    · subst hut
      rw [Function.update_self, List.foldl_append]
      exact hview
    · rw [Function.update_of_ne hut]
      exact hi.views u
  · rcases ReadCommitted.mem_write_pending hdb he with he | ⟨rfl, he⟩
    · exact hi.locked u e he
    · exact hlock e (List.mem_singleton.mp he).symm

theorem close_locks {db : ReadCommitted Store EdgeWrite} (h : s.locks d = some u) (hut : u ≠ t) :
    (s.close t db).locks d = some u := by
  change (s.locks d).filter (· ≠ t) = some u
  rw [h, Option.filter_some, if_pos (by simpa using hut)]

theorem Inv.close (hi : Inv base s) {db : ReadCommitted Store EdgeWrite}
    (hp : db.pending = Function.update s.db.pending t [])
    (hd : db.committed.relationDefinitions = base.relationDefinitions)
    (hc : (tuples db.committed).Pairwise (Compatible base))
    (hv : ∀ u, u ≠ t →
      (tuples ((s.db.pending u).foldl apply db.committed)).Pairwise (Compatible base)) :
    Inv base (s.close t db) := by
  refine ⟨hd, hc, fun u => ?_, fun u e he => ?_, (hi.setCall (t := t) (c := none) nofun).calls⟩
  · change (tuples ((db.pending u).foldl apply db.committed)).Pairwise (Compatible base)
    rw [hp]
    by_cases hut : u = t
    · subst hut
      rw [Function.update_self]
      exact hc
    · rw [Function.update_of_ne hut]
      exact hv u hut
  · obtain ⟨hut, he⟩ := ReadCommitted.mem_closed_pending hp he
    exact close_locks (hi.locked u e he) hut

theorem Inv.rollback (hi : Inv base s) {db : ReadCommitted Store EdgeWrite}
    (hdb : s.db.rollback t = some db) : Inv base (s.close t db) := by
  have hc := ReadCommitted.rollback_committed hdb
  refine hi.close (ReadCommitted.rollback_pending hdb) ?_ ?_ fun u _ => ?_
  · rw [hc]
    exact hi.definitions
  · rw [hc]
    exact hi.committed
  · rw [hc]
    exact hi.views u

/-- What the transaction leaves is compatible with what another has added: those tuples are of
other definitions. -/
theorem Inv.commit (hi : Inv base s) {db : ReadCommitted Store EdgeWrite}
    (hdb : s.db.commit apply t = some db) : Inv base (s.close t db) := by
  have hc : db.committed = s.view t := ReadCommitted.commit_committed hdb
  refine hi.close (ReadCommitted.commit_pending hdb) ?_ ?_ fun u hut => ?_
  · rw [hc]
    exact view_relationDefinitions hi t
  · rw [hc]
    exact hi.views t
  · obtain ⟨keep, added, hadded, htuples⟩ := tuples_foldl (s.db.pending u)
    obtain ⟨keep', added', hadded', htuples'⟩ := tuples_foldl (s.db.pending t)
    have hu := hi.views u
    rw [show tuples (s.view u) = _ from htuples _] at hu
    obtain ⟨-, hnew, hcross⟩ := List.pairwise_append.mp hu
    rw [htuples, hc]
    refine List.pairwise_append.mpr ⟨(hi.views t).sublist List.filter_sublist, hnew,
      fun k hk k' hk' => ?_⟩
    obtain ⟨hk, hkeep⟩ := List.mem_filter.mp hk
    rw [show tuples (s.view t) = _ from htuples' _] at hk
    rcases List.mem_append.mp hk with hk | hk
    · exact hcross k (List.mem_filter.mpr ⟨(List.mem_filter.mp hk).1, hkeep⟩) k' hk'
    · intro hsame
      obtain ⟨e, he, rfl⟩ := hadded' k hk
      obtain ⟨e', he', rfl⟩ := hadded k' hk'
      have hlock := hi.locked t e he
      rw [show e.relationDefinitionId = e'.relationDefinitionId from hsame,
        hi.locked u e' he'] at hlock
      exact absurd (Option.some.inj hlock) hut

/-! ## The statements -/

theorem tuples_setDeletedAt (databaseId itemId : ℕ) (deletedAt : Option ℤ) :
    tuples (apply store (.setDeletedAt databaseId itemId deletedAt)) = tuples store := rfl

theorem Sys.write_eq_some (h : s.write t w = some s') :
    ∃ db, s.db.write t [w] = some db ∧ s' = { s.setCall t none with db := db } := by
  obtain ⟨db, hdb, rfl⟩ := Option.map_eq_some_iff.mp h
  exact ⟨db, hdb, rfl⟩

theorem upsertWrite_cases (metadata : JsonObject) :
    (∃ e ∈ (s.view t).itemRelations, isEdge d a b e = true ∧
      s.upsertWrite t d a b metadata = ({ e with metadata }, .setMetadata d a b metadata)) ∨
    (s.view t).itemRelations.find? (isEdge d a b) = none ∧
      ∃ e : ItemRelationRow, tupleOf e = (d, a, b) ∧
        s.upsertWrite t d a b metadata = (e, .insert e) := by
  unfold Sys.upsertWrite
  cases hf : (s.view t).itemRelations.find? (isEdge d a b) with
  | some e => exact .inl ⟨e, List.mem_of_find?_eq_some hf, List.find?_some hf, rfl⟩
  | none => exact .inr ⟨rfl, _, rfl, rfl⟩

theorem loadRelationEdgeContext_ok {p : ℕ} {context : RelationEdgeContext}
    (h : loadRelationEdgeContext store p = .ok context) :
    store.getProperty p = some context.property ∧
      store.getRelationDefinition context.reldef.id = some context.reldef ∧
      (context.reldef.propertyIdA = p ∨ context.reldef.propertyIdB = some p) ∧
      context.property.config.targetDatabaseId = some context.targetDatabaseId := by
  unfold loadRelationEdgeContext at h
  dsimp only at h
  cases hp : store.getProperty p with
  | none =>
    rw [hp] at h
    cases h
  | some property =>
    rw [hp] at h
    dsimp only at h
    by_cases htype : property.type = .relation
    · rw [if_pos htype] at h
      obtain ⟨property, hproperty, h⟩ := except_bind_ok.mp h
      cases hproperty
      cases hid : property.config.relationDefinitionId with
      | none => simp [hid] at h
      | some id =>
        cases htarget : property.config.targetDatabaseId with
        | none => simp [hid, htarget] at h
        | some target =>
          simp only [hid, htarget] at h
          cases hdef : store.getRelationDefinition id with
          | none => simp [hdef] at h
          | some reldef =>
            simp only [hdef] at h
            split_ifs at h with hside
            cases h
            have hsame : reldef.id = id := by
              simpa using List.find?_some (show List.find? _ _ = some reldef from hdef)
            exact ⟨rfl, hsame ▸ hdef, hside, htarget⟩
    · rw [if_neg htype] at h
      cases h

theorem reldef_of_loadRelationEdgeContext {p : ℕ} {context : RelationEdgeContext}
    (h : loadRelationEdgeContext store p = .ok context) :
    store.getRelationDefinition context.reldef.id = some context.reldef :=
  (loadRelationEdgeContext_ok h).2.1

theorem calls_of_load (hi : Inv base s) {p caller target : ℕ} {metadata : Option JsonObject}
    {context : Option SystemRelationWriteContext} {edgeContext : RelationEdgeContext} {op : EdgeOp}
    (h : loadCreatableRelationEdgeContext hook (s.view t) p caller target metadata context =
      .ok edgeContext) :
    Inv base (s.setCall t (some (callOf op edgeContext p caller target))) := by
  unfold loadCreatableRelationEdgeContext at h
  obtain ⟨edgeContext', hload, h⟩ := except_bind_ok.mp h
  obtain ⟨-, -, h⟩ := except_bind_ok.mp h
  obtain ⟨-, -, h⟩ := except_bind_ok.mp h
  obtain ⟨-, -, h⟩ := except_bind_ok.mp h
  obtain ⟨-, -, h⟩ := except_bind_ok.mp h
  cases h
  refine hi.setCall fun call hcall => ?_
  cases hcall
  have hdef := reldef_of_loadRelationEdgeContext hload
  rw [getRelationDefinition_congr (view_relationDefinitions hi t)] at hdef
  exact ⟨_, hdef⟩

theorem calls_of_loadDeletable (hi : Inv base s) {p caller target : ℕ}
    {context : Option SystemRelationWriteContext} {edgeContext : RelationEdgeContext} {op : EdgeOp}
    (h : loadDeletableRelationEdgeContext (s.view t) p context = .ok edgeContext) :
    Inv base (s.setCall t (some (callOf op edgeContext p caller target))) := by
  unfold loadDeletableRelationEdgeContext at h
  obtain ⟨edgeContext', hload, h⟩ := except_bind_ok.mp h
  obtain ⟨-, -, h⟩ := except_bind_ok.mp h
  obtain ⟨-, -, h⟩ := except_bind_ok.mp h
  cases h
  refine hi.setCall fun call hcall => ?_
  cases hcall
  have hdef := reldef_of_loadRelationEdgeContext hload
  rw [getRelationDefinition_congr (view_relationDefinitions hi t)] at hdef
  exact ⟨_, hdef⟩

theorem Inv.congr (hi : Inv base s) (hdb : s'.db = s.db) (hlocks : s'.locks = s.locks)
    (hcalls : s'.calls = s.calls) : Inv base s' where
  definitions := by rw [hdb]; exact hi.definitions
  committed := by rw [hdb]; exact hi.committed
  views := by unfold Sys.view; rw [hdb]; exact hi.views
  locked := by rw [hdb, hlocks]; exact hi.locked
  calls := by rw [hcalls]; exact hi.calls

theorem Inv.lock (hi : Inv base s) (hfree : (s.locks d).all (· = t) = true) :
    Inv base { s with locks := Function.update s.locks d (some t) } where
  definitions := hi.definitions
  committed := hi.committed
  views := hi.views
  locked := fun u e he => by
    have hlock := hi.locked u e he
    by_cases hd : e.relationDefinitionId = d
    · rw [← hd, hlock, Option.all_some, decide_eq_true_eq] at hfree
      change Function.update s.locks d (some t) e.relationDefinitionId = some u
      rw [hd, Function.update_self, hfree]
    · change Function.update s.locks d (some t) e.relationDefinitionId = some u
      rw [Function.update_of_ne hd]
      exact hlock
  calls := hi.calls

theorem Inv.write_sublist (hi : Inv base s) {db : ReadCommitted Store EdgeWrite}
    (hdb : s.db.write t [w] = some db)
    (hsub : (tuples (apply (s.view t) w)).Sublist (tuples (s.view t)))
    (hw : ∀ e, w ≠ .insert e) : Inv base { s with db := db } :=
  hi.write hdb ((hi.views t).sublist hsub) fun e he => absurd he (hw e)

theorem Inv.create (hi : Inv base s) {metadata : JsonObject} (hlock : s.locks d = some t)
    (hok : assertCardinality (s.view t) d a b = .ok ())
    (hs : s.write t (s.upsertWrite t d a b metadata).2 = some s') : Inv base s' := by
  obtain ⟨db, hdb, rfl⟩ := Sys.write_eq_some hs
  have hc := hi.setCall (t := t) (c := none) nofun
  rcases upsertWrite_cases (s := s) (t := t) (d := d) (a := a) (b := b) metadata with
    ⟨e, -, -, hw⟩ | ⟨hnone, e, htuple, hw⟩
  · rw [hw] at hdb
    refine hc.write_sublist hdb ?_ nofun
    rw [tuples_setMetadata]
  · rw [hw] at hdb
    have hed : e.relationDefinitionId = d := congrArg Prod.fst htuple
    refine hc.write hdb ?_ fun e' he => ?_
    · rw [tuples_insert]
      refine List.pairwise_append.mpr ⟨hi.views t, List.pairwise_singleton _ _, fun k hk k' hk' => ?_⟩
      rw [List.mem_singleton.mp hk', htuple]
      exact compatible_of_assertCardinality (view_relationDefinitions hi t) hok hnone k hk
    · cases he
      exact hed ▸ hlock

theorem inv_rolledBack (hi : Inv base s) (hs : (s.db.rollback t).map (s.close t) = some s') :
    Inv base s' := by
  obtain ⟨db, hdb, rfl⟩ := Option.map_eq_some_iff.mp hs
  exact hi.rollback hdb

theorem inv_statement (hi : Inv base s) (hs : step hook s (.statement t) = some s') :
    Inv base s' := by
  obtain ⟨c, hcall, hs⟩ := Option.bind_eq_some_iff.mp hs
  by_cases hl : s.db.Locked t (EdgeWrite.onEdge c.relationDefinitionId c.itemA c.itemB)
  · rw [if_pos hl] at hs
    cases hs
  rw [if_neg hl] at hs
  cases hop : c.op with
  | create metadata =>
    rw [hop] at hs
    dsimp only at hs
    split_ifs at hs with hlock
    split at hs
    case h_1 u hok =>
      obtain ⟨s₁, hs₁, rfl⟩ := Option.map_eq_some_iff.mp hs
      exact (hi.create hlock hok hs₁).congr rfl rfl rfl
    case h_2 => exact inv_rolledBack hi hs
  | update metadata =>
    rw [hop] at hs
    dsimp only at hs
    split_ifs at hs
    · obtain ⟨db, hdb, rfl⟩ := Sys.write_eq_some hs
      refine (hi.setCall (t := t) (c := none) nofun).write_sublist hdb ?_ nofun
      rw [tuples_setMetadata]
    · exact inv_rolledBack hi hs
  | delete =>
    rw [hop] at hs
    obtain ⟨db, hdb, rfl⟩ := Sys.write_eq_some hs
    refine (hi.setCall (t := t) (c := none) nofun).write_sublist hdb ?_ nofun
    rw [tuples_delete]
    exact List.filter_sublist

theorem inv_preserved (hi : Inv base s) {act : Act} (hs : step hook s act = some s') :
    Inv base s' := by
  cases act with
  | begin t =>
    obtain ⟨db, hdb, rfl⟩ := Option.map_eq_some_iff.mp hs
    have hc := ReadCommitted.begin_committed hdb
    have hp := ReadCommitted.begin_pending hdb
    refine ⟨by rw [hc]; exact hi.definitions, by rw [hc]; exact hi.committed, ?_,
      by rw [hp]; exact hi.locked, hi.calls⟩
    intro u
    change (tuples ((db.pending u).foldl apply db.committed)).Pairwise (Compatible base)
    rw [hc, hp]
    exact hi.views u
  | createRelation t input context | updateRelation t input context =>
    simp only [step] at hs
    split_ifs at hs
    split at hs
    case h_1 edgeContext hload =>
      cases hs
      exact calls_of_load hi hload
    case h_2 => exact inv_rolledBack hi hs
  | deleteRelation t input context =>
    simp only [step] at hs
    split_ifs at hs
    split at hs
    case h_1 edgeContext hload =>
      cases hs
      exact calls_of_loadDeletable hi hload
    case h_2 => exact inv_rolledBack hi hs
  | lock t =>
    obtain ⟨c, hcall, hs⟩ := Option.bind_eq_some_iff.mp hs
    split at hs
    case h_1 =>
      split_ifs at hs with hfree
      cases hs
      exact hi.lock hfree
    case h_2 => cases hs
  | statement t => exact inv_statement hi hs
  | setDeletedAt t databaseId itemId deletedAt =>
    simp only [step] at hs
    split_ifs at hs
    obtain ⟨db, hdb, rfl⟩ := Option.map_eq_some_iff.mp hs
    refine hi.write_sublist hdb ?_ nofun
    rw [tuples_setDeletedAt]
  | commit t =>
    simp only [step] at hs
    split_ifs at hs
    obtain ⟨db, hdb, rfl⟩ := Option.map_eq_some_iff.mp hs
    exact hi.commit hdb
  | rollback t => exact inv_rolledBack hi hs

/-! ## An edge that exists -/

instance : Std.Symm (Compatible base) where
  symm k k' h := fun hsame => by
    obtain ⟨hne, hcard⟩ := h hsame.symm
    refine ⟨hne.symm, fun definition hdef => ?_⟩
    obtain ⟨hone, hmany⟩ := hcard definition (hsame ▸ hdef)
    exact ⟨fun h => ⟨(hone h).1.symm, (hone h).2.symm⟩, fun h => (hmany h).symm⟩

theorem compatible_of_ne (h : (tuples store).Pairwise (Compatible base)) {e e' : ItemRelationRow}
    (he : e ∈ store.itemRelations) (he' : e' ∈ store.itemRelations) (hne : tupleOf e ≠ tupleOf e') :
    Compatible base (tupleOf e) (tupleOf e') :=
  h.forall (List.mem_map_of_mem he) (List.mem_map_of_mem he') hne

theorem eq_of_tupleOf_eq (h : (tuples store).Pairwise (Compatible base)) {e e' : ItemRelationRow}
    (he : e ∈ store.itemRelations) (he' : e' ∈ store.itemRelations)
    (hsame : tupleOf e = tupleOf e') : e = e' := by
  refine List.inj_on_of_nodup_map (h.imp fun {k k'} hc heq => ?_) he he' hsame
  subst heq
  exact (hc rfl).1 rfl

/-- No edge stands in the way of one that exists. -/
theorem assertCardinality_of_mem (hd : store.relationDefinitions = base.relationDefinitions)
    (h : (tuples store).Pairwise (Compatible base)) {e : ItemRelationRow}
    (he : e ∈ store.itemRelations) (hedge : isEdge d a b e = true)
    {definition : RelationDefinitionRow} (hdef : base.getRelationDefinition d = some definition) :
    assertCardinality store d a b = .ok () := by
  have hget : store.getRelationDefinition d = some definition := by
    rw [getRelationDefinition_congr hd]
    exact hdef
  have hid : definition.id = d := by
    simpa using List.find?_some (show List.find? _ _ = some definition from hget)
  have htuple := isEdge_iff.mp hedge
  have hfree : cardinalityConflict store definition a b = false := by
    refine List.any_eq_false.mpr fun e' he' hconflict => ?_
    simp only [Bool.and_eq_true, decide_eq_true_eq, Bool.not_eq_true', Bool.and_eq_false_iff,
      decide_eq_false_iff_not] at hconflict
    obtain ⟨⟨hsame, hother⟩, hends⟩ := hconflict
    rw [hid] at hsame
    have hne : tupleOf e' ≠ tupleOf e := fun heq => by
      rw [htuple] at heq
      simp only [tupleOf, Prod.mk.injEq] at heq
      exact hother.elim (fun h => h heq.2.1) fun h => h heq.2.2
    have hc := compatible_of_ne h he' he hne
    rw [htuple] at hc
    obtain ⟨hone, hmany⟩ := (hc hsame).2 definition (by rw [tupleOf, hsame]; exact hdef)
    cases hcard : definition.cardinality with
    | one_to_one =>
      rw [hcard] at hends
      simp only [Bool.or_eq_true, decide_eq_true_eq] at hends
      exact hends.elim (hone hcard).1 (hone hcard).2
    | one_to_many =>
      rw [hcard] at hends
      exact hmany hcard (of_decide_eq_true hends)
    | many_to_many =>
      rw [hcard] at hends
      cases hends
  unfold assertCardinality
  rw [hget]
  dsimp only
  rw [hfree]
  rfl

theorem recreate (hi : Inv base s) {c : Call} {metadata : Option JsonObject} {e : ItemRelationRow}
    (hcall : s.calls t = some c) (hop : c.op = .create metadata)
    (he : e ∈ (s.view t).itemRelations)
    (hedge : isEdge c.relationDefinitionId c.itemA c.itemB e = true)
    (hs : step hook s (.statement t) = some s') :
    s'.returned = s.returned ++ [{ e with metadata := metadata.getD [] }] ∧
      (s'.view t).itemRelations = (s.view t).itemRelations.map fun e' =>
        if isEdge c.relationDefinitionId c.itemA c.itemB e' then
          { e' with metadata := metadata.getD [] }
        else e' := by
  obtain ⟨definition, hdef⟩ := hi.calls t c hcall
  have hok := assertCardinality_of_mem (view_relationDefinitions hi t) (hi.views t) he hedge hdef
  have hwrite : s.upsertWrite t c.relationDefinitionId c.itemA c.itemB (metadata.getD []) =
      ({ e with metadata := metadata.getD [] },
        .setMetadata c.relationDefinitionId c.itemA c.itemB (metadata.getD [])) := by
    rcases upsertWrite_cases (s := s) (t := t) (metadata.getD []) with
      ⟨e', he', hedge', hw⟩ | ⟨hnone, -⟩
    · rw [hw, eq_of_tupleOf_eq (hi.views t) he' he
        ((isEdge_iff.mp hedge').trans (isEdge_iff.mp hedge).symm)]
    · exact absurd hedge (List.find?_eq_none.mp hnone e he)
  simp only [step, hcall, Option.bind_some, hop, hok, hwrite] at hs
  split_ifs at hs with hl hlock
  obtain ⟨s₁, hs₁, rfl⟩ := Option.map_eq_some_iff.mp hs
  obtain ⟨db, hdb, rfl⟩ := Sys.write_eq_some hs₁
  refine ⟨rfl, ?_⟩
  change ((db.pending t).foldl apply db.committed).itemRelations = _
  rw [ReadCommitted.write_pending hdb, ReadCommitted.write_committed hdb, Function.update_self,
    List.foldl_append]
  rfl

/-- In every committed state the edges keep to their definitions' cardinality, and creating an edge
that exists returns it with its metadata replaced, and changes nothing else. -/
theorem cardinality (hook : RelationEdgeWriteHook) (base : Store) (s : Sys)
    (hs : Reach (step hook) (fun _ _ => True) (.init base) s) :
    EdgesOk s.db.committed ∧
      ∀ t c metadata e s', s.calls t = some c → c.op = .create metadata →
        e ∈ (s.view t).itemRelations →
        isEdge c.relationDefinitionId c.itemA c.itemB e = true →
        step hook s (.statement t) = some s' →
          s'.returned = s.returned ++ [{ e with metadata := metadata.getD [] }] ∧
            (s'.view t).itemRelations = (s.view t).itemRelations.map fun e' =>
              if isEdge c.relationDefinitionId c.itemA c.itemB e' then
                { e' with metadata := metadata.getD [] }
              else e' := by
  have hi : Inv base s := hs.invariant inv_init fun _ _ _ hi _ hs => inv_preserved hi hs
  exact ⟨edgesOk_of_compatible hi.definitions hi.committed,
    fun t c metadata e s' hcall hop he hedge hs => recreate hi hcall hop he hedge hs⟩

def linkable : Store := { Store.empty with
  databases := [⟨1, none, none, none, none, none, false, false, none⟩,
    ⟨2, none, none, none, none, none, false, false, none⟩]
  properties := [⟨10, 1, "owner", none, .relation,
    { PropertyConfig.empty with relationDefinitionId := some 20, targetDatabaseId := some 2 },
    false, .user, none, .stable⟩]
  relationDefinitions := [⟨20, 10, none, .one_to_many⟩]
  items := [⟨100, 1, [], [], 0, none⟩, ⟨200, 2, [], [], 0, none⟩] }

def noHook : RelationEdgeWriteHook := fun _ _ _ _ _ => .ok ()

/-- An edge is created with metadata, and again without. -/
def relinked : List Act :=
  [.begin 0, .createRelation 0 ⟨10, 100, 200, some [("role", .null)]⟩ none, .lock 0, .statement 0,
    .commit 0, .begin 1, .createRelation 1 ⟨10, 100, 200, none⟩ none, .lock 1]

theorem cardinality_relinked : ∃ s, runActs (step noHook) (.init linkable) relinked = some s ∧
    s.db.committed.itemRelations.length = 1 ∧ EdgesOk s.db.committed := by
  obtain ⟨s, hs⟩ := Option.isSome_iff_exists.mp
    (rfl : (runActs (step noHook) (.init linkable) relinked).isSome = true)
  exact ⟨s, hs, eq_of_map_eq (f := fun s : Sys => s.db.committed.itemRelations.length) hs rfl,
    (cardinality noHook linkable s (.of_runActs hs)).1⟩

/-- The second create takes the metadata away. -/
theorem relinked_metadata : ¬ ∀ (hook : RelationEdgeWriteHook) (base : Store) (s : Sys),
    Reach (step hook) (fun _ _ => True) (.init base) s → s.RecreateKeeps hook := by
  intro hall
  obtain ⟨s, hs⟩ := Option.isSome_iff_exists.mp
    (rfl : (runActs (step noHook) (.init linkable) relinked).isSome = true)
  have hcall : s.calls 1 = some ⟨.create none, 20, 100, 200⟩ :=
    eq_of_map_eq (f := fun s : Sys => s.calls 1) hs rfl
  have hview : (s.view 1).itemRelations = [⟨0, 20, 100, 200, [("role", .null)]⟩] :=
    eq_of_map_eq (f := fun s : Sys => (s.view 1).itemRelations) hs rfl
  have hstep : (step noHook s (.statement 1)).map (fun s' => (s'.view 1).itemRelations) =
      some [⟨0, 20, 100, 200, []⟩] :=
    eq_of_map_eq (f := fun s : Sys => (step noHook s (.statement 1)).map fun s' =>
      (s'.view 1).itemRelations) hs rfl
  obtain ⟨s', hs', hafter⟩ := Option.map_eq_some_iff.mp hstep
  have hkeeps := hall noHook linkable s (.of_runActs hs) 1 _ none _ s' hcall rfl
    (by rw [hview]; exact List.mem_singleton_self _) rfl hs'
  rw [hafter, hview] at hkeeps
  simp at hkeeps

end RelationEdges

end Semprec
