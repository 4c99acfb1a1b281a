import Mathlib.Data.List.Nodup
import Semprec.Proofs.RelationEdges
import Semprec.RecurringTasks

/-!
# What a completion of a recurring task leaves

The writes of a completion are its patch, the next instance with its recurrence, and the copies of
its edges (`writes`); what they make of the tables is said once (`afterWrites`).  The lock on the
recurrence keeps a second completion of the task from advancing it, and the id of the next instance
is nowhere in the committed tables until its transaction commits, so nothing that others commit gets
in the way of a copy.
-/

namespace Semprec

namespace RecurringTasks

open Relations Items

open RelationEdges (loadRelationEdgeContext_ok)

variable {ctx : Context} {store base : Store} {s s' : Sys} {t u d i n x databaseId seq : ℕ}
  {patch : JsonObject} {adv : Option (ItemRow × TaskRecurrence)} {copies : List ItemRelationRow}
  {c : Call}

/-! ## The writes -/

def advanceWrites (i : ℕ) : Option (ItemRow × TaskRecurrence) → List Write
  | none => []
  | some (item, r) => [.insertItem item, .createTaskRecurrence ⟨item.id, r.mode, r.rule, true⟩,
      .setTaskRecurrenceActive i false]

def writes (databaseId i : ℕ) (patch : JsonObject) (adv : Option (ItemRow × TaskRecurrence))
    (copies : List ItemRelationRow) : List Write :=
  .setProperties databaseId i patch :: advanceWrites i adv ++
    copies.map fun e => .edge (.insert e)

def deactivated (i : ℕ) (rs : List TaskRecurrence) : List TaskRecurrence :=
  rs.map fun r => if r.itemId = i then { r with active := false } else r

def patched (ctx : Context) (databaseId i : ℕ) (patch : JsonObject) (r : ItemRow) : ItemRow :=
  if r.isAt databaseId i then
    { r with properties := r.properties.merge patch, updatedAt := ctx.env.now }
  else r

def afterWrites (ctx : Context) (store : Store) (databaseId i : ℕ) (patch : JsonObject)
    (adv : Option (ItemRow × TaskRecurrence)) (copies : List ItemRelationRow) : Store :=
  { store with
    items := store.items.map (patched ctx databaseId i patch) ++ (adv.map Prod.fst).toList
    itemRelations := store.itemRelations ++ copies
    taskRecurrences := match adv with
      | none => store.taskRecurrences
      | some (item, r) =>
        deactivated i (store.taskRecurrences ++ [⟨item.id, r.mode, r.rule, true⟩]) }

theorem foldl_copies (copies : List ItemRelationRow) (store : Store) :
    (copies.map fun e => Write.edge (.insert e)).foldl (apply ctx) store =
      { store with itemRelations := store.itemRelations ++ copies } := by
  induction copies generalizing store with
  | nil => simp
  | cons e copies ih =>
    rw [List.map_cons, List.foldl_cons, ih]
    simp [apply, RelationEdges.apply]

theorem foldl_writes : (writes databaseId i patch adv copies).foldl (apply ctx) store =
    afterWrites ctx store databaseId i patch adv copies := by
  unfold writes
  rw [List.foldl_append, foldl_copies]
  rcases adv with _ | ⟨item, r⟩
  · simp [advanceWrites, apply, afterWrites, Store.updateItem, patched]
  · simp [advanceWrites, apply, afterWrites, Store.updateItem, patched, createTaskRecurrence,
      setTaskRecurrenceActive, deactivated]

theorem writes_append {e : ItemRelationRow} : writes databaseId i patch adv copies ++
    [Write.edge (.insert e)] = writes databaseId i patch adv (copies ++ [e]) := by
  simp [writes]

/-! ## Recurrences -/

theorem getTaskRecurrence_deactivated {rs : List TaskRecurrence} (hx : x ≠ i) :
    (deactivated i rs).find? (fun r => r.itemId = x) = rs.find? fun r => r.itemId = x := by
  induction rs with
  | nil => rfl
  | cons r rs ih =>
    unfold deactivated at *
    rw [List.map_cons, List.find?_cons, List.find?_cons, ih]
    by_cases hr : r.itemId = i
    · have hix : ¬ i = x := fun h => hx h.symm
      simp [hr, hix]
    · simp [hr]

theorem getTaskRecurrence_afterWrites (hx : adv = none ∨ x ≠ i ∧ ∀ a ∈ adv, a.1.id ≠ x) :
    getTaskRecurrence (afterWrites ctx store databaseId i patch adv copies) x =
      getTaskRecurrence store x := by
  rcases adv with _ | ⟨item, r⟩
  · rfl
  · rcases hx with hx | ⟨hxi, hne⟩
    · cases hx
    · have hid : item.id ≠ x := hne (item, r) rfl
      show (deactivated i _).find? _ = _
      rw [getTaskRecurrence_deactivated hxi, List.find?_append]
      simp [hid, getTaskRecurrence]

/-! ## Lookups -/

theorem patched_isAt {databaseId' : ℕ} (r : ItemRow) :
    (patched ctx databaseId i patch r).isAt databaseId' x = r.isAt databaseId' x := by
  unfold patched
  split_ifs <;> rfl

theorem getItemById_afterWrites {databaseId' : ℕ} (hx : ∀ a ∈ adv, a.1.id ≠ x) :
    (afterWrites ctx store databaseId i patch adv copies).getItemById databaseId' x =
      (store.getItemById databaseId' x).map (patched ctx databaseId i patch) := by
  have hpatched : ((fun r : ItemRow => r.isAt databaseId' x) ∘ patched ctx databaseId i patch) =
      fun r => r.isAt databaseId' x := funext patched_isAt
  have hnext : (adv.map Prod.fst).toList.find? (fun r => r.isAt databaseId' x) = none := by
    rcases adv with _ | ⟨item, r⟩
    · rfl
    · have hid : item.id ≠ x := hx (item, r) rfl
      simp [ItemRow.isAt, hid]
  unfold Store.getItemById afterWrites
  rw [List.find?_append, List.find?_map, hpatched, hnext, Option.or_none]

/-- The row of another item is not touched. -/
theorem getItemById_afterWrites_of_ne {databaseId' : ℕ} (hx : ∀ a ∈ adv, a.1.id ≠ x)
    (hne : ¬ (databaseId = databaseId' ∧ i = x)) :
    (afterWrites ctx store databaseId i patch adv copies).getItemById databaseId' x =
      store.getItemById databaseId' x := by
  rw [getItemById_afterWrites hx]
  rcases hget : store.getItemById databaseId' x with _ | r
  · rfl
  · have hat := List.find?_some (show List.find? _ _ = some r from hget)
    simp only [ItemRow.isAt, decide_eq_true_eq] at hat
    have hnot : r.isAt databaseId i = false := by
      simp only [ItemRow.isAt, decide_eq_false_iff_not]
      omega
    simp [patched, hnot]

def liveness (store : Store) (databaseId x : ℕ) : Option Bool :=
  (store.getItemById databaseId x).map fun r => r.deletedAt.isSome

theorem liveness_afterWrites {databaseId' : ℕ} (hx : ∀ a ∈ adv, a.1.id ≠ x) :
    liveness (afterWrites ctx store databaseId i patch adv copies) databaseId' x =
      liveness store databaseId' x := by
  have hdeleted : ∀ r : ItemRow, (patched ctx databaseId i patch r).deletedAt = r.deletedAt := by
    intro r
    unfold patched
    split_ifs <;> rfl
  unfold liveness
  rw [getItemById_afterWrites hx, Option.map_map]
  congr 1
  exact funext fun r => congrArg Option.isSome (hdeleted r)

/-- The other end, where it is there and not in the trash. -/
theorem counterpart_congr {o o' : Option ItemRow} (p : ℕ) :
    o'.map (fun r => r.deletedAt.isSome) = o.map (fun r => r.deletedAt.isSome) →
    (match o' with
      | none => none
      | some item => if item.deletedAt.isSome then none else some p) =
    (match o with
      | none => none
      | some item => if item.deletedAt.isSome then none else some p : Option ℕ) := by
  intro h
  rcases o with _ | r <;> rcases o' with _ | r'
  · rfl
  · cases h
  · cases h
  · have h : r'.deletedAt.isSome = r.deletedAt.isSome := Option.some.inj h
    simp only [h]

theorem copiedSide_congr {store' : Store} {e : ItemRelationRow}
    (hdefinitions : store'.relationDefinitions = store.relationDefinitions)
    (hproperties : store'.properties = store.properties)
    (hA : ∀ databaseId, liveness store' databaseId e.itemA = liveness store databaseId e.itemA)
    (hB : ∀ databaseId, liveness store' databaseId e.itemB = liveness store databaseId e.itemB) :
    copiedSide store' i e = copiedSide store i e := by
  unfold copiedSide Store.getRelationDefinition Store.getProperty
  rw [hdefinitions, hproperties]
  split
  · rfl
  split
  · rfl
  split
  · rfl
  · refine counterpart_congr _ ?_
    split_ifs
    · exact hA _
    · exact hB _

/-! ## The copies -/

/-- The relation permits a copy beside the edge itself: nothing that may occur once only is used
again. -/
def CardinalityPermits (cardinality : Cardinality) (i : ℕ) (e : ItemRelationRow) : Prop :=
  match cardinality with
  | .many_to_many => True
  | .one_to_many => e.itemB = i
  | .one_to_one => e.itemA = i ∧ e.itemB = i

/-- The relation of an edge of the task, as its copy finds it: not archived on either side, the
user's or the module's own, with the task's database on the task's side, its metadata accepted, and
permitting the copy. -/
structure Permitted (ctx : Context) (store : Store) (databaseId i n : ℕ) (e : ItemRelationRow)
    (relationPropertyId : ℕ) (context : RelationEdgeContext) : Prop where
  loads : loadRelationEdgeContext store relationPropertyId = .ok context
  of_edge : context.reldef.id = e.relationDefinitionId
  not_archived : assertRelationDatabasesNotArchived store context = .ok ()
  writable : assertRelationPropertyWritable context.property (some tasksRelationContext) = .ok ()
  side_a : e.itemA = i → context.property.databaseId = databaseId
  side_b : e.itemB = i → context.targetDatabaseId = databaseId
  hook : ctx.env.relationEdgeWriteHook store context (relinked i n e).1 (relinked i n e).2
    (some e.metadata) = .ok ()
  cardinality : CardinalityPermits context.reldef.cardinality i e

def edgeData (e : ItemRelationRow) : ℕ × (ℕ × ℕ) × JsonObject :=
  (e.relationDefinitionId, (e.itemA, e.itemB), e.metadata)

def copyData (i n : ℕ) (e : ItemRelationRow) : ℕ × (ℕ × ℕ) × JsonObject :=
  (e.relationDefinitionId, relinked i n e, e.metadata)

theorem copiedSide_some {p : ℕ} {e : ItemRelationRow} (h : copiedSide store i e = some p) :
    ∃ reldef propertyA target, store.getRelationDefinition e.relationDefinitionId = some reldef ∧
      reldef.propertyIdA = p ∧ store.getProperty p = some propertyA ∧
        propertyA.config.targetDatabaseId = some target ∧
          (e.itemA ≠ i → liveness store propertyA.databaseId e.itemA = some false) ∧
            (e.itemA = i → liveness store target e.itemB = some false) := by
  unfold copiedSide at h
  split at h
  · cases h
  rename_i reldef hreldef
  split at h
  · cases h
  rename_i propertyA hpropertyA
  split at h
  · cases h
  rename_i target htarget
  dsimp only at h
  split at h
  · cases h
  rename_i item hitem
  split_ifs at h with hdeleted
  cases h
  refine ⟨reldef, propertyA, target, hreldef, rfl, hpropertyA, htarget, fun hA => ?_, fun hA => ?_⟩
  · rw [if_pos hA] at hitem
    simpa [liveness, hitem] using hdeleted
  · rw [if_neg (not_not.mpr hA)] at hitem
    simpa [liveness, hitem] using hdeleted

theorem assertRelationEndpointValid_ok {field : String}
    (h : liveness store databaseId x = some false) :
    assertRelationEndpointValid store databaseId x field = .ok () := by
  unfold assertRelationEndpointValid
  unfold liveness at h
  rcases hx : store.getItemById databaseId x with _ | item
  · rw [hx] at h
    cases h
  · rw [hx] at h
    have hd : item.deletedAt = none := by simpa using h
    simp [hd]

theorem copyWrite_ok {p id : ℕ} {e : ItemRelationRow} {context : RelationEdgeContext}
    (hside : copiedSide store i e = some p) (hlisted : e.itemA = i ∨ e.itemB = i)
    (hp : Permitted ctx store databaseId i n e p context)
    (hnew : liveness store databaseId n = some false)
    (hnone : ∀ e' ∈ store.itemRelations, e'.relationDefinitionId = e.relationDefinitionId →
      (e'.itemA, e'.itemB) ≠ relinked i n e)
    (hconflict : cardinalityConflict store context.reldef (relinked i n e).1 (relinked i n e).2 =
      false) :
    copyWrite ctx store i n e p id = .ok (.edge (.insert
      ⟨id, e.relationDefinitionId, (relinked i n e).1, (relinked i n e).2, e.metadata⟩)) := by
  obtain ⟨reldef, propertyA, target, hreldef, hidA, hpropertyA, htarget, hliveA, hliveB⟩ :=
    copiedSide_some hside
  obtain ⟨hproperty, hget, -, htarget'⟩ := loadRelationEdgeContext_ok hp.loads
  have hsame : context.reldef = reldef := by
    rw [hp.of_edge, hreldef] at hget
    exact (Option.some.inj hget).symm
  have hpropertyA' : context.property = propertyA := by
    rw [hpropertyA] at hproperty
    exact (Option.some.inj hproperty).symm
  have htarget'' : context.targetDatabaseId = target := by
    rw [hpropertyA', htarget] at htarget'
    exact (Option.some.inj htarget').symm
  have hendA : liveness store context.property.databaseId (relinked i n e).1 = some false := by
    by_cases hA : e.itemA = i
    · simpa [relinked, hA, hp.side_a hA] using hnew
    · simpa [relinked, hA, hpropertyA'] using hliveA hA
  have hendB : liveness store context.targetDatabaseId (relinked i n e).2 = some false := by
    by_cases hB : e.itemB = i
    · simpa [relinked, hB, hp.side_b hB] using hnew
    · simpa [relinked, hB, htarget''] using hliveB (hlisted.resolve_right hB)
  have hload : loadCreatableRelationEdgeContext ctx.env.relationEdgeWriteHook store p
      (relinked i n e).1 (relinked i n e).2 (some e.metadata) (some tasksRelationContext) =
        .ok context := by
    unfold loadCreatableRelationEdgeContext assertRelationEndpointsValid
    rw [hp.loads]
    simp only [except_bind_ok]
    exact ⟨context, rfl, (), hp.not_archived, (), hp.writable, (),
      ⟨(), assertRelationEndpointValid_ok hendA, assertRelationEndpointValid_ok hendB⟩,
      (), hp.hook, rfl⟩
  have hsides : normalizeRelationSides context.reldef p (relinked i n e).1 (relinked i n e).2 =
      relinked i n e := by
    unfold normalizeRelationSides
    rw [hsame, if_pos hidA]
  have hcardinality : assertCardinality store context.reldef.id (relinked i n e).1
      (relinked i n e).2 = .ok () := by
    unfold assertCardinality
    rw [hget]
    simp [hconflict]
  have hfind : store.itemRelations.find?
      (isEdge context.reldef.id (relinked i n e).1 (relinked i n e).2) = none := by
    rw [List.find?_eq_none]
    intro e' he' hedge
    simp only [isEdge, decide_eq_true_eq] at hedge
    exact hnone e' he' (hedge.1.trans hp.of_edge) (Prod.ext hedge.2.1 hedge.2.2)
  unfold copyWrite
  simp only [except_bind_ok]
  refine ⟨context, hload, (), ?_, ?_⟩
  · rw [hsides]
    exact hcardinality
  · rw [hsides, hfind, hp.of_edge]
    rfl

theorem pairwise_listed {listed : List ItemRelationRow} (h : RelationEdges.EdgesOk store)
    (hlisted : store.listAllRelationsForItem i = listed) {reldef : RelationDefinitionRow}
    (hget : store.getRelationDefinition reldef.id = some reldef) :
    listed.Pairwise fun e e' => e.relationDefinitionId = reldef.id →
      e'.relationDefinitionId = reldef.id →
        ¬ (e.itemA = e'.itemA ∧ e.itemB = e'.itemB) ∧
          (reldef.cardinality = .one_to_one → e.itemA ≠ e'.itemA ∧ e.itemB ≠ e'.itemB) ∧
            (reldef.cardinality = .one_to_many → e.itemB ≠ e'.itemB) := by
  have hone : reldef.cardinality = .one_to_one → store.itemRelations.Pairwise fun e e' =>
      e.relationDefinitionId = reldef.id → e'.relationDefinitionId = reldef.id →
        e.itemA ≠ e'.itemA ∧ e.itemB ≠ e'.itemB := fun hc => by
    simpa [List.pairwise_filter] using h.one_to_one reldef hget hc
  have hmany : reldef.cardinality = .one_to_many → store.itemRelations.Pairwise fun e e' =>
      e.relationDefinitionId = reldef.id → e'.relationDefinitionId = reldef.id →
        e.itemB ≠ e'.itemB := fun hc => by
    simpa [List.pairwise_filter] using h.one_to_many reldef hget hc
  have hall : store.itemRelations.Pairwise fun e e' => e.relationDefinitionId = reldef.id →
      e'.relationDefinitionId = reldef.id →
        ¬ (e.itemA = e'.itemA ∧ e.itemB = e'.itemB) ∧
          (reldef.cardinality = .one_to_one → e.itemA ≠ e'.itemA ∧ e.itemB ≠ e'.itemB) ∧
            (reldef.cardinality = .one_to_many → e.itemB ≠ e'.itemB) := by
    rcases hc : reldef.cardinality with _ | _ | _
    · exact (h.tuple.and (hone hc)).imp fun hp hd hd' =>
        ⟨fun he => hp.1 ⟨hd.trans hd'.symm, he⟩, fun _ => hp.2 hd hd', nofun⟩
    · exact (h.tuple.and (hmany hc)).imp fun hp hd hd' =>
        ⟨fun he => hp.1 ⟨hd.trans hd'.symm, he⟩, nofun, fun _ => hp.2 hd hd'⟩
    · exact h.tuple.imp fun hp hd hd' => ⟨fun he => hp ⟨hd.trans hd'.symm, he⟩, nofun, nofun⟩
  rw [← hlisted]
  exact hall.filter _

theorem exists_of_mem_copies {done : List ItemRelationRow} {f : ItemRelationRow → Bool}
    (hcopies : copies.map edgeData = (done.filter f).map (copyData i n)) {e' : ItemRelationRow}
    (he' : e' ∈ copies) : ∃ e ∈ done, edgeData e' = copyData i n e := by
  have hmem : edgeData e' ∈ (done.filter f).map (copyData i n) :=
    hcopies ▸ List.mem_map_of_mem he'
  obtain ⟨e, he, heq⟩ := List.mem_map.mp hmem
  exact ⟨e, (List.mem_filter.mp he).1, heq.symm⟩

theorem relinked_fst {e : ItemRelationRow} (hn : e.itemA ≠ n) :
    (relinked i n e).1 = n ↔ e.itemA = i := by
  show (if e.itemA = i then n else e.itemA) = n ↔ _
  split_ifs with h <;> simp [h, hn]

theorem relinked_snd {e : ItemRelationRow} (hn : e.itemB ≠ n) :
    (relinked i n e).2 = n ↔ e.itemB = i := by
  show (if e.itemB = i then n else e.itemB) = n ↔ _
  split_ifs with h <;> simp [h, hn]

theorem relinked_injective {e e' : ItemRelationRow} (hA : e.itemA ≠ n) (hB : e.itemB ≠ n)
    (hA' : e'.itemA ≠ n) (hB' : e'.itemB ≠ n) (h : relinked i n e = relinked i n e') :
    e.itemA = e'.itemA ∧ e.itemB = e'.itemB := by
  unfold relinked at h
  simp only [Prod.mk.injEq] at h
  refine ⟨?_, ?_⟩
  · have := h.1
    split_ifs at this <;> omega
  · have := h.2
    split_ifs at this <;> omega

theorem no_edge_in_the_way {seen : Store} {done left : List ItemRelationRow} {e : ItemRelationRow}
    {f : ItemRelationRow → Bool} {reldef : RelationDefinitionRow}
    (hok : RelationEdges.EdgesOk seen)
    (hlisted : seen.listAllRelationsForItem i = done ++ e :: left)
    (hget : seen.getRelationDefinition reldef.id = some reldef)
    (hedge : reldef.id = e.relationDefinitionId)
    (hpermits : CardinalityPermits reldef.cardinality i e)
    (hcopies : copies.map edgeData = (done.filter f).map (copyData i n))
    (hbase : ∀ e' ∈ base.itemRelations, e'.itemA ≠ n ∧ e'.itemB ≠ n)
    (hends : ∀ e' ∈ seen.listAllRelationsForItem i, e'.itemA ≠ n ∧ e'.itemB ≠ n)
    (hview : store.itemRelations = base.itemRelations ++ copies) :
    (∀ e' ∈ store.itemRelations, e'.relationDefinitionId = e.relationDefinitionId →
      (e'.itemA, e'.itemB) ≠ relinked i n e) ∧
      cardinalityConflict store reldef (relinked i n e).1 (relinked i n e).2 = false := by
  have hmem : e ∈ seen.listAllRelationsForItem i := by simp [hlisted]
  have htouches : e.itemA = i ∨ e.itemB = i := by
    simpa [Store.listAllRelationsForItem] using (List.mem_filter.mp hmem).2
  have hpair := pairwise_listed hok hlisted hget
  -- an edge of the relation that mentions the new item is the copy of an edge before this one
  have hsource : ∀ e' ∈ store.itemRelations, e'.relationDefinitionId = reldef.id →
      e'.itemA = n ∨ e'.itemB = n → ∃ e₀ ∈ done, e₀.relationDefinitionId = reldef.id ∧
        (e'.itemA, e'.itemB) = relinked i n e₀ ∧ e₀.itemA ≠ n ∧ e₀.itemB ≠ n := by
    intro e' he' hdef hn
    rw [hview] at he'
    rcases List.mem_append.mp he' with he' | he'
    · obtain ⟨hA, hB⟩ := hbase e' he'
      exact absurd hn (by simp [hA, hB])
    · obtain ⟨e₀, he₀, heq⟩ := exists_of_mem_copies hcopies he'
      simp only [edgeData, copyData, Prod.mk.injEq] at heq
      refine ⟨e₀, he₀, heq.1.symm.trans hdef, heq.2.1, ?_⟩
      exact hends e₀ (by simp [hlisted, he₀])
  have hbefore : ∀ e₀ ∈ done, e₀.relationDefinitionId = reldef.id →
      ¬ (e₀.itemA = e.itemA ∧ e₀.itemB = e.itemB) ∧
        (reldef.cardinality = .one_to_one → e₀.itemA ≠ e.itemA ∧ e₀.itemB ≠ e.itemB) ∧
          (reldef.cardinality = .one_to_many → e₀.itemB ≠ e.itemB) := fun e₀ he₀ hdef =>
    (List.pairwise_append.mp hpair).2.2 e₀ he₀ e List.mem_cons_self hdef hedge.symm
  obtain ⟨hAn, hBn⟩ := hends e hmem
  constructor
  · intro e' he' hdef htuple
    have hn : e'.itemA = n ∨ e'.itemB = n := by
      rcases htouches with hA | hB
      · exact .inl ((congrArg Prod.fst htuple).trans ((relinked_fst hAn).mpr hA))
      · exact .inr ((congrArg Prod.snd htuple).trans ((relinked_snd hBn).mpr hB))
    obtain ⟨e₀, he₀, hdef₀, heq, hA₀, hB₀⟩ := hsource e' he' (hdef.trans hedge.symm) hn
    exact (hbefore e₀ he₀ hdef₀).1 (relinked_injective hA₀ hB₀ hAn hBn (heq.symm.trans htuple))
  · unfold cardinalityConflict
    rw [List.any_eq_false]
    intro e' he' hconflict
    simp only [Bool.and_eq_true, decide_eq_true_eq, Bool.not_eq_true'] at hconflict
    obtain ⟨⟨hdef, -⟩, hconflict⟩ := hconflict
    rcases hc : reldef.cardinality with _ | _ | _ <;> rw [hc] at hconflict hpermits
    · -- one to one: only an edge from the task to itself is copied
      obtain ⟨hA, hB⟩ : e.itemA = i ∧ e.itemB = i := hpermits
      rw [(relinked_fst hAn).mpr hA, (relinked_snd hBn).mpr hB] at hconflict
      have hn : e'.itemA = n ∨ e'.itemB = n := by simpa using hconflict
      obtain ⟨e₀, he₀, hdef₀, heq, hA₀, hB₀⟩ := hsource e' he' hdef hn
      have hne := (hbefore e₀ he₀ hdef₀).2.1 hc
      rcases hn with hn | hn
      · exact hne.1 (((relinked_fst hA₀).mp ((congrArg Prod.fst heq).symm.trans hn)).trans hA.symm)
      · exact hne.2 (((relinked_snd hB₀).mp ((congrArg Prod.snd heq).symm.trans hn)).trans hB.symm)
    · have hB : e.itemB = i := hpermits
      rw [(relinked_snd hBn).mpr hB] at hconflict
      have hn : e'.itemB = n := by simpa using hconflict
      obtain ⟨e₀, he₀, hdef₀, heq, -, hB₀⟩ := hsource e' he' hdef (.inr hn)
      exact (hbefore e₀ he₀ hdef₀).2.2 hc
        (((relinked_snd hB₀).mp ((congrArg Prod.snd heq).symm.trans hn)).trans hB.symm)
    · cases hconflict

/-! ## The invariant -/

/-- The id of the next instance, once there is one. -/
def Call.next (c : Call) : Option ℕ :=
  match c.phase with
  | .list n | .copy n _ _ | .done (some (n, _)) => some n
  | _ => none

/-- The edges of the task, once they are listed. -/
def Call.listed (c : Call) : List ItemRelationRow :=
  match c.phase with
  | .copy _ seen _ | .done (some (_, seen)) => seen.listAllRelationsForItem c.input.itemId
  | _ => []

/-- The id is nowhere in the tables. -/
structure Unmentioned (store : Store) (n : ℕ) : Prop where
  items : ∀ r ∈ store.items, r.id ≠ n
  edges : ∀ e ∈ store.itemRelations, e.itemA ≠ n ∧ e.itemB ≠ n
  recurrences : ∀ r ∈ store.taskRecurrences, r.itemId ≠ n

/-- `item` is the next instance of the task as `patch` leaves it in `store`, in the time zone that
was set when the instance was made. -/
def IsNext (ctx : Context) (store : Store) (databaseId i : ℕ) (patch : JsonObject)
    (r : TaskRecurrence) (item : ItemRow) : Prop :=
  ∃ tables timezone, getSystemTimezone tables = .ok timezone ∧
    nextItem ctx tables timezone databaseId i r item.id = .ok item ∧
    tables.getItemById databaseId i =
      (store.getItemById databaseId i).map (patched ctx databaseId i patch) ∧
    tables.databases = store.databases ∧ tables.properties = store.properties

def Advancing (ctx : Context) (committed : Store) (pending : List Write) (seq : ℕ) (c : Call)
    (n : ℕ) (copies : List ItemRelationRow) : Prop :=
  n < seq ∧ Unmentioned committed n ∧ ∃ patch item r,
    pending = writes c.input.databaseId c.input.itemId patch (some (item, r)) copies ∧
      activeRecurrence committed c.input.itemId = some r ∧ item.id = n ∧
        item.databaseId = c.input.databaseId ∧ item.deletedAt = none ∧
          IsNext ctx committed c.input.databaseId c.input.itemId patch r item

structure Copying (committed : Store) (seq i n : ℕ) (seen : Store)
    (done left copies : List ItemRelationRow) : Prop where
  listed : seen.listAllRelationsForItem i = done ++ left
  edgesOk : RelationEdges.EdgesOk seen
  copies : copies.map edgeData =
    (done.filter fun e => (copiedSide seen i e).isSome).map (copyData i n)
  definitions : seen.relationDefinitions = committed.relationDefinitions
  properties : seen.properties = committed.properties
  live : ∀ e ∈ seen.listAllRelationsForItem i, ∀ databaseId,
    liveness seen databaseId e.itemA = liveness committed databaseId e.itemA ∧
      liveness seen databaseId e.itemB = liveness committed databaseId e.itemB
  ends : ∀ e ∈ seen.listAllRelationsForItem i,
    (e.itemA ≠ n ∧ e.itemB ≠ n) ∧ e.itemA < seq ∧ e.itemB < seq
  edges : seen.itemRelations <+: committed.itemRelations

def Present (committed : Store) (i : ℕ) : Prop := ∃ r ∈ committed.items, r.id = i

def CallOk (ctx : Context) (committed : Store) (pending : List Write) (locked : Prop) (seq : ℕ)
    (c : Call) : Prop :=
  match c.phase with
  | .update | .refused _ => pending = []
  | .plain => ∃ patch, pending = writes c.input.databaseId c.input.itemId patch none []
  | .advance => (∃ patch, pending = writes c.input.databaseId c.input.itemId patch none []) ∧
      Present committed c.input.itemId
  | .done none => (∃ patch, pending = writes c.input.databaseId c.input.itemId patch none []) ∧
      Present committed c.input.itemId ∧ locked ∧
        activeRecurrence committed c.input.itemId = none
  | .list n => Present committed c.input.itemId ∧ locked ∧
      Advancing ctx committed pending seq c n []
  | .copy n seen left => Present committed c.input.itemId ∧ locked ∧ ∃ done copies,
      Advancing ctx committed pending seq c n copies ∧
        Copying committed seq c.input.itemId n seen done left copies
  | .done (some (n, seen)) => Present committed c.input.itemId ∧ locked ∧ ∃ copies,
      Advancing ctx committed pending seq c n copies ∧ Copying committed seq c.input.itemId n seen
        (seen.listAllRelationsForItem c.input.itemId) [] copies
  | .failed _ => False

/-- A completion has advanced an active recurrence, and no other: one item is new, the next instance
of the task, with the recurrence and with a copy of each edge that had a live counterpart when the
edges were listed. -/
def Completion.Exact (ctx : Context) (x : Completion) : Prop :=
  match activeRecurrence x.before x.itemId, x.next with
  | none, none => ∃ patch, x.after = afterWrites ctx x.before x.databaseId x.itemId patch none []
  | some r, some (n, seen) => Unmentioned x.before n ∧
      seen.itemRelations <+: x.before.itemRelations ∧ ∃ patch item copies,
        x.after = afterWrites ctx x.before x.databaseId x.itemId patch (some (item, r)) copies ∧
          item.id = n ∧
            IsNext ctx x.before x.databaseId x.itemId patch r item ∧
              copies.map edgeData = ((seen.listAllRelationsForItem x.itemId).filter fun e =>
                (copiedSide seen x.itemId e).isSome).map (copyData x.itemId n)
  | _, _ => False

def OneActive (store : Store) (root : ℕ → ℕ) : Prop :=
  ∀ r ∈ store.taskRecurrences, ∀ r' ∈ store.taskRecurrences, r.active = true → r'.active = true →
    root r.itemId = root r'.itemId → r.itemId = r'.itemId

def Apart (c c' : Call) : Prop :=
  ∀ n, c.next = some n → c'.next ≠ some n ∧ ∀ e ∈ c'.listed, e.itemA ≠ n ∧ e.itemB ≠ n

/-- The transaction has written the row of an item. -/
def Patches (pending : ℕ → List Write) (t : ℕ) (row : ℕ × ℕ) : Prop :=
  ∃ w ∈ pending t, w.onItem row.1 row.2 = true

structure Inv (ctx : Context) (s : Sys) : Prop where
  below : Below s.seq s.db.committed
  key : (s.db.committed.taskRecurrences.map (·.itemId)).Nodup
  one_active : OneActive s.db.committed s.root
  opened : ∀ t c, s.calls t = some c → t ∈ s.db.opened
  calls : ∀ t c, s.calls t = some c → CallOk ctx s.db.committed (s.db.pending t)
    (s.locks c.input.itemId = some t) s.seq c
  apart : ∀ t u c c', t ≠ u → s.calls t = some c → s.calls u = some c' → Apart c c'
  rows : ReadCommitted.Exclusive (Patches s.db.pending)
  log : ∀ x ∈ s.log, x.Exact ctx

theorem Advancing.mono {committed : Store} {pending : List Write} {seq' : ℕ}
    (h : Advancing ctx committed pending seq c n copies) (hle : seq ≤ seq') :
    Advancing ctx committed pending seq' c n copies :=
  ⟨h.1.trans_le hle, h.2⟩

theorem Copying.mono {committed seen : Store} {done left : List ItemRelationRow} {seq' : ℕ}
    (h : Copying committed seq i n seen done left copies) (hle : seq ≤ seq') :
    Copying committed seq' i n seen done left copies :=
  { h with
    ends := fun e he => ⟨(h.ends e he).1, (h.ends e he).2.1.trans_le hle,
      (h.ends e he).2.2.trans_le hle⟩ }

theorem CallOk.mono {committed : Store} {pending : List Write} {locked locked' : Prop} {seq' : ℕ}
    (h : CallOk ctx committed pending locked seq c) (hlocked : locked → locked')
    (hle : seq ≤ seq') : CallOk ctx committed pending locked' seq' c := by
  unfold CallOk at *
  split at h
  · exact h
  · exact h
  · exact h
  · exact h
  · exact ⟨h.1, h.2.1, hlocked h.2.2.1, h.2.2.2⟩
  · exact ⟨h.1, hlocked h.2.1, h.2.2.mono hle⟩
  · obtain ⟨hp, hl, done, copies, ha, hc⟩ := h
    exact ⟨hp, hlocked hl, done, copies, ha.mono hle, hc.mono hle⟩
  · obtain ⟨hp, hl, copies, ha, hc⟩ := h
    exact ⟨hp, hlocked hl, copies, ha.mono hle, hc.mono hle⟩
  · exact h

/-- A step of one transaction that commits nothing. -/
theorem Inv.local (hi : Inv ctx s) (hcommitted : s'.db.committed = s.db.committed)
    (hseq : s.seq ≤ s'.seq) (hroot : s'.root = s.root) (hlog : s'.log = s.log)
    (hcalls : ∀ u, u ≠ t → s'.calls u = s.calls u)
    (hopened : ∀ u, u ≠ t → u ∈ s.db.opened → u ∈ s'.db.opened)
    (hpending : ∀ u, u ≠ t → s'.db.pending u = s.db.pending u)
    (hlocks : ∀ u, u ≠ t → ∀ x, s.locks x = some u → s'.locks x = some u)
    (hrows : ∀ w ∈ s'.db.pending t, w ∈ s.db.pending t ∨ ∀ row : ℕ × ℕ,
      w.onItem row.1 row.2 = true → ∀ u, u ≠ t → ¬ Patches s.db.pending u row)
    (hcall : ∀ c, s'.calls t = some c → t ∈ s'.db.opened ∧
      CallOk ctx s'.db.committed (s'.db.pending t) (s'.locks c.input.itemId = some t) s'.seq c ∧
        ∀ u c', u ≠ t → s.calls u = some c' → Apart c c' ∧ Apart c' c) : Inv ctx s' where
  below := by
    rw [hcommitted]
    exact ⟨fun r hr => (hi.below.1 r hr).trans_le hseq,
      fun e he => ⟨(hi.below.2.1 e he).1.trans_le hseq, (hi.below.2.1 e he).2.trans_le hseq⟩,
      fun r hr => (hi.below.2.2 r hr).trans_le hseq⟩
  key := by rw [hcommitted]; exact hi.key
  one_active := by rw [hcommitted, hroot]; exact hi.one_active
  opened := fun u c hc => by
    by_cases hu : u = t
    · subst hu
      exact (hcall c hc).1
    · rw [hcalls u hu] at hc
      exact hopened u hu (hi.opened u c hc)
  calls := fun u c hc => by
    by_cases hu : u = t
    · subst hu
      exact (hcall c hc).2.1
    · rw [hcalls u hu] at hc
      rw [hcommitted, hpending u hu]
      exact (hi.calls u c hc).mono (hlocks u hu _) hseq
  apart := fun u v c c' huv hc hc' => by
    by_cases hu : u = t
    · subst hu
      rw [hcalls v (Ne.symm huv)] at hc'
      exact ((hcall c hc).2.2 v c' (Ne.symm huv) hc').1
    · rw [hcalls u hu] at hc
      by_cases hv : v = t
      · subst hv
        exact ((hcall c' hc').2.2 u c hu hc).2
      · rw [hcalls v hv] at hc'
        exact hi.apart u v c c' huv hc hc'
  rows := hi.rows.step (t := t) fun u row hw => by
    obtain ⟨w, hw, hon⟩ := hw
    by_cases hu : u = t
    · subst hu
      exact (hrows w hw).imp (fun hw => ⟨w, hw, hon⟩) fun hnew => ⟨rfl, hnew row hon⟩
    · rw [hpending u hu] at hw
      exact .inl ⟨w, hw, hon⟩
  log := by rw [hlog]; exact hi.log

end RecurringTasks

end Semprec
