import Semprec.DestructivePreflight
import Semprec.Proofs.OperationReplay

/-!
# What the preflight of a destructive operation promises

The preflight makes the checks of the mutation in the order the mutation makes them, and adds the
resource to the details of an error (`sameKind_rethrow`).
-/

namespace Semprec

namespace DestructivePreflight

open OperationReplay TxState

variable {host : Host} {env : Env} {actor : Actor} {t t' : TxState} {s : Store} {id : ℕ}

theorem SameKind.refl (e : Failure) : SameKind e e := by
  cases e with
  | chokePoint e => exact ⟨rfl, rfl, rfl⟩
  | internal message => exact rfl

theorem sameKind_forbiddenError {message code : String} {details details' : Option Json} :
    SameKind (.forbiddenError message details code) (.forbiddenError message details' code) :=
  ⟨rfl, rfl, rfl⟩

theorem sameKind_rethrow {α : Type} {resource : Resource} {x : Except Failure α} {e : Failure}
    (h : rethrow host resource x = .error e) : ∃ e', x = .error e' ∧ SameKind e e' := by
  rcases x with (e' | message) | a
  · cases h
    exact ⟨_, rfl, rfl, rfl, rfl⟩
  · cases h
    exact ⟨_, rfl, rfl⟩
  · cases h

theorem rethrow_ok {α : Type} {resource : Resource} {x : Except Failure α} {a : α}
    (h : rethrow host resource x = .ok a) : x = .ok a := by
  rcases x with (e' | message) | a'
  · cases h
  · cases h
  · exact h

/-- It is enough to look at what the preflight rejects and at what it accepts. -/
theorem agrees_of {input : DestructiveInput}
    (herror : ∀ e, computeDestructiveResourceProjection host t.store actor input = .error e →
      Gone t.store input ∨
        ∃ e' t', (mutation env actor t.store input).run t = (.error e', t') ∧ SameKind e e')
    (hok : ∀ resource,
      computeDestructiveResourceProjection host t.store actor input = .ok resource →
      (Unhindered t.store input → ∃ result t',
        (mutation env actor t.store input).run t = (.ok result, t')) ∧
      ∀ result t', (mutation env actor t.store input).run t = (.ok result, t') →
        Changed env t.store t'.store resource input) :
    Agrees host env actor t input := by
  unfold Agrees
  split
  next e h => exact herror e h
  next resource h => exact hok resource h

theorem getDatabase_of_requireDatabase {database : DatabaseRow}
    (h : s.requireDatabase id = .ok database) : s.getDatabase id = some database := by
  unfold Store.requireDatabase at h
  split at h <;> cases h
  assumption

/-! ## Databases -/

theorem databaseArchive_error {e : Failure} (h : Schema.assertArchivable t.store id = .error e) :
    (mutation env actor t.store (.databaseArchive id)).run t = (.error e, t) :=
  Tx.run_bind_error.mpr (.inl (Tx.run_bind_error.mpr (.inl (Prod.ext h rfl))))

theorem databaseArchive_ok (env : Env) (actor : Actor) {database : DatabaseRow}
    (h : Schema.assertArchivable t.store id = .ok database) :
    (mutation env actor t.store (.databaseArchive id)).run t =
      (.ok (.database { database with archivedAt := some env.now }),
        { t with store := Schema.setArchivedAt id (some env.now) t.store }) :=
  Tx.run_bind_ok.mpr ⟨_, _, Tx.run_query_bind_ok.mpr ⟨_, h, rfl⟩, rfl⟩

theorem databaseArchive_agrees : Agrees host env actor t (.databaseArchive id) := by
  refine agrees_of (fun e h => .inr ?_) fun resource h => ?_
  · rcases except_bind_error.mp h with h | ⟨database, hd, h⟩
    · exact ⟨e, t, databaseArchive_error (except_bind_error.mpr (.inl h)), .refl e⟩
    · split_ifs at h with hsystem
      · cases h
        exact ⟨_, t, databaseArchive_error (except_bind_error.mpr (.inr ⟨database, hd,
          if_pos hsystem⟩)), sameKind_forbiddenError⟩
      · cases h
  · obtain ⟨database, hd, h⟩ := except_bind_ok.mp h
    split_ifs at h with hsystem
    cases h
    have hrun := databaseArchive_ok env actor
      (except_bind_ok.mpr ⟨database, hd, if_neg hsystem⟩)
    refine ⟨fun _ => ⟨_, _, hrun⟩, fun result t' hrun' => ?_⟩
    cases hrun.symm.trans hrun'
    exact ⟨database, rfl, getDatabase_of_requireDatabase hd, rfl⟩

/-! ## Properties -/

theorem propertyDelete_run (env : Env) (actor : Actor) {x : Except Failure PropertyRow}
    (h : (Schema.propertyDeleteWithClient id).run t = (x, t')) :
    (mutation env actor t.store (.propertyDelete id)).run t = (x.map .property, t') := by
  rcases x with e | row
  · exact Tx.run_bind_error.mpr (.inl h)
  · exact Tx.run_bind_ok.mpr ⟨row, t', h, rfl⟩

theorem projectPairedProperty_error {property : PropertyRow} {projected : Resource} {e : Failure}
    (h : projectPairedProperty host t.store property projected = .error e) :
    ∃ reldef e', t.store.getRelationDefinitionByPropertyId property.id = some reldef ∧
      (Schema.deletePairedProperty reldef property.id).run t = (.error e', t) ∧ SameKind e e' := by
  unfold projectPairedProperty at h
  rcases hd : t.store.getRelationDefinitionByPropertyId property.id with _ | reldef
  · rw [hd] at h
    cases h
  · rw [hd] at h
    rcases except_bind_error.mp h with h | ⟨_, hrel, h⟩
    · obtain ⟨e', hrel, hkind⟩ := sameKind_rethrow h
      exact ⟨reldef, e', rfl, Tx.run_bind_error.mpr (.inl (Prod.ext hrel rfl)), hkind⟩
    · rcases ho : Schema.otherPropertyId reldef property.id with _ | other
      · rw [ho] at h
        cases h
      · rw [ho] at h
        obtain ⟨e', hpair, hkind⟩ := sameKind_rethrow h
        refine ⟨reldef, e', rfl, ?_, hkind⟩
        refine Tx.run_bind_error.mpr (.inr ⟨(), t, Prod.ext (rethrow_ok hrel) rfl, ?_⟩)
        rw [ho]
        exact Tx.run_bind_error.mpr (.inl (Prod.ext hpair rfl))

def beforeOwnRow (s : Store) (property : PropertyRow) : Tx TxState Failure Unit :=
  if property.type = .relation then
    match s.getRelationDefinitionByPropertyId property.id with
    | none => pure ()
    | some reldef => Schema.deletePairedProperty reldef property.id
  else check fun s => Rollup.assertSourceDeletable s property.databaseId property.key

theorem id_of_requireProperty {property : PropertyRow} (h : s.requireProperty id = .ok property) :
    property.id = id := by
  simpa using List.find?_some (requireProperty_eq_ok.mp h)

theorem propertyDelete_run_eq {property : PropertyRow}
    (hp : t.store.requireProperty id = .ok property) :
    (Schema.propertyDeleteWithClient id).run t =
      (beforeOwnRow t.store property >>= fun _ =>
        Schema.deletePropertyRow id >>= fun _ => pure property).run t := by
  have hquery : (check fun s => s.requireProperty id).run t = (.ok property, t) :=
    Prod.ext hp rfl
  rw [Schema.propertyDeleteWithClient, Tx.run_bind, hquery, beforeOwnRow,
    id_of_requireProperty hp]
  by_cases hr : property.type = .relation
  · simp only [hr, if_true]
    rw [select, Tx.run_gets_bind]
    rcases t.store.getRelationDefinitionByPropertyId id with _ | reldef <;> rfl
  · simp only [hr, if_false]

theorem deletePropertyRow_run (h : Deletable t.store id) : (Schema.deletePropertyRow id).run t =
    (.ok (), { t with store := Trash.deleteProperties (fun p => p.id = id) t.store }) := by
  obtain ⟨property, hp, hm⟩ := h
  exact Tx.run_query_bind_ok.mpr ⟨property, hp, Tx.run_query_bind_ok.mpr ⟨(), hm, rfl⟩⟩

theorem beforeOwnRow_ok {property : PropertyRow} {projected : Resource}
    (hp : t.store.requireProperty id = .ok property)
    (hpair : property.type = .relation →
      projectPairedProperty host t.store property projected = .ok ())
    (hfree : Unhindered t.store (.propertyDelete id)) :
    ∃ t', (beforeOwnRow t.store property).run t = (.ok (), t') ∧ Deletable t'.store id := by
  obtain ⟨hdel, hfree⟩ := hfree
  obtain ⟨hsource, hother⟩ := hfree property hp
  have hid := id_of_requireProperty hp
  by_cases hr : property.type = .relation
  · specialize hpair hr
    unfold projectPairedProperty at hpair
    rw [beforeOwnRow, if_pos hr]
    rcases hd : t.store.getRelationDefinitionByPropertyId property.id with _ | reldef
    · exact ⟨t, rfl, hdel⟩
    · rw [hd] at hpair
      obtain ⟨_, hrel, hpair⟩ := except_bind_ok.mp hpair
      rcases ho : Schema.otherPropertyId reldef property.id with _ | other
      · refine ⟨t, Tx.run_query_bind_ok.mpr ⟨(), rethrow_ok hrel, ?_⟩, hdel⟩
        rw [ho]
        rfl
      · rw [ho] at hpair
        obtain ⟨hne, hdel'⟩ := hother reldef other hr (hid ▸ hd) (hid ▸ ho)
        refine ⟨{ t with store := Trash.deleteProperties (fun p => p.id = other) t.store },
          Tx.run_query_bind_ok.mpr ⟨(), rethrow_ok hrel, ?_⟩, hdel.deleteProperties hne⟩
        rw [ho]
        exact Tx.run_query_bind_ok.mpr ⟨(), rethrow_ok hpair, deletePropertyRow_run hdel'⟩
  · rw [beforeOwnRow, if_neg hr]
    exact ⟨t, Prod.ext (hsource hr) rfl, hdel⟩

theorem getProperty_deleted :
    (Trash.deleteProperties (fun p => p.id = id) s).getProperty id = none := by
  simp [Store.getProperty, Trash.deleteProperties]

theorem propertyDelete_agrees (hkeys : ForeignKeys t.store) :
    Agrees host env actor t (.propertyDelete id) := by
  refine agrees_of (fun e h => .inr ?_) fun resource h => ?_
  · rcases except_bind_error.mp h with h | ⟨property, hp, h⟩
    · exact ⟨e, t, propertyDelete_run env actor (Tx.run_bind_error.mpr (.inl (Prod.ext h rfl))),
        .refl e⟩
    · rcases except_bind_error.mp h with h | ⟨database, hd, h⟩
      · obtain ⟨database, hd⟩ :=
          hkeys property (List.mem_of_find?_eq_some (requireProperty_eq_ok.mp hp))
        rw [Store.requireDatabase, hd] at h
        cases h
      · by_cases hr : property.type = .relation
        · rw [if_pos hr] at h
          rcases except_bind_error.mp h with h | ⟨_, _, h⟩
          · obtain ⟨reldef, e', hd, hpair, hkind⟩ := projectPairedProperty_error h
            refine ⟨e', t, propertyDelete_run env actor (x := .error e') ?_, hkind⟩
            rw [propertyDelete_run_eq hp, beforeOwnRow, if_pos hr, hd]
            exact Tx.run_bind_error.mpr (.inl hpair)
          · cases h
        · rw [if_neg hr] at h
          cases h
  · obtain ⟨property, hp, h⟩ := except_bind_ok.mp h
    obtain ⟨database, hd, h⟩ := except_bind_ok.mp h
    obtain ⟨hpair, rfl⟩ : (property.type = .relation → projectPairedProperty host t.store property
        (.property property database.schemaLocked database.archivedAt) = .ok ()) ∧
          resource = .property property database.schemaLocked database.archivedAt := by
      by_cases hr : property.type = .relation
      · rw [if_pos hr] at h
        obtain ⟨_, hpair, h⟩ := except_bind_ok.mp h
        cases h
        exact ⟨fun _ => hpair, rfl⟩
      · rw [if_neg hr] at h
        cases h
        exact ⟨fun hr' => absurd hr' hr, rfl⟩
    refine ⟨fun hfree => ?_, fun result t' hrun => ?_⟩
    · obtain ⟨t₁, hbefore, hdel⟩ := beforeOwnRow_ok hp hpair hfree
      have hrun := (propertyDelete_run_eq hp).trans
        (Tx.run_bind_ok.mpr ⟨(), t₁, hbefore, Tx.run_bind_ok.mpr
          ⟨(), _, deletePropertyRow_run hdel, rfl⟩⟩)
      exact ⟨_, _, propertyDelete_run env actor (x := .ok property) hrun⟩
    · obtain ⟨row, t₁, hrun, hret⟩ := Tx.run_bind_ok.mp hrun
      cases hret
      rw [propertyDelete_run_eq hp] at hrun
      obtain ⟨_, t₂, -, hrun⟩ := Tx.run_bind_ok.mp hrun
      obtain ⟨_, t₃, hrow, hret⟩ := Tx.run_bind_ok.mp hrun
      cases hret
      refine ⟨property, _, _, rfl, requireProperty_eq_ok.mp hp, ?_⟩
      rw [(deletePropertyRow_ok hrow).2]
      exact getProperty_deleted

/-! ## Items -/

theorem getItemById_head {itemId : ℕ} {item : ItemRow}
    (h : (s.getItemsByIdsIncludingDeleted [itemId]).head? = some item) :
    item.id = itemId ∧ s.getItemById item.databaseId itemId = some item := by
  rw [Store.getItemsByIdsIncludingDeleted, List.head?_filter, List.find?_eq_some_iff_append] at h
  obtain ⟨hid, before, after, hitems, hbefore⟩ := h
  replace hid : item.id = itemId := by simpa using hid
  refine ⟨hid, List.find?_eq_some_iff_append.mpr
    ⟨by simp [ItemRow.isAt, hid], before, after, hitems, fun row hrow => ?_⟩⟩
  have hne : row.id ≠ itemId := by simpa using hbefore row hrow
  simp [ItemRow.isAt, hne]

theorem itemDelete_run {itemId : ℕ} {item : ItemRow} (env : Env) (actor : Actor)
    (hhead : (t.store.getItemsByIdsIncludingDeleted [itemId]).head? = some item)
    {x : Except Failure (Option ItemRow)}
    (h : (Trash.itemDeleteWithClient env item.databaseId itemId).run t = (x, t')) :
    (mutation env actor t.store (.itemDelete itemId)).run t = (x.map .item, t') := by
  simp only [mutation, hhead, executeDestructiveWithClient]
  rcases x with e | row
  · exact Tx.run_bind_error.mpr (.inl h)
  · exact Tx.run_bind_ok.mpr ⟨row, t', h, rfl⟩

/-- What the preflight rejects of a live item, the mutation rejects when it looks its row up. -/
theorem projectItem_error {item : ItemRow} {e : Failure}
    (hitem : s.getItemById item.databaseId item.id = some item)
    (h : projectItem host s item = .error e) :
    ∃ e', Trash.lockDeletable item.databaseId item.id s = .error e' ∧ SameKind e e' := by
  rcases except_bind_error.mp h with h | ⟨database, hd, h⟩
  · refine ⟨e, except_bind_error.mpr (.inl ?_), .refl e⟩
    exact except_bind_error.mpr (.inl h)
  · rcases except_bind_error.mp h with h | ⟨_, harchived, h⟩
    · obtain ⟨e', h, hkind⟩ := sameKind_rethrow h
      exact ⟨e', except_bind_error.mpr (.inl h), hkind⟩
    · split_ifs at h with hactive
      · cases h
        refine ⟨.forbiddenError _ (fieldDetails "systemActive") "forbidden",
          except_bind_error.mpr (.inr ⟨(), rethrow_ok harchived, ?_⟩), sameKind_forbiddenError⟩
        simp only [hitem, hactive, if_true]
      · cases h

theorem projectItem_ok {item : ItemRow} {resource : Resource}
    (hitem : s.getItemById item.databaseId item.id = some item)
    (h : projectItem host s item = .ok resource) :
    Trash.lockDeletable item.databaseId item.id s = .ok (some item) ∧
      ∃ archivedAt, resource =
        .item item.id item.databaseId item.updatedAt item.deletedAt archivedAt := by
  obtain ⟨database, hd, h⟩ := except_bind_ok.mp h
  obtain ⟨_, harchived, h⟩ := except_bind_ok.mp h
  split_ifs at h with hactive
  cases h
  refine ⟨except_bind_ok.mpr ⟨(), rethrow_ok harchived, ?_⟩, _, rfl⟩
  simp only [hitem, hactive]
  rfl

/-- Nothing stops the cascade of a live row whose subtree can be written. -/
theorem itemDelete_ok (env : Env) {databaseId itemId : ℕ} {item : ItemRow}
    (hlock : Trash.lockDeletable databaseId itemId t.store = .ok (some item))
    (hlive : item.deletedAt = none)
    (hfree : ∀ row ∈ Trash.collectItemSubtree t.store item fun _ => true,
      t.store.assertDatabaseNotArchived row.databaseId = .ok ()) :
    ∃ row t', (Trash.itemDeleteWithClient env databaseId itemId).run t = (.ok row, t') := by
  have hrows : Trash.writableSubtree item t.store =
      .ok (Trash.collectItemSubtree t.store item fun _ => true) :=
    except_bind_ok.mpr ⟨(), except_forM_ok.mpr hfree, rfl⟩
  have hcascade : ((Trash.collectItemSubtree t.store item fun _ => true).foldlM
      (Trash.cascadeRow (Trash.softDeleteRow env.now) itemId) none).Infallible :=
    Tx.Infallible.foldlM (fun b row => infallible_cascadeRow b row) _ none
  obtain ⟨row, t', hrun⟩ := hcascade.run_ok t
  refine ⟨row, t', Tx.run_query_bind_ok.mpr ⟨some item, hlock, ?_⟩⟩
  simp only [hlive, Option.isSome_none, Bool.false_eq_true, if_false]
  exact Tx.run_query_bind_ok.mpr ⟨_, hrows, hrun⟩

theorem itemDelete_agrees {itemId : ℕ} : Agrees host env actor t (.itemDelete itemId) := by
  refine agrees_of (fun e h => ?_) fun resource h => ?_
  · rcases hhead : (t.store.getItemsByIdsIncludingDeleted [itemId]).head? with _ | item
    · exact .inl fun item h => by rw [hhead] at h; cases h
    · obtain ⟨rfl, hitem⟩ := getItemById_head hhead
      simp only [computeDestructiveResourceProjection, hhead] at h
      split_ifs at h with hdeleted
      · refine .inl fun item' h' => ?_
        rw [hhead] at h'
        cases h'
        exact Option.ne_none_iff_isSome.mpr hdeleted
      · obtain ⟨e', hlock, hkind⟩ := projectItem_error hitem h
        exact .inr ⟨e', t, itemDelete_run env actor hhead (x := .error e')
          (Tx.run_bind_error.mpr (.inl (Prod.ext hlock rfl))), hkind⟩
  · rcases hhead : (t.store.getItemsByIdsIncludingDeleted [itemId]).head? with _ | item
    · simp only [computeDestructiveResourceProjection, hhead] at h
      cases h
    · obtain ⟨rfl, hitem⟩ := getItemById_head hhead
      simp only [computeDestructiveResourceProjection, hhead] at h
      split_ifs at h with hdeleted
      have hlive : item.deletedAt = none := by simpa using hdeleted
      obtain ⟨hlock, archivedAt, rfl⟩ := projectItem_ok hitem h
      refine ⟨fun hfree => ?_, fun result t' hrun => ?_⟩
      · obtain ⟨row, t', hrun⟩ := itemDelete_ok env hlock hlive (hfree item hhead)
        exact ⟨_, t', itemDelete_run env actor hhead (x := .ok row) hrun⟩
      · rcases hrun₀ : (Trash.itemDeleteWithClient env item.databaseId item.id).run t with ⟨x, t₁⟩
        have hmut := itemDelete_run env actor hhead hrun₀
        rcases x with e | row
        · cases hmut.symm.trans hrun
        cases hmut.symm.trans hrun
        refine ⟨item, archivedAt, rfl, hitem, hlive, fun row' hrow hat hnone => ?_⟩
        exact Trash.itemDelete_root hrun₀ hitem hlive ⟨row', hrow, hat, hnone⟩

/-- Whatever the state and the request, the preflight and the mutation agree. -/
theorem preflight_agrees (host : Host) (env : Env) (actor : Actor) (t : TxState)
    (input : DestructiveInput) (hdelete : IsDelete input = true) (hkeys : ForeignKeys t.store) :
    Agrees host env actor t input := by
  cases input with
  | databaseArchive id => exact databaseArchive_agrees
  | propertyDelete id => exact propertyDelete_agrees hkeys
  | itemDelete id => exact itemDelete_agrees
  | viewDelete id => cases hdelete
  | relationDelete input => cases hdelete

def relatedDatabases : List (Env × ChokePointOp) :=
  [(Trash.envAt 0, .createDatabase ⟨some "Tasks", none, none, none, none, false, false⟩),
    (Trash.envAt 0, .createDatabase ⟨some "Projects", none, none, none, none, false, false⟩),
    (Trash.envAt 0, .createRelationProperty
      ⟨0, userSide "project" false, 1, .many_to_many, some (userSide "tasks" false)⟩ none),
    (Trash.envAt 0, .createItem ⟨1, [], none⟩ .none),
    (Trash.envAt 5, .deleteItem 1 5)]

/-- The preflight of a property with a free pair goes through, and so does its deletion. -/
theorem preflight_agrees_relatedDatabases : ∃ s,
    Reach (ChokePoint.step Trash.noCasts []) (fun _ _ => True) .empty s ∧ ForeignKeys s ∧
      (computeDestructiveResourceProjection relationPropertyHost s ⟨.user, none⟩
        (.propertyDelete 2)).isOk = true ∧
      ((mutation (Trash.envAt 9) ⟨.user, none⟩ s (.propertyDelete 2)).run ⟨s, []⟩).1.isOk = true ∧
      Agrees relationPropertyHost (Trash.envAt 9) ⟨.user, none⟩ ⟨s, []⟩ (.propertyDelete 2) := by
  obtain ⟨s, hs⟩ := Option.isSome_iff_exists.mp (by decide +kernel :
    (runActs (ChokePoint.step Trash.noCasts []) Store.empty relatedDatabases).isSome = true)
  have hkeys : ForeignKeys s := fun property hp => Option.isSome_iff_exists.mp
    (List.all_eq_true.mp (eq_of_map_eq
      (f := fun s : Store => s.properties.all fun p => (s.getDatabase p.databaseId).isSome)
      (b := true) hs (by decide +kernel)) property hp)
  exact ⟨s, .of_runActs hs, hkeys,
    eq_of_map_eq (f := fun s => (computeDestructiveResourceProjection relationPropertyHost s
      ⟨.user, none⟩ (.propertyDelete 2)).isOk) hs (by decide +kernel),
    eq_of_map_eq (f := fun s => ((mutation (Trash.envAt 9) ⟨.user, none⟩ s
      (.propertyDelete 2)).run ⟨s, []⟩).1.isOk) hs (by decide +kernel),
    preflight_agrees _ _ _ _ _ rfl hkeys⟩

/-- An item in the trash is deleted again without an error, but not after a preflight. -/
theorem trashedItem_disagrees : ¬ ∀ (host : Host) (pg : Postgres) (computedKeys : List String)
    (s : Store) (env : Env) (actor : Actor) (input : DestructiveInput),
    Reach (ChokePoint.step pg computedKeys) (fun _ _ => True) .empty s → IsDelete input = true →
      ((computeDestructiveResourceProjection host s actor input).isOk = true ↔
        ((mutation env actor s input).run ⟨s, []⟩).1.isOk = true) := by
  intro hall
  obtain ⟨s, hs⟩ := Option.isSome_iff_exists.mp (by decide +kernel :
    (runActs (ChokePoint.step Trash.noCasts []) Store.empty relatedDatabases).isSome = true)
  have hmutation : ((mutation (Trash.envAt 9) ⟨.user, none⟩ s (.itemDelete 5)).run
      ⟨s, []⟩).1.isOk = true :=
    eq_of_map_eq (f := fun s => ((mutation (Trash.envAt 9) ⟨.user, none⟩ s
      (.itemDelete 5)).run ⟨s, []⟩).1.isOk) hs (by decide +kernel)
  have hprojection : (computeDestructiveResourceProjection relationPropertyHost s ⟨.user, none⟩
      (.itemDelete 5)).isOk = false :=
    eq_of_map_eq (f := fun s => (computeDestructiveResourceProjection relationPropertyHost s
      ⟨.user, none⟩ (.itemDelete 5)).isOk) hs (by decide +kernel)
  have hiff := hall relationPropertyHost Trash.noCasts [] s (Trash.envAt 9) ⟨.user, none⟩
    (.itemDelete 5) (.of_runActs hs) rfl
  rw [hprojection, hmutation] at hiff
  simp at hiff

end DestructivePreflight

end Semprec
