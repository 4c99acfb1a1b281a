import Mathlib.Data.Fintype.EquivFin
import Semprec.InboxTypes

/-!
# Types that the tick can process

While no two transactions write the configuration of one item at the same time, what an update has
checked is still what it reads when it writes, but that the item may be gone (`Keeps`).
-/

namespace Semprec

namespace InboxTypes

variable {s s' : Sys} {t u i : ℕ} {w : Write} {ws : List Write} {items items' : Table}
  {r r' r'' : Option TypeItem} {patch properties : JsonObject}

/-! ## One item -/

def TypeItem.config (item : TypeItem) : Option Json × Option Json :=
  (item.properties.get? "processingMethod", item.properties.get? "targetDatabase")

def ValidRow (r : Option TypeItem) : Prop := ∀ item, r = some item → Valid item.properties

def Keeps (r r' : Option TypeItem) : Prop :=
  ∀ item', r' = some item' → ∃ item, r = some item ∧ item.config = item'.config

theorem Keeps.refl : Keeps r r := fun item h => ⟨item, h, rfl⟩

theorem Keeps.trans (h : Keeps r r') (h' : Keeps r' r'') : Keeps r r'' := by
  intro item'' h''
  obtain ⟨item', hitem', heq'⟩ := h' item'' h''
  obtain ⟨item, hitem, heq⟩ := h item' hitem'
  exact ⟨item, hitem, heq.trans heq'⟩

theorem valid_of_config_eq {item item' : TypeItem} (h : item.config = item'.config)
    (hv : Valid item.properties) : Valid item'.properties := by
  obtain ⟨hm, ht⟩ := Prod.mk.inj h
  unfold Valid at hv ⊢
  rwa [← hm, ← ht]

theorem Keeps.validRow (h : Keeps r r') (hv : ValidRow r) : ValidRow r' := by
  intro item' hitem'
  obtain ⟨item, hitem, heq⟩ := h item' hitem'
  exact valid_of_config_eq heq (hv item hitem)

theorem config_merge {item item' : TypeItem} (h : item.config = item'.config) (d d' : Option ℤ) :
    TypeItem.config ⟨item.properties.merge patch, d⟩ =
      TypeItem.config ⟨item'.properties.merge patch, d'⟩ := by
  obtain ⟨hm, ht⟩ := Prod.mk.inj h
  simp only [TypeItem.config, JsonObject.get?_merge, hm, ht]

theorem config_merge_of_not_configures {item : TypeItem} (h : configures patch = false)
    (d : Option ℤ) : TypeItem.config ⟨item.properties.merge patch, d⟩ = item.config := by
  simp only [configures, Bool.or_eq_false_iff, JsonObject.hasOwn, Option.isSome_eq_false_iff,
    Option.isNone_iff_eq_none] at h
  simp only [TypeItem.config, JsonObject.get?_merge, h.1, h.2, Option.none_or]

theorem Keeps.row (h : Keeps r r') : Keeps (w.row r) (w.row r') := by
  intro item' hitem'
  cases w with
  | insert _ properties => exact ⟨item', hitem', rfl⟩
  | update _ patch =>
    obtain ⟨b, hb, rfl⟩ := Option.map_eq_some_iff.mp hitem'
    obtain ⟨a, ha, heq⟩ := h b hb
    exact ⟨_, by rw [Write.row, ha]; rfl, config_merge heq _ _⟩
  | setDeletedAt _ deletedAt =>
    obtain ⟨b, hb, rfl⟩ := Option.map_eq_some_iff.mp hitem'
    obtain ⟨a, ha, heq⟩ := h b hb
    exact ⟨{ a with deletedAt }, by rw [Write.row, ha]; rfl, heq⟩
  | hardDelete _ => cases hitem'

theorem keeps_row_of_not_configures (hw : w.configures = false) : Keeps r (w.row r) := by
  intro item' hitem'
  cases w with
  | insert _ properties => cases hw
  | update _ patch =>
    obtain ⟨b, hb, rfl⟩ := Option.map_eq_some_iff.mp hitem'
    exact ⟨b, hb, (config_merge_of_not_configures hw _).symm⟩
  | setDeletedAt _ deletedAt =>
    obtain ⟨b, hb, rfl⟩ := Option.map_eq_some_iff.mp hitem'
    exact ⟨b, hb, rfl⟩
  | hardDelete _ => cases hitem'

theorem apply_row (items : Table) (w : Write) (i : ℕ) :
    apply items w i = if w.itemId = i then w.row (items i) else items i := by
  unfold apply
  split_ifs with h
  · subst h
    rw [Function.update_self]
  · rw [Function.update_of_ne (Ne.symm h)]

theorem Keeps.apply (h : Keeps (items i) (items' i)) :
    Keeps (InboxTypes.apply items w i) (InboxTypes.apply items' w i) := by
  rw [apply_row, apply_row]
  split_ifs
  · exact h.row
  · exact h

theorem Keeps.foldl : ∀ {l : List Write} {items items' : Table}, Keeps (items i) (items' i) →
    Keeps (l.foldl InboxTypes.apply items i) (l.foldl InboxTypes.apply items' i)
  | [], _, _, h => h
  | _ :: ws, _, _, h => Keeps.foldl (l := ws) h.apply

theorem keeps_foldl : ∀ {ws : List Write} {items : Table},
    (∀ w ∈ ws, w.itemId = i → w.configures = false) →
      Keeps (items i) (ws.foldl InboxTypes.apply items i)
  | [], _, _ => .refl
  | w :: ws, items, h => by
    have hhead : Keeps (items i) (InboxTypes.apply items w i) := by
      rw [apply_row]
      split_ifs with hi
      · exact keeps_row_of_not_configures (h w List.mem_cons_self hi)
      · exact .refl
    exact hhead.trans (keeps_foldl fun w' hw' => h w' (List.mem_cons_of_mem _ hw'))

/-! ## The invariant -/

structure Inv (s : Sys) : Prop where
  valid : ∀ t i, ValidRow (s.db.view apply t i)
  checked : ∀ t i patch, s.txs t = some (i, patch) → ∀ item, s.db.view apply t i = some item →
    Valid (item.properties.merge patch)
  apart : ∀ t u i, t ≠ u → s.Configuring t i → ¬s.Configuring u i
  fresh : ∀ t i, s.Configuring t i → i < s.nextId
  seen : ∀ t i item, s.db.view apply t i = some item → i < s.nextId

theorem inv_init : Inv .init where
  valid := fun _ _ => nofun
  checked := nofun
  apart := by
    rintro t u i - (⟨_, h, -⟩ | ⟨_, h, -⟩) <;> cases h
  fresh := by
    rintro t i (⟨_, h, -⟩ | ⟨_, h, -⟩) <;> cases h
  seen := nofun

theorem keeps_view (h : ¬s.Configuring u i) (c : Table) :
    Keeps (c i) ((s.db.pending u).foldl apply c i) := by
  refine keeps_foldl fun w hw hi => ?_
  by_contra hc
  exact h (.inr ⟨w, hw, hi, by simpa using hc⟩)

theorem view_of_not_mem (ht : t ∉ s.db.opened) :
    s.db.view apply t = s.db.committed := by
  unfold ReadCommitted.view
  rw [s.db.pending_nil t ht]
  rfl

theorem Inv.close (hi : Inv s) {db : ReadCommitted Table Write} {txs : ℕ → Tx}
    (hpending : db.pending = Function.update s.db.pending t [])
    (htxs : txs = Function.update s.txs t none)
    (hvalid : ∀ u i, ValidRow (db.view apply u i))
    (hchecked : ∀ u i patch, u ≠ t → s.txs u = some (i, patch) →
      ∀ item, db.view apply u i = some item → Valid (item.properties.merge patch))
    (hseen : ∀ u i item, db.view apply u i = some item → i < s.nextId) :
    Inv { s with db, txs } := by
  have htx : ∀ {u i patch}, txs u = some (i, patch) → u ≠ t ∧ s.txs u = some (i, patch) :=
    fun hu => of_update_none (htxs ▸ hu)
  have hold : ∀ {u i}, Sys.Configuring { s with db, txs } u i → s.Configuring u i := by
    rintro u i (⟨patch, hu, hc⟩ | ⟨w, hw, hwi⟩)
    · exact .inl ⟨patch, (htx hu).2, hc⟩
    · exact .inr ⟨w, (ReadCommitted.mem_closed_pending hpending hw).2, hwi⟩
  exact
  { valid := hvalid
    checked := fun u i patch hu => hchecked u i patch (htx hu).1 (htx hu).2
    apart := fun u u' i hne hu hu' => hi.apart u u' i hne (hold hu) (hold hu')
    fresh := fun u i hu => hi.fresh u i (hold hu)
    seen := hseen }

theorem Inv.commit (hi : Inv s) (ht : s.txs t = none) {db : ReadCommitted Table Write}
    (h : s.db.commit apply t = some db) : Inv { s with db } := by
  have hcommitted := ReadCommitted.commit_committed h
  have hpending := ReadCommitted.commit_pending h
  -- what another transaction sees is as before, or is what was committed
  have hview : ∀ u i, db.view apply u i = (db.pending u).foldl apply (s.db.view apply t) i :=
    fun u i => by rw [ReadCommitted.view, hcommitted]
  have hself : ∀ i, db.view apply t i = s.db.view apply t i := by
    intro i
    rw [hview, hpending, Function.update_self]
    rfl
  have hother : ∀ u i, u ≠ t → Keeps (s.db.view apply u i) (db.view apply u i) ∨
      ¬s.Configuring u i ∧ Keeps (s.db.view apply t i) (db.view apply u i) := by
    intro u i hut
    rw [hview, hpending, Function.update_of_ne hut]
    by_cases hc : s.Configuring t i
    · have hu := hi.apart t u i (Ne.symm hut) hc
      exact .inr ⟨hu, keeps_view hu _⟩
    · exact .inl (Keeps.foldl (keeps_view hc _))
  refine hi.close hpending (by simp [← ht]) ?_ ?_ ?_
  · intro u i
    by_cases hut : u = t
    · rw [hut, hself]
      exact hi.valid t i
    · rcases hother u i hut with h | ⟨-, h⟩
      · exact h.validRow (hi.valid u i)
      · exact h.validRow (hi.valid t i)
  · intro u i patch hut hu item hitem
    rcases hother u i hut with h | ⟨hc, h⟩
    · obtain ⟨old, hold, heq⟩ := h item hitem
      exact valid_of_config_eq (config_merge heq none none) (hi.checked u i patch hu old hold)
    · -- the patch is about other properties
      have hpatch : configures patch = false := by
        by_contra hp
        exact hc (.inl ⟨patch, hu, by simpa using hp⟩)
      exact valid_of_config_eq (config_merge_of_not_configures hpatch none).symm
        (h.validRow (hi.valid t i) item hitem)
  · intro u i item hitem
    by_cases hut : u = t
    · rw [hut, hself] at hitem
      exact hi.seen t i item hitem
    · rcases hother u i hut with h | ⟨-, h⟩ <;> obtain ⟨old, hold, -⟩ := h item hitem
      · exact hi.seen u i old hold
      · exact hi.seen t i old hold

theorem Inv.abort (hi : Inv s) {db : ReadCommitted Table Write}
    (h : s.db.rollback t = some db) :
    Inv { s with db, txs := Function.update s.txs t none } := by
  have hcommitted := ReadCommitted.rollback_committed h
  have hpending := ReadCommitted.rollback_pending h
  obtain ⟨t', ht'⟩ := Infinite.exists_notMem_finset s.db.opened
  have hview : ∀ u i, db.view apply u i = s.db.view apply u i ∨
      db.view apply u i = s.db.view apply t' i := by
    intro u i
    rw [view_of_not_mem ht', ReadCommitted.view, hcommitted, hpending]
    by_cases hut : u = t
    · rw [hut, Function.update_self]
      exact .inr rfl
    · rw [Function.update_of_ne hut]
      exact .inl rfl
  refine hi.close hpending rfl ?_ ?_ ?_
  · intro u i
    rcases hview u i with h | h <;> rw [h] <;> exact hi.valid _ i
  · intro u i patch hut hu item hitem
    rw [ReadCommitted.view, hcommitted, hpending, Function.update_of_ne hut] at hitem
    exact hi.checked u i patch hu item hitem
  · intro u i item hitem
    rcases hview u i with h | h <;> rw [h] at hitem <;> exact hi.seen _ i item hitem

theorem Inv.write (hi : Inv s) {n : ℕ}
    (h : Sys.write { s with nextId := n } t w none = some s') (hnext : s.nextId ≤ n)
    (hvalid : ValidRow (w.row (s.db.view apply t w.itemId)))
    (hapart : w.configures = true → ∀ u, u ≠ t → ¬s.Configuring u w.itemId)
    (hfresh : w.itemId < n) : Inv s' := by
  unfold Sys.write at h
  split_ifs at h
  obtain ⟨db, hdb, rfl⟩ := Option.map_eq_some_iff.mp h
  have hpending : db.pending = _ := ReadCommitted.write_pending hdb
  have hcommitted : db.committed = s.db.committed := ReadCommitted.write_committed hdb
  have hself : ∀ i, db.view apply t i =
      if w.itemId = i then w.row (s.db.view apply t i) else s.db.view apply t i := by
    intro i
    rw [ReadCommitted.view, hcommitted, hpending, Function.update_self, List.foldl_append,
      List.foldl_cons, List.foldl_nil, apply_row]
    rfl
  have hother : ∀ u i, u ≠ t → db.view apply u i = s.db.view apply u i := by
    intro u i hut
    rw [ReadCommitted.view, hcommitted, hpending, Function.update_of_ne hut]
    rfl
  have htx : ∀ {u i patch}, Function.update s.txs t none u = some (i, patch) →
      u ≠ t ∧ s.txs u = some (i, patch) := fun hu => of_update_none hu
  have hold : ∀ {u i}, Sys.Configuring ⟨db, Function.update s.txs t none, n⟩ u i →
      s.Configuring u i ∨ u = t ∧ w.itemId = i ∧ w.configures = true := by
    rintro u i (⟨patch, hu, hc⟩ | ⟨w', hw', hwi, hwc⟩)
    · exact .inl (.inl ⟨patch, (htx hu).2, hc⟩)
    · rcases ReadCommitted.mem_write_pending hdb hw' with hw' | ⟨hut, hw'⟩
      · exact .inl (.inr ⟨w', hw', hwi, hwc⟩)
      · obtain rfl := List.mem_singleton.mp hw'
        exact .inr ⟨hut, hwi, hwc⟩
  constructor
  · intro u i
    by_cases hut : u = t
    · rw [hut, hself]
      split_ifs with hwi
      · exact hwi ▸ hvalid
      · exact hi.valid t i
    · rw [hother u i hut]
      exact hi.valid u i
  · intro u i patch hu item hitem
    obtain ⟨hut, hu⟩ := htx hu
    exact hi.checked u i patch hu item (hother u i hut ▸ hitem)
  · intro u u' i hne hu hu'
    rcases hold hu with h | ⟨hut, rfl, hc⟩ <;> rcases hold hu' with h' | ⟨hut', hwi, hc'⟩
    · exact hi.apart u u' i hne h h'
    · exact hapart hc' u (hut' ▸ hne) (hwi ▸ h)
    · exact hapart hc u' (hut ▸ Ne.symm hne) h'
    · exact hne (hut.trans hut'.symm)
  · intro u i hu
    rcases hold hu with hu | ⟨-, rfl, -⟩
    · exact (hi.fresh u i hu).trans_le hnext
    · exact hfresh
  · intro u i item hitem
    by_cases hut : u = t
    · subst hut
      have hitem' := (hself i).symm.trans hitem
      split_ifs at hitem' with hwi
      · exact hwi ▸ hfresh
      · exact (hi.seen u i item hitem').trans_le hnext
    · exact (hi.seen u i item (hother u i hut ▸ hitem)).trans_le hnext

/-! ## The operations -/

theorem get?_merge_eq (o : JsonObject) (key : String) :
    (o.merge patch).get? key = if patch.hasOwn key then patch.get? key else o.get? key := by
  rw [JsonObject.get?_merge, JsonObject.hasOwn]
  rcases patch.get? key with _ | v <;> rfl

theorem get?_createInboxType (input : CreateInboxTypeInput) :
    input.properties.get? "processingMethod" = some (.str input.processingMethod) ∧
      input.properties.get? "targetDatabase" = input.targetDatabase.map .str := by
  obtain ⟨name, emoji, status, method, target⟩ := input
  cases status <;> cases target <;>
    simp [CreateInboxTypeInput.properties, JsonObject.get?, List.lookup_cons]

/-- Nothing configures an item that has not been inserted. -/
theorem Inv.insert (hi : Inv s) {properties : JsonObject} (hvalid : Valid properties)
    (h : s.insert t properties = some s') : Inv s' := by
  refine hi.write h (Nat.le_succ _) ?_ (fun _ u _ hu => ?_) (Nat.lt_succ_self _)
  · rintro item ⟨⟩
    exact hvalid
  · exact absurd (hi.fresh u _ hu) (Nat.lt_irrefl _)

theorem Inv.update (hi : Inv s)
    (hvalid : ∀ item, s.db.view apply t i = some item → Valid (item.properties.merge patch))
    (hapart : configures patch = true → ∀ u, u ≠ t → ¬s.Configuring u i)
    (h : s.updateItemWithClient t i patch = some s') : Inv s' := by
  unfold Sys.updateItemWithClient at h
  split at h
  · rename_i properties hitem
    refine hi.write h (Nat.le_refl _) ?_ hapart (hi.seen t i _ hitem)
    intro item hrow
    obtain ⟨old, hold, rfl⟩ := Option.map_eq_some_iff.mp hrow
    exact hvalid old hold
  · cases h

theorem Inv.other (hi : Inv s) (hw : w.configures = false)
    (hseen : s.db.view apply t w.itemId ≠ none)
    (h : s.write t w none = some s') : Inv s' := by
  obtain ⟨item, hitem⟩ := Option.ne_none_iff_exists'.mp hseen
  exact hi.write (n := s.nextId) h (Nat.le_refl _)
    ((keeps_row_of_not_configures hw).validRow (hi.valid t _)) (fun hc => by simp [hw] at hc)
    (hi.seen t _ item hitem)

/-- Nothing is about to be written by a transaction that has just been opened. -/
theorem Inv.begin (hi : Inv s) {db : ReadCommitted Table Write} (h : s.db.begin t = some db) :
    Inv { s with db } := by
  have hview : ∀ u, db.view apply u = s.db.view apply u := by
    intro u
    unfold ReadCommitted.view
    rw [ReadCommitted.begin_committed h, ReadCommitted.begin_pending h]
  have hold : ∀ {u i}, Sys.Configuring { s with db } u i → s.Configuring u i := by
    rintro u i (hu | ⟨w, hw, hwi⟩)
    · exact .inl hu
    · exact .inr ⟨w, ReadCommitted.begin_pending h ▸ hw, hwi⟩
  exact
  { valid := fun u i => hview u ▸ hi.valid u i
    checked := fun u i patch hu => hview u ▸ hi.checked u i patch hu
    apart := fun u u' i hne hu hu' => hi.apart u u' i hne (hold hu) (hold hu')
    fresh := fun u i hu => hi.fresh u i (hold hu)
    seen := fun u i => hview u ▸ hi.seen u i }

/-- An update whose check has passed. -/
theorem Inv.readCurrent (hi : Inv s)
    {current : TypeItem} (hcurrent : s.db.view apply t i = some current)
    (hvalid : Valid (current.properties.merge patch))
    (hok : configures patch = true → ∀ u, u ≠ t → ¬s.Configuring u i) :
    Inv { s with txs := Function.update s.txs t (some (i, patch)) } := by
  have hold : ∀ {u j}, Sys.Configuring
      { s with txs := Function.update s.txs t (some (i, patch)) } u j →
        s.Configuring u j ∨ u = t ∧ j = i ∧ configures patch = true := by
    rintro u j (⟨patch', hu, hc⟩ | hw)
    · rcases of_update_some hu with ⟨hut, heq⟩ | ⟨-, hu⟩
      · cases heq
        exact .inr ⟨hut, rfl, hc⟩
      · exact .inl (.inl ⟨patch', hu, hc⟩)
    · exact .inl (.inr hw)
  constructor
  · exact hi.valid
  · intro u j patch' hu item hitem
    rcases of_update_some hu with ⟨hut, heq⟩ | ⟨-, hu⟩
    · cases heq
      subst hut
      obtain rfl : current = item := Option.some.inj (hcurrent.symm.trans hitem)
      exact hvalid
    · exact hi.checked u j patch' hu item hitem
  · intro u u' j hne hu hu'
    rcases hold hu with h | ⟨hut, rfl, hc⟩ <;> rcases hold hu' with h' | ⟨hut', hji, hc'⟩
    · exact hi.apart u u' j hne h h'
    · exact hok hc' u (hut' ▸ hne) (hji ▸ h)
    · exact hok hc u' (hut ▸ Ne.symm hne) h'
    · exact hne (hut.trans hut'.symm)
  · intro u j hu
    rcases hold hu with h | ⟨-, rfl, -⟩
    · exact hi.fresh u j h
    · exact hi.seen t j current hcurrent
  · exact hi.seen

theorem Inv.step (hi : Inv s) {a : Act} (hok : OneWriter s a)
    (h : InboxTypes.step s a = some s') : Inv s' := by
  cases a with
  | begin t =>
    obtain ⟨db, hdb, rfl⟩ := Option.map_eq_some_iff.mp h
    exact hi.begin hdb
  | createInboxType t input =>
    simp only [InboxTypes.step] at h
    split_ifs at h
    split at h
    · rename_i hvalid
      refine hi.insert ?_ h
      rw [Valid, (get?_createInboxType input).1, (get?_createInboxType input).2]
      exact hvalid
    · cases h
  | readCurrent t i patch =>
    simp only [InboxTypes.step, ← get?_merge_eq] at h
    split at h
    · split at h
      · cases h
      · rename_i current hcurrent
        split at h
        · rename_i hvalid
          cases h
          exact hi.readCurrent hcurrent hvalid hok
        · cases h
    · cases h
  | updateInboxType t =>
    simp only [InboxTypes.step] at h
    split at h
    · rename_i i patch ht
      exact hi.update (hi.checked t i patch ht)
        (fun hc u hut hu => hi.apart t u i (Ne.symm hut) (.inl ⟨patch, ht, hc⟩) hu) h
    · cases h
  | createItem t properties =>
    simp only [InboxTypes.step] at h
    split_ifs at h
    refine hi.insert ?_ h
    simp only [OneWriter, configures, Bool.or_eq_false_iff, JsonObject.hasOwn,
      Option.isSome_eq_false_iff, Option.isNone_iff_eq_none] at hok
    rw [Valid, hok.1, hok.2]
    rfl
  | updateItem t i patch =>
    simp only [InboxTypes.step] at h
    split_ifs at h
    have hpatch : configures patch = false := hok
    refine hi.update (fun item hitem => ?_) (fun hc => absurd hc (by simp [hpatch])) h
    exact valid_of_config_eq (config_merge_of_not_configures hpatch none).symm
      (hi.valid t i item hitem)
  | setDeletedAt t i deletedAt | purge t i =>
    simp only [InboxTypes.step] at h
    split_ifs at h with hnot
    have hseen : s.db.view apply t i ≠ none := by simpa using (not_or.mp hnot).2
    exact hi.other rfl hseen h
  | commit t =>
    simp only [InboxTypes.step] at h
    split_ifs at h with ht
    obtain ⟨db, hdb, rfl⟩ := Option.map_eq_some_iff.mp h
    exact hi.commit (by simpa using ht) hdb
  | abort t =>
    obtain ⟨db, hdb, rfl⟩ := Option.map_eq_some_iff.mp h
    exact hi.abort hdb

theorem targetModuleId_of_valid {item : TypeItem} (h : Valid item.properties) :
    ∃ target, targetModuleId i item = .ok target := by
  unfold targetModuleId
  split
  · rename_i hmethod
    -- the type's method is the database, so its target is one of the ten
    have hdatabase : item.properties.get? "processingMethod" = some (.str "database") := by
      unfold recognizedMethod at hmethod
      split_ifs at hmethod
      split at hmethod
      · rename_i method hget
        split_ifs at hmethod
        rw [hget, Option.some.inj hmethod]
      · cases hmethod
    simp only [Valid, assertValidProcessingConfig, hdatabase, isSet, Bool.true_eq_false,
      if_false] at h
    split at h
    · split_ifs at h with hten
      simp only [if_pos hten]
      exact ⟨_, rfl⟩
    · cases h
  · exact ⟨none, rfl⟩

/-- Every type that is committed is valid, and the tick takes it. -/
theorem types_valid (h : Reach step OneWriter .init s) : s.TypesValid := by
  have hi : Inv s := h.invariant inv_init fun _ _ _ hi hok hs => hi.step hok hs
  obtain ⟨t, ht⟩ := Infinite.exists_notMem_finset s.db.opened
  intro i item hitem
  have hvalid := hi.valid t i item ((congrFun (view_of_not_mem ht) i).trans hitem)
  exact ⟨hvalid, targetModuleId_of_valid hvalid⟩

/-- Only an open transaction has checked an update. -/
theorem opened_of_txs {ok : Sys → Act → Prop} (h : Reach step ok .init s) :
    ∀ t, s.txs t ≠ none → t ∈ s.db.opened := by
  refine h.invariant (I := fun s => ∀ t, s.txs t ≠ none → t ∈ s.db.opened)
    (fun t ht => absurd rfl ht) fun s a s' hi _ hs => ?_
  have hwrite : ∀ {s s' : Sys} {t w}, (∀ u, s.txs u ≠ none → u ∈ s.db.opened) →
      s.write t w none = some s' → ∀ u, s'.txs u ≠ none → u ∈ s'.db.opened := by
    intro s s' t w hi h u hu
    unfold Sys.write at h
    split_ifs at h
    obtain ⟨db, hdb, rfl⟩ := Option.map_eq_some_iff.mp h
    obtain ⟨x, hx⟩ := Option.ne_none_iff_exists'.mp hu
    rw [ReadCommitted.write_opened hdb]
    exact hi u (by rw [(of_update_none hx).2]; exact Option.some_ne_none x)
  have hupdate : ∀ {t i patch}, s.updateItemWithClient t i patch = some s' →
      ∀ u, s'.txs u ≠ none → u ∈ s'.db.opened := by
    intro t i patch h
    unfold Sys.updateItemWithClient at h
    split at h
    · exact hwrite hi h
    · cases h
  cases a with
  | begin t =>
    obtain ⟨db, hdb, rfl⟩ := Option.map_eq_some_iff.mp hs
    intro u hu
    rw [ReadCommitted.begin_opened hdb]
    exact Finset.mem_insert_of_mem (hi u hu)
  | createInboxType t input =>
    simp only [step] at hs
    split_ifs at hs
    split at hs
    · exact hwrite (s := { s with nextId := s.nextId + 1 }) hi hs
    · cases hs
  | readCurrent t i patch =>
    simp only [step, ← get?_merge_eq] at hs
    split at hs
    · rename_i ht
      split at hs
      · cases hs
      · split at hs
        · cases hs
          intro u hu
          by_cases hut : u = t
          · exact hut ▸ ht.1
          · exact hi u (by simpa [Function.update_of_ne hut] using hu)
        · cases hs
    · cases hs
  | updateInboxType t =>
    simp only [step] at hs
    split at hs
    · exact hupdate hs
    · cases hs
  | createItem t properties =>
    simp only [step] at hs
    split_ifs at hs
    exact hwrite (s := { s with nextId := s.nextId + 1 }) hi hs
  | updateItem t i patch =>
    simp only [step] at hs
    split_ifs at hs
    exact hupdate hs
  | setDeletedAt t i deletedAt =>
    simp only [step] at hs
    split_ifs at hs
    exact hwrite hi hs
  | purge t i =>
    simp only [step] at hs
    split_ifs at hs
    exact hwrite hi hs
  | commit t =>
    simp only [step] at hs
    split_ifs at hs with ht
    obtain ⟨db, hdb, rfl⟩ := Option.map_eq_some_iff.mp hs
    intro u hu
    rw [ReadCommitted.commit_opened hdb]
    refine Finset.mem_erase.mpr ⟨?_, hi u hu⟩
    rintro rfl
    exact hu (by simpa using ht)
  | abort t =>
    obtain ⟨db, hdb, rfl⟩ := Option.map_eq_some_iff.mp hs
    intro u hu
    obtain ⟨x, hx⟩ := Option.ne_none_iff_exists'.mp hu
    rw [ReadCommitted.rollback_opened hdb]
    exact Finset.mem_erase.mpr ⟨(of_update_none hx).1, hi u (by
      rw [(of_update_none hx).2]
      exact Option.some_ne_none x)⟩

/-- Two types are created and one is renamed while the other one is; then its processing is
configured anew. -/
def renamed : List Act :=
  [.begin 0, .createInboxType 0 ⟨"Task", "✅", some "active", "database", some "tasks"⟩, .commit 0,
    .begin 1, .createInboxType 1 ⟨"Note", "📝", none, "pageContent", none⟩, .commit 1,
    .begin 0, .begin 1, .readCurrent 0 0 [("name", .str "To do")], .updateItem 1 1 [("emoji", .null)],
    .updateInboxType 0, .commit 1, .commit 0,
    .begin 2, .readCurrent 2 0 [("targetDatabase", .str "events")], .updateInboxType 2, .commit 2]

/-- A configuration is written while no other transaction is open. -/
def configuresAlone (s : Sys) : Act → Bool
  | .createItem _ patch | .updateItem _ _ patch => !configures patch
  | .readCurrent t _ patch => !configures patch || decide (∀ u ∈ s.db.opened, u = t)
  | _ => true

theorem oneWriter_of_configuresAlone {a : Act} (hopened : ∀ t, s.txs t ≠ none → t ∈ s.db.opened)
    (h : configuresAlone s a = true) : OneWriter s a := by
  cases a with
  | createItem t patch => exact (Bool.not_eq_true' _).mp h
  | updateItem t i patch => exact (Bool.not_eq_true' _).mp h
  | readCurrent t i patch =>
    intro hc u hut hu
    have halone : ∀ u ∈ s.db.opened, u = t := by simpa [configuresAlone, hc] using h
    rcases hu with ⟨patch', htx, -⟩ | ⟨w, hw, -⟩
    · exact hut (halone u (hopened u (by rw [htx]; exact Option.some_ne_none _)))
    · exact hut (halone u (ReadCommitted.mem_opened_of_mem_pending hw))
  | _ => trivial

theorem reach_of_configuresAlone (h : Reach step (fun s a => configuresAlone s a = true) .init s) :
    Reach step OneWriter .init s := by
  induction h with
  | refl => exact .refl
  | tail h hok hs ih => exact ih.tail (oneWriter_of_configuresAlone (opened_of_txs h) hok) hs

theorem types_valid_renamed : ∃ s, runActs step .init renamed = some s ∧ s.TypesValid := by
  obtain ⟨s, hs⟩ := Option.isSome_iff_exists.mp
    (by decide +kernel : (runChecked step configuresAlone .init renamed).isSome = true)
  exact ⟨s, runActs_of_runChecked hs,
    types_valid (reach_of_configuresAlone (.of_runChecked (fun _ _ h => h) hs))⟩

def genericTarget : List Act :=
  [.begin 0, .createInboxType 0 ⟨"Note", "📝", none, "pageContent", none⟩, .commit 0,
    .begin 1, .updateItem 1 0 [("targetDatabase", .str "tasks")], .commit 1]

theorem generic_update_not_valid :
    ¬∀ s, Reach step (fun _ _ => True) .init s → s.TypesValid := by
  intro hall
  obtain ⟨s, hs⟩ := Option.isSome_iff_exists.mp
    (by decide +kernel : (runActs step .init genericTarget).isSome = true)
  have hrejected : (s.db.committed 0).map (fun item =>
      (assertValidProcessingConfig (item.properties.get? "processingMethod")
        (item.properties.get? "targetDatabase")).toOption.isSome) = some false :=
    eq_of_map_eq (f := fun s => (s.db.committed 0).map fun item =>
      (assertValidProcessingConfig (item.properties.get? "processingMethod")
        (item.properties.get? "targetDatabase")).toOption.isSome) (b := some false) hs
      (by decide +kernel)
  obtain ⟨item, hitem, hnot⟩ := Option.map_eq_some_iff.mp hrejected
  have hvalid := (hall s (.of_runActs hs) 0 item hitem).1
  rw [hvalid] at hnot
  cases hnot

end InboxTypes

end Semprec
