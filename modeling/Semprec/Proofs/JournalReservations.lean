import Semprec.JournalItems
import Semprec.Proofs.ItemCreates

/-!
# One live Journal item for each period

For one key: its row names every live item created under it, for what is committed and for what any
open transaction sees.  A transaction that reads the row to take it over, or that has taken an item
of the key out of the trash, is guarded: no other can write the row meanwhile.
-/

namespace Semprec

namespace JournalItems

open Items
open ItemCreates (Created Tables Write Sys apply part createdOf Call TxOk)

variable {env : Env} {L : Luxon} {journalDatabaseId : ℕ} {s s' : Sys} {C C' : Tables}
  {ws : List Write} {w : Write} {t u d i : ℕ} {k : String} {call : Option Call} {c : Created}

/-! ## Whether an item is in the trash -/

def status (d i : ℕ) (tables : Tables) : Option (Option ℤ) :=
  (tables.store.getItemById d i).map fun item => item.deletedAt

theorem live_iff : Live C c ↔ status c.databaseId c.itemId C = some none := by
  simp only [Live, status, Option.map_eq_some_iff]

def afterWrite (d i : ℕ) (w : Write) (st : Option (Option ℤ)) : Option (Option ℤ) :=
  match w with
  | .insertItem item _ => st.or (if item.isAt d i then some item.deletedAt else none)
  | .setDeletedAt d' i' deletedAt => if d' = d ∧ i' = i then st.map fun _ => deletedAt else st
  | .hardDelete d' i' => if d' = d ∧ i' = i then none else st
  | _ => st

theorem status_apply (C : Tables) (w : Write) :
    status d i (apply C w) = afterWrite d i w (status d i C) := by
  cases w with
  | insertItem item key =>
    simp only [status, apply, afterWrite, Store.getItemById, List.find?_append,
      Option.map_or]
    congr 1
    by_cases hat : item.isAt d i = true
    · simp [hat]
    · simp [hat]
  | setDeletedAt d' i' deletedAt =>
    simp only [status, apply, afterWrite, Store.getItemById, Store.updateItem, List.find?_map,
      Option.map_map, Bool.and_true]
    have hsame : ((fun r : ItemRow => r.isAt d i) ∘ fun r =>
        if r.isAt d' i' = true then { r with deletedAt } else r) = fun r => r.isAt d i := by
      funext r
      simp only [Function.comp_apply]
      split <;> rfl
    rw [hsame]
    cases hfind : C.store.items.find? fun r => r.isAt d i with
    | none => simp
    | some r =>
      have hat : r.isAt d i = true := List.find?_some (p := fun r : ItemRow => r.isAt d i) hfind
      simp only [ItemRow.isAt, decide_eq_true_eq] at hat
      by_cases hdi : d' = d ∧ i' = i
      · obtain ⟨rfl, rfl⟩ := hdi
        simp [ItemRow.isAt, hat]
      · have hne : ¬(r.databaseId = d' ∧ r.id = i') := fun h =>
          hdi ⟨h.1.symm.trans hat.1, h.2.symm.trans hat.2⟩
        simp [ItemRow.isAt, hdi, hne]
  | hardDelete d' i' =>
    simp only [status, apply, afterWrite, Store.getItemById, List.find?_filter]
    by_cases hdi : d' = d ∧ i' = i
    · obtain ⟨rfl, rfl⟩ := hdi
      simp
    · rw [if_neg hdi]
      congr 2
      funext r
      by_cases hat : r.isAt d i = true
      · have hne : r.isAt d' i' = false := by
          simp only [ItemRow.isAt, decide_eq_true_eq, decide_eq_false_iff_not] at hat ⊢
          exact fun h => hdi ⟨h.1.symm.trans hat.1, h.2.symm.trans hat.2⟩
        simp [hat, hne]
      · simp [hat]
  | insertKey row => rfl
  | deleteKey key => rfl
  | createEffects itemId => rfl
  | setArchivedAt databaseId archivedAt => rfl

theorem status_congr (h : status d i C = status d i C') (ws : List Write) :
    status d i (ws.foldl apply C) = status d i (ws.foldl apply C') := by
  induction ws generalizing C C' with
  | nil => exact h
  | cons w ws ih => exact ih (by rw [status_apply, status_apply, h])

def Off (d i : ℕ) (w : Write) : Prop :=
  w.onItem d i = false ∧ ∀ item key, w = .insertItem item key → item.id ≠ i

theorem status_off (h : ∀ w ∈ ws, Off d i w) (C : Tables) :
    status d i (ws.foldl apply C) = status d i C := by
  induction ws generalizing C with
  | nil => rfl
  | cons w ws ih =>
    rw [List.foldl_cons, ih (fun w hw => h w (List.mem_cons_of_mem _ hw)), status_apply]
    obtain ⟨hon, hins⟩ := h w List.mem_cons_self
    cases w with
    | insertItem item key =>
      have hat : item.isAt d i = false := by
        simp only [ItemRow.isAt, decide_eq_false_iff_not]
        exact fun h => hins item key rfl h.2
      simp [afterWrite, hat]
    | setDeletedAt d' i' deletedAt => exact if_neg (of_decide_eq_false hon)
    | hardDelete d' i' => exact if_neg (of_decide_eq_false hon)
    | _ => rfl

def Buries (d i : ℕ) (w : Write) : Prop :=
  w ≠ .setDeletedAt d i none ∧ ∀ item key, w = .insertItem item key → item.id ≠ i

theorem live_of_buries (h : ∀ w ∈ ws, Buries d i w) (C : Tables)
    (hlive : status d i (ws.foldl apply C) = some none) : status d i C = some none := by
  induction ws generalizing C with
  | nil => exact hlive
  | cons w ws ih =>
    have hmid := ih (fun w hw => h w (List.mem_cons_of_mem _ hw)) _ hlive
    obtain ⟨hne, hins⟩ := h w List.mem_cons_self
    rw [status_apply] at hmid
    cases w with
    | insertItem item key =>
      have hat : item.isAt d i = false := by
        simp only [ItemRow.isAt, decide_eq_false_iff_not]
        exact fun h => hins item key rfl h.2
      simpa [afterWrite, hat] using hmid
    | setDeletedAt d' i' deletedAt =>
      simp only [afterWrite] at hmid
      split at hmid
      case isTrue hdi =>
        obtain ⟨rfl, rfl⟩ := hdi
        obtain ⟨st, -, rfl⟩ := Option.map_eq_some_iff.mp hmid
        exact absurd rfl hne
      case isFalse => exact hmid
    | hardDelete d' i' =>
      simp only [afterWrite] at hmid
      split at hmid
      case isTrue => cases hmid
      case isFalse => exact hmid
    | _ => exact hmid

/-! ## The invariant of one key -/

def Named (k : String) (tables : Tables) : Prop :=
  ∀ c ∈ tables.created, c.key = some k → Live tables c →
    ∃ row ∈ tables.store.idempotencyKeys, row.key = k ∧ row.itemId = c.itemId

def Holds (k : String) (s : Sys) (t : ℕ) : Prop := ∃ w ∈ s.db.pending t, w.onKey k = true

def Guarded (k : String) (s : Sys) (t : ℕ) (itemId : ℕ → Prop) : Prop :=
  (∀ u, Holds k s u → u = t) ∧
    (Holds k s t ∨ ∃ row ∈ s.db.committed.store.idempotencyKeys, row.key = k ∧ itemId row.itemId)

/-- What holds of a key while items are taken out of the trash only as `ReservationKept` says. -/
structure Kept (k : String) (s : Sys) : Prop where
  committed : Named k s.db.committed
  views : ∀ t, Named k (s.view t)
  items : ∀ item ∈ s.db.committed.store.items,
    ∃ key, ⟨item.id, key, item.databaseId⟩ ∈ s.db.committed.created
  alone : ∀ t u d i, (∃ w ∈ s.db.pending t, w.onItem d i = true) →
    (∃ w ∈ s.db.pending u, w.onItem d i = true) → t = u
  selected : ∀ t, s.keyLocks k = some t → Guarded k s t fun _ => True
  reserved : ∀ t call i, s.calls t = some call → reservedItem call = some i → call.key = some k →
    s.keyLocks k = some t ∧
      ∃ row ∈ (s.view t).store.idempotencyKeys, row.key = k ∧ row.itemId = i
  inserting : ∀ t call, s.calls t = some call → call.phase = .insert → call.key = some k →
    ∃ row ∈ (s.view t).store.idempotencyKeys, row.key = k
  restored : ∀ t d i, .setDeletedAt d i none ∈ s.db.pending t →
    ∃ key, ⟨i, key, d⟩ ∈ (s.view t).created ∧ (key = some k → Guarded k s t (· = i))

theorem Named.of_part (h : Named k C) (hpart : part k C' = part k C)
    (hlive : ∀ c ∈ C.created, c.key = some k → Live C' c → Live C c) : Named k C' := by
  intro c hc hk hlive'
  have hmem : c ∈ (part k C).2 := hpart ▸ List.mem_filter.mpr ⟨hc, decide_eq_true hk⟩
  have hold := (List.mem_filter.mp hmem).1
  obtain ⟨row, hrow, hkey, hid⟩ := h c hold hk (hlive c hold hk hlive')
  refine ⟨row, (ItemCreates.mem_part hkey).mp ?_, hkey, hid⟩
  rw [hpart]
  exact (ItemCreates.mem_part hkey).mpr hrow

theorem row_of_part {D : Tables} {P : ℕ → Prop} (hpart : part k D = part k C)
    (h : ∃ row ∈ C.store.idempotencyKeys, row.key = k ∧ P row.itemId) :
    ∃ row ∈ D.store.idempotencyKeys, row.key = k ∧ P row.itemId := by
  obtain ⟨row, hrow, hkey, hid⟩ := h
  refine ⟨row, (ItemCreates.mem_part hkey).mp ?_, hkey, hid⟩
  rw [hpart]
  exact (ItemCreates.mem_part hkey).mpr hrow

theorem items_created
    (h : ∀ item ∈ C.store.items, ∃ key, ⟨item.id, key, item.databaseId⟩ ∈ C.created)
    (ws : List Write) : ∀ item ∈ (ws.foldl apply C).store.items,
      ∃ key, ⟨item.id, key, item.databaseId⟩ ∈ (ws.foldl apply C).created := by
  induction ws generalizing C with
  | nil => exact h
  | cons w ws ih =>
    refine ih fun item hitem => ?_
    cases w with
    | insertItem item' key =>
      rcases List.mem_append.mp hitem with hitem | hitem
      · obtain ⟨key', hmem⟩ := h item hitem
        exact ⟨key', List.mem_append_left _ hmem⟩
      · obtain rfl := List.mem_singleton.mp hitem
        exact ⟨key, List.mem_append_right _ (List.mem_singleton_self _)⟩
    | setDeletedAt d i deletedAt =>
      obtain ⟨r, hr, rfl⟩ := List.mem_map.mp hitem
      obtain ⟨key, hmem⟩ := h r hr
      refine ⟨key, ?_⟩
      split <;> exact hmem
    | hardDelete d i => exact h item (List.mem_filter.mp hitem).1
    | insertKey row => exact h item hitem
    | deleteKey key => exact h item hitem
    | createEffects itemId => exact h item hitem
    | setArchivedAt databaseId archivedAt => exact h item hitem

/-! ## What every run of creates keeps -/

variable {base : List Created}

theorem part_of_not_holds (hb : ItemCreates.Inv base s) (hnot : ¬Holds k s t) (C : Tables) :
    part k ((s.db.pending t).foldl apply C) = part k C := by
  refine ItemCreates.part_foldl (fun w hw htouch => ?_) C
  rcases htouch with hon | ⟨item, rfl⟩
  · exact hnot ⟨w, hw, hon⟩
  · exact hnot ((hb.tx t).keyed item k hw)

theorem mem_view : c ∈ (s.view t).created ↔
    c ∈ s.db.committed.created ++ createdOf (s.db.pending t) := by
  rw [← ItemCreates.created_foldl]
  rfl

theorem view_nodup (hb : ItemCreates.Inv base s) (t : ℕ) :
    ((s.view t).created.map (·.itemId)).Nodup := by
  have hview : (s.view t).created = s.db.committed.created ++ createdOf (s.db.pending t) :=
    ItemCreates.created_foldl (s.db.pending t) s.db.committed
  rw [hview, List.map_append]
  refine List.nodup_append.mpr ⟨hb.ids_nodup none,
    (List.nodup_append.mp (hb.ids_nodup (some t))).1, ?_⟩
  rintro i hi _ hj rfl
  cases hb.ids_inj none (some t) i hi (List.mem_append_left _ hj)

theorem created_eq (hb : ItemCreates.Inv base s) {c' : Created} (hc : c ∈ (s.view t).created)
    (hc' : c' ∈ (s.view u).created) (hid : c.itemId = c'.itemId) : c = c' := by
  have hone : ∀ v, ∀ x ∈ (s.view v).created, ∀ y ∈ (s.view v).created, x.itemId = y.itemId →
      x = y := fun v x hx y hy =>
    List.inj_on_of_nodup_map (view_nodup hb v) hx hy
  have hold : ∀ v, ∀ x ∈ s.db.committed.created, x ∈ (s.view v).created := fun v x hx =>
    mem_view.mpr (List.mem_append_left _ hx)
  rcases List.mem_append.mp (mem_view.mp hc) with hmem | hmem
  · exact hone u c (hold u c hmem) c' hc' hid
  · rcases List.mem_append.mp (mem_view.mp hc') with hmem' | hmem'
    · exact hone t c hc c' (hold t c' hmem') hid
    · have hut := hb.ids_inj (some t) (some u) c.itemId
        (List.mem_append_left _ (List.mem_map_of_mem hmem))
        (List.mem_append_left _ (hid ▸ List.mem_map_of_mem hmem'))
      cases hut
      exact hone t c hc c' hc' hid

theorem row_eq (hrows : ∀ r ∈ C.store.idempotencyKeys, ItemCreates.LastCreated C r)
    {row row' : IdempotencyKeyRow} (hrow : row ∈ C.store.idempotencyKeys)
    (hrow' : row' ∈ C.store.idempotencyKeys) (hkey : row.key = row'.key) :
    row.itemId = row'.itemId := by
  have hlast := hrows row hrow
  have hlast' := hrows row' hrow'
  unfold ItemCreates.LastCreated at hlast hlast'
  rw [hkey, hlast'] at hlast
  exact (congrArg (·.itemId) (Option.some.inj hlast)).symm

/-! ## One transaction's statements -/

namespace Kept

theorem tx_step (h : Kept k s) (hc : s'.db.committed = s.db.committed)
    (hp : s'.db.pending = Function.update s.db.pending t (s.db.pending t ++ ws))
    (hcalls : s'.calls = Function.update s.calls t call) (hlocks : s'.keyLocks = s.keyLocks)
    (hview : Named k (ws.foldl apply (s.view t)))
    (hfree : (∃ w ∈ ws, w.onKey k = true) → ∀ u, Holds k s u ∨ s.keyLocks k = some u ∨
      (∃ d i, .setDeletedAt d i none ∈ s.db.pending u ∧ ⟨i, some k, d⟩ ∈ (s.view u).created) →
        u = t)
    (halone : ∀ d i, (∃ w ∈ ws, w.onItem d i = true) →
      ¬ s.db.Locked t (ItemCreates.Write.onItem d i))
    (hrestored : ∀ d i, .setDeletedAt d i none ∈ ws →
      ∃ key, ⟨i, key, d⟩ ∈ (s.view t).created ∧ (key = some k → Guarded k s t (· = i)))
    (hreserved : ∀ c i, call = some c → reservedItem c = some i → c.key = some k →
      s.keyLocks k = some t ∧
        ∃ row ∈ (ws.foldl apply (s.view t)).store.idempotencyKeys, row.key = k ∧ row.itemId = i)
    (hinserting : ∀ c, call = some c → c.phase = .insert → c.key = some k →
      ∃ row ∈ (ws.foldl apply (s.view t)).store.idempotencyKeys, row.key = k) :
    Kept k s' := by
  have hother : ∀ u, u ≠ t → s'.view u = s.view u := by
    intro u hut
    show (s'.db.pending u).foldl apply s'.db.committed = _
    rw [hp, hc, Function.update_of_ne hut]
    rfl
  have hself : s'.view t = ws.foldl apply (s.view t) := by
    show (s'.db.pending t).foldl apply s'.db.committed = _
    rw [hp, hc, Function.update_self, List.foldl_append]
    rfl
  have hmem : ∀ {u w}, w ∈ s'.db.pending u → w ∈ s.db.pending u ∨ u = t ∧ w ∈ ws := by
    intro u w hw
    rw [hp] at hw
    by_cases hut : u = t
    · subst hut
      rw [Function.update_self, List.mem_append] at hw
      exact hw.imp_right fun hw => ⟨rfl, hw⟩
    · rw [Function.update_of_ne hut] at hw
      exact .inl hw
  have hkeep : ∀ {u}, Holds k s u → Holds k s' u := by
    rintro u ⟨w, hw, hon⟩
    refine ⟨w, ?_, hon⟩
    rw [hp]
    by_cases hut : u = t
    · subst hut
      rw [Function.update_self]
      exact List.mem_append_left _ hw
    · rwa [Function.update_of_ne hut]
  have hcreated : ∀ u, ∀ x ∈ (s.view u).created, x ∈ (s'.view u).created := by
    intro u x hx
    by_cases hut : u = t
    · rw [hut] at hx ⊢
      rw [hself, ItemCreates.created_foldl]
      exact List.mem_append_left _ hx
    · rwa [hother u hut]
  -- whoever is guarded stays so: the row is written only by `t`, and only if `t` alone is
  have hguard : ∀ u itemId, Guarded k s u itemId → ((∃ w ∈ ws, w.onKey k = true) → u = t) →
      Guarded k s' u itemId := by
    rintro u itemId ⟨honly, hrow⟩ hws
    refine ⟨?_, hrow.imp hkeep fun hrow => hc ▸ hrow⟩
    rintro v ⟨w, hw, hon⟩
    rcases hmem hw with hw | ⟨rfl, hw⟩
    · exact honly v ⟨w, hw, hon⟩
    · exact (hws ⟨w, hw, hon⟩).symm
  refine ⟨hc ▸ h.committed, fun u => ?_, hc ▸ h.items, ?_, fun u hu => ?_,
    fun u c i hcall hphase hkey => ?_, fun u c hcall hphase hkey => ?_, fun u d i hr => ?_⟩
  · by_cases hut : u = t
    · rw [hut, hself]
      exact hview
    · rw [hother u hut]
      exact h.views u
  · rintro u v d i ⟨w, hw, hon⟩ ⟨w', hw', hon'⟩
    rcases hmem hw with hw | ⟨rfl, hw⟩ <;> rcases hmem hw' with hw' | ⟨rfl, hw'⟩
    · exact h.alone u v d i ⟨w, hw, hon⟩ ⟨w', hw', hon'⟩
    · by_contra hne
      exact halone d i ⟨w', hw', hon'⟩ (.of_mem hw hne hon)
    · by_contra hne
      exact halone d i ⟨w, hw, hon⟩ (.of_mem hw' (Ne.symm hne) hon')
    · rfl
  · rw [hlocks] at hu
    exact hguard u _ (h.selected u hu) fun hws => hfree hws u (.inr (.inl hu))
  · rw [hcalls] at hcall
    rw [hlocks]
    by_cases hut : u = t
    · subst hut
      rw [Function.update_self] at hcall
      rw [hself]
      exact hreserved c i hcall hphase hkey
    · rw [Function.update_of_ne hut] at hcall
      rw [hother u hut]
      exact h.reserved u c i hcall hphase hkey
  · rw [hcalls] at hcall
    by_cases hut : u = t
    · subst hut
      rw [Function.update_self] at hcall
      rw [hself]
      exact hinserting c hcall hphase hkey
    · rw [Function.update_of_ne hut] at hcall
      rw [hother u hut]
      exact h.inserting u c hcall hphase hkey
  · rcases hmem hr with hr | ⟨rfl, hr⟩
    · obtain ⟨key, hknown, hg⟩ := h.restored u d i hr
      refine ⟨key, hcreated u _ hknown, fun hkey => hguard u _ (hg hkey) fun hws => ?_⟩
      subst hkey
      exact hfree hws u (.inr (.inr ⟨d, i, hr, hknown⟩))
    · obtain ⟨key, hknown, hg⟩ := hrestored d i hr
      exact ⟨key, hcreated u _ hknown, fun hkey => hguard u _ (hg hkey) fun _ => rfl⟩

theorem write (h : Kept k s) (hs : s.write t ws call = some s')
    (hview : Named k (ws.foldl apply (s.view t)))
    (hfree : (∃ w ∈ ws, w.onKey k = true) → ∀ u, Holds k s u ∨ s.keyLocks k = some u ∨
      (∃ d i, .setDeletedAt d i none ∈ s.db.pending u ∧ ⟨i, some k, d⟩ ∈ (s.view u).created) →
        u = t)
    (halone : ∀ d i, (∃ w ∈ ws, w.onItem d i = true) →
      ¬ s.db.Locked t (ItemCreates.Write.onItem d i))
    (hrestored : ∀ d i, .setDeletedAt d i none ∈ ws →
      ∃ key, ⟨i, key, d⟩ ∈ (s.view t).created ∧ (key = some k → Guarded k s t (· = i)))
    (hreserved : ∀ c i, call = some c → reservedItem c = some i → c.key = some k →
      s.keyLocks k = some t ∧
        ∃ row ∈ (ws.foldl apply (s.view t)).store.idempotencyKeys, row.key = k ∧ row.itemId = i)
    (hinserting : ∀ c, call = some c → c.phase = .insert → c.key = some k →
      ∃ row ∈ (ws.foldl apply (s.view t)).store.idempotencyKeys, row.key = k) :
    Kept k s' := by
  obtain ⟨db, hdb, rfl⟩ := Option.map_eq_some_iff.mp hs
  exact h.tx_step (ReadCommitted.write_committed hdb) (ReadCommitted.write_pending hdb) rfl rfl
    hview hfree halone hrestored hreserved hinserting

theorem setCall (h : Kept k s) (hdb : s'.db = s.db)
    (hcalls : s'.calls = Function.update s.calls t call) (hlocks : s'.keyLocks = s.keyLocks)
    (hreserved : ∀ c i, call = some c → reservedItem c = some i → c.key = some k →
      s.keyLocks k = some t ∧
        ∃ row ∈ (s.view t).store.idempotencyKeys, row.key = k ∧ row.itemId = i)
    (hinserting : ∀ c, call = some c → c.phase = .insert → c.key = some k →
      ∃ row ∈ (s.view t).store.idempotencyKeys, row.key = k) : Kept k s' := by
  have hp : s'.db.pending = Function.update s.db.pending t (s.db.pending t ++ []) := by
    rw [List.append_nil, hdb]
    exact (Function.update_eq_self t s.db.pending).symm
  refine h.tx_step (by rw [hdb]) hp hcalls hlocks (h.views t) ?_ ?_ ?_ hreserved hinserting
  · rintro ⟨w, hw, -⟩
    exact absurd hw List.not_mem_nil
  · rintro d i ⟨w, hw, -⟩
    exact absurd hw List.not_mem_nil
  · exact fun d i hr => absurd hr List.not_mem_nil

theorem lock (h : Kept k s) {key : String} (hguard : key = k → Guarded k s t fun _ => True)
    (hfree : ¬ s.KeyLocked t key) :
    Kept k { s with keyLocks := Function.update s.keyLocks key (some t) } := by
  refine ⟨h.committed, h.views, h.items, h.alone, fun u hu => ?_, fun u c i hcall hphase hkey => ?_,
    h.inserting, h.restored⟩
  · replace hu : Function.update s.keyLocks key (some t) k = some u := hu
    by_cases hk : key = k
    · rw [hk, Function.update_self] at hu
      obtain rfl := Option.some.inj hu
      exact hguard hk
    · rw [Function.update_of_ne (Ne.symm hk)] at hu
      exact h.selected u hu
  · obtain ⟨hlocked, hrow⟩ := h.reserved u c i hcall hphase hkey
    refine ⟨?_, hrow⟩
    show Function.update s.keyLocks key (some t) k = some u
    by_cases hk : key = k
    · subst hk
      rw [Function.update_self]
      by_contra hne
      refine hfree (.inr ?_)
      rw [hlocked]
      exact decide_eq_true fun hut => hne (congrArg some hut.symm)
    · rwa [Function.update_of_ne (Ne.symm hk)]

/-! ### The end of a transaction -/

theorem close {db : ReadCommitted Tables Write} {returned : List ItemCreates.Returned}
    (hb : ItemCreates.Inv base s) (h : Kept k s)
    (hp : db.pending = Function.update s.db.pending t [])
    (hnamed : Named k db.committed)
    (hviews : ∀ u, u ≠ t → Named k ((s.db.pending u).foldl apply db.committed))
    (hitems : ∀ item ∈ db.committed.store.items,
      ∃ key, ⟨item.id, key, item.databaseId⟩ ∈ db.committed.created)
    (hpart : ∀ u, u ≠ t → (∀ v, Holds k s v → v = u) → part k db.committed = part k s.db.committed)
    (hle : ∀ x ∈ s.db.committed.created, x ∈ db.committed.created) :
    Kept k (s.close t db returned) := by
  have hmem : ∀ {u w}, w ∈ db.pending u → u ≠ t ∧ w ∈ s.db.pending u :=
    ReadCommitted.mem_closed_pending hp
  have hpending : ∀ u, u ≠ t → db.pending u = s.db.pending u := fun u hut => by
    rw [hp, Function.update_of_ne hut]
  have hview : ∀ u, u ≠ t →
      (s.close t db returned).view u = (s.db.pending u).foldl apply db.committed := by
    intro u hut
    show (db.pending u).foldl apply db.committed = _
    rw [hpending u hut]
  have hguard : ∀ u itemId, u ≠ t → Guarded k s u itemId →
      Guarded k (s.close t db returned) u itemId := by
    rintro u itemId hut ⟨honly, hrow⟩
    refine ⟨fun v hv => ?_, ?_⟩
    · obtain ⟨w, hw, hon⟩ := hv
      exact honly v ⟨w, (hmem hw).2, hon⟩
    · rcases hrow with ⟨w, hw, hon⟩ | hrow
      · refine .inl ⟨w, ?_, hon⟩
        show w ∈ db.pending u
        rwa [hpending u hut]
      · exact .inr (row_of_part (hpart u hut honly) hrow)
  have hlock : ∀ {u}, (s.close t db returned).keyLocks k = some u →
      s.keyLocks k = some u ∧ u ≠ t := by
    intro u hu
    obtain ⟨hu, hut⟩ := Option.filter_eq_some_iff.mp hu
    exact ⟨hu, of_decide_eq_true hut⟩
  refine ⟨hnamed, fun u => ?_, hitems, ?_, fun u hu => ?_, fun u c i hcall hphase hkey => ?_,
    fun u c hcall hphase hkey => ?_, fun u d i hr => ?_⟩
  · by_cases hut : u = t
    · subst hut
      show Named k ((db.pending u).foldl apply db.committed)
      rw [hp, Function.update_self]
      exact hnamed
    · rw [hview u hut]
      exact hviews u hut
  · rintro u v d i ⟨w, hw, hon⟩ ⟨w', hw', hon'⟩
    exact h.alone u v d i ⟨w, (hmem hw).2, hon⟩ ⟨w', (hmem hw').2, hon'⟩
  · obtain ⟨hu, hut⟩ := hlock hu
    exact hguard u _ hut (h.selected u hu)
  · obtain ⟨hut, hcall⟩ := of_update_none hcall
    obtain ⟨hlocked, hrow⟩ := h.reserved u c i hcall hphase hkey
    refine ⟨Option.filter_eq_some_iff.mpr ⟨hlocked, decide_eq_true hut⟩, ?_⟩
    rw [hview u hut]
    exact row_of_part (P := (· = i)) (C := s.view u)
      (ItemCreates.part_foldl_congr _ (hpart u hut (h.selected u hlocked).1)) hrow
  · obtain ⟨hut, hcall⟩ := of_update_none hcall
    have hholds : Holds k s u := ((hb.tx u).insert c hcall k hphase hkey).1
    obtain ⟨row, hrow, hrk⟩ := h.inserting u c hcall hphase hkey
    have hrow' := row_of_part (P := fun _ => True)
      (ItemCreates.part_foldl_congr (s.db.pending u)
        (hpart u hut fun v hv => hb.exclusive v u k hv hholds)) ⟨row, hrow, hrk, trivial⟩
    rw [hview u hut]
    exact hrow'.imp fun _ h => ⟨h.1, h.2.1⟩
  · obtain ⟨hut, hr⟩ := hmem hr
    obtain ⟨key, hknown, hg⟩ := h.restored u d i hr
    refine ⟨key, ?_, fun hkey => hguard u _ hut (hg hkey)⟩
    rw [hview u hut]
    exact ItemCreates.created_mono hle (s.db.pending u) _ hknown

theorem throw (hb : ItemCreates.Inv base s) (h : Kept k s) (hs : s.throw t = some s') :
    Kept k s' := by
  obtain ⟨db, hdb, rfl⟩ := Option.map_eq_some_iff.mp hs
  have hc := ReadCommitted.rollback_committed hdb
  exact h.close hb (ReadCommitted.rollback_pending hdb) (hc ▸ h.committed)
    (fun u _ => hc ▸ h.views u) (hc ▸ h.items) (fun _ _ _ => hc ▸ rfl) (fun _ hx => hc ▸ hx)

theorem new_of_other (hb : ItemCreates.Inv base s) (hut : u ≠ t) (hc : c ∈ (s.view u).created)
    {item : ItemRow} {key : Option String} (hw : .insertItem item key ∈ s.db.pending t) :
    item.id ≠ c.itemId := by
  intro heq
  have hnew : item.id ∈ s.ids (some t) := List.mem_append_left _
    (List.mem_map.mpr ⟨⟨item.id, key, item.databaseId⟩, List.mem_filterMap.mpr ⟨_, hw, rfl⟩, rfl⟩)
  rcases List.mem_append.mp (mem_view.mp hc) with hmem | hmem
  · cases hb.ids_inj none (some t) item.id (heq ▸ List.mem_map_of_mem hmem) hnew
  · cases hb.ids_inj (some u) (some t) item.id
      (heq ▸ List.mem_append_left _ (List.mem_map_of_mem hmem)) hnew
    exact hut rfl

theorem status_of_written (hb : ItemCreates.Inv base s) (h : Kept k s) (hut : u ≠ t)
    (hc : c ∈ (s.view u).created)
    (hw : ∃ w ∈ s.db.pending u, w.onItem c.databaseId c.itemId = true) :
    status c.databaseId c.itemId (s.view t) = status c.databaseId c.itemId s.db.committed := by
  refine status_off (fun w hmem => ⟨?_, ?_⟩) _
  · by_contra hon
    exact hut (h.alone u t _ _ hw ⟨w, hmem, eq_true_of_ne_false hon⟩)
  · rintro item key rfl
    exact new_of_other hb hut hc hmem

theorem status_of_new
    (hitems : ∀ item ∈ C.store.items, ∃ key, ⟨item.id, key, item.databaseId⟩ ∈ C.created)
    (hne : ∀ x ∈ C.created, x.itemId ≠ c.itemId) :
    status c.databaseId c.itemId C = none := by
  unfold status
  rw [Option.map_eq_none_iff]
  unfold Store.getItemById
  refine List.find?_eq_none.mpr fun item hitem hat => ?_
  simp only [ItemRow.isAt, decide_eq_true_eq] at hat
  obtain ⟨key, hknown⟩ := hitems item hitem
  exact hne _ hknown hat.2

theorem view_after (hb : ItemCreates.Inv base s) (h : Kept k s) (hut : u ≠ t) :
    Named k ((s.db.pending u).foldl apply (s.view t)) := by
  by_cases hholds : Holds k s u
  · have hpart : part k (s.view t) = part k s.db.committed := hb.part_view hut hholds
    refine Named.of_part (C := s.view u) (h.views u) (ItemCreates.part_foldl_congr _ hpart)
      fun c hc hk hlive => ?_
    rw [live_iff] at hlive ⊢
    by_cases hw : ∃ w ∈ s.db.pending u, w.onItem c.databaseId c.itemId = true
    · exact (status_congr (status_of_written hb h hut hc hw) _).symm.trans hlive
    · rcases List.mem_append.mp (mem_view.mp hc) with hmem | hmem
      · -- a committed item that only `t` may have written, and not taken out of the trash
        have hknown : c ∈ (s.view t).created := mem_view.mpr (List.mem_append_left _ hmem)
        have hoff : ∀ w ∈ s.db.pending u, Off c.databaseId c.itemId w := by
          refine fun w hwu => ⟨?_, ?_⟩
          · by_contra hon
            exact hw ⟨w, hwu, eq_true_of_ne_false hon⟩
          · rintro item key rfl
            exact new_of_other hb (Ne.symm hut) hknown hwu
        rw [status_off hoff] at hlive
        show status _ _ ((s.db.pending u).foldl apply s.db.committed) = _
        rw [status_off hoff]
        refine live_of_buries (fun w hwt => ⟨?_, ?_⟩) _ hlive
        · rintro rfl
          obtain ⟨key, hrestored, hg⟩ := h.restored t _ _ hwt
          have hsame : (⟨c.itemId, key, c.databaseId⟩ : Created) = c :=
            created_eq hb hrestored hknown rfl
          have hkey : key = some k := by rw [← hk, ← hsame]
          exact hut ((hg hkey).1 u hholds)
        · rintro item key rfl
          exact new_of_other hb hut hc hwt
      · have hne : ∀ x ∈ (s.view t).created, x.itemId ≠ c.itemId := fun x hx heq => by
          obtain ⟨w, hwu, hcw⟩ := List.mem_filterMap.mp hmem
          cases w with
          | insertItem item key =>
            cases hcw
            exact new_of_other hb (Ne.symm hut) hx hwu heq.symm
          | _ => cases hcw
        have hview := status_of_new (items_created h.items (s.db.pending t)) hne
        have hcommitted := status_of_new h.items fun x hx =>
          hne x (mem_view.mpr (List.mem_append_left _ hx))
        have hsame := hview.trans hcommitted.symm
        exact (status_congr hsame (s.db.pending u)).symm.trans hlive
  · have hsame : part k ((s.db.pending u).foldl apply (s.view t)) = part k (s.view t) :=
      part_of_not_holds hb hholds _
    refine fun c hc hk hlive => row_of_part (P := (· = c.itemId)) hsame ?_
    have hknown : c ∈ (s.view t).created := by
      have hmem : c ∈ (part k (s.view t)).2 :=
        hsame ▸ List.mem_filter.mpr ⟨hc, decide_eq_true hk⟩
      exact (List.mem_filter.mp hmem).1
    rw [live_iff] at hlive
    by_cases hr : .setDeletedAt c.databaseId c.itemId none ∈ s.db.pending u
    · obtain ⟨key, hrestored, hg⟩ := h.restored u _ _ hr
      have heq : (⟨c.itemId, key, c.databaseId⟩ : Created) = c :=
        created_eq hb hrestored hknown rfl
      have hkey : key = some k := by rw [← hk, ← heq]
      have hnot : ¬Holds k s t := fun ht => hut ((hg hkey).1 t ht).symm
      have hcu : c ∈ (s.view u).created := heq ▸ hrestored
      have hw : ∃ w ∈ s.db.pending u, w.onItem c.databaseId c.itemId = true :=
        ⟨_, hr, by simp [ItemCreates.Write.onItem]⟩
      have hlive' : Live (s.view u) c := live_iff.mpr
        ((status_congr (status_of_written hb h hut hcu hw) (s.db.pending u)).symm.trans hlive)
      have hparts : part k (s.view t) = part k (s.view u) :=
        (part_of_not_holds hb hnot _).trans (part_of_not_holds hb hholds _).symm
      exact row_of_part (P := (· = c.itemId)) hparts (h.views u c hcu hk hlive')
    · refine h.views t c hknown hk (live_iff.mpr ?_)
      refine live_of_buries (fun w hwu => ⟨?_, ?_⟩) _ hlive
      · rintro rfl
        exact hr hwu
      · rintro item key rfl
        exact new_of_other hb (Ne.symm hut) hknown hwu

theorem commit {db : ReadCommitted Tables Write} {returned : List ItemCreates.Returned}
    (hb : ItemCreates.Inv base s) (h : Kept k s) (hdb : s.db.commit apply t = some db) :
    Kept k (s.close t db returned) := by
  have hc : db.committed = s.view t := ReadCommitted.commit_committed hdb
  refine h.close hb (ReadCommitted.commit_pending hdb) (hc ▸ h.views t)
    (fun u hut => hc ▸ h.view_after hb hut) (hc ▸ items_created h.items _) (fun u hut hu => ?_)
    fun x hx => ?_
  · rw [hc]
    exact part_of_not_holds hb (fun ht => hut (hu t ht).symm) _
  · rw [hc]
    exact mem_view.mpr (List.mem_append_left _ hx)

/-! ### The statements of a create -/

/-- Writes that leave the key alone and take nothing of it out of the trash. -/
theorem named_of_buries {V : Tables} (h : Named k V) (hoff : ∀ w ∈ ws, ¬w.Touches k)
    (hbury : ∀ c ∈ V.created, c.key = some k → ∀ w ∈ ws, Buries c.databaseId c.itemId w) :
    Named k (ws.foldl apply V) :=
  h.of_part (ItemCreates.part_foldl hoff V) fun c hc hk hlive =>
    live_iff.mpr (live_of_buries (hbury c hc hk) V (live_iff.mp hlive))

theorem eq_of_not_locked (h : ¬ s.db.Locked t (ItemCreates.Write.onKey k)) :
    Holds k s u → u = t := ItemCreates.eq_of_not_locked h

theorem eq_of_guarded (hb : ItemCreates.Inv base s) {P : ℕ → Prop}
    (hfree : ¬ s.db.Locked t (ItemCreates.Write.onKey k)) (hnone : s.keyRow t k = none)
    (hguard : Guarded k s u P) : u = t := by
  by_contra hut
  have hnot : ¬Holds k s t := fun ht => hut (hguard.1 t ht).symm
  rcases hguard.2 with hholds | hrow
  · exact hut (eq_of_not_locked hfree hholds)
  · obtain ⟨row, hrow, hkey, -⟩ := row_of_part (D := s.view t) (part_of_not_holds hb hnot _) hrow
    exact List.find?_eq_none.mp hnone row hrow (decide_eq_true hkey)

theorem guarded_of_row (hb : ItemCreates.Inv base s) {P : ℕ → Prop}
    (hfree : ¬ s.db.Locked t (ItemCreates.Write.onKey k))
    (hrow : ∃ row ∈ (s.view t).store.idempotencyKeys, row.key = k ∧ P row.itemId) :
    Guarded k s t P := by
  refine ⟨fun u hu => eq_of_not_locked hfree hu, ?_⟩
  by_cases hholds : Holds k s t
  · exact .inl hholds
  · exact .inr (row_of_part (part_of_not_holds hb hholds _).symm hrow)

theorem reserve (h : Kept k s) {call : Call} {key : String} (hkey : call.key = some key)
    (hfree : ¬ s.db.Locked t (ItemCreates.Write.onKey key))
    (hs : s.write t ws (some { call with phase := .insert }) = some s')
    (hws : ws = [.insertKey ⟨key, call.input.databaseId, call.newId⟩] ∨
      ws = [.deleteKey key, .insertKey ⟨key, call.input.databaseId, call.newId⟩])
    (hdead : key = k → ∀ c ∈ (s.view t).created, c.key = some k → ¬Live (s.view t) c)
    (hother : key = k → ∀ u, s.keyLocks k = some u ∨ (∃ d i,
      .setDeletedAt d i none ∈ s.db.pending u ∧ ⟨i, some k, d⟩ ∈ (s.view u).created) → u = t) :
    Kept k s' := by
  have hon : ∀ w ∈ ws, ∀ k', w.onKey k' = true → key = k' := by
    rcases hws with rfl | rfl <;> intro w hw k' hk' <;>
      simp only [List.mem_cons, List.not_mem_nil, or_false] at hw
    · subst hw
      simpa [ItemCreates.Write.onKey] using hk'
    · rcases hw with rfl | rfl <;> simpa [ItemCreates.Write.onKey] using hk'
  have hbury : ∀ d i, ∀ w ∈ ws, Buries d i w := by
    rcases hws with rfl | rfl <;> intro d i w hw <;>
      simp only [List.mem_cons, List.not_mem_nil, or_false] at hw
    · subst hw
      exact ⟨(fun h => by cases h), fun _ _ h => by cases h⟩
    · rcases hw with rfl | rfl <;> exact ⟨(fun h => by cases h), fun _ _ h => by cases h⟩
  have hcreated : (ws.foldl apply (s.view t)).created = (s.view t).created := by
    rcases hws with rfl | rfl <;> rfl
  refine h.write hs ?_ ?_ ?_ ?_ ?_ ?_
  · by_cases hk : key = k
    · intro c hc hck hlive
      rw [hcreated] at hc
      exact absurd (live_iff.mpr (live_of_buries (hbury _ _) _ (live_iff.mp hlive)))
        (hdead hk c hc hck)
    · refine named_of_buries (h.views t) (fun w hw htouch => ?_) fun c _ _ => hbury _ _
      rcases htouch with hwk | ⟨item, rfl⟩
      · exact hk (hon w hw k hwk)
      · exact absurd rfl ((hbury 0 item.id _ hw).2 item (some k) rfl)
  · rintro ⟨w, hw, hwk⟩ u hu
    obtain rfl := hon w hw k hwk
    rcases hu with hu | hu
    · exact eq_of_not_locked hfree hu
    · exact hother rfl u hu
  · rintro d i ⟨w, hw, hwi⟩
    rcases hws with rfl | rfl <;> simp only [List.mem_cons, List.not_mem_nil, or_false] at hw
    · subst hw
      cases hwi
    · rcases hw with rfl | rfl <;> cases hwi
  · exact fun d i hr => absurd rfl ((hbury d i _ hr).1)
  · intro c i hc hphase
    cases hc
    cases hphase
  · intro c hc _ hck
    cases hc
    have hkk : key = k := Option.some.inj (hkey.symm.trans hck)
    refine ⟨⟨key, call.input.databaseId, call.newId⟩, ?_, hkk⟩
    rcases hws with rfl | rfl <;> exact List.mem_append_right _ (List.mem_singleton_self _)

theorem insertItem (hb : ItemCreates.Inv base s) (h : Kept k s) {call : Call} {item : ItemRow}
    (hcall : s.calls t = some call) (hphase : call.phase = .insert) (hid : item.id = call.newId)
    (hs : s.write t [.insertItem item call.key] (some { call with phase := .effects item }) =
      some s') : Kept k s' := by
  have hne : ∀ c ∈ (s.view t).created, item.id ≠ c.itemId := by
    intro c hc heq
    have hup : item.id ∈ ItemCreates.upcoming (s.calls t) := by
      rw [hcall, hid]
      simp [ItemCreates.upcoming, hphase]
    rcases List.mem_append.mp (mem_view.mp hc) with hmem | hmem
    · cases hb.ids_inj none (some t) item.id (heq ▸ List.mem_map_of_mem hmem)
        (List.mem_append_right _ hup)
    · exact (List.nodup_append.mp (hb.ids_nodup (some t))).2.2 _ (List.mem_map_of_mem hmem) _ hup
        heq.symm
  refine h.write hs ?_ (fun hw => ?_) ?_ ?_ ?_ ?_
  · intro c hc hck hlive
    rcases List.mem_append.mp hc with hc | hc
    · have hlive' : Live (s.view t) c := by
        have hbury : ∀ w ∈ [Write.insertItem item call.key], Buries c.databaseId c.itemId w := by
          intro w hw
          rw [List.mem_singleton.mp hw]
          refine ⟨(fun h => by cases h), fun item' key' heq => ?_⟩
          cases heq
          exact hne c hc
        exact live_iff.mpr (live_of_buries hbury _ (live_iff.mp hlive))
      exact h.views t c hc hck hlive'
    · -- the row of the key is the new item's
      obtain rfl := List.mem_singleton.mp hc
      obtain ⟨row, hrow, hkey⟩ := h.inserting t call hcall hphase hck
      have hall := (((hb.tx t).insert call hcall k hphase hck).2 row hrow hkey)
      refine ⟨row, hrow, hkey, ?_⟩
      rw [hall]
      exact hid.symm
  · obtain ⟨w, hw, hwk⟩ := hw
    rw [List.mem_singleton.mp hw] at hwk
    cases hwk
  · rintro d i ⟨w, hw, hwi⟩
    rw [List.mem_singleton.mp hw] at hwi
    cases hwi
  · intro d i hr
    cases List.mem_singleton.mp hr
  · intro c i hc hp
    cases hc
    cases hp
  · intro c hc hp
    cases hc
    cases hp

theorem writeOff (h : Kept k s) (hs : s.write t [w] call = some s')
    (hon : ∀ key, ¬w.Touches key) (hbury : ∀ d i, Buries d i w)
    (halone : ∀ d i, w.onItem d i = true → ¬ s.db.Locked t (ItemCreates.Write.onItem d i))
    (hcall : call = none ∨ call = s.calls t) : Kept k s' := by
  have hpart : ∀ V, part k ([w].foldl apply V) = part k V := fun V =>
    ItemCreates.part_foldl (fun w' hw' => List.mem_singleton.mp hw' ▸ hon k) V
  refine h.write hs (named_of_buries (h.views t) (fun w' hw' => List.mem_singleton.mp hw' ▸ hon k)
    fun c _ _ w' hw' => List.mem_singleton.mp hw' ▸ hbury _ _) ?_ ?_ ?_ ?_ ?_
  · rintro ⟨w', hw', hwk⟩
    rw [List.mem_singleton.mp hw'] at hwk
    exact absurd (.inl hwk) (hon k)
  · rintro d i ⟨w', hw', hwi⟩
    rw [List.mem_singleton.mp hw'] at hwi
    exact halone d i hwi
  · intro d i hr
    exact absurd (List.mem_singleton.mp hr).symm (hbury d i).1
  · intro c i hc hp hk
    rcases hcall with rfl | rfl
    · cases hc
    · obtain ⟨hlocked, hrow⟩ := h.reserved t c i hc hp hk
      exact ⟨hlocked, row_of_part (P := (· = i)) (hpart _) hrow⟩
  · intro c hc hp hk
    rcases hcall with rfl | rfl
    · cases hc
    · obtain ⟨row, hrow, hrk⟩ := h.inserting t c hc hp hk
      obtain ⟨row', hrow', hrk', -⟩ :=
        row_of_part (P := fun _ => True) (hpart (s.view t)) ⟨row, hrow, hrk, trivial⟩
      exact ⟨row', hrow', hrk'⟩

theorem restore (h : Kept k s) (hs : s.write t [.setDeletedAt d i none] (s.calls t) = some s')
    (halone : ¬ s.db.Locked t (ItemCreates.Write.onItem d i)) {key : Option String}
    (hknown : ⟨i, key, d⟩ ∈ (s.view t).created)
    (hone : ∀ c ∈ (s.view t).created, c.itemId = i → c = ⟨i, key, d⟩)
    (hrow : key = some k →
      ∃ row ∈ (s.view t).store.idempotencyKeys, row.key = k ∧ row.itemId = i)
    (hguard : key = some k → Guarded k s t (· = i)) : Kept k s' := by
  have hpart : part k ([.setDeletedAt d i none].foldl apply (s.view t)) = part k (s.view t) := rfl
  refine h.write hs ?_ ?_ ?_ ?_ ?_ ?_
  · intro c hc hck hlive
    by_cases hid : c.itemId = i
    · obtain rfl := hone c hc hid
      exact hrow hck
    · refine h.views t c hc hck (live_iff.mpr ?_)
      have hbury : ∀ w ∈ [Write.setDeletedAt d i none], Buries c.databaseId c.itemId w := by
        intro w hw
        rw [List.mem_singleton.mp hw]
        refine ⟨fun heq => ?_, nofun⟩
        injection heq with _ hi
        exact hid hi.symm
      exact live_of_buries hbury _ (live_iff.mp hlive)
  · rintro ⟨w, hw, hwk⟩
    rw [List.mem_singleton.mp hw] at hwk
    cases hwk
  · rintro d' i' ⟨w, hw, hwi⟩
    rw [List.mem_singleton.mp hw] at hwi
    obtain ⟨rfl, rfl⟩ := of_decide_eq_true hwi
    exact halone
  · intro d' i' hr
    cases List.mem_singleton.mp hr
    exact ⟨key, hknown, hguard⟩
  · exact fun c i' hc hp hk => h.reserved t c i' hc hp hk
  · exact fun c hc hp hk => h.inserting t c hc hp hk

theorem purge (hb : ItemCreates.Inv base s) (h : Kept k s) {keys : List String}
    (hcall : s.calls t = none)
    (hkeys : keys = ((s.view t).store.idempotencyKeys.filter fun row =>
      row.itemId = i ∧ row.databaseId = d).map (·.key))
    (halone : ¬ s.db.Locked t (ItemCreates.Write.onItem d i))
    (hfree : ∀ key ∈ keys, ¬ s.KeyLocked t key)
    (hs : s.write t (.hardDelete d i :: keys.map .deleteKey) none = some s') : Kept k s' := by
  have hrows : ∀ r ∈ (s.view t).store.idempotencyKeys, ItemCreates.LastCreated (s.view t) r := by
    refine fun r hr => ((hb.tx t).rows r hr).resolve_right ?_
    rintro ⟨c, hc, -⟩
    rw [hcall] at hc
    cases hc
  have hnamed : k ∈ keys → ∃ row ∈ (s.view t).store.idempotencyKeys, row.key = k ∧
      row.itemId = i ∧ ⟨i, some k, d⟩ ∈ (s.view t).created := by
    intro hk
    rw [hkeys] at hk
    obtain ⟨row, hrow, hkey⟩ := List.mem_map.mp hk
    obtain ⟨hrow, hat⟩ := List.mem_filter.mp hrow
    obtain ⟨hid, hdb⟩ := of_decide_eq_true hat
    refine ⟨row, hrow, hkey, hid, ?_⟩
    have hlast := (hrows row hrow).mem
    rwa [hid, hkey, hdb] at hlast
  have hon : (∃ w ∈ Write.hardDelete d i :: keys.map .deleteKey, w.onKey k = true) → k ∈ keys := by
    rintro ⟨w, hw, hwk⟩
    rcases List.mem_cons.mp hw with rfl | hw
    · cases hwk
    · obtain ⟨key, hkey, rfl⟩ := List.mem_map.mp hw
      exact of_decide_eq_true hwk ▸ hkey
  have hbury : ∀ d' i', ∀ w ∈ Write.hardDelete d i :: keys.map .deleteKey, Buries d' i' w := by
    intro d' i' w hw
    rcases List.mem_cons.mp hw with rfl | hw
    · exact ⟨nofun, nofun⟩
    · obtain ⟨key, -, rfl⟩ := List.mem_map.mp hw
      exact ⟨nofun, nofun⟩
  refine h.write hs ?_ ?_ ?_ ?_ (fun c i hc => nomatch hc) fun c hc => nomatch hc
  · by_cases hk : k ∈ keys
    · obtain ⟨row, hrow, hkey, hid, -⟩ := hnamed hk
      intro c hc hck hlive
      have hshrinks : ∀ w ∈ Write.hardDelete d i :: keys.map .deleteKey, w.Shrinks := by
        intro w hw
        rcases List.mem_cons.mp hw with rfl | hw
        · trivial
        · obtain ⟨key, -, rfl⟩ := List.mem_map.mp hw
          trivial
      have hcreated : c ∈ (s.view t).created :=
        (ItemCreates.shrinks_foldl hshrinks (s.view t)).2 ▸ hc
      have hlive' := live_of_buries (hbury c.databaseId c.itemId) _ (live_iff.mp hlive)
      obtain ⟨row', hrow', hkey', hid'⟩ := h.views t c hcreated hck (live_iff.mpr hlive')
      -- the purged item is the one the row names
      obtain ⟨-, -, -, -, hpurged⟩ := hnamed hk
      have hci : c.itemId = i := by
        rw [← hid', row_eq hrows hrow' hrow (hkey'.trans hkey.symm), hid]
      have hsame := created_eq hb hcreated hpurged hci
      subst hsame
      rw [live_iff, List.foldl_cons] at hlive
      have hgone : status d i (apply (s.view t) (.hardDelete d i)) = none := by
        rw [status_apply]
        exact if_pos ⟨rfl, rfl⟩
      rw [live_of_buries (fun w hw => hbury d i w (List.mem_cons_of_mem _ hw)) _ hlive] at hgone
      cases hgone
    · refine named_of_buries (h.views t) (fun w hw htouch => ?_) fun c _ _ => hbury _ _
      rcases htouch with hwk | ⟨item, rfl⟩
      · exact hk (hon ⟨w, hw, hwk⟩)
      · exact absurd rfl ((hbury 0 item.id _ hw).2 item (some k) rfl)
  · intro hw u hu
    have hk := hon hw
    have hunlocked : ¬ s.db.Locked t (ItemCreates.Write.onKey k) := fun hl => hfree k hk (.inl hl)
    rcases hu with hu | hu | ⟨d', i', hr, hknown⟩
    · exact eq_of_not_locked hunlocked hu
    · by_contra hut
      refine hfree k hk (.inr ?_)
      rw [hu]
      exact decide_eq_true hut
    · by_contra hut
      obtain ⟨key, hcreated, hg⟩ := h.restored u d' i' hr
      obtain rfl : key = some k :=
        congrArg (·.key) (created_eq hb hcreated hknown rfl)
      obtain ⟨honly, hrow⟩ := hg rfl
      have hnot : ¬Holds k s t := fun ht => hut (honly t ht).symm
      rcases hrow with hholds | hnames
      · exact hut (eq_of_not_locked hunlocked hholds)
      · obtain ⟨row, hrow, hkey, hid, hpurged⟩ := hnamed hk
        obtain ⟨row', hrow', hkey', hid'⟩ :=
          row_of_part (P := (· = i')) (D := s.view t) (part_of_not_holds hb hnot _) hnames
        have hii : i' = i := by
          rw [← hid', row_eq hrows hrow' hrow (hkey'.trans hkey.symm), hid]
        have hsame := created_eq hb hcreated hpurged hii
        injection hsame with hi _ hd
        refine halone (.of_mem hr hut ?_)
        exact decide_eq_true ⟨hd, hi⟩
  · rintro d' i' ⟨w, hw, hwi⟩
    rcases List.mem_cons.mp hw with rfl | hw
    · obtain ⟨rfl, rfl⟩ := of_decide_eq_true hwi
      exact halone
    · obtain ⟨key, -, rfl⟩ := List.mem_map.mp hw
      cases hwi
  · exact fun d' i' hr => absurd rfl (hbury d' i' _ hr).1

theorem takeOver (hb : ItemCreates.Inv base s) (h : Kept k s) {call : Call} {key : String}
    (hcall : s.calls t = some call) (hphase : call.phase = .takeOver i)
    (hkey : call.key = some key) (hdead : s.liveItem t call.input.databaseId i = none)
    (hok : ¬ s.db.Locked t (Write.restores call.input.databaseId i))
    (hfree : ¬ s.KeyLocked t key)
    (hs : s.write t [.deleteKey key, .insertKey ⟨key, call.input.databaseId, call.newId⟩]
      (some { call with phase := .insert }) = some s') : Kept k s' := by
  have hunlocked : ¬ s.db.Locked t (ItemCreates.Write.onKey key) := fun hl => hfree (.inl hl)
  have htx := hb.tx t
  rw [hcall] at htx
  have hne : call.phase ≠ .insert := by
    rw [hphase]
    exact nofun
  have hitem : reservedItem call = some i := by rw [reservedItem, hphase]
  have hrows : ∀ r ∈ (s.view t).store.idempotencyKeys, ItemCreates.LastCreated (s.view t) r := by
    refine fun r hr => (htx.rows r hr).resolve_right ?_
    rintro ⟨c, hc, hp, -⟩
    cases hc
    exact hne hp
  have hknown : ⟨i, call.key, call.input.databaseId⟩ ∈ (s.view t).created := by
    have hcallOk := htx.call call rfl
    unfold ItemCreates.CallOk at hcallOk
    rw [hphase] at hcallOk
    exact hcallOk
  refine h.reserve hkey hunlocked hs (.inr rfl) (fun hk c hc hck hlive => ?_) fun hk u hu => ?_
  · subst hk
    obtain ⟨-, row, hrow, hrk, hid⟩ := h.reserved t call i hcall hitem hkey
    obtain ⟨row', hrow', hrk', hid'⟩ := h.views t c hc hck hlive
    have hci : c.itemId = i := by
      rw [← hid', row_eq hrows hrow' hrow (hrk'.trans hrk.symm), hid]
    have hsame := created_eq hb hc hknown hci
    subst hsame
    obtain ⟨item, hget, hnone⟩ := hlive
    unfold Sys.liveItem at hdead
    rw [hget, Option.filter_some, if_pos (decide_eq_true hnone)] at hdead
    cases hdead
  · subst hk
    rcases hu with hu | ⟨d', i', hr, hrestored⟩
    · by_contra hut
      refine hfree (.inr ?_)
      rw [hu]
      exact decide_eq_true hut
    · by_contra hut
      obtain ⟨key', hcreated, hg⟩ := h.restored u d' i' hr
      obtain rfl : key' = some key := congrArg (·.key) (created_eq hb hcreated hrestored rfl)
      obtain ⟨honly, hrow⟩ := hg rfl
      have hnot : ¬Holds key s t := fun ht => hut (honly t ht).symm
      rcases hrow with hholds | hnames
      · exact hut (eq_of_not_locked hunlocked hholds)
      · obtain ⟨-, row, hrow, hrk, hid⟩ := h.reserved t call i hcall hitem hkey
        obtain ⟨row', hrow', hrk', hid'⟩ :=
          row_of_part (P := (· = i')) (D := s.view t) (part_of_not_holds hb hnot _) hnames
        have hii : i' = i := by
          rw [← hid', row_eq hrows hrow' hrow (hrk'.trans hrk.symm), hid]
        have hsame := created_eq hb hcreated hknown hii
        injection hsame with hi _ hd
        refine hok (.of_mem hr hut ?_)
        exact decide_eq_true ⟨hd, hi⟩

theorem createStep {a : ItemCreates.Act} {call : Call} (hb : ItemCreates.Inv base s)
    (h : Kept k s) (hcall : s.calls t = some call)
    (hok : ∀ u i, a = .takeOver u → call.phase = .takeOver i →
      s.liveItem t call.input.databaseId i = none ∧
        ¬ s.db.Locked t (Write.restores call.input.databaseId i))
    (hs : ItemCreates.createStep env s t call a = some s') : Kept k s' := by
  cases a with
  | findReplay u =>
    simp only [ItemCreates.createStep] at hs
    split at hs
    case h_1 hp hk =>
      split at hs
      case h_1 row hrow =>
        split at hs
        case isTrue =>
          cases hs
          exact h.setCall rfl rfl rfl (fun c i hc hp => by cases hc; cases hp)
            fun c hc hp => by cases hc; cases hp
        case isFalse => exact h.throw hb hs
      case h_2 => exact h.throw hb hs
    case h_2 => cases hs
  | readReplay u =>
    simp only [ItemCreates.createStep] at hs
    split at hs
    case h_1 itemId hp =>
      split at hs
      case h_1 item hitem =>
        cases hs
        exact h.setCall rfl rfl rfl (fun c i hc => by cases hc) fun c hc => by cases hc
      case h_2 => exact h.throw hb hs
    case h_2 => cases hs
  | reserveKey u =>
    simp only [ItemCreates.createStep] at hs
    split at hs
    case h_1 key hp hk =>
      split at hs
      case isTrue => cases hs
      case isFalse hfree =>
        split at hs
        case h_1 hnone =>
          refine h.reserve hk hfree hs (.inl rfl) (fun hkk c hc hck hlive => ?_) fun hkk v hv => ?_
          · subst hkk
            obtain ⟨row, hrow, hrk, -⟩ := h.views t c hc hck hlive
            exact List.find?_eq_none.mp hnone row hrow (decide_eq_true hrk)
          · subst hkk
            rcases hv with hv | ⟨d, i, hr, hrestored⟩
            · exact eq_of_guarded hb hfree hnone (h.selected v hv)
            · obtain ⟨key', hcreated, hg⟩ := h.restored v d i hr
              exact eq_of_guarded hb hfree hnone
                (hg (congrArg (·.key) (created_eq hb hcreated hrestored rfl)))
        case h_2 =>
          cases hs
          exact h.setCall rfl rfl rfl (fun c i hc hp => by cases hc; cases hp)
            fun c hc hp => by cases hc; cases hp
    case h_2 => cases hs
  | selectKey u =>
    simp only [ItemCreates.createStep] at hs
    split at hs
    case h_1 key hp hk =>
      split at hs
      case isTrue => cases hs
      case isFalse hfree =>
        split at hs
        case h_1 row hrow =>
          obtain ⟨hmem, hrk⟩ := ItemCreates.of_keyRow hrow
          split at hs
          case isTrue hdb =>
            cases hs
            have hlocked : Kept k { s with keyLocks := Function.update s.keyLocks key (some t) } :=
              h.lock (fun hkk => hkk ▸ guarded_of_row hb (fun hl => hfree (.inl hl))
                ⟨row, hmem, hrk, trivial⟩) hfree
            refine hlocked.setCall rfl rfl rfl (fun c i hc hp hck => ?_)
              fun c hc hp => by cases hc; cases hp
            cases hc
            cases hp
            have hkk : key = k := Option.some.inj (hk.symm.trans hck)
            refine ⟨?_, row, hmem, hrk.trans hkk, rfl⟩
            show Function.update s.keyLocks key (some t) k = some t
            rw [hkk, Function.update_self]
          case isFalse => exact h.throw hb hs
        case h_2 => exact h.throw hb hs
    case h_2 => cases hs
  | readReserved u =>
    simp only [ItemCreates.createStep] at hs
    split at hs
    case h_1 itemId hp =>
      split at hs
      case h_1 item hitem =>
        cases hs
        exact h.setCall rfl rfl rfl (fun c i hc => by cases hc) fun c hc => by cases hc
      case h_2 =>
        cases hs
        refine h.setCall rfl rfl rfl (fun c i hc hi hck => ?_) fun c hc hp => by cases hc; cases hp
        cases hc
        cases hi
        exact h.reserved t call itemId hcall (by rw [reservedItem, hp]) hck
    case h_2 => cases hs
  | takeOver u =>
    simp only [ItemCreates.createStep] at hs
    split at hs
    case h_1 itemId key hp hk =>
      split at hs
      case isTrue => cases hs
      case isFalse hfree =>
        obtain ⟨hdead, hfree'⟩ := hok u itemId rfl hp
        exact h.takeOver hb hcall hp hk hdead hfree' hfree hs
    case h_2 => cases hs
  | insertItem u =>
    simp only [ItemCreates.createStep] at hs
    split at hs
    case h_1 hp =>
      split at hs
      case h_1 item hitem =>
        exact h.insertItem hb hcall hp (ItemCreates.of_newItem hitem).1 hs
      case h_2 => exact h.throw hb hs
    case h_2 => cases hs
  | runEffects u =>
    simp only [ItemCreates.createStep] at hs
    split at hs
    case h_1 item hp =>
      split at hs
      case h_1 =>
        obtain ⟨s₁, hwrite, rfl⟩ := Option.map_eq_some_iff.mp hs
        have hwritten : Kept k s₁ := by
          refine h.writeOff hwrite (fun key htouch => ?_)
            (fun d i => ⟨(fun h => by cases h), fun _ _ h => by cases h⟩)
            (fun _ _ h => by cases h) (.inl rfl)
          rcases htouch with hon | ⟨item', heq⟩
          · cases hon
          · cases heq
        exact hwritten.setCall rfl rfl rfl (fun c i hc => by cases hc) fun c hc => by cases hc
      case h_2 => exact h.throw hb hs
    case h_2 => cases hs
  | _ => cases hs

/-! ### Steps -/

theorem createItem (hb : ItemCreates.Inv base s) (h : Kept k s) {input : CreateItemInput}
    {options : WriteOptions}
    (hs : ItemCreates.step env s (.createItem t input options) = some s') : Kept k s' := by
  simp only [ItemCreates.step] at hs
  split at hs
  case isTrue =>
    split at hs
    case h_1 call hstart =>
      cases hs
      obtain ⟨-, hphase⟩ := ItemCreates.of_startCall hstart
      refine h.setCall rfl rfl rfl (fun c i hc hp => ?_) fun c hc hp hck => ?_
      · cases hc
        unfold reservedItem at hp
        rcases hphase with hphase | hphase | ⟨hphase, -⟩ <;> rw [hphase] at hp <;> cases hp
      · cases hc
        rcases hphase with hphase | hphase | ⟨-, hkey⟩
        · rw [hp] at hphase
          cases hphase
        · rw [hp] at hphase
          cases hphase
        · rw [hkey] at hck
          cases hck
    case h_2 => exact h.throw hb hs
  case isFalse => cases hs

theorem trash {now : ℤ} (h : Kept k s)
    (hs : ItemCreates.step env s (.setDeletedAt t d i (some now)) = some s') : Kept k s' := by
  simp only [ItemCreates.step] at hs
  split at hs
  case isTrue => cases hs
  case isFalse halone =>
    refine h.writeOff hs (fun key htouch => ?_)
      (fun d' i' => ⟨(fun h => by cases h), fun _ _ h => by cases h⟩) (fun d' i' hon => ?_) (.inr rfl)
    · rcases htouch with hon | ⟨item, heq⟩
      · cases hon
      · cases heq
    · obtain ⟨rfl, rfl⟩ := of_decide_eq_true hon
      exact halone

theorem restoreStep (hk : isJournalKey k = true) (hb : ItemCreates.Inv base s) (h : Kept k s)
    (hok : ReservationKept s (.restore t d i))
    (htrashed : ((s.view t).store.getItemById d i).any (fun before => before.deletedAt.isSome) =
      true)
    (hs : ItemCreates.step env s (.setDeletedAt t d i none) = some s') : Kept k s' := by
  simp only [ItemCreates.step] at hs
  split at hs
  case isTrue => cases hs
  case isFalse halone =>
    obtain ⟨item, hget⟩ : ∃ item, (s.view t).store.getItemById d i = some item := by
      cases hget : (s.view t).store.getItemById d i with
      | none =>
        rw [hget] at htrashed
        cases htrashed
      | some item => exact ⟨item, rfl⟩
    have hat : item.isAt d i = true := by
      unfold Store.getItemById at hget
      exact (List.find?_some hget :)
    obtain ⟨rfl, rfl⟩ := of_decide_eq_true hat
    obtain ⟨key, hknown⟩ :=
      items_created h.items (s.db.pending t) item (List.mem_of_find?_eq_some hget)
    have hkept : key = some k →
        (∃ row ∈ (s.view t).store.idempotencyKeys, row.key = k ∧ row.itemId = item.id) ∧
          ¬ s.db.Locked t (ItemCreates.Write.onKey k) := fun hkey =>
      hok htrashed _ hknown rfl rfl k hkey hk
    exact h.restore hs halone hknown (fun c hc hid => created_eq hb hc hknown hid)
      (fun hkey => (hkept hkey).1)
      fun hkey => guarded_of_row hb (hkept hkey).2 (hkept hkey).1

theorem other {a : ItemCreates.Act} (hb : ItemCreates.Inv base s) (h : Kept k s)
    (hok : ReservationKept s (.other a)) (ha : ∀ t d i x, a ≠ .setDeletedAt t d i x)
    (hs : ItemCreates.step env s a = some s') : Kept k s' := by
  cases a with
  | begin t =>
    obtain ⟨db, hdb, rfl⟩ := Option.map_eq_some_iff.mp hs
    obtain ⟨committed, opened, pending, hnil⟩ := db
    obtain rfl : committed = s.db.committed := ReadCommitted.begin_committed hdb
    obtain rfl : pending = s.db.pending := ReadCommitted.begin_pending hdb
    exact { h with }
  | createItem t input options => exact h.createItem hb hs
  | setDeletedAt t d i x => exact absurd rfl (ha t d i x)
  | purge t d i =>
    simp only [ItemCreates.step] at hs
    split at hs
    case isTrue hguard =>
      obtain ⟨-, halone, hfree, hnone⟩ := hguard
      exact h.purge hb (Option.isNone_iff_eq_none.mp hnone) rfl halone hfree hs
    case isFalse => cases hs
  | setArchivedAt t databaseId archivedAt =>
    simp only [ItemCreates.step] at hs
    split at hs
    case isTrue => cases hs
    case isFalse =>
      refine h.writeOff hs (fun key htouch => ?_)
        (fun d' i' => ⟨(fun h => by cases h), fun _ _ h => by cases h⟩)
        (fun _ _ h => by cases h) (.inr rfl)
      rcases htouch with hon | ⟨item, heq⟩
      · cases hon
      · cases heq
  | commit t =>
    simp only [ItemCreates.step] at hs
    split at hs
    case isTrue =>
      obtain ⟨db, hdb, rfl⟩ := Option.map_eq_some_iff.mp hs
      exact h.commit hb hdb
    case isFalse => cases hs
  | rollback t => exact h.throw hb hs
  | takeOver t =>
    obtain ⟨call, hcall, hs⟩ := Option.bind_eq_some_iff.mp hs
    refine h.createStep hb hcall (fun u i _ hp => ?_) hs
    exact hok call hcall i (by rw [reservedItem, hp]; rfl)
  | findReplay t | readReplay t | reserveKey t | selectKey t | readReserved t | insertItem t
  | runEffects t =>
    obtain ⟨call, hcall, hs⟩ := Option.bind_eq_some_iff.mp hs
    exact h.createStep hb hcall (fun u i ha => by cases ha) hs

theorem step {a : Act} (hk : isJournalKey k = true) (hb : ItemCreates.Inv base s) (h : Kept k s)
    (hok : ReservationKept s a) (hs : step L journalDatabaseId env s a = some s') : Kept k s' := by
  cases a with
  | getOrCreateJournalItem t type referenceDate timezone =>
    simp only [JournalItems.step] at hs
    split_ifs at hs
    · exact h.createItem hb hs
    · exact h.throw hb hs
  | trash t d i now =>
    simp only [JournalItems.step] at hs
    split at hs
    case h_1 => exact h.throw hb hs
    case h_2 =>
      cases hs
      exact h
    case h_3 before _ =>
      split_ifs at hs
      · cases hs
        exact h
      · exact h.trash hs
  | restore t d i =>
    simp only [JournalItems.step] at hs
    split at hs
    case h_1 => exact h.throw hb hs
    case h_2 =>
      split_ifs at hs with htrashed
      · exact h.restoreStep hk hb hok htrashed hs
      · cases hs
        exact h
  | other a =>
    simp only [JournalItems.step] at hs
    split at hs
    case h_1 =>
      split_ifs at hs
      exact h.createItem hb hs
    case h_2 => cases hs
    case h_3 hnot => exact h.other hb hok (fun t d i x heq => hnot t d i x heq) hs

end Kept

theorem base_step {a : Act} (hb : ItemCreates.Inv base s)
    (hs : step L journalDatabaseId env s a = some s') : ItemCreates.Inv base s' := by
  cases a with
  | getOrCreateJournalItem t type referenceDate timezone =>
    simp only [step] at hs
    split_ifs at hs
    · exact hb.step hs
    · exact hb.throw hs
  | trash t d i now =>
    simp only [step] at hs
    split at hs
    case h_1 => exact hb.throw hs
    case h_2 =>
      cases hs
      exact hb
    case h_3 before _ =>
      split_ifs at hs
      · cases hs
        exact hb
      · exact hb.step hs
  | restore t d i =>
    simp only [step] at hs
    split at hs
    case h_1 => exact hb.throw hs
    case h_2 =>
      split_ifs at hs
      · exact hb.step hs
      · cases hs
        exact hb
  | other a =>
    simp only [step] at hs
    split at hs
    case h_1 =>
      split_ifs at hs
      exact hb.step hs
    case h_2 => cases hs
    case h_3 => exact hb.step hs

theorem kept_init (store : Store) : Kept k (.init store) := by
  refine ⟨fun c hc => absurd hc List.not_mem_nil, fun t c hc => absurd hc List.not_mem_nil,
    fun item hitem => absurd hitem List.not_mem_nil, ?_, fun t ht => ?_, fun t c i hcall => ?_,
    fun t c hcall => ?_, ?_⟩
  · rintro t u d i ⟨w, hw, -⟩
    exact absurd hw List.not_mem_nil
  · cases ht
  · cases hcall
  · cases hcall
  · exact fun t d i hr => absurd hr List.not_mem_nil

end JournalItems

end Semprec
