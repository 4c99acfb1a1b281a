import Semprec.Proofs.JournalReservations

/-!
# The period of a Journal item

A key names one type and one period, and only a call for the period creates an item under it.
-/

namespace Semprec

namespace JournalItems

open Items
open ItemCreates (Created Tables Write Sys apply createdOf Call)

variable {env : Env} {L : Luxon} {journalDatabaseId : ℕ} {s s' : Sys} {ws : List Write} {t i : ℕ}
  {k : String} {call : Option Call} {base : List Created}

/-! ## The period of an item -/

section

variable {type type' : JournalPeriodType} {period period' : String}

theorem toList_idempotencyKey : (idempotencyKey journalDatabaseId type period).toList =
    "journal:".toList ++ (toString journalDatabaseId).toList ++ ":".toList ++ type.name.toList ++
      ":".toList ++ period.toList := by
  simp only [idempotencyKey, toString, String.toList_append, List.append_assoc]

theorem isJournalKey_idempotencyKey :
    isJournalKey (idempotencyKey journalDatabaseId type period) = true := by
  unfold isJournalKey
  rw [toList_idempotencyKey, List.isPrefixOf_iff_prefix]
  simp only [List.append_assoc]
  exact List.prefix_append _ _

theorem idempotencyKey_inj
    (h : idempotencyKey journalDatabaseId type period =
      idempotencyKey journalDatabaseId type' period') : type = type' ∧ period = period' := by
  have htext := congrArg String.toList h
  rw [toList_idempotencyKey, toList_idempotencyKey] at htext
  simp only [List.append_assoc, List.append_cancel_left_eq] at htext
  have htype : type = type' := by
    have hhead := congrArg List.head? htext
    cases type <;> cases type' <;> first | rfl | simp [JournalPeriodType.name] at hhead
  subst htype
  exact ⟨rfl, String.toList_injective (List.append_cancel_left (List.append_cancel_left htext))⟩

end

theorem get?_merge_of_ne {o : JsonObject} {key key' : String} {v : Json} (h : key' ≠ key) :
    (o.merge [(key', v)]).get? key = o.get? key := by
  have hb : (key == key') = false := beq_eq_false_iff_ne.mpr (Ne.symm h)
  rw [JsonObject.get?_merge]
  simp [JsonObject.get?, List.lookup_cons, hb]

theorem get?_applyDefaults {store : Store} {input : JsPatch} {key : String}
    (hin : (input.any fun f => f.1 = key) = true) : ∀ {properties : List PropertyRow}
      {acc o : JsonObject}, applyDefaults env store properties input acc = .ok o →
        o.get? key = acc.get? key
  | [], _, _, h => by
    cases h
    rfl
  | property :: properties, acc, o, h => by
    unfold applyDefaults at h
    rw [List.foldlM_cons] at h
    obtain ⟨acc', hstep, hfold⟩ := except_bind_ok.mp h
    have hrest : o.get? key = acc'.get? key := get?_applyDefaults hin hfold
    suffices hsame : acc'.get? key = acc.get? key from hrest.trans hsame
    cases hdefault : property.config.default with
    | none =>
      rw [hdefault] at hstep
      cases hstep
      rfl
    | some value =>
      rw [hdefault] at hstep
      dsimp only at hstep
      split at hstep
      case isTrue =>
        cases hstep
        rfl
      case isFalse hnot =>
        have hne : property.key ≠ key := by
          rintro rfl
          exact hnot hin
        split at hstep
        case h_1 =>
          obtain ⟨timezone, -, hstep⟩ := except_bind_ok.mp hstep
          obtain ⟨-, -, hstep⟩ := except_bind_ok.mp hstep
          cases hstep
          exact get?_merge_of_ne hne
        case h_2 =>
          cases hstep
          exact get?_merge_of_ne hne

def OfPeriod (journalDatabaseId : ℕ) (type : JournalPeriodType) (period : String)
    (item : ItemRow) : Prop :=
  item.databaseId = journalDatabaseId ∧
    item.properties.get? "type" = some (.str type.name) ∧
      item.properties.get? "period" = some (.str period)

theorem ofPeriod_newItem {store : Store} {call : Call} {item : ItemRow}
    {type : JournalPeriodType} {period : String}
    (hinput : call.input = journalInput journalDatabaseId type period)
    (h : ItemCreates.newItem env store call = .ok item) :
    OfPeriod journalDatabaseId type period item := by
  unfold ItemCreates.newItem at h
  cases hd : applyDefaults env store call.properties call.input.properties
      (createdProperties call.database call.input.properties) with
  | error e =>
    rw [hd] at h
    cases h
  | ok properties =>
    rw [hd] at h
    cases h
    rw [hinput] at hd
    let input := (journalInput journalDatabaseId type period).properties
    have hcreated : ∀ key, key ≠ "time" →
        (createdProperties call.database input).get? key = input.defined.get? key := by
      intro key hkey
      unfold createdProperties
      dsimp only
      split
      · exact get?_merge_of_ne (Ne.symm hkey)
      · rfl
    refine ⟨congrArg (·.databaseId) hinput, ?_, ?_⟩
    · exact (get?_applyDefaults (by simp [journalInput]) hd).trans
        ((hcreated "type" (by decide)).trans rfl)
    · exact (get?_applyDefaults (by simp [journalInput]) hd).trans
        ((hcreated "period" (by decide)).trans rfl)

structure Dated (journalDatabaseId : ℕ) (type : JournalPeriodType) (period : String) (s : Sys) :
    Prop where
  calls : ∀ t call, s.calls t = some call →
    call.key = some (idempotencyKey journalDatabaseId type period) →
      call.input = journalInput journalDatabaseId type period ∧
        ∀ item, call.phase = .effects item → OfPeriod journalDatabaseId type period item
  committed : ∀ item ∈ s.db.committed.store.items,
    ⟨item.id, some (idempotencyKey journalDatabaseId type period), item.databaseId⟩ ∈
      s.db.committed.created → OfPeriod journalDatabaseId type period item
  inserted : ∀ t item,
    .insertItem item (some (idempotencyKey journalDatabaseId type period)) ∈ s.db.pending t →
      OfPeriod journalDatabaseId type period item
  finished : ∀ t, ∀ r ∈ s.finished t,
    r.key = some (idempotencyKey journalDatabaseId type period) →
      OfPeriod journalDatabaseId type period r.item
  returned : ∀ r ∈ s.returned, r.key = some (idempotencyKey journalDatabaseId type period) →
    OfPeriod journalDatabaseId type period r.item

/-- An item that a transaction sees is committed or the transaction's own, but for its status. -/
theorem item_of_foldl (ws : List Write) : ∀ {C : Tables}, ∀ item ∈ (ws.foldl apply C).store.items,
    ∃ item', (item' ∈ C.store.items ∨ ∃ key, .insertItem item' key ∈ ws) ∧
      item'.id = item.id ∧ item'.databaseId = item.databaseId ∧
        item'.properties = item.properties := by
  induction ws with
  | nil => exact fun item hitem => ⟨item, .inl hitem, rfl, rfl, rfl⟩
  | cons w ws ih =>
    intro C item hitem
    obtain ⟨item', hfrom, hid, hdb, hprops⟩ := ih item hitem
    rcases hfrom with hfrom | ⟨key, hfrom⟩
    · suffices hback : ∃ item₀, (item₀ ∈ C.store.items ∨ ∃ key, .insertItem item₀ key ∈ w :: ws) ∧
          item₀.id = item'.id ∧ item₀.databaseId = item'.databaseId ∧
            item₀.properties = item'.properties by
        obtain ⟨item₀, hfrom₀, hid₀, hdb₀, hprops₀⟩ := hback
        exact ⟨item₀, hfrom₀, hid₀.trans hid, hdb₀.trans hdb, hprops₀.trans hprops⟩
      cases w with
      | insertItem new key =>
        rcases List.mem_append.mp hfrom with hfrom | hfrom
        · exact ⟨item', .inl hfrom, rfl, rfl, rfl⟩
        · rw [List.mem_singleton.mp hfrom]
          exact ⟨new, .inr ⟨key, List.mem_cons_self⟩, rfl, rfl, rfl⟩
      | setDeletedAt d i deletedAt =>
        obtain ⟨r, hr, rfl⟩ := List.mem_map.mp hfrom
        refine ⟨r, .inl hr, ?_⟩
        split <;> exact ⟨rfl, rfl, rfl⟩
      | hardDelete d i => exact ⟨item', .inl (List.mem_filter.mp hfrom).1, rfl, rfl, rfl⟩
      | insertKey row => exact ⟨item', .inl hfrom, rfl, rfl, rfl⟩
      | deleteKey key => exact ⟨item', .inl hfrom, rfl, rfl, rfl⟩
      | createEffects itemId => exact ⟨item', .inl hfrom, rfl, rfl, rfl⟩
      | setArchivedAt databaseId archivedAt => exact ⟨item', .inl hfrom, rfl, rfl, rfl⟩
    · exact ⟨item', .inr ⟨key, List.mem_cons_of_mem _ hfrom⟩, hid, hdb, hprops⟩

namespace Dated

variable {type : JournalPeriodType} {period : String}

theorem view (hb : ItemCreates.Inv base s) (hkept : Kept k s)
    (h : Dated journalDatabaseId type period s) (t : ℕ) : ∀ item ∈ (s.view t).store.items,
      ⟨item.id, some (idempotencyKey journalDatabaseId type period), item.databaseId⟩ ∈
        (s.view t).created → OfPeriod journalDatabaseId type period item := by
  intro item hitem hcreated
  obtain ⟨item', hfrom, hid, hdb, hprops⟩ := item_of_foldl (s.db.pending t) item hitem
  suffices hperiod : OfPeriod journalDatabaseId type period item' by
    obtain ⟨hdb', htype, hperiod⟩ := hperiod
    exact ⟨hdb ▸ hdb', hprops ▸ htype, hprops ▸ hperiod⟩
  rw [← hid, ← hdb] at hcreated
  rcases hfrom with hfrom | ⟨key, hfrom⟩
  · obtain ⟨key, hmem⟩ := hkept.items item' hfrom
    have hsame := created_eq hb (t := t) (u := t) (mem_view.mpr (List.mem_append_left _ hmem))
      hcreated rfl
    exact h.committed item' hfrom (hsame ▸ hmem)
  · have hmem : ⟨item'.id, key, item'.databaseId⟩ ∈ createdOf (s.db.pending t) :=
      List.mem_filterMap.mpr ⟨_, hfrom, rfl⟩
    have hsame := created_eq hb (t := t) (u := t) (mem_view.mpr (List.mem_append_right _ hmem))
      hcreated rfl
    injection hsame with _ hkey
    exact h.inserted t item' (hkey ▸ hfrom)

theorem write (h : Dated journalDatabaseId type period s) (hs : s.write t ws call = some s')
    (hinserted : ∀ item,
      .insertItem item (some (idempotencyKey journalDatabaseId type period)) ∈ ws →
        OfPeriod journalDatabaseId type period item)
    (hcall : ∀ c, call = some c → c.key = some (idempotencyKey journalDatabaseId type period) →
      c.input = journalInput journalDatabaseId type period ∧
        ∀ item, c.phase = .effects item → OfPeriod journalDatabaseId type period item) :
    Dated journalDatabaseId type period s' := by
  obtain ⟨db, hdb, rfl⟩ := Option.map_eq_some_iff.mp hs
  have hc := ReadCommitted.write_committed hdb
  refine ⟨fun u c hu => ?_, hc ▸ h.committed, fun u item hu => ?_, h.finished, h.returned⟩
  · replace hu : Function.update s.calls t call u = some c := hu
    by_cases hut : u = t
    · rw [hut, Function.update_self] at hu
      exact hcall c hu
    · rw [Function.update_of_ne hut] at hu
      exact h.calls u c hu
  · rcases ReadCommitted.mem_write_pending hdb hu with hu | ⟨-, hu⟩
    · exact h.inserted u item hu
    · exact hinserted item hu

theorem setCall (h : Dated journalDatabaseId type period s)
    (hcall : ∀ c, call = some c → c.key = some (idempotencyKey journalDatabaseId type period) →
      c.input = journalInput journalDatabaseId type period ∧
        ∀ item, c.phase = .effects item → OfPeriod journalDatabaseId type period item) :
    Dated journalDatabaseId type period (s.setCall t call) := by
  refine ⟨fun u c hu => ?_, h.committed, h.inserted, h.finished, h.returned⟩
  replace hu : Function.update s.calls t call u = some c := hu
  by_cases hut : u = t
  · rw [hut, Function.update_self] at hu
    exact hcall c hu
  · rw [Function.update_of_ne hut] at hu
    exact h.calls u c hu

theorem setPhase {c : Call} {phase : ItemCreates.Phase}
    (h : Dated journalDatabaseId type period s) (hcall : s.calls t = some c)
    (hphase : ∀ item, phase ≠ .effects item) :
    Dated journalDatabaseId type period (s.setPhase t c phase) := by
  refine h.setCall fun c' hc' hkey => ?_
  cases hc'
  exact ⟨(h.calls t c hcall hkey).1, fun item hp => absurd hp (hphase item)⟩

theorem finish {r : ItemCreates.Returned} (h : Dated journalDatabaseId type period s)
    (hr : r.key = some (idempotencyKey journalDatabaseId type period) →
      OfPeriod journalDatabaseId type period r.item) :
    Dated journalDatabaseId type period (s.finish t r) := by
  have hset : Dated journalDatabaseId type period (s.setCall t none) :=
    h.setCall fun c hc => nomatch hc
  refine ⟨hset.calls, hset.committed, hset.inserted, fun u r' hu => ?_, hset.returned⟩
  replace hu : r' ∈ Function.update s.finished t (s.finished t ++ [r]) u := hu
  by_cases hut : u = t
  · rw [hut, Function.update_self] at hu
    rcases List.mem_append.mp hu with hu | hu
    · exact h.finished t r' hu
    · rw [List.mem_singleton.mp hu]
      exact hr
  · rw [Function.update_of_ne hut] at hu
    exact h.finished u r' hu

theorem close {db : ReadCommitted Tables Write} {returned : List ItemCreates.Returned}
    (h : Dated journalDatabaseId type period s)
    (hp : db.pending = Function.update s.db.pending t [])
    (hcommitted : ∀ item ∈ db.committed.store.items,
      ⟨item.id, some (idempotencyKey journalDatabaseId type period), item.databaseId⟩ ∈
        db.committed.created → OfPeriod journalDatabaseId type period item)
    (hreturned : ∀ r ∈ returned, r ∈ s.returned ∨ r ∈ s.finished t) :
    Dated journalDatabaseId type period (s.close t db returned) := by
  refine ⟨fun u c hu => ?_, hcommitted, fun u item hu => ?_, fun u r hu => ?_, fun r hr => ?_⟩
  · exact h.calls u c (of_update_none hu).2
  · exact h.inserted u item (ReadCommitted.mem_closed_pending hp hu).2
  · replace hu : r ∈ Function.update s.finished t [] u := hu
    by_cases hut : u = t
    · rw [hut, Function.update_self] at hu
      cases hu
    · rw [Function.update_of_ne hut] at hu
      exact h.finished u r hu
  · rcases hreturned r hr with hr | hr
    · exact h.returned r hr
    · exact h.finished t r hr

theorem throw (h : Dated journalDatabaseId type period s) (hs : s.throw t = some s') :
    Dated journalDatabaseId type period s' := by
  obtain ⟨db, hdb, rfl⟩ := Option.map_eq_some_iff.mp hs
  exact h.close (ReadCommitted.rollback_pending hdb)
    (ReadCommitted.rollback_committed hdb ▸ h.committed) fun r hr => .inl hr

theorem replayed {c : Call} {item : ItemRow} (hb : ItemCreates.Inv base s) (hkept : Kept k s)
    (h : Dated journalDatabaseId type period s) (hcall : s.calls t = some c)
    (hp : c.phase = .replay i ∨ c.phase = .reserved i)
    (hitem : s.liveItem t c.input.databaseId i = some item)
    (hkey : c.key = some (idempotencyKey journalDatabaseId type period)) :
    OfPeriod journalDatabaseId type period item := by
  have hok := (hb.tx t).call c hcall
  unfold ItemCreates.CallOk at hok
  have hcreated : ⟨i, c.key, c.input.databaseId⟩ ∈ (s.view t).created := by
    rcases hp with hp | hp <;> rw [hp] at hok <;> exact hok
  obtain ⟨hget, -⟩ := Option.filter_eq_some_iff.mp hitem
  have hat : item.isAt c.input.databaseId i = true := by
    unfold Store.getItemById at hget
    exact (List.find?_some hget :)
  obtain ⟨hdb, hid⟩ := of_decide_eq_true hat
  refine h.view hb hkept t item (List.mem_of_find?_eq_some hget) ?_
  rw [hid, hdb, ← hkey]
  exact hcreated

theorem createStep {a : ItemCreates.Act} {c : Call} (hb : ItemCreates.Inv base s)
    (hkept : Kept k s) (h : Dated journalDatabaseId type period s) (hcall : s.calls t = some c)
    (hs : ItemCreates.createStep env s t c a = some s') :
    Dated journalDatabaseId type period s' := by
  have hinput := fun hkey => (h.calls t c hcall hkey).1
  cases a with
  | findReplay u =>
    simp only [ItemCreates.createStep] at hs
    split at hs
    case h_1 =>
      split at hs
      case h_1 row hrow =>
        split at hs
        case isTrue =>
          cases hs
          exact h.setPhase hcall fun _ h => by cases h
        case isFalse => exact h.throw hs
      case h_2 => exact h.throw hs
    case h_2 => cases hs
  | readReplay u =>
    simp only [ItemCreates.createStep] at hs
    split at hs
    case h_1 itemId hp =>
      split at hs
      case h_1 item hitem =>
        cases hs
        exact h.finish (h.replayed hb hkept hcall (.inl hp) hitem)
      case h_2 => exact h.throw hs
    case h_2 => cases hs
  | reserveKey u =>
    simp only [ItemCreates.createStep] at hs
    split at hs
    case h_1 key hp hk =>
      split at hs
      case isTrue => cases hs
      case isFalse =>
        split at hs
        case h_1 =>
          refine h.write hs (fun item hw => ?_) fun c' hc' hkey => ?_
          · cases List.mem_singleton.mp hw
          · cases hc'
            exact ⟨hinput hkey, fun _ h => by cases h⟩
        case h_2 =>
          cases hs
          exact h.setPhase hcall fun _ h => by cases h
    case h_2 => cases hs
  | selectKey u =>
    simp only [ItemCreates.createStep] at hs
    split at hs
    case h_1 key hp hk =>
      split at hs
      case isTrue => cases hs
      case isFalse =>
        split at hs
        case h_1 row hrow =>
          split at hs
          case isTrue =>
            cases hs
            have hset : Dated journalDatabaseId type period
                (s.setPhase t c (.reserved row.itemId)) := h.setPhase hcall fun _ h => by cases h
            exact { hset with }
          case isFalse => exact h.throw hs
        case h_2 => exact h.throw hs
    case h_2 => cases hs
  | readReserved u =>
    simp only [ItemCreates.createStep] at hs
    split at hs
    case h_1 itemId hp =>
      split at hs
      case h_1 item hitem =>
        cases hs
        exact h.finish (h.replayed hb hkept hcall (.inr hp) hitem)
      case h_2 =>
        cases hs
        exact h.setPhase hcall fun _ h => by cases h
    case h_2 => cases hs
  | takeOver u =>
    simp only [ItemCreates.createStep] at hs
    split at hs
    case h_1 =>
      split at hs
      case isTrue => cases hs
      case isFalse =>
        refine h.write hs (fun item hw => ?_) fun c' hc' hkey => ?_
        · simp only [List.mem_cons, reduceCtorEq, List.not_mem_nil, or_false] at hw
        · cases hc'
          exact ⟨hinput hkey, fun _ h => by cases h⟩
    case h_2 => cases hs
  | insertItem u =>
    simp only [ItemCreates.createStep] at hs
    split at hs
    case h_1 hp =>
      split at hs
      case h_1 item hitem =>
        refine h.write hs (fun item' hw => ?_) fun c' hc' hkey => ?_
        · obtain ⟨rfl, hkey⟩ := Write.insertItem.inj (List.mem_singleton.mp hw)
          exact ofPeriod_newItem (hinput hkey.symm) hitem
        · cases hc'
          refine ⟨hinput hkey, fun item' hp' => ?_⟩
          cases hp'
          exact ofPeriod_newItem (hinput hkey) hitem
      case h_2 => exact h.throw hs
    case h_2 => cases hs
  | runEffects u =>
    simp only [ItemCreates.createStep] at hs
    split at hs
    case h_1 item hp =>
      split at hs
      case h_1 =>
        obtain ⟨s₁, hwrite, rfl⟩ := Option.map_eq_some_iff.mp hs
        have hwritten : Dated journalDatabaseId type period s₁ := by
          refine h.write hwrite (fun item' hw => ?_) fun c' hc' => by cases hc'
          cases List.mem_singleton.mp hw
        exact hwritten.finish fun hkey => (h.calls t c hcall hkey).2 item hp
      case h_2 => exact h.throw hs
    case h_2 => cases hs
  | _ => cases hs

theorem input_of_startCall {store : Store} {input : CreateItemInput} {options : WriteOptions}
    {newId : ℕ} {c : Call} (h : ItemCreates.startCall store newId input options = .ok c) :
    c.input = input ∧ c.key = input.idempotencyKey.filter fun key => key ≠ "" := by
  unfold ItemCreates.startCall at h
  obtain ⟨database, -, h⟩ := except_bind_ok.mp h
  dsimp only at h
  split at h
  case isTrue =>
    split at h
    case isTrue =>
      cases h
      exact ⟨rfl, rfl⟩
    case isFalse => cases h
  case isFalse =>
    obtain ⟨-, -, h⟩ := except_bind_ok.mp h
    cases h
    exact ⟨rfl, rfl⟩

theorem createItem {input : CreateItemInput} {options : WriteOptions}
    (h : Dated journalDatabaseId type period s)
    (hinput : input.idempotencyKey = some (idempotencyKey journalDatabaseId type period) →
      input = journalInput journalDatabaseId type period)
    (hs : ItemCreates.step env s (.createItem t input options) = some s') :
    Dated journalDatabaseId type period s' := by
  simp only [ItemCreates.step] at hs
  split at hs
  case isTrue =>
    split at hs
    case h_1 call hstart =>
      cases hs
      obtain ⟨-, hphase⟩ := ItemCreates.of_startCall hstart
      obtain ⟨hcall, hkey⟩ := input_of_startCall hstart
      have hset : Dated journalDatabaseId type period (s.setCall t (some call)) := by
        refine h.setCall fun c hc hck => ?_
        cases hc
        rw [hkey] at hck
        refine ⟨hcall.trans (hinput (Option.filter_eq_some_iff.mp hck).1), fun item hp => ?_⟩
        rcases hphase with hphase | hphase | ⟨hphase, -⟩ <;> rw [hp] at hphase <;> cases hphase
      exact { hset with }
    case h_2 => exact h.throw hs
  case isFalse => cases hs

theorem other {a : ItemCreates.Act} (hb : ItemCreates.Inv base s) (hkept : Kept k s)
    (h : Dated journalDatabaseId type period s)
    (ha : ∀ t input options, a ≠ .createItem t input options)
    (hs : ItemCreates.step env s a = some s') : Dated journalDatabaseId type period s' := by
  cases a with
  | begin t =>
    obtain ⟨db, hdb, rfl⟩ := Option.map_eq_some_iff.mp hs
    obtain ⟨committed, opened, pending, hnil⟩ := db
    obtain rfl : committed = s.db.committed := ReadCommitted.begin_committed hdb
    obtain rfl : pending = s.db.pending := ReadCommitted.begin_pending hdb
    exact { h with }
  | createItem t input options => exact absurd rfl (ha t input options)
  | setDeletedAt t d i deletedAt | setArchivedAt t databaseId archivedAt =>
    simp only [ItemCreates.step] at hs
    split at hs
    case isTrue => cases hs
    case isFalse =>
      refine h.write hs (fun item hw => ?_) fun c hc hkey => h.calls t c hc hkey
      cases List.mem_singleton.mp hw
  | purge t d i =>
    simp only [ItemCreates.step] at hs
    split at hs
    case isTrue =>
      refine h.write hs (fun item hw => ?_) fun c hc => by cases hc
      rcases List.mem_cons.mp hw with hw | hw
      · cases hw
      · obtain ⟨key, -, hw⟩ := List.mem_map.mp hw
        cases hw
    case isFalse => cases hs
  | commit t =>
    simp only [ItemCreates.step] at hs
    split at hs
    case isTrue =>
      obtain ⟨db, hdb, rfl⟩ := Option.map_eq_some_iff.mp hs
      have hc : db.committed = s.view t := ReadCommitted.commit_committed hdb
      exact h.close (ReadCommitted.commit_pending hdb) (hc ▸ h.view hb hkept t)
        fun r hr => List.mem_append.mp hr
    case isFalse => cases hs
  | rollback t => exact h.throw hs
  | findReplay t | readReplay t | reserveKey t | selectKey t | readReserved t | takeOver t
  | insertItem t | runEffects t =>
    obtain ⟨call, hcall, hs⟩ := Option.bind_eq_some_iff.mp hs
    exact h.createStep hb hkept hcall hs

theorem step {a : Act} (hb : ItemCreates.Inv base s) (hkept : Kept k s)
    (h : Dated journalDatabaseId type period s)
    (hs : step L journalDatabaseId env s a = some s') :
    Dated journalDatabaseId type period s' := by
  cases a with
  | getOrCreateJournalItem t type' referenceDate timezone =>
    simp only [JournalItems.step] at hs
    split_ifs at hs
    · refine h.createItem (fun hkey => ?_) hs
      obtain ⟨rfl, hperiod⟩ := idempotencyKey_inj (Option.some.inj hkey)
      rw [hperiod]
    · exact h.throw hs
  | trash t d i now =>
    simp only [JournalItems.step] at hs
    split at hs
    case h_1 => exact h.throw hs
    case h_2 =>
      cases hs
      exact h
    case h_3 before _ =>
      split_ifs at hs
      · cases hs
        exact h
      · exact h.other hb hkept (fun _ _ _ heq => by cases heq) hs
  | restore t d i =>
    simp only [JournalItems.step] at hs
    split at hs
    case h_1 => exact h.throw hs
    case h_2 =>
      split_ifs at hs
      · exact h.other hb hkept (fun _ _ _ heq => by cases heq) hs
      · cases hs
        exact h
  | other a =>
    simp only [JournalItems.step] at hs
    split at hs
    case h_1 t input options =>
      split_ifs at hs with hjournal
      refine h.createItem (fun hkey => absurd ?_ hjournal) hs
      rw [hkey]
      exact isJournalKey_idempotencyKey
    case h_2 => cases hs
    case h_3 hcreate _ =>
      exact h.other hb hkept (fun t input options heq => hcreate t input options heq) hs

end Dated

theorem dated_init (store : Store) {type : JournalPeriodType} {period : String} :
    Dated journalDatabaseId type period (.init store) :=
  ⟨fun _ _ hc => (nomatch hc), fun _ hitem => absurd hitem List.not_mem_nil,
    fun _ _ hw => absurd hw List.not_mem_nil, fun _ _ hr => absurd hr List.not_mem_nil,
    fun _ hr => absurd hr List.not_mem_nil⟩

theorem kept_of_reach {store : Store}
    (hs : Reach (step L journalDatabaseId env) ReservationKept (.init store) s)
    (type : JournalPeriodType) (period : String) :
    ItemCreates.Inv [] s ∧ Kept (idempotencyKey journalDatabaseId type period) s ∧
      Dated journalDatabaseId type period s :=
  hs.invariant
    (I := fun s => ItemCreates.Inv [] s ∧ Kept (idempotencyKey journalDatabaseId type period) s ∧
      Dated journalDatabaseId type period s)
    ⟨ItemCreates.inv_init store, kept_init store, dated_init store⟩
    fun _ _ _ ⟨hb, hkept, hdated⟩ hok hs =>
      ⟨base_step hb hs, hkept.step isJournalKey_idempotencyKey hb hok hs, hdated.step hb hkept hs⟩

theorem one_item_per_period (L : Luxon) (journalDatabaseId : ℕ) (env : Env) (store : Store)
    (s : Sys) (hs : Reach (step L journalDatabaseId env) ReservationKept (.init store) s) :
    OneLive journalDatabaseId s ∧ ReturnsPeriod L journalDatabaseId s := by
  refine ⟨fun type period c hc c' hc' hk hk' hlive hlive' => ?_,
    fun r hr type referenceDate timezone hk => ?_⟩
  · obtain ⟨hb, hkept, -⟩ := kept_of_reach hs type period
    obtain ⟨row, hrow, hkey, hid⟩ := hkept.committed c hc hk hlive
    obtain ⟨row', hrow', hkey', hid'⟩ := hkept.committed c' hc' hk' hlive'
    have hsame : c.itemId = c'.itemId := by
      rw [← hid, ← hid', row_eq hb.rows hrow hrow' (hkey.trans hkey'.symm)]
    exact List.inj_on_of_nodup_map (hb.ids_nodup none) hc hc' hsame
  · obtain ⟨hb, -, hdated⟩ := kept_of_reach hs type (periodOf L type referenceDate timezone)
    obtain ⟨hdb, htype, hperiod⟩ := hdated.returned r hr hk
    exact ⟨hdb, (hb.returned r hr).2.1, htype, hperiod⟩

def journal : Store := { ItemCreates.writable with
  properties := [⟨1, 1, "name", none, .text, .empty, true, .system, none, .stable⟩,
    ⟨2, 1, "type", none, .select, .empty, true, .system, none, .stable⟩,
    ⟨3, 1, "period", none, .text, .empty, true, .system, none, .stable⟩] }

def plainDates : Luxon where
  DateTime := ℤ
  fromJSDate referenceDate _ := referenceDate / 86400000
  year day := day
  quarter _ := 1
  toFormat day _ := toString day
  toISODate day := some (toString day)

def trashedDay : List Act :=
  [.other (.begin 0), .getOrCreateJournalItem 0 .day 0 "UTC", .other (.reserveKey 0),
    .other (.insertItem 0), .other (.runEffects 0), .other (.commit 0), .other (.begin 1),
    .trash 1 1 0 5, .other (.commit 1)]

def restoredDay : List Act :=
  trashedDay ++ ([.other (.begin 2), .restore 2 1 0, .other (.commit 2), .other (.begin 3),
    .getOrCreateJournalItem 3 .day 3600000 "UTC", .other (.reserveKey 3), .other (.selectKey 3),
    .other (.readReserved 3), .other (.commit 3)] : List Act)

theorem one_item_per_period_restored : ∃ s,
    runActs (step plainDates 1 ItemCreates.noHooks) (.init journal) restoredDay = some s ∧
      s.returned.map (fun r => (r.item.id, r.created)) = [(0, true), (0, false)] ∧
        OneLive 1 s ∧ ReturnsPeriod plainDates 1 s := by
  obtain ⟨s, hs⟩ := Option.isSome_iff_exists.mp
    (by decide +kernel : (runChecked (step plainDates 1 ItemCreates.noHooks)
      (fun s a => decide (ReservationKept s a)) (.init journal) restoredDay).isSome = true)
  have hreturned := eq_of_map_eq
    (f := fun s : Sys => s.returned.map fun r => (r.item.id, r.created))
    (b := [(0, true), (0, false)]) hs (by decide +kernel)
  exact ⟨s, runActs_of_runChecked hs, hreturned, one_item_per_period plainDates 1
    ItemCreates.noHooks journal s (.of_runChecked (fun _ _ h => of_decide_eq_true h) hs)⟩

def replacedDay : List Act :=
  trashedDay ++ ([.other (.begin 2), .getOrCreateJournalItem 2 .day 3600000 "UTC",
    .other (.reserveKey 2), .other (.selectKey 2), .other (.readReserved 2), .other (.takeOver 2),
    .other (.insertItem 2), .other (.runEffects 2), .other (.commit 2), .other (.begin 3),
    .restore 3 1 0, .other (.commit 3)] : List Act)

theorem replacedDay_two_live : ¬ ∀ (L : Luxon) (journalDatabaseId : ℕ) (env : Env) (store : Store)
    (s : Sys), Reach (step L journalDatabaseId env) (fun _ _ => True) (.init store) s →
      OneLive journalDatabaseId s ∧ ReturnsPeriod L journalDatabaseId s := by
  intro hall
  obtain ⟨s, hs⟩ := Option.isSome_iff_exists.mp
    (by decide +kernel : (runActs (step plainDates 1 ItemCreates.noHooks) (.init journal)
      replacedDay).isSome = true)
  have hcreated := eq_of_map_eq (f := fun s : Sys => s.db.committed.created)
    (b := [⟨0, some (idempotencyKey 1 .day "0"), 1⟩, ⟨1, some (idempotencyKey 1 .day "0"), 1⟩]) hs
    (by decide +kernel)
  have hlive := eq_of_map_eq
    (f := fun s : Sys => (status 1 0 s.db.committed, status 1 1 s.db.committed))
    (b := (some none, some none)) hs (by decide +kernel)
  obtain ⟨hold, hnew⟩ := Prod.mk.inj hlive
  have hone := (hall _ _ _ _ s (.of_runActs hs)).1 .day "0" ⟨0, _, 1⟩
    (hcreated ▸ List.mem_cons_self) ⟨1, _, 1⟩
    (hcreated ▸ List.mem_cons_of_mem _ List.mem_cons_self) rfl rfl (live_iff.mpr hold)
    (live_iff.mpr hnew)
  cases hone

end JournalItems

end Semprec
