import Mathlib.Data.List.Nodup
import Semprec.Lib.Runs
import Semprec.PushRegistrations

/-!
# Whose a push registration is

A row that a transaction has written stays as it is for the others until it ends, and of the rows
inserted for a key one is uncommitted at most (`Inv`).  So a transaction that commits a registration
leaves its own row as the only active one of the key.  What an invalidation revokes is found by the
key alone, whenever its `UPDATE` runs.
-/

namespace Semprec

namespace PushRegistrations

open ReadCommitted

variable {s s' : Sys} {rows : List Row} {ws : List Write} {w : Write} {r r' : Row} {t u id : ℕ}
  {tx : Tx} {input : Input} {key : Key} {registeredAt : ℕ → ℕ}

theorem holds_iff : r.holds key = true ↔ r.revoked = false ∧ r.target.key = key := by
  simp [Row.holds]

@[simp]
theorem refreshed_key (target excluded : Target) :
    (target.refreshed excluded).key = target.key := by
  cases target <;> cases excluded <;> rfl

/-! ## What writes leave of a row -/

structure Evolves (ws : List Write) (r r' : Row) : Prop where
  id : r.id = r'.id
  userId : r.userId = r'.userId
  key : r.target.key = r'.target.key
  active : r'.revoked = false → r.revoked = false ∧ ∀ ids, .revoke ids ∈ ws → r.id ∉ ids

theorem mem_apply (h : r' ∈ apply rows w) :
    (∃ r ∈ rows, Evolves [w] r r') ∨ w = .insert r' := by
  cases w with
  | revoke ids =>
    obtain ⟨r, hr, rfl⟩ := List.mem_map.mp h
    refine .inl ⟨r, hr, ?_⟩
    split_ifs with hid
    · exact ⟨rfl, rfl, rfl, nofun⟩
    · refine ⟨rfl, rfl, rfl, fun hactive => ⟨hactive, fun ids' hids' => ?_⟩⟩
      obtain rfl := Write.revoke.inj (List.mem_singleton.mp hids')
      exact hid
  | insert row =>
    rcases List.mem_append.mp h with h | h
    · exact .inl ⟨r', h, rfl, rfl, rfl, fun hactive => ⟨hactive, by simp⟩⟩
    · exact .inr (congrArg Write.insert (List.mem_singleton.mp h).symm)
  | refresh id sessionId target =>
    obtain ⟨r, hr, rfl⟩ := List.mem_map.mp h
    refine .inl ⟨r, hr, ?_⟩
    split_ifs
    · exact ⟨rfl, rfl, (refreshed_key _ _).symm, fun hactive => ⟨hactive, by simp⟩⟩
    · exact ⟨rfl, rfl, rfl, fun hactive => ⟨hactive, by simp⟩⟩
  | lock id => exact .inl ⟨r', h, rfl, rfl, rfl, fun hactive => ⟨hactive, by simp⟩⟩

theorem mem_foldl : ∀ {ws : List Write} {rows : List Row}, r' ∈ ws.foldl apply rows →
    (∃ r ∈ rows, Evolves ws r r') ∨
      ∃ r, .insert r ∈ ws ∧ r.id = r'.id ∧ r.userId = r'.userId ∧ r.target.key = r'.target.key
  | [], _, h => .inl ⟨r', h, rfl, rfl, rfl, fun hactive => ⟨hactive, by simp⟩⟩
  | w :: ws, rows, h => by
    replace h : r' ∈ ws.foldl apply (apply rows w) := h
    rcases mem_foldl h with ⟨r₁, hr₁, h₁⟩ | ⟨r, hr, hsame⟩
    · rcases mem_apply hr₁ with ⟨r, hr, h₀⟩ | rfl
      · refine .inl ⟨r, hr, h₀.id.trans h₁.id, h₀.userId.trans h₁.userId, h₀.key.trans h₁.key,
          fun hactive => ?_⟩
        obtain ⟨hactive, hws⟩ := h₁.active hactive
        obtain ⟨hactive, hw⟩ := h₀.active hactive
        refine ⟨hactive, fun ids hids => ?_⟩
        rcases List.mem_cons.mp hids with rfl | hids
        · exact hw ids (List.mem_singleton_self _)
        · exact h₀.id ▸ hws ids hids
      · exact .inr ⟨r₁, List.mem_cons_self, h₁.id, h₁.userId, h₁.key⟩
    · exact .inr ⟨r, List.mem_cons_of_mem w hr, hsame⟩

theorem exists_foldl : ∀ (ws : List Write) {rows : List Row} {r : Row}, r ∈ rows →
    ∃ r' ∈ ws.foldl apply rows, r.id = r'.id ∧ r.userId = r'.userId ∧
      r.target.key = r'.target.key ∧
      (r.revoked = false → (∀ ids, .revoke ids ∈ ws → r.id ∉ ids) → r'.revoked = false)
  | [], _, r, h => ⟨r, h, rfl, rfl, rfl, fun hactive _ => hactive⟩
  | w :: ws, rows, r, h => by
    obtain ⟨r₁, hr₁, hid₁, huser₁, hkey₁, hactive₁⟩ : ∃ r' ∈ apply rows w, r.id = r'.id ∧
        r.userId = r'.userId ∧ r.target.key = r'.target.key ∧
        (r.revoked = false → (∀ ids, .revoke ids = w → r.id ∉ ids) → r'.revoked = false) := by
      cases w with
      | revoke ids =>
        refine ⟨_, List.mem_map_of_mem h, ?_⟩
        split_ifs with hid
        · exact ⟨rfl, rfl, rfl, fun _ hw => absurd hid (hw ids rfl)⟩
        · exact ⟨rfl, rfl, rfl, fun hactive _ => hactive⟩
      | insert row =>
        exact ⟨r, List.mem_append_left _ h, rfl, rfl, rfl, fun hactive _ => hactive⟩
      | refresh id sessionId target =>
        refine ⟨_, List.mem_map_of_mem h, ?_⟩
        split_ifs
        · exact ⟨rfl, rfl, (refreshed_key _ _).symm, fun hactive _ => hactive⟩
        · exact ⟨rfl, rfl, rfl, fun hactive _ => hactive⟩
      | lock id => exact ⟨r, h, rfl, rfl, rfl, fun hactive _ => hactive⟩
    obtain ⟨r', hr', hid', huser', hkey', hactive'⟩ := exists_foldl ws hr₁
    refine ⟨r', hr', hid₁.trans hid', huser₁.trans huser', hkey₁.trans hkey',
      fun hactive hws => hactive' (hactive₁ hactive fun ids hw => ?_) fun ids hids => ?_⟩
    · exact hws ids (hw ▸ List.mem_cons_self)
    · exact hid₁ ▸ hws ids (List.mem_cons_of_mem w hids)

def insertedIds (ws : List Write) : List ℕ :=
  ws.filterMap fun | .insert row => some row.id | _ => none

theorem ids_foldl : ∀ {ws : List Write} {rows : List Row},
    (ws.foldl apply rows).map Row.id = rows.map Row.id ++ insertedIds ws
  | [], rows => by simp [insertedIds]
  | w :: ws, rows => by
    have hmap : ∀ f : Row → Row, (∀ row, (f row).id = row.id) →
        (rows.map f).map Row.id = rows.map Row.id := fun f hf => by
      rw [List.map_map]
      exact List.map_congr_left fun row _ => hf row
    rw [List.foldl_cons, ids_foldl]
    cases w with
    | revoke ids =>
      rw [apply, hmap _ fun row => by split_ifs <;> rfl]
      rfl
    | insert row => simp [apply, insertedIds]
    | refresh id sessionId target =>
      rw [apply, hmap _ fun row => by split_ifs <;> rfl]
      rfl
    | lock id => rfl

theorem mem_insertedIds : id ∈ insertedIds ws ↔ ∃ row, .insert row ∈ ws ∧ row.id = id := by
  rw [insertedIds, List.mem_filterMap]
  constructor
  · rintro ⟨w, hw, hid⟩
    cases w <;> cases hid
    exact ⟨_, hw, rfl⟩
  · rintro ⟨row, hrow, rfl⟩
    exact ⟨_, hrow, rfl⟩

/-! ## What holds in every run -/

def Touches (ws : List Write) (id : ℕ) : Prop := ∃ w ∈ ws, w.touches id = true

def Inserts (ws : List Write) (key : Key) : Prop := ∃ w ∈ ws, w.inserts key = true

inductive Registered (rows : List Row) (input : Input) (id : ℕ) (ws : List Write) : Prop
  | inserted {before : List Write} {row : Row} : ws = before ++ [.insert row] →
      (∀ row, .insert row ∉ before) → row.id = id → row.userId = input.userId →
      row.holds input.target.key = true →
      (∀ r ∈ rows, r.holds input.target.key = true → ∃ ids, .revoke ids ∈ ws ∧ r.id ∈ ids) →
      Registered rows input id ws
  | refreshed {r : Row} : (∀ row, .insert row ∉ ws) → Touches ws id → r ∈ rows → r.id = id →
      r.userId = input.userId → r.holds input.target.key = true →
      (∀ ids, .revoke ids ∈ ws → id ∉ ids) → Registered rows input id ws

def TxOk (rows : List Row) (registeredAt : ℕ → ℕ) (ws : List Write) : Tx → Prop
  | .registered input id => Registered rows input id ws
  | .revoked revocation ids => (∀ row, .insert row ∉ ws) ∧ ∀ delivery,
      revocation = .pushSubscriptionByProviderInvalidation delivery →
        ∀ id ∈ ids, registeredAt id ≤ delivery.at_ ∧ Touches ws id
  | .displace _ _ | .displacing _ _ _ | .upsert _ _ | .lost _ | .revoke _ | .revoking _ _ =>
      ∀ row, .insert row ∉ ws

/-- A transaction that has written a row keeps the others from writing it, and one that has inserted
a row of a key keeps them from inserting another. -/
structure Inv (s : Sys) : Prop where
  ids : (s.db.committed.map Row.id).Nodup
  fresh : ∀ r ∈ s.db.committed, r.id < s.nextId
  touched : ∀ t id, Touches (s.db.pending t) id → id < s.nextId
  inserted : ∀ t row, .insert row ∈ s.db.pending t → ∀ r ∈ s.db.committed, r.id ≠ row.id
  one : ∀ r ∈ s.db.committed, ∀ r' ∈ s.db.committed, ∀ key, r.holds key = true →
    r'.holds key = true → r.id = r'.id
  owner : ∀ key, ∀ r ∈ s.db.committed, r.holds key = true → s.registrant key = some r.userId
  kept : ∀ x ∈ s.invalidated, x.registeredAt ≤ x.delivery.at_
  rowLocks : Exclusive fun t id => Touches (s.db.pending t) id
  keyLocks : Exclusive fun t key => Inserts (s.db.pending t) key
  txs : ∀ t tx, s.txs t = some tx → TxOk s.db.committed s.registeredAt (s.db.pending t) tx
  idle : ∀ t, s.txs t = none → s.db.pending t = []

theorem not_locked {db : ReadCommitted (List Row) Write} {conflict : Write → Bool}
    (h : ¬db.Locked t conflict) (hut : u ≠ t) : ∀ w ∈ db.pending u, conflict w = false := by
  intro w hw
  by_contra hconflict
  refine h ⟨u, mem_opened_of_mem_pending hw, hut, List.any_eq_true.mpr ⟨w, hw, ?_⟩⟩
  exact Bool.not_eq_false _ ▸ hconflict

theorem inv_init : Inv .init where
  ids := List.nodup_nil
  fresh := nofun
  touched := fun _ _ ⟨_, hw, _⟩ => nomatch hw
  inserted := nofun
  one := nofun
  owner := nofun
  kept := nofun
  rowLocks := fun _ _ _ ⟨_, hw, _⟩ => nomatch hw
  keyLocks := fun _ _ _ ⟨_, hw, _⟩ => nomatch hw
  txs := nofun
  idle := fun _ _ => rfl

theorem Inv.write {db : ReadCommitted (List Row) Write} {n : ℕ} (hi : Inv s)
    (hdb : s.db.write t ws = some db) (hn : s.nextId ≤ n)
    (hrows : ∀ id, Touches ws id → id < n ∧ ∀ u, u ≠ t → ¬Touches (s.db.pending u) id)
    (hkeys : ∀ key, Inserts ws key → ∀ u, u ≠ t → ¬Inserts (s.db.pending u) key)
    (hnew : ∀ row, .insert row ∈ ws → ∀ r ∈ s.db.committed, r.id ≠ row.id)
    (htx : TxOk s.db.committed s.registeredAt (s.db.pending t ++ ws) tx) :
    Inv { s with db, txs := Function.update s.txs t (some tx), nextId := n } := by
  have hcommitted := write_committed hdb
  have hpending := write_pending hdb
  have hmem : ∀ {u w}, w ∈ db.pending u → w ∈ s.db.pending u ∨ u = t ∧ w ∈ ws :=
    fun hw => mem_write_pending hdb hw
  have htouches : ∀ u id, Touches (db.pending u) id → Touches (s.db.pending u) id ∨
      u = t ∧ Touches ws id := by
    rintro u id ⟨w, hw, hid⟩
    exact (hmem hw).imp (fun hw => ⟨w, hw, hid⟩) fun ⟨hut, hw⟩ => ⟨hut, w, hw, hid⟩
  refine ⟨hcommitted ▸ hi.ids, fun r hr => ?_, fun u id hid => ?_, fun u row hrow r hr => ?_,
    hcommitted ▸ hi.one, hcommitted ▸ hi.owner, hi.kept, ?_, ?_, fun u tx' hu => ?_,
    fun u hu => ?_⟩
  · exact (hi.fresh r (hcommitted ▸ hr)).trans_le hn
  · rcases htouches u id hid with hid | ⟨-, hid⟩
    · exact (hi.touched u id hid).trans_le hn
    · exact (hrows id hid).1
  · rcases hmem hrow with hrow | ⟨-, hrow⟩
    · exact hi.inserted u row hrow r (hcommitted ▸ hr)
    · exact hnew row hrow r (hcommitted ▸ hr)
  · exact Exclusive.step (t := t) hi.rowLocks fun u id hid =>
      (htouches u id hid).imp_right fun ⟨hut, hid⟩ => ⟨hut, (hrows id hid).2⟩
  · refine Exclusive.step (t := t) hi.keyLocks fun u key ⟨w, hw, hkey⟩ => ?_
    exact (hmem hw).imp (fun hw => ⟨w, hw, hkey⟩) fun ⟨hut, hw⟩ => ⟨hut, hkeys key ⟨w, hw, hkey⟩⟩
  · rw [hcommitted, hpending]
    rcases of_update_some hu with ⟨rfl, rfl⟩ | ⟨hut, hu⟩
    · rwa [Function.update_self]
    · rw [Function.update_of_ne hut]
      exact hi.txs u tx' hu
  · replace hu : Function.update s.txs t (some tx) u = none := hu
    have hut : u ≠ t := by
      rintro rfl
      rw [Function.update_self] at hu
      cases hu
    rw [Function.update_of_ne hut] at hu
    rw [hpending, Function.update_of_ne hut]
    exact hi.idle u hu

theorem Inv.rollback {db : ReadCommitted (List Row) Write} (hi : Inv s)
    (hdb : s.db.rollback t = some db) :
    Inv { s with db, txs := Function.update s.txs t none } := by
  have hcommitted := rollback_committed hdb
  have hpending := rollback_pending hdb
  have hsub : ∀ {u w}, w ∈ db.pending u → w ∈ s.db.pending u := fun hw =>
    (mem_closed_pending hpending hw).2
  refine ⟨hcommitted ▸ hi.ids, hcommitted ▸ hi.fresh, fun u id ⟨w, hw, hid⟩ => ?_,
    fun u row hrow => hcommitted ▸ hi.inserted u row (hsub hrow), hcommitted ▸ hi.one,
    hcommitted ▸ hi.owner, hi.kept, ?_, ?_, fun u tx' hu => ?_, fun u hu => ?_⟩
  · exact hi.touched u id ⟨w, hsub hw, hid⟩
  · exact hi.rowLocks.mono fun u id ⟨w, hw, hid⟩ => ⟨w, hsub hw, hid⟩
  · exact hi.keyLocks.mono fun u key ⟨w, hw, hkey⟩ => ⟨w, hsub hw, hkey⟩
  · obtain ⟨hut, hu⟩ := of_update_none hu
    rw [hcommitted, hpending, Function.update_of_ne hut]
    exact hi.txs u tx' hu
  · replace hu : Function.update s.txs t none u = none := hu
    rw [hpending]
    by_cases hut : u = t
    · rw [hut, Function.update_self]
    · rw [Function.update_of_ne hut] at hu ⊢
      exact hi.idle u hu

theorem Inv.registered_commit (hi : Inv s) (hut : u ≠ t)
    (h : Registered s.db.committed input id (s.db.pending u)) :
    Registered ((s.db.pending t).foldl apply s.db.committed) input id (s.db.pending u) := by
  cases h with
  | @inserted before row hws hbefore hid huser hkey hrevoked =>
    refine .inserted hws hbefore hid huser hkey fun r' hr' hholds => ?_
    obtain ⟨hactive, hk⟩ := holds_iff.mp hholds
    rcases mem_foldl hr' with ⟨r, hr, hsame⟩ | ⟨r, hr, -, -, hkey'⟩
    · obtain ⟨ids, hids, hmem⟩ := hrevoked r hr
        (holds_iff.mpr ⟨(hsame.active hactive).1, hsame.key.trans hk⟩)
      exact ⟨ids, hids, hsame.id ▸ hmem⟩
    · refine absurd (hi.keyLocks u t input.target.key ⟨.insert row, ?_, ?_⟩ ⟨.insert r, hr, ?_⟩) hut
      · rw [hws]
        exact List.mem_append_right _ (List.mem_singleton_self _)
      · exact decide_eq_true (holds_iff.mp hkey).2
      · exact decide_eq_true (hkey'.trans hk)
  | @refreshed r hnone htouches hr hid huser hholds hnot =>
    obtain ⟨hactive, hk⟩ := holds_iff.mp hholds
    obtain ⟨r', hr', hid', huser', hkey', hactive'⟩ := exists_foldl (s.db.pending t) hr
    refine .refreshed hnone htouches hr' (hid'.symm.trans hid) (huser'.symm.trans huser)
      (holds_iff.mpr ⟨hactive' hactive fun ids hids hmem => ?_, hkey'.symm.trans hk⟩) hnot
    refine absurd (hi.rowLocks u t id htouches ⟨.revoke ids, hids, ?_⟩) hut
    exact decide_eq_true (hid ▸ hmem)

structure Settled (rows : List Row) (ws : List Write) : Prop where
  nodup : (insertedIds ws).Nodup
  one : ∀ row row', .insert row ∈ ws → .insert row' ∈ ws → row = row'
  revoked : ∀ row, .insert row ∈ ws → ∀ r ∈ rows, ∀ key, row.target.key = key →
    r.holds key = true → ∃ ids, .revoke ids ∈ ws ∧ r.id ∈ ids

theorem settled_of_none (h : ∀ row, .insert row ∉ ws) : Settled rows ws := by
  have hnil : insertedIds ws = [] := List.eq_nil_iff_forall_not_mem.mpr fun id hid => by
    obtain ⟨row, hrow, -⟩ := mem_insertedIds.mp hid
    exact h row hrow
  exact ⟨hnil ▸ List.nodup_nil, fun row _ hrow => absurd hrow (h row),
    fun row hrow => absurd hrow (h row)⟩

theorem mem_snoc_insert {before : List Write} {row row' : Row}
    (hbefore : ∀ row, .insert row ∉ before) (h : .insert row' ∈ before ++ [.insert row]) :
    row' = row := by
  rcases List.mem_append.mp h with h | h
  · exact absurd h (hbefore row')
  · exact Write.insert.inj (List.mem_singleton.mp h)

theorem Registered.settled (h : Registered rows input id ws) : Settled rows ws := by
  cases h with
  | @inserted before row hws hbefore hid huser hholds hrevoked =>
    have hrow : ∀ row', .insert row' ∈ ws → row' = row := fun row' h =>
      mem_snoc_insert hbefore (hws ▸ h)
    refine ⟨?_, fun row₁ row₂ h₁ h₂ => (hrow row₁ h₁).trans (hrow row₂ h₂).symm, ?_⟩
    · have hnil : insertedIds before = [] := List.eq_nil_iff_forall_not_mem.mpr fun id hid => by
        obtain ⟨row, hrow, -⟩ := mem_insertedIds.mp hid
        exact hbefore row hrow
      rw [hws, insertedIds, List.filterMap_append, ← insertedIds, hnil]
      exact List.nodup_singleton row.id
    · intro row' hmem r hr key hkey hr'
      obtain rfl := hrow row' hmem
      exact hrevoked r hr ((holds_iff.mp hholds).2.symm.trans hkey ▸ hr')
  | refreshed hnone => exact settled_of_none hnone

theorem Registered.touches (h : Registered rows input id ws) : Touches ws id := by
  cases h with
  | @inserted before row hws _ hid =>
    refine ⟨.insert row, ?_, decide_eq_true hid⟩
    rw [hws]
    exact List.mem_append_right _ (List.mem_singleton_self _)
  | refreshed _ htouches => exact htouches

theorem Registered.owner (hi : Inv s) (h : Registered s.db.committed input id (s.db.pending t))
    {key : Key} (hr : r' ∈ (s.db.pending t).foldl apply s.db.committed)
    (hholds : r'.holds key = true) :
    Function.update s.registrant input.target.key (some input.userId) key = some r'.userId := by
  obtain ⟨hactive, hk⟩ := holds_iff.mp hholds
  rcases mem_foldl hr with ⟨r, hr, hsame⟩ | ⟨r, hr, -, huser, hkey⟩
  · have hrholds : r.holds key = true :=
      holds_iff.mpr ⟨(hsame.active hactive).1, hsame.key.trans hk⟩
    by_cases hkey : key = input.target.key
    · rw [hkey, Function.update_self, ← hsame.userId]
      cases h with
      | inserted _ _ _ _ _ hrevoked =>
        obtain ⟨ids, hids, hmem⟩ := hrevoked r hr (hkey ▸ hrholds)
        exact absurd hmem ((hsame.active hactive).2 ids hids)
      | @refreshed r₀ _ _ hr₀ hid huser hholds₀ _ =>
        have hids := hi.one r hr r₀ hr₀ key hrholds (hkey ▸ hholds₀)
        rw [List.inj_on_of_nodup_map hi.ids hr hr₀ hids, huser]
    · rw [Function.update_of_ne hkey, ← hsame.userId]
      exact hi.owner key r hr hrholds
  · cases h with
    | @inserted before row hws hbefore hid huser' hholds' _ =>
      obtain rfl := mem_snoc_insert hbefore (hws ▸ hr)
      have hkey' : key = input.target.key := hk.symm.trans (hkey.symm.trans (holds_iff.mp hholds').2)
      rw [hkey', Function.update_self, ← huser, huser']
    | refreshed hnone => exact absurd hr (hnone r)

theorem Inv.commit {db : ReadCommitted (List Row) Write} {clock : ℕ} {registeredAt : ℕ → ℕ}
    {registrant : Key → Option ℕ} {invalidated : List Invalidated} (hi : Inv s)
    (hdb : s.db.commit apply t = some db) (hsettled : Settled s.db.committed (s.db.pending t))
    (howner : ∀ key, ∀ r ∈ (s.db.pending t).foldl apply s.db.committed, r.holds key = true →
      registrant key = some r.userId)
    (hkept : ∀ x ∈ invalidated, x.registeredAt ≤ x.delivery.at_)
    (hregistered : ∀ u, u ≠ t → ∀ id, Touches (s.db.pending u) id →
      registeredAt id = s.registeredAt id) :
    Inv { s with db, txs := Function.update s.txs t none, clock, registeredAt, registrant,
                 invalidated } := by
  have hcommitted : db.committed = (s.db.pending t).foldl apply s.db.committed :=
    commit_committed hdb
  have hpending := commit_pending hdb
  have hsub : ∀ {u w}, w ∈ db.pending u → u ≠ t ∧ w ∈ s.db.pending u := fun hw =>
    mem_closed_pending hpending hw
  have hown : ∀ {row}, .insert row ∈ s.db.pending t → Touches (s.db.pending t) row.id :=
    fun hrow => ⟨_, hrow, decide_eq_true rfl⟩
  refine ⟨?_, fun r' hr' => ?_, fun u id ⟨w, hw, hid⟩ => hi.touched u id ⟨w, (hsub hw).2, hid⟩,
    fun u row hrow r' hr' => ?_, fun r₁ hr₁ r₂ hr₂ key h₁ h₂ => ?_,
    fun key r hr => howner key r (hcommitted ▸ hr), hkept,
    hi.rowLocks.mono fun u id ⟨w, hw, hid⟩ => ⟨w, (hsub hw).2, hid⟩,
    hi.keyLocks.mono fun u key ⟨w, hw, hkey⟩ => ⟨w, (hsub hw).2, hkey⟩, fun u tx hu => ?_,
    fun u hu => ?_⟩
  · rw [hcommitted, ids_foldl]
    refine List.nodup_append.mpr ⟨hi.ids, hsettled.nodup, fun a ha b hb hab => ?_⟩
    obtain ⟨r, hr, rfl⟩ := List.mem_map.mp ha
    obtain ⟨row, hrow, rfl⟩ := mem_insertedIds.mp hb
    exact hi.inserted t row hrow r hr hab
  · rcases mem_foldl (hcommitted ▸ hr') with ⟨r, hr, hsame⟩ | ⟨r, hr, hid, -⟩
    · exact hsame.id ▸ hi.fresh r hr
    · exact hid ▸ hi.touched t r.id (hown hr)
  · obtain ⟨hut, hrow⟩ := hsub hrow
    rcases mem_foldl (hcommitted ▸ hr') with ⟨r, hr, hsame⟩ | ⟨r, hr, hid, -⟩
    · exact hsame.id ▸ hi.inserted u row hrow r hr
    · intro heq
      refine hut (hi.rowLocks u t row.id ⟨_, hrow, decide_eq_true rfl⟩ ?_)
      exact hid.trans heq ▸ hown hr
  · -- one of the two may be the row inserted, and then the other one is revoked
    have hevolved : ∀ {r r' : Row}, r ∈ s.db.committed → Evolves (s.db.pending t) r r' →
        r'.holds key = true → r.holds key = true ∧
          ∀ row, .insert row ∈ s.db.pending t → row.target.key ≠ key := by
      intro r r' hr hsame hholds
      obtain ⟨hactive, hkey⟩ := holds_iff.mp hholds
      obtain ⟨hr_active, hids⟩ := hsame.active hactive
      have hrholds := holds_iff.mpr ⟨hr_active, hsame.key.trans hkey⟩
      refine ⟨hrholds, fun row hrow hk => ?_⟩
      obtain ⟨ids, hmem, hid⟩ := hsettled.revoked row hrow r hr key hk hrholds
      exact hids ids hmem hid
    rcases mem_foldl (hcommitted ▸ hr₁) with ⟨r, hr, hsame⟩ | ⟨r, hr, hid, -, hkey⟩ <;>
      rcases mem_foldl (hcommitted ▸ hr₂) with ⟨r', hr', hsame'⟩ | ⟨r', hr', hid', -, hkey'⟩
    · rw [← hsame.id, ← hsame'.id]
      exact hi.one r hr r' hr' key (hevolved hr hsame h₁).1 (hevolved hr' hsame' h₂).1
    · exact absurd (hkey'.trans (holds_iff.mp h₂).2) ((hevolved hr hsame h₁).2 r' hr')
    · exact absurd (hkey.trans (holds_iff.mp h₁).2) ((hevolved hr' hsame' h₂).2 r hr)
    · rw [← hid, ← hid', hsettled.one r r' hr hr']
  · obtain ⟨hut, hu⟩ := of_update_none hu
    have htx := hi.txs u tx hu
    rw [hcommitted, hpending, Function.update_of_ne hut]
    cases tx with
    | registered input id => exact hi.registered_commit hut htx
    | revoked revocation ids =>
      refine ⟨htx.1, fun delivery hd id hid => ?_⟩
      obtain ⟨hle, htouches⟩ := htx.2 delivery hd id hid
      exact ⟨(hregistered u hut id htouches).trans_le hle, htouches⟩
    | _ => exact htx
  · replace hu : Function.update s.txs t none u = none := hu
    rw [hpending]
    by_cases hut : u = t
    · rw [hut, Function.update_self]
    · rw [Function.update_of_ne hut] at hu ⊢
      exact hi.idle u hu

/-! ## The statements -/

theorem Inv.setTx (hi : Inv s) (ht : s.txs t ≠ none)
    (htx : TxOk s.db.committed s.registeredAt (s.db.pending t) tx) : Inv (s.setTx t tx) := by
  refine { hi with txs := fun u tx' hu => ?_, idle := fun u hu => ?_ }
  · rcases of_update_some hu with ⟨rfl, rfl⟩ | ⟨-, hu⟩
    · exact htx
    · exact hi.txs u tx' hu
  · replace hu : Function.update s.txs t (some tx) u = none := hu
    by_cases hut : u = t
    · rw [hut, Function.update_self] at hu
      cases hu
    · rw [Function.update_of_ne hut] at hu
      exact hi.idle u hu

theorem Inv.mem_view (hnone : ∀ row, .insert row ∉ s.db.pending t)
    (hr : r' ∈ s.db.view apply t) : ∃ r ∈ s.db.committed, Evolves (s.db.pending t) r r' := by
  rcases mem_foldl hr with h | ⟨row, hrow, -⟩
  · exact h
  · exact absurd hrow (hnone row)

theorem not_touches {ids : List ℕ} (h : ¬s.db.Locked t fun w => ids.any fun id => w.touches id)
    (hut : u ≠ t) (hid : id ∈ ids) : ¬Touches (s.db.pending u) id := by
  rintro ⟨w, hw, htouches⟩
  have hfalse := not_locked h hut w hw
  exact Bool.false_ne_true (hfalse.symm.trans (List.any_eq_true.mpr ⟨id, hid, htouches⟩))

theorem unlocked_eq_some {finds : Row → Bool} {ids ids' : List ℕ}
    (h : s.unlocked t finds ids = some ids') :
    (∀ id ∈ ids', id ∈ ids ∧ ∃ r ∈ s.db.view apply t, r.id = id) ∧
      ∀ u, u ≠ t → ∀ id ∈ ids, ¬Touches (s.db.pending u) id := by
  unfold Sys.unlocked at h
  split_ifs at h with hlock
  cases h
  refine ⟨fun id hid => ?_, fun u hut id hid => not_touches hlock hut hid⟩
  obtain ⟨hfound, hmem⟩ := List.mem_filter.mp hid
  obtain ⟨r, hr, rfl⟩ := List.mem_map.mp hfound
  exact ⟨of_decide_eq_true hmem, r, (List.mem_filter.mp hr).1, rfl⟩

theorem snoc_not_insert (hnone : ∀ row, .insert row ∉ ws) (hw : ∀ row, w ≠ .insert row) :
    ∀ row, .insert row ∉ ws ++ [w] := by
  intro row hrow
  rcases List.mem_append.mp hrow with hrow | hrow
  · exact hnone row hrow
  · exact hw row (List.mem_singleton.mp hrow).symm

theorem Inv.update {finds : Row → Bool} {ids ids' : List ℕ} (hi : Inv s)
    (hnone : ∀ row, .insert row ∉ s.db.pending t) (hids : s.unlocked t finds ids = some ids')
    (htx : TxOk s.db.committed s.registeredAt (s.db.pending t ++ [.revoke ids']) tx)
    (h : s.write t [.revoke ids'] tx = some s') : Inv s' := by
  obtain ⟨db, hdb, rfl⟩ := Option.map_eq_some_iff.mp h
  obtain ⟨hfound, hfree⟩ := unlocked_eq_some hids
  refine hi.write hdb le_rfl (fun id ⟨w, hw, hid⟩ => ?_) (fun key ⟨w, hw, hkey⟩ => ?_)
    (fun row hrow => absurd (List.mem_singleton.mp hrow) nofun) htx
  · obtain rfl := List.mem_singleton.mp hw
    obtain ⟨hmem, r', hr', rfl⟩ := hfound id (of_decide_eq_true hid)
    obtain ⟨r, hr, hsame⟩ := Inv.mem_view hnone hr'
    exact ⟨hsame.id ▸ hi.fresh r hr, fun u hut => hfree u hut _ hmem⟩
  · obtain rfl := List.mem_singleton.mp hw
    cases hkey

theorem Inv.upsert {attempt : ℕ} (hi : Inv s) (hnone : ∀ row, .insert row ∉ s.db.pending t)
    (h : s.upsert t input attempt = some s') : Inv s' := by
  unfold Sys.upsert at h
  dsimp only at h
  obtain ⟨hlock, h⟩ := Option.ite_none_left_eq_some.mp h
  have hkeys : ∀ u, u ≠ t → ¬Inserts (s.db.pending u) input.target.key := by
    rintro u hut ⟨w, hw, hkey⟩
    have hfalse := of_decide_eq_false (not_locked hlock hut w hw)
    exact hfalse (.inl hkey)
  have hrow : ∀ row ∈ s.db.view apply t, row.holds input.target.key = true →
      ∀ u, u ≠ t → ¬Touches (s.db.pending u) row.id := by
    rintro row hrow hholds u hut ⟨w, hw, hid⟩
    have hfalse := of_decide_eq_false (not_locked hlock hut w hw)
    exact hfalse (.inr (List.any_eq_true.mpr ⟨row, hrow, by rw [hholds, hid]; rfl⟩))
  split at h
  · next hfind =>
    obtain ⟨s₁, hs₁, rfl⟩ := Option.map_eq_some_iff.mp h
    obtain ⟨db, hdb, rfl⟩ := Option.map_eq_some_iff.mp hs₁
    refine hi.write hdb (Nat.le_succ _) (fun id ⟨w, hw, hid⟩ => ?_) (fun key ⟨w, hw, hkey⟩ => ?_)
      (fun row hmem r hr => ?_) ?_
    · obtain rfl := List.mem_singleton.mp hw
      obtain rfl : s.nextId = id := of_decide_eq_true hid
      exact ⟨Nat.lt_succ_self _, fun u _ htouches => lt_irrefl _ (hi.touched u _ htouches)⟩
    · obtain rfl := List.mem_singleton.mp hw
      obtain rfl : input.target.key = key := of_decide_eq_true hkey
      exact hkeys
    · obtain rfl := Write.insert.inj (List.mem_singleton.mp hmem)
      exact (hi.fresh r hr).ne
    · refine .inserted rfl hnone rfl rfl (holds_iff.mpr ⟨rfl, rfl⟩) fun r hr hholds => ?_
      by_contra hall
      obtain ⟨hactive, hkey⟩ := holds_iff.mp hholds
      obtain ⟨r', hr', -, -, hkey', hactive'⟩ := exists_foldl (s.db.pending t) hr
      have hstill := hactive' hactive fun ids hids hid =>
        hall ⟨ids, List.mem_append_left _ hids, hid⟩
      exact absurd (holds_iff.mpr ⟨hstill, hkey'.symm.trans hkey⟩)
        (List.find?_eq_none.mp hfind r' hr')
  · next row hfind =>
    have hmem := List.mem_of_find?_eq_some hfind
    have hholds : row.holds input.target.key = true := by
      have hrow := List.find?_some hfind
      exact hrow
    obtain ⟨r, hr, hsame⟩ := Inv.mem_view hnone hmem
    have htouched : ∀ w : Write, (∀ id, w.touches id = true → row.id = id) → ∀ id,
        Touches [w] id → id < s.nextId ∧ ∀ u, u ≠ t → ¬Touches (s.db.pending u) id := by
      rintro w hw id ⟨w', hw', hid⟩
      obtain rfl := List.mem_singleton.mp hw'
      obtain rfl := hw id hid
      exact ⟨hsame.id ▸ hi.fresh r hr, hrow row hmem hholds⟩
    by_cases huser : row.userId = input.userId
    · rw [if_pos huser] at h
      obtain ⟨db, hdb, rfl⟩ := Option.map_eq_some_iff.mp h
      obtain ⟨hactive, hkey⟩ := holds_iff.mp hholds
      obtain ⟨hactive, hids⟩ := hsame.active hactive
      refine hi.write hdb le_rfl (htouched _ fun id hid => of_decide_eq_true hid)
        (fun key ⟨w, hw, hkey⟩ => ?_) (fun row hrow => absurd (List.mem_singleton.mp hrow) nofun) ?_
      · obtain rfl := List.mem_singleton.mp hw
        cases hkey
      · refine .refreshed (snoc_not_insert hnone fun _ hw => nomatch hw) ⟨_, List.mem_append_right _
          (List.mem_singleton_self _), decide_eq_true rfl⟩ hr hsame.id (hsame.userId.trans huser)
          (holds_iff.mpr ⟨hactive, hsame.key.trans hkey⟩) fun ids hmem => ?_
        rcases List.mem_append.mp hmem with hmem | hmem
        · exact hsame.id ▸ hids ids hmem
        · exact absurd (List.mem_singleton.mp hmem) nofun
    · rw [if_neg huser] at h
      obtain ⟨db, hdb, rfl⟩ := Option.map_eq_some_iff.mp h
      refine hi.write hdb le_rfl (htouched _ fun id hid => of_decide_eq_true hid)
        (fun key ⟨w, hw, hkey⟩ => ?_) (fun row hrow => absurd (List.mem_singleton.mp hrow) nofun) ?_
      · obtain rfl := List.mem_singleton.mp hw
        cases hkey
      · split_ifs <;> exact snoc_not_insert hnone fun _ hw => nomatch hw

theorem Inv.run (hi : Inv s) (hok : NoneSince s (.run t)) (h : s.run t = some s') : Inv s' := by
  unfold Sys.run at h
  split at h
  · next input attempt ht =>
    cases h
    have hnone : ∀ row, .insert row ∉ s.db.pending t := hi.txs t _ ht
    exact hi.setTx (by simp [ht]) hnone
  · next input attempt ids ht =>
    obtain ⟨ids', hids, h⟩ := Option.bind_eq_some_iff.mp h
    have hnone : ∀ row, .insert row ∉ s.db.pending t := hi.txs t _ ht
    refine hi.update hnone hids ?_ h
    exact snoc_not_insert hnone fun _ hw => nomatch hw
  · next input attempt ht => exact hi.upsert (hi.txs t _ ht) h
  · next revocation ht =>
    cases h
    have hnone : ∀ row, .insert row ∉ s.db.pending t := hi.txs t _ ht
    exact hi.setTx (by simp [ht]) hnone
  · next revocation ids ht =>
    obtain ⟨ids', hids, h⟩ := Option.bind_eq_some_iff.mp h
    have hnone : ∀ row, .insert row ∉ s.db.pending t := hi.txs t _ ht
    refine hi.update hnone hids ?_ h
    refine ⟨snoc_not_insert hnone (fun _ hw => nomatch hw), ?_⟩
    rintro delivery rfl id hid
    exact ⟨hok delivery ids ids' ht hids id hid, .revoke ids',
      List.mem_append_right _ (List.mem_singleton_self _), decide_eq_true hid⟩
  all_goals cases h

theorem Inv.commits (hi : Inv s) (h : s.commit t = some s') : Inv s' := by
  unfold Sys.commit at h
  split at h
  · next input id ht =>
    obtain ⟨db, hdb, rfl⟩ := Option.map_eq_some_iff.mp h
    have hreg : Registered s.db.committed input id (s.db.pending t) := hi.txs t _ ht
    refine hi.commit hdb hreg.settled (fun key r hr => hreg.owner hi hr) hi.kept
      fun u hut id' hid' => Function.update_of_ne ?_ _ _
    rintro rfl
    exact hut (hi.rowLocks u t id' hid' hreg.touches)
  · next revocation ids ht =>
    obtain ⟨db, hdb, rfl⟩ := Option.map_eq_some_iff.mp h
    obtain ⟨hnone, hids⟩ := hi.txs t _ ht
    refine hi.commit hdb (settled_of_none hnone) (fun key r' hr' hholds => ?_) ?_
      fun _ _ _ _ => rfl
    · obtain ⟨r, hr, hsame⟩ := Inv.mem_view hnone hr'
      obtain ⟨hactive, hkey⟩ := holds_iff.mp hholds
      rw [hi.owner key r hr (holds_iff.mpr ⟨(hsame.active hactive).1, hsame.key.trans hkey⟩),
        hsame.userId]
    · split
      · next delivery =>
        intro x hx
        rcases List.mem_append.mp hx with hx | hx
        · exact hi.kept x hx
        · obtain ⟨id, hid, rfl⟩ := List.mem_map.mp hx
          exact (hids delivery rfl id hid).1
      · exact hi.kept
  · cases h

theorem Inv.begin (hi : Inv s)
    (htx : TxOk s.db.committed s.registeredAt [] tx) (h : s.begin t tx = some s') : Inv s' := by
  obtain ⟨db, hdb, rfl⟩ := Option.map_eq_some_iff.mp h
  have hcommitted := begin_committed hdb
  have hpending := begin_pending hdb
  have hnil : s.db.pending t = [] := by
    refine s.db.pending_nil t fun ht => ?_
    simp [ReadCommitted.begin, ht] at hdb
  refine ⟨hcommitted ▸ hi.ids, hcommitted ▸ hi.fresh, hpending ▸ hi.touched,
    hpending ▸ hcommitted ▸ hi.inserted, hcommitted ▸ hi.one, hcommitted ▸ hi.owner, hi.kept,
    hpending ▸ hi.rowLocks, hpending ▸ hi.keyLocks, fun u tx' hu => ?_, fun u hu => ?_⟩
  · rw [hcommitted, hpending]
    rcases of_update_some hu with ⟨rfl, rfl⟩ | ⟨-, hu⟩
    · rwa [hnil]
    · exact hi.txs u tx' hu
  · replace hu : Function.update s.txs t (some tx) u = none := hu
    rw [hpending]
    by_cases hut : u = t
    · rw [hut, hnil]
    · rw [Function.update_of_ne hut] at hu
      exact hi.idle u hu

theorem Inv.step {a : Act} (hi : Inv s) (hok : NoneSince s a) (h : step s a = some s') :
    Inv s' := by
  cases a with
  | register t input =>
    refine hi.begin ?_ h
    exact fun _ => List.not_mem_nil
  | revoke t revocation =>
    have hbegin : s.begin t (.revoke revocation) = some s' → Inv s' :=
      fun h => by
        refine hi.begin ?_ h
        exact fun _ => List.not_mem_nil
    cases revocation with
    | pushSubscriptionByProviderInvalidation delivery =>
      exact hbegin (Option.ite_none_right_eq_some.mp h).2
    | _ => exact hbegin h
  | run t => exact hi.run hok h
  | commit t => exact hi.commits h
  | rollback t =>
    obtain ⟨db, hdb, rfl⟩ := Option.map_eq_some_iff.mp h
    exact hi.rollback hdb
  | deliver key =>
    cases h
    exact { hi with }

theorem Inv.owned (hi : Inv s) : s.Owned where
  atMostOne key := by
    have hnodup : ((s.db.committed.filter fun row => row.holds key).map Row.id).Nodup :=
      hi.ids.sublist (List.filter_sublist.map Row.id)
    rcases hrows : s.db.committed.filter fun row => row.holds key with _ | ⟨r, _ | ⟨r', rest⟩⟩
    · exact hrows ▸ Nat.zero_le 1
    · exact hrows ▸ le_rfl
    · have hmem : ∀ x ∈ r :: r' :: rest, x ∈ s.db.committed ∧ x.holds key = true := fun x hx =>
        List.mem_filter.mp (hrows ▸ hx)
      obtain ⟨hr, hholds⟩ := hmem r List.mem_cons_self
      obtain ⟨hr', hholds'⟩ := hmem r' (List.mem_cons_of_mem _ List.mem_cons_self)
      rw [hrows] at hnodup
      refine absurd ?_ (List.nodup_cons.mp hnodup).1
      rw [hi.one r hr r' hr' key hholds hholds']
      exact List.mem_cons_self
  owner := hi.owner
  kept := hi.kept

theorem Sys.write_committed (h : s.write t ws tx = some s') :
    s'.db.committed = s.db.committed := by
  obtain ⟨db, hdb, rfl⟩ := Option.map_eq_some_iff.mp h
  exact ReadCommitted.write_committed hdb

theorem Sys.upsert_committed {attempt : ℕ} (h : s.upsert t input attempt = some s') :
    s'.db.committed = s.db.committed := by
  unfold Sys.upsert at h
  dsimp only at h
  obtain ⟨-, h⟩ := Option.ite_none_left_eq_some.mp h
  split at h
  · obtain ⟨s₁, hs₁, rfl⟩ := Option.map_eq_some_iff.mp h
    have hcommitted := Sys.write_committed hs₁
    exact hcommitted
  · split_ifs at h <;> exact Sys.write_committed h

theorem Sys.run_committed (h : s.run t = some s') : s'.db.committed = s.db.committed := by
  unfold Sys.run at h
  split at h
  · cases h
    rfl
  · obtain ⟨ids, -, h⟩ := Option.bind_eq_some_iff.mp h
    exact Sys.write_committed h
  · exact Sys.upsert_committed h
  · cases h
    rfl
  · obtain ⟨ids, -, h⟩ := Option.bind_eq_some_iff.mp h
    exact Sys.write_committed h
  all_goals cases h

theorem failsCleanly (s : Sys) : s.FailsCleanly where
  rollback t s' h := by
    obtain ⟨db, hdb, rfl⟩ := Option.map_eq_some_iff.mp h
    exact rollback_committed hdb
  lost t input ht := by simp only [step, Sys.commit, ht]
  uncommitted t s' h := Sys.run_committed h

/-- While no invalidation finds a registration committed after the delivery it is reported for, each
key has one owner, and a registration that fails changes nothing. -/
theorem registrations_owned (h : Reach step NoneSince .init s) : s.Owned ∧ s.FailsCleanly := by
  have hi : Inv s := h.invariant inv_init fun _ _ _ hi hok hs => hi.step hok hs
  exact ⟨hi.owned, failsCleanly s⟩

/-! ## A phone that changes hands -/

def phone : Target := .webPush "https://push.example/1" "key" "auth"

/-- The statements of a registration that no other is in the way of. -/
def registers (t userId : ℕ) : List Act :=
  [.register t ⟨userId, none, phone⟩, .run t, .run t, .run t, .commit t]

/-- The second user registers the phone after the first, is sent a notification, and loses the
registration for it. -/
def movedThenRevoked : List Act :=
  registers 0 1 ++ registers 1 2 ++
    ([.deliver phone.key, .revoke 2 (.pushSubscriptionByProviderInvalidation ⟨phone.key, 2⟩),
      .run 2, .run 2, .commit 2] : List Act)

/-- A notification that was refused was sent no later than the registration it is about. -/
def sentAfter (s : Sys) : Act → Bool
  | .run t => match s.txs t with
    | some (.revoking (.pushSubscriptionByProviderInvalidation delivery) ids) =>
      match s.unlocked t (fun row => row.holds delivery.key) ids with
      | some ids' => ids'.all fun id => s.registeredAt id ≤ delivery.at_
      | none => true
    | _ => true
  | _ => true

theorem registrations_owned_moved : ∃ s, runActs step .init movedThenRevoked = some s ∧
    s.registrant phone.key = some 2 ∧ s.invalidated = [⟨⟨phone.key, 2⟩, 2⟩] ∧
    s.Owned ∧ s.FailsCleanly := by
  obtain ⟨s, hs⟩ := Option.isSome_iff_exists.mp (by decide +kernel :
    (runChecked step sentAfter .init movedThenRevoked).isSome = true)
  refine ⟨s, runActs_of_runChecked hs, ?_, ?_,
    registrations_owned (.of_runChecked (fun s a ha => ?_) hs)⟩
  · exact eq_of_map_eq (f := fun s => s.registrant phone.key) (b := some 2) hs (by decide +kernel)
  · exact eq_of_map_eq (f := fun s => s.invalidated) (b := [⟨⟨phone.key, 2⟩, 2⟩]) hs
      (by decide +kernel)
  · cases a with
    | run t =>
      intro delivery ids ids' ht hids id hid
      have hall : ids'.all (fun id => s.registeredAt id ≤ delivery.at_) = true := by
        simpa only [sentAfter, ht, hids] using ha
      exact of_decide_eq_true (List.all_eq_true.mp hall id hid)
    | _ => trivial

/-- The second user registers the phone between a send to the first and the answer that the
registration is gone. -/
def movedMeanwhile : List Act :=
  registers 0 1 ++
    ([.deliver phone.key] : List Act) ++ registers 1 2 ++
    ([.revoke 2 (.pushSubscriptionByProviderInvalidation ⟨phone.key, 1⟩), .run 2, .run 2,
      .commit 2] : List Act)

theorem movedMeanwhile_not_kept : ¬∀ s, Reach step (fun _ _ => True) .init s → s.Owned := by
  intro hall
  obtain ⟨s, hs⟩ := Option.isSome_iff_exists.mp (by decide +kernel :
    (runActs step .init movedMeanwhile).isSome = true)
  have hrevoked : s.invalidated = [⟨⟨phone.key, 1⟩, 2⟩] :=
    eq_of_map_eq (f := fun s => s.invalidated) (b := [⟨⟨phone.key, 1⟩, 2⟩]) hs (by decide +kernel)
  have hkept := (hall s (.of_runActs hs)).kept ⟨⟨phone.key, 1⟩, 2⟩
    (hrevoked ▸ List.mem_singleton_self _)
  exact absurd hkept (by decide)

end PushRegistrations

end Semprec
