import Mathlib.Data.List.Pairwise
import Semprec.Lib.Runs
import Semprec.MailIngest

/-!
# One item for each message of a mailbox

The rows a pass has inserted and not committed share no key with the committed rows, nor with the
rows another pass has inserted: an insert waits for the transaction that wrote one of its keys.  As
long as every upsert is an insert, the row of each item a call returned is there with its commit.
-/

namespace Semprec

namespace Mail

variable {s s' : Passes} {t u : ℕ} {row row' input : MailMessageMetaRow} {w : MetaWrite}
  {ws : List MetaWrite} {tables : Tables}

/-! ## Rows without a common key -/

def Apart (row row' : MailMessageMetaRow) : Prop :=
  ¬ (row.mailboxItemId = row'.mailboxItemId ∧ row.messageId = row'.messageId) ∧
    row.itemId ≠ row'.itemId

instance : Std.Symm Apart where
  symm _ _ h := ⟨fun h' => h.1 ⟨h'.1.symm, h'.2.symm⟩, h.2.symm⟩

theorem apart_of_not_sameKey (h : ¬ SameKey row input) : Apart row input :=
  ⟨fun h' => h (.inl h'), fun h' => h (.inr (.inl h'))⟩

theorem eq_of_pairwise_apart {rows : List MailMessageMetaRow} (h : rows.Pairwise Apart)
    (hr : row ∈ rows) (hr' : row' ∈ rows) (hsame : ¬ Apart row row') : row = row' := by
  by_contra hne
  exact hsame (h.forall hr hr' hne)

def inserted (ws : List MetaWrite) : List MailMessageMetaRow :=
  ws.filterMap fun
    | .insertMeta row => some row
    | _ => none

theorem mem_inserted : row ∈ inserted ws ↔ .insertMeta row ∈ ws := by
  unfold inserted
  rw [List.mem_filterMap]
  constructor
  · rintro ⟨w, hw, he⟩
    cases w with
    | insertMeta row' =>
      cases he
      exact hw
    | createItem => cases he
    | updateMeta => cases he
  · exact fun hw => ⟨_, hw, rfl⟩

theorem apply_rows (hw : ∀ row threadId p, .updateMeta row threadId p ∉ ws) :
    ∀ tables : Tables, (ws.foldl Tables.apply tables).mailMessageMeta =
      tables.mailMessageMeta ++ inserted ws := by
  induction ws with
  | nil => exact fun _ => (List.append_nil _).symm
  | cons w ws ih =>
    have hws : ∀ row threadId p, .updateMeta row threadId p ∉ ws :=
      fun row threadId p h => hw row threadId p (List.mem_cons_of_mem _ h)
    intro tables
    rw [List.foldl_cons, ih hws]
    cases w with
    | createItem itemId => rfl
    | insertMeta row => exact List.append_assoc ..
    | updateMeta row threadId p => exact absurd List.mem_cons_self (hw row threadId p)

/-! ## What an upsert writes -/

theorem upsertMailMessageMeta_eq :
    upsertMailMessageMeta tables input = (upsertWrite tables input).map tables.apply := by
  unfold upsertMailMessageMeta upsertWrite
  cases tables.getMailMessageMetaByMailboxAndMessageId input.mailboxItemId input.messageId with
  | none =>
    dsimp only
    split_ifs <;> rfl
  | some existing =>
    dsimp only
    split_ifs <;> rfl

theorem upsertWrite_ok (hf : tables.getMailMessageMetaByMailboxAndMessageId input.mailboxItemId
    input.messageId = none) (h : upsertWrite tables input = .ok w) :
    w = .insertMeta input ∧ ∀ row ∈ tables.mailMessageMeta, Apart row input := by
  unfold upsertWrite at h
  rw [hf] at h
  dsimp only at h
  split_ifs at h with hitem
  cases h
  refine ⟨rfl, fun row hr => ⟨fun hsame => ?_, fun hi => hitem ?_⟩⟩
  · exact List.find?_eq_none.mp hf row hr (decide_eq_true hsame)
  · exact List.any_eq_true.mpr ⟨row, hr, decide_eq_true hi⟩

theorem mem_of_getMailMessageMetaByMailboxAndMessageId {mailboxItemId : ℕ} {messageId : String}
    (h : tables.getMailMessageMetaByMailboxAndMessageId mailboxItemId messageId = some row) :
    row ∈ tables.mailMessageMeta ∧ row.mailboxItemId = mailboxItemId ∧
      row.messageId = messageId := by
  unfold Tables.getMailMessageMetaByMailboxAndMessageId at h
  exact ⟨List.mem_of_find?_eq_some h, by simpa using List.find?_some h⟩

theorem mem_of_getMailMessageMetaByProviderMessageId {p : String}
    (h : tables.getMailMessageMetaByProviderMessageId p = some row) :
    row ∈ tables.mailMessageMeta ∧ row.providerMessageId = some p := by
  unfold Tables.getMailMessageMetaByProviderMessageId at h
  exact ⟨List.mem_of_find?_eq_some h, by simpa using List.find?_some h⟩

/-! ## The invariant -/

structure PassInv (s : Passes) : Prop where
  noUpdate : ∀ t row threadId p, .updateMeta row threadId p ∉ s.db.pending t
  rows : ∀ t, (s.db.committed.mailMessageMeta ++ inserted (s.db.pending t)).Pairwise Apart
  across : ∀ t u, t ≠ u → ∀ row ∈ inserted (s.db.pending t), ∀ row' ∈ inserted (s.db.pending u),
    Apart row row'
  finished : ∀ t, ∀ r ∈ s.finished t,
    ∃ row ∈ s.db.committed.mailMessageMeta ++ inserted (s.db.pending t), r.Names row
  closed : ∀ t, t ∉ s.db.opened → s.calls t = none ∧ s.finished t = []
  ingested : ∀ r ∈ s.ingested, ∃ row ∈ s.db.committed.mailMessageMeta, r.Names row

theorem passInv_init : PassInv .init where
  noUpdate := fun _ _ _ _ h => List.not_mem_nil h
  rows := fun _ => .nil
  across := fun _ _ _ _ h => absurd h List.not_mem_nil
  finished := fun _ _ h => absurd h List.not_mem_nil
  closed := fun _ _ => ⟨rfl, rfl⟩
  ingested := fun _ h => absurd h List.not_mem_nil

theorem PassInv.view_rows (hi : PassInv s) (t : ℕ) : (s.view t).mailMessageMeta =
    s.db.committed.mailMessageMeta ++ inserted (s.db.pending t) :=
  apply_rows (hi.noUpdate t) _

theorem PassInv.congr (hi : PassInv s)
    (hc : s'.db.committed.mailMessageMeta = s.db.committed.mailMessageMeta)
    (hp : s'.db.pending = s.db.pending) (hf : s'.finished = s.finished)
    (ho : s.db.opened ⊆ s'.db.opened) (hd : s'.ingested = s.ingested)
    (hk : ∀ t, t ∉ s'.db.opened → s'.calls t = s.calls t) : PassInv s' where
  noUpdate := by rw [hp]; exact hi.noUpdate
  rows := by rw [hp, hc]; exact hi.rows
  across := by rw [hp]; exact hi.across
  finished := by rw [hp, hc, hf]; exact hi.finished
  closed := fun t ht => by rw [hf, hk t ht]; exact hi.closed t fun h => ht (ho h)
  ingested := by rw [hd, hc]; exact hi.ingested

/-! ## The steps of a pass -/

theorem finish_closed (hi : PassInv s) {db : ReadCommitted Tables MetaWrite} {r : Ingested}
    (hut : u ≠ t) (hu : u ∉ s.db.opened) :
    (s.finish t db r).calls u = none ∧ (s.finish t db r).finished u = [] := by
  have hclosed := hi.closed u hu
  exact ⟨(Function.update_of_ne hut ..).trans hclosed.1,
    (Function.update_of_ne hut ..).trans hclosed.2⟩

theorem finish_finished_self (db : ReadCommitted Tables MetaWrite) (r : Ingested) :
    (s.finish t db r).finished t = s.finished t ++ [r] :=
  Function.update_self ..

theorem finish_finished_of_ne (db : ReadCommitted Tables MetaWrite) (r : Ingested) (h : u ≠ t) :
    (s.finish t db r).finished u = s.finished u :=
  Function.update_of_ne h ..

/-- A call that writes nothing returns the item of a row its pass sees. -/
theorem PassInv.found (hi : PassInv s) {r : Ingested} (ht : t ∈ s.db.opened)
    (hr : ∃ row ∈ (s.view t).mailMessageMeta, r.Names row) : PassInv (s.finish t s.db r) where
  noUpdate := hi.noUpdate
  rows := hi.rows
  across := hi.across
  finished := fun u r' hr' => by
    by_cases hut : u = t
    · subst hut
      rw [finish_finished_self, List.mem_append] at hr'
      rcases hr' with hr' | hr'
      · exact hi.finished u r' hr'
      · rw [List.mem_singleton.mp hr']
        rw [hi.view_rows] at hr
        exact hr
    · rw [finish_finished_of_ne _ _ hut] at hr'
      exact hi.finished u r' hr'
  closed := fun u hu => finish_closed hi (fun h => hu (h ▸ ht)) hu
  ingested := hi.ingested

theorem inserted_append (ws ws' : List MetaWrite) :
    inserted (ws ++ ws') = inserted ws ++ inserted ws' :=
  List.filterMap_append

theorem apart_of_not_locked (hl : ¬ s.db.Locked t (MetaWrite.conflicts input)) (hut : u ≠ t)
    (hr : row ∈ inserted (s.db.pending u)) : Apart row input :=
  apart_of_not_sameKey fun hk => hl (.of_mem (mem_inserted.mp hr) hut (decide_eq_true hk))

theorem PassInv.store (hi : PassInv s) {r : Ingested} {db : ReadCommitted Tables MetaWrite}
    (hl : ¬ s.db.Locked t (MetaWrite.conflicts input))
    (hnew : ∀ row ∈ (s.view t).mailMessageMeta, Apart row input)
    (hdb : s.db.write t [.createItem input.itemId, .insertMeta input] = some db)
    (hr : r.Names input) : PassInv (s.finish t db r) := by
  have hp := ReadCommitted.write_pending hdb
  have hc := ReadCommitted.write_committed hdb
  have hself : inserted (db.pending t) = inserted (s.db.pending t) ++ [input] := by
    rw [hp, Function.update_self, inserted_append]
    rfl
  have hother : ∀ u, u ≠ t → db.pending u = s.db.pending u := fun u hut => by
    rw [hp, Function.update_of_ne hut]
  have hapart : ∀ u, u ≠ t → ∀ row ∈ inserted (db.pending t), ∀ row' ∈ inserted (db.pending u),
      Apart row row' := by
    intro u hut row hrow row' hrow'
    rw [hother u hut] at hrow'
    rw [hself] at hrow
    rcases List.mem_append.mp hrow with hrow | hrow
    · exact hi.across t u hut.symm row hrow row' hrow'
    · rw [List.mem_singleton.mp hrow]
      exact symm (apart_of_not_locked hl hut hrow')
  refine ⟨fun u row threadId p hw => ?_, fun u => ?_, fun u v huv row hrow row' hrow' => ?_,
    fun u r' hr' => ?_, fun u hu => ?_, ?_⟩
  · rcases ReadCommitted.mem_write_pending hdb hw with hw | ⟨-, hw⟩
    · exact hi.noUpdate u row threadId p hw
    · simp at hw
  · by_cases hut : u = t
    · subst hut
      change (db.committed.mailMessageMeta ++ inserted (db.pending u)).Pairwise Apart
      rw [hc, hself, ← List.append_assoc, ← hi.view_rows, List.pairwise_append]
      refine ⟨?_, List.pairwise_singleton _ _, fun row hrow row' hrow' => ?_⟩
      · rw [hi.view_rows]
        exact hi.rows u
      · rw [List.mem_singleton.mp hrow']
        exact hnew row hrow
    · change (db.committed.mailMessageMeta ++ inserted (db.pending u)).Pairwise Apart
      rw [hc, hother u hut]
      exact hi.rows u
  · change row ∈ inserted (db.pending u) at hrow
    change row' ∈ inserted (db.pending v) at hrow'
    by_cases hut : u = t
    · subst hut
      exact hapart v huv.symm row hrow row' hrow'
    · by_cases hvt : v = t
      · subst hvt
        exact symm (hapart u hut row' hrow' row hrow)
      · rw [hother u hut] at hrow
        rw [hother v hvt] at hrow'
        exact hi.across u v huv row hrow row' hrow'
  · change ∃ row ∈ db.committed.mailMessageMeta ++ inserted (db.pending u), r'.Names row
    rw [hc]
    by_cases hut : u = t
    · subst hut
      rw [hself, ← List.append_assoc]
      rw [finish_finished_self, List.mem_append] at hr'
      rcases hr' with hr' | hr'
      · obtain ⟨row, hrow, hn⟩ := hi.finished u r' hr'
        exact ⟨row, List.mem_append_left _ hrow, hn⟩
      · rw [List.mem_singleton.mp hr']
        exact ⟨input, List.mem_append_right _ (List.mem_singleton_self _), hr⟩
    · rw [hother u hut]
      rw [finish_finished_of_ne _ _ hut] at hr'
      exact hi.finished u r' hr'
  · change u ∉ db.opened at hu
    rw [ReadCommitted.write_opened hdb] at hu
    have hut : u ≠ t := by
      rintro rfl
      unfold ReadCommitted.write at hdb
      split_ifs at hdb
    exact finish_closed hi hut hu
  · change ∀ r' ∈ s.ingested, ∃ row ∈ db.committed.mailMessageMeta, r'.Names row
    rw [hc]
    exact hi.ingested

theorem close_finished_self (db : ReadCommitted Tables MetaWrite) (l : List Ingested) :
    (s.close t db l).finished t = [] :=
  Function.update_self ..

theorem close_finished_of_ne (db : ReadCommitted Tables MetaWrite) (l : List Ingested)
    (h : u ≠ t) : (s.close t db l).finished u = s.finished u :=
  Function.update_of_ne h ..

theorem PassInv.close (hi : PassInv s) {db : ReadCommitted Tables MetaWrite} {l : List Ingested}
    (hp : db.pending = Function.update s.db.pending t [])
    (ho : db.opened = s.db.opened.erase t)
    (hrows : ∀ u, u ≠ t →
      (db.committed.mailMessageMeta ++ inserted (s.db.pending u)).Pairwise Apart)
    (hself : db.committed.mailMessageMeta.Pairwise Apart)
    (hkeep : ∀ row ∈ s.db.committed.mailMessageMeta, row ∈ db.committed.mailMessageMeta)
    (hl : ∀ r ∈ l, ∃ row ∈ db.committed.mailMessageMeta, r.Names row) :
    PassInv (s.close t db l) := by
  have hnone : inserted (db.pending t) = [] := by
    rw [hp, Function.update_self]
    rfl
  have hother : ∀ u, u ≠ t → db.pending u = s.db.pending u := fun u hut => by
    rw [hp, Function.update_of_ne hut]
  refine ⟨fun u row threadId p hw => ?_, fun u => ?_, fun u v huv row hrow row' hrow' => ?_,
    fun u r hr => ?_, fun u hu => ?_, hl⟩
  · exact hi.noUpdate u row threadId p (ReadCommitted.mem_closed_pending hp hw).2
  · change (db.committed.mailMessageMeta ++ inserted (db.pending u)).Pairwise Apart
    by_cases hut : u = t
    · subst hut
      rw [hnone, List.append_nil]
      exact hself
    · rw [hother u hut]
      exact hrows u hut
  · have hu := ReadCommitted.mem_closed_pending hp (mem_inserted.mp hrow)
    have hv := ReadCommitted.mem_closed_pending hp (mem_inserted.mp hrow')
    exact hi.across u v huv row (mem_inserted.mpr hu.2) row' (mem_inserted.mpr hv.2)
  · change ∃ row ∈ db.committed.mailMessageMeta ++ inserted (db.pending u), r.Names row
    by_cases hut : u = t
    · subst hut
      rw [close_finished_self] at hr
      exact absurd hr List.not_mem_nil
    · rw [close_finished_of_ne _ _ hut] at hr
      obtain ⟨row, hrow, hn⟩ := hi.finished u r hr
      rw [hother u hut]
      exact ⟨row, List.mem_append.mpr ((List.mem_append.mp hrow).imp_left (hkeep row)), hn⟩
  · change u ∉ db.opened at hu
    by_cases hut : u = t
    · subst hut
      exact ⟨Function.update_self .., close_finished_self ..⟩
    · rw [close_finished_of_ne _ _ hut, show (s.close t db l).calls u = s.calls u from
        Function.update_of_ne hut ..]
      refine hi.closed u fun h => hu ?_
      rw [ho]
      exact Finset.mem_erase.mpr ⟨hut, h⟩

theorem PassInv.committed_pairwise (hi : PassInv s) :
    s.db.committed.mailMessageMeta.Pairwise Apart :=
  (List.pairwise_append.mp (hi.rows 0)).1

theorem PassInv.commit (hi : PassInv s) {db : ReadCommitted Tables MetaWrite}
    (hdb : s.db.commit Tables.apply t = some db) :
    PassInv (s.close t db (s.ingested ++ s.finished t)) := by
  have hc : db.committed.mailMessageMeta =
      s.db.committed.mailMessageMeta ++ inserted (s.db.pending t) := by
    rw [ReadCommitted.commit_committed hdb]
    exact hi.view_rows t
  refine hi.close (ReadCommitted.commit_pending hdb) (ReadCommitted.commit_opened hdb)
    (fun u hut => ?_) ?_ (fun row hrow => ?_) (fun r hr => ?_)
  · rw [hc, List.pairwise_append]
    obtain ⟨-, hu, hcu⟩ := List.pairwise_append.mp (hi.rows u)
    refine ⟨hi.rows t, hu, fun row hrow row' hrow' => ?_⟩
    rcases List.mem_append.mp hrow with hrow | hrow
    · exact hcu row hrow row' hrow'
    · exact hi.across t u hut.symm row hrow row' hrow'
  · rw [hc]
    exact hi.rows t
  · rw [hc]
    exact List.mem_append_left _ hrow
  · rw [hc]
    rcases List.mem_append.mp hr with hr | hr
    · obtain ⟨row, hrow, hn⟩ := hi.ingested r hr
      exact ⟨row, List.mem_append_left _ hrow, hn⟩
    · exact hi.finished t r hr

theorem PassInv.rollback (hi : PassInv s) {db : ReadCommitted Tables MetaWrite}
    (hdb : s.db.rollback t = some db) : PassInv (s.close t db s.ingested) := by
  have hc := ReadCommitted.rollback_committed hdb
  refine hi.close (ReadCommitted.rollback_pending hdb) (ReadCommitted.rollback_opened hdb)
    (fun u _ => ?_) ?_ (fun row hrow => ?_) (fun r hr => ?_)
  · rw [hc]
    exact hi.rows u
  · rw [hc]
    exact hi.committed_pairwise
  · rw [hc]
    exact hrow
  · rw [hc]
    exact hi.ingested r hr

/-! ## The steps of a sent draft -/

theorem claimDraft_rows {m : MailMessage} (h : claimDraft s.db.committed m = .ok tables)
    (hnew : ∀ row ∈ s.db.committed.mailMessageMeta, row.messageId ≠ m.messageId) :
    tables.mailMessageMeta = s.db.committed.mailMessageMeta ++ [⟨m, none, none⟩] ∧
      ∀ row ∈ s.db.committed.mailMessageMeta, Apart row ⟨m, none, none⟩ := by
  unfold claimDraft at h
  rw [upsertMailMessageMeta_eq] at h
  have hf : s.db.committed.getMailMessageMetaByMailboxAndMessageId m.mailboxItemId m.messageId =
      none := by
    refine List.find?_eq_none.mpr fun row hrow hsame => ?_
    exact hnew row hrow (of_decide_eq_true hsame).2
  cases hw : upsertWrite s.db.committed ⟨m, none, none⟩ with
  | error e =>
    rw [hw] at h
    cases h
  | ok w =>
    rw [hw] at h
    obtain ⟨rfl, hapart⟩ := upsertWrite_ok hf hw
    cases h
    exact ⟨rfl, hapart⟩

theorem PassInv.claim (hi : PassInv s) {m : MailMessage} {sending : List ℕ}
    (h : claimDraft s.db.committed m = .ok tables)
    (hnew : ∀ row ∈ s.db.committed.mailMessageMeta, row.messageId ≠ m.messageId)
    (hl : ¬ ∃ t ∈ s.db.opened,
      (s.db.pending t).any (MetaWrite.conflicts ⟨m, none, none⟩) = true) :
    PassInv { s.setTables tables with sending := sending } := by
  obtain ⟨hrows, hapart⟩ := claimDraft_rows h hnew
  have hkeep : ∀ row ∈ s.db.committed.mailMessageMeta, row ∈ tables.mailMessageMeta :=
    fun row hrow => by
      rw [hrows]
      exact List.mem_append_left _ hrow
  refine ⟨hi.noUpdate, fun u => ?_, hi.across, fun u r hr => ?_, hi.closed, fun r hr => ?_⟩
  · obtain ⟨hcc, hu, hcu⟩ := List.pairwise_append.mp (hi.rows u)
    change (tables.mailMessageMeta ++ inserted (s.db.pending u)).Pairwise Apart
    rw [hrows]
    refine List.pairwise_append.mpr ⟨List.pairwise_append.mpr ⟨hcc, List.pairwise_singleton _ _,
      fun row hrow row' hrow' => ?_⟩, hu, fun row hrow row' hrow' => ?_⟩
    · rw [List.mem_singleton.mp hrow']
      exact hapart row hrow
    · rcases List.mem_append.mp hrow with hrow | hrow
      · exact hcu row hrow row' hrow'
      · rw [List.mem_singleton.mp hrow]
        have hw := mem_inserted.mp hrow'
        refine symm (apart_of_not_sameKey fun hk => hl ⟨u,
          ReadCommitted.mem_opened_of_mem_pending hw, List.any_eq_true.mpr ⟨_, hw, ?_⟩⟩)
        exact decide_eq_true hk
  · obtain ⟨row, hrow, hn⟩ := hi.finished u r hr
    exact ⟨row, List.mem_append.mpr ((List.mem_append.mp hrow).imp_left (hkeep row)), hn⟩
  · obtain ⟨row, hrow, hn⟩ := hi.ingested r hr
    exact ⟨row, hkeep row hrow, hn⟩

/-- The deleted row is of an item that no call has returned. -/
theorem PassInv.sendMailFails (hi : PassInv s) {itemId : ℕ} {sending : List ℕ}
    (hs : ∀ r ∈ s.ingested, r.result.itemId ≠ itemId)
    (hf : ∀ t ∈ s.db.opened, ∀ r ∈ s.finished t, r.result.itemId ≠ itemId) :
    PassInv { s.setTables (s.db.committed.deleteMailMessageMetaByItemId itemId) with
      sending := sending } := by
  have hkeep : ∀ row ∈ s.db.committed.mailMessageMeta, row.itemId ≠ itemId →
      row ∈ (s.db.committed.deleteMailMessageMetaByItemId itemId).mailMessageMeta :=
    fun row hrow hne => List.mem_filter.mpr ⟨hrow, decide_eq_true hne⟩
  refine ⟨hi.noUpdate, fun u => ?_, hi.across, fun u r hr => ?_, hi.closed, fun r hr => ?_⟩
  · exact (hi.rows u).sublist (List.filter_sublist.append (.refl _))
  · have hu : u ∈ s.db.opened := by
      by_contra hu
      change r ∈ s.finished u at hr
      rw [(hi.closed u hu).2] at hr
      exact List.not_mem_nil hr
    obtain ⟨row, hrow, hn⟩ := hi.finished u r hr
    refine ⟨row, List.mem_append.mpr ((List.mem_append.mp hrow).imp_left fun h => ?_), hn⟩
    exact hkeep row h (hn.1 ▸ hf u hu r hr)
  · obtain ⟨row, hrow, hn⟩ := hi.ingested r hr
    exact ⟨row, hkeep row hrow (hn.1 ▸ hs r hr), hn⟩

/-! ## Every run -/

theorem passInv_preserved (hi : PassInv s) {a : PassAct} (hok : FirstToStore s a)
    (hs : passStep s a = some s') : PassInv s' := by
  cases a with
  | begin t =>
    obtain ⟨db, hdb, rfl⟩ := Option.map_eq_some_iff.mp hs
    refine hi.congr (by rw [ReadCommitted.begin_committed hdb]) (ReadCommitted.begin_pending hdb)
      rfl ?_ rfl fun _ _ => rfl
    rw [ReadCommitted.begin_opened hdb]
    exact Finset.subset_insert _ _
  | lookup t m p =>
    simp only [passStep] at hs
    split_ifs at hs with hopen
    split at hs
    case h_1 existing he =>
      cases hs
      obtain ⟨hmem, hpair⟩ := mem_of_getMailMessageMetaByMailboxAndMessageId he
      exact hi.found hopen.1 ⟨existing, hmem, rfl, .inl hpair⟩
    case h_2 he =>
      cases hs
      exact hi.congr rfl rfl rfl (Finset.Subset.refl _) rfl fun u hu =>
        Function.update_of_ne (by rintro rfl; exact hu hopen.1) ..
  | store t threadId =>
    obtain ⟨⟨m, p⟩, hcall, hs⟩ := Option.bind_eq_some_iff.mp hs
    simp only at hs
    split_ifs at hs with hl
    have hf := hok (m, p) hcall
    split at hs
    case h_1 w hw =>
      obtain ⟨db, hdb, rfl⟩ := Option.map_eq_some_iff.mp hs
      obtain ⟨rfl, hapart⟩ := upsertWrite_ok hf hw
      exact hi.store hl hapart hdb ⟨rfl, .inl ⟨rfl, rfl⟩⟩
    case h_2 hw =>
      obtain ⟨winner, hwin, rfl⟩ := Option.map_eq_some_iff.mp hs
      obtain ⟨p, rfl, hwin⟩ :=
        Option.bind_eq_some_iff.mp (show Option.bind _ _ = some winner from hwin)
      have hopen : t ∈ s.db.opened := by
        by_contra ht
        rw [(hi.closed t ht).1] at hcall
        cases hcall
      obtain ⟨hmem, hid⟩ := mem_of_getMailMessageMetaByProviderMessageId hwin
      exact hi.found hopen ⟨winner, hmem, rfl, .inr ⟨Option.some_ne_none p, hid⟩⟩
    case h_3 => cases hs
  | commit t =>
    simp only [passStep] at hs
    split_ifs at hs
    obtain ⟨db, hdb, rfl⟩ := Option.map_eq_some_iff.mp hs
    exact hi.commit hdb
  | rollback t =>
    obtain ⟨db, hdb, rfl⟩ := Option.map_eq_some_iff.mp hs
    exact hi.rollback hdb
  | createDraft itemId =>
    simp only [passStep] at hs
    split_ifs at hs
    cases hs
    exact hi.congr rfl rfl rfl (Finset.Subset.refl _) rfl fun _ _ => rfl
  | claim m =>
    simp only [passStep] at hs
    split_ifs at hs with hc
    cases h : claimDraft s.db.committed m with
    | ok tables =>
      rw [h] at hs
      cases hs
      exact hi.claim h hc.2.1 hc.2.2
    | error e =>
      rw [h] at hs
      cases hs
      exact hi
  | sendMail itemId =>
    simp only [passStep] at hs
    split_ifs at hs
    cases hs
    exact hi.congr rfl rfl rfl (Finset.Subset.refl _) rfl fun _ _ => rfl
  | sendMailFails itemId =>
    simp only [passStep] at hs
    split_ifs at hs
    cases hs
    exact hi.sendMailFails hok.1 hok.2

/-- In every run whose upserts are inserts and whose SMTP calls fail only for messages no pass has
found, each message of the mailbox has one item. -/
theorem oneItem (s : Passes) (hs : Reach passStep FirstToStore .init s) : s.OneItem := by
  have hi : PassInv s := hs.invariant passInv_init fun s a s' hi hok hs =>
    passInv_preserved hi hok hs
  refine ⟨fun row hr row' hr' hmailbox hmessage => ?_, fun row hr row' hr' hitem => ?_, hi.ingested⟩
  · exact eq_of_pairwise_apart hi.committed_pairwise hr hr' fun h => h.1 ⟨hmailbox, hmessage⟩
  · exact eq_of_pairwise_apart hi.committed_pairwise hr hr' fun h => h.2 hitem

/-- The message of a mailbox, observed by a pass that would give it this item. -/
def observed (itemId : ℕ) (messageId : String) : MailMessage := ⟨itemId, 1, messageId, none, []⟩

/-- Two passes, of which the second looks its message up after the first has committed, and ingests
another message whose provider id is known. -/
def oneAfterTheOther : List PassAct :=
  [.begin 0, .lookup 0 (observed 10 "a") (some "p"), .store 0 5, .commit 0,
    .begin 1, .lookup 1 (observed 11 "a") (some "p"), .lookup 1 (observed 12 "b") (some "p"),
    .store 1 6, .commit 1]

def firstToStoreCheck (s : Passes) : PassAct → Bool
  | .store t _ => (s.calls t).all fun m => ((s.view t).getMailMessageMetaByMailboxAndMessageId
      m.1.mailboxItemId m.1.messageId).isNone
  | .sendMailFails _ => false
  | _ => true

theorem firstToStore_of_check (s : Passes) (a : PassAct) (h : firstToStoreCheck s a = true) :
    FirstToStore s a := by
  cases a with
  | store t threadId =>
    intro m hm
    simp only [firstToStoreCheck, Option.mem_def.mp hm, Option.all_some] at h
    exact Option.isNone_iff_eq_none.mp h
  | sendMailFails itemId => cases h
  | _ => trivial

theorem oneItem_after : ∃ s, runActs passStep .init oneAfterTheOther = some s ∧
    s.ingested.map (·.result) = [⟨10, true⟩, ⟨10, false⟩, ⟨10, false⟩] ∧ s.OneItem := by
  obtain ⟨s, hs⟩ := Option.isSome_iff_exists.mp (show
    (runChecked passStep firstToStoreCheck .init oneAfterTheOther).isSome = true by decide +kernel)
  exact ⟨s, runActs_of_runChecked hs,
    eq_of_map_eq (f := fun s => s.ingested.map (·.result)) hs (by decide +kernel),
    oneItem s (.of_runChecked firstToStore_of_check hs)⟩

/-- Two passes look one message up before either has stored it. -/
def besideEachOther : List PassAct :=
  [.begin 0, .begin 1, .lookup 0 (observed 10 "a") none, .lookup 1 (observed 11 "a") none,
    .store 0 5, .commit 0, .store 1 6, .commit 1]

/-- The second pass leaves its item without a row, and returns it. -/
theorem second_item : ¬ ∀ s, Reach passStep (fun _ _ => True) .init s → s.OneItem := by
  intro hall
  obtain ⟨s, hs⟩ := Option.isSome_iff_exists.mp
    (show (runActs passStep .init besideEachOther).isSome = true by decide +kernel)
  have hrows : s.db.committed.mailMessageMeta.map (·.itemId) = [10] :=
    eq_of_map_eq (f := fun s => s.db.committed.mailMessageMeta.map (·.itemId)) hs
      (by decide +kernel)
  have hlast : ⟨observed 11 "a", none, ⟨11, true⟩⟩ ∈ s.ingested := of_decide_eq_true
    (eq_of_map_eq (f := fun s => decide (⟨observed 11 "a", none, ⟨11, true⟩⟩ ∈ s.ingested)) hs
      (by decide +kernel))
  obtain ⟨row, hrow, hn⟩ := (hall s (.of_runActs hs)).ingested _ hlast
  have hmem : row.itemId ∈ [10] := hrows ▸ List.mem_map_of_mem hrow
  rw [hn.1] at hmem
  simp at hmem

end Mail

end Semprec
