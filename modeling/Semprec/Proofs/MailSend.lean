import Mathlib.Data.List.Nodup
import Semprec.MailSend
import Semprec.Proofs.MailThreads

/-!
# A draft is sent once

A claim's row is there from the claim until the call gives it back, and the row of an item is one,
so one call at a time holds a draft, and a call that has submitted its message holds it for good.
-/

namespace Semprec

namespace Mail

variable {s s' : Sends} {t t' : Tables} {c c' : ℕ} {m m' : MailMessage} {call : SendCall}

/-! ## The stored messages -/

theorem stored_ingest {p : Option String} {res : IngestEmailMessageResult}
    (h : ingestEmailMessage t m p = some (res, t')) :
    t' = t ∨ t'.emails = t.emails ++ [m.itemId] ∧ t'.Stored = insert m t.Stored := by
  rcases ingest_cases h with rfl | ⟨thread, olds, u, hm, rfl⟩
  · exact .inl rfl
  · refine .inr ⟨by simp [hm.emails], Set.ext fun v => ?_⟩
    simp only [Tables.Stored, hm.rows, List.mem_append, List.mem_map, List.mem_singleton,
      Set.mem_ofPred_eq, Set.mem_insert_iff]
    constructor
    · rintro ⟨row, ⟨row, hr, rfl⟩ | rfl, rfl⟩
      · exact .inr ⟨row, hr, retarget_message.symm⟩
      · exact .inl rfl
    · rintro (rfl | ⟨row, hr, rfl⟩)
      · exact ⟨_, .inr rfl, rfl⟩
      · exact ⟨_, .inl ⟨row, hr, rfl⟩, retarget_message⟩

theorem stored_claim (hnew : ∀ row ∈ t.mailMessageMeta, row.messageId ≠ m.messageId)
    (h : claimDraft t m = .ok t') : (∀ v ∈ t.Stored, v.itemId ≠ m.itemId) ∧
      t'.emails = t.emails ∧ t'.Stored = insert m t.Stored := by
  obtain ⟨hitem, rfl⟩ := claim_cases hnew h
  refine ⟨?_, rfl, Set.ext fun v => ?_⟩
  · rintro v ⟨row, hr, rfl⟩
    exact hitem row hr
  · simp only [Tables.Stored, List.mem_append, List.mem_singleton, Set.mem_ofPred_eq,
      Set.mem_insert_iff]
    constructor
    · rintro ⟨row, hr | rfl, rfl⟩
      · exact .inr ⟨row, hr, rfl⟩
      · exact .inl rfl
    · rintro (rfl | ⟨row, hr, rfl⟩)
      · exact ⟨_, .inr rfl, rfl⟩
      · exact ⟨row, .inl hr, rfl⟩

theorem mem_stored_delete {itemId : ℕ} :
    m ∈ (t.deleteMailMessageMetaByItemId itemId).Stored ↔ m ∈ t.Stored ∧ m.itemId ≠ itemId := by
  simp only [Tables.Stored, Tables.deleteMailMessageMetaByItemId, List.mem_filter,
    decide_eq_true_eq, Set.mem_ofPred_eq]
  constructor
  · rintro ⟨row, ⟨hr, hne⟩, rfl⟩
    exact ⟨⟨row, hr, rfl⟩, hne⟩
  · rintro ⟨⟨row, hr, rfl⟩, hne⟩
    exact ⟨row, ⟨hr, hne⟩, rfl⟩

/-! ## The invariant -/

def SendCall.message : SendCall → Option MailMessage
  | .preparing _ => none
  | .claimed m | .connected m | .rejected m | .sent m => some m

def Sends.message (s : Sends) (c : ℕ) : Option MailMessage := (s.calls c).bind SendCall.message

def Sends.Holds (s : Sends) (m : MailMessage) : Prop := m ∈ s.submitted ∨ ∃ c, s.message c = some m

structure SendInv (s : Sends) : Prop where
  /-- An item has one row. -/
  item : ∀ u ∈ s.tables.Stored, ∀ v ∈ s.tables.Stored, u.itemId = v.itemId → u = v
  emails : ∀ u ∈ s.tables.Stored, u.itemId ∈ s.tables.emails
  drafts : ∀ c d, s.calls c = some (.preparing d) → d ∈ s.tables.emails
  stored : ∀ m, s.Holds m → m ∈ s.tables.Stored
  calls : ∀ c c' m, s.message c = some m → s.message c' = some m → c = c'
  sent : ∀ c m, m ∈ s.submitted → s.message c = some m → s.calls c = some (.sent m)
  submitted : ∀ c m, s.calls c = some (.sent m) → m ∈ s.submitted
  ids : ∀ m, s.Holds m ∨ m ∈ s.unsent → m.messageId ∈ s.messageIds
  unsent : ∀ m ∈ s.unsent, m.itemId ∈ s.tables.emails
  sound : s.Sound

theorem sendInv_init : SendInv Sends.init where
  item := by simp [Sends.init, Tables.Stored]
  emails := by simp [Sends.init, Tables.Stored]
  drafts := by simp [Sends.init]
  stored := by simp [Sends.init, Sends.Holds, Sends.message]
  calls := by simp [Sends.init, Sends.message]
  sent := by simp [Sends.init]
  submitted := by simp [Sends.init]
  ids := by simp [Sends.init, Sends.Holds, Sends.message]
  unsent := by simp [Sends.init]
  sound := ⟨by simp [Sends.init], by simp [Sends.init]⟩

theorem calls_setCall {v : SendCall} (h : (s.setCall c call).calls c' = some v) :
    c' = c ∧ v = call ∨ c' ≠ c ∧ s.calls c' = some v := by
  simp only [Sends.setCall] at h
  by_cases hc : c' = c
  · rw [hc, Function.update_self, Option.some.injEq] at h
    exact .inl ⟨hc, h.symm⟩
  · rw [Function.update_of_ne hc] at h
    exact .inr ⟨hc, h⟩

theorem calls_endCall {v : SendCall} (h : (s.endCall c).calls c' = some v) :
    c' ≠ c ∧ s.calls c' = some v := by
  simp only [Sends.endCall] at h
  by_cases hc : c' = c
  · rw [hc, Function.update_self] at h
    cases h
  · rw [Function.update_of_ne hc] at h
    exact ⟨hc, h⟩

theorem calls_setCall_of_ne (h : c' ≠ c) : (s.setCall c call).calls c' = s.calls c' :=
  Function.update_of_ne h _ _

theorem calls_endCall_of_ne (h : c' ≠ c) : (s.endCall c).calls c' = s.calls c' :=
  Function.update_of_ne h _ _

theorem message_of_calls (h : s.calls c = some call) : s.message c = call.message := by
  unfold Sends.message
  rw [h, Option.bind_some]

theorem message_setCall (s : Sends) (c c' : ℕ) (call : SendCall) :
    (s.setCall c call).message c' = if c' = c then call.message else s.message c' := by
  split_ifs with h
  · subst h
    exact message_of_calls (Function.update_self ..)
  · unfold Sends.message
    rw [calls_setCall_of_ne h]

theorem message_endCall (h : (s.endCall c).message c' = some m) :
    c' ≠ c ∧ s.message c' = some m := by
  obtain ⟨v, hv, hm⟩ := Option.bind_eq_some_iff.mp h
  obtain ⟨hc, hv⟩ := calls_endCall hv
  exact ⟨hc, (message_of_calls hv).trans hm⟩

theorem message_setCall_of_eq (h : s.message c = call.message) (c' : ℕ) :
    (s.setCall c call).message c' = s.message c' := by
  rw [message_setCall]
  split_ifs with hc
  · rw [hc, h]
  · rfl

theorem holds_setCall (h : s.message c = call.message) :
    (s.setCall c call).Holds m ↔ s.Holds m := by
  unfold Sends.Holds
  simp only [message_setCall_of_eq h]
  rfl

theorem SendInv.setCall (hi : SendInv s) (h : s.message c = call.message)
    (hd : ∀ d, call = .preparing d → d ∈ s.tables.emails)
    (hs : ∀ m, m ∈ s.submitted → call.message = some m → call = .sent m)
    (hsub : ∀ m, call = .sent m → m ∈ s.submitted) : SendInv (s.setCall c call) := by
  have hm := message_setCall_of_eq h
  refine ⟨hi.item, hi.emails, fun c' d hcd => ?_, fun m hh => hi.stored m ((holds_setCall h).mp hh),
    fun c₁ c₂ m h₁ h₂ => hi.calls c₁ c₂ m ((hm c₁).symm.trans h₁) ((hm c₂).symm.trans h₂),
    fun c' m hsm hcm => ?_, fun c' m hcm => ?_,
    fun m hh => hi.ids m (hh.imp_left (holds_setCall h).mp), hi.unsent, ⟨hi.sound.1, hi.sound.2⟩⟩
  · rcases calls_setCall hcd with ⟨-, rfl⟩ | ⟨-, hcd⟩
    · exact hd d rfl
    · exact hi.drafts c' d hcd
  · rw [hm] at hcm
    by_cases hc : c' = c
    · subst hc
      rw [← hs m hsm (h ▸ hcm)]
      exact Function.update_self ..
    · rw [calls_setCall_of_ne hc]
      exact hi.sent c' m hsm hcm
  · rcases calls_setCall hcm with ⟨-, rfl⟩ | ⟨-, hcm⟩
    · exact hsub m rfl
    · exact hi.submitted c' m hcm

theorem SendInv.endCall (hi : SendInv s) : SendInv (s.endCall c) := by
  have hholds : ∀ m, (s.endCall c).Holds m → s.Holds m := fun m hh =>
    hh.imp_right fun ⟨c', hc'⟩ => ⟨c', (message_endCall hc').2⟩
  refine ⟨hi.item, hi.emails, fun c' d hcd => hi.drafts c' d (calls_endCall hcd).2,
    fun m hh => hi.stored m (hholds m hh),
    fun c₁ c₂ m h₁ h₂ => hi.calls c₁ c₂ m (message_endCall h₁).2 (message_endCall h₂).2,
    fun c' m hsm hcm => ?_, fun c' m hcm => hi.submitted c' m (calls_endCall hcm).2,
    fun m hh => hi.ids m (hh.imp_left (hholds m)), hi.unsent, ⟨hi.sound.1, hi.sound.2⟩⟩
  obtain ⟨hc, hcm⟩ := message_endCall hcm
  rw [calls_endCall_of_ne hc]
  exact hi.sent c' m hsm hcm

/-- The tables change, and keep the messages that are held and no other. -/
theorem SendInv.setTables (hi : SendInv s)
    (hitem : ∀ u ∈ t.Stored, ∀ v ∈ t.Stored, u.itemId = v.itemId → u = v)
    (hemails : ∀ u ∈ t.Stored, u.itemId ∈ t.emails)
    (hgrow : ∀ i ∈ s.tables.emails, i ∈ t.emails)
    (hstored : ∀ m, s.Holds m → m ∈ t.Stored) (hunsent : ∀ m ∈ s.unsent, m ∉ t.Stored) :
    SendInv { s with tables := t } :=
  ⟨hitem, hemails, fun c d hcd => hgrow d (hi.drafts c d hcd), hstored, hi.calls, hi.sent,
    hi.submitted, hi.ids, fun m hm => hgrow _ (hi.unsent m hm), hi.sound.1, hunsent⟩

theorem SendInv.insert (hi : SendInv s) (hnew : ∀ v ∈ s.tables.Stored, v.itemId ≠ m.itemId)
    (hstored : t.Stored = insert m s.tables.Stored) (hmem : m.itemId ∈ t.emails)
    (hgrow : ∀ i ∈ s.tables.emails, i ∈ t.emails) (hunsent : m ∉ s.unsent) :
    SendInv { s with tables := t } := by
  refine hi.setTables ?_ ?_ hgrow ?_ ?_
  · rw [hstored]
    rintro u (rfl | hu) v (rfl | hv) h
    · rfl
    · exact absurd h.symm (hnew v hv)
    · exact absurd h (hnew u hu)
    · exact hi.item u hu v hv h
  · rw [hstored]
    rintro u (rfl | hu)
    · exact hmem
    · exact hgrow _ (hi.emails u hu)
  · rw [hstored]
    exact fun v hv => .inr (hi.stored v hv)
  · rw [hstored]
    rintro v hv (rfl | h)
    · exact hunsent hv
    · exact hi.sound.released v hv h

/-! ## The steps -/

theorem SendInv.ingest (hi : SendInv s) {p : Option String} {res : IngestEmailMessageResult}
    (hnew : m.itemId ∉ s.tables.emails) (h : ingestEmailMessage s.tables m p = some (res, t)) :
    SendInv { s with tables := t } := by
  rcases stored_ingest h with rfl | ⟨hemails, hstored⟩
  · exact hi
  · refine hi.insert (fun v hv hvm => hnew (hvm ▸ hi.emails v hv)) hstored ?_ ?_
      fun hm => hnew (hi.unsent m hm)
    · rw [hemails]
      exact List.mem_append_right _ List.mem_cons_self
    · rw [hemails]
      exact fun i hi' => List.mem_append_left _ hi'

theorem SendInv.claim (hi : SendInv s) (hc : s.calls c = some (.preparing m.itemId))
    (hid : m.messageId ∉ s.messageIds)
    (hnew : ∀ row ∈ s.tables.mailMessageMeta, row.messageId ≠ m.messageId)
    (h : claimDraft s.tables m = .ok t) :
    SendInv ({ s with tables := t, messageIds := m.messageId :: s.messageIds }.setCall c
      (.claimed m)) := by
  obtain ⟨hitem, hemails, hstored⟩ := stored_claim hnew h
  have hdraft := hi.drafts c _ hc
  have hfresh : ¬ s.Holds m := fun hh => hid (hi.ids m (.inl hh))
  have hi' : SendInv { s with tables := t } :=
    hi.insert hitem hstored (hemails ▸ hdraft) (fun i h => hemails ▸ h)
      fun hm => hid (hi.ids m (.inr hm))
  have hmsg : ∀ c' v, ({ s with tables := t, messageIds := m.messageId :: s.messageIds }.setCall c
      (.claimed m)).message c' = some v → c' = c ∧ v = m ∨ c' ≠ c ∧ s.message c' = some v :=
    fun c' v hv => by
      rw [message_setCall] at hv
      split_ifs at hv with hcc
      · exact .inl ⟨hcc, (Option.some.inj hv).symm⟩
      · exact .inr ⟨hcc, hv⟩
  have hholds : ∀ v, ({ s with tables := t, messageIds := m.messageId :: s.messageIds }.setCall c
      (.claimed m)).Holds v → v = m ∨ s.Holds v := by
    rintro v (hv | ⟨c', hv⟩)
    · exact .inr (.inl hv)
    · rcases hmsg c' v hv with ⟨-, rfl⟩ | ⟨-, hv⟩
      · exact .inl rfl
      · exact .inr (.inr ⟨c', hv⟩)
  refine ⟨hi'.item, hi'.emails, fun c' d hcd => ?_, fun v hv => ?_, fun c₁ c₂ v h₁ h₂ => ?_,
    fun c' v hsv hcv => ?_, fun c' v hcv => ?_, fun v hv => ?_, hi'.unsent, hi'.sound.1,
    hi'.sound.2⟩
  · rcases calls_setCall hcd with ⟨-, hd⟩ | ⟨-, hcd⟩
    · cases hd
    · exact hi'.drafts c' d hcd
  · rcases hholds v hv with rfl | hv
    · exact hstored ▸ Set.mem_insert _ _
    · exact hi'.stored v hv
  · rcases hmsg c₁ v h₁ with ⟨rfl, rfl⟩ | hother
    · rcases hmsg c₂ _ h₂ with ⟨rfl, -⟩ | ⟨-, hother⟩
      · rfl
      · exact absurd (.inr ⟨c₂, hother⟩) hfresh
    · rcases hmsg c₂ v h₂ with ⟨-, rfl⟩ | ⟨-, hother'⟩
      · exact absurd (.inr ⟨c₁, hother.2⟩) hfresh
      · exact hi.calls c₁ c₂ v hother.2 hother'
  · rcases hmsg c' v hcv with ⟨-, rfl⟩ | ⟨hcc, hcv⟩
    · exact absurd (.inl hsv) hfresh
    · exact (Function.update_of_ne hcc _ _).trans (hi.sent c' v hsv hcv)
  · rcases calls_setCall hcv with ⟨-, hd⟩ | ⟨-, hcv⟩
    · cases hd
    · exact hi.submitted c' v hcv
  · rcases hv with hv | hv
    · rcases hholds v hv with rfl | hv
      · exact List.mem_cons_self
      · exact List.mem_cons_of_mem _ (hi.ids v (.inl hv))
    · exact List.mem_cons_of_mem _ (hi.ids v (.inr hv))

theorem SendInv.not_submitted (hi : SendInv s) (hc : s.calls c = some call)
    (hm : call.message = some m) (hne : call ≠ .sent m) :
    ∀ v ∈ s.submitted, v.itemId ≠ m.itemId := by
  intro v hv hvm
  have hcm : s.message c = some m := (message_of_calls hc).trans hm
  have heq : v = m := hi.item v (hi.stored v (.inl hv)) m (hi.stored m (.inr ⟨c, hcm⟩)) hvm
  have := hi.sent c m (heq ▸ hv) hcm
  rw [hc, Option.some.injEq] at this
  exact hne this

theorem SendInv.sendMail (hi : SendInv s) (hc : s.calls c = some (.connected m)) :
    SendInv { s.setCall c (.sent m) with submitted := s.submitted ++ [m] } := by
  have hnot := hi.not_submitted hc rfl (by simp)
  have hcm : s.message c = some m := message_of_calls hc
  have hmsg : ∀ c', (s.setCall c (.sent m)).message c' = s.message c' :=
    message_setCall_of_eq hcm
  have hholds : ∀ v, ({ s.setCall c (.sent m) with submitted := s.submitted ++ [m] } :
      Sends).Holds v → s.Holds v := by
    rintro v (hv | ⟨c', hv⟩)
    · rcases List.mem_append.mp hv with hv | hv
      · exact .inl hv
      · exact List.mem_singleton.mp hv ▸ .inr ⟨c, hcm⟩
    · exact .inr ⟨c', (hmsg c').symm.trans hv⟩
  refine ⟨hi.item, hi.emails, fun c' d hcd => ?_, fun v hv => hi.stored v (hholds v hv),
    fun c₁ c₂ v h₁ h₂ => hi.calls c₁ c₂ v ((hmsg c₁).symm.trans h₁) ((hmsg c₂).symm.trans h₂),
    fun c' v hsv hcv => ?_, fun c' v hcv => ?_, fun v hv => hi.ids v (hv.imp_left (hholds v)),
    hi.unsent, ?_, hi.sound.2⟩
  · by_cases hcc : c' = c
    · subst hcc
      simp [Sends.setCall] at hcd
    · exact hi.drafts c' d ((Function.update_of_ne hcc _ _).symm.trans hcd)
  · have hcv' : s.message c' = some v := (hmsg c').symm.trans hcv
    by_cases hcc : c' = c
    · subst hcc
      rw [hcm, Option.some.injEq] at hcv'
      simp [Sends.setCall, hcv']
    · rcases List.mem_append.mp hsv with hsv | hsv
      · exact (Function.update_of_ne hcc _ _).trans (hi.sent c' v hsv hcv')
      · exact absurd (hi.calls c' c m (List.mem_singleton.mp hsv ▸ hcv') hcm) hcc
  · by_cases hcc : c' = c
    · subst hcc
      simp only [Sends.setCall, Function.update_self, Option.some.injEq, SendCall.sent.injEq] at hcv
      exact hcv ▸ List.mem_append_right _ List.mem_cons_self
    · exact List.mem_append_left _
        (hi.submitted c' v ((Function.update_of_ne hcc _ _).symm.trans hcv))
  · rw [List.map_append, List.nodup_append]
    refine ⟨hi.sound.1, List.nodup_singleton _, ?_⟩
    rintro i hi' j hj rfl
    obtain ⟨v, hv, rfl⟩ := List.mem_map.mp hi'
    exact hnot v hv (by simpa using hj)

theorem SendInv.releaseClaim (hi : SendInv s) (hc : s.calls c = some (.rejected m)) :
    SendInv { s.endCall c with
      tables := s.tables.deleteMailMessageMetaByItemId m.itemId
      unsent := s.unsent ++ [m] } := by
  have hnot := hi.not_submitted hc rfl (by simp)
  have hcm : s.message c = some m := message_of_calls hc
  have hmem : m ∈ s.tables.Stored := hi.stored m (.inr ⟨c, hcm⟩)
  have hholds : ∀ v, (s.endCall c).Holds v → s.Holds v ∧ v.itemId ≠ m.itemId := by
    rintro v (hv | ⟨c', hv⟩)
    · exact ⟨.inl hv, hnot v hv⟩
    · obtain ⟨hcc, hv⟩ := message_endCall hv
      refine ⟨.inr ⟨c', hv⟩, fun hvm => hcc ?_⟩
      have heq := hi.item v (hi.stored v (.inr ⟨c', hv⟩)) m hmem hvm
      exact hi.calls c' c m (heq ▸ hv) hcm
  refine ⟨fun u hu v hv => hi.item u (mem_stored_delete.mp hu).1 v (mem_stored_delete.mp hv).1,
    fun u hu => hi.emails u (mem_stored_delete.mp hu).1,
    fun c' d hcd => hi.drafts c' d (calls_endCall hcd).2,
    fun v hv => mem_stored_delete.mpr ⟨hi.stored v (hholds v hv).1, (hholds v hv).2⟩,
    fun c₁ c₂ v h₁ h₂ => hi.calls c₁ c₂ v (message_endCall h₁).2 (message_endCall h₂).2,
    fun c' v hsv hcv => ?_, fun c' v hcv => hi.submitted c' v (calls_endCall hcv).2,
    fun v hv => ?_, fun v hv => ?_, hi.sound.1, fun v hv => ?_⟩
  · obtain ⟨hcc, hcv⟩ := message_endCall hcv
    exact (Function.update_of_ne hcc _ _).trans (hi.sent c' v hsv hcv)
  · rcases hv with hv | hv
    · exact hi.ids v (.inl (hholds v hv).1)
    · rcases List.mem_append.mp hv with hv | hv
      · exact hi.ids v (.inr hv)
      · exact List.mem_singleton.mp hv ▸ hi.ids m (.inl (.inr ⟨c, hcm⟩))
  · rcases List.mem_append.mp hv with hv | hv
    · exact hi.unsent v hv
    · exact List.mem_singleton.mp hv ▸ hi.emails m hmem
  · intro hdel
    obtain ⟨hst, hne⟩ := mem_stored_delete.mp hdel
    rcases List.mem_append.mp hv with hv | hv
    · exact hi.sound.released v hv hst
    · exact hne (List.mem_singleton.mp hv ▸ rfl)

theorem sendInv_step (hi : SendInv s) {a : SendAct} (hok : SmtpClientCreated s a)
    (h : sendStep s a = some s') : SendInv s' := by
  cases a with
  | createDraft itemId =>
    simp only [sendStep] at h
    split_ifs at h with hd
    cases h
    exact hi.setTables hi.item (fun u hu => List.mem_append_left _ (hi.emails u hu))
      (fun i h => List.mem_append_left _ h) hi.stored hi.sound.released
  | ingest m p =>
    simp only [sendStep] at h
    split_ifs at h with hnew
    obtain ⟨⟨res, t⟩, hres, rfl⟩ := Option.map_eq_some_iff.mp h
    exact hi.ingest hnew hres
  | call c d =>
    simp only [sendStep] at h
    split_ifs at h with hc hd
    · cases h
      refine hi.setCall ?_ (fun d' h => ?_) (fun m _ h => ?_) fun m h => ?_
      · unfold Sends.message
        rw [hc]
        rfl
      · cases h
        exact hd
      · cases h
      · cases h
    · cases h
      exact hi
  | prepareFails c =>
    simp only [sendStep] at h
    split at h
    · next hc =>
      cases h
      exact hi.endCall
    · cases h
  | claim c m =>
    simp only [sendStep] at h
    split_ifs at h with hc
    obtain ⟨hc, hid, hnew⟩ := hc
    split at h
    · next t ht =>
      cases h
      exact hi.claim hc hid hnew ht
    · cases h
      exact { hi.endCall with
        ids := fun v hv => List.mem_cons_of_mem _ (hi.endCall.ids v hv)
        sound := ⟨hi.sound.1, hi.sound.2⟩ }
  | createSmtpClient c | sendMailFails c =>
    simp only [sendStep] at h
    split at h
    · next m hc =>
      cases h
      have hcm : s.message c = some m := message_of_calls hc
      refine hi.setCall hcm (fun d h => nomatch h) (fun v hv hvm => ?_) fun v h => nomatch h
      cases hvm
      exact absurd rfl (hi.not_submitted hc rfl (by simp) m hv)
    · cases h
  | createSmtpClientFails c => exact absurd hok id
  | sendMail c =>
    simp only [sendStep] at h
    split at h
    · next m hc =>
      cases h
      exact hi.sendMail hc
    · cases h
  | releaseClaim c =>
    simp only [sendStep] at h
    split at h
    · next m hc =>
      cases h
      exact hi.releaseClaim hc
    · cases h
  | finalize c =>
    simp only [sendStep] at h
    split at h
    · next m hc =>
      cases h
      exact hi.endCall
    · cases h

/-- While every claimed draft gets its SMTP client, a draft is sent once at most and no call that
sends nothing leaves its claim behind. -/
theorem sound_of_clientCreated : ∀ s, Reach sendStep SmtpClientCreated Sends.init s → s.Sound :=
  fun _ h => (h.invariant sendInv_init fun _ _ _ hi hok hs => sendInv_step hi hok hs).sound

def claimedDraft : MailMessage := ⟨1, 0, "new@semprec", none, []⟩

def resend : List SendAct :=
  [.createDraft 1, .call 0 1, .claim 0 claimedDraft, .createSmtpClient 0, .sendMailFails 0,
    .releaseClaim 0, .call 1 1, .claim 1 { claimedDraft with messageId := "again@semprec" },
    .createSmtpClient 1, .sendMail 1, .finalize 1]

def clientCreatedCheck (_ : Sends) : SendAct → Bool
  | .createSmtpClientFails _ => false
  | _ => true

theorem clientCreated_of_check (s : Sends) (a : SendAct) (h : clientCreatedCheck s a = true) :
    SmtpClientCreated s a := by
  cases a with
  | createSmtpClientFails c => cases h
  | _ => trivial

theorem resend_sound : ∃ s, runActs sendStep .init resend = some s ∧
    s.submitted = [{ claimedDraft with messageId := "again@semprec" }] ∧ s.Sound := by
  obtain ⟨s, hs⟩ := Option.isSome_iff_exists.mp (show
    (runChecked sendStep clientCreatedCheck .init resend).isSome = true by decide +kernel)
  exact ⟨s, runActs_of_runChecked hs,
    eq_of_map_eq (f := fun s => s.submitted) hs (by decide +kernel),
    sound_of_clientCreated s (.of_runChecked clientCreated_of_check hs)⟩

def stuck : List SendAct :=
  [.createDraft 1, .call 0 1, .claim 0 claimedDraft, .createSmtpClientFails 0, .call 1 1,
    .claim 1 { claimedDraft with messageId := "again@semprec" }]

theorem stuck_not_sound : ∃ s, Reach sendStep (fun _ _ => True) Sends.init s ∧
    s.submitted = [] ∧ s.calls 1 = none ∧ ¬ s.Sound := by
  obtain ⟨s, hs⟩ := Option.isSome_iff_exists.mp (show
    (runActs sendStep .init stuck).isSome = true by decide +kernel)
  have hunsent : s.unsent = [claimedDraft] :=
    eq_of_map_eq (f := fun s => s.unsent) hs (by decide +kernel)
  have hrows : s.tables.mailMessageMeta = [⟨claimedDraft, none, none⟩] :=
    eq_of_map_eq (f := fun s => s.tables.mailMessageMeta) hs (by decide +kernel)
  refine ⟨s, .of_runActs hs, eq_of_map_eq (f := fun s => s.submitted) hs (by decide +kernel),
    eq_of_map_eq (f := fun s => s.calls 1) hs (by decide +kernel), fun h => ?_⟩
  exact h.released claimedDraft (by simp [hunsent]) ⟨⟨claimedDraft, none, none⟩, by simp [hrows], rfl⟩

end Mail

end Semprec
