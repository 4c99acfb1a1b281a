import Mathlib.Data.List.Nodup
import Mathlib.Order.BooleanAlgebra.Set
import Semprec.Lib.Components
import Semprec.Lib.Runs
import Semprec.MailThreads

/-!
# Threads are the components of the received messages

`resolveThreadId` brings the threads around a new message together (`resolveThreadId_eq`), which is
what keeps the labels of a graph's components up to date.  A sent message has no thread, so the
threads are those of all the stored messages exactly when no sent one has a neighbour.
-/

namespace Semprec

namespace Mail

variable {t t' : Tables} {s s' : Sys} {m u v : MailMessage} {row row' : MailMessageMetaRow}
  {thread target : ℕ} {olds : List ℕ} {p : Option String}

/-! ## Merging threads -/

def retarget (olds : List ℕ) (target : ℕ) (row : MailMessageMetaRow) : MailMessageMetaRow :=
  if row.threadId.any (· ∈ olds) then { row with threadId := some target } else row

@[simp] theorem retarget_message : (retarget olds target row).toMailMessage = row.toMailMessage := by
  unfold retarget
  split <;> rfl

theorem retarget_threadId : (retarget olds target row).threadId =
    if row.threadId.any (· ∈ olds) then some target else row.threadId := by
  unfold retarget
  split <;> rfl

theorem retarget_nil : retarget [] target row = row := by
  cases h : row.threadId <;> simp [retarget, h]

theorem retarget_eq_none : (retarget olds target row).threadId = none ↔ row.threadId = none := by
  cases h : row.threadId with
  | none => simp [retarget, h]
  | some th =>
    by_cases ho : th ∈ olds
    · simp [retarget, h, ho]
    · simp [retarget, h, ho]

theorem retarget_cons (other : ℕ) (ht : target ∉ olds) :
    retarget olds target (if row.threadId = some other then { row with threadId := some target }
      else row) = retarget (other :: olds) target row := by
  cases h : row.threadId with
  | none => simp [retarget, h]
  | some th =>
    by_cases hto : th = other
    · simp [retarget, h, hto, ht]
    · by_cases ho : th ∈ olds
      · simp [retarget, h, hto, ho]
      · simp [retarget, h, hto, ho]

theorem foldl_reassignThread (ht : target ∉ olds) :
    (olds.foldl (fun t other => t.reassignThread other target) t) = { t with
      mailMessageMeta := t.mailMessageMeta.map (retarget olds target)
      mailThreads := t.mailThreads.filter (· ∉ olds) } := by
  induction olds generalizing t with
  | nil =>
    have hid : retarget [] target = id := funext fun row => retarget_nil
    simp [hid]
  | cons other rest ih =>
    have hrest : target ∉ rest := fun h => ht (List.mem_cons_of_mem _ h)
    rw [List.foldl_cons, ih hrest]
    unfold Tables.reassignThread
    simp only [List.map_map, List.filter_filter, Tables.mk.injEq, true_and, and_true]
    refine ⟨List.map_congr_left fun row _ => retarget_cons other hrest,
      List.filter_congr fun th _ => ?_⟩
    simp [Bool.and_comm]

theorem mem_ancestorIds {id : String} :
    id ∈ ancestorIds m ↔ (m.inReplyTo = some id ∨ id ∈ m.references) ∧ id ≠ "" := by
  unfold ancestorIds
  rw [List.mem_eraseDups]
  simp [or_and_right]

theorem mem_foundThreadIds : thread ∈ foundThreadIds t m ↔ ∃ row ∈ t.mailMessageMeta,
    ((Names m row.toMailMessage ∧ row.messageId ≠ "") ∨ Names row.toMailMessage m) ∧
      row.threadId = some thread := by
  unfold foundThreadIds threadedRows Names
  rw [List.mem_eraseDups]
  simp only [List.mem_filterMap, List.mem_append, List.mem_filter, decide_eq_true_eq,
    mem_ancestorIds]
  constructor
  · rintro ⟨row, ⟨hr, h⟩ | ⟨hr, h⟩, ht⟩
    · exact ⟨row, hr, .inl h, ht⟩
    · exact ⟨row, hr, .inr h, ht⟩
  · rintro ⟨row, hr, h | h, ht⟩
    · exact ⟨row, .inl ⟨hr, h⟩, ht⟩
    · exact ⟨row, .inr ⟨hr, h⟩, ht⟩

/-- What `resolveThreadId` does: `olds` are merged into `thread`, which is new if no thread was
found. -/
structure Merges (t : Tables) (m : MailMessage) (thread : ℕ) (olds : List ℕ) (t' : Tables) :
    Prop where
  rows : t'.mailMessageMeta = t.mailMessageMeta.map (retarget olds thread)
  emails : t'.emails = t.emails
  found : ∀ th ∈ foundThreadIds t m, th = thread ∨ th ∈ olds
  merged : ∀ th ∈ olds, th ∈ foundThreadIds t m ∧ th ≠ thread
  target : thread ∈ foundThreadIds t m ∨ (foundThreadIds t m = [] ∧ thread = t.threadSeq)
  threads : ∀ th, th ∈ t'.mailThreads ↔
    (th ∈ t.mailThreads ∧ th ∉ olds) ∨ (foundThreadIds t m = [] ∧ th = thread)
  seq : t.threadSeq ≤ t'.threadSeq ∧ (foundThreadIds t m = [] → thread < t'.threadSeq)

theorem merges_resolveThreadId (t : Tables) (m : MailMessage) :
    ∃ olds, Merges t m (resolveThreadId t m).1 olds (resolveThreadId t m).2 := by
  unfold resolveThreadId
  cases hf : foundThreadIds t m with
  | nil =>
    have hid : retarget [] t.threadSeq = id := funext fun row => retarget_nil
    refine ⟨[], ?_⟩
    constructor
    · simp [Tables.createMailThread, hid]
    · rfl
    · simp [hf]
    · simp
    · exact .inr ⟨hf, rfl⟩
    · simp [Tables.createMailThread, hf]
    · exact ⟨Nat.le_succ _, fun _ => Nat.lt_succ_self _⟩
  | cons first rest =>
    have hfirst : first ∉ rest := by
      unfold foundThreadIds at hf
      generalize (threadedRows t m).filterMap (·.threadId) = ids at hf
      cases ids with
      | nil => cases hf
      | cons a as =>
        rw [List.eraseDups_cons] at hf
        cases hf
        rw [List.mem_eraseDups]
        simp
    refine ⟨rest, ?_⟩
    simp only [foldl_reassignThread hfirst]
    constructor
    · rfl
    · rfl
    · rw [hf]
      exact fun th hth => List.mem_cons.mp hth
    · rw [hf]
      exact fun th hth => ⟨List.mem_cons_of_mem _ hth, fun h => hfirst (h ▸ hth)⟩
    · rw [hf]
      exact .inl List.mem_cons_self
    · simp [hf]
    · simp [hf]

/-! ## Ingesting -/

def Stores (t : Tables) (m : MailMessage) (p : Option String) (t' : Tables) : Prop :=
  ∃ thread olds u, Merges t m thread olds u ∧
    t' = { u with
      emails := u.emails ++ [m.itemId]
      mailMessageMeta := u.mailMessageMeta ++ [⟨m, some thread, p⟩] }

theorem ingest_cases {res : IngestEmailMessageResult}
    (h : ingestEmailMessage t m p = some (res, t')) : t' = t ∨ Stores t m p t' := by
  unfold ingestEmailMessage at h
  cases hg : t.getMailMessageMetaByMailboxAndMessageId m.mailboxItemId m.messageId with
  | some existing =>
    simp only [hg, Option.some.injEq, Prod.mk.injEq] at h
    exact .inl h.2.symm
  | none =>
    obtain ⟨olds, hm⟩ := merges_resolveThreadId t m
    simp only [hg] at h
    generalize resolveThreadId t m = q at h hm
    obtain ⟨thread, u⟩ := q
    simp only at h hm
    have hnone : ({ u with emails := u.emails ++ [m.itemId] } :
        Tables).getMailMessageMetaByMailboxAndMessageId m.mailboxItemId m.messageId = none := by
      unfold Tables.getMailMessageMetaByMailboxAndMessageId at hg ⊢
      rw [List.find?_eq_none] at hg ⊢
      intro row hr
      have hr' : row ∈ t.mailMessageMeta.map (retarget olds thread) := hm.rows ▸ hr
      obtain ⟨row, hmem, rfl⟩ := List.mem_map.mp hr'
      have hmb : (retarget olds thread row).mailboxItemId = row.mailboxItemId :=
        congrArg MailMessage.mailboxItemId retarget_message
      have hmi : (retarget olds thread row).messageId = row.messageId :=
        congrArg MailMessage.messageId retarget_message
      rw [hmb, hmi]
      exact hg row hmem
    unfold upsertMailMessageMeta at h
    simp only [hnone] at h
    split_ifs at h
    · cases hw : p.bind t.getMailMessageMetaByProviderMessageId with
      | none =>
        rw [hw] at h
        cases h
      | some winner =>
        rw [hw] at h
        cases h
        exact .inl rfl
    · simp only [Option.some.injEq, Prod.mk.injEq] at h
      exact .inr ⟨thread, olds, u, hm, h.2.symm⟩

theorem claim_cases (hnew : ∀ row ∈ t.mailMessageMeta, row.messageId ≠ m.messageId)
    (h : claimDraft t m = .ok t') : (∀ row ∈ t.mailMessageMeta, row.itemId ≠ m.itemId) ∧
      t' = { t with mailMessageMeta := t.mailMessageMeta ++ [⟨m, none, none⟩] } := by
  have hnone : t.getMailMessageMetaByMailboxAndMessageId m.mailboxItemId m.messageId = none := by
    unfold Tables.getMailMessageMetaByMailboxAndMessageId
    rw [List.find?_eq_none]
    intro row hr
    simp [hnew row hr]
  unfold claimDraft upsertMailMessageMeta at h
  simp only [hnone] at h
  split_ifs at h with hp
  cases h
  refine ⟨fun row hr heq => hp ?_, rfl⟩
  rw [List.any_eq_true]
  exact ⟨row, hr, by simp [heq]⟩

/-! ## The invariant -/

def Tables.Threaded (t : Tables) : Set MailMessage :=
  {m | ∃ row ∈ t.mailMessageMeta, row.toMailMessage = m ∧ row.threadId ≠ none}

def Tables.threadOf (t : Tables) (m : MailMessage) : Option ℕ :=
  (t.mailMessageMeta.find? fun row => row.toMailMessage = m).bind (·.threadId)

structure Inv (s : Sys) : Prop where
  ids : (s.tables.mailMessageMeta.map (·.itemId)).Nodup
  emails : ∀ row ∈ s.tables.mailMessageMeta, row.itemId ∈ s.tables.emails
  drafts : ∀ i, i ∈ s.sending ∨ i ∈ s.sent → i ∈ s.tables.emails
  unthreaded : ∀ row ∈ s.tables.mailMessageMeta,
    row.threadId = none ↔ row.itemId ∈ s.sending ∨ row.itemId ∈ s.sent
  threads : ∀ row ∈ s.tables.mailMessageMeta, ∀ th, row.threadId = some th →
    th ∈ s.tables.mailThreads
  seq : ∀ th ∈ s.tables.mailThreads, th < s.tables.threadSeq
  nonempty : s.tables.NoEmptyThread

theorem inv_init : Inv Sys.init where
  ids := List.nodup_nil
  emails := by simp [Sys.init]
  drafts := by simp [Sys.init]
  unthreaded := by simp [Sys.init]
  threads := by simp [Sys.init]
  seq := by simp [Sys.init]
  nonempty := by simp [Sys.init, Tables.NoEmptyThread]

theorem row_unique (hids : (t.mailMessageMeta.map (·.itemId)).Nodup) (hr : row ∈ t.mailMessageMeta)
    (hr' : row' ∈ t.mailMessageMeta) (h : row.itemId = row'.itemId) : row = row' :=
  List.inj_on_of_nodup_map hids hr hr' h

theorem threadOf_eq (hids : (t.mailMessageMeta.map (·.itemId)).Nodup)
    (hr : row ∈ t.mailMessageMeta) : t.threadOf row.toMailMessage = row.threadId := by
  unfold Tables.threadOf
  cases hf : t.mailMessageMeta.find? fun r => r.toMailMessage = row.toMailMessage with
  | none =>
    rw [List.find?_eq_none] at hf
    exact absurd (decide_eq_true rfl) (hf row hr)
  | some r =>
    have hrm : r.toMailMessage = row.toMailMessage := by simpa using List.find?_some hf
    have hmem : r ∈ t.mailMessageMeta := List.mem_of_find?_eq_some hf
    rw [row_unique hids hmem hr (congrArg MailMessage.itemId hrm)]
    rfl

theorem mem_threaded (hr : row ∈ t.mailMessageMeta) (h : row.threadId = some thread) :
    row.toMailMessage ∈ t.Threaded := ⟨row, hr, rfl, by simp [h]⟩

/-! ## Storing a message -/

section Store

variable (hi : Inv s) (hnew : m.itemId ∉ s.tables.emails) (hm : Merges s.tables m thread olds t)

include hi in
theorem found_mem {th : ℕ} (h : th ∈ foundThreadIds s.tables m) : th ∈ s.tables.mailThreads := by
  obtain ⟨row, hr, -, ht⟩ := mem_foundThreadIds.mp h
  exact hi.threads row hr th ht

include hi hnew hm in
theorem inv_store : Inv { s with tables := { t with
    emails := t.emails ++ [m.itemId]
    mailMessageMeta := t.mailMessageMeta ++ [⟨m, some thread, p⟩] } } := by
  have hitem : ∀ row ∈ s.tables.mailMessageMeta, row.itemId ≠ m.itemId :=
    fun row hr h => hnew (h ▸ hi.emails row hr)
  have hret : ∀ row, (retarget olds thread row).itemId = row.itemId :=
    fun row => congrArg MailMessage.itemId retarget_message
  have hthread : thread ∈ t.mailThreads := by
    rw [hm.threads]
    rcases hm.target with ht | ht
    · exact .inl ⟨found_mem hi ht, fun h => (hm.merged _ h).2 rfl⟩
    · exact .inr ⟨ht.1, rfl⟩
  constructor
  · simp only [hm.rows, List.map_append, List.map_map, List.map_cons, List.map_nil]
    have hcomp : ((fun row : MailMessageMetaRow => row.itemId) ∘ retarget olds thread) =
        fun row => row.itemId := funext hret
    rw [hcomp, List.nodup_append]
    refine ⟨hi.ids, by simp, ?_⟩
    intro i hi' j hj hij
    obtain ⟨row, hr, rfl⟩ := List.mem_map.mp hi'
    exact hitem row hr (hij.trans (List.mem_singleton.mp hj))
  · intro row hr
    simp only [hm.emails, hm.rows, List.mem_append, List.mem_map, List.mem_singleton] at hr ⊢
    rcases hr with ⟨row, hr, rfl⟩ | rfl
    · rw [hret]
      exact .inl (hi.emails row hr)
    · exact .inr rfl
  · intro i h
    simp only [hm.emails, List.mem_append]
    exact .inl (hi.drafts i h)
  · intro row hr
    simp only [hm.rows, List.mem_append, List.mem_map, List.mem_singleton] at hr
    rcases hr with ⟨row, hr, rfl⟩ | rfl
    · rw [hret, retarget_eq_none]
      exact hi.unthreaded row hr
    · exact ⟨fun h => (nomatch h), fun h => absurd (hi.drafts _ h) hnew⟩
  · intro row hr th hth
    simp only [hm.rows, List.mem_append, List.mem_map, List.mem_singleton] at hr
    rcases hr with ⟨row, hr, rfl⟩ | rfl
    · rw [retarget_threadId] at hth
      split_ifs at hth with ho
      · cases hth
        exact hthread
      · rw [hth] at ho
        exact (hm.threads th).mpr (.inl ⟨hi.threads row hr th hth, by simpa using ho⟩)
    · cases hth
      exact hthread
  · intro th hth
    rcases (hm.threads th).mp hth with ⟨h, -⟩ | ⟨h, rfl⟩
    · exact lt_of_lt_of_le (hi.seq th h) hm.seq.1
    · exact hm.seq.2 h
  · intro th hth
    simp only [hm.rows]
    rcases (hm.threads th).mp hth with ⟨h, ho⟩ | ⟨-, rfl⟩
    · obtain ⟨row, hr, hrt⟩ := hi.nonempty th h
      refine ⟨retarget olds thread row, List.mem_append_left _ (List.mem_map_of_mem hr), ?_⟩
      rw [retarget_threadId, hrt]
      simp [ho]
    · exact ⟨_, List.mem_append_right _ List.mem_cons_self, rfl⟩

include hi in
theorem mem_around (hblank : (m.inReplyTo = some "" ∨ "" ∈ m.references) →
      ∀ u ∈ s.tables.Stored, u.messageId ≠ "") {th : ℕ} :
    some th ∈ Components.Around Names s.tables.Threaded s.tables.threadOf m ↔
      th ∈ foundThreadIds s.tables m := by
  rw [mem_foundThreadIds]
  constructor
  · rintro ⟨u, ⟨row, hr, rfl, -⟩, hn, hf⟩
    rw [threadOf_eq hi.ids hr] at hf
    refine ⟨row, hr, hn.imp_left fun hn => ⟨hn, fun hid => ?_⟩, hf⟩
    unfold Names at hn
    rw [hid] at hn
    exact hblank hn row.toMailMessage ⟨row, hr, rfl⟩ hid
  · rintro ⟨row, hr, hn, ht⟩
    exact ⟨row.toMailMessage, mem_threaded hr ht, hn.imp_left And.left,
      (threadOf_eq hi.ids hr).trans ht⟩

include hi hnew hm in
theorem labels_store (hblank : (m.inReplyTo = some "" ∨ "" ∈ m.references) →
      ∀ u ∈ s.tables.Stored, u.messageId ≠ "")
    (hl : Components.Labels Names s.tables.Threaded s.tables.threadOf) (p : Option String) :
    let t' : Tables := { t with
      emails := t.emails ++ [m.itemId]
      mailMessageMeta := t.mailMessageMeta ++ [⟨m, some thread, p⟩] }
    Components.Labels Names t'.Threaded t'.threadOf := by
  intro t'
  have hi' := inv_store (p := p) hi hnew hm
  have hrows : ∀ {row}, row ∈ s.tables.mailMessageMeta →
      retarget olds thread row ∈ t'.mailMessageMeta := by
    intro row hr
    simp only [t', hm.rows]
    exact List.mem_append_left _ (List.mem_map_of_mem hr)
  have hlast : (⟨m, some thread, p⟩ : MailMessageMetaRow) ∈ t'.mailMessageMeta :=
    List.mem_append_right _ List.mem_cons_self
  have hset : t'.Threaded = insert m s.tables.Threaded := by
    ext u
    simp only [Tables.Threaded, Set.mem_ofPred_eq, Set.mem_insert_iff, t', hm.rows,
      List.mem_append, List.mem_map, List.mem_singleton]
    constructor
    · rintro ⟨row, ⟨row, hr, rfl⟩ | rfl, rfl, hne⟩
      · rw [Ne, retarget_eq_none] at hne
        exact .inr ⟨row, hr, retarget_message.symm, hne⟩
      · exact .inl rfl
    · rintro (rfl | ⟨row, hr, rfl, hne⟩)
      · exact ⟨_, .inr rfl, rfl, by simp⟩
      · exact ⟨_, .inl ⟨row, hr, rfl⟩, retarget_message, by rwa [Ne, retarget_eq_none]⟩
  rw [hset]
  refine hl.insert (t := some thread) ?_ ?_ ?_ ?_
  · rintro ⟨row, hr, rfl, -⟩
    exact hnew (hi.emails row hr)
  · rintro u ⟨row, hr, rfl, hne⟩
    obtain ⟨th, hth⟩ := Option.ne_none_iff_exists'.mp hne
    have hnewThread := threadOf_eq hi'.ids (hrows hr)
    rw [retarget_message, retarget_threadId, hth] at hnewThread
    rw [threadOf_eq hi.ids hr, hth, hnewThread, mem_around hi hblank]
    by_cases hf : th ∈ foundThreadIds s.tables m
    · rcases hm.found th hf with rfl | ho
      · simp [hf]
      · simp [hf, ho]
    · have ho : th ∉ olds := fun ho => hf (hm.merged th ho).1
      simp [hf, ho]
  · exact threadOf_eq hi'.ids hlast
  · rw [mem_around hi hblank]
    refine hm.target.imp_right fun ht => ?_
    rintro u ⟨row, hr, rfl, -⟩ hu
    rw [threadOf_eq hi.ids hr] at hu
    have hlt := hi.seq thread (hi.threads row hr thread hu)
    have hseq := ht.2
    omega

end Store

/-! ## The steps -/

theorem inv_claim (hi : Inv s) (hm : m.itemId ∈ s.tables.emails)
    (hnew : ∀ row ∈ s.tables.mailMessageMeta, row.itemId ≠ m.itemId) :
    Inv { s with
      tables := { s.tables with
        mailMessageMeta := s.tables.mailMessageMeta ++ [⟨m, none, none⟩] }
      sending := s.sending ++ [m.itemId] } where
  ids := by
    simp only [List.map_append, List.map_cons, List.map_nil, List.nodup_append]
    refine ⟨hi.ids, by simp, fun i hi' j hj hij => ?_⟩
    obtain ⟨row, hr, rfl⟩ := List.mem_map.mp hi'
    exact hnew row hr (hij.trans (List.mem_singleton.mp hj))
  emails := by
    intro row hr
    rcases List.mem_append.mp hr with hr | hr
    · exact hi.emails row hr
    · rw [List.mem_singleton.mp hr]
      exact hm
  drafts := by
    intro i h
    simp only [List.mem_append, List.mem_singleton] at h
    rcases h with (h | rfl) | h
    · exact hi.drafts i (.inl h)
    · exact hm
    · exact hi.drafts i (.inr h)
  unthreaded := by
    intro row hr
    simp only [List.mem_append, List.mem_singleton] at hr ⊢
    rcases hr with hr | rfl
    · rw [hi.unthreaded row hr, or_iff_left (hnew row hr)]
    · simp
  threads := by
    intro row hr th hth
    rcases List.mem_append.mp hr with hr | hr
    · exact hi.threads row hr th hth
    · rw [List.mem_singleton.mp hr] at hth
      cases hth
  seq := hi.seq
  nonempty := by
    intro th hth
    obtain ⟨row, hr, ht⟩ := hi.nonempty th hth
    exact ⟨row, List.mem_append_left _ hr, ht⟩

theorem inv_sendMailFails (hi : Inv s) {i : ℕ} (hs : i ∈ s.sending) :
    Inv { s with
      tables := s.tables.deleteMailMessageMetaByItemId i
      sending := s.sending.filter (· ≠ i) } where
  ids := hi.ids.sublist (List.filter_sublist.map _)
  emails := fun row hr => hi.emails row (List.mem_of_mem_filter hr)
  drafts := fun j h => hi.drafts j (h.imp_left List.mem_of_mem_filter)
  unthreaded := by
    intro row hr
    have hne : row.itemId ≠ i := by simpa using (List.mem_filter.mp hr).2
    rw [hi.unthreaded row (List.mem_of_mem_filter hr)]
    simp [hne]
  threads := fun row hr => hi.threads row (List.mem_of_mem_filter hr)
  seq := hi.seq
  nonempty := by
    intro th hth
    obtain ⟨row, hr, ht⟩ := hi.nonempty th hth
    have hne : row.itemId ≠ i := by
      rintro rfl
      rw [(hi.unthreaded row hr).mpr (.inl hs)] at ht
      cases ht
    exact ⟨row, List.mem_filter.mpr ⟨hr, by simpa using hne⟩, ht⟩

theorem inv_sendMail (hi : Inv s) {i : ℕ} (hs : i ∈ s.sending) :
    Inv { s with sending := s.sending.filter (· ≠ i), sent := s.sent ++ [i] } := by
  have hmem : ∀ j, (j ∈ s.sending.filter (· ≠ i) ∨ j ∈ s.sent ++ [i]) ↔
      (j ∈ s.sending ∨ j ∈ s.sent) := by
    intro j
    by_cases hj : j = i <;> simp [hj, hs]
  exact {
    ids := hi.ids
    emails := hi.emails
    drafts := fun j h => hi.drafts j ((hmem j).mp h)
    unthreaded := fun row hr => (hi.unthreaded row hr).trans (hmem row.itemId).symm
    threads := hi.threads
    seq := hi.seq
    nonempty := hi.nonempty }

theorem labels_of_rows (hids : (t.mailMessageMeta.map (·.itemId)).Nodup)
    (hids' : (t'.mailMessageMeta.map (·.itemId)).Nodup)
    (hrows : ∀ row, row.threadId ≠ none → (row ∈ t'.mailMessageMeta ↔ row ∈ t.mailMessageMeta))
    (hl : Components.Labels Names t.Threaded t.threadOf) :
    Components.Labels Names t'.Threaded t'.threadOf := by
  have hset : t'.Threaded = t.Threaded := by
    ext u
    constructor
    · rintro ⟨row, hr, rfl, hne⟩
      exact ⟨row, (hrows row hne).mp hr, rfl, hne⟩
    · rintro ⟨row, hr, rfl, hne⟩
      exact ⟨row, (hrows row hne).mpr hr, rfl, hne⟩
  rw [hset]
  refine hl.congr ?_
  rintro u ⟨row, hr, rfl, hne⟩
  rw [threadOf_eq hids hr, threadOf_eq hids' ((hrows row hne).mpr hr)]

def Good (s : Sys) : Prop :=
  Inv s ∧ Components.Labels Names s.tables.Threaded s.tables.threadOf

theorem good_preserved (h : Good s) {a : Act} (hok : NoBlankId s a) (hs : step s a = some s') :
    Good s' := by
  obtain ⟨hi, hl⟩ := h
  cases a with
  | ingest m p =>
    simp only [step] at hs
    split_ifs at hs with hnew
    obtain ⟨⟨res, t⟩, hin, rfl⟩ := Option.map_eq_some_iff.mp hs
    rcases ingest_cases hin with rfl | ⟨thread, olds, u, hm, rfl⟩
    · exact ⟨hi, hl⟩
    · exact ⟨inv_store hi hnew hm, labels_store hi hnew hm hok hl p⟩
  | createDraft i =>
    simp only [step] at hs
    split_ifs at hs with hnew
    cases hs
    refine ⟨⟨hi.ids, fun row hr => ?_, fun j h => ?_, hi.unthreaded, hi.threads, hi.seq,
      hi.nonempty⟩, hl⟩
    · exact List.mem_append_left _ (hi.emails row hr)
    · exact List.mem_append_left _ (hi.drafts j h)
  | claim m =>
    simp only [step] at hs
    split_ifs at hs with hg
    cases hc : claimDraft s.tables m with
    | error e =>
      rw [hc] at hs
      cases hs
      exact ⟨hi, hl⟩
    | ok t =>
      rw [hc] at hs
      cases hs
      obtain ⟨hnew, rfl⟩ := claim_cases hg.2 hc
      have hi' := inv_claim hi hg.1 hnew
      refine ⟨hi', labels_of_rows hi.ids hi'.ids (fun row hne => ?_) hl⟩
      simp only [List.mem_append, List.mem_singleton]
      exact or_iff_left fun h => hne (h ▸ rfl)
  | sendMail i =>
    simp only [step] at hs
    split_ifs at hs with hmem
    cases hs
    exact ⟨inv_sendMail hi hmem, hl⟩
  | sendMailFails i =>
    simp only [step] at hs
    split_ifs at hs with hmem
    cases hs
    have hi' := inv_sendMailFails hi hmem
    refine ⟨hi', labels_of_rows hi.ids hi'.ids (fun row hne => ?_) hl⟩
    simp only [Tables.deleteMailMessageMetaByItemId, List.mem_filter]
    refine and_iff_left_of_imp fun hr => ?_
    have hrow : row.itemId ≠ i := fun h => hne ((hi.unthreaded row hr).mpr (.inl (h ▸ hmem)))
    simpa using hrow

/-! ## Every run -/

theorem sameThread_iff (hi : Inv s) : s.tables.SameThread u v ↔
    u ∈ s.tables.Threaded ∧ v ∈ s.tables.Threaded ∧
      s.tables.threadOf u = s.tables.threadOf v := by
  constructor
  · rintro ⟨ru, hru, rv, hrv, rfl, rfl, th, hu, hv⟩
    exact ⟨mem_threaded hru hu, mem_threaded hrv hv,
      by rw [threadOf_eq hi.ids hru, threadOf_eq hi.ids hrv, hu, hv]⟩
  · rintro ⟨⟨ru, hru, rfl, hu⟩, ⟨rv, hrv, rfl, -⟩, h⟩
    rw [threadOf_eq hi.ids hru, threadOf_eq hi.ids hrv] at h
    obtain ⟨th, hth⟩ := Option.ne_none_iff_exists'.mp hu
    exact ⟨ru, hru, rv, hrv, rfl, rfl, th, hth, h ▸ hth⟩

theorem isSent_iff (hi : Inv s) (hm : m ∈ s.tables.Stored) :
    s.IsSent m ↔ m ∉ s.tables.Threaded := by
  obtain ⟨row, hr, rfl⟩ := hm
  constructor
  · rintro ⟨-, hs⟩ ⟨row', hr', hrow, hne⟩
    rw [row_unique hi.ids hr' hr (congrArg MailMessage.itemId hrow)] at hne
    exact hne ((hi.unthreaded row hr).mpr hs)
  · intro h
    refine ⟨⟨row, hr, rfl⟩, (hi.unthreaded row hr).mp ?_⟩
    by_contra hne
    exact h ⟨row, hr, rfl, hne⟩

/-- No thread is ever empty, and the threads are the components of the stored messages exactly
when no sent message has a neighbour. -/
theorem threads_iff (s : Sys) (hs : Reach step NoBlankId Sys.init s) :
    s.tables.NoEmptyThread ∧
      ((∀ u ∈ s.tables.Stored, ∀ v ∈ s.tables.Stored, u ≠ v →
          (s.tables.SameThread u v ↔ Components.Joined Names s.tables.Stored u v)) ↔
        ∀ m, s.IsSent m → ∀ v ∈ s.tables.Stored, m ≠ v → ¬Names m v ∧ ¬Names v m) := by
  have hgood : Good s := by
    refine hs.invariant (I := Good) ⟨inv_init, ?_⟩ fun s a s' h hok hs => good_preserved h hok hs
    rintro u ⟨row, hr, -⟩
    cases hr
  obtain ⟨hi, hl⟩ := hgood
  have hsub : s.tables.Threaded ⊆ s.tables.Stored := fun u ⟨row, hr, h, _⟩ => ⟨row, hr, h⟩
  refine ⟨hi.nonempty, fun hP m hm v hv hne => ?_, fun hno u hu v hv hne => ?_⟩
  · have hnot : ¬(Names m v ∨ Names v m) := by
      intro h
      have hsame := (hP m hm.1 v hv hne).mpr (.single ⟨hm.1, hv, h⟩)
      exact (isSent_iff hi hm.1).mp hm ((sameThread_iff hi).mp hsame).1
    exact not_or.mp hnot
  · rw [sameThread_iff hi]
    constructor
    · rintro ⟨hut, hvt, h⟩
      exact ((hl u hut v hvt).mp h).mono hsub
    · intro hj
      by_cases hut : u ∈ s.tables.Threaded
      · let I := s.tables.Stored \ s.tables.Threaded
        have hunion : s.tables.Threaded ∪ I = s.tables.Stored := Set.union_sdiff_cancel hsub
        have hI : ∀ a ∈ s.tables.Threaded ∪ I, ∀ b ∈ I, a ≠ b → ¬Names a b ∧ ¬Names b a := by
          intro a ha b hb hab
          rw [hunion] at ha
          exact (hno b ((isSent_iff hi hb.1).mpr hb.2) a ha hab.symm).symm
        rw [← hunion] at hj
        obtain ⟨hvt, hjt⟩ := Components.joined_union_isolated hI hut disjoint_sdiff_self_right hj
        exact ⟨hut, hvt, (hl u hut v hvt).mpr hjt⟩
      · exact absurd (Components.joined_isolated
          (hno u ((isSent_iff hi hu).mpr hut)) hj).symm hne

def answered : List Act :=
  [.ingest ⟨0, 0, "a", none, []⟩ none, .createDraft 1, .claim ⟨1, 0, "b", some "a", ["a"]⟩,
    .sendMail 1, .ingest ⟨2, 0, "c", some "b", ["b"]⟩ none]

theorem answered_end : (runActs step Sys.init answered).map (·.tables.mailMessageMeta) =
    some [⟨⟨0, 0, "a", none, []⟩, some 0, none⟩, ⟨⟨1, 0, "b", some "a", ["a"]⟩, none, none⟩,
      ⟨⟨2, 0, "c", some "b", ["b"]⟩, some 1, none⟩] := by
  decide +kernel

/-- The answer joins the two received messages, which have two threads. -/
theorem answered_splits : ¬∀ s, Reach step (fun _ _ => True) Sys.init s →
    s.tables.NoEmptyThread ∧ ∀ u ∈ s.tables.Stored, ∀ v ∈ s.tables.Stored, u ≠ v →
      (s.tables.SameThread u v ↔ Components.Joined Names s.tables.Stored u v) := by
  intro h
  obtain ⟨s, hs, hrows⟩ := Option.map_eq_some_iff.mp answered_end
  obtain ⟨-, h⟩ := h s (.of_runActs hs)
  have hstored : ∀ {row}, row ∈ s.tables.mailMessageMeta → row.toMailMessage ∈ s.tables.Stored :=
    fun {row} hr => ⟨row, hr, rfl⟩
  have h₀ := @hstored ⟨⟨0, 0, "a", none, []⟩, some 0, none⟩ (by rw [hrows]; decide)
  have h₁ := @hstored ⟨⟨1, 0, "b", some "a", ["a"]⟩, none, none⟩ (by rw [hrows]; decide)
  have hsame := (h _ h₁ _ h₀ (by decide)).mpr (.single ⟨h₁, h₀, .inl (by decide)⟩)
  obtain ⟨row, hr, -, -, hrow, -, th, hth, -⟩ := hsame
  rw [hrows] at hr
  simp only [List.mem_cons, List.not_mem_nil, or_false] at hr
  rcases hr with rfl | rfl | rfl
  · cases hrow
  · cases hth
  · cases hrow

def hasNoBlank : Act → Bool
  | .ingest m _ => m.inReplyTo ≠ some "" ∧ "" ∉ m.references
  | _ => true

theorem noBlankId_of_hasNoBlank {a : Act} (h : hasNoBlank a = true) : NoBlankId s a := by
  cases a with
  | ingest m p =>
    simp only [hasNoBlank, decide_eq_true_eq] at h
    exact fun hb => absurd hb (not_or.mpr h)
  | _ => trivial

theorem threads_answered : ∃ s, runActs step Sys.init answered = some s ∧
    s.tables.NoEmptyThread := by
  have hrun : (runChecked step (fun _ a => hasNoBlank a) Sys.init answered).isSome := by
    decide +kernel
  obtain ⟨s, hs⟩ := Option.isSome_iff_exists.mp hrun
  exact ⟨s, runActs_of_runChecked hs,
    (threads_iff s (.of_runChecked (fun _ _ => noBlankId_of_hasNoBlank) hs)).1⟩

end Mail

end Semprec
