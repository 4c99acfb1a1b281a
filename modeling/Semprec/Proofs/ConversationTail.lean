import Mathlib.Data.List.Pairwise
import Semprec.Conversation
import Semprec.Lib.Transaction

/-!
# The tail of a conversation is its history

Only the run of the latest wake gets events that the fold reads (`LogInv.latest`), so they are in
the log in `(wake_seq, id)` order already, and the events from the latest checkpoint on are those
the fold reads after its last reset.  A sweep deletes below a checkpoint that it has read, and the
latest one is that or a later one.
-/

namespace Semprec

namespace Conversation

variable {s s' : Sys} {events log : List AgentRunEventRow} {e k : AgentRunEventRow} {w : ℕ}

/-! ## The walk -/

theorem Walk.event_status (x : Walk) (h : e.conversational = false) : x.event e = x := by
  rcases e with ⟨id, wakeSeq, m | entries, at_⟩
  · simp only [AgentRunEventRow.conversational, decide_eq_false_iff_not, not_not] at h
    simp [Walk.event, h]
  · cases h

theorem Walk.event_compaction (x y : Walk) (h : k.isCompaction = true) :
    x.event k = y.event k := by
  rcases k with ⟨id, wakeSeq, m | entries, at_⟩
  · cases h
  · rfl

theorem conversational_of_isCompaction (h : k.isCompaction = true) : k.conversational = true := by
  rcases k with ⟨id, wakeSeq, m | entries, at_⟩
  · cases h
  · rfl

theorem foldl_filter_conversational (x : Walk) :
    (events.filter fun e => e.conversational).foldl Walk.event x = events.foldl Walk.event x := by
  induction events generalizing x with
  | nil => rfl
  | cons e events ih =>
    by_cases he : e.conversational = true
    · rw [List.filter_cons_of_pos he, List.foldl_cons, List.foldl_cons, ih]
    · rw [List.filter_cons_of_neg he, ih, List.foldl_cons, Walk.event_status x (by simpa using he)]

theorem foldl_reset (x y : Walk) (pre post : List AgentRunEventRow) (h : k.isCompaction = true) :
    (pre ++ k :: post).foldl Walk.event x = (k :: post).foldl Walk.event y := by
  rw [List.foldl_append, List.foldl_cons, List.foldl_cons, Walk.event_compaction _ y h]

/-! ## The order of the log -/

/-- The ids of the log increase, and what the fold reads is not of an earlier run than anything
stored before it. -/
structure Ordered (log : List AgentRunEventRow) : Prop where
  ids : log.Pairwise fun a b => a.id < b.id
  runs : log.Pairwise fun a b => b.conversational = true → a.wakeSeq ≤ b.wakeSeq

theorem Ordered.sublist (h : Ordered log) (hs : events.Sublist log) : Ordered events :=
  ⟨h.ids.sublist hs, h.runs.sublist hs⟩

theorem Ordered.nodup (h : Ordered log) : log.Nodup :=
  h.ids.imp fun hlt he => absurd (congrArg AgentRunEventRow.id he) hlt.ne

theorem Ordered.eq_of_id (h : Ordered log) {a b : AgentRunEventRow} (ha : a ∈ log) (hb : b ∈ log)
    (hid : a.id = b.id) : a = b := by
  have hsymm : Std.Symm fun a b : AgentRunEventRow => a.id = b.id → a = b :=
    ⟨fun _ _ h he => (h he.symm).symm⟩
  exact List.Pairwise.forall_of_forall (R := fun a b : AgentRunEventRow => a.id = b.id → a = b)
    (fun _ _ _ => rfl) (h.ids.imp fun hlt he => absurd he hlt.ne) ha hb hid

instance : IsTrans AgentRunEventRow before where
  trans a b c h h' := by
    unfold before at *
    omega

instance : Std.Total before where
  total a b := by
    unfold before
    omega

theorem filter_orderByWakeSeqAndId (h : Ordered log) :
    (orderByWakeSeqAndId log).filter (fun e => e.conversational) =
      log.filter fun e => e.conversational := by
  have hperm : ((orderByWakeSeqAndId log).filter fun e => e.conversational).Perm
      (log.filter fun e => e.conversational) := (List.perm_insertionSort _ _).filter _
  have hsorted : ((orderByWakeSeqAndId log).filter fun e => e.conversational).Pairwise before :=
    (List.pairwise_insertionSort _ _).sublist List.filter_sublist
  refine hperm.eq_of_pairwise (fun a b ha hb hab hba => ?_) hsorted ?_
  · have hmem := (hperm.mem_iff.mp ha)
    refine h.eq_of_id (List.mem_filter.mp hmem).1 (List.mem_filter.mp hb).1 ?_
    unfold before at hab hba
    omega
  · have hboth := (List.pairwise_and_iff.mpr ⟨h.ids, h.runs⟩).filter fun e => e.conversational
    refine hboth.imp_of_mem fun {a b} _ hb hab => ?_
    have hle := hab.2 (List.mem_filter.mp hb).2
    have hlt := hab.1
    unfold before
    omega

theorem foldl_orderByWakeSeqAndId (h : Ordered log) (x : Walk) :
    (orderByWakeSeqAndId log).foldl Walk.event x = log.foldl Walk.event x := by
  rw [← foldl_filter_conversational, filter_orderByWakeSeqAndId h, foldl_filter_conversational]

/-! ## The latest checkpoint -/

theorem latestCompaction_some {c : ℕ} : latestCompaction log = some c ↔
    (∃ k ∈ log, k.isCompaction = true ∧ k.id = c) ∧
      ∀ k ∈ log, k.isCompaction = true → k.id ≤ c := by
  unfold latestCompaction
  rw [List.max?_eq_some_iff]
  simp only [List.mem_map, List.mem_filter]
  constructor
  · rintro ⟨⟨k, ⟨hk, hc⟩, hid⟩, hmax⟩
    exact ⟨⟨k, hk, hc, hid⟩, fun k' hk' hc' => hmax _ ⟨k', ⟨hk', hc'⟩, rfl⟩⟩
  · rintro ⟨⟨k, hk, hc, hid⟩, hmax⟩
    refine ⟨⟨k, ⟨hk, hc⟩, hid⟩, ?_⟩
    rintro _ ⟨k', ⟨hk', hc'⟩, rfl⟩
    exact hmax k' hk' hc'

theorem latestCompaction_none :
    latestCompaction log = none ↔ ∀ k ∈ log, k.isCompaction = false := by
  unfold latestCompaction
  rw [List.max?_eq_none_iff, List.map_eq_nil_iff, List.filter_eq_nil_iff]
  simp

theorem foldl_from_latestCompaction (h : Ordered log) :
    (log.filter fun e => (latestCompaction log).getD 0 ≤ e.id).foldl Walk.event .init =
      log.foldl Walk.event .init := by
  rcases hc : latestCompaction log with _ | c
  · simp
  · obtain ⟨⟨k, hk, hcompaction, rfl⟩, -⟩ := latestCompaction_some.mp hc
    obtain ⟨pre, post, rfl⟩ := List.append_of_mem hk
    have hids := List.pairwise_append.mp h.ids
    have hpre : (pre.filter fun e => k.id ≤ e.id) = [] := by
      rw [List.filter_eq_nil_iff]
      intro e he
      have := hids.2.2 e he k List.mem_cons_self
      simp only [decide_eq_true_eq]
      omega
    have hpost : ((k :: post).filter fun e => k.id ≤ e.id) = k :: post := by
      rw [List.filter_eq_self]
      intro e he
      rcases List.mem_cons.mp he with rfl | he
      · simp
      · have := (List.pairwise_cons.mp hids.2.1).1 e he
        simp only [decide_eq_true_eq]
        omega
    rw [Option.getD_some, List.filter_append, hpre, hpost, List.nil_append,
      foldl_reset .init .init pre post hcompaction]

/-! ## The invariant -/

def Sys.Purged (s : Sys) (e : AgentRunEventRow) : Prop :=
  (∃ k ∈ s.log, k.isCompaction = true ∧ e.id < k.id) ∧ s.runs[e.wakeSeq]? ≠ some .running

/-- The runs that the process may append to, or has appended to in its current session. -/
def Phase.run : Phase → Option ℕ
  | .created w _ => some w
  | .turn w _ => some w
  | .entry w => some w
  | _ => none

structure LogInv (s : Sys) : Prop where
  ordered : Ordered s.log
  fresh : ∀ e ∈ s.log, e.id < s.nextEventId
  runs : ∀ e ∈ s.log, e.wakeSeq < s.runs.length
  stored : s.events.Sublist s.log
  purged : ∀ e ∈ s.log, e ∉ s.events → s.Purged e
  sweeps : ∀ j c, s.sweeps j = some c → ∃ k ∈ s.log, k.isCompaction = true ∧ k.id = c
  latest : ∀ w, s.phase.run = some w → w + 1 = s.runs.length
  toolUse : ∀ w m, s.runs[w]? = some .running → s.ToolUseLast w m → w + 1 = s.runs.length
  checked : ∀ compacted, s.phase = .reconstructed compacted →
    ∀ w m, s.runs[w]? = some .running → ¬ s.ToolUseLast w m

theorem logInv_init : LogInv Sys.init where
  ordered := ⟨List.Pairwise.nil, List.Pairwise.nil⟩
  fresh _ h := nomatch h
  runs _ h := nomatch h
  stored := List.Sublist.refl _
  purged _ h := nomatch h
  sweeps _ _ h := nomatch h
  latest _ h := nomatch h
  toolUse _ _ h := nomatch h
  checked _ h := nomatch h

namespace LogInv

theorem mem_log (hi : LogInv s) (h : e ∈ s.events) : e ∈ s.log := hi.stored.subset h

/-- The latest checkpoint is in the table, and so is everything after it. -/
theorem mem_events (hi : LogInv s) (he : e ∈ s.log)
    (hc : (latestCompaction s.log).getD 0 ≤ e.id) : e ∈ s.events := by
  by_contra hgone
  obtain ⟨⟨k, hk, hcompaction, hlt⟩, -⟩ := hi.purged e he hgone
  rcases hl : latestCompaction s.log with _ | c
  · rw [latestCompaction_none.mp hl k hk] at hcompaction
    cases hcompaction
  · have := (latestCompaction_some.mp hl).2 k hk hcompaction
    rw [hl, Option.getD_some] at hc
    omega

theorem latestCompaction_events (hi : LogInv s) :
    latestCompaction s.events = latestCompaction s.log := by
  rcases hl : latestCompaction s.log with _ | c
  · exact latestCompaction_none.mpr fun k hk => latestCompaction_none.mp hl k (hi.mem_log hk)
  · obtain ⟨⟨k, hk, hcompaction, rfl⟩, hmax⟩ := latestCompaction_some.mp hl
    refine latestCompaction_some.mpr ⟨⟨k, hi.mem_events hk ?_, hcompaction, rfl⟩,
      fun k' hk' => hmax k' (hi.mem_log hk')⟩
    rw [hl, Option.getD_some]

theorem filter_events (hi : LogInv s) :
    (s.events.filter fun e => (latestCompaction s.events).getD 0 ≤ e.id) =
      s.log.filter fun e => (latestCompaction s.log).getD 0 ≤ e.id := by
  rw [hi.latestCompaction_events]
  refine (hi.stored.filter _).eq_of_length_le ?_
  refine (List.subperm_of_subset (hi.ordered.nodup.filter _) fun e he => ?_).length_le
  obtain ⟨hmem, hle⟩ := List.mem_filter.mp he
  exact List.mem_filter.mpr ⟨hi.mem_events hmem (by simpa using hle), hle⟩

theorem walk_tail (hi : LogInv s) :
    walkStoredEntries (listSessionAgentRunEventsFromLastCompaction s.events) =
      (s.log.foldl Walk.event .init).entries := by
  unfold walkStoredEntries listSessionAgentRunEventsFromLastCompaction
  rw [hi.filter_events, foldl_orderByWakeSeqAndId (hi.ordered.sublist List.filter_sublist),
    foldl_from_latestCompaction hi.ordered]

end LogInv

/-! ## A history that ends in a call is refused -/

theorem openCalls_append (entries : List ConversationEntry) (entry : ConversationEntry) :
    openCalls (entries ++ [entry]) =
      (openCalls entries).bind fun pending => checkMessage pending entry.message := by
  unfold openCalls
  rw [List.foldlM_append]
  rcases List.foldlM (fun pending (entry : ConversationEntry) => checkMessage pending entry.message)
    [] entries with error | pending
  · rfl
  · simp only [List.foldlM_cons, List.foldlM_nil, bind_pure]
    rfl

theorem validate_ok {entries : List ConversationEntry} :
    validateProtocolInvariants entries = .ok () ↔ openCalls entries = .ok [] := by
  unfold validateProtocolInvariants
  rcases openCalls entries with error | _ | ⟨call, calls⟩
  · exact ⟨nofun, nofun⟩
  · exact ⟨fun _ => rfl, fun _ => rfl⟩
  · exact ⟨nofun, nofun⟩

theorem openCalls_toolUse {entries : List ConversationEntry} {entry : ConversationEntry}
    (h : entry.message.kind = .tool_use) : openCalls (entries ++ [entry]) ≠ .ok [] := by
  rw [openCalls_append]
  rcases openCalls entries with error | pending
  · nofun
  · simp only [Except.bind, checkMessage, h]
    rcases entry.message.toolCallId with _ | toolCallId
    · nofun
    · simp

theorem entries_event_message (x : Walk) {id w : ℕ} {m : AgentMessage} {at_ : ℤ}
    (h : m.kind ≠ .run_status) : (x.event ⟨id, w, .message m, at_⟩).entries =
      x.entries ++ [⟨toString id, x.parentId, x.seq, at_, m⟩] := by
  simp [Walk.event, h]

theorem foldl_no_conversational (x : Walk)
    (h : ∀ e ∈ events, e.conversational = false) : events.foldl Walk.event x = x := by
  rw [← foldl_filter_conversational,
    List.filter_eq_nil_iff.mpr fun e he => by simp [h e he], List.foldl_nil]

theorem lastEvent_mem (h : s.lastEvent w = some e) :
    e ∈ s.events ∧ e.wakeSeq = w := by
  have hmem := List.mem_of_getLast? h
  simpa using List.mem_filter.mp hmem

theorem LogInv.le_lastEvent (hi : LogInv s) (h : s.lastEvent w = some e) {b : AgentRunEventRow}
    (hb : b ∈ s.events) (hw : b.wakeSeq = w) : b.id ≤ e.id := by
  have hmem : b ∈ s.events.filter fun e => e.wakeSeq = w := List.mem_filter.mpr ⟨hb, by simpa⟩
  obtain ⟨init, hinit⟩ := List.getLast?_eq_some_iff.mp h
  rw [hinit] at hmem
  rcases List.mem_append.mp hmem with hmem | hmem
  · have hids : (init ++ [e]).Pairwise fun a b => a.id < b.id :=
      hinit ▸ ((hi.ordered.sublist hi.stored).ids.filter _)
    exact ((List.pairwise_append.mp hids).2.2 b hmem e (by simp)).le
  · rw [List.mem_singleton.mp hmem]

theorem LogInv.split_toolUse (hi : LogInv s) {m : AgentMessage}
    (hrunning : s.runs[w]? = some .running) (h : s.ToolUseLast w m) :
    ∃ (x : Walk) (id : ℕ) (at_ : ℤ), (s.log.foldl Walk.event .init).entries =
      x.entries ++ [⟨toString id, x.parentId, x.seq, at_, m⟩] := by
  have hlatest := hi.toolUse w m hrunning h
  obtain ⟨e, he, hpayload, hkind⟩ := h
  obtain ⟨hmem, hw⟩ := lastEvent_mem he
  obtain ⟨pre, post, hlog⟩ := List.append_of_mem (hi.mem_log hmem)
  have hpost : ∀ b ∈ post, b.conversational = false := by
    intro b hb
    by_contra hc
    have hbl : b ∈ s.log := by rw [hlog]; exact List.mem_append_right _ (List.mem_cons_of_mem _ hb)
    have hruns := (List.pairwise_append.mp (hlog ▸ hi.ordered.runs)).2.1
    have hids := (List.pairwise_append.mp (hlog ▸ hi.ordered.ids)).2.1
    have hle := (List.pairwise_cons.mp hruns).1 b hb (by simpa using hc)
    have hlt := (List.pairwise_cons.mp hids).1 b hb
    have hbw : b.wakeSeq = w := by
      have := hi.runs b hbl
      omega
    have hstored : b ∈ s.events := by
      by_contra hgone
      exact (hi.purged b hbl hgone).2 (hbw ▸ hrunning)
    have := hi.le_lastEvent he hstored hbw
    omega
  rcases e with ⟨id, wakeSeq, payload, at_⟩
  simp only at hpayload
  subst hpayload
  refine ⟨pre.foldl Walk.event .init, id, at_, ?_⟩
  rw [hlog, List.foldl_append, List.foldl_cons, foldl_no_conversational _ hpost,
    entries_event_message _ (by rw [hkind]; nofun)]

theorem LogInv.checked_of_openCalls (hi : LogInv s)
    (h : openCalls (s.log.foldl Walk.event .init).entries = .ok []) {m : AgentMessage}
    (hrunning : s.runs[w]? = some .running) : ¬ s.ToolUseLast w m := by
  intro hm
  obtain ⟨x, id, at_, hentries⟩ := hi.split_toolUse hrunning hm
  rw [hentries] at h
  obtain ⟨e, -, -, hkind⟩ := hm
  exact openCalls_toolUse hkind h

theorem reconstruct_ok {compaction : CompactionAdapter} {entries : List ConversationEntry}
    {compacted : Bool}
    (h : reconstructConversationHistory compaction events = .ok (entries, compacted)) :
    openCalls (walkStoredEntries (listSessionAgentRunEventsFromLastCompaction events)) = .ok [] ∧
      openCalls entries = .ok [] := by
  unfold reconstructConversationHistory at h
  simp only at h
  split_ifs at h with hnil
  · cases h
    rw [hnil]
    exact ⟨rfl, rfl⟩
  · obtain ⟨_, hvalid, h⟩ := except_bind_ok.mp h
    refine ⟨validate_ok.mp hvalid, ?_⟩
    split at h
    · cases h
      exact validate_ok.mp hvalid
    · obtain ⟨_, hcompacted, h⟩ := except_bind_ok.mp h
      cases h
      exact validate_ok.mp hcompacted

/-! ## The steps -/

theorem LogInv.setPhase (hi : LogInv s) {phase : Phase}
    (hrun : ∀ w, phase.run = some w → w + 1 = s.runs.length)
    (hchecked : ∀ compacted, phase = .reconstructed compacted →
      ∀ w m, s.runs[w]? = some .running → ¬ s.ToolUseLast w m) : LogInv (s.setPhase phase) where
  ordered := hi.ordered
  fresh := hi.fresh
  runs := hi.runs
  stored := hi.stored
  purged := hi.purged
  sweeps := hi.sweeps
  latest := hrun
  toolUse := hi.toolUse
  checked := hchecked

theorem lastEvent_insertEvent {payload : Payload} {now : ℤ} {w' : ℕ} :
    (s.insertEvent w payload now).lastEvent w' =
      if w = w' then some ⟨s.nextEventId, w, payload, now⟩ else s.lastEvent w' := by
  unfold Sys.lastEvent Sys.insertEvent
  rw [List.filter_append]
  split_ifs with h
  · simp [h]
  · simp [h]

/-- An event is stored; if the fold reads it, it is of the latest run. -/
theorem LogInv.insertEvent (hi : LogInv s) {payload : Payload} {now : ℤ}
    (hw : w < s.runs.length)
    (hlatest : AgentRunEventRow.conversational ⟨s.nextEventId, w, payload, now⟩ = true →
      w + 1 = s.runs.length)
    (hquiet : ∀ compacted, s.phase = .reconstructed compacted →
      AgentRunEventRow.conversational ⟨s.nextEventId, w, payload, now⟩ = false) :
    LogInv (s.insertEvent w payload now) := by
  have htool : ∀ {w' m}, (s.insertEvent w payload now).ToolUseLast w' m →
      (w = w' ∧ AgentRunEventRow.conversational ⟨s.nextEventId, w, payload, now⟩ = true) ∨
        s.ToolUseLast w' m := by
    rintro w' m ⟨e, he, hpayload, hkind⟩
    rw [lastEvent_insertEvent] at he
    split_ifs at he with hww
    · cases he
      simp only at hpayload
      subst hpayload
      exact .inl ⟨hww, by simp [AgentRunEventRow.conversational, hkind]⟩
    · exact .inr ⟨e, he, hpayload, hkind⟩
  refine ⟨⟨?_, ?_⟩, ?_, ?_, ?_, ?_, ?_, hi.latest, ?_, ?_⟩
  · refine List.pairwise_append.mpr ⟨hi.ordered.ids, List.pairwise_singleton _ _, ?_⟩
    intro a ha b hb
    rw [List.mem_singleton.mp hb]
    exact hi.fresh a ha
  · refine List.pairwise_append.mpr ⟨hi.ordered.runs, List.pairwise_singleton _ _, ?_⟩
    intro a ha b hb hc
    rw [List.mem_singleton.mp hb] at hc ⊢
    have := hi.runs a ha
    have := hlatest hc
    simp only
    omega
  · intro e he
    simp only [Sys.insertEvent] at he ⊢
    rcases List.mem_append.mp he with he | he
    · have := hi.fresh e he
      omega
    · rw [List.mem_singleton.mp he]
      simp only
      omega
  · intro e he
    rcases List.mem_append.mp he with he | he
    · exact hi.runs e he
    · rw [List.mem_singleton.mp he]
      exact hw
  · exact List.Sublist.append hi.stored (List.Sublist.refl _)
  · intro e he hgone
    rcases List.mem_append.mp he with he | he
    · obtain ⟨⟨k, hk, hc, hlt⟩, hclosed⟩ := hi.purged e he fun h =>
        hgone (List.mem_append_left _ h)
      exact ⟨⟨k, List.mem_append_left _ hk, hc, hlt⟩, hclosed⟩
    · exact absurd (List.mem_append_right _ he) hgone
  · intro j c hj
    obtain ⟨k, hk, h⟩ := hi.sweeps j c hj
    exact ⟨k, List.mem_append_left _ hk, h⟩
  · intro w' m hrunning hm
    rcases htool hm with ⟨rfl, hc⟩ | hm
    · exact hlatest hc
    · exact hi.toolUse w' m hrunning hm
  · intro compacted hp w' m hrunning hm
    rcases htool hm with ⟨-, hc⟩ | hm
    · rw [hquiet compacted hp] at hc
      cases hc
    · exact hi.checked compacted hp w' m hrunning hm

theorem running_of_finishAgentRun {status : AgentRunStatus} {w' : ℕ} (hstatus : status ≠ .running)
    (h : (s.finishAgentRun w status).runs[w']? = some .running) :
    w' ≠ w ∧ s.runs[w']? = some .running := by
  simp only [Sys.finishAgentRun, List.getElem?_modify] at h
  rcases hw : s.runs[w']? with _ | old
  · rw [hw] at h
    cases h
  · rw [hw] at h
    by_cases he : w = w'
    · subst he
      simp only [if_true, Option.map_eq_map, Option.map_some, Option.some.injEq] at h
      split_ifs at h with hold
      · exact absurd h hstatus
      · exact absurd h hold
    · simp only [he, if_false, Option.map_eq_map, Option.map_some] at h
      exact ⟨fun hne => he hne.symm, h⟩

theorem LogInv.finishAgentRun (hi : LogInv s) {status : AgentRunStatus}
    (hstatus : status ≠ .running) : LogInv (s.finishAgentRun w status) := by
  have hlength : (s.finishAgentRun w status).runs.length = s.runs.length := List.length_modify ..
  exact {
    ordered := hi.ordered
    fresh := hi.fresh
    runs := fun e he => hlength ▸ hi.runs e he
    stored := hi.stored
    purged := fun e he hgone => ⟨(hi.purged e he hgone).1, fun h =>
      (hi.purged e he hgone).2 (running_of_finishAgentRun hstatus h).2⟩
    sweeps := hi.sweeps
    latest := fun w' h => hlength ▸ hi.latest w' h
    toolUse := fun w' m h hm =>
      hlength ▸ hi.toolUse w' m (running_of_finishAgentRun hstatus h).2 hm
    checked := fun compacted hp w' m h hm =>
      hi.checked compacted hp w' m (running_of_finishAgentRun hstatus h).2 hm }

theorem LogInv.createAgentRun (hi : LogInv s) {compacted : Option (List ConversationEntry)}
    (hphase : s.phase = .reconstructed compacted) :
    LogInv { s with
      runs := s.runs ++ [.running]
      phase := .created s.runs.length compacted } := by
  have hrunning : ∀ {w'}, w' < s.runs.length → (s.runs ++ [.running])[w']? = some .running →
      s.runs[w']? = some .running := by
    intro w' hw h
    rwa [List.getElem?_append_left hw] at h
  refine ⟨hi.ordered, hi.fresh, fun e he => ?_, hi.stored, fun e he hgone => ?_, hi.sweeps, ?_, ?_,
    nofun⟩
  · have := hi.runs e he
    simp only [List.length_append, List.length_singleton]
    omega
  · exact ⟨(hi.purged e he hgone).1, fun h =>
      (hi.purged e he hgone).2 (hrunning (hi.runs e he) h)⟩
  · intro w' h
    cases h
    simp
  · intro w' m h hm
    obtain ⟨e, he, -⟩ := id hm
    obtain ⟨hmem, hw⟩ := lastEvent_mem he
    have hlt : w' < s.runs.length := hw ▸ hi.runs e (hi.mem_log hmem)
    exact absurd hm (hi.checked compacted hphase w' m (hrunning hlt h))

theorem mem_expiredBatch {c : ℕ} {now : ℤ} (h : e ∈ expiredBatch s c now) :
    e ∈ s.events ∧ s.runs[e.wakeSeq]? ≠ some .running ∧ e.id < c := by
  have hmem := List.mem_filter.mp (List.mem_of_mem_take h)
  simp only [decide_eq_true_eq] at hmem
  exact ⟨hmem.1, hmem.2.1, hmem.2.2.1⟩

theorem lastEvent_deleteBatch {c : ℕ} {now : ℤ} (hrunning : s.runs[w]? = some .running) :
    Sys.lastEvent { s with events := s.events.filter (· ∉ expiredBatch s c now) } w =
      s.lastEvent w := by
  unfold Sys.lastEvent
  rw [List.filter_filter]
  congr 1
  refine List.filter_congr fun e he => ?_
  by_cases hw : e.wakeSeq = w
  · have hkept : e ∉ expiredBatch s c now := fun h => (mem_expiredBatch h).2.1 (hw ▸ hrunning)
    simp [hw, hkept]
  · simp [hw]

theorem LogInv.deleteBatch (hi : LogInv s) {j c : ℕ} {now : ℤ} (hj : s.sweeps j = some c) :
    LogInv { s with events := s.events.filter (· ∉ expiredBatch s c now) } := by
  refine ⟨hi.ordered, hi.fresh, hi.runs, List.filter_sublist.trans hi.stored, fun e he hgone => ?_,
    hi.sweeps, hi.latest, fun w' m h hm => ?_, fun compacted hp w' m h hm => ?_⟩
  · by_cases hmem : e ∈ s.events
    · have hbatch : e ∈ expiredBatch s c now := by
        by_contra hkept
        exact hgone (List.mem_filter.mpr ⟨hmem, by simpa using hkept⟩)
      obtain ⟨-, hclosed, hlt⟩ := mem_expiredBatch hbatch
      obtain ⟨k, hk, hc, rfl⟩ := hi.sweeps j c hj
      exact ⟨⟨k, hk, hc, hlt⟩, hclosed⟩
    · exact hi.purged e he hmem
  · obtain ⟨e, he, hm⟩ := hm
    exact hi.toolUse w' m h ⟨e, (lastEvent_deleteBatch (s := s) h).symm.trans he, hm⟩
  · obtain ⟨e, he, hm⟩ := hm
    exact hi.checked compacted hp w' m h ⟨e, (lastEvent_deleteBatch (s := s) h).symm.trans he, hm⟩

theorem LogInv.beginSweep (hi : LogInv s) (j : ℕ) :
    LogInv { s with sweeps := Function.update s.sweeps j (latestCompaction s.events) } := by
  refine ⟨hi.ordered, hi.fresh, hi.runs, hi.stored, hi.purged, fun j' c h => ?_, hi.latest,
    hi.toolUse, hi.checked⟩
  by_cases hj : j' = j
  · subst hj
    simp only [Function.update_self] at h
    obtain ⟨⟨k, hk, h⟩, -⟩ := latestCompaction_some.mp h
    exact ⟨k, hi.mem_log hk, h⟩
  · simp only [Function.update_of_ne hj] at h
    exact hi.sweeps j' c h

theorem appendSyntheticResult_cases (now : ℤ) (s : Sys) (w : ℕ) :
    (∃ m, s.ToolUseLast w m ∧ appendSyntheticResult now s w =
      s.insertEvent w (.message (syntheticResult m)) now) ∨
      (∀ m, ¬ s.ToolUseLast w m) ∧ appendSyntheticResult now s w = s := by
  unfold appendSyntheticResult
  split
  · next id w' m at_ he =>
    split_ifs with hkind
    · exact .inl ⟨m, ⟨_, he, rfl, hkind⟩, rfl⟩
    · refine .inr ⟨?_, rfl⟩
      rintro m' ⟨e, he', hpayload, hkind'⟩
      rw [he] at he'
      cases he'
      cases hpayload
      exact hkind hkind'
  · next hne =>
    refine .inr ⟨?_, rfl⟩
    rintro m' ⟨⟨id, w', payload, at_⟩, he', hpayload, -⟩
    simp only at hpayload
    subst hpayload
    exact hne _ _ _ _ he'

theorem LogInv.repairRun (hi : LogInv s) (hphase : s.phase = .down) (now : ℤ) (w : ℕ) :
    LogInv (repairRun now s w) ∧ (Conversation.repairRun now s w).phase = .down := by
  unfold Conversation.repairRun
  split_ifs with hrunning
  · rcases appendSyntheticResult_cases now s w with ⟨m, hm, heq⟩ | ⟨-, heq⟩
    · have hlatest := hi.toolUse w m hrunning hm
      rw [heq]
      refine ⟨(hi.insertEvent (by omega) (fun _ => hlatest) ?_).finishAgentRun nofun, hphase⟩
      intro compacted hp
      rw [hphase] at hp
      cases hp
    · rw [heq]
      exact ⟨hi.finishAgentRun nofun, hphase⟩
  · exact ⟨hi, hphase⟩

theorem LogInv.foldl_repairRun (hi : LogInv s) (hphase : s.phase = .down) (now : ℤ) (ws : List ℕ) :
    LogInv (ws.foldl (Conversation.repairRun now) s) := by
  induction ws generalizing s with
  | nil => exact hi
  | cons w ws ih =>
    obtain ⟨hi', hphase'⟩ := hi.repairRun hphase now w
    exact ih hi' hphase'

theorem LogInv.repairInterruptedRuns (hi : LogInv s) (hphase : s.phase = .down) (active : Bool)
    (now : ℤ) : LogInv (repairInterruptedRuns s active now) := by
  unfold Conversation.repairInterruptedRuns
  split_ifs
  · exact hi.foldl_repairRun hphase now _
  · exact hi

theorem logInv_step (hi : LogInv s) {a : Act} (h : step s a = some s') : LogInv s' := by
  cases a with
  | skipEventId =>
    cases h
    exact ⟨hi.ordered, fun e he => Nat.lt_succ_of_lt (hi.fresh e he), hi.runs, hi.stored, hi.purged,
      hi.sweeps, hi.latest, hi.toolUse, hi.checked⟩
  | reconstruct compaction =>
    simp only [step] at h
    split at h
    · next entries compacted hphase hr =>
      cases h
      have hopen := (reconstruct_ok hr).1
      rw [hi.walk_tail] at hopen
      exact hi.setPhase nofun fun _ _ w m => hi.checked_of_openCalls hopen
    · cases h
  | createAgentRun =>
    simp only [step] at h
    split at h
    · next compacted hphase =>
      cases h
      exact hi.createAgentRun hphase
    · cases h
  | persistCompaction now =>
    simp only [step] at h
    split at h
    · next w entries hphase =>
      cases h
      have hlatest := hi.latest w (by rw [hphase]; rfl)
      refine (hi.insertEvent (by omega) (fun _ => hlatest) ?_).setPhase ?_ nofun
      · intro compacted hp
        rw [hphase] at hp
        cases hp
      · intro w' hw
        cases hw
        exact hlatest
    · cases h
  | createAgentSession | endTurn | continueSession =>
    simp only [step] at h
    split at h
    · next w hphase =>
      cases h
      exact hi.setPhase (fun w' hw => hi.latest w' (hphase ▸ hw)) nofun
    · cases h
  | failWake =>
    simp only [step] at h
    split at h
    · cases h
      exact hi.setPhase nofun nofun
    · cases h
      exact hi.setPhase nofun nofun
    · cases h
  | emit m now =>
    simp only [step] at h
    split at h
    · next w calls hphase =>
      split_ifs at h
      cases h
      have hlatest := hi.latest w (by rw [hphase]; rfl)
      refine (hi.insertEvent (by omega) (fun _ => hlatest) ?_).setPhase ?_ nofun
      · intro compacted hp
        rw [hphase] at hp
        cases hp
      · intro w' hw
        cases hw
        exact hlatest
    · cases h
  | failTurn =>
    simp only [step] at h
    split at h
    · cases h
      exact hi.setPhase nofun nofun
    · cases h
  | finishAgentRun wakeSeq status =>
    simp only [step] at h
    split_ifs at h with hok
    cases h
    exact hi.finishAgentRun hok.2.2
  | pushRunStatus wakeSeq status now =>
    simp only [step] at h
    split_ifs at h with hok
    cases h
    exact hi.insertEvent hok.1 nofun fun _ _ => rfl
  | clearEntry =>
    simp only [step] at h
    split at h
    · split_ifs at h
      cases h
      exact hi.setPhase nofun nofun
    · cases h
  | crash =>
    cases h
    exact hi.setPhase nofun nofun
  | repairInterruptedRuns active now =>
    simp only [step] at h
    split_ifs at h with hphase
    cases h
    exact (hi.repairInterruptedRuns hphase active now).setPhase nofun nofun
  | beginSweep j =>
    cases h
    exact hi.beginSweep j
  | deleteBatch j now =>
    simp only [step] at h
    split at h
    · next c hj =>
      cases h
      exact hi.deleteBatch hj
    · cases h

theorem logInv_of_reach (h : Reach step (fun _ _ => True) .init s) : LogInv s :=
  h.invariant logInv_init fun _ _ _ hi _ hs => logInv_step hi hs

/-! ## What a sweep deletes -/

theorem Ordered.le_of_lt (h : Ordered log) {a b : AgentRunEventRow} (ha : a ∈ log) (hb : b ∈ log)
    (hlt : a.id < b.id) (hc : b.conversational = true) : a.wakeSeq ≤ b.wakeSeq := by
  have hsymm : Std.Symm fun a b : AgentRunEventRow =>
      (a.id < b.id → b.conversational = true → a.wakeSeq ≤ b.wakeSeq) ∧
        (b.id < a.id → a.conversational = true → b.wakeSeq ≤ a.wakeSeq) := ⟨fun _ _ h => h.symm⟩
  have hboth := List.pairwise_and_iff.mpr ⟨h.ids, h.runs⟩
  refine (List.Pairwise.forall_of_forall (R := fun a b : AgentRunEventRow =>
    (a.id < b.id → b.conversational = true → a.wakeSeq ≤ b.wakeSeq) ∧
      (b.id < a.id → a.conversational = true → b.wakeSeq ≤ a.wakeSeq)) ?_ (hboth.imp ?_) ha hb).1
    hlt hc
  · exact fun a _ => ⟨fun _ _ => le_rfl, fun _ _ => le_rfl⟩
  · exact fun hab => ⟨fun _ => hab.2, fun hba => absurd hba hab.1.asymm⟩

theorem LogInv.superseded (hi : LogInv s) (he : e ∈ s.log) (hgone : e ∉ s.events) :
    Superseded s.log e := by
  obtain ⟨⟨k, hk, hc, hlt⟩, -⟩ := hi.purged e he hgone
  have hle := hi.ordered.le_of_lt he hk hlt (conversational_of_isCompaction hc)
  refine ⟨k, hk, hc, ?_, fun heq => hlt.ne (congrArg AgentRunEventRow.id heq)⟩
  unfold before
  omega

theorem Superseded.mono (h : Superseded log e) (hsub : log ⊆ events) : Superseded events e := by
  obtain ⟨k, hk, h⟩ := h
  exact ⟨k, hsub hk, h⟩

theorem log_subset_repairRun (now : ℤ) (s : Sys) (w : ℕ) : s.log ⊆ (repairRun now s w).log := by
  unfold repairRun
  split_ifs
  · rcases appendSyntheticResult_cases now s w with ⟨m, -, heq⟩ | ⟨-, heq⟩
    · rw [heq]
      exact List.subset_append_left _ _
    · rw [heq]
      exact List.Subset.refl _
  · exact List.Subset.refl _

theorem log_subset_repairRuns (now : ℤ) (ws : List ℕ) (s : Sys) :
    s.log ⊆ (ws.foldl (repairRun now) s).log := by
  induction ws generalizing s with
  | nil => exact List.Subset.refl _
  | cons w ws ih => exact List.Subset.trans (log_subset_repairRun now s w) (ih _)

/-- Nothing is taken out of the log. -/
theorem log_subset_step {a : Act} (h : step s a = some s') : s.log ⊆ s'.log := by
  cases a with
  | persistCompaction now =>
    simp only [step] at h
    split at h
    · cases h
      exact List.subset_append_left _ _
    · cases h
  | emit m now =>
    simp only [step] at h
    split at h
    · split_ifs at h
      cases h
      exact List.subset_append_left _ _
    · cases h
  | pushRunStatus wakeSeq status now =>
    simp only [step] at h
    split_ifs at h
    cases h
    exact List.subset_append_left _ _
  | repairInterruptedRuns active now =>
    simp only [step, repairInterruptedRuns] at h
    split_ifs at h
    · cases h
      exact log_subset_repairRuns now _ s
    · cases h
      exact List.Subset.refl _
  | _ =>
    simp only [step] at h
    repeat' split at h
    all_goals
      cases h
      try exact List.Subset.refl _

theorem log_subset (h : Reach step (fun _ _ => True) s s') : s.log ⊆ s'.log := by
  induction h with
  | refl => exact List.Subset.refl _
  | tail _ _ hs ih => exact List.Subset.trans ih (log_subset_step hs)

/-- Over every run a wake walks the entries that the fold of the whole log gives, and what a sweep
has deleted is before a checkpoint in this fold and in all later ones. -/
theorem tail_eq_fold (h : Reach step (fun _ _ => True) .init s) :
    walkStoredEntries (listSessionAgentRunEventsFromLastCompaction s.events) =
        walkStoredEntries (orderByWakeSeqAndId s.log) ∧
      ∀ e ∈ s.log, e ∉ s.events → ∀ s', Reach step (fun _ _ => True) s s' →
        Superseded s'.log e := by
  have hi := logInv_of_reach h
  constructor
  · rw [hi.walk_tail, walkStoredEntries, foldl_orderByWakeSeqAndId hi.ordered]
  · exact fun e he hgone s' hs => (hi.superseded he hgone).mono (log_subset hs)

section

def compactAll : CompactionAdapter := fun entries =>
  if entries = [] then none
  else some [⟨"summary", none, 0, 0, ⟨.message, none, "what was said"⟩⟩]

/-- A turn, a second wake that stores a checkpoint, and a sweep a year later. -/
def swept : List Act :=
  [.reconstruct compactAll, .createAgentRun, .createAgentSession,
    .emit ⟨.message, none, "hello"⟩ 0, .endTurn, .finishAgentRun 0 .done, .clearEntry,
    .reconstruct compactAll, .createAgentRun, .persistCompaction 1, .createAgentSession,
    .emit ⟨.message, none, "again"⟩ 2, .endTurn, .beginSweep 0, .deleteBatch 0 31536000000]

theorem tail_eq_fold_swept : ∃ s, runActs step .init swept = some s ∧
    walkStoredEntries (listSessionAgentRunEventsFromLastCompaction s.events) =
      walkStoredEntries (orderByWakeSeqAndId s.log) ∧
    s.log.length = 3 ∧ s.events.length = 2 := by
  obtain ⟨s, hs⟩ := Option.isSome_iff_exists.mp
    (show (runActs step .init swept).isSome = true by decide +kernel)
  refine ⟨s, hs, (tail_eq_fold (.of_runActs hs)).1, ?_, ?_⟩
  · exact eq_of_map_eq (f := fun s => s.log.length) (b := 3) hs (by decide +kernel)
  · exact eq_of_map_eq (f := fun s => s.events.length) (b := 2) hs (by decide +kernel)

end

end Conversation

end Semprec
