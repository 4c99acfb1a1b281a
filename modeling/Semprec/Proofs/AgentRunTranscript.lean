import Semprec.AgentRuns

/-!
# The transcript of a finished run

A finished run stays finished, and an append that sees it finished writes a `run_status` event
only.  What is left are the appends that read the run before its close was committed
(`NoOpenAppend`): if none of them is open when the close commits, the transcript of a finished run
grows by `run_status` events alone.
-/

namespace Semprec

namespace AgentRuns

theorem AgentRunRow.closed_id {agentRunId : ℕ} {status : AgentRunStatus} {result : Option String}
    {finishedAt : ℤ} {row : AgentRunRow} :
    (row.closed agentRunId status result finishedAt).id = row.id := by
  unfold AgentRunRow.closed
  split_ifs <;> rfl

theorem getAgentRun_closeRun {tables : Tables} {agentRunId id : ℕ} {status : AgentRunStatus}
    {result : Option String} {finishedAt : ℤ} :
    getAgentRun (tables.apply (.closeRun agentRunId status result finishedAt)) id =
      (getAgentRun tables id).map (.closed agentRunId status result finishedAt) := by
  unfold getAgentRun Tables.apply
  simp only [List.find?_map]
  congr 2
  funext row
  simp only [Function.comp, AgentRunRow.closed_id]

theorem getAgentRun_insertRun {tables : Tables} {row : AgentRunRow} {id : ℕ} :
    getAgentRun (tables.apply (.insertRun row)) id =
      (getAgentRun tables id).or (if row.id = id then some row else none) := by
  unfold getAgentRun Tables.apply
  rw [List.find?_append, List.find?_singleton]
  simp only [decide_eq_true_eq]

def Write.Proper : Write → Prop
  | .insertRun row => row.status = .running
  | .closeRun _ status _ _ => status ≠ .running
  | .insertEvent _ => True

theorem Tables.Finished.apply {tables : Tables} {agentRunId : ℕ} {w : Write} (hw : w.Proper)
    (h : tables.Finished agentRunId) : (tables.apply w).Finished agentRunId := by
  obtain ⟨run, hrun, hstatus⟩ := h
  rcases w with row | ⟨id, status, result, finishedAt⟩ | row
  · exact ⟨run, by rw [getAgentRun_insertRun, hrun, Option.some_or], hstatus⟩
  · refine ⟨run.closed id status result finishedAt, by rw [getAgentRun_closeRun, hrun]; rfl, ?_⟩
    unfold AgentRunRow.closed
    split_ifs
    · exact hw
    · exact hstatus
  · exact ⟨run, hrun, hstatus⟩

theorem Tables.Finished.foldl {agentRunId : ℕ} :
    ∀ {ws : List Write} {tables : Tables}, (∀ w ∈ ws, w.Proper) → tables.Finished agentRunId →
      (ws.foldl Tables.apply tables).Finished agentRunId
  | [], _, _, h => h
  | w :: ws, tables, hws, h => by
    rw [List.forall_mem_cons] at hws
    exact @Tables.Finished.foldl agentRunId ws (tables.apply w) hws.2 (h.apply hws.1)

theorem Tables.Finished.of_apply {tables : Tables} {agentRunId : ℕ} {w : Write} (hw : w.Proper)
    (hl : w.locksRun agentRunId = false) (h : (tables.apply w).Finished agentRunId) :
    tables.Finished agentRunId := by
  obtain ⟨run, hrun, hstatus⟩ := h
  rcases w with row | ⟨id, status, result, finishedAt⟩ | row
  · rw [getAgentRun_insertRun] at hrun
    rcases Option.or_eq_some_iff.mp hrun with hrun | ⟨-, hrow⟩
    · exact ⟨run, hrun, hstatus⟩
    · split_ifs at hrow
      cases hrow
      exact absurd hw hstatus
  · rw [getAgentRun_closeRun] at hrun
    obtain ⟨run', hrun', hclosed⟩ := Option.map_eq_some_iff.mp hrun
    have hid : run'.id = agentRunId := by simpa using List.find?_some hrun'
    unfold AgentRunRow.closed at hclosed
    rw [if_neg (by rw [hid]; simpa [Write.locksRun, Write.closedRun, eq_comm] using hl)] at hclosed
    exact ⟨run', hrun', hclosed ▸ hstatus⟩
  · exact ⟨run, hrun, hstatus⟩

theorem exists_closeRun_of_finished {agentRunId : ℕ} :
    ∀ {ws : List Write} {tables : Tables}, (∀ w ∈ ws, w.Proper) →
      ¬ tables.Finished agentRunId → (ws.foldl Tables.apply tables).Finished agentRunId →
      ∃ w ∈ ws, w.locksRun agentRunId = true
  | [], _, _, hn, h => absurd h hn
  | w :: ws, tables, hws, hn, h => by
    rw [List.forall_mem_cons] at hws
    by_cases hw : w.locksRun agentRunId = true
    · exact ⟨w, List.mem_cons_self, hw⟩
    · have hn' : ¬ (tables.apply w).Finished agentRunId := fun h' =>
        hn (h'.of_apply hws.1 (by simpa using hw))
      obtain ⟨w', hw', hlock⟩ := exists_closeRun_of_finished hws.2 hn' h
      exact ⟨w', List.mem_cons_of_mem _ hw', hlock⟩

def Write.inserted : Write → Option AgentRunEventRow
  | .insertEvent row => some row
  | _ => none

theorem events_foldl :
    ∀ (ws : List Write) (tables : Tables),
      (ws.foldl Tables.apply tables).events = tables.events ++ ws.filterMap Write.inserted
  | [], tables => by simp
  | w :: ws, tables => by
    rw [List.foldl_cons, events_foldl ws, List.filterMap_cons]
    cases w <;> simp [Tables.apply, Write.inserted]

theorem insertAgentRunEvent_kind {tables : Tables} {nextId agentRunId : ℕ}
    {kind : AgentRunEventKind} {serialized : String} {at' : ℤ} {row : AgentRunEventRow}
    (h : insertAgentRunEvent tables nextId agentRunId kind serialized at' = .ok row)
    (hf : tables.Finished row.agentRunId) : row.kind = .run_status := by
  unfold insertAgentRunEvent at h
  split_ifs at h
  split at h
  · cases h
  · rename_i run hrun
    split_ifs at h with hok
    cases h
    obtain ⟨run', hrun', hstatus⟩ := hf
    rw [hrun] at hrun'
    cases hrun'
    exact hok.resolve_left hstatus

structure NoOpenAppend (s : Db) : Prop where
  proper : ∀ t, ∀ w ∈ s.db.pending t, w.Proper
  appends : ∀ agentRunId, s.db.committed.Finished agentRunId →
    ∀ t, ∀ w ∈ s.db.pending t, w.appendsTo agentRunId = false

theorem noOpenAppend_init : NoOpenAppend Db.init :=
  ⟨fun _ _ hw => absurd hw List.not_mem_nil, fun _ _ _ _ hw => absurd hw List.not_mem_nil⟩

theorem NoOpenAppend.write {s s' : Db} {t : ℕ} {ws : List Write} (hi : NoOpenAppend s)
    (h : s.db.write t ws = some s'.db) (hws : ∀ w ∈ ws, w.Proper)
    (hap : ∀ agentRunId, s.db.committed.Finished agentRunId →
      ∀ w ∈ ws, w.appendsTo agentRunId = false) : NoOpenAppend s' := by
  refine ⟨fun u w hw => ?_, fun agentRunId hf u w hw => ?_⟩
  · rcases ReadCommitted.mem_write_pending h hw with hw | ⟨-, hw⟩
    · exact hi.proper u w hw
    · exact hws w hw
  · rw [ReadCommitted.write_committed h] at hf
    rcases ReadCommitted.mem_write_pending h hw with hw | ⟨-, hw⟩
    · exact hi.appends agentRunId hf u w hw
    · exact hap agentRunId hf w hw

theorem NoOpenAppend.step {s s' : Db} {a : Act} (hi : NoOpenAppend s) (hok : ClosesAlone s a)
    (h : AgentRuns.step s a = some s') : NoOpenAppend s' := by
  cases a with
  | begin t =>
    obtain ⟨db, hdb, rfl⟩ := Option.map_eq_some_iff.mp h
    refine ⟨fun u w hw => hi.proper u w ?_,
      fun agentRunId hf u w hw => hi.appends agentRunId ?_ u w ?_⟩
    · rwa [ReadCommitted.begin_pending hdb] at hw
    · rwa [ReadCommitted.begin_committed hdb] at hf
    · rwa [ReadCommitted.begin_pending hdb] at hw
  | createAgentRun t tenantId actorUserId =>
    obtain ⟨db, hdb, rfl⟩ := Option.map_eq_some_iff.mp h
    exact hi.write hdb (by simp [Write.Proper]) (by simp [Write.appendsTo])
  | insertAgentRunEvent t id kind serialized at' =>
    simp only [AgentRuns.step] at h
    split at h
    · rename_i row hrow
      obtain ⟨db, hdb, rfl⟩ := Option.map_eq_some_iff.mp h
      refine hi.write hdb (by simp [Write.Proper]) fun agentRunId hf w hw => ?_
      rw [List.mem_singleton] at hw
      subst hw
      have hkind := fun hr : row.agentRunId = agentRunId => insertAgentRunEvent_kind hrow
        (hr ▸ hf.foldl (hi.proper t))
      simpa [Write.appendsTo] using hkind
    · cases h
      exact hi
  | finishAgentRun t id status result now =>
    simp only [AgentRuns.step] at h
    split_ifs at h
    split at h
    · obtain ⟨db, hdb, rfl⟩ := Option.map_eq_some_iff.mp h
      refine hi.write hdb ?_ (by simp [Write.appendsTo])
      cases status <;> simp [Write.Proper, FinishStatus.toStatus]
    · cases h
      exact hi
  | commit t =>
    obtain ⟨db, hdb, rfl⟩ := Option.map_eq_some_iff.mp h
    have hpend := ReadCommitted.commit_pending hdb
    refine ⟨fun u w hw => hi.proper u w (ReadCommitted.mem_closed_pending hpend hw).2,
      fun agentRunId hf u w hw => ?_⟩
    obtain ⟨hut, hw⟩ := ReadCommitted.mem_closed_pending hpend hw
    simp only [ReadCommitted.commit_committed hdb, ReadCommitted.view] at hf
    by_cases hf₀ : s.db.committed.Finished agentRunId
    · exact hi.appends agentRunId hf₀ u w hw
    · obtain ⟨w', hw', hlock⟩ := exists_closeRun_of_finished (hi.proper t) hf₀ hf
      by_contra hap
      exact hok w' hw' agentRunId (by simpa [Write.locksRun] using hlock) (.of_mem hw hut (by simpa using hap))
  | rollback t =>
    obtain ⟨db, hdb, rfl⟩ := Option.map_eq_some_iff.mp h
    have hpend := ReadCommitted.rollback_pending hdb
    refine ⟨fun u w hw => hi.proper u w (ReadCommitted.mem_closed_pending hpend hw).2,
      fun agentRunId hf u w hw => hi.appends agentRunId ?_ u w
        (ReadCommitted.mem_closed_pending hpend hw).2⟩
    rwa [ReadCommitted.rollback_committed hdb] at hf

theorem step_committed {s s' : Db} {a : Act} (h : step s a = some s') :
    s'.db.committed = s.db.committed ∨
      ∃ t, a = .commit t ∧ s'.db.committed = s.db.view Tables.apply t := by
  cases a with
  | begin t =>
    obtain ⟨db, hdb, rfl⟩ := Option.map_eq_some_iff.mp h
    exact .inl (ReadCommitted.begin_committed hdb)
  | createAgentRun t tenantId actorUserId =>
    obtain ⟨db, hdb, rfl⟩ := Option.map_eq_some_iff.mp h
    exact .inl (ReadCommitted.write_committed hdb)
  | insertAgentRunEvent t id kind serialized at' =>
    simp only [step] at h
    split at h
    · obtain ⟨db, hdb, rfl⟩ := Option.map_eq_some_iff.mp h
      exact .inl (ReadCommitted.write_committed hdb)
    · cases h
      exact .inl rfl
  | finishAgentRun t id status result now =>
    simp only [step] at h
    split_ifs at h
    split at h
    · obtain ⟨db, hdb, rfl⟩ := Option.map_eq_some_iff.mp h
      exact .inl (ReadCommitted.write_committed hdb)
    · cases h
      exact .inl rfl
  | commit t =>
    obtain ⟨db, hdb, rfl⟩ := Option.map_eq_some_iff.mp h
    exact .inr ⟨t, rfl, ReadCommitted.commit_committed hdb⟩
  | rollback t =>
    obtain ⟨db, hdb, rfl⟩ := Option.map_eq_some_iff.mp h
    exact .inl (ReadCommitted.rollback_committed hdb)

/-- The later transcript `es'` is `es` with `run_status` events after it. -/
def OnlyStatusAfter (es es' : List AgentRunEventRow) : Prop :=
  ∃ extra, es' = es ++ extra ∧ ∀ e ∈ extra, e.kind = .run_status

theorem OnlyStatusAfter.trans {es es' es'' : List AgentRunEventRow} (h : OnlyStatusAfter es es')
    (h' : OnlyStatusAfter es' es'') : OnlyStatusAfter es es'' := by
  obtain ⟨x, rfl, hx⟩ := h
  obtain ⟨y, rfl, hy⟩ := h'
  refine ⟨x ++ y, List.append_assoc _ _ _, fun e he => ?_⟩
  rcases List.mem_append.mp he with he | he
  · exact hx e he
  · exact hy e he

theorem transcript_step {s s' : Db} {a : Act} {agentRunId : ℕ} (hi : NoOpenAppend s)
    (hf : s.db.committed.Finished agentRunId) (h : step s a = some s') :
    OnlyStatusAfter (s.transcript agentRunId) (s'.transcript agentRunId) := by
  unfold Db.transcript
  rcases step_committed h with hc | ⟨t, rfl, hc⟩
  · rw [hc]
    exact ⟨[], (List.append_nil _).symm, fun e he => absurd he List.not_mem_nil⟩
  · rw [hc, ReadCommitted.view, events_foldl, List.filter_append]
    refine ⟨_, rfl, fun e he => ?_⟩
    obtain ⟨he, hid⟩ := List.mem_filter.mp he
    obtain ⟨w, hw, hins⟩ := List.mem_filterMap.mp he
    have hap := hi.appends agentRunId hf t w hw
    rcases w with row | ⟨id, status, result, finishedAt⟩ | row
    · cases hins
    · cases hins
    · cases hins
      simp only [Write.appendsTo, decide_eq_false_iff_not, not_and, not_not] at hap
      exact hap (by simpa using hid)

theorem finished_step {s s' : Db} {a : Act} {agentRunId : ℕ} (hi : NoOpenAppend s)
    (hf : s.db.committed.Finished agentRunId) (h : step s a = some s') :
    s'.db.committed.Finished agentRunId := by
  rcases step_committed h with hc | ⟨t, -, hc⟩
  · rwa [hc]
  · rw [hc]
    exact hf.foldl (hi.proper t)

/-- From a state in which a run is finished, its transcript grows by `run_status` events only. -/
theorem transcript_closed {s s' : Db} {agentRunId : ℕ} (h : Reach step ClosesAlone Db.init s)
    (hf : s.db.committed.Finished agentRunId) (h' : Reach step ClosesAlone s s') :
    OnlyStatusAfter (s.transcript agentRunId) (s'.transcript agentRunId) := by
  have hi : NoOpenAppend s := h.invariant noOpenAppend_init fun _ _ _ hi hok hs => hi.step hok hs
  refine (h'.invariant (I := fun s' => NoOpenAppend s' ∧ s'.db.committed.Finished agentRunId ∧
    OnlyStatusAfter (s.transcript agentRunId) (s'.transcript agentRunId)) ⟨hi, hf, [], ?_, ?_⟩
    fun s₁ a s₂ hs₁ hok hs => ?_).2.2
  · rw [List.append_nil]
  · exact fun e he => absurd he List.not_mem_nil
  · obtain ⟨hi₁, hf₁, ht₁⟩ := hs₁
    exact ⟨hi₁.step hok hs, finished_step hi₁ hf₁ hs, ht₁.trans (transcript_step hi₁ hf₁ hs)⟩

def closedAlone : List Act :=
  [.begin 0, .createAgentRun 0 7 5, .commit 0,
   .begin 1, .insertAgentRunEvent 1 0 .message "text" 10, .commit 1,
   .begin 2, .finishAgentRun 2 0 .done none 20, .commit 2]

/-- The closer pushes its `run_status` event afterwards. -/
def statusAfter : List Act :=
  [.begin 3, .insertAgentRunEvent 3 0 .run_status "done" 30, .commit 3]

theorem finished_of_status {tables : Tables} {agentRunId : ℕ} {status : AgentRunStatus}
    (h : (getAgentRun tables agentRunId).map (·.status) = some status)
    (hs : status ≠ .running) : tables.Finished agentRunId := by
  obtain ⟨run, hrun, rfl⟩ := Option.map_eq_some_iff.mp h
  exact ⟨run, hrun, hs⟩

theorem transcript_closed_alone : ∃ s s' : Db, runActs step Db.init closedAlone = some s ∧
    runActs step s statusAfter = some s' ∧
    OnlyStatusAfter (s.transcript 0) (s'.transcript 0) := by
  obtain ⟨s', hs'⟩ := Option.isSome_iff_exists.mp (rfl : ((runChecked step
    (fun s a => decide (ClosesAlone s a)) Db.init closedAlone).bind fun s => runChecked step
    (fun s a => decide (ClosesAlone s a)) s statusAfter).isSome = true)
  obtain ⟨s, hs, hs'⟩ := Option.bind_eq_some_iff.mp hs'
  have hf : (getAgentRun s.db.committed 0).map (·.status) = some .done :=
    eq_of_map_eq (f := fun s => (getAgentRun s.db.committed 0).map (·.status)) hs rfl
  exact ⟨s, s', runActs_of_runChecked hs, runActs_of_runChecked hs', transcript_closed
    (.of_runChecked (fun _ _ h => of_decide_eq_true h) hs)
    (finished_of_status hf nofun)
    (.of_runChecked (fun _ _ h => of_decide_eq_true h) hs')⟩

def closeOvertakes : List Act :=
  [.begin 0, .createAgentRun 0 7 5, .commit 0,
   .begin 1, .insertAgentRunEvent 1 0 .message "text" 10,
   .begin 2, .finishAgentRun 2 0 .done none 20, .commit 2]

/-- The event is committed after the run is read as done. -/
theorem transcript_reopened :
    ¬ ∀ (s s' : Db) (agentRunId : ℕ), Reach step (fun _ _ => True) Db.init s →
      s.db.committed.Finished agentRunId → Reach step (fun _ _ => True) s s' →
      OnlyStatusAfter (s.transcript agentRunId) (s'.transcript agentRunId) := by
  intro h
  obtain ⟨s', hrun⟩ := Option.isSome_iff_exists.mp (rfl : ((runActs step Db.init
    closeOvertakes).bind fun s => runActs step s [.commit 1]).isSome = true)
  obtain ⟨s, hs, hs'⟩ := Option.bind_eq_some_iff.mp hrun
  have hf : (getAgentRun s.db.committed 0).map (·.status) = some .done :=
    eq_of_map_eq (f := fun s => (getAgentRun s.db.committed 0).map (·.status)) hs rfl
  have hbefore : s.transcript 0 = [] := eq_of_map_eq (f := fun s => s.transcript 0) hs rfl
  have hafter : s'.transcript 0 = [⟨0, 0, .message, "text", 10⟩] :=
    eq_of_map_eq (f := fun s => s.transcript 0) hrun rfl
  obtain ⟨extra, hextra, hkind⟩ := h s s' 0 (.of_runActs hs) (finished_of_status hf nofun)
    (.of_runActs hs')
  rw [hbefore, hafter, List.nil_append] at hextra
  exact absurd (hkind _ (hextra ▸ List.mem_singleton_self _)) (by decide)

end AgentRuns

end Semprec
