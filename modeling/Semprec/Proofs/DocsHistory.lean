import Semprec.Proofs.DocsCheckpoints

/-!
# Point-in-time history

Where every compaction's boundary is dated no earlier than the updates it folds, and no commit
deletes a history row that an open in flight still has to replay (`HistoryOk`), the history stays
exact for the database and for every transaction's own view of it, and `openDocVersionAt` returns
exactly the updates dated at or before the instant (`openDocVersionAt_exact`).
-/

namespace Semprec

namespace Docs

variable {Y : Yjs} {snapshot₀ : Y.Update} {s s' : Sys Y} {L : List (UpdateRow Y)}
  {nextId nextCheckpointId H : ℕ} {haf : ℤ} {t : Tables Y}

theorem HistInv.mono (h : HistInv snapshot₀ L nextId nextCheckpointId H haf t) {n m : ℕ}
    (hn : nextId ≤ n) (hm : nextCheckpointId ≤ m) : HistInv snapshot₀ L n m H haf t :=
  { h with
    bound := fun r hr => (h.bound r hr).trans_le hn
    next := h.next.trans_le hn
    checkpointIds := fun c hc => (h.checkpointIds c hc).trans_le hm }

/-- `t'` has lost nothing but checkpoints that expire. -/
structure Pruned (t t' : Tables Y) : Prop where
  docUpdates : t'.docUpdates = t.docUpdates
  historyUpdates : t'.historyUpdates = t.historyUpdates
  docs : t'.docs = t.docs
  subset : ∀ c ∈ t'.snapshotHistory, c ∈ t.snapshotHistory
  baselines : ∀ c ∈ t.snapshotHistory, c.expiresAt = none → c ∈ t'.snapshotHistory

theorem Pruned.applyWrites : ∀ (ws : List (Write Y)) {t t' : Tables Y}, Pruned t t' →
    Pruned (applyWrites ws t) (applyWrites ws t')
  | [], _, _, h => h
  | w :: ws, t, t', h => by
    refine Pruned.applyWrites ws (?_ : Pruned (w.apply t) (w.apply t'))
    obtain ⟨h1, h2, h3, h4, h5⟩ := h
    cases w <;> constructor <;> simp only [Write.apply, h1, h2, h3, List.mem_append,
      List.mem_filter, List.mem_singleton] <;> grind

theorem HistInv.prune (h : HistInv snapshot₀ L nextId nextCheckpointId H haf t) {t' : Tables Y}
    (hp : Pruned t t') : HistInv snapshot₀ L nextId nextCheckpointId H haf t' where
  sorted := h.sorted
  pos := h.pos
  bound := h.bound
  next := h.next
  pending := by
    rw [hp.docUpdates]
    exact h.pending
  boundary := h.boundary
  history := by
    rw [hp.historyUpdates]
    exact h.history
  docs := by
    rw [hp.docs]
    exact h.docs
  baseline := by
    obtain ⟨b, hb, hnone, hrest⟩ := h.baseline
    exact ⟨b, hp.baselines b hb hnone, hnone, hrest⟩
  checkpoints := fun c hc => h.checkpoints c (hp.subset c hc)
  checkpointIds := fun c hc => h.checkpointIds c (hp.subset c hc)

/-- The steps under which history stays exact.  A compaction's boundary is dated no earlier than
any update it folds, and a commit deletes no history row that an `openDocVersionAt` which has
chosen its checkpoint still has to replay. -/
def HistoryOk (s : Sys Y) : Act Y → Prop
  | .exec p => ∀ ses call rest doc pending boundary, s.sessions p = some ses →
      ses.job = .calls call rest → ses.phase = .loaded doc pending →
      call.compactionThreshold ≤ pending.length → pending.getLast? = some boundary →
      ∀ r ∈ s.committed ++ insertedRows ses.writes,
        toDate r.createdAt ≤ toDate boundary.createdAt
  | .commit p => ∀ ses q reader at_ days c row, s.sessions p = some ses →
      s.sessions q = some reader → reader.job = .openVersion at_ days →
      reader.phase = .opening c → row ∈ s.db.historyUpdates → c.throughUpdateId < row.id →
      row.createdAt ≤ at_ → row ∈ (ses.view s.db).historyUpdates
  | _ => True

def SessionHist (snapshot₀ : Y.Update) (s : Sys Y) (ses : Session Y) : Prop :=
  ∃ H haf, HistInv snapshot₀ (s.committed ++ insertedRows ses.writes) s.nextId
      s.nextCheckpointId H haf (ses.view s.db) ∧
    ∀ cutoff c, ses.phase = .rebaselining cutoff c →
      ChosenInv snapshot₀ (s.committed ++ insertedRows ses.writes) H haf cutoff c

structure Tidy (ses : Session Y) (db : Tables Y) : Prop where
  opens : ∀ at_ days, ses.job = .openVersion at_ days → ses.writes = []
  rebaselines : ∀ days, ses.job = .rebaseline days → insertedRows ses.writes = []
  mirrored : ∀ r ∈ insertedRows ses.writes, r.mirror ∈ (ses.view db).historyUpdates

structure OpenInv (snapshot₀ : Y.Update) (s : Sys Y) (at_ : ℤ) (c : Checkpoint Y) : Prop where
  state : Y.content c.state = folded snapshot₀ s.committed (·.id ≤ c.throughUpdateId)
  through : c.throughUpdateId = 0 ∨ ∃ r ∈ s.committed, r.id = c.throughUpdateId
  current : ∀ r ∈ s.committed, r.id ≤ c.throughUpdateId → r.dated ≤ at_
  kept : ∀ r ∈ s.committed, c.throughUpdateId < r.id → r.dated ≤ at_ →
    r.mirror ∈ s.db.historyUpdates

structure HInv (snapshot₀ : Y.Update) (s : Sys Y) : Prop where
  base : Inv snapshot₀ s
  hist : ∃ H haf, HistInv snapshot₀ s.committed s.nextId s.nextCheckpointId H haf s.db
  sessions : ∀ p ses, s.sessions p = some ses → SessionHist snapshot₀ s ses ∧ Tidy ses s.db
  opens : ∀ p ses at_ days c, s.sessions p = some ses → ses.job = .openVersion at_ days →
    ses.phase = .opening c → OpenInv snapshot₀ s at_ c

theorem SessionHist.of_no_writes {ses : Session Y}
    (h : ∃ H haf, HistInv snapshot₀ s.committed s.nextId s.nextCheckpointId H haf s.db)
    (hw : ses.writes = []) (hphase : ∀ cutoff c, ses.phase ≠ .rebaselining cutoff c) :
    SessionHist snapshot₀ s ses := by
  obtain ⟨H, haf, h⟩ := h
  refine ⟨H, haf, ?_, fun cutoff c hp => absurd hp (hphase cutoff c)⟩
  rw [hw, view_nil ses hw, insertedRows, List.append_nil]
  exact h

theorem Tidy.of_no_writes {ses : Session Y} {db : Tables Y} (hw : ses.writes = []) :
    Tidy ses db where
  opens := fun _ _ _ => hw
  rebaselines := fun _ _ => by rw [hw, insertedRows]
  mirrored := by simp [hw, insertedRows]

theorem SessionHist.congr {ses : Session Y} (h : SessionHist snapshot₀ s ses)
    (hp : Pruned s.db s'.db) (hc : s'.committed = s.committed) (hn : s.nextId ≤ s'.nextId)
    (hm : s.nextCheckpointId ≤ s'.nextCheckpointId) : SessionHist snapshot₀ s' ses := by
  obtain ⟨H, haf, hist, hphase⟩ := h
  refine ⟨H, haf, ?_, ?_⟩
  · rw [hc]
    exact (hist.mono hn hm).prune (hp.applyWrites _)
  · rw [hc]
    exact hphase

theorem Tidy.congr {ses : Session Y} (h : Tidy ses s.db) (hp : Pruned s.db s'.db) :
    Tidy ses s'.db where
  opens := h.opens
  rebaselines := h.rebaselines
  mirrored := by
    simp only [Session.view, (hp.applyWrites ses.writes).historyUpdates]
    exact h.mirrored

theorem Pruned.refl (t : Tables Y) : Pruned t t :=
  ⟨rfl, rfl, rfl, fun _ h => h, fun _ h _ => h⟩

theorem Pruned.of_eq {t t' : Tables Y} (h : t' = t) : Pruned t t' := h ▸ .refl t

theorem OpenInv.congr {at_ : ℤ} {c : Checkpoint Y} (h : OpenInv snapshot₀ s at_ c)
    (hp : Pruned s.db s'.db) (hc : s'.committed = s.committed) : OpenInv snapshot₀ s' at_ c where
  state := hc ▸ h.state
  through := hc ▸ h.through
  current := hc ▸ h.current
  kept := by
    rw [hc, hp.historyUpdates]
    exact h.kept

section statement

variable {p : ℕ} {ses ses' : Session Y}

theorem SessionHist.quiet (h : SessionHist snapshot₀ s ses) (hf : ExecFrame s s' p ses ses')
    (hw : ses'.writes = ses.writes) (hphase : ∀ cutoff c, ses'.phase = .rebaselining cutoff c →
      ∀ H haf, HistInv snapshot₀ (s.committed ++ insertedRows ses.writes) s.nextId
        s.nextCheckpointId H haf (ses.view s.db) →
      ChosenInv snapshot₀ (s.committed ++ insertedRows ses.writes) H haf cutoff c) :
    SessionHist snapshot₀ s' ses' := by
  obtain ⟨H, haf, hist, -⟩ := h
  refine ⟨H, haf, ?_, ?_⟩
  · rw [hf.committed, hw, show ses'.view s'.db = ses.view s.db by simp [Session.view, hw, hf.db]]
    exact hist.mono hf.nextId hf.nextCheckpointId
  · rw [hf.committed, hw]
    exact fun cutoff c hp => hphase cutoff c hp H haf hist

theorem HistInv.chosen {a : ℤ} {days : ℕ}
    (h : HistInv snapshot₀ L nextId nextCheckpointId H haf t) {cutoff : ℤ} {c : Checkpoint Y}
    (hc : Sys.chooseCheckpoint t a days = .rebaselining cutoff c) :
    ChosenInv snapshot₀ L H haf cutoff c := by
  obtain ⟨b, hdocs, hb⟩ := h.docs
  unfold Sys.chooseCheckpoint at hc
  rw [hdocs] at hc
  dsimp only at hc
  split_ifs at hc with hle
  split at hc
  · cases hc
  · rename_i c' hat
    cases hc
    obtain ⟨hmem, hrep, -⟩ := checkpointAt_some hat
    exact ⟨h.checkpoints c hmem, hrep, h.le_through hat, by omega, toDate_toDate _⟩

/-- A statement keeps the history as its transaction sees it. -/
theorem SessionHist.stmt (hY : Y.Lawful) (hbase : SessionInv snapshot₀ s ses)
    (h : SessionHist snapshot₀ s ses) (hst : Stmt s p ses ses')
    (hf : ExecFrame s s' p ses ses') (hp : s.sessions p = some ses)
    (hok : HistoryOk s (.exec p)) : SessionHist snapshot₀ s' ses' := by
  cases hst with
  | lockDoc hphase hl => exact h.quiet hf rfl (by simp)
  | readPending hphase => exact h.quiet hf rfl (by simp)
  | compact hj hphase hle =>
    rename_i call rest doc pending
    obtain ⟨H, haf, hist, -⟩ := h
    have hloaded := hbase.phase
    rw [hphase] at hloaded
    obtain ⟨rfl, hdoc⟩ := hloaded
    have hwrote : s.nextCheckpointId < s'.nextCheckpointId := by
      refine hf.wrote ?_ (by simp [insertedRows_append, insertedRows_compact])
      simp [Docs.compact]
    refine ⟨H, haf, ?_, by simp⟩
    rw [hf.committed, hf.db]
    simp only [insertedRows_append, insertedRows_compact, List.append_nil]
    have := hist.compact hY hbase.total hdoc call.retentionDays fun b hb r hr =>
      hok ses call rest doc _ b hp hj hphase hle hb r hr
    simp only [Session.view, applyWrites_append] at this ⊢
    exact this.mono hf.nextId hwrote
  | skipCompaction hphase => exact h.quiet hf rfl (by simp)
  | noUpdate hj hphase he =>
    rename_i call rest doc
    refine h.quiet hf (nextCall_writes ..) fun cutoff c hc => ?_
    rcases nextCall_phase ses rest with hn | hn <;> simp [hn] at hc
  | append hj hphase he =>
    rename_i call rest doc e
    obtain ⟨H, haf, hist, -⟩ := h
    have hnext : s.nextId < s'.nextId := by
      refine hf.inserted ?_
      simp [insertedRows_append, appendDocUpdate, insertedRows]
    refine ⟨H, haf, ?_, fun cutoff c hp => ?_⟩
    · rw [hf.committed, hf.db]
      have := hist.append e ses.startedAt
      simp only [Session.view, applyWrites_append, insertedRows_append, ← List.append_assoc]
        at this ⊢
      exact this.mono hnext hf.nextCheckpointId
    · rcases nextCall_phase ses rest with hn | hn <;> simp [hn] at hp
  | chooseCheckpoint hj hphase =>
    refine h.quiet hf rfl fun cutoff c hc H haf hist => hist.chosen hc
  | rebaseline hj hphase =>
    rename_i days cutoff c
    obtain ⟨H, haf, hist, hchosen⟩ := h
    have hwrote : s.nextCheckpointId < s'.nextCheckpointId := by
      refine hf.wrote ?_ (by simp [insertedRows_append, Docs.rebaseline, insertedRows])
      simp [Docs.rebaseline]
    refine ⟨(baselineAt s.nextCheckpointId (ses.view s.db) cutoff c).throughUpdateId, cutoff, ?_,
      by simp⟩
    rw [hf.committed, hf.db]
    have := hist.rebaseline hY (hchosen cutoff c hphase)
    simp only [Session.view, applyWrites_append, insertedRows_append] at this ⊢
    rw [show insertedRows (Docs.rebaseline s.nextCheckpointId (applyWrites ses.writes s.db)
      cutoff c) = [] from rfl, List.append_nil]
    exact this.mono hf.nextId hwrote
  | checkAvailable hj hphase =>
    rename_i at_ days
    refine h.quiet hf rfl fun cutoff c hp => ?_
    rcases checkAvailable_cases (ses.view s.db) ses.startedAt at_ days with
      ⟨_, -, -, hc⟩ | ⟨_, hc⟩ <;> simp [hc] at hp
  | noCheckpoint hj hphase hc => exact h.quiet hf rfl (by simp)
  | readCheckpoint hj hphase hc => exact h.quiet hf rfl (by simp)
  | readHistory hj hphase => exact h.quiet hf rfl (by simp)

theorem nextCall_job (ses : Session Y) {call : DocCall Y} {rest : List (DocCall Y)}
    (hj : ses.job = .calls call rest) :
    ∃ call' rest', (ses.nextCall rest).job = .calls call' rest' := by
  cases rest with
  | nil => exact ⟨call, [], hj⟩
  | cons call' rest' => exact ⟨call', rest', rfl⟩

theorem Tidy.quiet {db : Tables Y} (h : Tidy ses db) (hw : ses'.writes = ses.writes)
    (hj : ses'.job = ses.job) : Tidy ses' db where
  opens := by
    rw [hw, hj]
    exact h.opens
  rebaselines := by
    rw [hw, hj]
    exact h.rebaselines
  mirrored := by
    rw [hw, show ses'.view db = ses.view db by simp [Session.view, hw]]
    exact h.mirrored

theorem Tidy.calls {db : Tables Y} {call : DocCall Y} {rest : List (DocCall Y)}
    (hj : ses'.job = .calls call rest)
    (hm : ∀ r ∈ insertedRows ses'.writes, r.mirror ∈ (ses'.view db).historyUpdates) :
    Tidy ses' db where
  opens := by simp [hj]
  rebaselines := by simp [hj]
  mirrored := hm

theorem Tidy.stmt (h : Tidy ses s.db) (hst : Stmt s p ses ses') : Tidy ses' s.db := by
  cases hst with
  | lockDoc hphase hl => exact h.quiet rfl rfl
  | readPending hphase => exact h.quiet rfl rfl
  | compact hj hphase hle =>
    rename_i call rest doc pending
    refine .calls hj fun r hr => ?_
    rw [insertedRows_append, insertedRows_compact, List.append_nil] at hr
    have hm := h.mirrored r hr
    simp only [Session.view, applyWrites_append] at hm ⊢
    unfold Docs.compact
    rcases pending.getLast? with _ | b <;> exact hm
  | skipCompaction hphase => exact h.quiet rfl rfl
  | noUpdate hj hphase he =>
    rename_i call rest doc
    obtain ⟨_, _, hj'⟩ := nextCall_job ses hj
    refine .calls hj' ?_
    rw [nextCall_writes, show (ses.nextCall rest).view s.db = ses.view s.db by
      simp [Session.view]]
    exact h.mirrored
  | append hj hphase he =>
    rename_i call rest doc e
    obtain ⟨_, _, hj'⟩ := nextCall_job ses hj
    refine .calls hj' fun r hr => ?_
    simp only [insertedRows_append, List.mem_append] at hr
    simp only [Session.view, applyWrites_append]
    rcases hr with hr | hr
    · exact List.mem_append_left _ (h.mirrored r hr)
    · simp only [appendDocUpdate, insertedRows, List.mem_singleton] at hr
      subst hr
      exact List.mem_append_right _ (by simp)
  | chooseCheckpoint hj hphase => exact h.quiet rfl rfl
  | rebaseline hj hphase =>
    rename_i days cutoff c
    have hins : insertedRows (ses.writes ++
        Docs.rebaseline s.nextCheckpointId (ses.view s.db) cutoff c) = [] := by
      rw [insertedRows_append, h.rebaselines days hj]
      rfl
    exact ⟨by simp [hj], fun _ _ => hins, by simp [hins]⟩
  | checkAvailable hj hphase => exact h.quiet rfl rfl
  | noCheckpoint hj hphase hc => exact h.quiet rfl rfl
  | readCheckpoint hj hphase hc => exact h.quiet rfl rfl
  | readHistory hj hphase => exact h.quiet rfl rfl

/-- The checkpoint an open chooses stands for a part of what it has to return, and the rest is
still in the history. -/
theorem OpenInv.of_checkpointAt
    (h : HistInv snapshot₀ s.committed nextId nextCheckpointId H haf s.db) {at_ : ℤ}
    {c : Checkpoint Y} (hc : checkpointAt s.db.snapshotHistory at_ = some c) :
    OpenInv snapshot₀ s at_ c := by
  obtain ⟨hmem, hrep, -⟩ := checkpointAt_some hc
  have hci := h.checkpoints c hmem
  have hH := h.le_through hc
  exact ⟨hci.state, hci.through, fun r hr hle => (hci.current r hr hle).trans hrep,
    fun r hr hlt _ => (h.history _).mpr ⟨r, hr, by omega, rfl⟩⟩

end statement

theorem not_rebaselining_of_not_engaged {ses : Session Y} (h : ¬ ses.engaged) :
    ses.writes = [] ∧ ∀ cutoff c, ses.phase ≠ .rebaselining cutoff c := by
  refine ⟨?_, fun cutoff c hp => h (.inr (by simp [hp, Phase.holdsLock]))⟩
  by_contra hw
  exact h (.inl hw)

theorem Stmt.opening {p : ℕ} {ses ses' : Session Y} (hst : Stmt s p ses ses')
    {c : Checkpoint Y} (hc : ses'.phase = .opening c) {at_ : ℤ} {days : ℕ}
    (hj : ses'.job = .openVersion at_ days) :
    ses.job = .openVersion at_ days ∧
      checkpointAt (ses.view s.db).snapshotHistory at_ = some c := by
  cases hst with
  | lockDoc => simp at hc
  | readPending => simp at hc
  | compact => simp at hc
  | skipCompaction => simp at hc
  | noUpdate =>
    rename_i rest _ _ _ _
    rcases nextCall_phase ses rest with hn | hn <;> simp [hn] at hc
  | append =>
    rename_i rest _ _ _ _ _
    rcases nextCall_phase ses rest with hn | hn <;> simp [hn] at hc
  | chooseCheckpoint =>
    rename_i days' _ _ _
    rcases chooseCheckpoint_cases (ses.view s.db) ses.startedAt days' with
      ⟨_, _, _, -, -, -, hn⟩ | hn <;> simp [hn] at hc
  | rebaseline => simp at hc
  | checkAvailable =>
    rename_i at' days' _ _
    rcases checkAvailable_cases (ses.view s.db) ses.startedAt at' days' with
      ⟨_, -, -, hn⟩ | ⟨_, hn⟩ <;> simp [hn] at hc
  | noCheckpoint => simp at hc
  | readCheckpoint hj' _ hat =>
    cases hc
    rw [hj'] at hj
    cases hj
    exact ⟨hj', hat⟩
  | readHistory => simp at hc

theorem HInv.exec (hY : Y.Lawful) (h : HInv snapshot₀ s) {p : ℕ} {ses ses' : Session Y}
    (hp : s.sessions p = some ses) (hst : Stmt s p ses ses') (hf : ExecFrame s s' p ses ses')
    (hok : HistoryOk s (.exec p)) : HInv snapshot₀ s' := by
  obtain ⟨hhist, htidy⟩ := h.sessions p ses hp
  refine ⟨h.base.exec hY hp hst hf, ?_, ?_, ?_⟩
  · obtain ⟨H, haf, hist⟩ := h.hist
    refine ⟨H, haf, ?_⟩
    rw [hf.committed, hf.db]
    exact hist.mono hf.nextId hf.nextCheckpointId
  · intro q sq hq
    rw [hf.sessions, Function.update_apply] at hq
    split_ifs at hq with hqp
    · cases hq
      rw [hf.db]
      exact ⟨hhist.stmt hY (h.base.sessions p ses hp) hst hf hp hok, htidy.stmt hst⟩
    · obtain ⟨hhist', htidy'⟩ := h.sessions q sq hq
      exact ⟨hhist'.congr (.of_eq hf.db) hf.committed hf.nextId hf.nextCheckpointId,
        htidy'.congr (.of_eq hf.db)⟩
  · intro q sq at_ days c hq hj hc
    rw [hf.sessions, Function.update_apply] at hq
    split_ifs at hq with hqp
    · cases hq
      obtain ⟨hj', hat⟩ := hst.opening hc hj
      rw [view_nil ses (htidy.opens at_ days hj')] at hat
      obtain ⟨H, haf, hist⟩ := h.hist
      exact (OpenInv.of_checkpointAt hist hat).congr (.of_eq hf.db) hf.committed
    · exact (h.opens q sq at_ days c hq hj hc).congr (.of_eq hf.db) hf.committed

/-- What a commit adds and deletes leaves an open in flight with what it still needs. -/
theorem OpenInv.commit {p q : ℕ} {ses reader : Session Y} {at_ : ℤ} {days : ℕ}
    {c : Checkpoint Y} (h : OpenInv snapshot₀ s at_ c)
    (hhist : HistInv snapshot₀ (s.committed ++ insertedRows ses.writes) nextId
      nextCheckpointId H haf (ses.view s.db))
    (htidy : Tidy ses s.db) (hp : s.sessions p = some ses) (hq : s.sessions q = some reader)
    (hj : reader.job = .openVersion at_ days) (hc : reader.phase = .opening c)
    (hok : HistoryOk s (.commit p)) : OpenInv snapshot₀ (s.commit p ses) at_ c := by
  have hlt : ∀ r ∈ insertedRows ses.writes, c.throughUpdateId < r.id := by
    intro r hr
    rcases h.through with h0 | ⟨x, hx, hid⟩
    · rw [h0]
      exact hhist.pos r (List.mem_append_right _ hr)
    · rw [← hid]
      exact (List.pairwise_append.mp hhist.sorted).2.2 x hx r hr
  refine ⟨?_, ?_, ?_, ?_⟩
  · change _ = folded snapshot₀ (s.committed ++ insertedRows ses.writes) _
    rw [folded_append fun r hr => not_le.mpr (hlt r hr)]
    exact h.state
  · exact h.through.imp_right fun ⟨r, hr, hid⟩ => ⟨r, List.mem_append_left _ hr, hid⟩
  · intro r hr hle
    rcases List.mem_append.mp hr with hr | hr
    · exact h.current r hr hle
    · exact absurd hle (not_le.mpr (hlt r hr))
  · intro r hr hgt hdate
    rcases List.mem_append.mp hr with hr | hr
    · exact hok ses q reader at_ days c r.mirror hp hq hj hc (h.kept r hr hgt hdate) hgt hdate
    · exact htidy.mirrored r hr

theorem HInv.commit (h : HInv snapshot₀ s) {p : ℕ} {ses : Session Y}
    (hp : s.sessions p = some ses) (hok : HistoryOk s (.commit p)) :
    HInv snapshot₀ (s.commit p ses) := by
  obtain ⟨⟨H, haf, hist, -⟩, htidy⟩ := h.sessions p ses hp
  have hdb : ∃ H haf, HistInv snapshot₀ (s.commit p ses).committed (s.commit p ses).nextId
      (s.commit p ses).nextCheckpointId H haf (s.commit p ses).db := ⟨H, haf, hist⟩
  refine ⟨h.base.commit hp, hdb, ?_, ?_⟩
  · intro q sq hq
    rw [commit_sessions] at hq
    split_ifs at hq with hqp
    · cases hq
      exact ⟨.of_no_writes hdb rfl (by simp), .of_no_writes rfl⟩
    · by_cases he : sq.engaged
      · have hw : ses.writes = [] := by
          by_contra hw
          have := h.base.lock p ses hp (.inl hw)
          rw [h.base.lock q sq hq he, Option.some.injEq] at this
          exact hqp this
        have heq : (s.commit p ses).db = s.db := view_nil ses hw s.db
        obtain ⟨hhist', htidy'⟩ := h.sessions q sq hq
        exact ⟨hhist'.congr (.of_eq heq) (by simp [Sys.commit, Sys.set, hw, insertedRows])
          le_rfl le_rfl, htidy'.congr (.of_eq heq)⟩
      · obtain ⟨hw, hphase⟩ := not_rebaselining_of_not_engaged he
        exact ⟨.of_no_writes hdb hw hphase, .of_no_writes hw⟩
  · intro q sq at_ days c hq hj hc
    rw [commit_sessions] at hq
    split_ifs at hq with hqp
    · cases hq
      simp at hc
    · exact (h.opens q sq at_ days c hq hj hc).commit hist htidy hp hq hj hc hok

theorem HInv.abort (h : HInv snapshot₀ s) {p : ℕ} {ses : Session Y} :
    HInv snapshot₀ (s.abort p ses) := by
  refine ⟨h.base.abort, h.hist, ?_, ?_⟩
  · intro q sq hq
    rw [abort_sessions] at hq
    split_ifs at hq with hqp
    · cases hq
      exact ⟨.of_no_writes h.hist rfl (by simp), .of_no_writes rfl⟩
    · obtain ⟨hhist, htidy⟩ := h.sessions q sq hq
      exact ⟨hhist.congr (.refl _) rfl le_rfl le_rfl, htidy⟩
  · intro q sq at_ days c hq hj hc
    rw [abort_sessions] at hq
    split_ifs at hq with hqp
    · cases hq
      simp at hc
    · exact (h.opens q sq at_ days c hq hj hc).congr (.refl _) rfl

theorem HInv.start (h : HInv snapshot₀ s) {p : ℕ} {job : Job Y} {now : ℤ} :
    HInv snapshot₀ (s.set p { startedAt := now, job := job }) := by
  refine ⟨h.base.start, h.hist, ?_, ?_⟩
  · intro q sq hq
    rw [set_sessions] at hq
    split_ifs at hq with hqp
    · cases hq
      exact ⟨.of_no_writes h.hist rfl (by simp), .of_no_writes rfl⟩
    · obtain ⟨hhist, htidy⟩ := h.sessions q sq hq
      exact ⟨hhist.congr (.refl _) rfl le_rfl le_rfl, htidy⟩
  · intro q sq at_ days c hq hj hc
    rw [set_sessions] at hq
    split_ifs at hq with hqp
    · cases hq
      simp at hc
    · exact (h.opens q sq at_ days c hq hj hc).congr (.refl _) rfl

theorem HInv.prune (h : HInv snapshot₀ s) (hbase : Inv snapshot₀ s') (hp : Pruned s.db s'.db)
    (hc : s'.committed = s.committed) (hn : s.nextId ≤ s'.nextId)
    (hm : s.nextCheckpointId ≤ s'.nextCheckpointId) (hses : s'.sessions = s.sessions) :
    HInv snapshot₀ s' := by
  refine ⟨hbase, ?_, ?_, ?_⟩
  · obtain ⟨H, haf, hist⟩ := h.hist
    exact ⟨H, haf, hc ▸ (hist.mono hn hm).prune hp⟩
  · intro q sq hq
    rw [hses] at hq
    obtain ⟨hhist, htidy⟩ := h.sessions q sq hq
    exact ⟨hhist.congr hp hc hn hm, htidy.congr hp⟩
  · intro q sq at_ days c hq hj hphase
    rw [hses] at hq
    exact (h.opens q sq at_ days c hq hj hphase).congr hp hc

theorem HInv.step (hY : Y.Lawful) (h : HInv snapshot₀ s) {a : Act Y} (hok : HistoryOk s a)
    (hs : Docs.step s a = some s') : HInv snapshot₀ s' := by
  have hbase := h.base.step hY hs
  cases step_cases hs with
  | exec hp hst hf => exact h.exec hY hp hst hf hok
  | commit hp _ => exact h.commit hp hok
  | abort _ _ => exact h.abort
  | start _ => exact h.start
  | idle => exact h
  | cleanup =>
    refine h.prune hbase ⟨rfl, rfl, rfl, fun c hc => (List.mem_filter.mp hc).1, fun c hc he => ?_⟩
      rfl le_rfl le_rfl rfl
    exact List.mem_filter.mpr ⟨hc, by simp [he]⟩
  | nextval => exact h.prune hbase (.refl _) rfl (Nat.le_succ _) le_rfl rfl

theorem HInv.init (snapshot₀ : Y.Update) (now : ℤ) : HInv snapshot₀ (initial snapshot₀ now) := by
  refine ⟨.init snapshot₀ now, ⟨0, toDate now, ?_⟩, ?_, ?_⟩
  · refine ⟨.nil, by simp [initial], by simp [initial], Nat.one_pos, by simp [initial], .inl rfl,
      by simp [initial], ⟨now, rfl, rfl⟩, ⟨_, List.mem_singleton_self _, rfl, rfl, le_rfl⟩, ?_, ?_⟩
    · intro c hc
      simp only [initial, List.mem_singleton] at hc
      subst hc
      exact ⟨by simp [folded, initial], .inl rfl, by simp [initial], fun _ => le_rfl,
        fun hlt => absurd hlt (lt_irrefl _)⟩
    · intro c hc
      simp only [initial, List.mem_singleton] at hc
      subst hc
      exact Nat.one_pos
  · intro p ses hp
    simp [initial] at hp
  · intro p ses at_ days c hp
    simp [initial] at hp

theorem HInv.reach (hY : Y.Lawful) {now : ℤ}
    (h : Reach Docs.step HistoryOk (initial snapshot₀ now) s) : HInv snapshot₀ s :=
  h.invariant (.init snapshot₀ now) fun _ _ _ hi hok hs => hi.step hY hok hs

theorem mem_versionRows (hist : HistInv snapshot₀ s.committed nextId nextCheckpointId H haf s.db)
    {at_ : ℤ} {c : Checkpoint Y} (h : OpenInv snapshot₀ s at_ c) (x : UpdateRow Y) :
    x ∈ versionRows s.db.historyUpdates c.throughUpdateId at_ ↔
      ∃ r ∈ s.committed, (c.throughUpdateId < r.id ∧ r.dated ≤ at_) ∧ x = r.mirror := by
  simp only [versionRows, mem_orderById, List.mem_filter, decide_eq_true_eq]
  constructor
  · rintro ⟨hx, hlt, hle⟩
    obtain ⟨r, hr, -, rfl⟩ := (hist.history x).mp hx
    exact ⟨r, hr, ⟨hlt, hle⟩, rfl⟩
  · rintro ⟨r, hr, ⟨hlt, hle⟩, rfl⟩
    exact ⟨h.kept r hr hlt hle, hlt, hle⟩

theorem folded_filter (p : UpdateRow Y → Prop) [DecidablePred p] :
    folded snapshot₀ L p =
      Y.content snapshot₀ ∪ Y.contents ((L.filter fun r => p r).map (·.update)) := by
  unfold folded Yjs.contents
  congr 1
  ext x
  simp only [Set.mem_ofPred_eq, List.mem_map, List.mem_filter, decide_eq_true_eq]
  constructor
  · rintro ⟨r, hr, hp, hx⟩
    exact ⟨_, ⟨r, ⟨hr, hp⟩, rfl⟩, hx⟩
  · rintro ⟨_, ⟨r, ⟨hr, hp⟩, rfl⟩, hx⟩
    exact ⟨r, hr, hp, hx⟩

/-- The document that transaction `p` has opened. -/
def openedDoc (s : Sys Y) (p : ℕ) : Option Y.Doc :=
  (s.sessions p).bind fun ses => match ses.phase with
    | .opened doc => some doc
    | _ => none

/-- An open returns a document by replaying the history onto the checkpoint it chose. -/
theorem opened_of_exec {p : ℕ} {ses : Session Y} {at_ : ℤ} {days : ℕ} {doc : Y.Doc}
    (hs : Docs.step s (.exec p) = some s') (hp : s.sessions p = some ses)
    (hj : ses.job = .openVersion at_ days) (hdoc : openedDoc s' p = some doc) :
    ∃ c, ses.phase = .opening c ∧ doc = replay c.state
      (versionRows (ses.view s.db).historyUpdates c.throughUpdateId at_) := by
  simp only [Docs.step, hp, Option.bind_some] at hs
  obtain ⟨ses', hst, hf⟩ := exec_stmt hs
  rw [openedDoc, hf.sessions, Function.update_self, Option.bind_some] at hdoc
  cases hst with
  | lockDoc => simp at hdoc
  | readPending => simp at hdoc
  | compact => simp at hdoc
  | skipCompaction => simp at hdoc
  | noUpdate hj' => simp [hj'] at hj
  | append hj' => simp [hj'] at hj
  | chooseCheckpoint hj' => simp [hj'] at hj
  | rebaseline => simp at hdoc
  | checkAvailable hj' =>
    rename_i at' days' _
    rcases checkAvailable_cases (ses.view s.db) ses.startedAt at' days' with
      ⟨_, -, -, hn⟩ | ⟨_, hn⟩ <;> simp [hn] at hdoc
  | noCheckpoint => simp at hdoc
  | readCheckpoint => simp at hdoc
  | readHistory hj' hc =>
    rw [hj'] at hj
    cases hj
    cases hdoc
    exact ⟨_, hc, rfl⟩

/-- In a run whose compactions and commits all meet `HistoryOk`, what `openDocVersionAt` returns
for an instant is the first snapshot with exactly the committed updates dated at or before it. -/
theorem openDocVersionAt_exact (hY : Y.Lawful) {now : ℤ}
    (h : Reach Docs.step HistoryOk (initial snapshot₀ now) s) {p : ℕ} {ses : Session Y}
    {at_ : ℤ} {days : ℕ} {doc : Y.Doc} (hp : s.sessions p = some ses)
    (hj : ses.job = .openVersion at_ days) (hs : Docs.step s (.exec p) = some s')
    (hdoc : openedDoc s' p = some doc) :
    Y.structs doc = Y.structs (replay snapshot₀
      (s.committed.filter fun r => toDate r.createdAt ≤ at_)) := by
  have hinv : HInv snapshot₀ s := .reach hY h
  obtain ⟨c, hc, rfl⟩ := opened_of_exec hs hp hj hdoc
  have hopen := hinv.opens p ses at_ days c hp hj hc
  obtain ⟨H, haf, hist⟩ := hinv.hist
  rw [view_nil ses ((hinv.sessions p ses hp).2.opens at_ days hj),
    folded_replay hY hopen.state (mem_versionRows hist hopen), structs_replay hY,
    ← folded_filter]
  refine folded_congr fun r hr => ⟨?_, fun hle => ?_⟩
  · rintro (hle | ⟨-, hle⟩)
    · exact hopen.current r hr hle
    · exact hle
  · by_cases hid : r.id ≤ c.throughUpdateId
    · exact .inl hid
    · exact .inr ⟨not_le.mp hid, hle⟩

/-- A test for `HistoryOk` that can be run: a commit that deletes no history row passes it. -/
def historyOkCheck (s : Sys Y) : Act Y → Bool
  | .exec p => (s.sessions p).all fun ses => match ses.phase with
    | .loaded _ pending => pending.getLast?.all fun boundary =>
        (s.committed ++ insertedRows ses.writes).all fun r =>
          toDate r.createdAt ≤ toDate boundary.createdAt
    | _ => true
  | .commit p => (s.sessions p).all fun ses => ses.writes.all fun w => match w with
    | .deleteHistory _ => false
    | _ => true
  | _ => true

theorem mem_view_history : ∀ (ws : List (Write Y)) {t : Tables Y} {row : UpdateRow Y},
    (∀ w ∈ ws, ∀ ids, w ≠ .deleteHistory ids) → row ∈ t.historyUpdates →
    row ∈ (applyWrites ws t).historyUpdates
  | [], _, _, _, h => h
  | w :: ws, t, row, hws, h => by
    refine mem_view_history ws (t := w.apply t) (fun w' hw' => hws w' (by simp [hw'])) ?_
    have hne := hws w (by simp)
    cases w <;> simp_all [Write.apply]

theorem historyOk_of_check (s : Sys Y) (a : Act Y) (h : historyOkCheck s a = true) :
    HistoryOk s a := by
  cases a with
  | exec p =>
    intro ses call rest doc pending boundary hp _ hphase _ hb r hr
    simp only [historyOkCheck, hp, hphase, hb, Option.all_some, List.all_eq_true,
      decide_eq_true_eq] at h
    exact h r hr
  | commit p =>
    intro ses q reader at_ days c row hp _ _ _ hrow _ _
    simp only [historyOkCheck, hp, Option.all_some, List.all_eq_true] at h
    refine mem_view_history ses.writes (fun w hw ids heq => ?_) hrow
    have := h w hw
    simp [heq] at this
  | begin | abort | sweep | cleanup | nextval => exact trivial

section runs

open Yjs (singleClient)

/-- Two edits: the transaction of the first starts at 2 s and commits first, the second's started
at 1 s. -/
def backdatedEdits : List (Act singleClient) :=
  [.begin 0 (.calls ⟨some fun _ => [0], 200, 30⟩ []) 2000000,
    .begin 1 (.calls ⟨some fun _ => [1], 200, 30⟩ []) 1000000,
    .exec 0, .exec 0, .exec 0, .exec 0, .commit 0,
    .exec 1, .exec 1, .exec 1, .exec 1, .commit 1]

/-- A compaction whose threshold is two pending updates. -/
def compaction : List (Act singleClient) :=
  [.begin 2 (.calls ⟨none, 2, 30⟩ []) 3000000, .exec 2, .exec 2, .exec 2, .exec 2, .commit 2]

def openAt : List (Act singleClient) :=
  [.begin 3 (.openVersion 1500000 30) 3000000, .exec 3, .exec 3]

def openAfter (as : List (Act singleClient)) : Option (Sys singleClient × Sys singleClient) :=
  (runActs Docs.step (initial [] 0) (as ++ openAt)).bind fun s =>
    (Docs.step s (.exec 3)).map fun s' => (s, s')

/-- Compacted, the two edits stand for 1 s, and the version at 1.5 s has the edit of 2 s in it. -/
theorem openDocVersionAt_includes_later :
    ¬ ∀ (s s' : Sys singleClient) (ses : Session singleClient) (doc : singleClient.Doc),
      Reach Docs.step (fun _ _ => True) (initial [] 0) s → s.sessions 3 = some ses →
      ses.job = .openVersion 1500000 30 → Docs.step s (.exec 3) = some s' →
      openedDoc s' 3 = some doc →
      singleClient.structs doc = singleClient.structs (replay []
        (s.committed.filter fun r => toDate r.createdAt ≤ 1500000)) := by
  intro h
  obtain ⟨⟨s, s'⟩, hrun⟩ := Option.isSome_iff_exists.mp
    (rfl : (openAfter (backdatedEdits ++ compaction)).isSome = true)
  have hjob : (s.sessions 3).map (·.job) = some (.openVersion 1500000 30) :=
    eq_of_map_eq (f := fun x => (x.1.sessions 3).map (·.job)) hrun rfl
  have hdoc : openedDoc s' 3 = some [0, 1] :=
    eq_of_map_eq (f := fun x => openedDoc x.2 3) hrun rfl
  have hexp : replay (Y := singleClient) []
      (s.committed.filter fun r => toDate r.createdAt ≤ 1500000) = [1] :=
    eq_of_map_eq (f := fun x => replay (Y := singleClient) []
      (x.1.committed.filter fun r => toDate r.createdAt ≤ 1500000)) hrun rfl
  obtain ⟨ses, hses, hjob⟩ := Option.map_eq_some_iff.mp hjob
  obtain ⟨s₁, hreach, hs⟩ := Option.bind_eq_some_iff.mp hrun
  obtain ⟨s₂, hstep, heq⟩ := Option.map_eq_some_iff.mp hs
  cases heq
  have hset := h s s' ses [0, 1] (.of_runActs hreach) hses hjob hstep hdoc
  rw [hexp] at hset
  have hmem : ∀ n : ℕ, n ∈ [0, 1] ↔ n ∈ [1] := fun n => Set.ext_iff.mp hset n
  simpa using hmem 0

/-- The same edits without the compaction, opened at the same instant. -/
theorem openDocVersionAt_exact_uncompacted : ∃ (s s' : Sys singleClient) (doc : singleClient.Doc),
    openAfter backdatedEdits = some (s, s') ∧ openedDoc s' 3 = some doc ∧
      singleClient.structs doc = singleClient.structs (replay []
        (s.committed.filter fun r => toDate r.createdAt ≤ 1500000)) := by
  obtain ⟨s, hs⟩ := Option.isSome_iff_exists.mp (rfl : (runChecked Docs.step historyOkCheck
    (initial (Y := singleClient) [] 0) (backdatedEdits ++ openAt)).isSome = true)
  obtain ⟨s', hs'⟩ := Option.isSome_iff_exists.mp
    (eq_of_map_eq (f := fun s => (Docs.step s (.exec 3)).isSome) hs rfl)
  have hjob : (s.sessions 3).map (·.job) = some (.openVersion 1500000 30) :=
    eq_of_map_eq (f := fun s => (s.sessions 3).map (·.job)) hs rfl
  obtain ⟨ses, hses, hjob⟩ := Option.map_eq_some_iff.mp hjob
  have hdoc : openedDoc s' 3 = some [1] := by
    have := eq_of_map_eq (f := fun s => (Docs.step s (.exec 3)).bind fun s' => openedDoc s' 3)
      (b := some [1]) hs rfl
    rwa [hs', Option.bind_some] at this
  have hrun : runActs Docs.step (initial [] 0) (backdatedEdits ++ openAt) = some s :=
    runActs_of_runChecked hs
  refine ⟨s, s', [1], by simp [openAfter, hrun, hs'], hdoc, ?_⟩
  exact openDocVersionAt_exact Yjs.singleClient_lawful (.of_runChecked historyOk_of_check hs)
    hses hjob hs' hdoc

end runs

end Docs

end Semprec
