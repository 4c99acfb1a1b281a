import Semprec.Proofs.DocsSteps
import Semprec.SingleClient

/-!
# Compaction is transparent

Whatever transactions interleave on a document, its snapshot and pending updates together carry
the first snapshot and every update committed since (`loadDoc_eq_join`).  Only the holder of the
row lock has read the document or written to it, so what it read is still there when it commits.
-/

namespace Semprec

namespace Docs

variable {Y : Yjs}

def Tables.total (t : Tables Y) : Set Y.Struct :=
  Y.content t.snapshot ∪ Y.contents (t.docUpdates.map (·.update))

section views

theorem applyWrites_append (ws vs : List (Write Y)) (t : Tables Y) :
    applyWrites (ws ++ vs) t = applyWrites vs (applyWrites ws t) := by
  simp [applyWrites]

theorem mem_orderById {r : UpdateRow Y} {rows : List (UpdateRow Y)} :
    r ∈ orderById rows ↔ r ∈ rows := by
  unfold orderById
  exact List.mem_insertionSort _

theorem contents_orderById (rows : List (UpdateRow Y)) :
    Y.contents ((orderById rows).map (·.update)) = Y.contents (rows.map (·.update)) := by
  refine Yjs.contents_congr fun u => ?_
  simp only [List.mem_map, mem_orderById]

theorem structs_replay (hY : Y.Lawful) (state : Y.Update) (rows : List (UpdateRow Y)) :
    Y.structs (replay state rows) = Y.content state ∪ Y.contents (rows.map (·.update)) := by
  unfold replay
  rw [hY.structs_applyUpdates, hY.structs_applyUpdate_newDoc]

theorem structs_loadDoc (hY : Y.Lawful) (t : Tables Y) : Y.structs (loadDoc t) = t.total := by
  unfold loadDoc Tables.total
  rw [structs_replay hY, contents_orderById]

/-- A transaction's view of the document's content depends on the committed content alone. -/
theorem applyWrites_doc : ∀ (ws : List (Write Y)) {t t' : Tables Y}, t.snapshot = t'.snapshot →
    t.docUpdates = t'.docUpdates →
    (applyWrites ws t).snapshot = (applyWrites ws t').snapshot ∧
      (applyWrites ws t).docUpdates = (applyWrites ws t').docUpdates
  | [], t, t', hs, hu => ⟨hs, hu⟩
  | w :: ws, t, t', hs, hu => by
    refine applyWrites_doc ws (?_ : (w.apply t).snapshot = (w.apply t').snapshot) ?_ <;>
      cases w <;> simp [Write.apply, hs, hu]

/-- After compaction the snapshot is the loaded document and nothing is pending. -/
theorem applyWrites_compact (id : ℕ) (doc : Y.Doc) (t : Tables Y) (days : ℕ) :
    (applyWrites (Docs.compact id doc (orderById t.docUpdates) days) t).snapshot =
        Y.encodeStateAsUpdate doc ∧
      (applyWrites (Docs.compact id doc (orderById t.docUpdates) days) t).docUpdates = [] := by
  unfold Docs.compact
  rcases hl : (orderById t.docUpdates).getLast? with _ | b
  · rw [List.getLast?_eq_none_iff] at hl
    have hnil : t.docUpdates = [] :=
      List.eq_nil_iff_forall_not_mem.mpr fun r hr => by simpa [hl] using mem_orderById.mpr hr
    simp [applyWrites, Write.apply, hnil]
  · refine ⟨by simp [applyWrites, Write.apply], ?_⟩
    simp only [applyWrites, List.foldl_cons, List.foldl_nil, Write.apply,
      List.filter_eq_nil_iff, List.mem_map, decide_eq_true_eq, not_not]
    exact fun r hr => ⟨r, mem_orderById.mpr hr, rfl⟩

theorem applyWrites_append_row (id : ℕ) (e : Y.Update) (startedAt : ℤ) (t : Tables Y) :
    (applyWrites (appendDocUpdate id e startedAt) t).snapshot = t.snapshot ∧
      (applyWrites (appendDocUpdate id e startedAt) t).docUpdates =
        t.docUpdates ++ [{ id := id, update := e, createdAt := startedAt }] := by
  simp [applyWrites, appendDocUpdate, Write.apply]

theorem applyWrites_rebaseline (id : ℕ) (view : Tables Y) (cutoff : ℤ) (c : Checkpoint Y)
    (t : Tables Y) :
    (applyWrites (Docs.rebaseline id view cutoff c) t).snapshot = t.snapshot ∧
      (applyWrites (Docs.rebaseline id view cutoff c) t).docUpdates = t.docUpdates := by
  simp [applyWrites, Docs.rebaseline, Write.apply]

end views

/-- Phases in which a transaction has read the document under its lock. -/
def Phase.holdsLock : Phase Y → Prop
  | .locked _ | .loaded _ _ | .ready _ | .rebaselining _ _ => True
  | _ => False

def Session.engaged (ses : Session Y) : Prop := ses.writes ≠ [] ∨ ses.phase.holdsLock

/-- What a transaction that has loaded the document read is still what it sees. -/
def PhaseInv (view : Tables Y) : Phase Y → Prop
  | .locked snapshot => snapshot = view.snapshot
  | .loaded doc pending => pending = orderById view.docUpdates ∧ Y.structs doc = view.total
  | .ready doc => Y.structs doc = view.total
  | _ => True

structure SessionInv (snapshot₀ : Y.Update) (s : Sys Y) (ses : Session Y) : Prop where
  total : (ses.view s.db).total = Y.content snapshot₀ ∪
    Y.contents ((s.committed ++ insertedRows ses.writes).map (·.update))
  phase : PhaseInv (ses.view s.db) ses.phase
  removed : ∀ r ∈ s.db.docUpdates, r ∉ (ses.view s.db).docUpdates →
    Y.content r.update ⊆ Y.content (ses.view s.db).snapshot ∧
      .setSnapshot (ses.view s.db).snapshot ∈ ses.writes
  seen : ses.engaged → ses.committedAtLock = s.committed

structure Inv (snapshot₀ : Y.Update) (s : Sys Y) : Prop where
  total : s.db.total = Y.content snapshot₀ ∪ Y.contents (s.committed.map (·.update))
  pending : ∀ r ∈ s.db.docUpdates, r ∈ s.committed
  lock : ∀ p ses, s.sessions p = some ses → ses.engaged → s.lock = some p
  sessions : ∀ p ses, s.sessions p = some ses → SessionInv snapshot₀ s ses

variable {snapshot₀ : Y.Update} {s s' : Sys Y}

theorem view_nil (ses : Session Y) (h : ses.writes = []) (db : Tables Y) : ses.view db = db := by
  simp [Session.view, h, applyWrites]

theorem SessionInv.of_not_engaged {ses : Session Y}
    (htotal : s.db.total = Y.content snapshot₀ ∪ Y.contents (s.committed.map (·.update)))
    (h : ¬ ses.engaged) : SessionInv snapshot₀ s ses := by
  have hw : ses.writes = [] := by
    by_contra hw
    exact h (.inl hw)
  have hp : ¬ ses.phase.holdsLock := fun hp => h (.inr hp)
  have hv : ses.view s.db = s.db := view_nil ses hw s.db
  refine ⟨?_, ?_, fun r hr hn => absurd (by rwa [hv]) hn, fun he => absurd he h⟩
  · rw [hv, hw, insertedRows, List.append_nil, htotal]
  · unfold PhaseInv
    split <;> rename_i heq <;> simp [heq, Phase.holdsLock] at hp ⊢

/-- A session is judged by the document's content, the committed updates and itself alone. -/
theorem SessionInv.congr {ses : Session Y} (h : SessionInv snapshot₀ s ses)
    (hs : s'.db.snapshot = s.db.snapshot) (hu : s'.db.docUpdates = s.db.docUpdates)
    (hc : s'.committed = s.committed) : SessionInv snapshot₀ s' ses := by
  obtain ⟨h1, h2⟩ := applyWrites_doc ses.writes hs hu
  have ht : (ses.view s'.db).total = (ses.view s.db).total := by
    simp [Session.view, Tables.total, h1, h2]
  refine ⟨?_, ?_, ?_, ?_⟩
  · rw [ht, hc]
    exact h.total
  · have hp := h.phase
    unfold PhaseInv at hp ⊢
    split <;> simp_all [Session.view]
  · simp only [Session.view, h1, h2, hu]
    exact h.removed
  · rw [hc]
    exact h.seen

theorem Stmt.engaged {p : ℕ} {ses ses' : Session Y} (h : Stmt s p ses ses') :
    ((∃ snapshot, ses'.phase = .locked snapshot) ∧ ses'.committedAtLock = s.committed) ∨
      (ses'.committedAtLock = ses.committedAtLock ∧ (ses'.engaged → ses.engaged)) := by
  cases h with
  | lockDoc => exact .inl ⟨⟨_, rfl⟩, rfl⟩
  | readPending h | compact _ h _ | skipCompaction h | chooseCheckpoint _ h | rebaseline _ h => exact .inr ⟨rfl, fun _ => .inr (by simp [h, Phase.holdsLock])⟩
  | noUpdate _ h _ | append _ h _ =>
    exact .inr ⟨nextCall_committedAtLock .., fun _ => .inr (by simp [h, Phase.holdsLock])⟩
  | checkAvailable _ h =>
    rename_i at_ days _
    refine .inr ⟨rfl, fun he => ?_⟩
    rcases checkAvailable_cases (ses.view s.db) ses.startedAt at_ days with
      ⟨_, -, -, hc⟩ | ⟨_, hc⟩ <;> simpa [Session.engaged, hc, Phase.holdsLock, h] using he
  | noCheckpoint _ h _ | readCheckpoint _ h _ | readHistory _ h =>
    exact .inr ⟨rfl, fun he => by simpa [Session.engaged, Phase.holdsLock, h] using he⟩

theorem SessionInv.quiet {ses ses' : Session Y} (h : SessionInv snapshot₀ s ses)
    (hw : ses'.writes = ses.writes) (hphase : PhaseInv (ses.view s.db) ses'.phase)
    (hseen : ses'.engaged → ses'.committedAtLock = s.committed) :
    SessionInv snapshot₀ s ses' := by
  have hv : ses'.view s.db = ses.view s.db := by simp [Session.view, hw]
  refine ⟨?_, ?_, ?_, hseen⟩
  · rw [hv, hw]
    exact h.total
  · rwa [hv]
  · rw [hv, hw]
    exact h.removed

theorem SessionInv.compact (hY : Y.Lawful) {ses : Session Y} {doc : Y.Doc}
    {pending : List (UpdateRow Y)} (h : SessionInv snapshot₀ s ses)
    (hp : ses.phase = .loaded doc pending) (id days : ℕ)
    (hseen : ses.committedAtLock = s.committed) :
    SessionInv snapshot₀ s { ses with
      phase := .ready doc, writes := ses.writes ++ Docs.compact id doc pending days } := by
  obtain ⟨rfl, hdoc⟩ : pending = orderById (ses.view s.db).docUpdates ∧
      Y.structs doc = (ses.view s.db).total := by
    have := h.phase
    rwa [hp] at this
  obtain ⟨hs, hu⟩ := applyWrites_compact id doc (ses.view s.db) days
  set ws := Docs.compact id doc (orderById (ses.view s.db).docUpdates) days with hws
  have hview : ∀ db, db = s.db → applyWrites (ses.writes ++ ws) db =
      applyWrites ws (ses.view s.db) := by
    rintro _ rfl
    exact applyWrites_append ..
  have ht : (applyWrites (ses.writes ++ ws) s.db).total = (ses.view s.db).total := by
    rw [hview _ rfl, Tables.total, hs, hu, hY.content_encodeStateAsUpdate, hdoc]
    simp
  refine ⟨?_, ?_, ?_, fun _ => hseen⟩
  · simp only [Session.view]
    rw [ht, insertedRows_append, insertedRows_compact, List.append_nil]
    exact h.total
  · simp only [Session.view, PhaseInv]
    rw [ht, hdoc]
  · intro r hr _
    simp only [Session.view]
    rw [hview _ rfl, hs, hY.content_encodeStateAsUpdate, hdoc]
    refine ⟨?_, by simp [hws, Docs.compact]⟩
    by_cases hin : r ∈ (ses.view s.db).docUpdates
    · exact (Yjs.content_subset_contents (List.mem_map_of_mem hin)).trans
        Set.subset_union_right
    · exact (h.removed r hr hin).1.trans Set.subset_union_left

theorem SessionInv.append {ses ses' : Session Y} (h : SessionInv snapshot₀ s ses) (id : ℕ)
    (e : Y.Update) (hw : ses'.writes = ses.writes ++ appendDocUpdate id e ses.startedAt)
    (hphase : ses'.phase = .begun ∨ ses'.phase = .done)
    (hseen : ses'.committedAtLock = s.committed) : SessionInv snapshot₀ s ses' := by
  obtain ⟨hs, hu⟩ := applyWrites_append_row id e ses.startedAt (ses.view s.db)
  have hview : ses'.view s.db =
      applyWrites (appendDocUpdate id e ses.startedAt) (ses.view s.db) := by
    rw [Session.view, hw, applyWrites_append]
    rfl
  refine ⟨?_, ?_, ?_, fun _ => hseen⟩
  · have ht := h.total
    rw [Tables.total] at ht ⊢
    rw [hview, hs, hu, hw, insertedRows_append]
    simp only [List.map_append, Yjs.contents_append, appendDocUpdate, insertedRows,
      List.map_cons, List.map_nil] at ht ⊢
    rw [← Set.union_assoc, ht]
    simp only [Set.union_assoc]
  · rcases hphase with hphase | hphase <;> rw [hphase] <;> trivial
  · intro r hr hn
    rw [hview, hs, hw]
    rw [hview, hu, List.mem_append, not_or] at hn
    obtain ⟨h1, h2⟩ := h.removed r hr hn.1
    exact ⟨h1, List.mem_append_left _ h2⟩

theorem SessionInv.rebaseline {ses : Session Y} (h : SessionInv snapshot₀ s ses) (id : ℕ)
    (cutoff : ℤ) (c : Checkpoint Y) (hseen : ses.committedAtLock = s.committed) :
    SessionInv snapshot₀ s { ses with
      phase := .done
      writes := ses.writes ++ Docs.rebaseline id (ses.view s.db) cutoff c } := by
  obtain ⟨hs, hu⟩ := applyWrites_rebaseline id (ses.view s.db) cutoff c (ses.view s.db)
  set ws := Docs.rebaseline id (ses.view s.db) cutoff c with hws
  have hview : ∀ db, db = s.db → applyWrites (ses.writes ++ ws) db =
      applyWrites ws (ses.view s.db) := by
    rintro _ rfl
    exact applyWrites_append ..
  refine ⟨?_, trivial, ?_, fun _ => hseen⟩
  · have ht := h.total
    simp only [Session.view, Tables.total] at ht ⊢
    rw [hview _ rfl, hs, hu, insertedRows_append, show insertedRows ws = [] from rfl,
      List.append_nil]
    exact ht
  · intro r hr hn
    simp only [Session.view] at hn ⊢
    rw [hview _ rfl] at hn ⊢
    rw [hu] at hn
    rw [hs]
    obtain ⟨h1, h2⟩ := h.removed r hr hn
    exact ⟨h1, List.mem_append_left _ h2⟩

/-- A statement keeps what a session relies on. -/
theorem SessionInv.stmt (hY : Y.Lawful) {p : ℕ} {ses ses' : Session Y}
    (h : SessionInv snapshot₀ s ses) (hst : Stmt s p ses ses') : SessionInv snapshot₀ s ses' := by
  have hseen : ses'.engaged → ses'.committedAtLock = s.committed := by
    rcases hst.engaged with ⟨-, hc⟩ | ⟨hc, he⟩
    · exact fun _ => hc
    · exact fun he' => hc.trans (h.seen (he he'))
  cases hst with
  | lockDoc hp hl => exact h.quiet rfl rfl hseen
  | readPending hp =>
    have hsnap := h.phase
    rw [hp] at hsnap
    refine h.quiet rfl ⟨rfl, ?_⟩ hseen
    rw [structs_replay hY, contents_orderById, Tables.total, hsnap]
  | compact hj hp hle =>
    exact h.compact hY hp _ _ (h.seen (.inr (by simp [hp, Phase.holdsLock])))
  | skipCompaction hp =>
    have hloaded := h.phase
    rw [hp] at hloaded
    exact h.quiet rfl hloaded.2 hseen
  | noUpdate hj hp he =>
    refine h.quiet (nextCall_writes ..) ?_ hseen
    rcases nextCall_phase ses _ with hn | hn <;> rw [hn] <;> trivial
  | append hj hp he =>
    exact h.append _ _ rfl (nextCall_phase ses _)
      ((nextCall_committedAtLock ..).trans (h.seen (.inr (by simp [hp, Phase.holdsLock]))))
  | chooseCheckpoint hj hp =>
    rename_i days _
    refine h.quiet rfl ?_ hseen
    rcases chooseCheckpoint_cases (ses.view s.db) ses.startedAt days with
      ⟨_, _, _, -, -, -, hc⟩ | hc <;> simp only [hc] <;> trivial
  | rebaseline hj hp =>
    exact h.rebaseline _ _ _ (h.seen (.inr (by simp [hp, Phase.holdsLock])))
  | checkAvailable hj hp =>
    rename_i at_ days
    refine h.quiet rfl ?_ hseen
    rcases checkAvailable_cases (ses.view s.db) ses.startedAt at_ days with
      ⟨_, -, -, hc⟩ | ⟨_, hc⟩ <;> simp only [hc] <;> trivial
  | noCheckpoint hj hp hc => exact h.quiet rfl trivial hseen
  | readCheckpoint hj hp hc => exact h.quiet rfl trivial hseen
  | readHistory hj hp => exact h.quiet rfl trivial hseen

theorem mem_view_docUpdates : ∀ (ws : List (Write Y)) {t : Tables Y} {r : UpdateRow Y},
    r ∈ (applyWrites ws t).docUpdates → r ∈ t.docUpdates ∨ r ∈ insertedRows ws
  | [], _, _, h => .inl h
  | w :: ws, t, r, h => by
    have ih := mem_view_docUpdates ws (t := w.apply t) h
    cases w <;> simp only [Write.apply, insertedRows, List.mem_append, List.mem_cons,
      List.mem_filter] at ih ⊢ <;> grind

theorem set_sessions (s : Sys Y) (p q : ℕ) (ses : Session Y) :
    (s.set p ses).sessions q = if q = p then some ses else s.sessions q := by
  simp [Sys.set, Function.update_apply]

theorem commit_sessions (s : Sys Y) (p q : ℕ) (ses : Session Y) :
    (s.commit p ses).sessions q =
      if q = p then some { ses with phase := .committed, writes := [] } else s.sessions q :=
  set_sessions ..

theorem abort_sessions (s : Sys Y) (p q : ℕ) (ses : Session Y) :
    (s.abort p ses).sessions q =
      if q = p then some { ses with phase := .aborted, writes := [] } else s.sessions q :=
  set_sessions ..

/-- Ending a transaction releases its own lock only. -/
theorem commit_lock {p q : ℕ} {ses : Session Y} (hl : s.lock = some q) (hqp : q ≠ p) :
    (s.commit p ses).lock = some q := by
  simp [Sys.commit, Sys.set, hl, hqp]

theorem abort_lock {p q : ℕ} {ses : Session Y} (hl : s.lock = some q) (hqp : q ≠ p) :
    (s.abort p ses).lock = some q := by
  simp [Sys.abort, Sys.set, hl, hqp]

theorem not_engaged_of_ended {ses : Session Y} {phase : Phase Y} (h : ¬ phase.holdsLock) :
    ¬ ({ ses with phase := phase, writes := [] } : Session Y).engaged := by
  rintro (hw | hp)
  · exact hw rfl
  · exact h hp

theorem Inv.commit (h : Inv snapshot₀ s) {p : ℕ} {ses : Session Y}
    (hp : s.sessions p = some ses) : Inv snapshot₀ (s.commit p ses) := by
  have hses := h.sessions p ses hp
  have htotal : (s.commit p ses).db.total = Y.content snapshot₀ ∪
      Y.contents ((s.commit p ses).committed.map (·.update)) := hses.total
  have hother : ∀ q sq, q ≠ p → s.sessions q = some sq → sq.engaged →
      s.lock = some q ∧ ses.writes = [] := by
    intro q sq hqp hq he
    refine ⟨h.lock q sq hq he, ?_⟩
    by_contra hw
    have := h.lock p ses hp (.inl hw)
    rw [h.lock q sq hq he, Option.some.injEq] at this
    exact hqp this
  refine ⟨htotal, ?_, ?_, ?_⟩
  · intro r hr
    rcases mem_view_docUpdates _ hr with hr | hr
    · exact List.mem_append_left _ (h.pending r hr)
    · exact List.mem_append_right _ hr
  · intro q sq hq he
    rw [commit_sessions] at hq
    split_ifs at hq with hqp
    · cases hq
      exact absurd he (not_engaged_of_ended (by simp [Phase.holdsLock]))
    · exact commit_lock (hother q sq hqp hq he).1 hqp
  · intro q sq hq
    rw [commit_sessions] at hq
    split_ifs at hq with hqp
    · cases hq
      exact .of_not_engaged htotal (not_engaged_of_ended (by simp [Phase.holdsLock]))
    · by_cases he : sq.engaged
      · have hw := (hother q sq hqp hq he).2
        have hdb : (s.commit p ses).db = s.db := view_nil ses hw s.db
        exact (h.sessions q sq hq).congr (by rw [hdb]) (by rw [hdb])
          (by simp [Sys.commit, Sys.set, hw, insertedRows])
      · exact .of_not_engaged htotal he

theorem Inv.abort (h : Inv snapshot₀ s) {p : ℕ} {ses : Session Y} :
    Inv snapshot₀ (s.abort p ses) := by
  refine ⟨h.total, h.pending, ?_, ?_⟩
  · intro q sq hq he
    rw [abort_sessions] at hq
    split_ifs at hq with hqp
    · cases hq
      exact absurd he (not_engaged_of_ended (by simp [Phase.holdsLock]))
    · exact abort_lock (h.lock q sq hq he) hqp
  · intro q sq hq
    rw [abort_sessions] at hq
    split_ifs at hq with hqp
    · cases hq
      exact .of_not_engaged h.total (not_engaged_of_ended (by simp [Phase.holdsLock]))
    · exact (h.sessions q sq hq).congr rfl rfl rfl

theorem Inv.exec (hY : Y.Lawful) (h : Inv snapshot₀ s) {p : ℕ} {ses ses' : Session Y}
    (hp : s.sessions p = some ses) (hst : Stmt s p ses ses') (hf : ExecFrame s s' p ses ses') :
    Inv snapshot₀ s' := by
  refine ⟨?_, ?_, ?_, ?_⟩
  · rw [hf.db, hf.committed]
    exact h.total
  · rw [hf.db, hf.committed]
    exact h.pending
  · intro q sq hq he
    rw [hf.sessions, Function.update_apply] at hq
    have hkeep : ∀ q', s.lock = some q' → s'.lock = some q' := by
      intro q' hl
      rcases hf.lock with hl' | ⟨hl', -⟩
      · rw [hl', hl]
      · simp [hl] at hl'
    split_ifs at hq with hqp
    · cases hq
      subst hqp
      rcases hst.engaged with ⟨⟨snapshot, hlk⟩, -⟩ | ⟨-, he'⟩
      · exact hf.locked snapshot hlk
      · exact hkeep _ (h.lock _ ses hp (he' he))
    · exact hkeep _ (h.lock q sq hq he)
  · intro q sq hq
    rw [hf.sessions, Function.update_apply] at hq
    split_ifs at hq with hqp
    · cases hq
      exact ((h.sessions p ses hp).stmt hY hst).congr (by rw [hf.db]) (by rw [hf.db])
        hf.committed
    · exact (h.sessions q sq hq).congr (by rw [hf.db]) (by rw [hf.db]) hf.committed

theorem Inv.start (h : Inv snapshot₀ s) {p : ℕ} {job : Job Y} {now : ℤ} :
    Inv snapshot₀ (s.set p { startedAt := now, job := job }) := by
  have hne : ¬ ({ startedAt := now, job := job } : Session Y).engaged := by
    simp [Session.engaged, Phase.holdsLock]
  refine ⟨h.total, h.pending, ?_, ?_⟩
  · intro q sq hq he
    rw [set_sessions] at hq
    split_ifs at hq with hqp
    · cases hq
      exact absurd he hne
    · exact h.lock q sq hq he
  · intro q sq hq
    rw [set_sessions] at hq
    split_ifs at hq with hqp
    · cases hq
      exact .of_not_engaged h.total hne
    · exact (h.sessions q sq hq).congr rfl rfl rfl

/-- A step that leaves the document's content, the lock and the sessions alone. -/
theorem Inv.congr (h : Inv snapshot₀ s) (hs : s'.db.snapshot = s.db.snapshot)
    (hu : s'.db.docUpdates = s.db.docUpdates) (hc : s'.committed = s.committed)
    (hl : s'.lock = s.lock) (hses : s'.sessions = s.sessions) : Inv snapshot₀ s' := by
  refine ⟨?_, ?_, ?_, ?_⟩
  · have := h.total
    rw [Tables.total] at this ⊢
    rw [hs, hu, hc, this]
  · rw [hu, hc]
    exact h.pending
  · rw [hl, hses]
    exact h.lock
  · intro q sq hq
    rw [hses] at hq
    exact (h.sessions q sq hq).congr hs hu hc

theorem Inv.step (hY : Y.Lawful) {a : Act Y} (h : Inv snapshot₀ s)
    (hs : Docs.step s a = some s') : Inv snapshot₀ s' := by
  cases step_cases hs with
  | exec hp hst hf => exact h.exec hY hp hst hf
  | commit hp _ => exact h.commit hp
  | abort _ _ => exact h.abort
  | start _ => exact h.start
  | idle => exact h
  | cleanup => exact h.congr rfl rfl rfl rfl rfl
  | nextval => exact h.congr rfl rfl rfl rfl rfl

theorem Inv.init (snapshot₀ : Y.Update) (now : ℤ) : Inv snapshot₀ (initial snapshot₀ now) := by
  refine ⟨by simp [Tables.total, initial], by simp [initial], ?_, ?_⟩ <;>
    · intro p ses hp
      simp [initial] at hp

theorem Inv.reach (hY : Y.Lawful) {ok : Sys Y → Act Y → Prop} {now : ℤ}
    (h : Reach Docs.step ok (initial snapshot₀ now) s) : Inv snapshot₀ s :=
  h.invariant (.init snapshot₀ now) fun _ _ _ hi _ hs => hi.step hY hs

theorem Inv.removed_by_step (h : Inv snapshot₀ s) {a : Act Y} (hs : Docs.step s a = some s')
    {r : UpdateRow Y} (hr : r ∈ s.db.docUpdates) (hn : r ∉ s'.db.docUpdates) :
    ∃ p ses, a = .commit p ∧ s.sessions p = some ses ∧
      .setSnapshot s'.db.snapshot ∈ ses.writes ∧
      Y.content r.update ⊆ Y.content s'.db.snapshot ∧ r ∈ ses.committedAtLock := by
  cases step_cases hs with
  | exec hp hst hf => exact absurd (hf.db ▸ hr) hn
  | commit hp _ =>
    rename_i p ses _
    have hses := h.sessions p ses hp
    obtain ⟨hsub, hset⟩ := hses.removed r hr hn
    have hne : ses.writes ≠ [] := List.ne_nil_of_mem hset
    refine ⟨p, ses, rfl, hp, hset, hsub, ?_⟩
    rw [hses.seen (.inl hne)]
    exact h.pending r hr
  | abort _ _ => exact absurd hr hn
  | start _ => exact absurd hr hn
  | idle => exact absurd hr hn
  | cleanup => exact absurd hr hn
  | nextval => exact absurd hr hn

/-- Whatever interleaves on a document, loading it gives the join of its first snapshot and every
update committed since, also to a transaction in flight (with its own updates); and an update row
is only deleted by a transaction whose new snapshot carries it and that saw it committed when it
read the old one. -/
theorem loadDoc_eq_join (hY : Y.Lawful) {now : ℤ}
    (h : Reach Docs.step (fun _ _ => True) (initial snapshot₀ now) s) :
    Y.structs (loadDoc s.db) = Y.structs (replay snapshot₀ s.committed) ∧
    (∀ p ses doc, s.sessions p = some ses → ses.phase = .ready doc →
      Y.structs doc =
        Y.structs (replay snapshot₀ (s.committed ++ insertedRows ses.writes))) ∧
    (∀ a s' r, Docs.step s a = some s' → r ∈ s.db.docUpdates → r ∉ s'.db.docUpdates →
      ∃ p ses, a = .commit p ∧ s.sessions p = some ses ∧
        .setSnapshot s'.db.snapshot ∈ ses.writes ∧
        Y.content r.update ⊆ Y.content s'.db.snapshot ∧ r ∈ ses.committedAtLock) := by
  have hinv : Inv snapshot₀ s := .reach hY h
  refine ⟨?_, fun p ses doc hp hphase => ?_, fun a s' r hs hr hn => ?_⟩
  · rw [structs_loadDoc hY, structs_replay hY]
    exact hinv.total
  · have hses := hinv.sessions p ses hp
    have hdoc := hses.phase
    rw [hphase] at hdoc
    rw [hdoc, hses.total, structs_replay hY]
  · exact hinv.removed_by_step hs hr hn

def compactionRun : List (Act Yjs.singleClient) :=
  [.begin 0 (.calls ⟨some fun _ => [0], 200, 30⟩ []) 0, .exec 0, .exec 0, .exec 0, .exec 0,
    .commit 0, .begin 1 (.calls ⟨none, 1, 30⟩ []) 5, .exec 1, .exec 1, .exec 1, .exec 1]

theorem loadDoc_eq_join_compacted : ∃ s s' : Sys Yjs.singleClient,
    runActs Docs.step (initial [] 0) compactionRun = some s ∧
    Docs.step s (.commit 1) = some s' ∧
    Yjs.singleClient.structs (loadDoc s.db) =
      Yjs.singleClient.structs (replay [] s.committed) ∧
    ∀ r ∈ s.db.docUpdates, r ∉ s'.db.docUpdates →
      Yjs.singleClient.content r.update ⊆ Yjs.singleClient.content s'.db.snapshot := by
  obtain ⟨s', hs'⟩ := Option.isSome_iff_exists.mp (show
    ((runActs Docs.step (initial [] 0) compactionRun).bind fun s =>
      Docs.step s (.commit 1)).isSome = true by decide +kernel)
  rw [Option.bind_eq_some_iff] at hs'
  obtain ⟨s, hs, hs'⟩ := hs'
  obtain ⟨hload, -, hremoved⟩ :=
    loadDoc_eq_join Yjs.singleClient_lawful (Reach.of_runActs hs)
  refine ⟨s, s', hs, hs', hload, fun r hr hn => ?_⟩
  obtain ⟨_, _, _, _, _, hsub, _⟩ := hremoved _ _ r hs' hr hn
  exact hsub

end Docs

end Semprec
