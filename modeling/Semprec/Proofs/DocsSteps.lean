import Semprec.Docs

/-!
# What a statement of a document transaction can do

`Stmt` lists the statements with what each leaves in the session; `exec_stmt` says that running a
transaction is one of them and touches nothing another transaction can see but the lock and the
sequences.  `step_cases` does the same for a whole step.
-/

namespace Semprec

namespace Docs

variable {Y : Yjs}

inductive Stmt (s : Sys Y) (p : ℕ) (ses : Session Y) : Session Y → Prop where
  | lockDoc : ses.phase = .begun → s.lock = none ∨ s.lock = some p →
      Stmt s p ses { ses with
        phase := .locked (ses.view s.db).snapshot, committedAtLock := s.committed }
  | readPending {snapshot : Y.Update} : ses.phase = .locked snapshot →
      Stmt s p ses { ses with
        phase := .loaded (replay snapshot (orderById (ses.view s.db).docUpdates))
          (orderById (ses.view s.db).docUpdates) }
  | compact {call : DocCall Y} {rest : List (DocCall Y)} {doc : Y.Doc}
      {pending : List (UpdateRow Y)} : ses.job = .calls call rest →
      ses.phase = .loaded doc pending → call.compactionThreshold ≤ pending.length →
      Stmt s p ses { ses with
        phase := .ready doc
        writes := ses.writes ++ Docs.compact s.nextCheckpointId doc pending call.retentionDays }
  | skipCompaction {doc : Y.Doc} {pending : List (UpdateRow Y)} :
      ses.phase = .loaded doc pending → Stmt s p ses { ses with phase := .ready doc }
  | noUpdate {call : DocCall Y} {rest : List (DocCall Y)} {doc : Y.Doc} :
      ses.job = .calls call rest → ses.phase = .ready doc →
      (call.fn.bind fun fn => Y.updateEvent doc (fn doc)) = none →
      Stmt s p ses (ses.nextCall rest)
  | append {call : DocCall Y} {rest : List (DocCall Y)} {doc : Y.Doc} {e : Y.Update} :
      ses.job = .calls call rest → ses.phase = .ready doc →
      (call.fn.bind fun fn => Y.updateEvent doc (fn doc)) = some e →
      Stmt s p ses { ses.nextCall rest with
        writes := ses.writes ++ appendDocUpdate s.nextId e ses.startedAt }
  | chooseCheckpoint {days : ℕ} {snapshot : Y.Update} : ses.job = .rebaseline days →
      ses.phase = .locked snapshot →
      Stmt s p ses { ses with
        phase := Sys.chooseCheckpoint (ses.view s.db) ses.startedAt days }
  | rebaseline {days : ℕ} {cutoff : ℤ} {c : Checkpoint Y} : ses.job = .rebaseline days →
      ses.phase = .rebaselining cutoff c →
      Stmt s p ses { ses with
        phase := .done
        writes := ses.writes ++
          Docs.rebaseline s.nextCheckpointId (ses.view s.db) cutoff c }
  | checkAvailable {at_ : ℤ} {days : ℕ} : ses.job = .openVersion at_ days →
      ses.phase = .begun →
      Stmt s p ses { ses with
        phase := Sys.checkAvailable (ses.view s.db) ses.startedAt at_ days }
  | noCheckpoint {at_ : ℤ} {days : ℕ} : ses.job = .openVersion at_ days →
      ses.phase = .available → checkpointAt (ses.view s.db).snapshotHistory at_ = none →
      Stmt s p ses { ses with phase := .rejected (.historyNotRetained at_) }
  | readCheckpoint {at_ : ℤ} {days : ℕ} {c : Checkpoint Y} : ses.job = .openVersion at_ days →
      ses.phase = .available → checkpointAt (ses.view s.db).snapshotHistory at_ = some c →
      Stmt s p ses { ses with phase := .opening c }
  | readHistory {at_ : ℤ} {days : ℕ} {c : Checkpoint Y} : ses.job = .openVersion at_ days →
      ses.phase = .opening c →
      Stmt s p ses { ses with
        phase := .opened (replay c.state
          (versionRows (ses.view s.db).historyUpdates c.throughUpdateId at_)) }

/-- What a statement may change outside its own session. -/
structure ExecFrame (s s' : Sys Y) (p : ℕ) (ses ses' : Session Y) : Prop where
  db : s'.db = s.db
  committed : s'.committed = s.committed
  sessions : s'.sessions = Function.update s.sessions p (some ses')
  lock : s'.lock = s.lock ∨ (s.lock = none ∧ s'.lock = some p)
  locked : ∀ snapshot, ses'.phase = .locked snapshot → s'.lock = some p
  nextId : s.nextId ≤ s'.nextId
  nextCheckpointId : s.nextCheckpointId ≤ s'.nextCheckpointId
  inserted : insertedRows ses'.writes ≠ insertedRows ses.writes → s.nextId < s'.nextId
  wrote : ses'.writes ≠ ses.writes → insertedRows ses'.writes = insertedRows ses.writes →
    s.nextCheckpointId < s'.nextCheckpointId

theorem insertedRows_append : ∀ ws vs : List (Write Y),
    insertedRows (ws ++ vs) = insertedRows ws ++ insertedRows vs
  | [], vs => rfl
  | w :: ws, vs => by
    cases w <;> simp [insertedRows, insertedRows_append ws vs]

@[simp] theorem nextCall_writes (ses : Session Y) (rest : List (DocCall Y)) :
    (ses.nextCall rest).writes = ses.writes := by
  cases rest <;> rfl

@[simp] theorem nextCall_committedAtLock (ses : Session Y) (rest : List (DocCall Y)) :
    (ses.nextCall rest).committedAtLock = ses.committedAtLock := by
  cases rest <;> rfl

theorem nextCall_phase (ses : Session Y) (rest : List (DocCall Y)) :
    (ses.nextCall rest).phase = .begun ∨ (ses.nextCall rest).phase = .done := by
  cases rest
  · exact .inr rfl
  · exact .inl rfl

theorem checkAvailable_cases (view : Tables Y) (startedAt at_ : ℤ) (days : ℕ) :
    (∃ haf, view.docs = some ⟨some haf⟩ ∧ toDate haf ≤ at_ ∧
        Sys.checkAvailable view startedAt at_ days = .available) ∨
      ∃ e, Sys.checkAvailable view startedAt at_ days = .rejected e := by
  unfold Sys.checkAvailable
  split_ifs
  · exact .inr ⟨_, rfl⟩
  · split
    · exact .inr ⟨_, rfl⟩
    · rename_i row hrow
      dsimp only
      split
      · exact .inr ⟨_, rfl⟩
      · rename_i haf hhaf
        split_ifs with hlt
        · exact .inr ⟨_, rfl⟩
        · refine .inl ⟨haf, ?_, by omega, rfl⟩
          cases row
          simp_all

theorem chooseCheckpoint_cases (view : Tables Y) (startedAt : ℤ) (days : ℕ) :
    (∃ haf cutoff c, view.docs = some ⟨some haf⟩ ∧ toDate haf < cutoff ∧
        checkpointAt view.snapshotHistory cutoff = some c ∧
        Sys.chooseCheckpoint view startedAt days = .rebaselining cutoff c) ∨
      Sys.chooseCheckpoint view startedAt days = .done := by
  unfold Sys.chooseCheckpoint
  split
  · rename_i haf hdocs
    dsimp only
    split_ifs with hle
    · exact .inr rfl
    · split
      · exact .inr rfl
      · rename_i c hc
        exact .inl ⟨haf, _, c, hdocs, by omega, hc, rfl⟩
  · exact .inr rfl

theorem ExecFrame.set {s : Sys Y} {p : ℕ} {ses ses' : Session Y}
    (hphase : ∀ snapshot, ses'.phase ≠ .locked snapshot) (hw : ses'.writes = ses.writes) :
    ExecFrame s (s.set p ses') p ses ses' where
  db := rfl
  committed := rfl
  sessions := rfl
  lock := .inl rfl
  locked := fun snapshot h => absurd h (hphase snapshot)
  nextId := le_rfl
  nextCheckpointId := le_rfl
  inserted := fun h => absurd (by rw [hw]) h
  wrote := fun h => absurd hw h

theorem lock_frame {s : Sys Y} {p : ℕ} {ses : Session Y} (hl : s.lock = none ∨ s.lock = some p) :
    ExecFrame s
      ({ s with lock := some p }.set p { ses with
        phase := .locked (ses.view s.db).snapshot, committedAtLock := s.committed }) p ses
      { ses with phase := .locked (ses.view s.db).snapshot, committedAtLock := s.committed } where
  db := rfl
  committed := rfl
  sessions := rfl
  lock := hl.elim (fun h => .inr ⟨h, rfl⟩) fun h => .inl h.symm
  locked := fun _ _ => rfl
  nextId := le_rfl
  nextCheckpointId := le_rfl
  inserted := fun h => absurd rfl h
  wrote := fun h => absurd rfl h

theorem checkpoint_frame {s : Sys Y} {p : ℕ} {ses : Session Y} {phase : Phase Y}
    {ws : List (Write Y)} (hphase : ∀ snapshot, phase ≠ .locked snapshot)
    (hws : insertedRows ws = []) :
    ExecFrame s
      ({ s with nextCheckpointId := s.nextCheckpointId + 1 }.set p
        { ses with phase := phase, writes := ses.writes ++ ws }) p ses
      { ses with phase := phase, writes := ses.writes ++ ws } where
  db := rfl
  committed := rfl
  sessions := rfl
  lock := .inl rfl
  locked := fun snapshot h => absurd h (hphase snapshot)
  nextId := le_rfl
  nextCheckpointId := Nat.le_succ _
  inserted := fun h => absurd (by simp [insertedRows_append, hws]) h
  wrote := fun _ _ => Nat.lt_succ_self _

theorem insertedRows_compact (id : ℕ) (doc : Y.Doc) (pending : List (UpdateRow Y)) (days : ℕ) :
    insertedRows (Docs.compact id doc pending days) = [] := by
  unfold Docs.compact
  rcases pending.getLast? with _ | b <;> simp [insertedRows]

/-- Running a transaction's next statement is one of the listed statements. -/
theorem exec_stmt {s s' : Sys Y} {p : ℕ} {ses : Session Y} (h : s.exec p ses = some s') :
    ∃ ses', Stmt s p ses ses' ∧ ExecFrame s s' p ses ses' := by
  unfold Sys.exec at h
  dsimp only at h
  split at h
  · rename_i hj hp
    split_ifs at h with hl
    cases h
    exact ⟨_, .lockDoc hp hl, lock_frame hl⟩
  · rename_i hj hp
    split_ifs at h with hl
    cases h
    exact ⟨_, .lockDoc hp hl, lock_frame hl⟩
  · rename_i hj hp
    cases h
    exact ⟨_, .readPending hp, .set (by simp) rfl⟩
  · rename_i hj hp
    split_ifs at h with hle
    · cases h
      exact ⟨_, .compact hj hp hle, checkpoint_frame (by simp) (insertedRows_compact ..)⟩
    · cases h
      exact ⟨_, .skipCompaction hp, .set (by simp) rfl⟩
  · rename_i hj hp
    have hphase : ∀ rest snapshot, (ses.nextCall rest).phase ≠ .locked snapshot := by
      intro rest snapshot
      rcases nextCall_phase ses rest with h | h <;> simp [h]
    split at h
    · rename_i he
      cases h
      exact ⟨_, .noUpdate hj hp he, .set (hphase _) (nextCall_writes ..)⟩
    · rename_i he
      cases h
      refine ⟨_, .append hj hp he, ?_⟩
      exact {
        db := rfl, committed := rfl, sessions := rfl, lock := .inl rfl
        locked := fun snapshot h => absurd h (hphase _ snapshot)
        nextId := Nat.le_succ _
        nextCheckpointId := le_rfl
        inserted := fun _ => Nat.lt_succ_self _
        wrote := fun _ h => by simp [insertedRows_append, appendDocUpdate, insertedRows] at h }
  · rename_i days _ hj hp
    cases h
    refine ⟨_, .chooseCheckpoint hj hp, .set (fun snapshot h => ?_) rfl⟩
    rcases chooseCheckpoint_cases (ses.view s.db) ses.startedAt days with
      ⟨_, _, _, -, -, -, hc⟩ | hc <;> simp [hc] at h
  · rename_i hj hp
    cases h
    exact ⟨_, .rebaseline hj hp, checkpoint_frame (by simp) rfl⟩
  · rename_i at_ days hj hp
    cases h
    refine ⟨_, .checkAvailable hj hp, .set (fun snapshot h => ?_) rfl⟩
    rcases checkAvailable_cases (ses.view s.db) ses.startedAt at_ days with
      ⟨_, -, -, hc⟩ | ⟨_, hc⟩ <;> simp [hc] at h
  · rename_i at_ _ hj hp
    rcases hc : checkpointAt (ses.view s.db).snapshotHistory at_ with _ | c
    · simp only [hc] at h
      cases h
      exact ⟨_, .noCheckpoint hj hp hc, .set (by simp) rfl⟩
    · simp only [hc] at h
      cases h
      exact ⟨_, .readCheckpoint hj hp hc, .set (by simp) rfl⟩
  · rename_i hj hp
    cases h
    exact ⟨_, .readHistory hj hp, .set (by simp) rfl⟩
  · cases h

/-- What one step of the document layer does. -/
inductive Stepped (s : Sys Y) : Act Y → Sys Y → Prop where
  | exec {p : ℕ} {ses ses' : Session Y} {s' : Sys Y} : s.sessions p = some ses →
      Stmt s p ses ses' → ExecFrame s s' p ses ses' → Stepped s (.exec p) s'
  | commit {p : ℕ} {ses : Session Y} : s.sessions p = some ses → ses.phase.finished →
      Stepped s (.commit p) (s.commit p ses)
  | abort {p : ℕ} {ses : Session Y} : s.sessions p = some ses → ses.phase.ended = false →
      Stepped s (.abort p) (s.abort p ses)
  | start {p : ℕ} {job : Job Y} {now : ℤ} {a : Act Y} : s.sessions p = none →
      (a = .begin p job now ∨ ∃ threshold days, job = .calls ⟨none, threshold, days⟩ []) →
      Stepped s a (s.set p { startedAt := now, job := job })
  | idle {a : Act Y} : Stepped s a s
  | cleanup {now : ℤ} : Stepped s (.cleanup now)
      { s with db := { s.db with
          snapshotHistory := s.db.snapshotHistory.filter fun c =>
            c.expiresAt.all fun e => now ≤ e } }
  | nextval : Stepped s .nextval { s with nextId := s.nextId + 1 }

theorem step_cases {s s' : Sys Y} {a : Act Y} (h : step s a = some s') : Stepped s a s' := by
  cases a with
  | begin p job now =>
    simp only [step] at h
    split at h
    · rename_i hp
      cases h
      exact .start hp (.inl rfl)
    · cases h
  | exec p =>
    simp only [step, Option.bind_eq_some_iff] at h
    obtain ⟨ses, hp, h⟩ := h
    obtain ⟨ses', hst, hf⟩ := exec_stmt h
    exact .exec hp hst hf
  | commit p =>
    simp only [step, Option.bind_eq_some_iff] at h
    obtain ⟨ses, hp, h⟩ := h
    split_ifs at h with hfin
    cases h
    exact .commit hp hfin
  | abort p =>
    simp only [step, Option.bind_eq_some_iff] at h
    obtain ⟨ses, hp, h⟩ := h
    split_ifs at h with hend
    cases h
    exact .abort hp (by simpa using hend)
  | sweep p threshold retentionDays now =>
    simp only [step] at h
    split at h
    · rename_i hp
      split_ifs at h
      · cases h
        exact .start hp (.inr ⟨threshold, retentionDays, rfl⟩)
      · cases h
        exact .idle
    · cases h
  | cleanup now =>
    cases h
    exact .cleanup
  | nextval =>
    cases h
    exact .nextval

end Docs

end Semprec
