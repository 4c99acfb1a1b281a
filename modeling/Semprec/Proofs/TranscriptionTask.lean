import Semprec.Proofs.TranscriptionSteps

/-!
# Runs of the transcription job

Any number of runs of the job side by side.  A run that is the second to commit its first chunk goes
on in the language it has detected itself, which need not be the one that is checkpointed
(`talk_second_language`); all else holds of every run.
-/

namespace Semprec

namespace Transcription

variable {ρ : Type} {task : Task ρ} {t t' : Tables ρ} {tid : String}
  {calls : List TranscribeCall}

/-! ### Runs -/

structure SysInv (task : Task ρ) (s : Sys ρ) : Prop where
  tables : Inv task s.calls s.tables
  run : ∀ r, RunOk s.tables s.calls (s.runs r).phase
  started : ∀ r, ¬(s.runs r).phase.Unstarted →
    s.tables.source.create = some (s.runs r).transcriptId

/-- Every transcription after the first chunk is asked for in the language that is checkpointed. -/
structure LanguageInv (s : Sys ρ) : Prop where
  run : ∀ r, LanguageOk s.tables (s.runs r).phase
  calls : ∀ call ∈ s.calls, call.index ≠ 0 →
    s.tables.Begun ∧ call.language = (readAsrCheckpoint s.tables.source).language

def Act.ofUser : Act → Bool
  | .replaceFile _ | .setLocked _ => true
  | _ => false

variable {s s' : Sys ρ} {a : Act} {fresh now : String}

theorem RunOk.kept {calls' : List TranscribeCall} {phase : Phase} (hkept : Kept t t')
    (hcalls : calls ⊆ calls') (h : RunOk t calls phase) : RunOk t' calls' phase := by
  have hbegun : t.Begun → t'.Begun := hkept.chunk_isSome
  cases phase with
  | asrChunk | asrCall => exact ⟨h.1, fun hi => hbegun (h.2 hi)⟩
  | asrWrite =>
    obtain ⟨call, hcall, hc⟩ := h.2.2
    exact ⟨h.1, fun hi => hbegun (h.2.1 hi), call, hcalls hcall, hc⟩
  | _ => exact h

theorem LanguageOk.kept {phase : Phase} (hkept : Kept t t') (hok : RunOk t calls phase)
    (h : LanguageOk t phase) : LanguageOk t' phase := by
  cases phase with
  | asrChunk boundaries index language =>
    intro hi hnone
    rw [hkept.language (hok.2 hi)]
    refine h hi (Option.eq_none_iff_forall_ne_some.mpr fun x hx => ?_)
    exact absurd ((hkept.chunk index x hx).symm.trans hnone) (Option.some_ne_none x)
  | asrCall boundaries index language =>
    intro hi
    rw [hkept.language (hok.2 hi)]
    exact h hi
  | asrWrite boundaries index language result =>
    by_cases hi : index = 0
    · simpa [LanguageOk, hi] using h
    · simp only [LanguageOk, hi, if_false] at h ⊢
      rw [hkept.language (hok.2.1 hi)]
      exact h
  | _ => trivial

theorem Inv.mono {calls' : List TranscribeCall} (hcalls : calls ⊆ calls') (h : Inv task calls t) :
    Inv task calls' t :=
  { h with heard := fun index x hx =>
      (h.heard index x hx).imp fun _ ⟨hcall, hc⟩ => ⟨hcalls hcall, hc⟩ }

theorem transaction_effects {α : Type} {x : Trans ρ α}
    (h : ∀ a t', x.run t = (.ok a, t') → Effects task calls tid t t') :
    Effects task calls tid t (x.transaction t).2 := by
  unfold Tx.transaction
  rcases hx : x.run t with ⟨_ | a, t'⟩
  · exact .refl
  · exact h a t' hx

structure Moved (task : Task ρ) (s s' : Sys ρ) (r : ℕ) (tid : String) (next : Phase)
    (heard : List TranscribeCall) : Prop where
  runs : s'.runs = Function.update s.runs r ⟨tid, next⟩
  calls : s'.calls = s.calls ++ heard
  effects : ∃ i, (∀ x ∈ s.tables.source.create, x = i) ∧
    Effects task s.calls i s.tables s'.tables
  run : RunOk s'.tables s'.calls next
  started : ¬next.Unstarted → s'.tables.source.create = some tid

/-- What a step of a run leaves of the language it holds. -/
def KeepsLanguage (s s' : Sys ρ) (next : Phase) (heard : List TranscribeCall) : Prop :=
  LanguageOk s'.tables next ∧ ∀ call ∈ heard, call.index ≠ 0 →
    s.tables.Begun ∧ call.language = (readAsrCheckpoint s.tables.source).language

theorem Moved.ofEffects {r : ℕ} {tables : Tables ρ} {next : Phase}
    (heffects : ∃ i, (∀ x ∈ s.tables.source.create, x = i) ∧
      Effects task s.calls i s.tables tables)
    (hrun : RunOk tables s.calls next)
    (hstarted : ¬next.Unstarted → tables.source.create = some (s.runs r).transcriptId) :
    Moved task s ({ s with tables }.setPhase r next) r (s.runs r).transcriptId next [] :=
  ⟨rfl, (List.append_nil _).symm, heffects, hrun, hstarted⟩

theorem Moved.still (r : ℕ) {next : Phase} (hrun : RunOk s.tables s.calls next)
    (hstarted : ¬next.Unstarted → s.tables.source.create = some (s.runs r).transcriptId) :
    Moved task s (s.setPhase r next) r (s.runs r).transcriptId next [] := by
  refine .ofEffects ⟨s.tables.source.create.getD "", fun x hx => ?_, .refl⟩ hrun hstarted
  simp [Option.mem_def.mp hx]

theorem Phase.Plain.keepsLanguage {next : Phase} (h : next.Plain) :
    KeepsLanguage s s' next [] :=
  ⟨h.languageOk, nofun⟩

theorem Phase.failure_plain (e : TaskError) (phase : Phase) : (phase.failure e).Plain := by
  cases phase <;> trivial

theorem Phase.unstarted_failure {e : TaskError} {phase : Phase} (h : phase.Unstarted) :
    (phase.failure e).Unstarted := by
  cases phase <;> trivial

theorem moved_failure (hs : SysInv task s) (r : ℕ) (e : TaskError) :
    Moved task s (s.setPhase r ((s.runs r).phase.failure e)) r (s.runs r).transcriptId
      ((s.runs r).phase.failure e) [] :=
  .still r (Phase.failure_plain e _).runOk fun hu =>
    hs.started r fun h => hu (Phase.unstarted_failure h)

/-- Before its attempt a run's transactions do not depend on the transcript it had. -/
theorem transaction_unstarted {phase : Phase} (h : phase.Unstarted) (i j fresh now : String) :
    task.transaction i fresh now phase = task.transaction j fresh now phase := by
  cases phase <;> first | rfl | exact h.elim

theorem moved_attempt (hs : SysInv task s) {r : ℕ}
    (h : step task s (.transact r fresh now) = some s') (hphase : (s.runs r).phase = .attempt) :
    ∃ tid next, Moved task s s' r tid next [] ∧ next.Plain := by
  simp only [step, hphase] at h
  rcases hx : (startTranscriptionAttempt task).run s.tables with ⟨e | o, t'⟩
  · have htx : (startTranscriptionAttempt task).transaction s.tables = (.error e, s.tables) := by
      simp [Tx.transaction, hx]
    rw [htx] at h
    cases h
    exact ⟨_, .idle, .still r trivial fun hu => absurd trivial hu, trivial⟩
  · rw [Tx.transaction_ok.mpr hx] at h
    obtain ⟨i, hcreate, heffects, ho⟩ := startTranscriptionAttempt_ok hs.tables hx
    have hi : ∀ x ∈ s.tables.source.create, x = i := fun x hx =>
      Option.some.inj ((Option.mem_def.mp hx).symm.trans hcreate)
    rcases o with _ | x
    · cases h
      exact ⟨_, .idle, .ofEffects ⟨i, hi, heffects⟩ trivial fun hu => absurd trivial hu, trivial⟩
    · cases h
      refine ⟨x, .prepare, ⟨rfl, (List.append_nil _).symm, ⟨i, hi, heffects⟩, trivial, fun _ => ?_⟩,
        trivial⟩
      rw [ho x rfl]
      exact (heffects.kept_inv hs.tables).1.create i hcreate

theorem moved_transact (hs : SysInv task s) {r : ℕ}
    (h : step task s (.transact r fresh now) = some s') (hphase : (s.runs r).phase ≠ .attempt) :
    ∃ next, Moved task s s' r (s.runs r).transcriptId next [] ∧
      (s.keepsLanguage (.transact r fresh now) = true → LanguageInv s →
        LanguageOk s'.tables next) := by
  simp only [step] at h
  obtain ⟨x, hx, rfl⟩ := Option.map_eq_some_iff.mp h
  have hi : ∃ i, (∀ x ∈ s.tables.source.create, x = i) ∧
      task.transaction i fresh now (s.runs r).phase = some x ∧
      (s.keepsLanguage (.transact r fresh now) = true →
        (s.runs r).phase.keepsLanguage s.tables i = true) := by
    by_cases hu : (s.runs r).phase.Unstarted
    · refine ⟨s.tables.source.create.getD "", fun x hx => ?_,
        (transaction_unstarted hu ..).trans hx, fun _ => ?_⟩
      · simp [Option.mem_def.mp hx]
      · revert hu
        rcases (s.runs r).phase <;> intro hu <;> first | rfl | exact hu.elim
    · exact ⟨_, fun x hx => Option.some.inj ((Option.mem_def.mp hx).symm.trans (hs.started r hu)),
        hx, fun hk => hk⟩
  obtain ⟨i, hcreate, hxi, hkeeps⟩ := hi
  rcases hrun : x.run s.tables with ⟨e | next, t'⟩
  · have htx : x.transaction s.tables = (.error e, s.tables) := by simp [Tx.transaction, hrun]
    rw [htx]
    exact ⟨_, moved_failure hs r e, fun _ _ => (Phase.failure_plain e _).languageOk⟩
  · rw [Tx.transaction_ok.mpr hrun]
    obtain ⟨heffects, hok, hu, hl⟩ := transaction_ok hs.tables (hs.run r) hxi hrun
    refine ⟨next, .ofEffects ⟨i, hcreate, heffects⟩ hok fun hnext => ?_,
      fun hk hlang => hl (hkeeps hk) (hlang.run r)⟩
    exact (heffects.kept_inv hs.tables).1.create _ (hs.started r fun h => hnext (hu h))

theorem answer_cases {phase next : Phase} {answer : Answer} (h : phase.answer answer = some next) :
    next.Plain ∧ phase.calls answer = [] ∧ ¬phase.Unstarted ∨
    ∃ boundaries index language result, phase = .asrCall boundaries index language ∧
      answer = .transcription result ∧
      next = .asrWrite boundaries index (if index = 0 then result.language else language)
        result := by
  unfold Phase.answer at h
  split at h <;> cases h
  case h_3 => exact .inr ⟨_, _, _, _, rfl, rfl, rfl⟩
  all_goals exact .inl ⟨trivial, rfl, nofun⟩

theorem moved_answer (hs : SysInv task s) {r : ℕ} {answer : Answer}
    (h : step task s (.answer r answer) = some s') :
    ∃ next heard, Moved task s s' r (s.runs r).transcriptId next heard ∧
      (LanguageInv s → KeepsLanguage s s' next heard) := by
  simp only [step] at h
  obtain ⟨next, hnext, rfl⟩ := Option.map_eq_some_iff.mp h
  have hok := hs.run r
  have hstarted := hs.started r
  refine ⟨next, (s.runs r).phase.calls answer, ?_⟩
  rcases answer_cases hnext with ⟨hplain, hcalls, hu⟩ |
    ⟨boundaries, index, language, result, hphase, rfl, rfl⟩
  · rw [hcalls, List.append_nil]
    exact ⟨.still r hplain.runOk fun _ => hstarted hu, fun _ => hplain.keepsLanguage⟩
  · rw [hphase] at hok hstarted ⊢
    have hlt := hok.1
    have hcalls : (Phase.asrCall boundaries index language).calls (.transcription result) =
        [⟨index, boundaries[index].stop - boundaries[index].start,
          if index = 0 then none else language, ⟨result.text, result.segments⟩⟩] := by
      simp [Phase.calls, hlt]
    rw [hcalls]
    refine ⟨⟨rfl, rfl, ⟨_, fun x hx => Option.some.inj ((Option.mem_def.mp hx).symm.trans
      (hstarted nofun)), .refl⟩, ⟨hok.1, hok.2, ?_⟩, fun _ => hstarted nofun⟩,
      fun hlang => ?_⟩
    · exact ⟨_, List.mem_append_right _ List.mem_cons_self, rfl, rfl⟩
    · have hl := hlang.run r
      rw [hphase] at hl
      refine ⟨?_, fun call hcall hindex => ?_⟩
      · by_cases hzero : index = 0
        · simp [LanguageOk, hzero]
        · simp only [LanguageOk, hzero, if_false]
          exact hl hzero
      · obtain rfl := List.mem_singleton.mp hcall
        exact ⟨hok.2 hindex, (if_neg hindex).trans (hl hindex)⟩

theorem step_moved (hs : SysInv task s) (h : step task s a = some s') (ha : a.ofUser = false) :
    ∃ r tid next heard, Moved task s s' r tid next heard ∧
      (s.keepsLanguage a = true → LanguageInv s → KeepsLanguage s s' next heard) := by
  cases a with
  | deliver r =>
    simp only [step] at h
    split at h
    · cases h
      exact ⟨r, _, .create, [], .still r trivial fun hu => absurd trivial hu,
        fun _ _ => Phase.Plain.keepsLanguage trivial⟩
    · cases h
  | transact r fresh now =>
    by_cases hphase : (s.runs r).phase = .attempt
    · obtain ⟨tid, next, hmoved, hplain⟩ := moved_attempt hs h hphase
      exact ⟨r, tid, next, [], hmoved, fun _ _ => hplain.keepsLanguage⟩
    · obtain ⟨next, hmoved, hl⟩ := moved_transact hs h hphase
      exact ⟨r, _, next, [], hmoved, fun hk hlang => ⟨hl hk hlang, nofun⟩⟩
  | answer r answer =>
    obtain ⟨next, heard, hmoved, hl⟩ := moved_answer hs h
    exact ⟨r, _, next, heard, hmoved, fun _ => hl⟩
  | fail r e =>
    cases h
    exact ⟨r, _, _, [], moved_failure hs r e,
      fun _ _ => (Phase.failure_plain e _).keepsLanguage⟩
  | stop r =>
    cases h
    exact ⟨r, _, .idle, [], .still r trivial fun hu => absurd trivial hu,
      fun _ _ => Phase.Plain.keepsLanguage trivial⟩
  | settle r lastAttempt =>
    simp only [step] at h
    split at h
    · cases h
      exact ⟨r, _, .idle, [], .still r trivial fun hu => absurd trivial hu,
        fun _ _ => Phase.Plain.keepsLanguage trivial⟩
    · rename_i hphase
      cases h
      have hcreate := hs.started r (by simp [hphase, Phase.Unstarted])
      refine ⟨r, _, .idle, [], .ofEffects ⟨(s.runs r).transcriptId, fun x hx => ?_,
        transaction_effects fun _ _ => recordTranscriptionFailure_ok⟩ trivial
        fun hu => absurd trivial hu, fun _ _ => Phase.Plain.keepsLanguage trivial⟩
      exact Option.some.inj ((Option.mem_def.mp hx).symm.trans hcreate)
    · cases h
  | replaceFile blob => simp [Act.ofUser] at ha
  | setLocked locked => simp [Act.ofUser] at ha

theorem Effects.eq_of_locked_transcript {i : String} (h : Effects task calls i t t')
    (hi : ∀ x ∈ t.source.create, x = i) (hlocked : ∃ x row, t.source.create = some x ∧
      t.itemAutomation x = some row ∧ row.status = .locked) : t' = t := by
  obtain ⟨x, row, hx, hrow, hstatus⟩ := hlocked
  obtain rfl := hi x hx
  refine h.eq_of_locked hx fun ⟨row', hrow', hne⟩ => hne ?_
  rwa [← Option.some.inj (hrow.symm.trans hrow')]

theorem step_user (h : step task s a = some s') (ha : a.ofUser = true) :
    (∃ itemAutomation blobs file, s'.tables =
      { s.tables with
        itemAutomation, blobs, source := { s.tables.source with file } } ∧
      ∀ i, (s.tables.itemAutomation i).isSome → (itemAutomation i).isSome) ∧
    s'.runs = s.runs ∧ s'.calls = s.calls := by
  cases a with
  | replaceFile blob =>
    cases h
    exact ⟨⟨_, _, _, rfl, fun _ h => h⟩, rfl, rfl⟩
  | setLocked locked =>
    simp only [step] at h
    obtain ⟨x, _, rfl⟩ := Option.map_eq_some_iff.mp h
    refine ⟨?_, rfl, rfl⟩
    rcases hrow : s.tables.itemAutomation x with _ | row
    · exact ⟨_, s.tables.blobs, s.tables.source.file, by
        simp [setItemAutomationLocked, updateItemAutomation, Tx.transaction, hrow], fun _ h => h⟩
    · by_cases hcond : (if locked = true then row.status ≠ .locked else row.status = .locked)
      · refine ⟨_, s.tables.blobs, s.tables.source.file, by
          simp [setItemAutomationLocked, updateItemAutomation, Tx.transaction, hrow, hcond]
          rfl, fun i hi => ?_⟩
        by_cases hix : i = x <;> simp [hix, hi]
      · exact ⟨_, s.tables.blobs, s.tables.source.file, by
          simp [setItemAutomationLocked, updateItemAutomation, Tx.transaction, hrow, hcond],
          fun _ h => h⟩
  | _ => simp [Act.ofUser] at ha

theorem user_kept_inv (hinv : Inv task calls t) {rows : String → Option ItemAutomation}
    {blobs : List Blob} {file : Option String}
    (hrows : ∀ i, (t.itemAutomation i).isSome → (rows i).isSome) :
    Kept t { t with itemAutomation := rows, blobs, source := { t.source with file } } ∧
      Inv task calls
        { t with itemAutomation := rows, blobs, source := { t.source with file } } :=
  ⟨⟨fun _ => id, fun _ => id, fun _ => id, fun _ _ => id, fun _ => rfl, fun _ => id,
      fun _ tr h => ⟨tr, h, fun _ => id, fun _ _ => id⟩⟩,
    hinv.replay, hinv.fresh, fun i hi => ⟨hrows i (hinv.created i hi).1, (hinv.created i hi).2⟩,
    hinv.first, hinv.heard, hinv.merged, hinv.done⟩

theorem Moved.inv {r : ℕ} {next : Phase} {heard : List TranscribeCall}
    (h : Moved task s s' r tid next heard) (hs : SysInv task s) :
    SysInv task s' ∧ Kept s.tables s'.tables := by
  obtain ⟨i, _, heffects⟩ := h.effects
  obtain ⟨hkept, hinv⟩ := heffects.kept_inv hs.tables
  have hcalls : s.calls ⊆ s'.calls := h.calls ▸ List.subset_append_left ..
  refine ⟨⟨hinv.mono hcalls, fun r' => ?_, fun r' => ?_⟩, hkept⟩
  · by_cases hr : r' = r
    · simpa [h.runs, hr] using h.run
    · simpa [h.runs, hr] using (hs.run r').kept hkept hcalls
  · by_cases hr : r' = r
    · simpa [h.runs, hr] using h.started
    · simpa [h.runs, hr] using fun hu => hkept.create _ (hs.started r' hu)

theorem Moved.languageInv {r : ℕ} {next : Phase} {heard : List TranscribeCall}
    (h : Moved task s s' r tid next heard) (hs : SysInv task s) (hlang : LanguageInv s)
    (hkeeps : KeepsLanguage s s' next heard) : LanguageInv s' := by
  have hkept := (h.inv hs).2
  have hcall : ∀ call : TranscribeCall, s.tables.Begun ∧
      call.language = (readAsrCheckpoint s.tables.source).language →
      s'.tables.Begun ∧ call.language = (readAsrCheckpoint s'.tables.source).language := by
    rintro call ⟨hbegun, hlanguage⟩
    exact ⟨hkept.chunk_isSome hbegun, hlanguage.trans (hkept.language hbegun).symm⟩
  refine ⟨fun r' => ?_, fun call hmem hindex => ?_⟩
  · by_cases hr : r' = r
    · simpa [h.runs, hr] using hkeeps.1
    · simpa [h.runs, hr] using (hlang.run r').kept hkept (hs.run r')
  · rw [h.calls] at hmem
    rcases List.mem_append.mp hmem with hmem | hmem
    · exact hcall call (hlang.calls call hmem hindex)
    · exact hcall call (hkeeps.2 call hmem hindex)

theorem step_inv (hs : SysInv task s) (h : step task s a = some s') :
    SysInv task s' ∧ Kept s.tables s'.tables := by
  rcases ha : a.ofUser
  · obtain ⟨_, _, _, _, hmoved, _⟩ := step_moved hs h ha
    exact hmoved.inv hs
  · obtain ⟨⟨rows, blobs, file, htables, hrows⟩, hruns, hcalls⟩ := step_user h ha
    obtain ⟨hkept, hinv⟩ : Kept s.tables s'.tables ∧ Inv task s.calls s'.tables :=
      htables ▸ user_kept_inv hs.tables hrows
    refine ⟨⟨hcalls ▸ hinv, fun r => ?_, fun r => ?_⟩, hkept⟩
    · rw [hruns, hcalls]
      exact (hs.run r).kept hkept (List.Subset.refl _)
    · rw [hruns]
      exact fun hu => hkept.create _ (hs.started r hu)

theorem step_language (hs : SysInv task s) (h : step task s a = some s')
    (hkeeps : s.keepsLanguage a = true) (hlang : LanguageInv s) : LanguageInv s' := by
  rcases ha : a.ofUser
  · obtain ⟨_, _, _, _, hmoved, hl⟩ := step_moved hs h ha
    exact hmoved.languageInv hs hlang (hl hkeeps hlang)
  · have hkept := (step_inv hs h).2
    obtain ⟨_, hruns, hcalls⟩ := step_user h ha
    refine ⟨fun r => ?_, fun call hmem hindex => ?_⟩
    · rw [hruns]
      exact (hlang.run r).kept hkept (hs.run r)
    · obtain ⟨hbegun, hlanguage⟩ := hlang.calls call (hcalls ▸ hmem) hindex
      exact ⟨hkept.chunk_isSome hbegun, hlanguage.trans (hkept.language hbegun).symm⟩

section init

variable {name file : Option String} {blobs : List Blob} {notifications : List Notification}
  {tenantUserId : Option String} {related : ρ} {ok : Sys ρ → Act → Prop}

theorem init_inv : SysInv task (init name file blobs notifications tenantUserId related) :=
  ⟨⟨rfl, fun _ _ => rfl, nofun, nofun, nofun, nofun, nofun⟩, fun _ => trivial,
    fun _ hu => absurd trivial hu⟩

theorem inv_of_reach
    (h : Reach (step task) ok (init name file blobs notifications tenantUserId related) s) :
    SysInv task s :=
  h.invariant init_inv fun _ _ _ hs _ h => (step_inv hs h).1

theorem kept_of_reach (hs : SysInv task s) (h : Reach (step task) ok s s') :
    Kept s.tables s'.tables := by
  refine (h.invariant (I := fun x => SysInv task x ∧ Kept s.tables x.tables) ⟨hs, .refl _⟩
    fun s₁ a s₂ h₁ _ h => ?_).2
  obtain ⟨hs₂, hkept⟩ := step_inv h₁.1 h
  exact ⟨hs₂, h₁.2.trans hkept⟩

/-- Where every run that finds its first chunk already checkpointed has detected the language that
is checkpointed: what is checkpointed stays, no run writes while its transcript is locked, every
chunk after the first is transcribed with the language that is checkpointed, and a transcript that
is done has the segments that the checkpoints give and its summary. -/
theorem checkpoints_of_reach
    (h : Reach (step task) (fun s a => s.keepsLanguage a = true)
      (init name file blobs notifications tenantUserId related) s) :
    (∀ s', Reach (step task) (fun _ _ => True) s s' → Kept s.tables s'.tables) ∧
    (∀ a s', step task s a = some s' → a.ofUser = false →
      (∃ tid row, s.tables.source.create = some tid ∧ s.tables.itemAutomation tid = some row ∧
        row.status = .locked) → s'.tables = s.tables) ∧
    (∀ call ∈ s.calls, call.index ≠ 0 →
      s.tables.Begun ∧ call.language = (readAsrCheckpoint s.tables.source).language) ∧
    (∀ index chunk, (readAsrCheckpoint s.tables.source).chunks index = some chunk →
      ∃ call ∈ s.calls, call.index = index ∧ call.chunk = chunk) ∧
    ∀ tid transcript, s.tables.transcripts tid = some transcript → transcript.status = .done →
      (∃ segments, transcript.segments = some segments ∧ Merged task s.tables segments) ∧
      (readSummaries transcript task.summaryInstruction).isSome := by
  have hs : SysInv task s := inv_of_reach h
  have hlang : LanguageInv s := by
    refine (h.invariant (I := fun x => SysInv task x ∧ LanguageInv x)
      ⟨init_inv, fun _ => trivial, nofun⟩ fun s₁ a s₂ h₁ hok h => ?_).2
    exact ⟨(step_inv h₁.1 h).1, step_language h₁.1 h hok h₁.2⟩
  refine ⟨fun s' h' => kept_of_reach hs h', fun a s' hstep ha hlocked => ?_, hlang.calls,
    hs.tables.heard, fun tid transcript htr hdone => ?_⟩
  · obtain ⟨_, _, _, _, hmoved, _⟩ := step_moved hs hstep ha
    obtain ⟨i, hi, heffects⟩ := hmoved.effects
    exact heffects.eq_of_locked_transcript hi hlocked
  · obtain ⟨hsegments, hsummary⟩ := hs.tables.done tid transcript htr hdone
    obtain ⟨segments, hsegments⟩ := Option.isSome_iff_exists.mp hsegments
    exact ⟨⟨segments, hsegments, hs.tables.merged tid transcript segments htr hsegments⟩, hsummary⟩

end init

/-! ### Two runs at once -/

def talkTask : Task Unit where
  fileItemId := "talk"
  summaryInstruction := "meetingSummary"
  matchTranscriptToEvent _ _ _ := .ok ()
  readSpeakerSuggestionContext _ _ := false
  proposeSpeakerMappings _ _ _ := .ok ([], ())

def talk : Sys Unit :=
  init (some "Talk") (some "blob") [⟨"blob", "talk.mp4", "video/mp4", "2026-11-01"⟩] [] none ()

def heard (language text : String) : Answer :=
  .transcription ⟨text, some language, [⟨1, 2, text⟩]⟩

def bothHear (language language' : String) : List Act :=
  ([.deliver 0, .transact 0 "" "", .transact 0 "transcript" "", .transact 0 "" "",
    .transact 0 "talk.opus" "", .answer 0 (.media ⟨none, 1300⟩), .transact 0 "audio" "2026-11-02",
    .transact 0 "" "", .transact 0 "" "", .answer 0 (.turns [⟨"SPEAKER_00", 0, 1300⟩]),
    .transact 0 "" ""] : List Act) ++ List.replicate 4 (Act.transact 0 "" "") ++
  Act.deliver 1 :: List.replicate 8 (Act.transact 1 "" "") ++
  ([.answer 0 (heard language "hello"), .answer 1 (heard language' "hello"), .transact 0 "" "",
    .transact 1 "" "", .transact 1 "" "", .answer 1 (heard language' "bye"),
    .transact 1 "" ""] : List Act)

def bothHearThenFinish (language : String) : List Act :=
  bothHear language language ++
  ([.setLocked true, .fail 0 (.failed "connection lost"), .settle 0 false, .setLocked false,
    .transact 1 "" "", .transact 1 "" "", .answer 1 (.summary "A talk."), .transact 1 "" "",
    .transact 1 "" "", .transact 1 "" "", .transact 1 "" ""] : List Act)

theorem talk_checkpoints : ∃ s : Sys Unit,
    (s.tables.transcripts "transcript").map Transcript.status = some .done ∧
    s.calls.map TranscribeCall.language = [none, none, some "en"] ∧
    (∀ call ∈ s.calls, call.index ≠ 0 →
      s.tables.Begun ∧ call.language = (readAsrCheckpoint s.tables.source).language) ∧
    ∀ tid transcript, s.tables.transcripts tid = some transcript → transcript.status = .done →
      (∃ segments, transcript.segments = some segments ∧ Merged talkTask s.tables segments) ∧
      (readSummaries transcript talkTask.summaryInstruction).isSome := by
  obtain ⟨s, hs⟩ : ∃ s, runChecked (step talkTask) Sys.keepsLanguage talk
      (bothHearThenFinish "en") = some s :=
    Option.isSome_iff_exists.mp (by decide +kernel)
  have h := checkpoints_of_reach (.of_runChecked (fun _ _ h => h) hs)
  exact ⟨s, eq_of_map_eq (f := fun s => (s.tables.transcripts "transcript").map Transcript.status)
      hs (by decide +kernel),
    eq_of_map_eq (f := fun s => s.calls.map TranscribeCall.language) hs (by decide +kernel),
    h.2.2.1, h.2.2.2.2⟩

/-- The second run finds the first chunk there, and has the second one transcribed in the language
it has detected itself. -/
theorem talk_second_language : ∃ s, Reach (step talkTask) (fun _ _ => True) talk s ∧
    ∃ call ∈ s.calls, call.index ≠ 0 ∧
      (readAsrCheckpoint s.tables.source).chunks call.index = some call.chunk ∧
      call.language ≠ (readAsrCheckpoint s.tables.source).language := by
  obtain ⟨s, hs⟩ : ∃ s, runActs (step talkTask) talk (bothHear "en" "de") = some s :=
    Option.isSome_iff_exists.mp (by decide +kernel)
  refine ⟨s, .of_runActs hs, ?_⟩
  exact of_decide_eq_true (eq_of_map_eq (f := fun s => decide (∃ call ∈ s.calls, call.index ≠ 0 ∧
    (readAsrCheckpoint s.tables.source).chunks call.index = some call.chunk ∧
    call.language ≠ (readAsrCheckpoint s.tables.source).language)) hs (by decide +kernel))

end Transcription

end Semprec
