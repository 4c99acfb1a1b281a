import Semprec.Proofs.TranscriptionWrites

/-!
# The transactions of the transcription job

What each transaction that commits has written, and what its run holds in memory after it: where it
is in the loop over the chunks (`RunOk`), and in which language it goes on (`LanguageOk`).
-/

namespace Semprec

namespace Transcription

variable {ρ : Type} {task : Task ρ} {t t' : Tables ρ} {tid : String} {α β : Type} {b : β}
  {calls : List TranscribeCall}

/-! ### The transactions -/

/-- The phases in which a run holds nothing that was read from the ASR checkpoint. -/
def Phase.Plain : Phase → Prop
  | .asrDone _ _ | .asrBlob _ _ | .asrChunk _ _ _ | .asrCall _ _ _ | .asrWrite _ _ _ _ => False
  | _ => True

def Phase.Unstarted : Phase → Prop
  | .idle | .create | .createItem _ | .attempt => True
  | _ => False

variable {next : Phase}

theorem runCreateRead_ok (h : (runCreateRead : Trans ρ Phase).run t = (.ok next, t')) :
    t' = t ∧ next.Plain ∧ next.Unstarted := by
  unfold runCreateRead at h
  rw [run_getSource_bind, run_pure_ok] at h
  obtain ⟨rfl, rfl⟩ := h
  refine ⟨rfl, ?_⟩
  split_ifs <;> exact ⟨trivial, trivial⟩

/-- An item that is already there is found again, with nothing to write. -/
theorem runCreateItem_ok {name : Option String} {newId : String} (hinv : Inv task calls t)
    (h : (runCreateItem task name newId).run t = (.ok next, t')) :
    Effects task calls tid t t' ∧ next.Plain ∧ next.Unstarted := by
  unfold runCreateItem at h
  obtain ⟨name, _, h⟩ := liftExcept_bind_ok.mp h
  rcases hcreate : t.source.create with _ | i
  · have hreplay := hinv.replay.trans hcreate
    rcases hrow : t.itemAutomation newId with _ | row
    · simp [createItemWithClient, ensureItemAutomation, writeSource, Tx.run_bind, hreplay,
        hrow] at h
      obtain ⟨rfl, rfl⟩ := h
      exact ⟨.single (.created newId _ _ hcreate rfl rfl (by simp)), trivial, trivial⟩
    · simp [createItemWithClient, ensureItemAutomation, writeSource, Tx.run_bind, hreplay,
        hrow] at h
      obtain ⟨rfl, rfl⟩ := h
      exact ⟨.single (.created newId _ _ hcreate rfl rfl (by simp [hrow])), trivial, trivial⟩
  · have hreplay := hinv.replay.trans hcreate
    obtain ⟨row, hrow⟩ := Option.isSome_iff_exists.mp (hinv.created i hcreate).1
    simp [createItemWithClient, ensureItemAutomation, writeSource, Tx.run_bind, hreplay,
      hrow] at h
    obtain ⟨rfl, rfl⟩ := h
    have hsource : { t.source with create := some i } = t.source := by
      rw [← hcreate]
    rw [hsource, ← hreplay]
    exact ⟨.refl, trivial, trivial⟩

theorem startTranscriptionAttempt_ok {o : Option String} (hinv : Inv task calls t)
    (h : (startTranscriptionAttempt task).run t = (.ok o, t')) :
    ∃ i, t.source.create = some i ∧ Effects task calls i t t' ∧ ∀ x ∈ o, x = i := by
  unfold startTranscriptionAttempt at h
  rw [run_getSource_bind, liftExcept_bind_ok] at h
  obtain ⟨i, hi, h⟩ := h
  have hcreate : t.source.create = some i := by
    rcases hcreate : t.source.create with _ | x <;> simp [requireTranscriptId, hcreate] at hi
    rw [hi]
  obtain ⟨row, hrow⟩ := Option.isSome_iff_exists.mp (hinv.created i hcreate).1
  refine ⟨i, hcreate, ?_⟩
  have hensure : (ensureItemAutomation i : Trans ρ Unit).run t = (.ok (), t) := by
    simp [ensureItemAutomation, hrow]
  rw [Tx.run_bind, hensure] at h
  rcases updateItemAutomation_bind_ok h with ⟨row', hrow', hcond, h⟩ | h
  · obtain ⟨rfl, rfl⟩ := run_pure_ok.mp h
    exact ⟨.single (.automation ⟨row', hrow', by simpa using hcond⟩ _ (by simp)), by simp⟩
  · obtain ⟨rfl, rfl⟩ := run_pure_ok.mp h
    exact ⟨.refl, by simp⟩

theorem runPrepareRead_ok {key : String}
    (h : (runPrepareRead tid key).run t = (.ok next, t')) : t' = t ∧ next.Plain := by
  unfold runPrepareRead at h
  rw [unlocked_bind_ok, run_getSource_bind] at h
  obtain ⟨_, h⟩ := h
  split_ifs at h
  · obtain ⟨rfl, rfl⟩ := run_pure_ok.mp h
    exact ⟨rfl, trivial⟩
  · rcases hfile : t.source.file with _ | file
    · simp [hfile] at h
    · rw [hfile] at h
      obtain ⟨_, h⟩ := getBlob_bind_ok h
      obtain ⟨rfl, rfl⟩ := run_pure_ok.mp h
      exact ⟨rfl, trivial⟩

theorem runDiarizeWrite_ok {turns : List DiarizationTurn}
    (h : (runDiarizeWrite tid turns).run t = (.ok next, t')) :
    Effects task calls tid t t' ∧ next.Plain := by
  unfold runDiarizeWrite at h
  rw [unlocked_bind_ok, run_getSource_bind] at h
  obtain ⟨hunlocked, h⟩ := h
  split_ifs at h with hsome
  · obtain ⟨rfl, rfl⟩ := run_pure_ok.mp h
    exact ⟨.refl, trivial⟩
  · rw [run_writeSource_bind] at h
    obtain ⟨rfl, rfl⟩ := run_pure_ok.mp h
    exact ⟨.single (.diarized hunlocked (by simpa using hsome) turns), trivial⟩

theorem runPrepareWrite_ok {snapshot : PrepareSnapshot} {media : NormalizedMedia}
    {newId now : String} (h : (runPrepareWrite task tid snapshot media newId now).run t =
      (.ok next, t')) : Effects task calls tid t t' ∧ next.Plain := by
  unfold runPrepareWrite at h
  rw [unlocked_bind_ok, run_getSource_bind] at h
  obtain ⟨hunlocked, h⟩ := h
  split_ifs at h with hsome hfile
  · obtain ⟨rfl, rfl⟩ := run_pure_ok.mp h
    exact ⟨.refl, trivial⟩
  · simp at h
  · rw [run_createBlob_bind, requireTranscript_bind_ok] at h
    obtain ⟨tr, htr, h⟩ := h
    rw [run_writeTranscript_bind, run_writeSource_bind, htr] at h
    obtain ⟨rfl, rfl⟩ := run_pure_ok.mp h
    have hnone : t.source.prepare = none := by simpa using hsome
    refine ⟨.head (.other hunlocked _ t.notifications t.related)
      (.head (.transcript ?_ tr _ htr ?_) (.single (.prepared ?_ ?_ _))), trivial⟩
    · exact hunlocked
    · exact ⟨fun _ => id, fun _ _ => id, fun _ => .inl, .inl⟩
    · exact hunlocked
    · exact hnone

theorem runDiarizeRead_ok (h : (runDiarizeRead task tid).run t = (.ok next, t')) :
    t' = t ∧ next.Plain := by
  unfold runDiarizeRead at h
  rw [unlocked_bind_ok, run_getSource_bind] at h
  obtain ⟨_, h⟩ := h
  split_ifs at h
  · obtain ⟨rfl, rfl⟩ := run_pure_ok.mp h
    exact ⟨rfl, trivial⟩
  · obtain ⟨_, _, h⟩ := liftExcept_bind_ok.mp h
    obtain ⟨rfl, rfl⟩ := run_pure_ok.mp h
    exact ⟨rfl, trivial⟩

theorem runMergeStep_ok (h : (runMergeStep task tid).run t = (.ok next, t')) :
    Effects task calls tid t t' ∧ next.Plain := by
  unfold runMergeStep at h
  rw [unlocked_bind_ok, run_getSource_bind, requireTranscript_bind_ok] at h
  obtain ⟨hunlocked, tr, htr, h⟩ := h
  split_ifs at h with hsome
  · obtain ⟨rfl, rfl⟩ := run_pure_ok.mp h
    exact ⟨.refl, trivial⟩
  · obtain ⟨prepare, hprepare, h⟩ := liftExcept_bind_ok.mp h
    obtain ⟨turns, hturns, h⟩ := liftExcept_bind_ok.mp h
    obtain ⟨chunks, hchunks, h⟩ := liftExcept_bind_ok.mp h
    simp only [run_writeTranscript_bind, htr, Option.map_some, Function.update_self] at h
    obtain ⟨rfl, rfl⟩ := run_pure_ok.mp h
    have hmerged : Merged task t (mergeTranscriptSegments turns chunks) := by
      refine ⟨prepare, turns, chunks, ?_, ?_, hchunks, rfl⟩
      · rcases hp : t.source.prepare with _ | p <;> simp [requirePrepareCheckpoint, hp] at hprepare
        rw [hprepare]
      · rcases hd : t.source.diarize with _ | d <;> simp [hd] at hturns
        rw [hturns]
    have hnone : tr.segments = none := by simpa using hsome
    refine ⟨.head (.transcript hunlocked tr _ htr ?_)
      (.single (.transcript ?_ _ _ (Function.update_self ..) ?_)), trivial⟩
    · refine ⟨fun x hx => by simp [hnone] at hx, fun _ _ => id, fun x hx => .inr ?_, .inl⟩
      obtain rfl := Option.some.inj hx
      exact hmerged
    · exact hunlocked
    · exact ⟨fun _ => id, fun _ _ => id, fun _ => .inl, .inl⟩

theorem runSummarizeRead_ok (h : (runSummarizeRead task tid).run t = (.ok next, t')) :
    t' = t ∧ next.Plain := by
  unfold runSummarizeRead at h
  rw [unlocked_bind_ok, requireTranscript_bind_ok] at h
  obtain ⟨_, tr, _, h⟩ := h
  split_ifs at h
  · obtain ⟨rfl, rfl⟩ := run_pure_ok.mp h
    exact ⟨rfl, trivial⟩
  · obtain ⟨_, _, h⟩ := liftExcept_bind_ok.mp h
    obtain ⟨_, _, h⟩ := liftExcept_bind_ok.mp h
    obtain ⟨rfl, rfl⟩ := run_pure_ok.mp h
    refine ⟨rfl, ?_⟩
    split_ifs <;> trivial

theorem runSummarizeWrite_ok {summary : String}
    (h : (runSummarizeWrite task tid summary).run t = (.ok next, t')) :
    Effects task calls tid t t' ∧ next.Plain := by
  unfold runSummarizeWrite at h
  rw [unlocked_bind_ok, requireTranscript_bind_ok] at h
  obtain ⟨hunlocked, tr, htr, h⟩ := h
  split_ifs at h with hsome
  · obtain ⟨rfl, rfl⟩ := run_pure_ok.mp h
    exact ⟨.refl, trivial⟩
  · rw [run_writeTranscript_bind, htr] at h
    obtain ⟨rfl, rfl⟩ := run_pure_ok.mp h
    refine ⟨.single (.transcript hunlocked tr _ htr
      ⟨fun _ => id, fun key x hx => ?_, fun _ => .inl, .inl⟩), trivial⟩
    have hkey : key ≠ task.summaryInstruction := by
      rintro rfl
      simp [hx] at hsome
    simpa [readSummaries, hkey] using hx

theorem runMatchStep_ok (h : (runMatchStep task tid).run t = (.ok next, t')) :
    Effects task calls tid t t' ∧ next.Plain := by
  unfold runMatchStep at h
  rw [unlocked_bind_ok, run_getSource_bind] at h
  obtain ⟨hunlocked, h⟩ := h
  obtain ⟨_, _, h⟩ := liftExcept_bind_ok.mp h
  obtain ⟨_, related, h⟩ := updateRelated_bind_ok h
  obtain ⟨rfl, rfl⟩ := run_pure_ok.mp h
  exact ⟨.single (.other hunlocked t.blobs t.notifications related), trivial⟩

theorem runSuggestSpeakersRead_ok (h : (runSuggestSpeakersRead task tid).run t = (.ok next, t')) :
    t' = t ∧ next.Plain := by
  unfold runSuggestSpeakersRead at h
  rw [unlocked_bind_ok, run_getSource_bind] at h
  obtain ⟨_, h⟩ := h
  split_ifs at h
  · obtain ⟨rfl, rfl⟩ := run_pure_ok.mp h
    exact ⟨rfl, trivial⟩
  · obtain ⟨_, _, h⟩ := requireTranscript_bind_ok.mp h
    obtain ⟨_, _, h⟩ := liftExcept_bind_ok.mp h
    rw [Tx.run_gets_bind] at h
    obtain ⟨rfl, rfl⟩ := run_pure_ok.mp h
    refine ⟨rfl, ?_⟩
    split_ifs <;> trivial

theorem runSuggestSpeakersWrite_ok {suggestions : List (String × String)}
    (h : (runSuggestSpeakersWrite task tid suggestions).run t = (.ok next, t')) :
    Effects task calls tid t t' ∧ next.Plain := by
  unfold runSuggestSpeakersWrite at h
  rw [unlocked_bind_ok, run_getSource_bind] at h
  obtain ⟨hunlocked, h⟩ := h
  split_ifs at h with hsome
  · obtain ⟨rfl, rfl⟩ := run_pure_ok.mp h
    exact ⟨.refl, trivial⟩
  · obtain ⟨speakers, related, h⟩ := updateRelated_bind_ok h
    rw [run_writeSource_bind] at h
    obtain ⟨rfl, rfl⟩ := run_pure_ok.mp h
    have hnone : t.source.suggestSpeakers = none := by simpa using hsome
    refine ⟨.head (.other hunlocked t.blobs t.notifications related)
      (.single (.suggested ?_ ?_ speakers)), trivial⟩
    · exact hunlocked
    · exact hnone

/-- The guard of the update spares a locked row. -/
theorem markItemAutomationDone_bind_ok {f : Bool → Trans ρ Phase} (hf : ∀ b, f b = pure .idle)
    (h : (markItemAutomationDone tid >>= f).run t = (.ok next, t')) :
    Effects task calls tid t t' ∧ next = .idle := by
  rcases updateItemAutomation_bind_ok h with ⟨row, hrow, hcond, h⟩ | h <;> rw [hf] at h
  · obtain ⟨rfl, rfl⟩ := run_pure_ok.mp h
    exact ⟨.single (.automation ⟨row, hrow, by simpa using hcond⟩ _ (by simp)), rfl⟩
  · obtain ⟨rfl, rfl⟩ := run_pure_ok.mp h
    exact ⟨.refl, rfl⟩

theorem runFinalizeStep_ok (h : (runFinalizeStep task tid).run t = (.ok next, t')) :
    Effects task calls tid t t' ∧ next = .idle := by
  unfold runFinalizeStep at h
  rw [unlocked_bind_ok, requireTranscript_bind_ok] at h
  obtain ⟨hunlocked, tr, htr, h⟩ := h
  split_ifs at h with hdone
  · exact markItemAutomationDone_bind_ok (fun _ => rfl) h
  · obtain ⟨segments, hsegments, h⟩ := liftExcept_bind_ok.mp h
    dsimp only at h
    split_ifs at h with hnone
    · simp at h
    · rw [run_writeTranscript_bind, htr] at h
      obtain ⟨heffects, hnext⟩ : Effects task calls tid _ t' ∧ next = .idle :=
        markItemAutomationDone_bind_ok (fun _ => rfl) h
      refine ⟨.head (.transcript hunlocked tr { tr with status := .done } htr
        ⟨fun _ => id, fun _ _ => id, fun _ => .inl, fun _ => .inr ⟨?_, ?_⟩⟩) heffects, hnext⟩
      · rcases hs : tr.segments with _ | s
        · simp [requireSegments, hs] at hsegments
        · rfl
      · simpa [Option.isSome_iff_ne_none, readSummaries] using hnone

/-! ### The loop over the chunks -/

def Tables.Begun (t : Tables ρ) : Prop := ((readAsrCheckpoint t.source).chunks 0).isSome

/-- A run is past the first chunk only where that one is checkpointed. -/
def RunOk (t : Tables ρ) (calls : List TranscribeCall) : Phase → Prop
  | .asrDone boundaries _ | .asrBlob boundaries _ => boundaries ≠ []
  | .asrChunk boundaries index _ | .asrCall boundaries index _ =>
    index < boundaries.length ∧ (index ≠ 0 → t.Begun)
  | .asrWrite boundaries index _ result => index < boundaries.length ∧ (index ≠ 0 → t.Begun) ∧
    ∃ call ∈ calls, call.index = index ∧ call.chunk = ⟨result.text, result.segments⟩
  | _ => True

/-- The language that the run is about to pass is the one that is checkpointed. -/
def LanguageOk (t : Tables ρ) : Phase → Prop
  | .asrChunk _ index language => index ≠ 0 →
    (readAsrCheckpoint t.source).chunks index = none →
      language = (readAsrCheckpoint t.source).language
  | .asrCall _ index language => index ≠ 0 → language = (readAsrCheckpoint t.source).language
  | .asrWrite _ index language result =>
    language = if index = 0 then result.language else (readAsrCheckpoint t.source).language
  | _ => True

theorem Phase.Plain.runOk (h : next.Plain) : RunOk t calls next := by
  cases next <;> trivial

theorem Phase.Plain.languageOk (h : next.Plain) : LanguageOk t next := by
  cases next <;> trivial

variable {boundaries : List AsrChunkBoundary} {index : ℕ} {language : Option String}

theorem nextChunk_runOk (h : t.Begun) : RunOk t calls (nextChunk boundaries index language) := by
  unfold nextChunk
  split_ifs with hlt
  · exact ⟨hlt, fun _ => h⟩
  · trivial

theorem nextChunk_languageOk (h : index + 1 < boundaries.length →
    (readAsrCheckpoint t.source).chunks (index + 1) = none →
      language = (readAsrCheckpoint t.source).language) :
    LanguageOk t (nextChunk boundaries index language) := by
  unfold nextChunk
  split_ifs with hlt
  · exact fun _ => h hlt
  · trivial

theorem runAsrRead_ok (h : (runAsrRead task).run t = (.ok next, t')) :
    t' = t ∧ RunOk t calls next ∧ LanguageOk t next := by
  unfold runAsrRead at h
  rw [run_getSource_bind] at h
  obtain ⟨_, _, h⟩ := liftExcept_bind_ok.mp h
  obtain ⟨rfl, rfl⟩ := run_pure_ok.mp h
  refine ⟨rfl, ?_⟩
  split_ifs with hnil
  · exact ⟨trivial, trivial⟩
  · exact ⟨hnil, trivial⟩

theorem runAsrDone_ok {blobId : String} (hok : boundaries ≠ [])
    (h : (runAsrDone boundaries blobId).run t = (.ok next, t')) :
    t' = t ∧ RunOk t calls next ∧ LanguageOk t next := by
  unfold runAsrDone at h
  rw [run_getSource_bind] at h
  obtain ⟨rfl, rfl⟩ := run_pure_ok.mp h
  refine ⟨rfl, ?_⟩
  split_ifs
  · exact ⟨trivial, trivial⟩
  · exact ⟨hok, trivial⟩

theorem runAsrChunkRead_ok (hinv : Inv task calls t)
    (hok : RunOk t calls (.asrChunk boundaries index language))
    (h : (runAsrChunkRead tid boundaries index language).run t = (.ok next, t')) :
    t' = t ∧ RunOk t calls next ∧
      (LanguageOk t (.asrChunk boundaries index language) → LanguageOk t next) := by
  unfold runAsrChunkRead at h
  rw [unlocked_bind_ok, run_getSource_bind] at h
  obtain ⟨_, h⟩ := h
  obtain ⟨rfl, rfl⟩ := run_pure_ok.mp h
  refine ⟨rfl, ?_⟩
  split_ifs with hsome
  · exact ⟨nextChunk_runOk (hinv.first index hsome), fun _ => nextChunk_languageOk fun _ _ => rfl⟩
  · exact ⟨hok, fun hl hindex => hl hindex (by simpa using hsome)⟩

/-- A run that finds its first chunk already checkpointed goes on with the language it has detected
itself. -/
theorem runAsrChunkWrite_ok {result : TranscriptionResult} (hinv : Inv task calls t)
    (hok : RunOk t calls (.asrWrite boundaries index language result))
    (h : (runAsrChunkWrite tid boundaries index language result).run t = (.ok next, t')) :
    Effects task calls tid t t' ∧ RunOk t' calls next ∧
      ((Phase.asrWrite boundaries index language result).keepsLanguage t tid = true →
        LanguageOk t (.asrWrite boundaries index language result) → LanguageOk t' next) := by
  obtain ⟨hlt, hbegun, hheard⟩ := hok
  unfold runAsrChunkWrite at h
  rw [unlocked_bind_ok, run_getSource_bind] at h
  obtain ⟨hunlocked, h⟩ := h
  dsimp only at h
  by_cases hsome : ((readAsrCheckpoint t.source).chunks index).isSome
  · rw [if_pos hsome] at h
    obtain ⟨rfl, rfl⟩ := run_pure_ok.mp h
    refine ⟨.refl, nextChunk_runOk (hinv.first index hsome), fun hkeeps hl =>
      nextChunk_languageOk fun hlt hnext => ?_⟩
    rcases index with _ | index
    · obtain ⟨row, hrow, hstatus⟩ := hunlocked
      have hlanguage : result.language = (readAsrCheckpoint t.source).language := by
        simpa [Phase.keepsLanguage, Option.isSome_iff_ne_none.mp hsome, hnext, hrow, hstatus,
          not_le.mpr hlt] using hkeeps
      exact hl.trans hlanguage
    · exact hl
  · rw [if_neg hsome, run_writeSource_bind] at h
    obtain ⟨rfl, rfl⟩ := run_pure_ok.mp h
    have hnone : (readAsrCheckpoint t.source).chunks index = none := by simpa using hsome
    refine ⟨.single (.transcribed hunlocked index _ _ hnone hbegun (fun hindex => if_neg hindex)
      hheard), nextChunk_runOk ?_, fun _ hl => nextChunk_languageOk fun _ _ => hl⟩
    by_cases hindex : index = 0
    · simp [Tables.Begun, readAsrCheckpoint, hindex]
    · have h₀ := hbegun hindex
      unfold Tables.Begun at h₀ ⊢
      simpa [readAsrCheckpoint, Function.update_of_ne (Ne.symm hindex)] using h₀

theorem transaction_ok {fresh now : String} {phase : Phase} {x : Trans ρ Phase}
    (hinv : Inv task calls t) (hok : RunOk t calls phase)
    (hx : task.transaction tid fresh now phase = some x) (h : x.run t = (.ok next, t')) :
    Effects task calls tid t t' ∧ RunOk t' calls next ∧ (phase.Unstarted → next.Unstarted) ∧
      (phase.keepsLanguage t tid = true → LanguageOk t phase → LanguageOk t' next) := by
  have plain : Effects task calls tid t t' ∧ next.Plain → (phase.Unstarted → next.Unstarted) →
      Effects task calls tid t t' ∧ RunOk t' calls next ∧ (phase.Unstarted → next.Unstarted) ∧
        (phase.keepsLanguage t tid = true → LanguageOk t phase → LanguageOk t' next) :=
    fun h hu => ⟨h.1, h.2.runOk, hu, fun _ _ => h.2.languageOk⟩
  have read : t' = t ∧ next.Plain → Effects task calls tid t t' ∧ next.Plain :=
    fun ⟨ht, hp⟩ => ⟨ht ▸ .refl, hp⟩
  cases phase with
  | create =>
    cases hx
    obtain ⟨ht, hp, hu⟩ := runCreateRead_ok h
    exact plain (read ⟨ht, hp⟩) fun _ => hu
  | createItem name =>
    cases hx
    obtain ⟨he, hp, hu⟩ := runCreateItem_ok hinv h
    exact plain ⟨he, hp⟩ fun _ => hu
  | prepare =>
    cases hx
    exact plain (read (runPrepareRead_ok h)) nofun
  | prepareWrite snapshot media =>
    cases hx
    exact plain (runPrepareWrite_ok h) nofun
  | diarize =>
    cases hx
    exact plain (read (runDiarizeRead_ok h)) nofun
  | diarizeBlob prepare =>
    cases hx
    obtain ⟨_, h⟩ := getBlob_bind_ok h
    obtain ⟨rfl, rfl⟩ := run_pure_ok.mp h
    exact plain ⟨.refl, trivial⟩ nofun
  | diarizeWrite turns =>
    cases hx
    exact plain (runDiarizeWrite_ok h) nofun
  | asr =>
    cases hx
    obtain ⟨rfl, hr, hl⟩ : t' = t ∧ RunOk t calls next ∧ LanguageOk t next := runAsrRead_ok h
    exact ⟨.refl, hr, nofun, fun _ _ => hl⟩
  | asrDone boundaries blobId =>
    cases hx
    obtain ⟨rfl, hr, hl⟩ : t' = t ∧ RunOk t calls next ∧ LanguageOk t next :=
      runAsrDone_ok hok h
    exact ⟨.refl, hr, nofun, fun _ _ => hl⟩
  | asrBlob boundaries blobId =>
    cases hx
    obtain ⟨_, h⟩ := getBlob_bind_ok h
    obtain ⟨rfl, rfl⟩ := run_pure_ok.mp h
    exact ⟨.refl, ⟨List.length_pos_iff.mpr hok, fun h => absurd rfl h⟩, nofun,
      fun _ _ h => absurd rfl h⟩
  | asrChunk boundaries index language =>
    cases hx
    obtain ⟨rfl, hr, hl⟩ := runAsrChunkRead_ok hinv hok h
    exact ⟨.refl, hr, nofun, fun _ => hl⟩
  | asrWrite boundaries index language result =>
    cases hx
    obtain ⟨he, hr, hl⟩ := runAsrChunkWrite_ok hinv hok h
    exact ⟨he, hr, nofun, hl⟩
  | merge =>
    cases hx
    exact plain (runMergeStep_ok h) nofun
  | summarize =>
    cases hx
    exact plain (read (runSummarizeRead_ok h)) nofun
  | summarizeWrite summary =>
    cases hx
    exact plain (runSummarizeWrite_ok h) nofun
  | matchEvent =>
    cases hx
    exact plain (runMatchStep_ok h) nofun
  | suggestSpeakers =>
    cases hx
    exact plain (read (runSuggestSpeakersRead_ok h)) nofun
  | suggestWrite suggestions =>
    cases hx
    exact plain (runSuggestSpeakersWrite_ok h) nofun
  | finalize =>
    cases hx
    obtain ⟨he, rfl⟩ : Effects task calls tid t t' ∧ next = .idle := runFinalizeStep_ok h
    exact plain ⟨he, trivial⟩ nofun
  | _ => cases hx

theorem recordTranscriptionFailure_ok {message : String} {permanent written : Bool}
    (h : (recordTranscriptionFailure tid message permanent).run t = (.ok written, t')) :
    Effects task calls tid t t' := by
  unfold recordTranscriptionFailure lockItemAutomation at h
  rw [Tx.run_gets_bind] at h
  rcases hrow : t.itemAutomation tid with _ | row <;> simp only [hrow] at h
  · rw [(run_pure_ok.mp h).2]
  · by_cases hlocked : row.status = .locked
    · rw [if_pos hlocked] at h
      rw [(run_pure_ok.mp h).2]
    · have hunlocked : t.Unlocked tid := ⟨row, hrow, hlocked⟩
      rw [if_neg hlocked] at h
      rcases updateItemAutomation_bind_ok h with ⟨row', _, _, h⟩ | h
      · rcases permanent
        · rw [← (run_pure_ok.mp h).2]
          exact .single (.automation hunlocked _ (by simp))
        · simp only [Bool.not_true, Bool.false_eq_true, if_false, requireTranscript_bind_ok] at h
          obtain ⟨tr, htr, h⟩ := h
          rw [run_writeTranscript_bind, htr, Tx.run_gets_bind] at h
          refine .head (.automation hunlocked ⟨.error, some message, row'.attempts⟩ (by simp))
            (.head (.transcript ⟨_, Function.update_self .., by simp⟩ tr
              { tr with status := .error } htr ⟨fun _ => id, fun _ _ => id, fun _ => .inl, nofun⟩) ?_)
          rcases huser : t.tenantUserId with _ | userId <;> simp only [huser] at h
          · rw [← (run_pure_ok.mp h).2]
            exact .refl
          · obtain ⟨notifications, h⟩ := writeNotification_bind_ok h
            rw [← (run_pure_ok.mp h).2]
            refine .single (.other ?_ t.blobs notifications t.related)
            exact ⟨_, Function.update_self .., by simp⟩
      · simp at h

end Transcription

end Semprec
