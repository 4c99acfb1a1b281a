import Mathlib.Logic.Relation
import Semprec.TranscriptionTask

/-!
# The writes of the transcription job

Whatever a transaction of a run writes is one `Effect` after the other; each of them keeps what is
written (`Kept`) and what holds of the committed tables (`Inv`), and needs the transcript unlocked.
-/

namespace Semprec

namespace Transcription

variable {ρ : Type} {task : Task ρ} {t t' : Tables ρ} {tid : String} {α β : Type} {b : β}
  {calls : List TranscribeCall}

/-! ### Reading the transactions -/

def Tables.Unlocked (t : Tables ρ) (tid : String) : Prop :=
  ∃ row, t.itemAutomation tid = some row ∧ row.status ≠ .locked

theorem unlocked_bind_ok {f : Unit → Trans ρ β} :
    (requireTranscriptionUnlocked tid >>= f).run t = (.ok b, t') ↔
      t.Unlocked tid ∧ (f ()).run t = (.ok b, t') := by
  unfold requireTranscriptionUnlocked lockItemAutomation Tables.Unlocked
  simp only [Tx.run_bind_ok, Tx.run_gets, Prod.mk.injEq, Except.ok.injEq]
  constructor
  · rintro ⟨_, _, ⟨_, _, ⟨rfl, rfl⟩, h⟩, hf⟩
    rcases hrow : t.itemAutomation tid with _ | row <;> simp only [hrow] at h
    · simp at h
    · split_ifs at h with hl
      · simp at h
      · simp only [Tx.run_pure, Prod.mk.injEq, true_and] at h
        exact ⟨⟨row, rfl, hl⟩, h ▸ hf⟩
  · rintro ⟨⟨row, hrow, hl⟩, hf⟩
    exact ⟨(), t, ⟨_, _, ⟨rfl, rfl⟩, by simp [hrow, hl]⟩, hf⟩

theorem requireTranscript_bind_ok {f : Transcript → Trans ρ β} :
    (requireTranscript tid >>= f).run t = (.ok b, t') ↔
      ∃ tr, t.transcripts tid = some tr ∧ (f tr).run t = (.ok b, t') := by
  unfold requireTranscript
  rw [Tx.run_query_bind_ok]
  rcases t.transcripts tid with _ | tr <;> simp

theorem liftExcept_bind_ok {x : Except TaskError α} {f : α → Trans ρ β} :
    (liftExcept x >>= f).run t = (.ok b, t') ↔ ∃ a, x = .ok a ∧ (f a).run t = (.ok b, t') :=
  Tx.run_query_bind_ok

theorem getBlob_bind_ok {blobId : String} {f : Blob → Trans ρ β}
    (h : (getBlob blobId >>= f).run t = (.ok b, t')) : ∃ blob, (f blob).run t = (.ok b, t') := by
  obtain ⟨blob, _, h⟩ := Tx.run_query_bind_ok.mp h
  exact ⟨blob, h⟩

theorem run_getSource_bind {f : Source → Trans ρ β} :
    (getSource >>= f).run t = (f t.source).run t := rfl

theorem run_writeSource_bind {g : Source → Source} {f : Unit → Trans ρ β} :
    (writeSource g >>= f).run t = (f ()).run { t with source := g t.source } := rfl

theorem run_writeTranscript_bind {g : Transcript → Transcript} {f : Unit → Trans ρ β} :
    (writeTranscript tid g >>= f).run t = (f ()).run { t with
      transcripts := Function.update t.transcripts tid ((t.transcripts tid).map g) } := rfl

theorem run_createBlob_bind {blob : Blob} {f : Unit → Trans ρ β} :
    (createBlob blob >>= f).run t = (f ()).run { t with blobs := t.blobs ++ [blob] } := rfl

theorem writeNotification_bind_ok {n : Notification} {f : Unit → Trans ρ β}
    (h : (writeNotification n >>= f).run t = (.ok b, t')) :
    ∃ notifications, (f ()).run { t with notifications } = (.ok b, t') := by
  by_cases hn : n ∈ t.notifications
  · exact ⟨t.notifications, by simpa [writeNotification, Tx.run_bind, hn] using h⟩
  · exact ⟨_, by simpa [writeNotification, Tx.run_bind, hn] using h⟩

theorem run_pure_ok {next : β} : ((pure next : Trans ρ β).run t = (.ok b, t')) ↔
    next = b ∧ t = t' := by
  simp

theorem updateRelated_bind_ok {g : ρ → Except TaskError (α × ρ)} {f : α → Trans ρ β}
    (h : (updateRelated g >>= f).run t = (.ok b, t')) :
    ∃ a related, (f a).run { t with related } = (.ok b, t') := by
  obtain ⟨a, t₁, h₁, h⟩ := Tx.run_bind_ok.mp h
  obtain ⟨⟨a', related⟩, _, h₁⟩ := Tx.run_query_bind_ok.mp h₁
  obtain ⟨ha, rfl⟩ := Prod.mk.inj h₁
  obtain rfl : a' = a := Except.ok.inj ha
  exact ⟨a', related, h⟩

theorem updateItemAutomation_bind_ok {cond : ItemAutomationStatus → Bool}
    {g : ItemAutomation → ItemAutomation} {f : Bool → Trans ρ β}
    (h : (updateItemAutomation tid cond g >>= f).run t = (.ok b, t')) :
    (∃ row, t.itemAutomation tid = some row ∧ cond row.status = true ∧
      (f true).run { t with
        itemAutomation := Function.update t.itemAutomation tid (some (g row)) } = (.ok b, t')) ∨
    (f false).run t = (.ok b, t') := by
  obtain ⟨updated, t₁, h₁, h⟩ := Tx.run_bind_ok.mp h
  simp only [updateItemAutomation, Tx.run_write, Prod.mk.injEq, Except.ok.injEq] at h₁
  obtain ⟨rfl, rfl⟩ := h₁
  rcases hrow : t.itemAutomation tid with _ | row
  · exact .inr (by simpa [hrow] using h)
  · by_cases hcond : cond row.status = true
    · exact .inl ⟨row, rfl, hcond, by simpa [hrow, hcond] using h⟩
    · exact .inr (by simpa [hrow, hcond] using h)

/-! ### What a run writes -/

def Merged (task : Task ρ) (t : Tables ρ) (segments : List TranscriptSegment) : Prop :=
  ∃ prepare turns chunks, t.source.prepare = some prepare ∧ t.source.diarize = some turns ∧
    asrChunks task.fileItemId (readAsrCheckpoint t.source)
      (computeAsrChunkBoundaries prepare.durationSeconds) = .ok chunks ∧
    segments = mergeTranscriptSegments turns chunks

structure Grows (task : Task ρ) (t : Tables ρ) (tr tr' : Transcript) : Prop where
  segments : ∀ x, tr.segments = some x → tr'.segments = some x
  summary : ∀ key x, readSummaries tr key = some x → readSummaries tr' key = some x
  merged : ∀ x, tr'.segments = some x → tr.segments = some x ∨ Merged task t x
  done : tr'.status = .done → tr.status = .done ∨
    tr'.segments.isSome ∧ (readSummaries tr' task.summaryInstruction).isSome

inductive Effect (task : Task ρ) (calls : List TranscribeCall) (tid : String)
    (t : Tables ρ) : Tables ρ → Prop where
  | created (newId : String) (row : Transcript)
      (itemAutomation : String → Option ItemAutomation) (hnone : t.source.create = none)
      (hsegments : row.segments = none) (hstatus : row.status = .processing)
      (hrow : (itemAutomation newId).isSome) :
      Effect task calls tid t { t with
        replay := some newId
        transcripts := Function.update t.transcripts newId (some row)
        itemAutomation
        source := { t.source with create := some newId } }
  | other (hunlocked : t.Unlocked tid) (blobs : List Blob) (notifications : List Notification)
      (related : ρ) : Effect task calls tid t { t with blobs, notifications, related }
  | automation (hunlocked : t.Unlocked tid) (row : ItemAutomation) (hrow : row.status ≠ .locked) :
      Effect task calls tid t
        { t with itemAutomation := Function.update t.itemAutomation tid (some row) }
  | prepared (hunlocked : t.Unlocked tid) (hnone : t.source.prepare = none)
      (prepare : PrepareStepResult) :
      Effect task calls tid t { t with source := { t.source with prepare := some prepare } }
  | diarized (hunlocked : t.Unlocked tid) (hnone : t.source.diarize = none)
      (turns : List DiarizationTurn) :
      Effect task calls tid t { t with source := { t.source with diarize := some turns } }
  | suggested (hunlocked : t.Unlocked tid) (hnone : t.source.suggestSpeakers = none)
      (speakers : List String) :
      Effect task calls tid t
        { t with source := { t.source with suggestSpeakers := some speakers } }
  | transcribed (hunlocked : t.Unlocked tid) (index : ℕ) (language : Option String)
      (chunk : AsrChunkResult) (hnone : (readAsrCheckpoint t.source).chunks index = none)
      (hindex : index ≠ 0 → ((readAsrCheckpoint t.source).chunks 0).isSome)
      (hlanguage : index ≠ 0 → language = (readAsrCheckpoint t.source).language)
      (hheard : ∃ call ∈ calls, call.index = index ∧ call.chunk = chunk) :
      Effect task calls tid t { t with source := { t.source with
        asr := some { language
                      chunks := Function.update (readAsrCheckpoint t.source).chunks index
                        (some chunk) } } }
  | transcript (hunlocked : t.Unlocked tid) (tr tr' : Transcript)
      (htr : t.transcripts tid = some tr) (hgrows : Grows task t tr tr') :
      Effect task calls tid t { t with transcripts := Function.update t.transcripts tid (some tr') }

abbrev Effects (task : Task ρ) (calls : List TranscribeCall) (tid : String) :
    Tables ρ → Tables ρ → Prop :=
  Relation.ReflTransGen (Effect task calls tid)

theorem Effect.unlocked (h : Effect task calls tid t t') (hcreate : t.source.create = some tid) :
    t.Unlocked tid := by
  rcases h with ⟨_, _, _, hnone⟩ | ⟨h⟩ | ⟨h⟩ | ⟨h⟩ | ⟨h⟩ | ⟨h⟩ | ⟨h⟩ | ⟨h⟩
  · exact absurd (hcreate.symm.trans hnone) (Option.some_ne_none tid)
  all_goals exact h

/-! ### Kept checkpoints -/

structure Kept (t t' : Tables ρ) : Prop where
  create : ∀ x, t.source.create = some x → t'.source.create = some x
  prepare : ∀ x, t.source.prepare = some x → t'.source.prepare = some x
  diarize : ∀ x, t.source.diarize = some x → t'.source.diarize = some x
  chunk : ∀ index x, (readAsrCheckpoint t.source).chunks index = some x →
    (readAsrCheckpoint t'.source).chunks index = some x
  language : ((readAsrCheckpoint t.source).chunks 0).isSome →
    (readAsrCheckpoint t'.source).language = (readAsrCheckpoint t.source).language
  suggestSpeakers : ∀ x, t.source.suggestSpeakers = some x → t'.source.suggestSpeakers = some x
  transcript : ∀ tid tr, t.transcripts tid = some tr → ∃ tr', t'.transcripts tid = some tr' ∧
    (∀ x, tr.segments = some x → tr'.segments = some x) ∧
    ∀ key x, readSummaries tr key = some x → readSummaries tr' key = some x

namespace Kept

theorem ofEq (hs : t'.source = t.source) (htr : t'.transcripts = t.transcripts) : Kept t t' := by
  constructor
  case transcript => exact fun _ tr h => ⟨tr, htr ▸ h, fun _ => id, fun _ _ => id⟩
  all_goals simp only [hs, imp_self, implies_true]

theorem refl (t : Tables ρ) : Kept t t := .ofEq rfl rfl

theorem trans {t'' : Tables ρ} (h : Kept t t') (h' : Kept t' t'') : Kept t t'' where
  create x hx := h'.create x (h.create x hx)
  prepare x hx := h'.prepare x (h.prepare x hx)
  diarize x hx := h'.diarize x (h.diarize x hx)
  chunk index x hx := h'.chunk index x (h.chunk index x hx)
  language hx := by
    obtain ⟨x, h₀⟩ := Option.isSome_iff_exists.mp hx
    exact (h'.language (h.chunk 0 x h₀ ▸ rfl)).trans (h.language hx)
  suggestSpeakers x hx := h'.suggestSpeakers x (h.suggestSpeakers x hx)
  transcript tid tr hx := by
    obtain ⟨tr', hx', hs, hk⟩ := h.transcript tid tr hx
    obtain ⟨tr'', hx'', hs', hk'⟩ := h'.transcript tid tr' hx'
    exact ⟨tr'', hx'', fun x hx => hs' x (hs x hx), fun key x hx => hk' key x (hk key x hx)⟩

theorem chunk_isSome (h : Kept t t') {index : ℕ}
    (hx : ((readAsrCheckpoint t.source).chunks index).isSome) :
    ((readAsrCheckpoint t'.source).chunks index).isSome := by
  obtain ⟨x, hx⟩ := Option.isSome_iff_exists.mp hx
  exact h.chunk index x hx ▸ rfl

/-- Of a write to the source: no key that is there is written again. -/
theorem ofSource {source : Source}
    (hcreate : ∀ x, t.source.create = some x → source.create = some x)
    (hprepare : ∀ x, t.source.prepare = some x → source.prepare = some x)
    (hdiarize : ∀ x, t.source.diarize = some x → source.diarize = some x)
    (hasr : source.asr = t.source.asr)
    (hsuggest : ∀ x, t.source.suggestSpeakers = some x → source.suggestSpeakers = some x) :
    Kept t { t with source } := by
  have hread : readAsrCheckpoint source = readAsrCheckpoint t.source := by
    simp [readAsrCheckpoint, hasr]
  exact ⟨hcreate, hprepare, hdiarize, fun _ _ hx => hread ▸ hx, fun _ => by rw [hread], hsuggest,
    fun _ tr h => ⟨tr, h, fun _ => id, fun _ _ => id⟩⟩

/-- The segments come from checkpoints that stay. -/
theorem merged (h : Kept t t') {x : List TranscriptSegment} (hm : Merged task t x) :
    Merged task t' x := by
  obtain ⟨prepare, turns, chunks, hp, hd, hc, hx⟩ := hm
  refine ⟨prepare, turns, chunks, h.prepare _ hp, h.diarize _ hd, ?_, hx⟩
  unfold asrChunks at hc ⊢
  generalize (computeAsrChunkBoundaries prepare.durationSeconds).zipIdx = bs at hc
  clear hx
  induction bs generalizing chunks with
  | nil => exact hc
  | cons b bs ih =>
    simp only [List.mapM_cons, except_bind_ok] at hc ⊢
    obtain ⟨c, hb, cs, hbs, hcs⟩ := hc
    refine ⟨c, ?_, cs, ih cs hbs, hcs⟩
    rcases hchunk : (readAsrCheckpoint t.source).chunks b.2 with _ | chunk
    · simp [hchunk] at hb
    · rw [h.chunk _ _ hchunk]
      rwa [hchunk] at hb

end Kept

/-- What holds of the committed tables at any time. -/
structure Inv (task : Task ρ) (calls : List TranscribeCall) (t : Tables ρ) : Prop where
  replay : t.replay = t.source.create
  fresh : t.source.create = none → ∀ tid, t.transcripts tid = none
  created : ∀ tid, t.source.create = some tid →
    (t.itemAutomation tid).isSome ∧ (t.transcripts tid).isSome
  first : ∀ index, ((readAsrCheckpoint t.source).chunks index).isSome →
    ((readAsrCheckpoint t.source).chunks 0).isSome
  heard : ∀ index x, (readAsrCheckpoint t.source).chunks index = some x →
    ∃ call ∈ calls, call.index = index ∧ call.chunk = x
  merged : ∀ tid tr x, t.transcripts tid = some tr → tr.segments = some x → Merged task t x
  done : ∀ tid tr, t.transcripts tid = some tr → tr.status = .done →
    tr.segments.isSome ∧ (readSummaries tr task.summaryInstruction).isSome

namespace Effect

theorem kept (h : Effect task calls tid t t') (hinv : Inv task calls t) : Kept t t' := by
  rcases h with ⟨newId, row, rows, hnone⟩ | ⟨_, blobs, notifications, related⟩ | ⟨_, row⟩ |
    ⟨_, hnone, prepare⟩ | ⟨_, hnone, turns⟩ | ⟨_, hnone, speakers⟩ |
    ⟨_, index, language, chunk, hnone, hindex, hlanguage⟩ | ⟨_, tr, tr', htr, hgrows⟩
  · refine ⟨fun x hx => ?_, fun _ => id, fun _ => id, fun _ _ => id, fun _ => rfl, fun _ => id,
      fun i tr hi => ?_⟩
    · exact absurd (hx.symm.trans hnone) (Option.some_ne_none x)
    · exact absurd (hi.symm.trans (hinv.fresh hnone i)) (Option.some_ne_none tr)
  · exact .ofEq rfl rfl
  · exact .ofEq rfl rfl
  · exact .ofSource (fun _ => id) (fun x hx => by simp [hnone] at hx) (fun _ => id) rfl fun _ => id
  · exact .ofSource (fun _ => id) (fun _ => id) (fun x hx => by simp [hnone] at hx) rfl fun _ => id
  · exact .ofSource (fun _ => id) (fun _ => id) (fun _ => id) rfl fun x hx => by simp [hnone] at hx
  · refine ⟨fun _ => id, fun _ => id, fun _ => id, fun i x hx => ?_, fun hx => ?_, fun _ => id,
      fun _ tr h => ⟨tr, h, fun _ => id, fun _ _ => id⟩⟩
    · have hi : i ≠ index := by
        rintro rfl
        exact absurd (hx.symm.trans hnone) (Option.some_ne_none x)
      exact (Function.update_of_ne hi ..).trans hx
    · refine hlanguage fun h₀ => ?_
      rw [h₀] at hnone
      simp [hnone] at hx
  · refine ⟨fun _ => id, fun _ => id, fun _ => id, fun _ _ => id, fun _ => rfl, fun _ => id,
      fun i tr₀ hi => ?_⟩
    by_cases hid : i = tid
    · rw [hid] at hi ⊢
      obtain rfl : tr = tr₀ := Option.some.inj (htr.symm.trans hi)
      exact ⟨tr', Function.update_self .., hgrows.segments, hgrows.summary⟩
    · exact ⟨tr₀, (Function.update_of_ne hid ..).trans hi, fun _ => id, fun _ _ => id⟩

theorem inv (h : Effect task calls tid t t') (hinv : Inv task calls t) : Inv task calls t' := by
  have hkept := h.kept hinv
  have hmerged : ∀ x, Merged task t x → Merged task t' x := fun _ => hkept.merged
  rcases h with ⟨newId, row, rows, hnone, hsegments, hstatus, hrow⟩ |
    ⟨_, blobs, notifications, related⟩ |
    ⟨_, row⟩ | ⟨_, hnone, prepare⟩ | ⟨_, hnone, turns⟩ | ⟨_, hnone, speakers⟩ |
    ⟨_, index, language, chunk, hnone, hindex, hlanguage, hheard⟩ | ⟨_, tr, tr', htr, hgrows⟩
  · refine ⟨rfl, nofun, fun i hi => ?_, hinv.first, hinv.heard, fun i tr x hi hx => ?_,
      fun i tr hi hd => ?_⟩
    · obtain rfl : newId = i := Option.some.inj hi
      exact ⟨hrow, by simp⟩
    · by_cases hid : i = newId
      · obtain rfl : row = tr := by simpa [hid] using hi
        simp [hsegments] at hx
      · exact absurd ((Function.update_of_ne hid ..).symm.trans hi)
          (by simp [hinv.fresh hnone i])
    · by_cases hid : i = newId
      · obtain rfl : row = tr := by simpa [hid] using hi
        simp [hstatus] at hd
      · exact absurd ((Function.update_of_ne hid ..).symm.trans hi)
          (by simp [hinv.fresh hnone i])
  · exact ⟨hinv.replay, hinv.fresh, hinv.created, hinv.first, hinv.heard,
      fun i tr x hi hx => hmerged x (hinv.merged i tr x hi hx), hinv.done⟩
  · refine ⟨hinv.replay, hinv.fresh, fun i hi => ⟨?_, (hinv.created i hi).2⟩, hinv.first,
      hinv.heard,
      fun i tr x hi hx => hmerged x (hinv.merged i tr x hi hx), hinv.done⟩
    by_cases hid : i = tid
    · simp [hid]
    · simpa [hid] using (hinv.created i hi).1
  · exact ⟨hinv.replay, hinv.fresh, hinv.created, hinv.first, hinv.heard,
      fun i tr x hi hx => hmerged x (hinv.merged i tr x hi hx), hinv.done⟩
  · exact ⟨hinv.replay, hinv.fresh, hinv.created, hinv.first, hinv.heard,
      fun i tr x hi hx => hmerged x (hinv.merged i tr x hi hx), hinv.done⟩
  · exact ⟨hinv.replay, hinv.fresh, hinv.created, hinv.first, hinv.heard,
      fun i tr x hi hx => hmerged x (hinv.merged i tr x hi hx), hinv.done⟩
  · refine ⟨hinv.replay, hinv.fresh, hinv.created, fun i hi => ?_, fun i x hi => ?_,
      fun i tr x hi hx => hmerged x (hinv.merged i tr x hi hx), hinv.done⟩
    · by_cases hzero : index = 0
      · simp [readAsrCheckpoint, hzero]
      · exact hkept.chunk_isSome (hindex hzero)
    · by_cases hindex' : i = index
      · obtain rfl : chunk = x := by simpa [readAsrCheckpoint, hindex'] using hi
        exact hindex' ▸ hheard
      · exact hinv.heard i x (by simpa [readAsrCheckpoint, hindex'] using hi)
  · refine ⟨hinv.replay, fun hnone i => ?_, fun i hi => ⟨(hinv.created i hi).1, ?_⟩, hinv.first,
      hinv.heard, fun i tr₀ x hi hx => ?_, fun i tr₀ hi hd => ?_⟩
    · exact absurd (htr.symm.trans (hinv.fresh hnone tid)) (Option.some_ne_none tr)
    · by_cases hid : i = tid
      · simp [hid]
      · simpa [hid] using (hinv.created i hi).2
    · by_cases hid : i = tid
      · obtain rfl : tr' = tr₀ := by simpa [hid] using hi
        rcases hgrows.merged x hx with hx | hx
        · exact hmerged x (hinv.merged tid tr x htr hx)
        · exact hmerged x hx
      · exact hmerged x (hinv.merged i tr₀ x (by simpa [hid] using hi) hx)
    · by_cases hid : i = tid
      · obtain rfl : tr' = tr₀ := by simpa [hid] using hi
        rcases hgrows.done hd with hd | hd
        · obtain ⟨hs, hk⟩ := hinv.done tid tr htr hd
          obtain ⟨x, hx⟩ := Option.isSome_iff_exists.mp hs
          obtain ⟨y, hy⟩ := Option.isSome_iff_exists.mp hk
          exact ⟨hgrows.segments x hx ▸ rfl, hgrows.summary _ y hy ▸ rfl⟩
        · exact hd
      · exact hinv.done i tr₀ (by simpa [hid] using hi) hd

end Effect

namespace Effects

theorem kept_inv (h : Effects task calls tid t t') (hinv : Inv task calls t) :
    Kept t t' ∧ Inv task calls t' := by
  induction h with
  | refl => exact ⟨.refl t, hinv⟩
  | tail _ h ih => exact ⟨ih.1.trans (h.kept ih.2), h.inv ih.2⟩

/-- A run writes nothing while its transcript is locked. -/
theorem eq_of_locked (h : Effects task calls tid t t') (hcreate : t.source.create = some tid)
    (hlocked : ¬t.Unlocked tid) : t' = t := by
  rcases Relation.ReflTransGen.cases_head h with rfl | ⟨t₁, h, _⟩
  · rfl
  · exact absurd (h.unlocked hcreate) hlocked

end Effects

end Transcription

end Semprec
