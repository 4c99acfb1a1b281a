import Mathlib.Order.Nat
import Semprec.Scheduler

/-!
# An occurrence succeeds at most once

`step_occurrence` says once what a step can do to an occurrence row, `step_attempt` and `step_job`
what it leaves of the attempts and jobs.  A generation only grows, so an attempt that is behind its
occurrence stays behind; while no job is redelivered to a second live attempt or after its
occurrence has succeeded, and no attempt goes on once its occurrence has been reactivated, a
succeeded occurrence stays succeeded (`succeedsOnce`).
-/

namespace Semprec

namespace Scheduler

variable {L : Luxon} {modules : HeartbeatRuleKindRegistry L} {s s' : Sys L} {a : Act L}

/-- The attempt runs its handler, or is about to or has just done so. -/
def Phase.live : Phase → Bool
  | .prepared | .handling | .handled | .handlerFailed _ => true
  | _ => false

/-- The attempt a step is a step of. -/
def Act.attempt? : Act L → Option ℕ
  | .prepare n _ | .prepareThrows n _ | .lookup n | .lookupThrows n _ | .handlerReturns n
  | .handlerThrows n _ | .succeed n | .succeedThrows n _ | .closeOut n | .closeOutThrows n
  | .release n | .crash n => some n
  | _ => none

def Current (s : Sys L) (n : ℕ) : Prop :=
  ∀ att ∈ s.attempts n, ∀ o ∈ s.occurrences att.occurrenceId, o.generation = att.generation

/-- Attempts fire in order: a job of the current generation is prepared while no other attempt of
it is live and its occurrence has not succeeded, and no attempt calls its handler or records its
outcome after its occurrence has been reactivated. -/
def FiresInOrder (s : Sys L) : Act L → Prop
  | .prepare n _ => ∀ att ∈ s.attempts n, ∀ o ∈ s.occurrences att.occurrenceId,
      o.generation = att.generation → o.status ≠ .succeeded ∧
        ∀ m < s.attemptSeq, ∀ att' ∈ s.attempts m, att'.phase.live = true →
          ¬ (att'.occurrenceId = att.occurrenceId ∧ att'.generation = att.generation)
  | .lookup n | .succeed n => Current s n
  | .closeOut n => ∀ att ∈ s.attempts n, att.isFinalAttempt = true → Current s n
  | _ => True

def Swept (o o' : OccurrenceRow) : Prop :=
  o' = o ∨ (o.status = .cancelled ∨ o.status = .queued) ∧ o'.status = .queued ∧
    o.generation < o'.generation

theorem Swept.trans {o o' o'' : OccurrenceRow} (h : Swept o o') (h' : Swept o' o'') :
    Swept o o'' := by
  rcases h with rfl | ⟨hs, hs', hg⟩
  · exact h'
  · rcases h' with rfl | ⟨-, hs'', hg'⟩
    · exact .inr ⟨hs, hs', hg⟩
    · exact .inr ⟨hs, hs'', Nat.lt_trans hg hg'⟩

theorem insertHeartbeatOccurrence_swept {o o' : OccurrenceRow} {rule : AnyHeartbeatRule}
    (h : insertHeartbeatOccurrence (some o) rule = some o') : Swept o o' := by
  unfold insertHeartbeatOccurrence at h
  simp only [] at h
  split_ifs at h with hc hq
  · cases h
    exact .inr ⟨.inl hc, rfl, Nat.lt_succ_self _⟩
  · cases h
    exact .inr ⟨.inr hq.1, rfl, Nat.lt_succ_self _⟩

theorem sweepRow_cases (modules : HeartbeatRuleKindRegistry L) (s : Sys L) (id : ℕ) :
    (∃ h, sweepRow modules s id = s.setHeartbeat id h ∨ sweepRow modules s id = s) ∨
      ∃ h due rule o, insertHeartbeatOccurrence (s.occurrences ⟨id, due⟩) rule = some o ∧
        sweepRow modules s id =
          ((s.setOccurrence ⟨id, due⟩ o).setHeartbeat id h).enqueueJob ⟨id, due⟩ o.generation := by
  unfold sweepRow
  split
  · exact .inl ⟨⟨.interval 0, "", false, none, none, none⟩, .inr rfl⟩
  · rename_i h _
    split
    · exact .inl ⟨h, .inr rfl⟩
    · split_ifs
      · split
        · exact .inl ⟨_, .inl rfl⟩
        · split
          · exact .inl ⟨_, .inl rfl⟩
          · split
            · exact .inl ⟨h, .inr rfl⟩
            · rename_i o ho
              exact .inr ⟨_, _, _, o, ho, rfl⟩
      · exact .inl ⟨h, .inr rfl⟩

theorem sweepRow_occurrence {id : ℕ} {key : OccurrenceId} {o : OccurrenceRow}
    (ho : s.occurrences key = some o) :
    ∃ o', (sweepRow modules s id).occurrences key = some o' ∧ Swept o o' := by
  rcases sweepRow_cases modules s id with ⟨h, hs | hs⟩ | ⟨h, due, rule, o', hins, hs⟩
  · exact ⟨o, by rw [hs]; exact ho, .inl rfl⟩
  · exact ⟨o, by rw [hs]; exact ho, .inl rfl⟩
  · rw [hs]
    by_cases hk : key = ⟨id, due⟩
    · subst hk
      rw [ho] at hins
      exact ⟨o', Function.update_self _ _ _, insertHeartbeatOccurrence_swept hins⟩
    · exact ⟨o, (Function.update_of_ne hk _ _).trans ho, .inl rfl⟩

theorem sweepDueHeartbeats_occurrence {ids : List ℕ} {key : OccurrenceId} :
    ∀ {s : Sys L} {o : OccurrenceRow}, s.occurrences key = some o →
      ∃ o', (sweepDueHeartbeats modules s ids).occurrences key = some o' ∧ Swept o o' := by
  induction ids with
  | nil => exact fun {_ o} ho => ⟨o, ho, .inl rfl⟩
  | cons id ids ih =>
    intro s o ho
    obtain ⟨o₁, ho₁, hs₁⟩ : ∃ o₁, (sweepRow modules s id).occurrences key = some o₁ ∧ Swept o o₁ :=
      sweepRow_occurrence ho
    obtain ⟨o₂, ho₂, hs₂⟩ := ih ho₁
    exact ⟨o₂, ho₂, hs₁.trans hs₂⟩

theorem prepare_cases {id : OccurrenceId} {generation : ℕ} {appNow : ℤ} {proceed : Bool}
    (h : prepareHeartbeatOccurrenceFire modules s id generation appNow = some (s', proceed)) :
    s'.jobs = s.jobs ∧ s'.attempts = s.attempts ∧ s'.attemptSeq = s.attemptSeq ∧
      (∀ key, key ≠ id → s'.occurrences key = s.occurrences key) ∧
      ((s' = s ∧ (proceed = true → ∃ o, s.occurrences id = some o ∧ o.generation = generation)) ∨
        ∃ o o', s.occurrences id = some o ∧ o.generation = generation ∧
          s'.occurrences id = some o' ∧ o'.generation = o.generation ∧ o'.status ≠ .succeeded) := by
  unfold prepareHeartbeatOccurrenceFire at h
  split at h
  · rename_i hb o hhb ho
    by_cases hg : o.generation ≠ generation
    · rw [if_pos hg] at h
      cases h
      exact ⟨rfl, rfl, rfl, fun _ _ => rfl, .inl ⟨rfl, nofun⟩⟩
    rw [if_neg hg] at h
    have hgen : o.generation = generation := not_not.mp hg
    by_cases hr : ¬ hb.enabled ∨ hb.rule ≠ o.ruleSnapshot
    · rw [if_pos hr] at h
      cases h
      exact ⟨rfl, rfl, rfl, fun key hk => Function.update_of_ne hk _ _,
        .inr ⟨o, _, ho, hgen, Function.update_self _ _ _, rfl, nofun⟩⟩
    rw [if_neg hr] at h
    split at h
    · cases h
      exact ⟨rfl, rfl, rfl, fun key hk => Function.update_of_ne hk _ _,
        .inr ⟨o, _, ho, hgen, Function.update_self _ _ _, rfl, nofun⟩⟩
    rename_i rule _
    by_cases hf : o.firstStartedAt = none
    · rw [if_pos hf] at h
      by_cases hfl : rule.isFloating = true
      · simp only [hfl, if_true] at h
        split at h
        · cases h
        · cases h
          exact ⟨rfl, rfl, rfl, fun key hk => Function.update_of_ne hk _ _,
            .inr ⟨o, _, ho, hgen, Function.update_self _ _ _, rfl, nofun⟩⟩
      · simp only [hfl, Bool.false_eq_true, if_false] at h
        cases h
        exact ⟨rfl, rfl, rfl, fun key hk => Function.update_of_ne hk _ _,
          .inr ⟨o, _, ho, hgen, Function.update_self _ _ _, rfl, nofun⟩⟩
    · rw [if_neg hf] at h
      cases h
      exact ⟨rfl, rfl, rfl, fun _ _ => rfl, .inl ⟨rfl, fun _ => ⟨o, ho, hgen⟩⟩⟩
  · cases h
    exact ⟨rfl, rfl, rfl, fun _ _ => rfl, .inl ⟨rfl, nofun⟩⟩

/-- The steps of the user, the tenant and the clock: they leave the queue and its occurrences. -/
def Act.edits : Act L → Bool
  | .createHeartbeat .. | .readHeartbeat .. | .updateHeartbeatRule .. | .enableHeartbeat ..
  | .disableHeartbeat _ | .changeTimezone .. | .setModules _ | .setTenant _ | .tick _ => true
  | _ => false

theorem step_edits (ha : a.edits = true) (h : step modules s a = some s') :
    s'.occurrences = s.occurrences ∧ s'.jobs = s.jobs ∧ s'.attempts = s.attempts ∧
      s'.attemptSeq = s.attemptSeq := by
  cases a with
  | createHeartbeat raw actionId enabled appNow =>
    simp only [step, createHeartbeat] at h
    split at h <;> cases h
    exact ⟨rfl, rfl, rfl, rfl⟩
  | readHeartbeat e hid =>
    obtain ⟨_, _, rfl⟩ := Option.map_eq_some_iff.mp h
    exact ⟨rfl, rfl, rfl, rfl⟩
  | updateHeartbeatRule e raw appNow =>
    obtain ⟨edit, -, h⟩ := Option.bind_eq_some_iff.mp h
    unfold updateHeartbeatRule at h
    split at h
    · cases h
    · split at h <;> cases h
      exact ⟨rfl, rfl, rfl, rfl⟩
  | enableHeartbeat e appNow =>
    obtain ⟨edit, -, h⟩ := Option.bind_eq_some_iff.mp h
    unfold enableHeartbeat at h
    split at h
    · cases h
    · split at h
      · cases h
      · split_ifs at h
        · cases h
          exact ⟨rfl, rfl, rfl, rfl⟩
        · split at h <;> cases h
          exact ⟨rfl, rfl, rfl, rfl⟩
  | disableHeartbeat hid =>
    simp only [step, disableHeartbeat] at h
    split at h <;> cases h
    exact ⟨rfl, rfl, rfl, rfl⟩
  | changeTimezone | setModules | setTenant =>
    cases h
    exact ⟨rfl, rfl, rfl, rfl⟩
  | tick dbNow =>
    simp only [step] at h
    split_ifs at h
    cases h
    exact ⟨rfl, rfl, rfl, rfl⟩
  | _ => cases ha

inductive OccurrenceChange (s : Sys L) (id : OccurrenceId) (o o' : OccurrenceRow) :
    Act L → Prop where
  | unchanged {a : Act L} : o' = o → OccurrenceChange s id o o' a
  | swept {ids : List ℕ} : Swept o o' → OccurrenceChange s id o o' (.sweep ids)
  | prepared {n : ℕ} {appNow : ℤ} {att : Attempt} : s.attempts n = some att →
      att.occurrenceId = id → o.generation = att.generation → o'.generation = o.generation →
      o'.status ≠ .succeeded → OccurrenceChange s id o o' (.prepare n appNow)
  | succeeded {n : ℕ} {att : Attempt} : s.attempts n = some att → att.phase = .handled →
      att.occurrenceId = id → o'.generation = o.generation → o'.status = .succeeded →
      OccurrenceChange s id o o' (.succeed n)
  | failed {n : ℕ} {att : Attempt} {message : String} : s.attempts n = some att →
      att.phase = .handlerFailed message → att.isFinalAttempt = true → att.occurrenceId = id →
      o'.generation = o.generation → o'.status = .failed →
      OccurrenceChange s id o o' (.closeOut n)
  | closedOut {n : ℕ} {message : String} : o' = o.closeOut message →
      OccurrenceChange s id o o' (.closeOut n)

theorem step_occurrence {id : OccurrenceId} {o : OccurrenceRow} (ho : s.occurrences id = some o)
    (h : step modules s a = some s') :
    ∃ o', s'.occurrences id = some o' ∧ OccurrenceChange s id o o' a := by
  have hsame : s'.occurrences = s.occurrences →
      ∃ o', s'.occurrences id = some o' ∧ OccurrenceChange s id o o' a := fun heq =>
    ⟨o, heq ▸ ho, .unchanged rfl⟩
  by_cases ha : a.edits = true
  · exact hsame (step_edits ha h).1
  cases a with
  | createHeartbeat | readHeartbeat | updateHeartbeatRule | enableHeartbeat | disableHeartbeat
  | changeTimezone | setModules | setTenant | tick => exact absurd rfl ha
  | sweep ids =>
    simp only [step] at h
    split_ifs at h
    cases h
    obtain ⟨o', ho', hsw⟩ : ∃ o', (sweepDueHeartbeats modules s ids).occurrences id = some o' ∧
        Swept o o' := sweepDueHeartbeats_occurrence ho
    exact ⟨o', ho', .swept hsw⟩
  | dispatch j =>
    simp only [step] at h
    split at h
    · split_ifs at h <;> cases h <;> exact hsame rfl
    · cases h
  | prepare n appNow =>
    simp only [step] at h
    split at h
    · rename_i att hatt
      split_ifs at h
      obtain ⟨⟨s₁, proceed⟩, hprep, rfl⟩ := Option.map_eq_some_iff.mp h
      obtain ⟨-, -, -, hother, hself⟩ := prepare_cases hprep
      by_cases hid : id = att.occurrenceId
      · subst hid
        rcases hself with ⟨rfl, -⟩ | ⟨o₀, o', ho₀, hgen, ho', hgen', hst⟩
        · exact hsame rfl
        · rw [ho] at ho₀
          cases ho₀
          exact ⟨o', ho', .prepared hatt rfl hgen hgen' hst⟩
      · exact ⟨o, (hother id hid).trans ho, .unchanged rfl⟩
    · cases h
  | succeed n =>
    simp only [step] at h
    split at h
    · rename_i att hatt
      split_ifs at h with hph
      cases h
      by_cases hid : id = att.occurrenceId
      · subst hid
        exact ⟨{ o with status := .succeeded, lastError := none },
          (Function.update_self _ _ _).trans (by rw [ho]; rfl), .succeeded hatt hph rfl rfl rfl⟩
      · exact ⟨o, (Function.update_of_ne hid _ _).trans ho, .unchanged rfl⟩
    · cases h
  | closeOut n =>
    simp only [step] at h
    split at h
    · rename_i att hatt
      split at h
      · rename_i message hph
        split_ifs at h with hfin
        · cases h
          by_cases hid : id = att.occurrenceId
          · subst hid
            exact ⟨{ o with status := .failed, lastError := some (.thrown message) },
              (Function.update_self _ _ _).trans (by rw [ho]; rfl),
              .failed hatt hph hfin rfl rfl rfl⟩
          · exact ⟨o, (Function.update_of_ne hid _ _).trans ho, .unchanged rfl⟩
        · cases h
          exact hsame rfl
      · rename_i message hph
        split_ifs at h with hfin
        · cases h
          unfold recordHeartbeatFireSetupFailure
          split
          · exact ⟨o, ho, .unchanged rfl⟩
          · by_cases hid : id = att.occurrenceId
            · subst hid
              exact ⟨o.closeOut message, (Function.update_self _ _ _).trans (by rw [ho]; rfl),
                .closedOut rfl⟩
            · exact ⟨o, (Function.update_of_ne hid _ _).trans ho, .unchanged rfl⟩
        · cases h
          exact hsame rfl
      · cases h
    · cases h
  | release n =>
    simp only [step] at h
    split at h
    · split_ifs at h
      · cases h
        exact hsame rfl
      · cases h
        exact hsame rfl
    · cases h
  | crash n =>
    obtain ⟨_, _, rfl⟩ := Option.map_eq_some_iff.mp h
    exact hsame rfl
  | unlock j =>
    obtain ⟨_, _, rfl⟩ := Option.map_eq_some_iff.mp h
    exact hsame rfl
  | _ =>
    simp only [step] at h
    split at h
    · split_ifs at h
      cases h
      exact hsame rfl
    · cases h

inductive AttemptChange (s : Sys L) (n : ℕ) (att : Attempt) : Act L → Prop where
  | unchanged {a : Act L} : s.attempts n = some att → AttemptChange s n att a
  | dispatched {j : ℕ} {job : JobRow} : s.jobs j = some job → n = s.attemptSeq →
      att.occurrenceId = job.occurrenceId → att.generation = job.generation →
      att.phase.live = false → AttemptChange s n att (.dispatch j)
  | moved {a : Act L} {att₀ : Attempt} : a.attempt? = some n → s.attempts n = some att₀ →
      att.occurrenceId = att₀.occurrenceId → att.generation = att₀.generation →
      (att.phase.live = true → att₀.phase.live = true ∧ a ≠ .succeed n) →
      AttemptChange s n att a
  | proceeded {appNow : ℤ} {att₀ : Attempt} : s.attempts n = some att₀ →
      att.occurrenceId = att₀.occurrenceId → att.generation = att₀.generation →
      (∃ o, s.occurrences att.occurrenceId = some o ∧ o.generation = att.generation) →
      AttemptChange s n att (.prepare n appNow)

theorem sweepRow_attempts (modules : HeartbeatRuleKindRegistry L) (s : Sys L) (id : ℕ) :
    (sweepRow modules s id).attempts = s.attempts ∧
      (sweepRow modules s id).attemptSeq = s.attemptSeq := by
  rcases sweepRow_cases modules s id with ⟨h, hs | hs⟩ | ⟨h, due, rule, o, -, hs⟩ <;>
    rw [hs] <;> exact ⟨rfl, rfl⟩

theorem sweepDueHeartbeats_attempts (modules : HeartbeatRuleKindRegistry L) (ids : List ℕ) :
    ∀ s : Sys L, (sweepDueHeartbeats modules s ids).attempts = s.attempts ∧
      (sweepDueHeartbeats modules s ids).attemptSeq = s.attemptSeq := by
  induction ids with
  | nil => exact fun _ => ⟨rfl, rfl⟩
  | cons id ids ih =>
    intro s
    obtain ⟨ha, hseq⟩ := ih (sweepRow modules s id)
    obtain ⟨ha', hseq'⟩ := sweepRow_attempts modules s id
    exact ⟨ha.trans ha', hseq.trans hseq'⟩

theorem AttemptChange.of_setPhase {n m : ℕ} {att att' : Attempt} {s₁ : Sys L} {phase : Phase}
    (hatt : s.attempts m = some att) (hs₁ : s₁.attempts = s.attempts) (ha : a.attempt? = some m)
    (h : (s₁.setPhase m att phase).attempts n = some att')
    (hlive : phase.live = true → att.phase.live = true ∧ a ≠ .succeed m) :
    AttemptChange s n att' a := by
  by_cases hnm : n = m
  · subst hnm
    simp only [Sys.setPhase, Sys.setAttempt, Function.update_self, Option.some.injEq] at h
    subst h
    exact .moved ha hatt rfl rfl hlive
  · simp only [Sys.setPhase, Sys.setAttempt, Function.update_of_ne hnm, hs₁] at h
    exact .unchanged h

theorem step_attempt {n : ℕ} {att' : Attempt} (h : step modules s a = some s')
    (hn : s'.attempts n = some att') : AttemptChange s n att' a := by
  by_cases ha : a.edits = true
  · exact .unchanged ((step_edits ha h).2.2.1 ▸ hn)
  cases a with
  | createHeartbeat | readHeartbeat | updateHeartbeatRule | enableHeartbeat | disableHeartbeat
  | changeTimezone | setModules | setTenant | tick => exact absurd rfl ha
  | sweep ids =>
    simp only [step] at h
    split_ifs at h
    cases h
    rw [(sweepDueHeartbeats_attempts modules ids s).1] at hn
    exact .unchanged hn
  | dispatch j =>
    simp only [step] at h
    split at h
    · rename_i job hjob
      split_ifs at h with _ hskip
      all_goals
        cases h
        by_cases hnm : n = s.attemptSeq
        · subst hnm
          simp only [Function.update_self, Option.some.injEq] at hn
          subst hn
          exact .dispatched hjob rfl rfl rfl (by simp [Phase.live])
        · simp only [Function.update_of_ne hnm] at hn
          exact .unchanged hn
    · cases h
  | prepare m appNow =>
    simp only [step] at h
    split at h
    · rename_i att hatt
      split_ifs at h
      obtain ⟨⟨s₁, proceed⟩, hprep, rfl⟩ := Option.map_eq_some_iff.mp h
      obtain ⟨-, hats, -, -, hself⟩ := prepare_cases hprep
      cases proceed with
      | false => exact .of_setPhase hatt hats rfl hn fun h => (Bool.false_ne_true h).elim
      | true =>
        by_cases hnm : n = m
        · subst hnm
          simp only [Sys.setPhase, Sys.setAttempt, Function.update_self, Option.some.injEq,
            if_true] at hn
          subst hn
          refine .proceeded hatt rfl rfl ?_
          rcases hself with ⟨-, ho⟩ | ⟨o, -, ho, hgen, -⟩
          · exact ho rfl
          · exact ⟨o, ho, hgen⟩
        · simp only [Sys.setPhase, Sys.setAttempt] at hn
          rw [Function.update_of_ne hnm, hats] at hn
          exact .unchanged hn
    · cases h
  | lookup m | handlerReturns m | handlerThrows m message | succeedThrows m message =>
    simp only [step] at h
    split at h
    · rename_i att hatt
      split_ifs at h with hph
      cases h
      exact .of_setPhase hatt rfl rfl hn fun _ => ⟨by rw [hph]; rfl, nofun⟩
    · cases h
  | closeOut m =>
    simp only [step] at h
    split at h
    · rename_i att hatt
      split at h
      · split_ifs at h <;> cases h <;> exact .of_setPhase hatt rfl rfl hn fun h => (Bool.false_ne_true h).elim
      · split_ifs at h
        · cases h
          refine .of_setPhase hatt ?_ rfl hn fun h => (Bool.false_ne_true h).elim
          unfold recordHeartbeatFireSetupFailure
          split <;> rfl
        · cases h
          exact .of_setPhase hatt rfl rfl hn fun h => (Bool.false_ne_true h).elim
      · cases h
    · cases h
  | release m =>
    have hdrop : (s.dropAttempt m).attempts n = some att' → AttemptChange s n att' (.release m) :=
      fun hn => .unchanged (of_update_none hn).2
    simp only [step] at h
    split at h
    · split_ifs at h <;> cases h <;> exact hdrop hn
    · cases h
  | crash m =>
    obtain ⟨_, _, rfl⟩ := Option.map_eq_some_iff.mp h
    exact .unchanged (of_update_none hn).2
  | unlock j =>
    obtain ⟨_, _, rfl⟩ := Option.map_eq_some_iff.mp h
    exact .unchanged hn
  | _ =>
    simp only [step] at h
    split at h
    · rename_i att hatt
      split_ifs at h
      cases h
      exact .of_setPhase hatt rfl rfl hn fun h => (Bool.false_ne_true h).elim
    · cases h

theorem OccurrenceChange.generation_le {id : OccurrenceId} {o o' : OccurrenceRow}
    (h : OccurrenceChange s id o o' a) : o.generation ≤ o'.generation := by
  cases h with
  | unchanged h => exact le_of_eq (by rw [h])
  | swept h =>
    rcases h with rfl | ⟨-, -, hg⟩
    · exact le_rfl
    · exact hg.le
  | prepared _ _ _ h _ => exact le_of_eq h.symm
  | succeeded _ _ _ h _ => exact le_of_eq h.symm
  | failed _ _ _ _ h _ => exact le_of_eq h.symm
  | closedOut h =>
    rw [h]
    unfold OccurrenceRow.closeOut
    split_ifs <;> exact le_rfl

def JobsBounded (s : Sys L) : Prop :=
  ∀ j job, s.jobs j = some job →
    ∃ o, s.occurrences job.occurrenceId = some o ∧ job.generation ≤ o.generation

theorem JobsBounded.sweepRow {id : ℕ} (hb : JobsBounded s) :
    JobsBounded (Scheduler.sweepRow modules s id) := by
  intro j job hj
  have hold : s.jobs j = some job → ∃ o, (Scheduler.sweepRow modules s id).occurrences
      job.occurrenceId = some o ∧ job.generation ≤ o.generation := by
    intro hj
    obtain ⟨o, ho, hle⟩ := hb j job hj
    obtain ⟨o', ho', hsw⟩ : ∃ o', (Scheduler.sweepRow modules s id).occurrences job.occurrenceId =
        some o' ∧ Swept o o' := sweepRow_occurrence ho
    have hchange : OccurrenceChange s job.occurrenceId o o' (.sweep []) := .swept hsw
    exact ⟨o', ho', hle.trans hchange.generation_le⟩
  rcases sweepRow_cases modules s id with ⟨h, hs | hs⟩ | ⟨h, due, rule, o, -, hs⟩
  · exact hold (by rw [hs] at hj; exact hj)
  · exact hold (by rw [hs] at hj; exact hj)
  · rw [hs] at hj
    by_cases hjs : j = s.jobSeq
    · subst hjs
      have hjob := (Function.update_self _ _ _).symm.trans hj
      cases hjob
      rw [hs]
      exact ⟨o, Function.update_self _ _ _, le_rfl⟩
    · exact hold ((Function.update_of_ne hjs _ _).symm.trans hj)

theorem JobsBounded.sweep {ids : List ℕ} :
    ∀ {s : Sys L}, JobsBounded s → JobsBounded (sweepDueHeartbeats modules s ids) := by
  induction ids with
  | nil => exact fun hb => hb
  | cons id ids ih => exact fun hb => ih hb.sweepRow

theorem step_job {j : ℕ} {job' : JobRow} (hsweep : ∀ ids, a ≠ .sweep ids)
    (h : step modules s a = some s') (hj : s'.jobs j = some job') :
    ∃ job, s.jobs j = some job ∧ job.occurrenceId = job'.occurrenceId ∧
      job.generation = job'.generation := by
  have hsame : s'.jobs = s.jobs → ∃ job, s.jobs j = some job ∧
      job.occurrenceId = job'.occurrenceId ∧ job.generation = job'.generation := fun heq =>
    ⟨job', heq ▸ hj, rfl, rfl⟩
  have hupdate : ∀ k job'', s'.jobs = Function.update s.jobs k job'' →
      (∀ row, job'' = some row → ∃ job, s.jobs k = some job ∧
        job.occurrenceId = row.occurrenceId ∧ job.generation = row.generation) →
      ∃ job, s.jobs j = some job ∧ job.occurrenceId = job'.occurrenceId ∧
        job.generation = job'.generation := by
    intro k job'' heq hrow
    rw [heq] at hj
    by_cases hjk : j = k
    · subst hjk
      rw [Function.update_self] at hj
      exact hrow _ hj
    · rw [Function.update_of_ne hjk] at hj
      exact ⟨job', hj, rfl, rfl⟩
  by_cases ha : a.edits = true
  · exact hsame (step_edits ha h).2.1
  cases a with
  | createHeartbeat | readHeartbeat | updateHeartbeatRule | enableHeartbeat | disableHeartbeat
  | changeTimezone | setModules | setTenant | tick => exact absurd rfl ha
  | sweep ids => exact absurd rfl (hsweep ids)
  | dispatch k =>
    simp only [step] at h
    split at h
    · rename_i job hjob
      split_ifs at h
      all_goals
        cases h
        refine hupdate k _ rfl fun row hrow => ⟨job, hjob, ?_⟩
        cases hrow
        exact ⟨rfl, rfl⟩
    · cases h
  | prepare m appNow =>
    simp only [step] at h
    split at h
    · split_ifs at h
      obtain ⟨⟨s₁, proceed⟩, hprep, rfl⟩ := Option.map_eq_some_iff.mp h
      exact hsame (prepare_cases hprep).1
    · cases h
  | closeOut m =>
    simp only [step] at h
    split at h
    · split at h
      · split_ifs at h <;> cases h <;> exact hsame rfl
      · split_ifs at h
        · cases h
          refine hsame ?_
          unfold recordHeartbeatFireSetupFailure
          split <;> rfl
        · cases h
          exact hsame rfl
      · cases h
    · cases h
  | release m =>
    simp only [step] at h
    split at h
    · rename_i att _
      split_ifs at h
      · cases h
        exact hupdate att.jobId none rfl nofun
      · cases h
        refine hupdate att.jobId _ rfl fun row hrow => ?_
        obtain ⟨job, hjob, rfl⟩ := Option.map_eq_some_iff.mp hrow
        exact ⟨job, hjob, rfl, rfl⟩
    · cases h
  | crash m =>
    obtain ⟨_, _, rfl⟩ := Option.map_eq_some_iff.mp h
    exact hsame rfl
  | unlock k =>
    obtain ⟨job, hjob, rfl⟩ := Option.map_eq_some_iff.mp h
    refine hupdate k _ rfl fun row hrow => ⟨job, hjob, ?_⟩
    cases hrow
    exact ⟨rfl, rfl⟩
  | _ =>
    simp only [step] at h
    split at h
    · split_ifs at h
      cases h
      exact hsame rfl
    · cases h

/-- Attempts and jobs are behind or at their occurrence's generation, an occurrence has at most one
live attempt of a generation, and has not succeeded while one of its current generation is live. -/
structure FireInv (s : Sys L) : Prop where
  jobs : JobsBounded s
  attempts : ∀ n att, s.attempts n = some att → n < s.attemptSeq ∧
    ∃ o, s.occurrences att.occurrenceId = some o ∧ att.generation ≤ o.generation
  alone : ∀ n m att att', s.attempts n = some att → s.attempts m = some att' →
    att.phase.live = true → att'.phase.live = true → att'.occurrenceId = att.occurrenceId →
    att'.generation = att.generation → n = m
  unfinished : ∀ n att o, s.attempts n = some att → att.phase.live = true →
    s.occurrences att.occurrenceId = some o → o.generation = att.generation →
    o.status ≠ .succeeded

theorem fireInv_init {databases : List ℕ} {timezone : L.Timezone} {dbNow : ℤ} :
    FireInv (Sys.init databases timezone dbNow) where
  jobs := fun _ _ h => by cases h
  attempts := fun _ _ h => by cases h
  alone := fun _ _ _ _ h => by cases h
  unfinished := fun _ _ _ h => by cases h

theorem attemptSeq_mono (h : step modules s a = some s') : s.attemptSeq ≤ s'.attemptSeq := by
  have hsame : s'.attemptSeq = s.attemptSeq → s.attemptSeq ≤ s'.attemptSeq := fun h => h.ge
  by_cases ha : a.edits = true
  · exact hsame (step_edits ha h).2.2.2
  cases a with
  | createHeartbeat | readHeartbeat | updateHeartbeatRule | enableHeartbeat | disableHeartbeat
  | changeTimezone | setModules | setTenant | tick => exact absurd rfl ha
  | sweep ids =>
    simp only [step] at h
    split_ifs at h
    cases h
    exact hsame (sweepDueHeartbeats_attempts modules ids s).2
  | dispatch j =>
    simp only [step] at h
    split at h
    · split_ifs at h <;> cases h <;> exact Nat.le_succ _
    · cases h
  | prepare n appNow =>
    simp only [step] at h
    split at h
    · split_ifs at h
      obtain ⟨⟨s₁, proceed⟩, hprep, rfl⟩ := Option.map_eq_some_iff.mp h
      exact hsame (prepare_cases hprep).2.2.1
    · cases h
  | closeOut n =>
    simp only [step] at h
    split at h
    · split at h
      · split_ifs at h <;> cases h <;> exact hsame rfl
      · split_ifs at h
        · cases h
          refine hsame ?_
          unfold recordHeartbeatFireSetupFailure
          split <;> rfl
        · cases h
          exact hsame rfl
      · cases h
    · cases h
  | release n =>
    simp only [step] at h
    split at h
    · split_ifs at h <;> cases h <;> exact hsame rfl
    · cases h
  | crash n =>
    obtain ⟨_, _, rfl⟩ := Option.map_eq_some_iff.mp h
    exact hsame rfl
  | unlock j =>
    obtain ⟨_, _, rfl⟩ := Option.map_eq_some_iff.mp h
    exact hsame rfl
  | _ =>
    simp only [step] at h
    split at h
    · split_ifs at h
      cases h
      exact hsame rfl
    · cases h

theorem dispatch_attemptSeq {j : ℕ} (h : step modules s (.dispatch j) = some s') :
    s'.attemptSeq = s.attemptSeq + 1 := by
  simp only [step] at h
  split at h
  · split_ifs at h <;> cases h <;> rfl
  · cases h

section invariant

variable (hi : FireInv s) (hok : FiresInOrder s a) (h : step modules s a = some s')

include hi h

theorem FireInv.jobs_step : JobsBounded s' := by
  by_cases ha : ∃ ids, a = .sweep ids
  · obtain ⟨ids, rfl⟩ := ha
    simp only [step] at h
    split_ifs at h
    cases h
    exact hi.jobs.sweep
  · intro j job' hj
    obtain ⟨job, hjob, hid, hgen⟩ := step_job (fun ids heq => ha ⟨ids, heq⟩) h hj
    obtain ⟨o, ho, hle⟩ := hi.jobs j job hjob
    obtain ⟨o', ho', hc⟩ := step_occurrence ho h
    exact ⟨o', hid ▸ ho', hgen ▸ hle.trans hc.generation_le⟩

theorem FireInv.attempts_step {n : ℕ} {att' : Attempt} (hn : s'.attempts n = some att') :
    n < s'.attemptSeq ∧
      ∃ o', s'.occurrences att'.occurrenceId = some o' ∧ att'.generation ≤ o'.generation := by
  have hold : ∀ att, s.attempts n = some att → att'.occurrenceId = att.occurrenceId →
      att'.generation = att.generation → n < s'.attemptSeq ∧
      ∃ o', s'.occurrences att'.occurrenceId = some o' ∧ att'.generation ≤ o'.generation := by
    intro att hatt hid hgen
    obtain ⟨hlt, o, ho, hle⟩ := hi.attempts n att hatt
    obtain ⟨o', ho', hc⟩ := step_occurrence ho h
    exact ⟨hlt.trans_le (attemptSeq_mono h), o', hid ▸ ho', hgen ▸ hle.trans hc.generation_le⟩
  cases step_attempt h hn with
  | unchanged hatt => exact hold att' hatt rfl rfl
  | dispatched hjob hseq hid hgen _ =>
    obtain ⟨o, ho, hle⟩ := hi.jobs _ _ hjob
    obtain ⟨o', ho', hc⟩ := step_occurrence ho h
    have hs := dispatch_attemptSeq h
    exact ⟨by omega, o', hid ▸ ho', hgen ▸ hle.trans hc.generation_le⟩
  | moved _ hatt hid hgen _ => exact hold _ hatt hid hgen
  | proceeded hatt hid hgen _ => exact hold _ hatt hid hgen

include hok

theorem FireInv.live_step {n : ℕ} {att' : Attempt} (hn : s'.attempts n = some att')
    (hl : att'.phase.live = true) :
    (∃ att, s.attempts n = some att ∧ att.phase.live = true ∧
      att'.occurrenceId = att.occurrenceId ∧ att'.generation = att.generation ∧
      a ≠ .succeed n) ∨
    ∃ appNow o, a = .prepare n appNow ∧ s.occurrences att'.occurrenceId = some o ∧
      o.generation = att'.generation ∧ o.status ≠ .succeeded ∧
      ∀ m att₀, s.attempts m = some att₀ → att₀.phase.live = true →
        ¬ (att₀.occurrenceId = att'.occurrenceId ∧ att₀.generation = att'.generation) := by
  cases step_attempt h hn with
  | unchanged hatt =>
    refine .inl ⟨att', hatt, hl, rfl, rfl, ?_⟩
    rintro rfl
    simp only [step, hatt] at h
    split_ifs at h with hph
    cases h
    simp only [Sys.setPhase, Sys.setAttempt, Function.update_self, Option.some.injEq] at hn
    rw [← hn] at hl
    cases hl
  | dispatched _ _ _ _ hph =>
    rw [hph] at hl
    cases hl
  | moved _ hatt hid hgen hlive =>
    obtain ⟨hl₀, hne⟩ := hlive hl
    exact .inl ⟨_, hatt, hl₀, hid, hgen, hne⟩
  | @proceeded appNow att₀ hatt hid hgen ho =>
    obtain ⟨o, ho, hog⟩ := ho
    obtain ⟨hst, halone⟩ := hok att₀ hatt o (hid ▸ ho) (hgen ▸ hog)
    refine .inr ⟨appNow, o, rfl, ho, hog, hst, fun m att₁ hm hl₁ => ?_⟩
    rw [hid, hgen]
    exact halone m (hi.attempts m att₁ hm).1 att₁ hm hl₁

theorem FireInv.unfinished_step {n : ℕ} {att' : Attempt} {o' : OccurrenceRow}
    (hn : s'.attempts n = some att') (hl : att'.phase.live = true)
    (ho' : s'.occurrences att'.occurrenceId = some o') (hg : o'.generation = att'.generation) :
    o'.status ≠ .succeeded := by
  rcases hi.live_step hok h hn hl with ⟨att, hatt, hl₀, hid, hgen, hne⟩ |
    ⟨appNow, o, rfl, ho, hog, hst, -⟩
  · obtain ⟨-, o, ho, hle⟩ := hi.attempts n att hatt
    obtain ⟨o₁, ho₁, hc⟩ := step_occurrence ho h
    rw [← hid, ho'] at ho₁
    cases ho₁
    have hcg := hc.generation_le
    have hog : o.generation = att.generation := by omega
    have hst := hi.unfinished n att o hatt hl₀ ho hog
    cases hc with
    | unchanged heq => rwa [heq]
    | swept hsw =>
      rcases hsw with rfl | ⟨-, hq, -⟩
      · exact hst
      · rw [hq]
        nofun
    | prepared _ _ _ _ hst' => exact hst'
    | @succeeded m attm hm hph hidm _ _ =>
      have hcur : o.generation = attm.generation := hok attm hm o (hidm ▸ ho)
      have hnm := hi.alone n m att attm hatt hm hl₀ (by rw [hph]; rfl) hidm
        (hcur.symm.trans hog)
      exact absurd (hnm ▸ rfl) hne
    | failed _ _ _ _ _ hf =>
      rw [hf]
      nofun
    | closedOut hcl =>
      rw [hcl]
      unfold OccurrenceRow.closeOut
      split_ifs
      · nofun
      · exact hst
  · obtain ⟨o₁, ho₁, hc⟩ := step_occurrence ho h
    rw [ho'] at ho₁
    cases ho₁
    cases hc with
    | unchanged heq => rwa [heq]
    | prepared _ _ _ _ hst' => exact hst'

theorem FireInv.preserved : FireInv s' where
  jobs := hi.jobs_step h
  attempts := fun _ _ hn => hi.attempts_step h hn
  alone := fun n m att att' hn hm hl hl' hid hgen => by
    rcases hi.live_step hok h hn hl with ⟨att₀, hatt₀, hl₀, hid₀, hgen₀, -⟩ |
      ⟨appNow, o, ha, -, -, -, halone⟩
    · rcases hi.live_step hok h hm hl' with ⟨att₁, hatt₁, hl₁, hid₁, hgen₁, -⟩ |
        ⟨appNow, o, -, -, -, -, halone⟩
      · exact hi.alone n m att₀ att₁ hatt₀ hatt₁ hl₀ hl₁
          (hid₁.symm.trans (hid.trans hid₀)) (hgen₁.symm.trans (hgen.trans hgen₀))
      · exact absurd ⟨hid₀.symm.trans hid.symm, hgen₀.symm.trans hgen.symm⟩
          (halone n att₀ hatt₀ hl₀)
    · rcases hi.live_step hok h hm hl' with ⟨att₁, hatt₁, hl₁, hid₁, hgen₁, -⟩ |
        ⟨appNow', o', ha', -, -, -, -⟩
      · exact absurd ⟨hid₁.symm.trans hid, hgen₁.symm.trans hgen⟩ (halone m att₁ hatt₁ hl₁)
      · rw [ha] at ha'
        cases ha'
        rfl
  unfinished := fun _ _ _ hn hl ho hg => hi.unfinished_step hok h hn hl ho hg

end invariant

theorem FireInv.stays (hi : FireInv s) (hok : FiresInOrder s a) (h : step modules s a = some s')
    {id : OccurrenceId} {o : OccurrenceRow} (ho : s.occurrences id = some o)
    (hst : o.status = .succeeded) :
    ∃ o', s'.occurrences id = some o' ∧ o'.status = .succeeded := by
  obtain ⟨o', ho', hc⟩ := step_occurrence ho h
  refine ⟨o', ho', ?_⟩
  cases hc with
  | unchanged heq => rw [heq]; exact hst
  | swept hsw =>
    rcases hsw with rfl | ⟨hs, -, -⟩
    · exact hst
    · rw [hst] at hs
      rcases hs with hs | hs <;> cases hs
  | prepared hatt hid hgen _ _ => exact absurd hst (hok _ hatt o (hid ▸ ho) hgen).1
  | succeeded _ _ _ _ hs => exact hs
  | failed hatt hph hfin hid _ _ =>
    have hcur := hok _ hatt hfin _ hatt o (hid ▸ ho)
    exact absurd hst (hi.unfinished _ _ o hatt (by rw [hph]; rfl) (hid ▸ ho) hcur)
  | closedOut hcl =>
    rw [hcl]
    unfold OccurrenceRow.closeOut
    rw [if_neg (by rw [hst]; simp)]
    exact hst

theorem stale_step {n : ℕ} {att : Attempt} {o : OccurrenceRow} (hok : FiresInOrder s a)
    (h : step modules s a = some s') (ha : a.attempt? = some n) (hatt : s.attempts n = some att)
    (ho : s.occurrences att.occurrenceId = some o) (hg : o.generation ≠ att.generation) :
    s'.occurrences = s.occurrences ∧ s'.heartbeats = s.heartbeats := by
  have hcur : ¬ Current s n := fun hc => hg (hc att hatt o ho)
  cases a with
  | prepare m appNow =>
    cases ha
    simp only [step, hatt] at h
    split_ifs at h
    obtain ⟨⟨s₁, proceed⟩, hprep, rfl⟩ := Option.map_eq_some_iff.mp h
    unfold prepareHeartbeatOccurrenceFire at hprep
    rw [ho] at hprep
    split at hprep
    · rename_i hb o₁ hhb ho₁
      cases ho₁
      rw [if_pos hg] at hprep
      cases hprep
      exact ⟨rfl, rfl⟩
    · cases hprep
      exact ⟨rfl, rfl⟩
  | lookup m => cases ha; exact absurd hok hcur
  | succeed m => cases ha; exact absurd hok hcur
  | closeOut m =>
    cases ha
    have hfin : ¬ att.isFinalAttempt = true := fun hf => hcur (hok att hatt hf)
    simp only [step, hatt] at h
    split at h
    · rw [if_neg hfin] at h
      cases h
      exact ⟨rfl, rfl⟩
    · rw [if_neg hfin] at h
      cases h
      exact ⟨rfl, rfl⟩
    · cases h
  | release m =>
    cases ha
    simp only [step, hatt] at h
    split_ifs at h <;> cases h <;> exact ⟨rfl, rfl⟩
  | crash m =>
    cases ha
    simp only [step, hatt, Option.map_some, Option.some.injEq] at h
    subst h
    exact ⟨rfl, rfl⟩
  | prepareThrows m message | lookupThrows m message | handlerReturns m | handlerThrows m message
  | succeedThrows m message | closeOutThrows m =>
    cases ha
    simp only [step, hatt] at h
    split_ifs at h
    cases h
    exact ⟨rfl, rfl⟩
  | _ => cases ha

theorem FireInv.lookup_unfinished {n : ℕ} {att : Attempt} {o : OccurrenceRow} (hi : FireInv s)
    (hok : FiresInOrder s (.lookup n)) (h : step modules s (.lookup n) = some s')
    (hatt : s.attempts n = some att) (ho : s.occurrences att.occurrenceId = some o) :
    o.status ≠ .succeeded := by
  have hcur : o.generation = att.generation := hok att hatt o ho
  simp only [step, hatt] at h
  split_ifs at h with hph
  exact hi.unfinished n att o hatt (by rw [hph]; rfl) ho hcur

/-- In every state a run reaches: an occurrence that has succeeded stays so on every way on, no
handler is called for it again, and a step of an attempt of another generation than its
occurrence's changes no occurrence and no instant. -/
def SucceedsOnce (modules : HeartbeatRuleKindRegistry L) (ok : Sys L → Act L → Prop)
    (s₀ : Sys L) : Prop :=
  ∀ s, Reach (step modules) ok s₀ s →
    (∀ s', Reach (step modules) ok s s' → ∀ id, ∀ o ∈ s.occurrences id, o.status = .succeeded →
      ∃ o' ∈ s'.occurrences id, o'.status = .succeeded) ∧
    ∀ a s', ok s a → step modules s a = some s' → ∀ n, ∀ att ∈ s.attempts n,
      ∀ o ∈ s.occurrences att.occurrenceId,
      (a = .lookup n → o.status ≠ .succeeded) ∧
      (a.attempt? = some n → o.generation ≠ att.generation →
        s'.occurrences = s.occurrences ∧
        ∀ id, (s'.heartbeats id).map (·.nextFireAt) = (s.heartbeats id).map (·.nextFireAt))

theorem succeedsOnce (modules : HeartbeatRuleKindRegistry L) (databases : List ℕ)
    (timezone : L.Timezone) (dbNow : ℤ) :
    SucceedsOnce modules FiresInOrder (Sys.init databases timezone dbNow) := by
  intro s hs
  have hinv : FireInv s := hs.invariant fireInv_init fun _ _ _ hi hok h => hi.preserved hok h
  refine ⟨fun s' hs' id o ho hst => ?_, fun a s' hok h n att hatt o ho => ⟨?_, ?_⟩⟩
  · have hstay : FireInv s' ∧ ∃ o' ∈ s'.occurrences id, o'.status = .succeeded := by
      refine hs'.invariant (I := fun s' => FireInv s' ∧
        ∃ o' ∈ s'.occurrences id, o'.status = .succeeded) ⟨hinv, o, ho, hst⟩ ?_
      rintro s₁ a s₂ ⟨hi, o₁, ho₁, hst₁⟩ hok h
      exact ⟨hi.preserved hok h, hi.stays hok h ho₁ hst₁⟩
    exact hstay.2
  · rintro rfl
    exact hinv.lookup_unfinished hok h hatt ho
  · intro ha hg
    obtain ⟨hocc, hhb⟩ := stale_step hok h ha hatt ho hg
    exact ⟨hocc, fun id => by rw [hhb]⟩

def succeededFire : List (Act Luxon.utc) :=
  [.createHeartbeat (.interval 1) "act" true 0, .tick 60000, .sweep [0], .dispatch 0,
    .prepare 0 60000, .lookup 0, .handlerReturns 0, .succeed 0]

instance (s : Sys L) (n : ℕ) : Decidable (Current s n) := by
  unfold Current
  infer_instance

set_option synthInstance.maxSize 256 in
instance (s : Sys L) (a : Act L) : Decidable (FiresInOrder s a) := by
  cases a <;> unfold FiresInOrder <;> infer_instance

/-- The queue has its job back, and the next minute fires. -/
def nextFire : List (Act Luxon.utc) :=
  [.release 0, .tick 120000, .sweep [0], .dispatch 1, .prepare 1 120000, .lookup 1,
    .handlerReturns 1, .succeed 1]

theorem succeedsOnce_nextFire : ∃ s s',
    runActs (step fun _ => none) (Sys.init [] () 0) succeededFire = some s ∧
      runActs (step fun _ => none) s nextFire = some s' ∧
      (s'.occurrences ⟨0, 120000⟩).map (·.status) = some .succeeded ∧
      ∃ o ∈ s'.occurrences ⟨0, 60000⟩, o.status = .succeeded := by
  obtain ⟨s, hs, hst⟩ := Option.map_eq_some_iff.mp
    (by decide +kernel : (runChecked (step fun _ => none) (fun s a => decide (FiresInOrder s a))
      (Sys.init [] () 0) succeededFire).map
        (fun s => (s.occurrences ⟨0, 60000⟩).map (·.status)) = some (some .succeeded))
  have hboth : ((runActs (step fun _ => none) (Sys.init [] () 0) succeededFire).bind fun s =>
      runChecked (step fun _ => none) (fun s a => decide (FiresInOrder s a)) s nextFire).map
        (fun s => (s.occurrences ⟨0, 120000⟩).map (·.status)) = some (some .succeeded) := by
    decide +kernel
  have hrun := runActs_of_runChecked hs
  rw [hrun, Option.bind_some] at hboth
  obtain ⟨s', hs', hst'⟩ := Option.map_eq_some_iff.mp hboth
  obtain ⟨o, ho, hsucceeded⟩ := Option.map_eq_some_iff.mp hst
  exact ⟨s, s', hrun, runActs_of_runChecked hs', hst',
    (succeedsOnce _ [] () 0 s (.of_runChecked (fun _ _ h => of_decide_eq_true h) hs)).1 s'
      (.of_runChecked (fun _ _ h => of_decide_eq_true h) hs') ⟨0, 60000⟩ o ho hsucceeded⟩

/-- The worker dies before the queue has its job back, the heartbeat is disabled, and the job is
delivered again. -/
def redelivered : List (Act Luxon.utc) :=
  [.crash 0, .unlock 0, .disableHeartbeat 0, .dispatch 0, .prepare 1 120000]

theorem succeededFire_status : (runActs (step fun _ => none) (Sys.init [] () 0) succeededFire).map
    (fun s => (s.occurrences ⟨0, 60000⟩).map (·.status)) = some (some .succeeded) := by
  decide +kernel

theorem redelivered_status : (runActs (step fun _ => none) (Sys.init [] () 0)
    (succeededFire ++ redelivered)).map
      (fun s => (s.occurrences ⟨0, 60000⟩).map (·.status)) = some (some .cancelled) := by
  decide +kernel

theorem redelivery_cancels_succeeded : ¬ SucceedsOnce (fun _ => none) (fun _ _ => True)
    (Sys.init (L := Luxon.utc) [] () 0) := by
  intro hclaim
  obtain ⟨s, hs, hbefore⟩ := Option.map_eq_some_iff.mp succeededFire_status
  have hafter := redelivered_status
  rw [runActs_append, hs, Option.bind_some] at hafter
  obtain ⟨s', hs', hafter⟩ := Option.map_eq_some_iff.mp hafter
  obtain ⟨o, ho, hst⟩ := Option.map_eq_some_iff.mp hbefore
  obtain ⟨o', ho', hst'⟩ :=
    (hclaim s (.of_runActs hs)).1 s' (.of_runActs hs') ⟨0, 60000⟩ o ho hst
  rw [ho', Option.map_some, hst'] at hafter
  cases hafter

end Scheduler

end Semprec
