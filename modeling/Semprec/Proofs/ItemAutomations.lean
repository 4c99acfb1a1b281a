import Semprec.ItemAutomations

/-!
# No row is stranded but by an unlock

A row in `pending` has a job that will be retried: one that is queued, or an attempt that has the
key.  An attempt that has lost the key has lost it to a job that is queued, and where the lane keeps
that job waiting it is still there when the attempt ends.
-/

namespace Semprec

namespace ItemAutomations

open Transcription (ItemAutomation ItemAutomationStatus)

variable {c c' : Cell} {a : ℕ} {attempt : Attempt}

/-! ## One item -/

def Cell.Responsible (c : Cell) : Prop := c.job ≠ none ∨ ∃ attempt ∈ c.running, attempt.keyed = true

def Phase.Of : Phase → Pipeline → Prop
  | read, p => p = .libraryMetadata
  | fetch, p => p = .libraryMetadata
  | write _, p => p = .libraryMetadata
  | gone, p => p = .libraryMetadata
  | create, p => p = .transcription
  | opening, p => p = .transcription
  | steps, p => p = .transcription
  | failed _ _, _ => True

structure Ok (c : Cell) : Prop where
  pending : ∀ row ∈ c.automation, row.status = .pending → c.unlocked = false → c.Responsible
  bound : ∀ used ∈ c.job, used < MAX_ATTEMPTS
  lane : c.pipeline = .transcription → c.running.length ≤ 1
  detached : c.pipeline = .transcription → ∀ attempt ∈ c.running, attempt.keyed = false →
    c.job ≠ none
  kind : ∀ attempt ∈ c.running, attempt.phase.Of c.pipeline

/-- Under way on the lane, an attempt is retried or a job waits for it to end. -/
theorem Ok.responsible (h : Ok c) (hp : c.pipeline = .transcription)
    (ha : c.running[a]? = some attempt) : c.Responsible := by
  have hmem := List.mem_of_getElem? ha
  rcases hkeyed : attempt.keyed
  · exact .inl (h.detached hp attempt hmem hkeyed)
  · exact .inr ⟨attempt, hmem, hkeyed⟩

theorem Ok.enqueueJob (h : Ok c) : Ok c.enqueueJob where
  pending _ _ _ _ := .inl nofun
  bound used hused := by
    obtain rfl := Option.some.inj hused
    decide
  lane hp := by
    rw [Cell.enqueueJob, List.length_map]
    exact h.lane hp
  detached _ _ _ _ := nofun
  kind attempt hattempt := by
    obtain ⟨old, hold, rfl⟩ := List.mem_map.mp hattempt
    exact h.kind old hold

theorem Ok.setRow (h : Ok c) (automation : Option ItemAutomation) (fields : Patch)
    (hrow : ∀ row ∈ automation, row.status = .pending → c.unlocked = false → c.Responsible) :
    Ok { c with automation, fields } where
  pending := hrow
  bound := h.bound
  lane := h.lane
  detached := h.detached
  kind := h.kind

theorem Ok.ensureItemAutomation (h : Ok c) (hresponsible : c.Responsible) :
    Ok c.ensureItemAutomation :=
  h.setRow _ _ fun _ _ _ _ => hresponsible

theorem mem_updateItemAutomation {f : ItemAutomation → ItemAutomation} {row' : ItemAutomation}
    (h : row' ∈ (c.updateItemAutomation f).automation) :
    ∃ row ∈ c.automation, row.status = .locked ∧ row' = row ∨ row.status ≠ .locked ∧ row' = f row := by
  obtain ⟨row, hrow, heq⟩ := Option.map_eq_some_iff.mp h
  refine ⟨row, hrow, ?_⟩
  split_ifs at heq with hlocked
  · exact .inl ⟨hlocked, heq.symm⟩
  · exact .inr ⟨hlocked, heq.symm⟩

theorem updateItemAutomation_settled {f : ItemAutomation → ItemAutomation}
    (hf : ∀ row, (f row).status ≠ .pending) :
    ∀ row ∈ (c.updateItemAutomation f).automation, row.status ≠ .pending := by
  intro row' hrow' hpending
  obtain ⟨row, -, ⟨hlocked, rfl⟩ | ⟨-, rfl⟩⟩ := mem_updateItemAutomation hrow'
  · simp [hlocked] at hpending
  · exact hf row hpending

theorem Ok.update_settled (h : Ok c) {f : ItemAutomation → ItemAutomation} (fields : Patch)
    (hf : ∀ row, (f row).status ≠ .pending) :
    Ok { c.updateItemAutomation f with fields } :=
  h.setRow _ _ fun row hrow hpending => absurd hpending (updateItemAutomation_settled hf row hrow)

theorem Ok.update_pending (h : Ok c) {f : ItemAutomation → ItemAutomation}
    (hresponsible : c.Responsible) : Ok (c.updateItemAutomation f) :=
  h.setRow _ _ fun _ _ _ _ => hresponsible

theorem Ok.setPhase (h : Ok c) (ha : c.running[a]? = some attempt) {phase : Phase}
    (hphase : phase.Of c.pipeline) : Ok (c.setPhase a attempt phase) := by
  have hlt : a < c.running.length := (List.getElem?_eq_some_iff.mp ha).1
  refine ⟨fun row hrow hpending hunlocked => ?_, h.bound, fun hp => ?_, fun hp attempt' hmem hkeyed => ?_,
    fun attempt' hmem => ?_⟩
  · rcases h.pending row hrow hpending hunlocked with hjob | ⟨attempt', hmem, hkeyed⟩
    · exact .inl hjob
    · obtain ⟨b, hb⟩ := List.mem_iff_getElem?.mp hmem
      refine .inr ?_
      rcases eq_or_ne b a with rfl | hne
      · obtain rfl := Option.some.inj (hb.symm.trans ha)
        exact ⟨{ attempt' with phase }, List.mem_set hlt _, hkeyed⟩
      · exact ⟨attempt', List.mem_of_getElem? ((List.getElem?_set_ne hne.symm).trans hb), hkeyed⟩
  · rw [Cell.setPhase, List.length_set]
    exact h.lane hp
  · rcases List.mem_or_eq_of_mem_set hmem with hold | rfl
    · exact h.detached hp attempt' hold hkeyed
    · exact h.detached hp attempt (List.mem_of_getElem? ha) hkeyed
  · rcases List.mem_or_eq_of_mem_set hmem with hold | rfl
    · exact h.kind attempt' hold
    · exact hphase

theorem Ok.complete (h : Ok c) (a : ℕ)
    (hrow : c.job ≠ none ∨ ∀ row ∈ c.automation, row.status ≠ .pending) : Ok (c.complete a) where
  pending row hmem hpending _ := .inl (hrow.resolve_right fun hnot => hnot row hmem hpending)
  bound := h.bound
  lane hp := (List.length_eraseIdx_le _ _).trans (h.lane hp)
  detached hp attempt hmem := h.detached hp attempt (List.mem_of_mem_eraseIdx hmem)
  kind attempt hmem := h.kind attempt (List.mem_of_mem_eraseIdx hmem)

theorem Ok.retry (h : Ok c) (ha : c.running[a]? = some attempt)
    (hlast : attempt.keyed = true → MAX_ATTEMPTS ≤ attempt.used →
      ∀ row ∈ c.automation, row.status ≠ .pending) : Ok (c.retry a attempt) := by
  by_cases hretry : (attempt.keyed && decide (attempt.used < MAX_ATTEMPTS)) = true
  · simp only [Bool.and_eq_true, decide_eq_true_eq] at hretry
    have heq : c.retry a attempt = { c.complete a with job := some attempt.used } := by
      simp [Cell.retry, hretry]
    rw [heq]
    refine ⟨fun _ _ _ _ => .inl nofun, fun used hused => ?_, fun hp => ?_, fun _ _ _ _ => nofun,
      fun attempt' hmem => h.kind attempt' (List.mem_of_mem_eraseIdx hmem)⟩
    · obtain rfl := Option.some.inj hused
      exact hretry.2
    · exact (List.length_eraseIdx_le _ _).trans (h.lane hp)
  · have heq : c.retry a attempt = c.complete a := by
      simp only [Cell.retry, if_neg hretry]
      rfl
    rw [heq]
    simp only [Bool.and_eq_true, decide_eq_true_eq, not_and, Nat.not_lt] at hretry
    rcases hkeyed : attempt.keyed
    · -- the attempt that answers for the row is another one
      refine ⟨fun row hrow hpending hunlocked => ?_, h.bound,
        fun hp => (List.length_eraseIdx_le _ _).trans (h.lane hp),
        fun hp attempt' hmem => h.detached hp attempt' (List.mem_of_mem_eraseIdx hmem),
        fun attempt' hmem => h.kind attempt' (List.mem_of_mem_eraseIdx hmem)⟩
      rcases h.pending row hrow hpending hunlocked with hjob | ⟨attempt', hmem, hkeyed'⟩
      · exact .inl hjob
      · obtain ⟨b, hb⟩ := List.mem_iff_getElem?.mp hmem
        have hne : b ≠ a := by
          rintro rfl
          obtain rfl := Option.some.inj (hb.symm.trans ha)
          simp [hkeyed] at hkeyed'
        exact .inr ⟨attempt', List.mem_eraseIdx_iff_getElem?.mpr ⟨b, hne, hb⟩, hkeyed'⟩
    · exact h.complete a (.inr (hlast hkeyed (hretry hkeyed)))

theorem settled_of_locked (h : c.isLocked = true) :
    ∀ row ∈ c.automation, row.status ≠ .pending := by
  intro row hrow hpending
  rw [Option.mem_def] at hrow
  simp [Cell.isLocked, hrow, hpending] at h

theorem Ok.writeDone (h : Ok c) (a : ℕ) (patch : Patch) : Ok (c.writeDone a patch) := by
  unfold Cell.writeDone
  split_ifs with hlocked
  · exact h.complete a (.inr (settled_of_locked hlocked))
  · have hdone : ∀ row : ItemAutomation,
        ({ row with status := .done, error := none } : ItemAutomation).status ≠ .pending := nofun
    exact (h.update_settled _ hdone).complete a (.inr (updateItemAutomation_settled hdone))

theorem Ok.enqueueProcessing (h : Ok c) : Ok c.enqueueProcessing := by
  unfold Cell.enqueueProcessing
  split
  · have henqueued := h.enqueueJob
    exact henqueued.setRow _ _ fun _ _ _ _ => .inl nofun
  · exact h.enqueueJob

theorem Ok.recordFailure (h : Ok c) {message : String} {budgetRejected : Bool}
    (ha : c.running[a]? = some attempt) : Ok (c.recordFailure a attempt message budgetRejected) := by
  unfold Cell.recordFailure
  split
  case h_1 =>
    have herror : ∀ row : ItemAutomation, ({ row with
        status := .error, error := some message, attempts := row.attempts + 1 } :
          ItemAutomation).status ≠ .pending := nofun
    exact (h.update_settled c.fields herror).retry ha
      fun _ _ => updateItemAutomation_settled herror
  case h_2 hp =>
    have hresponsible := h.responsible hp ha
    have herror : ∀ row : ItemAutomation, ({ row with
        status := .error, error := some message } : ItemAutomation).status ≠ .pending := nofun
    have hrecorded : ∀ permanent, Ok (c.recordTranscriptionFailure message permanent) ∧
        (c.recordTranscriptionFailure message permanent).running = c.running ∧
        (permanent = true → ∀ row ∈ (c.recordTranscriptionFailure message permanent).automation,
          row.status ≠ .pending) := by
      intro permanent
      unfold Cell.recordTranscriptionFailure
      split_ifs with hskip hpermanent
      · refine ⟨h, rfl, fun _ row hrow => ?_⟩
        rcases hskip with hnone | hlocked
        · simp [hnone] at hrow
        · exact settled_of_locked hlocked row hrow
      · exact ⟨h.update_settled _ herror, rfl, fun _ => updateItemAutomation_settled herror⟩
      · exact ⟨h.update_pending hresponsible, rfl, fun htrue => absurd htrue hpermanent⟩
    obtain ⟨hok, hrunning, hsettled⟩ :=
      hrecorded (budgetRejected || decide (MAX_ATTEMPTS ≤ attempt.used))
    split_ifs with hbudget
    · exact hok.complete a (.inr (hsettled (by simp [hbudget])))
    · exact hok.retry (hrunning ▸ ha) fun _ hused => hsettled (by simp [hused])

theorem Ok.openAttempt (h : Ok c) (hp : c.pipeline = .transcription)
    (ha : c.running[a]? = some attempt) : Ok (c.openAttempt a attempt) := by
  have hresponsible := h.responsible hp ha
  have hensured := h.ensureItemAutomation hresponsible
  unfold Cell.openAttempt
  simp only
  split_ifs with hlocked
  · exact hensured.complete a (.inr (settled_of_locked hlocked))
  · exact (hensured.update_pending hresponsible).setPhase ha hp

theorem Ok.start (h : Ok c) {used : ℕ} (hlane : c.pipeline = .transcription → c.running = []) :
    Ok { c with
      job := none, running := c.running ++ [⟨used + 1, true, c.pipeline.firstPhase⟩] } where
  pending _ _ _ _ := .inr ⟨_, List.mem_append_right _ (List.mem_singleton_self _), rfl⟩
  bound := nofun
  lane hp := by simp [hlane hp]
  detached hp attempt hmem hkeyed := by
    simp only [hlane hp, List.nil_append, List.mem_singleton] at hmem
    simp [hmem] at hkeyed
  kind attempt hmem := by
    rcases List.mem_append.mp hmem with hold | hnew
    · exact h.kind attempt hold
    · obtain rfl := List.mem_singleton.mp hnew
      rcases hp : c.pipeline <;> rfl

theorem Ok.cellStep {act : CellAct} (h : Ok c) (hs : cellStep c act = some c')
    (hlast : ∀ a, act = .die a → ∀ attempt, c.running[a]? = some attempt →
      attempt.keyed = true → attempt.used < MAX_ATTEMPTS) : Ok c' := by
  unfold ItemAutomations.cellStep at hs
  rcases act with _ | _ | _ | a | ⟨a, patch⟩ | a | a | a | a | ⟨a, patch⟩ | ⟨a, patch⟩ | a |
    ⟨a, message, budgetRejected⟩ | a | a | locked | patch | _ | _ <;> simp only at hs
  case enqueue =>
    obtain rfl := Option.some.inj hs
    exact h.enqueueProcessing
  case rerun =>
    split_ifs at hs
    obtain rfl := Option.some.inj hs
    exact h.enqueueJob
  case start =>
    split at hs
    case h_1 => simp at hs
    case h_2 =>
      split_ifs at hs with hfree
      obtain rfl := Option.some.inj hs
      exact h.start hfree.2
  case read =>
    split at hs
    case h_1 used keyed ha =>
      obtain rfl := Option.some.inj hs
      have hp := h.kind _ (List.mem_of_getElem? ha)
      unfold Cell.read
      split_ifs with hlocked
      · exact h.complete a (.inr (settled_of_locked hlocked))
      · exact h.setPhase ha hp
      · exact h.setPhase ha hp
    case h_2 => simp at hs
  case fetched =>
    split at hs
    case h_1 used keyed ha =>
      obtain rfl := Option.some.inj hs
      have hp := h.kind _ (List.mem_of_getElem? ha)
      exact h.setPhase ha hp
    case h_2 => simp at hs
  case writeDone =>
    split at hs
    case h_1 =>
      obtain rfl := Option.some.inj hs
      exact h.writeDone a _
    case h_2 => simp at hs
  case settleGone =>
    split at hs
    case h_1 =>
      obtain rfl := Option.some.inj hs
      have hdone : ∀ row : ItemAutomation,
          ({ row with status := .done, error := none } : ItemAutomation).status ≠ .pending := by
        intro row h
        cases h
      exact (h.update_settled c.fields hdone).complete a (.inr (updateItemAutomation_settled hdone))
    case h_2 => simp at hs
  case create =>
    split at hs
    case h_1 used keyed ha =>
      obtain rfl := Option.some.inj hs
      have hp := h.kind _ (List.mem_of_getElem? ha)
      exact (h.ensureItemAutomation (h.responsible hp ha)).setPhase ha hp
    case h_2 => simp at hs
  case openAttempt =>
    split at hs
    case h_1 used keyed ha =>
      obtain rfl := Option.some.inj hs
      have hp := h.kind _ (List.mem_of_getElem? ha)
      exact h.openAttempt hp ha
    case h_2 => simp at hs
  case stepWrite =>
    split at hs
    case h_1 =>
      obtain rfl := Option.some.inj hs
      unfold Cell.stepWrite
      split_ifs with hlocked
      · exact h.complete a (.inr (settled_of_locked hlocked))
      · exact h.setRow _ _ h.pending
    case h_2 => simp at hs
  case finalize =>
    split at hs
    case h_1 =>
      obtain rfl := Option.some.inj hs
      exact h.writeDone a patch
    case h_2 => simp at hs
  case interrupt =>
    split at hs
    case h_1 =>
      obtain rfl := Option.some.inj hs
      exact h.enqueueJob.complete a (.inl (fun h => by cases h))
    case h_2 => simp at hs
  case throw =>
    split at hs
    case h_1 used keyed phase ha =>
      split_ifs at hs
      obtain rfl := Option.some.inj hs
      exact h.setPhase ha trivial
    case h_2 => simp at hs
  case recordFailure =>
    split at hs
    case h_1 used keyed message budgetRejected ha =>
      obtain rfl := Option.some.inj hs
      exact h.recordFailure ha
    case h_2 => simp at hs
  case die =>
    obtain ⟨attempt, ha, rfl⟩ := Option.map_eq_some_iff.mp hs
    exact h.retry ha fun hkeyed hused => absurd (hlast a rfl attempt ha hkeyed) (by omega)
  case setLocked =>
    obtain ⟨row, hrow, rfl⟩ := Option.map_eq_some_iff.mp hs
    split_ifs
    · exact h.setRow _ c.fields fun row' hrow' => by
        obtain rfl := Option.some.inj hrow'
        exact fun h => by cases h
    · exact ⟨fun _ _ _ hunlocked => (by cases hunlocked), h.bound, h.lane, h.detached, h.kind⟩
    · exact h
  case edit =>
    obtain rfl := Option.some.inj hs
    exact h.setRow _ _ h.pending
  case trash =>
    obtain rfl := Option.some.inj hs
    exact ⟨h.pending, h.bound, h.lane, h.detached, h.kind⟩
  case restore =>
    obtain rfl := Option.some.inj hs
    exact ⟨h.pending, h.bound, h.lane, h.detached, h.kind⟩

/-! ## A row that is locked -/

def Same (c c' : Cell) : Prop := c'.automation = c.automation ∧ c'.fields = c.fields

theorem update_same (h : c.isLocked = true) (f : ItemAutomation → ItemAutomation) :
    Same c (c.updateItemAutomation f) := by
  refine ⟨?_, rfl⟩
  rcases hrow : c.automation with _ | row
  · simp [Cell.isLocked, hrow] at h
  · have hlocked : row.status = .locked := by simpa [Cell.isLocked, hrow] using h
    simp [Cell.updateItemAutomation, hrow, hlocked]

theorem ensure_same (h : c.isLocked = true) : Same c c.ensureItemAutomation := by
  refine ⟨?_, rfl⟩
  rcases hrow : c.automation with _ | row
  · simp [Cell.isLocked, hrow] at h
  · simp [Cell.ensureItemAutomation, hrow]

theorem recordTranscriptionFailure_same (h : c.isLocked = true) (message : String)
    (permanent : Bool) : Same c (c.recordTranscriptionFailure message permanent) := by
  unfold Cell.recordTranscriptionFailure
  rw [if_pos (.inr h)]
  exact ⟨rfl, rfl⟩

theorem recordFailure_same (h : c.isLocked = true) (a : ℕ) (attempt : Attempt) (message : String)
    (budgetRejected : Bool) : Same c (c.recordFailure a attempt message budgetRejected) := by
  unfold Cell.recordFailure
  split
  · exact update_same h _
  · split_ifs
    · exact recordTranscriptionFailure_same h _ _
    · exact recordTranscriptionFailure_same h _ _

theorem openAttempt_same (h : c.isLocked = true) (a : ℕ) (attempt : Attempt) :
    Same c (c.openAttempt a attempt) := by
  have hensured := ensure_same h
  have hlocked : c.ensureItemAutomation.isLocked = true := by
    rw [Cell.isLocked, hensured.1]
    exact h
  unfold Cell.openAttempt
  simp only
  rw [if_pos hlocked]
  exact hensured

theorem cellStep_same {act : CellAct} (hs : cellStep c act = some c') (hnot : ¬act.IsUsers)
    (h : c.isLocked = true) : Same c c' := by
  unfold cellStep at hs
  rcases act with _ | _ | _ | a | ⟨a, patch⟩ | a | a | a | a | ⟨a, patch⟩ | ⟨a, patch⟩ | a |
    ⟨a, message, budgetRejected⟩ | a | a | locked | patch | _ | _ <;> simp only at hs
  case setLocked => exact absurd trivial hnot
  case edit => exact absurd trivial hnot
  case trash => exact absurd trivial hnot
  case restore => exact absurd trivial hnot
  case enqueue =>
    obtain rfl := Option.some.inj hs
    unfold Cell.enqueueProcessing
    split
    · exact ensure_same h
    · exact ⟨rfl, rfl⟩
  case die =>
    obtain ⟨attempt, -, rfl⟩ := Option.map_eq_some_iff.mp hs
    exact ⟨rfl, rfl⟩
  case read =>
    split at hs
    case h_1 =>
      obtain rfl := Option.some.inj hs
      rw [Cell.read, if_pos h]
      exact ⟨rfl, rfl⟩
    case h_2 => simp at hs
  case writeDone =>
    split at hs
    case h_1 =>
      obtain rfl := Option.some.inj hs
      rw [Cell.writeDone, if_pos h]
      exact ⟨rfl, rfl⟩
    case h_2 => simp at hs
  case settleGone =>
    split at hs
    case h_1 =>
      obtain rfl := Option.some.inj hs
      exact update_same h _
    case h_2 => simp at hs
  case create =>
    split at hs
    case h_1 =>
      obtain rfl := Option.some.inj hs
      exact ensure_same h
    case h_2 => simp at hs
  case openAttempt =>
    split at hs
    case h_1 =>
      obtain rfl := Option.some.inj hs
      exact openAttempt_same h a _
    case h_2 => simp at hs
  case stepWrite =>
    split at hs
    case h_1 =>
      obtain rfl := Option.some.inj hs
      rw [Cell.stepWrite, if_pos h]
      exact ⟨rfl, rfl⟩
    case h_2 => simp at hs
  case finalize =>
    split at hs
    case h_1 =>
      obtain rfl := Option.some.inj hs
      rw [Cell.writeDone, if_pos h]
      exact ⟨rfl, rfl⟩
    case h_2 => simp at hs
  case recordFailure =>
    split at hs
    case h_1 =>
      obtain rfl := Option.some.inj hs
      exact recordFailure_same h a _ _ _
    case h_2 => simp at hs
  -- the others write the queue alone
  all_goals
    split at hs <;> try split_ifs at hs
    all_goals first | obtain rfl := Option.some.inj hs | simp at hs
  all_goals exact ⟨rfl, rfl⟩

theorem isLocked_of_row {row : ItemAutomation} (hrow : c.automation = some row)
    (hlocked : row.status = .locked) : c.isLocked = true := by
  simp [Cell.isLocked, hrow, hlocked]

/-! ## Runs -/

variable {s s' : Sys} {pipeline : ℕ → Pipeline}

theorem init_ok (i : ℕ) : Ok (init pipeline i) := ⟨nofun, nofun, fun _ => Nat.zero_le _, nofun, nofun⟩

theorem sweep_eq (p : Pipeline) (s : Sys) (i : ℕ) :
    sweep p s i = s i ∨ sweep p s i = (s i).enqueueProcessing ∧ (s i).errored = true := by
  unfold sweep
  split_ifs with h
  · simp only [Bool.and_eq_true] at h
    exact .inr ⟨rfl, h.2⟩
  · exact .inl rfl

theorem step_ok {act : Act} (h : ∀ i, Ok (s i)) (hok : Records s act) (hs : step s act = some s') :
    ∀ i, Ok (s' i) := by
  intro i
  rcases act with ⟨j, act⟩ | p
  · obtain ⟨c, hc, rfl⟩ := Option.map_eq_some_iff.mp hs
    rcases eq_or_ne i j with rfl | hne
    · rw [Function.update_self]
      refine (h i).cellStep hc fun a hact attempt hattempt hkeyed => ?_
      subst hact
      exact hok attempt hattempt hkeyed
    · rw [Function.update_of_ne hne]
      exact h i
  · obtain rfl := Option.some.inj hs
    rcases sweep_eq p s i with heq | ⟨heq, -⟩
    · rw [heq]
      exact h i
    · rw [heq]
      exact (h i).enqueueProcessing

theorem locksHold (s : Sys) : LocksHold s where
  swept i hlive row hrow herror := by
    have herrored : (s i).errored = true := by
      rw [Option.mem_def] at hrow
      simp [Cell.errored, hlive, hrow, herror]
    unfold sweep
    rw [if_pos (by simp [herrored])]
    unfold Cell.enqueueProcessing
    split <;> rfl
  locked act s' hs i hnot row hrow hlocked := by
    have hl := isLocked_of_row hrow hlocked
    suffices hsame : Same (s i) (s' i) from ⟨hsame.1.trans hrow, hsame.2⟩
    rcases act with ⟨j, act⟩ | p
    · obtain ⟨c, hc, rfl⟩ := Option.map_eq_some_iff.mp hs
      rcases eq_or_ne i j with rfl | hne
      · rw [Function.update_self]
        exact cellStep_same hc (fun husers => hnot act husers rfl) hl
      · rw [Function.update_of_ne hne]
        exact ⟨rfl, rfl⟩
    · obtain rfl := Option.some.inj hs
      rcases sweep_eq p s i with heq | ⟨-, herrored⟩
      · rw [heq]
        exact ⟨rfl, rfl⟩
      · rw [Option.mem_def] at hrow
        simp [Cell.errored, hrow, hlocked] at herrored
  unlock i row hrow hlocked := by
    rw [Option.mem_def] at hrow
    refine ⟨Function.update s i
      { s i with automation := some { row with status := .pending }, unlocked := true }, ?_, ?_⟩
    · simp [step, cellStep, Cell.setItemAutomationLocked, hrow, hlocked]
    · rw [Function.update_self]

theorem notStranded_of_ok (h : ∀ i, Ok (s i)) : NotStranded s where
  toLocksHold := locksHold s
  pending i _ row hrow hpending := by
    rcases hunlocked : (s i).unlocked
    · refine .inl ?_
      rcases (h i).pending row hrow hpending hunlocked with hjob | ⟨attempt, hmem, -⟩
      · obtain ⟨used, hused⟩ := Option.ne_none_iff_exists'.mp hjob
        exact .inl ⟨used, hused, (h i).bound used hused⟩
      · exact .inr (List.ne_nil_of_mem hmem)
    · exact .inr rfl

/-- Whatever the order in which jobs are enqueued, run, fail and crash, rows are swept, locked and
unlocked, a lock holds; and no row waits without a job but one that was unlocked since, where the
outcome of every last attempt is recorded. -/
theorem notStranded_of_reach {pipeline : ℕ → Pipeline} {s : Sys} :
    (Reach step (fun _ _ => True) (init pipeline) s → LocksHold s) ∧
      (Reach step Records (init pipeline) s → NotStranded s) :=
  ⟨fun _ => locksHold s, fun hs =>
    notStranded_of_ok (hs.invariant (I := fun t : Sys => ∀ i, Ok (t i)) init_ok
      fun _ _ _ hi hok hs => step_ok hi hok hs)⟩

def recordsCheck (s : Sys) : Act → Bool
  | .item i (.die a) => (s i).running[a]?.all fun attempt =>
      !attempt.keyed || attempt.used < MAX_ATTEMPTS
  | _ => true

theorem records_of_check (s : Sys) (act : Act) (h : recordsCheck s act = true) : Records s act := by
  rcases act with ⟨i, act⟩ | p
  · rcases act
    case die a =>
      intro attempt hattempt hkeyed
      simpa [recordsCheck, hattempt, hkeyed] using h
    all_goals trivial
  · trivial

def bookAndRecording (i : ℕ) : Pipeline := if i = 0 then .libraryMetadata else .transcription

/-- The book's first attempt fails and the sweep enqueues another job; the recording's first attempt
crashes, and it is locked during the second. -/
def sweptAndLocked : List Act :=
  [.item 0 .enqueue, .item 1 .enqueue, .item 0 .start, .item 0 (.read 0), .item 1 .start,
    .item 1 (.create 0), .item 1 (.die 0), .item 0 (.throw 0 "timeout" false),
    .item 0 (.recordFailure 0), .sweep .libraryMetadata, .item 0 .start, .item 0 (.read 0),
    .item 1 .start, .item 1 (.create 0), .item 1 (.openAttempt 0),
    .item 1 (.setLocked true), .item 1 (.stepWrite 0 [("segments", "…")]),
    .item 0 (.fetched 0 [("cover", "blob")]), .item 0 (.writeDone 0), .item 1 (.setLocked false)]

theorem sweptAndLocked_notStranded :
    ∃ s, runActs step (init bookAndRecording) sweptAndLocked = some s ∧
      (s 0).automation = some ⟨.done, none, 1⟩ ∧ (s 1).fields = [] ∧ NotStranded s := by
  obtain ⟨s, hs⟩ := Option.isSome_iff_exists.mp (show (runChecked step recordsCheck
    (init bookAndRecording) sweptAndLocked).isSome = true by decide +kernel)
  exact ⟨s, runActs_of_runChecked hs,
    eq_of_map_eq (f := fun t : Sys => (t 0).automation) hs (by decide +kernel),
    eq_of_map_eq (f := fun t : Sys => (t 1).fields) hs (by decide +kernel),
    notStranded_of_reach.2 (.of_runChecked records_of_check hs)⟩

/-- A book that was done is locked and unlocked, and looks as if it had yet to be processed. -/
theorem unlocked_stranded : ¬∀ (pipeline : ℕ → Pipeline) (s : Sys),
    Reach step (fun _ _ => True) (init pipeline) s → ∀ i, (s i).live = true →
      ∀ row ∈ (s i).automation, row.status = .pending → (s i).HasJob := by
  intro hall
  obtain ⟨s, hs⟩ := Option.isSome_iff_exists.mp (show (runActs step (init bookAndRecording)
    [.item 0 .enqueue, .item 0 .start, .item 0 (.read 0), .item 0 (.fetched 0 []),
      .item 0 (.writeDone 0), .item 0 (.setLocked true), .item 0 (.setLocked false)]).isSome =
        true by decide +kernel)
  have hlive : (s 0).live = true :=
    eq_of_map_eq (f := fun t : Sys => (t 0).live) hs (by decide +kernel)
  have hrow : (s 0).automation = some ⟨.pending, none, 0⟩ :=
    eq_of_map_eq (f := fun t : Sys => (t 0).automation) hs (by decide +kernel)
  have hjob : (s 0).job = none :=
    eq_of_map_eq (f := fun t : Sys => (t 0).job) hs (by decide +kernel)
  have hrunning : (s 0).running = [] :=
    eq_of_map_eq (f := fun t : Sys => (t 0).running) hs (by decide +kernel)
  rcases hall _ s (.of_runActs hs) 0 hlive _ hrow rfl with ⟨used, hused, -⟩ | hne
  · simp [hjob] at hused
  · exact hne hrunning

end ItemAutomations

end Semprec
