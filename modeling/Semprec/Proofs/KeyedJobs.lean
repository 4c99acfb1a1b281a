import Mathlib.Data.List.Range
import Semprec.KeyedJobs

/-!
# A key's last payload is run or permanently failed

A running job's key is cleared only by an `add_job` or a `remove_job` under it, so a failure is
swallowed only after one of them.  The job that has the last payload of its key keeps the key: it
waits or runs, each run takes one of its attempts, and so one of its runs completes it or the last
one leaves it permanently failed.
-/

namespace Semprec

namespace KeyedJobs

variable {Payload : Type} {s s' : Sys Payload} {id j : ℕ} {job job' : Job Payload}
  {run : Run Payload} {key k : String} {p : Payload} {spec : JobSpec Payload} {a : Act Payload}

/-! ## Rows and runs -/

@[simp] theorem setJob_jobs_self (o : Option (Job Payload)) : (s.setJob id o).jobs id = o :=
  Function.update_self ..

theorem setJob_jobs_of_ne (o : Option (Job Payload)) (h : j ≠ id) :
    (s.setJob id o).jobs j = s.jobs j :=
  Function.update_of_ne h ..

@[simp] theorem setRun_runs_self (o : Option (Run Payload)) : (s.setRun id o).runs id = o :=
  Function.update_self ..

theorem setRun_runs_of_ne (o : Option (Run Payload)) (h : j ≠ id) :
    (s.setRun id o).runs j = s.runs j :=
  Function.update_of_ne h ..

@[simp] theorem setRun_jobs (o : Option (Run Payload)) : (s.setRun id o).jobs = s.jobs := rfl

@[simp] theorem setJob_runs (o : Option (Job Payload)) : (s.setJob id o).runs = s.runs := rfl

@[simp] theorem insertJob_runs : (s.insertJob job).runs = s.runs := rfl

theorem insertJob_jobs_of_ne (h : j ≠ s.nextId) : (s.insertJob job).jobs j = s.jobs j :=
  Function.update_of_ne h ..

structure RowOk (cleared : String → Prop) (o : Option (Job Payload)) (r : Option (Run Payload)) :
    Prop where
  locked : ∀ job, o = some job → job.locked = true → r ≠ none
  run : ∀ run, r = some run → ∃ job, o = some job ∧ job.locked = true ∧
    (job.key = run.key ∨ job.key = none ∧ ∃ k, run.key = some k ∧ cleared k)
  failed : ∀ run, r = some run → run.phase = .failed → run.key ≠ none
  swallowed : ∀ run, r = some run → run.phase = .swallowed → ∃ k, run.key = some k ∧ cleared k

structure Inv (s : Sys Payload) : Prop where
  fresh : ∀ id job, s.jobs id = some job → id < s.nextId
  keys : ∀ id job id' job' k, s.jobs id = some job → job.key = some k → s.jobs id' = some job' →
    job'.key = some k → id = id'
  row : ∀ id, RowOk (s.Cleared id) (s.jobs id) (s.runs id)

theorem RowOk.empty (cleared : String → Prop) :
    RowOk cleared (none : Option (Job Payload)) none where
  locked := fun _ h => by cases h
  run := fun _ h => by cases h
  failed := fun _ h => by cases h
  swallowed := fun _ h => by cases h

theorem RowOk.waiting (cleared : String → Prop) (h : job.locked = false) :
    RowOk cleared (some job) none where
  locked := fun _ he hl => by
    cases he
    rw [h] at hl
    cases hl
  run := fun _ h => by cases h
  failed := fun _ h => by cases h
  swallowed := fun _ h => by cases h

theorem RowOk.mono {cleared cleared' : String → Prop} {o : Option (Job Payload)}
    {r : Option (Run Payload)} (h : RowOk cleared o r) (hle : ∀ k, cleared k → cleared' k) :
    RowOk cleared' o r where
  locked := h.locked
  run := fun run hr => by
    obtain ⟨job, ho, hl, hkey | ⟨hnone, k, hk, hc⟩⟩ := h.run run hr
    · exact ⟨job, ho, hl, .inl hkey⟩
    · exact ⟨job, ho, hl, .inr ⟨hnone, k, hk, hle k hc⟩⟩
  failed := h.failed
  swallowed := fun run hr hs => by
    obtain ⟨k, hk, hc⟩ := h.swallowed run hr hs
    exact ⟨k, hk, hle k hc⟩

theorem RowOk.phase {cleared : String → Prop} {o : Option (Job Payload)} {φ : Phase}
    (h : RowOk cleared o (some run)) (hf : φ = .failed → run.key ≠ none)
    (hs : φ = .swallowed → ∃ k, run.key = some k ∧ cleared k) :
    RowOk cleared o (some { run with phase := φ }) where
  locked := fun _ _ _ h => by cases h
  run := fun _ he => by
    cases he
    exact h.run run rfl
  failed := fun _ he hφ => by
    cases he
    exact hf hφ
  swallowed := fun _ he hφ => by
    cases he
    exact hs hφ

theorem RowOk.run_none {cleared : String → Prop} {r : Option (Run Payload)}
    (h : RowOk cleared (some job) r) (hl : job.locked = false) : r = none := by
  cases r with
  | none => rfl
  | some run =>
    obtain ⟨job', he, hl', -⟩ := h.run run rfl
    cases he
    rw [hl] at hl'
    cases hl'

theorem inv_init : Inv (.init : Sys Payload) where
  fresh := fun _ _ h => by cases h
  keys := fun _ _ _ _ _ h => by cases h
  row := fun _ => .empty _

/-- The row that has the key, as `add_job` and `remove_job` find it. -/
theorem keyed_eq_some (h : ((s.jobOfKey key).bind fun id => (s.jobs id).map (id, ·)) =
    some (id, job)) : s.jobs id = some job ∧ job.key = some key := by
  obtain ⟨id', hid, hj⟩ := Option.bind_eq_some_iff.mp h
  obtain ⟨job', hjob, he⟩ := Option.map_eq_some_iff.mp hj
  cases he
  refine ⟨hjob, ?_⟩
  have hk := List.find?_some (show List.find? _ _ = some id from hid)
  rw [hjob] at hk
  simpa using hk

theorem keyed_eq_none (hi : Inv s) (h : ((s.jobOfKey key).bind fun id =>
    (s.jobs id).map (id, ·)) = none) (hj : s.jobs j = some job) : job.key ≠ some key := by
  intro hk
  cases hf : s.jobOfKey key with
  | none =>
    have hnone := List.find?_eq_none.mp (show List.find? _ _ = none from hf) j
      (List.mem_range.mpr (hi.fresh j job hj))
    rw [hj] at hnone
    simp [hk] at hnone
  | some id =>
    have hid := List.find?_some (show List.find? _ _ = some id from hf)
    rw [hf, Option.bind_some, Option.map_eq_none_iff] at h
    rw [h] at hid
    simp at hid

/-! ## The steps -/

theorem Inv.update (hi : Inv s) {o : Option (Job Payload)} {r : Option (Run Payload)}
    (hjobs : s'.jobs = Function.update s.jobs id o) (hruns : s'.runs = Function.update s.runs id r)
    (hn : s.nextId ≤ s'.nextId) (hc : ∀ j k, s.Cleared j k → s'.Cleared j k)
    (hfresh : ∀ job, o = some job → id < s'.nextId)
    (hkey : ∀ job k, o = some job → job.key = some k → ∀ j job', j ≠ id →
      s.jobs j = some job' → job'.key ≠ some k)
    (hrow : RowOk (s'.Cleared id) o r) : Inv s' := by
  have hself : s'.jobs id = o := by rw [hjobs, Function.update_self]
  have hother : ∀ j, j ≠ id → s'.jobs j = s.jobs j := fun j hj => by
    rw [hjobs, Function.update_of_ne hj]
  refine ⟨fun j job hj => ?_, fun j job j' job' k hj hk hj' hk' => ?_, fun j => ?_⟩
  · by_cases h : j = id
    · subst h
      exact hfresh job (hself.symm.trans hj)
    · rw [hother j h] at hj
      exact (hi.fresh j job hj).trans_le hn
  · by_cases h : j = id
    · by_cases h' : j' = id
      · rw [h, h']
      · subst h
        rw [hother j' h'] at hj'
        exact absurd hk' (hkey job k (hself.symm.trans hj) hk j' job' h' hj')
    · rw [hother j h] at hj
      by_cases h' : j' = id
      · subst h'
        exact absurd hk (hkey job' k (hself.symm.trans hj') hk' j job h hj)
      · rw [hother j' h'] at hj'
        exact hi.keys j job j' job' k hj hk hj' hk'
  · by_cases h : j = id
    · subst h
      rw [hself, hruns, Function.update_self]
      exact hrow
    · rw [hother j h, hruns, Function.update_of_ne h]
      exact (hi.row j).mono (hc j)

theorem Inv.setRun (hi : Inv s) (hrow : RowOk (s.Cleared id) (s.jobs id) (some run)) :
    Inv (s.setRun id (some run)) := by
  obtain ⟨job, hj, -⟩ := hrow.run run rfl
  refine hi.update (Function.update_eq_self ..).symm rfl (le_refl _) (fun _ _ h => h)
    (fun _ h => hi.fresh id _ h) (fun job k hjob hk j job' hne hj' hk' => ?_) hrow
  exact hne (hi.keys j job' id job k hj' hk' hjob hk)

/-- A row with a key that no other row has, or with the key it had. -/
theorem Inv.setJob (hi : Inv s) (hl : job.locked = false) (hr : s.runs id = none)
    (hjobs : s'.jobs = Function.update s.jobs id (some job)) (hruns : s'.runs = s.runs)
    (hn : s.nextId ≤ s'.nextId) (hid : id < s'.nextId) (hc : ∀ j k, s.Cleared j k → s'.Cleared j k)
    (hkey : ∀ k, job.key = some k → ∀ j job', j ≠ id → s.jobs j = some job' → job'.key ≠ some k) :
    Inv s' :=
  hi.update (r := none) hjobs (by rw [hruns, ← hr, Function.update_eq_self]) hn hc
    (fun _ _ => hid) (fun _ k he => by cases he; exact hkey k) (.waiting _ hl)

theorem Inv.runs_nextId (hi : Inv s) : s.runs s.nextId = none := by
  cases hr : s.runs s.nextId with
  | none => rfl
  | some run =>
    obtain ⟨job, hj, -⟩ := (hi.row s.nextId).run run hr
    exact absurd (hi.fresh _ job hj) (lt_irrefl _)

theorem Inv.insertJob (hi : Inv s) (hl : job.locked = false)
    (hkey : ∀ k, job.key = some k → ∀ j job', s.jobs j = some job' → job'.key ≠ some k) :
    Inv (s.insertJob job) :=
  hi.setJob hl hi.runs_nextId rfl rfl (Nat.le_succ _) (Nat.lt_succ_self _) (fun _ _ h => h)
    fun k hk j job' _ => hkey k hk j job'

theorem Inv.clear (hi : Inv s) (hj : s.jobs id = some job) (hl : job.locked = true)
    (hk : job.key = some key)
    (hjobs : s'.jobs = Function.update s.jobs id
      (some { job with key := none, attempts := job.maxAttempts }))
    (hruns : s'.runs = s.runs) (hn : s'.nextId = s.nextId)
    (hc : ∀ j k, s.Cleared j k → s'.Cleared j k) (hcleared : s'.Cleared id key) : Inv s' := by
  refine hi.update (r := s.runs id) hjobs (by rw [hruns, Function.update_eq_self]) hn.ge hc
    (fun _ _ => hn ▸ hi.fresh id job hj) (fun _ k he hk => by cases he; cases hk) ?_
  have hrow := (hi.row id).mono (hc id)
  refine ⟨fun _ _ _ => hrow.locked job hj hl, fun run hr => ?_, hrow.failed, hrow.swallowed⟩
  obtain ⟨job', hj', -, hkey⟩ := hrow.run run hr
  rw [hj] at hj'
  cases hj'
  refine ⟨_, rfl, hl, .inr ⟨rfl, key, ?_, hcleared⟩⟩
  rcases hkey with hkey | ⟨hnone, -⟩
  · rw [← hkey, hk]
  · rw [hk] at hnone
    cases hnone

theorem Inv.gone (hi : Inv s) (hjobs : s'.jobs = Function.update s.jobs id none)
    (hruns : s'.runs = Function.update s.runs id none) (hn : s'.nextId = s.nextId)
    (hc : ∀ j k, s.Cleared j k → s'.Cleared j k) : Inv s' :=
  hi.update hjobs hruns hn.ge hc (fun _ h => by cases h) (fun _ _ h => by cases h) (.empty _)

theorem Inv.addJob (hi : Inv s) : Inv (s.addJob spec) := by
  unfold Sys.addJob
  cases hspec : spec.jobKey with
  | none => exact hi.insertJob rfl fun k hk => by cases hk
  | some key =>
    dsimp only
    cases hkeyed : (s.jobOfKey key).bind fun id => (s.jobs id).map (id, ·) with
    | none =>
      refine hi.insertJob rfl fun k hk j job' hj => ?_
      cases hk
      exact keyed_eq_none hi hkeyed hj
    | some found =>
      obtain ⟨id, job⟩ := found
      obtain ⟨hj, hk⟩ := keyed_eq_some hkeyed
      dsimp only
      split_ifs with hl
      · have hclear : Inv { s.setJob id
            (some { job with key := none, attempts := job.maxAttempts }) with
            superseded := s.superseded ++ [(id, s.nextId, key)] } :=
          hi.clear hj hl hk rfl rfl rfl
            (fun j k => Or.imp_left fun ⟨new, h⟩ => ⟨new, List.mem_append_left _ h⟩)
            (.inl ⟨s.nextId, List.mem_append_right _ (List.mem_singleton_self _)⟩)
        refine hclear.insertJob rfl fun k hkey j job' hj' => ?_
        cases hkey
        by_cases hne : j = id
        · subst hne
          change (s.setJob j _).jobs j = some job' at hj'
          rw [setJob_jobs_self] at hj'
          cases hj'
          nofun
        · change (s.setJob id _).jobs j = some job' at hj'
          rw [setJob_jobs_of_ne _ hne] at hj'
          exact fun hk' => hne (hi.keys j job' id job key hj' hk' hj hk)
      · refine hi.setJob rfl ?_ rfl rfl (le_refl _) (hi.fresh id job hj) (fun _ _ h => h)
          fun k hkey j job' hne hj' hk' => ?_
        · exact (hj ▸ hi.row id).run_none (by simpa using hl)
        · cases hkey
          exact hne (hi.keys j job' id job key hj' hk' hj hk)

theorem Inv.removeJob (hi : Inv s) : Inv (s.removeJob key) := by
  unfold Sys.removeJob
  cases hkeyed : (s.jobOfKey key).bind fun id => (s.jobs id).map (id, ·) with
  | none => exact hi
  | some found =>
    obtain ⟨id, job⟩ := found
    obtain ⟨hj, hk⟩ := keyed_eq_some hkeyed
    dsimp only
    split_ifs with hl
    · exact hi.clear hj hl hk rfl rfl rfl (fun _ _ => Or.imp_right (List.mem_append_left _))
        (.inr (List.mem_append_right _ (List.mem_singleton_self _)))
    · have hr : s.runs id = none := (hj ▸ hi.row id).run_none (by simpa using hl)
      exact hi.gone rfl (by rw [← hr, Function.update_eq_self]; rfl) rfl fun _ _ h => h

theorem Inv.getJob (hi : Inv s) (hj : s.jobs id = some job) :
    Inv ((s.setJob id (some { job with locked := true, attempts := job.attempts + 1 })).setRun
      id (some ⟨job.key, job.payload, .running⟩)) := by
  refine hi.update rfl rfl (le_refl _) (fun _ _ h => h) (fun _ _ => hi.fresh id job hj)
    (fun _ k he hk j job' hne hj' hk' => ?_) ?_
  · cases he
    exact hne (hi.keys j job' id job k hj' hk' hj hk)
  · refine ⟨fun _ _ _ => nofun, fun _ he => ?_, fun _ he h => ?_, fun _ he h => ?_⟩
    · cases he
      exact ⟨_, rfl, rfl, .inl rfl⟩
    · cases he
      cases h
    · cases he
      cases h

theorem Inv.unlock (hi : Inv s) : Inv (s.unlock id) := by
  cases hj : s.jobs id with
  | none =>
    refine hi.gone (show (s.unlock id).jobs = Function.update s.jobs id none from ?_) rfl rfl
      fun _ _ h => h
    simp only [Sys.unlock, Sys.setRun, Sys.setJob, hj, Option.map_none]
  | some job =>
    refine hi.update (show (s.unlock id).jobs =
      Function.update s.jobs id (some { job with locked := false }) from ?_) rfl (le_refl _)
      (fun _ _ h => h) (fun _ _ => hi.fresh id job hj) (fun _ k he hk j job' hne hj' hk' => ?_)
      (.waiting _ rfl)
    · simp only [Sys.unlock, Sys.setRun, Sys.setJob, hj, Option.map_some]
    · cases he
      exact hne (hi.keys j job' id job k hj' hk' hj hk)

theorem Inv.swallow (hi : Inv s) (hr : s.runs id = some run) (hφ : run.phase = .failed)
    (hc : s.jobKeyWasCleared id = true) : ∃ k, run.key = some k ∧ s.Cleared id k := by
  obtain ⟨job, hj, -, hkey | ⟨-, h⟩⟩ := (hi.row id).run run hr
  · unfold Sys.jobKeyWasCleared at hc
    rw [hj, Option.any_some, decide_eq_true_eq] at hc
    exact absurd (hkey ▸ hc) ((hi.row id).failed run hr hφ)
  · exact h

theorem inv_preserved (hi : Inv s) (hs : step s a = some s') : Inv s' := by
  cases a with
  | addJob spec =>
    cases hs
    exact hi.addJob
  | removeJob key =>
    cases hs
    exact hi.removeJob
  | getJob id =>
    obtain ⟨job, hj, hs⟩ := Option.bind_eq_some_iff.mp hs
    split_ifs at hs
    cases hs
    exact hi.getJob hj
  | handlerReturns id | tenantInactive id | completeJob id =>
    obtain ⟨run, hr, hs⟩ := Option.bind_eq_some_iff.mp hs
    split_ifs at hs
    cases hs
    exact hi.gone (show (s.completeJob id).jobs = Function.update s.jobs id none from rfl) rfl rfl
      fun _ _ h => h
  | handlerFails id =>
    obtain ⟨run, hr, hs⟩ := Option.bind_eq_some_iff.mp hs
    split_ifs at hs with hφ
    · cases hs
      exact hi.setRun ((hr ▸ hi.row id).phase nofun nofun)
    · cases hs
      exact hi.setRun ((hr ▸ hi.row id).phase (fun _ => ‹_›) nofun)
  | jobKeyWasCleared id =>
    obtain ⟨run, hr, hs⟩ := Option.bind_eq_some_iff.mp hs
    split_ifs at hs with hφ hc
    · cases hs
      exact hi.setRun ((hr ▸ hi.row id).phase nofun fun _ => hi.swallow hr hφ hc)
    · cases hs
      exact hi.setRun ((hr ▸ hi.row id).phase nofun nofun)
  | lookupFails id =>
    obtain ⟨run, hr, hs⟩ := Option.bind_eq_some_iff.mp hs
    split_ifs at hs
    cases hs
    exact hi.setRun ((hr ▸ hi.row id).phase nofun nofun)
  | failJob id =>
    obtain ⟨run, hr, hs⟩ := Option.bind_eq_some_iff.mp hs
    split_ifs at hs
    cases hs
    exact hi.unlock
  | workerLost id =>
    obtain ⟨run, hr, rfl⟩ := Option.map_eq_some_iff.mp hs
    exact hi.unlock

theorem inv_of_reach (h : Reach step (fun _ _ => True) .init s) : Inv s :=
  h.invariant inv_init fun _ _ _ hi _ hs => inv_preserved hi hs

/-! ## The last payload of a key -/

structure Carries (s : Sys Payload) (id : ℕ) (k : String) (p : Payload) : Prop where
  job : ∃ job, s.jobs id = some job ∧ job.key = some k ∧ job.payload = p
  run : ∀ run, s.runs id = some run → run.key = some k ∧ run.payload = p ∧
    run.phase ≠ .swallowed

/-- Two for each attempt that is left, and one for the run under way. -/
def left (id : ℕ) (s : Sys Payload) : ℕ :=
  match s.jobs id with
  | some job => 2 * (job.maxAttempts - job.attempts) + if job.locked then 1 else 0
  | none => 0

theorem left_eq (h : s.jobs id = some job) :
    left id s = 2 * (job.maxAttempts - job.attempts) + if job.locked then 1 else 0 := by
  unfold left
  rw [h]

theorem left_congr (h : s'.jobs id = s.jobs id) : left id s' = left id s := by
  unfold left
  rw [h]

theorem Carries.congr (hc : Carries s id k p) (hjob : s'.jobs id = s.jobs id)
    (hrun : s'.runs id = s.runs id) : Carries s' id k p where
  job := hjob ▸ hc.job
  run := hrun ▸ hc.run

theorem Carries.setRun (hc : Carries s id k p) (hr : s.runs id = some run) {φ : Phase}
    (hφ : φ ≠ .swallowed) : Carries (s.setRun id (some { run with phase := φ })) id k p where
  job := hc.job
  run := fun run' hr' => by
    rw [setRun_runs_self] at hr'
    cases hr'
    obtain ⟨hk, hp, -⟩ := hc.run run hr
    exact ⟨hk, hp, hφ⟩

theorem Carries.unlock (hc : Carries s id k p) : Carries (s.unlock id) id k p where
  job := by
    obtain ⟨job, hj, hk, hp⟩ := hc.job
    refine ⟨{ job with locked := false }, ?_, hk, hp⟩
    unfold Sys.unlock
    rw [setRun_jobs, setJob_jobs_self, hj]
    rfl
  run := fun run hr => by
    unfold Sys.unlock at hr
    rw [setRun_runs_self] at hr
    cases hr

theorem Carries.getJob (hc : Carries s id k p) (hj : s.jobs id = some job) :
    Carries ((s.setJob id (some { job with locked := true, attempts := job.attempts + 1 })).setRun
      id (some ⟨job.key, job.payload, .running⟩)) id k p := by
  obtain ⟨job', hj', hk, hp⟩ := hc.job
  rw [hj] at hj'
  cases hj'
  refine ⟨⟨_, setJob_jobs_self _, hk, hp⟩, fun run hr => ?_⟩
  rw [setRun_runs_self] at hr
  cases hr
  exact ⟨hk, hp, nofun⟩

theorem addJob_other (hi : Inv s) (hj : s.jobs id = some job) (hk : job.key = some k)
    (hspec : spec.jobKey ≠ some k) :
    (s.addJob spec).jobs id = s.jobs id ∧ (s.addJob spec).runs id = s.runs id := by
  have hne : id ≠ s.nextId := (hi.fresh id job hj).ne
  unfold Sys.addJob
  cases hs : spec.jobKey with
  | none => exact ⟨insertJob_jobs_of_ne hne, rfl⟩
  | some key =>
    dsimp only
    cases hkeyed : (s.jobOfKey key).bind fun id => (s.jobs id).map (id, ·) with
    | none => exact ⟨insertJob_jobs_of_ne hne, rfl⟩
    | some found =>
      obtain ⟨id', job'⟩ := found
      obtain ⟨hj', hk'⟩ := keyed_eq_some hkeyed
      have hne' : id ≠ id' := by
        rintro rfl
        rw [hj] at hj'
        cases hj'
        rw [hk] at hk'
        exact hspec (hs.trans hk'.symm)
      dsimp only
      split_ifs
      · refine ⟨?_, rfl⟩
        change ((s.setJob id' _).insertJob _).jobs id = s.jobs id
        exact (insertJob_jobs_of_ne (s := s.setJob id' _) hne).trans (setJob_jobs_of_ne _ hne')
      · exact ⟨setJob_jobs_of_ne _ hne', rfl⟩

theorem removeJob_other (hj : s.jobs id = some job) (hk : job.key = some k) (hkey : key ≠ k) :
    (s.removeJob key).jobs id = s.jobs id ∧ (s.removeJob key).runs id = s.runs id := by
  unfold Sys.removeJob
  cases hkeyed : (s.jobOfKey key).bind fun id => (s.jobs id).map (id, ·) with
  | none => exact ⟨rfl, rfl⟩
  | some found =>
    obtain ⟨id', job'⟩ := found
    obtain ⟨hj', hk'⟩ := keyed_eq_some hkeyed
    have hne' : id ≠ id' := by
      rintro rfl
      rw [hj] at hj'
      cases hj'
      rw [hk] at hk'
      exact hkey (Option.some.inj hk').symm
    dsimp only
    split_ifs <;> exact ⟨setJob_jobs_of_ne _ hne', rfl⟩

theorem insertJob_carries (hr : s.runs s.nextId = none) (hk : job.key = some k) :
    Carries (s.insertJob job) s.nextId k job.payload where
  job := ⟨job, Function.update_self .., hk, rfl⟩
  run := fun run h => by
    rw [insertJob_runs, hr] at h
    cases h

theorem addJob_carries (hi : Inv s) (hspec : spec.jobKey = some k) :
    ∃ id, Carries (s.addJob spec) id k spec.payload := by
  unfold Sys.addJob
  rw [hspec]
  dsimp only
  cases hkeyed : (s.jobOfKey k).bind fun id => (s.jobs id).map (id, ·) with
  | none => exact ⟨s.nextId, insertJob_carries hi.runs_nextId rfl⟩
  | some found =>
    obtain ⟨id, job⟩ := found
    obtain ⟨hj, hk⟩ := keyed_eq_some hkeyed
    dsimp only
    split_ifs with hl
    · have hnew : Carries ((s.setJob id (some { job with
          key := none, attempts := job.maxAttempts })).insertJob
            ⟨some k, spec.payload, 0, spec.maxAttempts, false⟩) s.nextId k spec.payload :=
        insertJob_carries (s := s.setJob id _) hi.runs_nextId rfl
      exact ⟨s.nextId, hnew.congr rfl rfl⟩
    · have hrow : RowOk (s.Cleared id) (some job) (s.runs id) := hj ▸ hi.row id
      refine ⟨id, ⟨_, setJob_jobs_self _, rfl, rfl⟩, fun run hr => ?_⟩
      rw [setJob_runs, hrow.run_none (by simpa using hl)] at hr
      cases hr

/-- A step that neither adds nor removes a job under the key completes the job with its run, or
leaves the payload with it and takes nothing back. -/
theorem carries_step (hi : Inv s) (hc : Carries s id k p) (ha : ¬ a.Touches k)
    (hs : step s a = some s') :
    (∃ run, s.runs id = some run) ∧ (a = .handlerReturns id ∨ a = .tenantInactive id) ∨
      Carries s' id k p ∧ left id s' ≤ left id s := by
  obtain ⟨job, hj, hk, -⟩ := hc.job
  have other : ∀ {s' : Sys Payload}, s'.jobs id = s.jobs id → s'.runs id = s.runs id →
      Carries s' id k p ∧ left id s' ≤ left id s :=
    fun hjob hrun => ⟨hc.congr hjob hrun, (left_congr hjob).le⟩
  cases a with
  | addJob spec =>
    cases hs
    obtain ⟨hjob, hrun⟩ := addJob_other hi hj hk ha
    exact .inr (other hjob hrun)
  | removeJob key =>
    cases hs
    obtain ⟨hjob, hrun⟩ := removeJob_other hj hk ha
    exact .inr (other hjob hrun)
  | getJob i =>
    obtain ⟨job', hj', hs⟩ := Option.bind_eq_some_iff.mp hs
    split_ifs at hs with hav
    cases hs
    right
    by_cases hne : id = i
    · subst hne
      rw [hj] at hj'
      cases hj'
      have hj' : ((s.setJob id (some { job with locked := true, attempts := job.attempts + 1
          })).setRun id (some ⟨job.key, job.payload, .running⟩)).jobs id =
            some { job with locked := true, attempts := job.attempts + 1 } :=
        setJob_jobs_self _
      refine ⟨hc.getJob hj, ?_⟩
      rw [left_eq hj, left_eq hj', hav.1]
      simp only [if_true, Bool.false_eq_true, if_false]
      omega
    · exact other (setJob_jobs_of_ne _ hne) (setRun_runs_of_ne _ hne)
  | handlerReturns i | tenantInactive i =>
    obtain ⟨run, hr, hs⟩ := Option.bind_eq_some_iff.mp hs
    split_ifs at hs
    cases hs
    by_cases hne : id = i
    · subst hne
      exact .inl ⟨⟨run, hr⟩, by simp⟩
    · exact .inr (other (setJob_jobs_of_ne _ hne) (setRun_runs_of_ne _ hne))
  | completeJob i =>
    obtain ⟨run, hr, hs⟩ := Option.bind_eq_some_iff.mp hs
    split_ifs at hs with hφ
    cases hs
    by_cases hne : id = i
    · subst hne
      exact absurd hφ (hc.run run hr).2.2
    · exact .inr (other (setJob_jobs_of_ne _ hne) (setRun_runs_of_ne _ hne))
  | handlerFails i =>
    obtain ⟨run, hr, hs⟩ := Option.bind_eq_some_iff.mp hs
    split_ifs at hs <;> cases hs
    all_goals
      right
      by_cases hne : id = i
      · subst hne
        exact ⟨hc.setRun hr nofun, le_refl _⟩
      · exact other rfl (setRun_runs_of_ne _ hne)
  | jobKeyWasCleared i =>
    obtain ⟨run, hr, hs⟩ := Option.bind_eq_some_iff.mp hs
    split_ifs at hs with hφ hcleared <;> cases hs
    all_goals
      right
      by_cases hne : id = i
      · subst hne
        -- the row still has the key, so the error is rethrown
        have hkept : s.jobKeyWasCleared id ≠ true := by
          unfold Sys.jobKeyWasCleared
          simp [hj, hk]
        first
          | exact absurd hcleared hkept
          | exact ⟨hc.setRun hr nofun, le_refl _⟩
      · exact other rfl (setRun_runs_of_ne _ hne)
  | lookupFails i =>
    obtain ⟨run, hr, hs⟩ := Option.bind_eq_some_iff.mp hs
    split_ifs at hs
    cases hs
    right
    by_cases hne : id = i
    · subst hne
      exact ⟨hc.setRun hr nofun, le_refl _⟩
    · exact other rfl (setRun_runs_of_ne _ hne)
  | failJob i | workerLost i =>
    have hunlock : s' = s.unlock i := by
      first
        | obtain ⟨run, -, hs⟩ := Option.bind_eq_some_iff.mp hs
          split_ifs at hs
          cases hs
          rfl
        | obtain ⟨run, -, rfl⟩ := Option.map_eq_some_iff.mp hs
          rfl
    subst hunlock
    right
    by_cases hne : id = i
    · subst hne
      refine ⟨hc.unlock, ?_⟩
      have hj' : (s.unlock id).jobs id = some { job with locked := false } := by
        unfold Sys.unlock
        rw [setRun_jobs, setJob_jobs_self, hj]
        rfl
      rw [left_eq hj, left_eq hj']
      simp
    · exact other (setJob_jobs_of_ne _ hne) (setRun_runs_of_ne _ hne)

section run

variable {tr : Jobs Payload} {n : ℕ}

theorem carries_progress (htakes : TakesJobs tr) (hends : RunsEnd tr)
    (hlast : ∀ m, n ≤ m → ∀ a, tr.act m = some a → ¬ a.Touches k)
    (hc : Carries (tr.state n) id k p) : ∃ m, n ≤ m ∧ Represented tr m k p := by
  refine Trace.eventually_of_measure (P := fun s => Carries s id k p) (left id)
    (fun i hi hci => ?_) hc
  have hinv : ∀ m, Inv (tr.state m) := fun m => inv_of_reach (tr.reach m)
  -- as long as nothing is taken from the job, it is as it was
  have hkeeps := fun m (hm : i ≤ m) => Trace.persists (n := i) (m := m)
    (P := fun s => Carries s id k p ∧ left id s = left id (tr.state i))
    (E := fun m => Represented tr m k p ∨ Carries (tr.state (m + 1)) id k p ∧
      left id (tr.state (m + 1)) < left id (tr.state i))
    (fun m him hP => by
      cases ha : tr.act m with
      | none =>
        rw [tr.idle m ha]
        exact .inl hP
      | some a =>
        rcases carries_step (hinv m) hP.1 (hlast m (hi.trans him) a ha) (tr.next m a ha) with
          ⟨⟨run, hr⟩, hdone⟩ | ⟨hc', hle⟩
        · obtain ⟨hk, hp, -⟩ := hP.1.run run hr
          refine .inr (.inl (.inl ⟨id, run, hr, hk, hp, ?_⟩))
          exact hdone.imp (fun h => ha.trans (congrArg some h)) fun h => ha.trans (congrArg some h)
        · rw [hP.2] at hle
          rcases hle.eq_or_lt with h | h
          · exact .inl ⟨hc', h⟩
          · exact .inr (.inr ⟨hc', h⟩))
    ⟨hci, rfl⟩ hm
  have hend : ∀ m, i ≤ m → ¬ (Carries (tr.state m) id k p ∧
      left id (tr.state m) = left id (tr.state i)) →
        ∃ j, i ≤ j ∧ (Represented tr j k p ∨ Carries (tr.state j) id k p ∧
          left id (tr.state j) < left id (tr.state i)) := by
    intro m hm hnot
    rcases hkeeps m hm with h | ⟨j, hj, -, -, hg | h⟩
    · exact absurd h hnot
    · exact ⟨j, hj, .inl hg⟩
    · exact ⟨j + 1, hj.trans (Nat.le_succ j), .inr h⟩
  obtain ⟨job, hj, hk, hp⟩ := hci.job
  have hleft := left_eq hj
  cases hl : job.locked with
  | false =>
    by_cases hatt : job.attempts < job.maxAttempts
    · obtain ⟨m, hm, hnot⟩ := htakes i id ⟨job, hj, hl, hatt⟩
      refine hend m hm fun ⟨hcm, heq⟩ => hnot ?_
      obtain ⟨job', hj', -⟩ := hcm.job
      rw [left_eq hj', hleft, hl] at heq
      refine ⟨job', hj', ?_⟩
      cases hl' : job'.locked with
      | false =>
        rw [hl'] at heq
        simp only [Bool.false_eq_true, if_false] at heq
        exact ⟨rfl, by omega⟩
      | true =>
        rw [hl'] at heq
        simp only [Bool.false_eq_true, if_true, if_false] at heq
        omega
    · exact ⟨i, le_refl i, .inl (.inr ⟨id, job, hj, hk, hp, hl, Nat.le_of_not_lt hatt⟩)⟩
  | true =>
    obtain ⟨m, hm, hnone⟩ := hends i id (((hinv i).row id).locked job hj hl)
    refine hend m hm fun ⟨hcm, heq⟩ => ?_
    obtain ⟨job', hj', -⟩ := hcm.job
    rw [left_eq hj', hleft, hl] at heq
    have hl' : job'.locked = true := by
      cases h : job'.locked with
      | true => rfl
      | false =>
        rw [h] at heq
        simp only [Bool.false_eq_true, if_true, if_false] at heq
        omega
    exact ((hinv m).row id).locked job' hj' hl' hnone

end run

/-- A failure is swallowed only if the run's key was taken from its job, by an `add_job` or a
`remove_job` under it; and the last payload added under a key is run to completion, or left with a
permanently failed job. -/
theorem supersession (tr : Jobs Payload) :
    (∀ n id run, (tr.state n).runs id = some run → run.phase = .swallowed →
      ∃ key, run.key = some key ∧ (tr.state n).Cleared id key) ∧
    (TakesJobs tr → RunsEnd tr → ∀ n spec key, tr.act n = some (.addJob spec) →
      spec.jobKey = some key →
      (∀ m, n < m → ∀ a, tr.act m = some a → ¬ a.Touches key) →
        ∃ m, n < m ∧ Represented tr m key spec.payload) := by
  refine ⟨fun n id run hr hφ => ?_, fun htakes hends n spec key ha hkey hlast => ?_⟩
  · exact ((inv_of_reach (tr.reach n)).row id).swallowed run hr hφ
  · obtain ⟨id, hc⟩ := addJob_carries (inv_of_reach (tr.reach n)) hkey
    have hs : tr.state (n + 1) = (tr.state n).addJob spec :=
      (Option.some.inj (tr.next n _ ha)).symm
    exact carries_progress htakes hends (fun m hm => hlast m hm) (hs ▸ hc)

/-- A job is taken, fails, is taken again and completes. -/
def retried : List (Act ℕ) :=
  [.addJob ⟨7, some "k", 3⟩, .getJob 0, .handlerFails 0, .jobKeyWasCleared 0, .failJob 0, .getJob 0,
    .handlerReturns 0]

theorem supersession_retried : ∃ tr : Jobs ℕ, TakesJobs tr ∧ RunsEnd tr ∧
    ∃ m, 0 < m ∧ Represented tr m "k" 7 := by
  obtain ⟨s, hs⟩ := Option.isSome_iff_exists.mp
    (show (runActs step (.init : Sys ℕ) retried).isSome = true by rfl)
  have hjobs : ∀ id, s.jobs id = none := fun id =>
    eq_of_map_eq (f := fun s : Sys ℕ => s.jobs id) hs (by cases id <;> rfl)
  have hruns : ∀ id, s.runs id = none := fun id =>
    eq_of_map_eq (f := fun s : Sys ℕ => s.runs id) hs (by cases id <;> rfl)
  have hstate : ∀ n, (Trace.ofActs retried hs).state (max n 7) = s := fun n =>
    Trace.ofActs_state hs (le_max_right n 7)
  have htakes : TakesJobs (Trace.ofActs retried hs) := fun n id _ =>
    ⟨max n 7, le_max_left n 7, fun ⟨job, hj, _⟩ => by
      rw [hstate, hjobs id] at hj
      cases hj⟩
  have hends : RunsEnd (Trace.ofActs retried hs) := fun n id _ =>
    ⟨max n 7, le_max_left n 7, by rw [hstate]; exact hruns id⟩
  refine ⟨_, htakes, hends, (supersession (Trace.ofActs retried hs)).2 htakes hends 0
    ⟨7, some "k", 3⟩ "k" rfl rfl fun m hm a ha => ?_⟩
  have hquiet : ∀ a ∈ retried.tail, ¬ a.Touches "k" := by simp [retried, Act.Touches]
  cases m with
  | zero => cases hm
  | succ m => exact hquiet a (List.mem_of_getElem? (i := m) ha)

def replacementDone : List (Act ℕ) :=
  [.addJob ⟨1, some "k", 3⟩, .getJob 0, .addJob ⟨2, some "k", 3⟩, .getJob 1, .handlerReturns 1,
    .handlerFails 0, .jobKeyWasCleared 0]

/-- The failure is swallowed, and no job has its key. -/
theorem swallowed_without_replacement :
    ¬ ∀ s : Sys ℕ, Reach step (fun _ _ => True) .init s → s.ReplacementThere := by
  intro hall
  obtain ⟨s, hs⟩ := Option.isSome_iff_exists.mp
    (show (runActs step (.init : Sys ℕ) replacementDone).isSome = true by rfl)
  have hphase : (s.runs 0).map (·.phase) = some .swallowed :=
    eq_of_map_eq (f := fun s : Sys ℕ => (s.runs 0).map (·.phase)) hs rfl
  have hnone : ∀ id, (s.jobs id).bind (·.key) = none := fun id =>
    eq_of_map_eq (f := fun s : Sys ℕ => (s.jobs id).bind (·.key)) hs
      (by rcases id with _ | _ | id <;> rfl)
  obtain ⟨run, hr, hφ⟩ := Option.map_eq_some_iff.mp hphase
  obtain ⟨key, -, new, job, hj, hk⟩ := hall s (.of_runActs hs) 0 run hr hφ
  have hcleared := hnone new
  rw [hj, Option.bind_some, hk] at hcleared
  cases hcleared

end KeyedJobs

end Semprec
