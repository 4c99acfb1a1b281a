import Semprec.TenantExports

/-!
# What becomes of an export

An attempt that builds an export is the only one that touches its archive (`Inv.own`).  An attempt
that has not claimed one can only give it up (`Inv.wait`), and one that marks a failed build may
find that the export is built again.
-/

namespace Semprec

namespace TenantExports

namespace Attempt

@[simp] theorem claimed_idle : Attempt.idle.claimed = none := rfl
@[simp] theorem claims_idle : Attempt.idle.claims = none := rfl
@[simp] theorem stores_idle : Attempt.idle.stores = none := rfl

/-- The export whose archive the attempt is in charge of. -/
def builds : Attempt → Option ℕ
  | .writing i | .written i _ | .deletePartialArchive i _ | .requeueInterruptedExport i => some i
  | _ => none

@[simp] theorem builds_idle : Attempt.idle.builds = none := rfl

theorem builds_of_stores {a : Attempt} {i : ℕ} (h : a.stores = some i) : a.builds = some i := by
  cases a <;> simp_all [stores, builds]

theorem claimed_of_builds {a : Attempt} {i : ℕ} (h : a.builds = some i) : a.claimed = some i := by
  cases a <;> simp_all [builds, claimed]

theorem claims_of_claimed {a : Attempt} {i : ℕ} (h : a.claimed = some i) : a.claims = none := by
  cases a <;> simp_all [claims, claimed]

theorem claims_of_builds {a : Attempt} {i : ℕ} (h : a.builds = some i) : a.claims = none :=
  claims_of_claimed (claimed_of_builds h)

theorem builds_of_claims {a : Attempt} {i : ℕ} (h : a.claims = some i) : a.builds = none := by
  cases a <;> simp_all [claims, builds]

theorem eq_of_claims {a : Attempt} {i i' : ℕ} (h : a.claims = some i)
    (h' : a.claims = some i' ∨ a.claimed = some i') : i' = i := by
  rcases h' with h' | h'
  · exact Option.some.inj (h'.symm.trans h)
  · rw [claims_of_claimed h'] at h
    cases h

end Attempt

/-- An export is built by one attempt, its row running or failed, and what the files root holds is
what that attempt, a ready row or a sweep accounts for. -/
structure Inv (s : Sys) : Prop where
  fresh : ∀ i, s.nextId ≤ i → s.rows i = none ∧ s.files i = .absent
  sweeps : ∀ j, ∀ i ∈ s.sweeps j, s.rows i = none ∧ i < s.nextId
  builds : ∀ k i, (s.attempts k).builds = some i → i < s.nextId ∧ (∀ j, i ∉ s.sweeps j) ∧
    ∀ row, s.rows i = some row → row.status = .running ∨ row.status = .failed
  unique : ∀ k k' i, (s.attempts k).builds = some i → (s.attempts k').builds = some i → k = k'
  written : ∀ k i byteSize, s.attempts k = .written i byteSize → s.files i = .full byteSize
  ready : ∀ i row byteSize completedAt expiresAt, s.rows i = some row →
    row.status = .ready byteSize completedAt expiresAt → s.files i = .full byteSize
  stored : ∀ i, s.files i ≠ .absent → s.IsReady i ∨ (∃ k, (s.attempts k).stores = some i) ∨
    (∃ j, i ∈ s.sweeps j) ∨ i ∈ s.left
  pending : ∀ i row, s.rows i = some row → row.status = .pending →
    i ∈ s.jobs ∨ (∃ k, (s.attempts k).claims = some i) ∨ i ∈ s.killed
  running : ∀ i row, s.rows i = some row → row.status = .running →
    (∃ k, (s.attempts k).claimed = some i) ∨ i ∈ s.killed

structure Frame (s s' : Sys) (k i : ℕ) : Prop where
  nextId : s'.nextId = s.nextId
  sweeps : s'.sweeps = s.sweeps
  rows : ∀ i', i' ≠ i → s'.rows i' = s.rows i'
  files : ∀ i', i' ≠ i → s'.files i' = s.files i'
  attempts : ∀ k', k' ≠ k → s'.attempts k' = s.attempts k'
  jobs : ∀ i', i' ≠ i → i' ∈ s.jobs → i' ∈ s'.jobs
  left : ∀ i' ∈ s.left, i' ∈ s'.left
  killed : ∀ i' ∈ s.killed, i' ∈ s'.killed

namespace Frame

variable {s s' s'' : Sys} {k i : ℕ}

theorem trans (h : Frame s s' k i) (h' : Frame s' s'' k i) : Frame s s'' k i where
  nextId := h'.nextId.trans h.nextId
  sweeps := h'.sweeps.trans h.sweeps
  rows := fun i' hi => (h'.rows i' hi).trans (h.rows i' hi)
  files := fun i' hi => (h'.files i' hi).trans (h.files i' hi)
  attempts := fun k' hk => (h'.attempts k' hk).trans (h.attempts k' hk)
  jobs := fun i' hi hj => h'.jobs i' hi (h.jobs i' hi hj)
  left := fun i' hi => h'.left i' (h.left i' hi)
  killed := fun i' hi => h'.killed i' (h.killed i' hi)

theorem setAttempt (s : Sys) (k i : ℕ) (a : Attempt) : Frame s (s.setAttempt k a) k i where
  nextId := rfl
  sweeps := rfl
  rows := fun _ _ => rfl
  files := fun _ _ => rfl
  attempts := fun _ hk => Function.update_of_ne hk _ _
  jobs := fun _ _ hj => hj
  left := fun _ hi => hi
  killed := fun _ hi => hi

theorem setFile (s : Sys) (k i : ℕ) (archive : Archive) : Frame s (s.setFile i archive) k i where
  nextId := rfl
  sweeps := rfl
  rows := fun _ _ => rfl
  files := fun _ hi => Function.update_of_ne hi _ _
  attempts := fun _ _ => rfl
  jobs := fun _ _ hj => hj
  left := fun _ hi => hi
  killed := fun _ hi => hi

theorem lists (s : Sys) (k i : ℕ) {jobs left killed : List ℕ}
    (hj : ∀ i', i' ≠ i → i' ∈ s.jobs → i' ∈ jobs) (hl : ∀ i' ∈ s.left, i' ∈ left)
    (hk : ∀ i' ∈ s.killed, i' ∈ killed) : Frame s { s with jobs, left, killed } k i where
  nextId := rfl
  sweeps := rfl
  rows := fun _ _ => rfl
  files := fun _ _ => rfl
  attempts := fun _ _ => rfl
  jobs := hj
  left := hl
  killed := hk

end Frame

theorem mark_eq {s s' : Sys} {i : ℕ} {old new : TenantExportStatus}
    (h : s.mark i old new = some s') : ∃ row, s.rows i = some row ∧ row.status = old ∧
      s' = { s with rows := Function.update s.rows i (some { row with status := new }) } := by
  unfold Sys.mark at h
  split at h
  · rename_i row hrow
    split_ifs at h with hold
    exact ⟨row, hrow, hold, (Option.some.inj h).symm⟩
  · cases h

theorem mark_of_row {s : Sys} {i : ℕ} {row : TenantExport} (new : TenantExportStatus)
    (h : s.rows i = some row) :
    s.mark i row.status new =
      some { s with rows := Function.update s.rows i (some { row with status := new }) } := by
  simp [Sys.mark, h]

namespace Inv

variable {s s' : Sys} {k i : ℕ} {a : Attempt}

theorem init : Inv .init := by
  constructor <;> simp [Sys.init]

theorem lt_of_row (h : Inv s) {row : TenantExport} (hrow : s.rows i = some row) : i < s.nextId := by
  by_contra hge
  rw [(h.fresh i (Nat.le_of_not_lt hge)).1] at hrow
  cases hrow

/-- What the owner of an export leaves there when it is at `a`. -/
structure Owned (s' : Sys) (i : ℕ) (a : Attempt) : Prop where
  attempt : a = .idle ∨ a.claimed = some i
  row : ∀ row, s'.rows i = some row →
    (a.builds = some i → row.status = .running ∨ row.status = .failed) ∧
    (row.status = .running → a.claimed = some i ∨ i ∈ s'.killed) ∧
    (row.status = .pending → i ∈ s'.jobs) ∧
    ∀ byteSize completedAt expiresAt, row.status = .ready byteSize completedAt expiresAt →
      s'.files i = .full byteSize
  written : ∀ byteSize, a = .written i byteSize → s'.files i = .full byteSize
  stored : s'.files i ≠ .absent → s'.IsReady i ∨ a.stores = some i ∨ i ∈ s'.left

theorem Owned.eq (h : Owned s' i a) {i' : ℕ} (ha : a.builds = some i') : i' = i := by
  rcases h.attempt with rfl | hi
  · cases ha
  · exact Option.some.inj ((Attempt.claimed_of_builds ha).symm.trans hi)

theorem own (h : Inv s) (hk : (s.attempts k).builds = some i) (hf : Frame s s' k i)
    (ha : s'.attempts k = a) (ho : Owned s' i a) : Inv s' := by
  subst ha
  obtain ⟨hlt, hsweeps, -⟩ := h.builds k i hk
  have hother : ∀ k', k' ≠ k → (s'.attempts k').builds ≠ some i := by
    intro k' hne hc
    rw [hf.attempts k' hne] at hc
    exact hne (h.unique k' k i hc hk)
  constructor
  case fresh =>
    intro i' hi'
    rw [hf.nextId] at hi'
    have hne : i' ≠ i := by omega
    rw [hf.rows i' hne, hf.files i' hne]
    exact h.fresh i' hi'
  case sweeps =>
    intro j i' hi'
    rw [hf.sweeps] at hi'
    obtain ⟨hrow, hlt'⟩ := h.sweeps j i' hi'
    have hne : i' ≠ i := by
      rintro rfl
      exact hsweeps j hi'
    rw [hf.rows i' hne, hf.nextId]
    exact ⟨hrow, hlt'⟩
  case builds =>
    intro k' i' hc
    rw [hf.nextId, hf.sweeps]
    by_cases hne : k' = k
    · subst hne
      obtain rfl := ho.eq hc
      exact ⟨hlt, hsweeps, fun row hrow => (ho.row row hrow).1 hc⟩
    · have hi : i' ≠ i := by
        rintro rfl
        exact hother k' hne hc
      rw [hf.rows i' hi]
      exact h.builds k' i' (by rwa [hf.attempts k' hne] at hc)
  case unique =>
    intro k₁ k₂ i' h₁ h₂
    by_cases hi : i' = i
    · subst hi
      have e₁ : k₁ = k := by_contra fun hne => hother k₁ hne h₁
      have e₂ : k₂ = k := by_contra fun hne => hother k₂ hne h₂
      rw [e₁, e₂]
    · have n₁ : k₁ ≠ k := by
        rintro rfl
        exact hi (ho.eq h₁)
      have n₂ : k₂ ≠ k := by
        rintro rfl
        exact hi (ho.eq h₂)
      rw [hf.attempts k₁ n₁] at h₁
      rw [hf.attempts k₂ n₂] at h₂
      exact h.unique k₁ k₂ i' h₁ h₂
  case written =>
    intro k' i' byteSize hw
    have hc : (s'.attempts k').builds = some i' := by rw [hw]; rfl
    by_cases hne : k' = k
    · subst hne
      obtain rfl := ho.eq hc
      exact ho.written byteSize hw
    · have hi : i' ≠ i := by
        rintro rfl
        exact hother k' hne hc
      rw [hf.files i' hi]
      exact h.written k' i' byteSize (by rwa [hf.attempts k' hne] at hw)
  case ready =>
    intro i' row byteSize completedAt expiresAt hrow hr
    by_cases hi : i' = i
    · subst hi
      exact (ho.row row hrow).2.2.2 _ _ _ hr
    · rw [hf.rows i' hi] at hrow
      rw [hf.files i' hi]
      exact h.ready i' row _ _ _ hrow hr
  case stored =>
    intro i' hfile
    by_cases hi : i' = i
    · subst hi
      rcases ho.stored hfile with hr | hr | hr
      · exact .inl hr
      · exact .inr (.inl ⟨k, hr⟩)
      · exact .inr (.inr (.inr hr))
    · rw [hf.files i' hi] at hfile
      rcases h.stored i' hfile with hr | ⟨k', hr⟩ | ⟨j, hr⟩ | hr
      · left
        unfold Sys.IsReady
        rw [hf.rows i' hi]
        exact hr
      · have hne : k' ≠ k := by
          rintro rfl
          exact hi (Option.some.inj ((Attempt.builds_of_stores hr).symm.trans hk))
        exact .inr (.inl ⟨k', by rwa [hf.attempts k' hne]⟩)
      · exact .inr (.inr (.inl ⟨j, by rwa [hf.sweeps]⟩))
      · exact .inr (.inr (.inr (hf.left i' hr)))
  case pending =>
    intro i' row hrow hp
    by_cases hi : i' = i
    · subst hi
      exact .inl ((ho.row row hrow).2.2.1 hp)
    · rw [hf.rows i' hi] at hrow
      rcases h.pending i' row hrow hp with hj | ⟨k', hc⟩ | hkill
      · exact .inl (hf.jobs i' hi hj)
      · have hne : k' ≠ k := by
          rintro rfl
          rw [Attempt.claims_of_builds hk] at hc
          cases hc
        exact .inr (.inl ⟨k', by rwa [hf.attempts k' hne]⟩)
      · exact .inr (.inr (hf.killed i' hkill))
  case running =>
    intro i' row hrow hr
    by_cases hi : i' = i
    · subst hi
      exact ((ho.row row hrow).2.1 hr).imp_left fun hc => ⟨k, hc⟩
    · rw [hf.rows i' hi] at hrow
      rcases h.running i' row hrow hr with ⟨k', hc⟩ | hkill
      · have hne : k' ≠ k := by
          rintro rfl
          exact hi (Option.some.inj (hc.symm.trans (Attempt.claimed_of_builds hk)))
        exact .inl ⟨k', by rwa [hf.attempts k' hne]⟩
      · exact .inr (hf.killed i' hkill)

theorem wait (h : Inv s) (hk : (s.attempts k).builds = none) (hf : Frame s s' k i)
    (hrow : s'.rows i = s.rows i) (hfile : s'.files i = s.files i)
    (ha : (s'.attempts k).builds = none)
    (hi : ∀ i', (s.attempts k).claims = some i' ∨ (s.attempts k).claimed = some i' → i' = i)
    (hpending : ∀ row, s.rows i = some row → row.status = .pending →
      i ∈ s'.jobs ∨ (∃ k', (s'.attempts k').claims = some i) ∨ i ∈ s'.killed)
    (hrunning : ∀ row, s.rows i = some row → row.status = .running →
      (s.attempts k).claimed = some i → i ∈ s'.killed) : Inv s' := by
  have hrows : s'.rows = s.rows := funext fun i' => by
    by_cases h' : i' = i
    · rw [h', hrow]
    · exact hf.rows i' h'
  have hfiles : s'.files = s.files := funext fun i' => by
    by_cases h' : i' = i
    · rw [h', hfile]
    · exact hf.files i' h'
  have hbuilds : ∀ k' i', (s'.attempts k').builds = some i' ↔
      (s.attempts k').builds = some i' := by
    intro k' i'
    by_cases hne : k' = k
    · subst hne
      simp [ha, hk]
    · rw [hf.attempts k' hne]
  have hne : ∀ k' i', (s.attempts k').builds = some i' → k' ≠ k := by
    rintro k' i' hc rfl
    rw [hk] at hc
    cases hc
  constructor
  case fresh => simpa only [hf.nextId, hrows, hfiles] using h.fresh
  case sweeps => simpa only [hf.nextId, hf.sweeps, hrows] using h.sweeps
  case builds => simpa only [hbuilds, hf.nextId, hf.sweeps, hrows] using h.builds
  case unique => simpa only [hbuilds] using h.unique
  case written =>
    intro k' i' byteSize hw
    have hc : (s.attempts k').builds = some i' := (hbuilds k' i').mp (by rw [hw]; rfl)
    rw [hf.attempts k' (hne k' i' hc)] at hw
    rw [hfiles]
    exact h.written k' i' byteSize hw
  case ready => simpa only [hrows, hfiles] using h.ready
  case stored =>
    intro i' hfile'
    rw [hfiles] at hfile'
    rcases h.stored i' hfile' with hr | ⟨k', hr⟩ | ⟨j, hr⟩ | hr
    · left
      unfold Sys.IsReady
      rw [hrows]
      exact hr
    · refine .inr (.inl ⟨k', ?_⟩)
      rwa [hf.attempts k' (hne k' i' (Attempt.builds_of_stores hr))]
    · exact .inr (.inr (.inl ⟨j, by rwa [hf.sweeps]⟩))
    · exact .inr (.inr (.inr (hf.left i' hr)))
  case pending =>
    intro i' row hr hp
    rw [hrows] at hr
    by_cases h' : i' = i
    · subst h'
      exact hpending row hr hp
    · rcases h.pending i' row hr hp with hj | ⟨k', hc⟩ | hkill
      · exact .inl (hf.jobs i' h' hj)
      · have hk' : k' ≠ k := by
          rintro rfl
          exact h' (hi i' (.inl hc))
        exact .inr (.inl ⟨k', by rwa [hf.attempts k' hk']⟩)
      · exact .inr (.inr (hf.killed i' hkill))
  case running =>
    intro i' row hr hrun
    rw [hrows] at hr
    rcases h.running i' row hr hrun with ⟨k', hc⟩ | hkill
    · by_cases hk' : k' = k
      · subst hk'
        obtain rfl := hi i' (.inr hc)
        exact .inr (hrunning row hr hrun hc)
      · exact .inl ⟨k', by rwa [hf.attempts k' hk']⟩
    · exact .inr (hf.killed i' hkill)

theorem stay (h : Inv s) (hk : (s.attempts k).builds = some i) (hf : Frame s s' k i)
    (hrow : s'.rows i = s.rows i)
    (ha : (s'.attempts k).claimed = some i ∨ s'.attempts k = .idle ∧ i ∈ s'.killed)
    (hw : ∀ byteSize, s'.attempts k = .written i byteSize → s'.files i = .full byteSize)
    (hs : s'.files i ≠ .absent → (s'.attempts k).stores = some i ∨ i ∈ s'.left) : Inv s' := by
  refine h.own hk hf rfl ⟨?_, fun row hr => ?_, hw, fun hfile => .inr (hs hfile)⟩
  · rcases ha with hc | ⟨hidle, -⟩
    · exact .inr hc
    · exact .inl hidle
  · rw [hrow] at hr
    have hst := (h.builds k i hk).2.2 row hr
    refine ⟨fun _ => hst, fun _ => ha.imp_right fun hi => hi.2, fun hp => ?_, fun _ _ _ hp => ?_⟩
    all_goals
      rw [hp] at hst
      rcases hst with hst | hst <;> cases hst

/-- The owner goes on to a phase that knows nothing of the archive yet. -/
theorem goOn (h : Inv s) (hk : (s.attempts k).builds = some i) (hf : Frame s s' k i)
    (hrow : s'.rows i = s.rows i) {next : Attempt} (hnext : s'.attempts k = next)
    (hclaimed : next.claimed = some i) (hwritten : ∀ byteSize, next ≠ .written i byteSize)
    (hs : s'.files i ≠ .absent → next.stores = some i ∨ i ∈ s'.left) : Inv s' :=
  h.stay hk hf hrow (.inl (hnext ▸ hclaimed))
    (fun byteSize hw => absurd (hnext.symm.trans hw) (hwritten byteSize)) (hnext ▸ hs)

theorem finish (h : Inv s) (jobs : List ℕ) (hk : (s.attempts k).builds = some i)
    {new : TenantExportStatus} {next : Attempt} (hm : s.mark i .running new = some s')
    (hnext : next = .idle ∨ next = .markFailed i) (hnew : new ≠ .running)
    (hj : ∀ i' ∈ s.jobs, i' ∈ jobs) (hpending : new = .pending → i ∈ jobs)
    (hready : ∀ byteSize completedAt expiresAt, new = .ready byteSize completedAt expiresAt →
      s.files i = .full byteSize)
    (hfile : s.files i ≠ .absent → new.isReady = true ∨ i ∈ s.left) :
    Inv { s'.setAttempt k next with jobs } := by
  obtain ⟨row, hrow, -, rfl⟩ := mark_eq hm
  have hf : Frame s { Sys.setAttempt { s with
      rows := Function.update s.rows i (some { row with status := new }) } k next with jobs }
      k i :=
    { nextId := rfl
      sweeps := rfl
      rows := fun _ hi => Function.update_of_ne hi _ _
      files := fun _ _ => rfl
      attempts := fun _ hk' => Function.update_of_ne hk' _ _
      jobs := fun i' _ hi => hj i' hi
      left := fun _ hi => hi
      killed := fun _ hi => hi }
  have hr : Function.update s.rows i (some { row with status := new }) i =
      some { row with status := new } := Function.update_self i _ _
  have ho : Owned { Sys.setAttempt { s with
      rows := Function.update s.rows i (some { row with status := new }) } k next with jobs }
      i next := by
    refine ⟨hnext.imp_right fun hn => by rw [hn]; rfl, fun row' hrow' => ?_, fun byteSize hw => ?_,
      fun hne => ?_⟩
    · obtain rfl := Option.some.inj (hr.symm.trans hrow')
      refine ⟨fun hb => ?_, fun hc => absurd hc hnew, hpending, hready⟩
      rcases hnext with rfl | rfl <;> cases hb
    · rcases hnext with rfl | rfl <;> cases hw
    rcases hfile hne with hn | hn
    · left
      unfold Sys.IsReady
      change (Option.any _ (Function.update s.rows i (some { row with status := new }) i)) = true
      rw [hr]
      exact hn
    · exact .inr (.inr hn)
  exact h.own (a := next) hk hf (by simp [Sys.setAttempt]) ho

/-- Once its owner has deleted an archive, what is left of it was left. -/
theorem left_of_stored (h : Inv s) (hk : (s.attempts k).builds = some i)
    (hstores : (s.attempts k).stores = none) (hfile : s.files i ≠ .absent) : i ∈ s.left := by
  obtain ⟨-, hsweeps, hrows⟩ := h.builds k i hk
  rcases h.stored i hfile with hr | ⟨k', hr⟩ | ⟨j, hr⟩ | hr
  · obtain ⟨row, hrow, hready⟩ := (Option.any_eq_true _ _).mp hr
    rcases hrows row hrow with hst | hst <;> rw [hst] at hready <;> cases hready
  · obtain rfl := h.unique k' k i (Attempt.builds_of_stores hr) hk
    rw [hstores] at hr
    cases hr
  · exact absurd hr (hsweeps j)
  · exact hr

/-- The archive is deleted, and the row could not be taken back to pending. -/
theorem abandon (h : Inv s) (hk : s.attempts k = .requeueInterruptedExport i) :
    Inv (s.setAttempt k (.markFailed i)) := by
  have hb : (s.attempts k).builds = some i := by rw [hk]; rfl
  refine h.goOn hb (.setAttempt s k i _) rfl (Function.update_self ..) rfl (fun _ => nofun)
    fun hfile => .inr ?_
  exact h.left_of_stored hb (by rw [hk]; rfl) hfile

theorem requeue (h : Inv s) (hk : s.attempts k = .requeueInterruptedExport i)
    (hs : s.markTenantExportPending i = some s') {next : Attempt}
    (hnext : next = .idle ∨ next = .markFailed i) :
    Inv { s'.setAttempt k next with jobs := i :: s.jobs } := by
  have hb : (s.attempts k).builds = some i := by rw [hk]; rfl
  refine h.finish _ hb hs hnext nofun (fun _ hi => List.mem_cons_of_mem _ hi)
    (fun _ => List.mem_cons_self) (fun _ _ _ => nofun) fun hfile => .inr ?_
  exact h.left_of_stored hb (by rw [hk]; rfl) hfile

/-- The row is running, of this attempt or, where the answer of its requeue was lost, of another. -/
theorem markFailed (h : Inv s) (hk : s.attempts k = .markFailed i)
    (hs : s.markTenantExportFailed i = some s') : Inv (s'.setAttempt k .idle) := by
  obtain ⟨row, hrow, hrunning, rfl⟩ := mark_eq hs
  have hlt := h.lt_of_row hrow
  have hself : ∀ k' i', (s.attempts k').stores = some i' ∨ (s.attempts k').claims = some i' →
      k' ≠ k := by
    rintro k' i' hc rfl
    rw [hk] at hc
    rcases hc with hc | hc <;> cases hc
  constructor <;> dsimp only [Sys.setAttempt]
  case fresh => grind [Function.update_apply, h.fresh]
  case sweeps => grind [Function.update_apply, h.sweeps]
  case builds =>
    intro k' i' hc
    have hne : k' ≠ k := by
      rintro rfl
      rw [Function.update_self] at hc
      cases hc
    rw [Function.update_of_ne hne] at hc
    obtain ⟨hlt', hsweeps, hrows⟩ := h.builds k' i' hc
    refine ⟨hlt', hsweeps, fun row' hrow' => ?_⟩
    rcases of_update_some hrow' with ⟨rfl, rfl⟩ | ⟨-, hrow'⟩
    · exact .inr rfl
    · exact hrows row' hrow'
  case unique => grind [Function.update_apply, h.unique, Attempt.builds]
  case written => grind [Function.update_apply, h.written]
  case ready => grind [Function.update_apply, h.ready]
  case stored =>
    intro i' hfile
    rcases h.stored i' hfile with hr | ⟨k', hr⟩ | hr
    · left
      have hne : i' ≠ i := by
        rintro rfl
        simp [Sys.IsReady, hrow, hrunning, TenantExportStatus.isReady] at hr
      simpa [Sys.IsReady, Function.update_of_ne hne] using hr
    · exact .inr (.inl ⟨k', by rwa [Function.update_of_ne (hself k' i' (.inl hr))]⟩)
    · exact .inr (.inr hr)
  case pending =>
    intro i' row' hrow' hp
    rcases of_update_some hrow' with ⟨rfl, rfl⟩ | ⟨-, hrow'⟩
    · cases hp
    · refine (h.pending i' row' hrow' hp).imp_right fun hc => hc.imp_left ?_
      exact fun ⟨k', hc⟩ => ⟨k', by rwa [Function.update_of_ne (hself k' i' (.inr hc))]⟩
  case running =>
    intro i' row' hrow' hr
    rcases of_update_some hrow' with ⟨rfl, rfl⟩ | ⟨hne, hrow'⟩
    · cases hr
    · refine (h.running i' row' hrow' hr).imp_left fun ⟨k', hc⟩ => ⟨k', ?_⟩
      have hk' : k' ≠ k := by
        rintro rfl
        rw [hk] at hc
        exact hne (Option.some.inj hc).symm
      rwa [Function.update_of_ne hk']

theorem notMarked (h : Inv s) (hk : s.attempts k = .markFailed i)
    (hs : s.markTenantExportFailed i = none) : Inv (s.setAttempt k .idle) := by
  refine h.wait (k := k) (i := i) (by rw [hk]; rfl) (.setAttempt s k i .idle) rfl rfl
    (by simp [Sys.setAttempt]) (fun i' hi => ?_) (fun row hrow hp => ?_) fun row hrow hr _ => ?_
  · rw [hk] at hi
    rcases hi with hi | hi
    · cases hi
    · exact (Option.some.inj hi).symm
  · refine (h.pending i row hrow hp).imp_right fun hc => hc.imp_left fun ⟨k', hc⟩ => ⟨k', ?_⟩
    have hk' : k' ≠ k := by
      rintro rfl
      rw [hk] at hc
      cases hc
    rwa [(Frame.setAttempt s k i .idle).attempts k' hk']
  · rw [Sys.markTenantExportFailed, ← hr, mark_of_row _ hrow] at hs
    cases hs

theorem giveUp (h : Inv s) (hk : (s.attempts k).claims = some i)
    (hp : ¬ s.ClaimsPending k) : Inv (s.setAttempt k .idle) := by
  refine h.wait (Attempt.builds_of_claims hk) (.setAttempt s k i .idle) rfl rfl ?_
    (fun i' hi => Attempt.eq_of_claims hk hi)
    (fun row hrow hpending => absurd ⟨i, row, hk, hrow, hpending⟩ hp) fun row _ _ hc => ?_
  · simp [Sys.setAttempt]
  · rw [Attempt.claims_of_claimed hc] at hk
    cases hk

theorem pick (h : Inv s) (hk : s.attempts k = .idle) :
    Inv { s.setAttempt k (.picked i) with jobs := s.jobs.erase i } := by
  refine h.wait (k := k) (i := i) (by rw [hk]; rfl)
    ((Frame.setAttempt s k i (.picked i)).trans (Frame.lists _ k i
      (fun i' hi hj => (List.mem_erase_of_ne hi).mpr hj) (fun _ hi => hi) fun _ hi => hi))
    rfl rfl ?_ (fun i' hi => ?_) (fun _ _ _ => .inr (.inl ⟨k, ?_⟩)) fun _ _ _ hc => ?_
  · simp [Sys.setAttempt, Attempt.builds]
  · rw [hk] at hi
    rcases hi with hi | hi <;> cases hi
  · simp [Sys.setAttempt, Attempt.claims]
  · rw [hk] at hc
    cases hc

theorem tryAdmit (h : Inv s) (hk : s.attempts k = .picked i) :
    Inv (s.setAttempt k (.admitted i)) := by
  refine h.wait (k := k) (i := i) (by rw [hk]; rfl) (.setAttempt s k i _) rfl rfl ?_
    (fun i' hi => Attempt.eq_of_claims (by rw [hk]; rfl) hi)
    (fun _ _ _ => .inr (.inl ⟨k, ?_⟩)) fun _ _ _ hc => ?_
  · simp [Sys.setAttempt, Attempt.builds]
  · simp [Sys.setAttempt, Attempt.claims]
  · rw [hk] at hc
    cases hc

theorem claim (h : Inv s) (hk : s.attempts k = .admitted i)
    (hs : s.markTenantExportRunning i = some s') : Inv (s'.setAttempt k (.writing i)) := by
  obtain ⟨row, hrow, hpending, rfl⟩ := mark_eq hs
  have hnone : ∀ k', (s.attempts k').builds ≠ some i := by
    intro k' hc
    rcases (h.builds k' i hc).2.2 row hrow with hst | hst <;> rw [hpending] at hst <;> cases hst
  have hstored : ∀ i', ∀ k', (s.attempts k').stores = some i' → k' ≠ k := by
    rintro i' k' hc rfl
    rw [hk] at hc
    cases hc
  have hlt := h.lt_of_row hrow
  constructor <;> dsimp only [Sys.setAttempt]
  case fresh => grind [Function.update_apply, h.fresh]
  case sweeps => grind [Function.update_apply, h.sweeps]
  case builds =>
    intro k' i' hc
    by_cases hne : k' = k
    · subst hne
      rw [Function.update_self] at hc
      obtain rfl := Option.some.inj hc
      refine ⟨hlt, fun j hi => ?_, fun row' hrow' => .inl ?_⟩
      · rw [(h.sweeps j i hi).1] at hrow
        cases hrow
      · rw [Function.update_self] at hrow'
        obtain rfl := Option.some.inj hrow'
        rfl
    · rw [Function.update_of_ne hne] at hc
      have hi : i' ≠ i := by
        rintro rfl
        exact hnone k' hc
      rw [Function.update_of_ne hi]
      exact h.builds k' i' hc
  case unique => grind [Function.update_apply, h.unique, Attempt.builds]
  case written => grind [Function.update_apply, h.written]
  case ready => grind [Function.update_apply, h.ready]
  case stored =>
    intro i' hfile
    rcases h.stored i' hfile with hr | ⟨k', hr⟩ | hr
    · left
      have hne : i' ≠ i := by
        rintro rfl
        simp [Sys.IsReady, hrow, hpending, TenantExportStatus.isReady] at hr
      simpa [Sys.IsReady, Function.update_of_ne hne] using hr
    · exact .inr (.inl ⟨k', by rwa [Function.update_of_ne (hstored i' k' hr)]⟩)
    · exact .inr (.inr hr)
  case pending =>
    intro i' row' hrow' hp
    have hne : i' ≠ i := by
      rintro rfl
      rw [Function.update_self] at hrow'
      obtain rfl := Option.some.inj hrow'
      cases hp
    rw [Function.update_of_ne hne] at hrow'
    rcases h.pending i' row' hrow' hp with hj | ⟨k', hc⟩ | hkill
    · exact .inl hj
    · have hk' : k' ≠ k := by
        rintro rfl
        rw [hk] at hc
        exact hne (Option.some.inj hc).symm
      exact .inr (.inl ⟨k', by rwa [Function.update_of_ne hk']⟩)
    · exact .inr (.inr hkill)
  case running =>
    intro i' row' hrow' hr
    by_cases hne : i' = i
    · subst hne
      exact .inl ⟨k, by simp [Attempt.claimed]⟩
    · rw [Function.update_of_ne hne] at hrow'
      rcases h.running i' row' hrow' hr with ⟨k', hc⟩ | hkill
      · have hk' : k' ≠ k := by
          rintro rfl
          rw [hk] at hc
          cases hc
        exact .inl ⟨k', by rwa [Function.update_of_ne hk']⟩
      · exact .inr hkill

theorem request (h : Inv s) (now : ℤ) : Inv (s.requestTenantExport now) := by
  unfold Sys.requestTenantExport
  split_ifs
  · exact h
  obtain ⟨hrow, hfile⟩ := h.fresh s.nextId (Nat.le_refl _)
  have hready : ∀ i, s.IsReady i → ((Function.update s.rows s.nextId
      (some ⟨.pending, now⟩) i).any fun row => row.status.isReady) = true := by
    intro i hi
    have hne : i ≠ s.nextId := by
      rintro rfl
      simp [Sys.IsReady, hrow] at hi
    rwa [Function.update_of_ne hne]
  constructor
  case stored => exact fun i hi => (h.stored i hi).imp_left (hready i)
  case builds =>
    intro k' i hc
    obtain ⟨hlt, hsweeps, hrows⟩ := h.builds k' i hc
    exact ⟨Nat.lt_succ_of_lt hlt, hsweeps, fun row hr => hrows row
      ((Function.update_of_ne (Nat.ne_of_lt hlt) _ _).symm.trans hr)⟩
  all_goals
    grind [Function.update_apply, h.fresh, h.sweeps, h.unique, h.written, h.ready, h.pending,
      h.running]

theorem kill (h : Inv s) : Inv { s.setAttempt k .idle with
    left := (s.attempts k).stores.toList ++ s.left
    killed := ((s.attempts k).claimed.or (s.attempts k).claims).toList ++ s.killed } := by
  have hframe : ∀ i, Frame s { s.setAttempt k .idle with
      left := (s.attempts k).stores.toList ++ s.left
      killed := ((s.attempts k).claimed.or (s.attempts k).claims).toList ++ s.killed } k i :=
    fun i => (Frame.setAttempt s k i .idle).trans (.lists _ k i (fun _ _ hi => hi)
      (fun _ hi => List.mem_append_right _ hi) fun _ hi => List.mem_append_right _ hi)
  rcases hb : (s.attempts k).builds with _ | i
  · obtain ⟨i, hi⟩ : ∃ i, ∀ i', (s.attempts k).claims = some i' ∨ (s.attempts k).claimed = some i' →
        i' = i := by
      rcases hc : (s.attempts k).claims with _ | i
      · rcases hc' : (s.attempts k).claimed with _ | i
        · exact ⟨0, fun i' hi => by rcases hi with hi | hi <;> cases hi⟩
        · exact ⟨i, fun i' hi => by rcases hi with hi | hi <;> cases hi; rfl⟩
      · exact ⟨i, fun i' hi => Attempt.eq_of_claims hc (hc ▸ hi)⟩
    have hkilled : (s.attempts k).claims = some i ∨ (s.attempts k).claimed = some i →
        i ∈ ((s.attempts k).claimed.or (s.attempts k).claims).toList ++ s.killed := by
      rintro (hc | hc)
      · rcases hc' : (s.attempts k).claimed with _ | i'
        · simp [hc]
        · rw [Attempt.claims_of_claimed hc'] at hc
          cases hc
      · simp [hc]
    refine h.wait hb (hframe i) rfl rfl (by simp [Sys.setAttempt]) hi (fun row hrow hp => ?_)
      fun row _ _ hc => hkilled (.inr hc)
    rcases h.pending i row hrow hp with hj | ⟨k', hc⟩ | hkill
    · exact .inl hj
    · by_cases hk' : k' = k
      · subst hk'
        exact .inr (.inr (hkilled (.inl hc)))
      · exact .inr (.inl ⟨k', by rwa [(hframe i).attempts k' hk']⟩)
    · exact .inr (.inr ((hframe i).killed i hkill))
  · have hc := Attempt.claimed_of_builds hb
    refine h.stay hb (hframe i) rfl (.inr ⟨by simp [Sys.setAttempt], by simp [hc]⟩)
      (fun n hw => by simp [Sys.setAttempt] at hw) fun hfile => .inr ?_
    rcases hst : (s.attempts k).stores with _ | i'
    · exact List.mem_append_right _ (h.left_of_stored hb hst hfile)
    · obtain rfl := Option.some.inj ((Attempt.builds_of_stores hst).symm.trans hb)
      simp

/-! ### Sweeps -/

theorem beginSweep (h : Inv s) {j : ℕ} {now : ℤ} (hj : s.sweeps j = []) :
    Inv (s.deleteExpiredTenantExports j now) := by
  have hkeep : ∀ i row, (s.rows i).filter (fun row => !Sys.expired row now) = some row →
      s.rows i = some row := fun i row hr => by
    simp only [Option.filter_eq_some_iff] at hr
    exact hr.1
  constructor <;> dsimp only [Sys.deleteExpiredTenantExports]
  case fresh =>
    intro i hi
    rw [(h.fresh i hi).1]
    exact ⟨rfl, (h.fresh i hi).2⟩
  case sweeps =>
    intro j' i hi
    by_cases hne : j' = j
    · subst hne
      rw [Function.update_self, List.mem_filter, List.mem_range] at hi
      refine ⟨?_, hi.1⟩
      rcases hrow : s.rows i with _ | row
      · rfl
      · have := hi.2
        simp only [hrow, Option.any_some, Bool.and_eq_true] at this
        simp [this.1]
    · rw [Function.update_of_ne hne] at hi
      rw [(h.sweeps j' i hi).1]
      exact ⟨rfl, (h.sweeps j' i hi).2⟩
  case builds =>
    intro k' i hc
    obtain ⟨hlt, hsweeps, hrows⟩ := h.builds k' i hc
    refine ⟨hlt, fun j' hi => ?_, fun row hrow => hrows row (hkeep i row hrow)⟩
    by_cases hne : j' = j
    · subst hne
      rw [Function.update_self, List.mem_filter] at hi
      obtain ⟨row, hrow, hready⟩ := (Option.any_eq_true _ _).mp hi.2
      rcases hrows row hrow with hst | hst <;>
        simp [hst, TenantExportStatus.isReady] at hready
    · rw [Function.update_of_ne hne] at hi
      exact hsweeps j' hi
  case unique => exact h.unique
  case written => exact h.written
  case ready => exact fun i row _ _ _ hrow hr => h.ready i row _ _ _ (hkeep i row hrow) hr
  case stored =>
    intro i hfile
    rcases h.stored i hfile with hr | hr | ⟨j', hr⟩ | hr
    · unfold Sys.IsReady at hr ⊢
      rcases hrow : s.rows i with _ | row
      · simp [hrow] at hr
      · rw [hrow] at hr
        rcases he : Sys.expired row now with _ | _
        · left
          simpa [hrow, he] using hr
        · refine .inr (.inr (.inl ⟨j, ?_⟩))
          rw [Function.update_self, List.mem_filter, List.mem_range]
          refine ⟨h.lt_of_row hrow, ?_⟩
          simpa [hrow, he] using hr
    · exact .inr (.inl hr)
    · have hne : j' ≠ j := by
        rintro rfl
        rw [hj] at hr
        cases hr
      exact .inr (.inr (.inl ⟨j', by rwa [Function.update_of_ne hne]⟩))
    · exact .inr (.inr (.inr hr))
  case pending => exact fun i row hrow hp => h.pending i row (hkeep i row hrow) hp
  case running => exact fun i row hrow hr => h.running i row (hkeep i row hrow) hr

theorem sweep (h : Inv s) {j : ℕ} {rest : List ℕ} (left : List ℕ) (files : ℕ → Archive)
    (hrest : ∀ i ∈ rest, i ∈ s.sweeps j) (hleft : ∀ i ∈ s.left, i ∈ left)
    (hfiles : ∀ i, files i = s.files i ∨ i ∈ s.sweeps j ∧ files i = .absent)
    (hgone : ∀ i ∈ s.sweeps j, i ∈ rest ∨ i ∈ left ∨ files i = .absent) :
    Inv { s with sweeps := Function.update s.sweeps j rest, left, files } := by
  have hkeep : ∀ i row, s.rows i = some row → files i = s.files i := by
    intro i row hrow
    rcases hfiles i with hf | ⟨hi, -⟩
    · exact hf
    · rw [(h.sweeps j i hi).1] at hrow
      cases hrow
  constructor <;> dsimp only
  case fresh =>
    intro i hi
    refine ⟨(h.fresh i hi).1, ?_⟩
    rcases hfiles i with hf | ⟨-, hf⟩
    · rw [hf]
      exact (h.fresh i hi).2
    · exact hf
  case sweeps =>
    intro j' i hi
    by_cases hne : j' = j
    · subst hne
      rw [Function.update_self] at hi
      exact h.sweeps j' i (hrest i hi)
    · rw [Function.update_of_ne hne] at hi
      exact h.sweeps j' i hi
  case builds =>
    intro k' i hc
    obtain ⟨hlt, hsweeps, hrows⟩ := h.builds k' i hc
    refine ⟨hlt, fun j' hi => ?_, hrows⟩
    by_cases hne : j' = j
    · subst hne
      rw [Function.update_self] at hi
      exact hsweeps j' (hrest i hi)
    · rw [Function.update_of_ne hne] at hi
      exact hsweeps j' hi
  case unique => exact h.unique
  case written =>
    intro k' i byteSize hw
    have hgone : i ∉ s.sweeps j := (h.builds k' i (by rw [hw]; rfl)).2.1 j
    rw [(hfiles i).resolve_right fun hi => hgone hi.1]
    exact h.written k' i byteSize hw
  case ready =>
    intro i row byteSize completedAt expiresAt hrow hr
    rw [hkeep i row hrow]
    exact h.ready i row _ _ _ hrow hr
  case stored =>
    intro i hfile
    have hne : files i = s.files i := by
      rcases hfiles i with hf | ⟨-, hf⟩
      · exact hf
      · exact absurd hf hfile
    rcases h.stored i (by rwa [← hne]) with hr | hr | ⟨j', hr⟩ | hr
    · exact .inl hr
    · exact .inr (.inl hr)
    · by_cases hj : j' = j
      · subst hj
        rcases hgone i hr with hg | hg | hg
        · exact .inr (.inr (.inl ⟨j', by rwa [Function.update_self]⟩))
        · exact .inr (.inr (.inr hg))
        · exact absurd hg hfile
      · exact .inr (.inr (.inl ⟨j', by rwa [Function.update_of_ne hj]⟩))
    · exact .inr (.inr (.inr (hleft i hr)))
  case pending => exact h.pending
  case running => exact h.running

theorem step {act : Act} (h : Inv s) (hok : Claims s act) (hs : step s act = some s') :
    Inv s' := by
  cases act with
  | request now =>
    obtain rfl := Option.some.inj hs
    exact h.request now
  | setTenantActive active =>
    obtain rfl := Option.some.inj hs
    exact ⟨h.fresh, h.sweeps, h.builds, h.unique, h.written, h.ready, h.stored, h.pending,
      h.running⟩
  | pick k i =>
    simp only [TenantExports.step] at hs
    split_ifs at hs with hk
    obtain rfl := Option.some.inj hs
    exact h.pick hk.1
  | tryAdmit k =>
    simp only [TenantExports.step] at hs
    split at hs
    · rename_i i hk
      obtain rfl := Option.some.inj hs
      split_ifs with ha
      · exact h.tryAdmit hk
      · exact h.giveUp (i := i) (by rw [hk]; rfl) (hok.resolve_left ha)
    · cases hs
  | failAdmit k | failClaim k =>
    simp only [TenantExports.step] at hs
    split at hs
    · rename_i i hk
      obtain rfl := Option.some.inj hs
      exact h.giveUp (i := i) (by rw [hk]; rfl) hok
    · cases hs
  | claim k =>
    simp only [TenantExports.step] at hs
    split at hs
    · rename_i i hk
      split at hs
      · rename_i s₁ hm
        obtain rfl := Option.some.inj hs
        exact h.claim hk hm
      · rename_i hm
        obtain rfl := Option.some.inj hs
        refine h.giveUp (i := i) (by rw [hk]; rfl) ?_
        rintro ⟨i', row, hc, hrow, hp⟩
        rw [hk] at hc
        obtain rfl := Option.some.inj hc
        rw [Sys.markTenantExportRunning, ← hp, mark_of_row _ hrow] at hm
        cases hm
    · cases hs
  | write k =>
    simp only [TenantExports.step] at hs
    split at hs
    · rename_i i hk
      obtain rfl := Option.some.inj hs
      exact h.goOn (by rw [hk]; rfl) (.setFile s k i .part) rfl hk rfl nofun fun _ => .inl rfl
    · cases hs
  | finishArchive k byteSize =>
    simp only [TenantExports.step] at hs
    split at hs
    · rename_i i hk
      obtain rfl := Option.some.inj hs
      refine h.stay (k := k) (i := i) (by rw [hk]; rfl)
        ((Frame.setFile s k i _).trans (.setAttempt _ k i _)) rfl (.inl ?_) (fun n hw => ?_)
        fun _ => .inl ?_
      · simp [Sys.setAttempt, Attempt.claimed]
      · simp only [Sys.setAttempt, Function.update_self, Attempt.written.injEq, true_and] at hw
        simp [Sys.setFile, Sys.setAttempt, hw]
      · simp [Sys.setAttempt, Attempt.stores]
    · cases hs
  | failArchive k cause stored =>
    simp only [TenantExports.step] at hs
    split at hs
    · rename_i i hk
      obtain rfl := Option.some.inj hs
      exact h.goOn (by rw [hk]; rfl) ((Frame.setFile s k i _).trans (.setAttempt _ k i _)) rfl
        (Function.update_self ..) rfl nofun fun _ => .inl rfl
    · cases hs
  | markReady k now =>
    simp only [TenantExports.step] at hs
    split at hs
    · rename_i i byteSize hk
      have hc : (s.attempts k).builds = some i := by rw [hk]; rfl
      split at hs
      · rename_i s₁ hm
        obtain rfl := Option.some.inj hs
        refine h.finish s₁.jobs hc hm (.inl rfl) nofun ?_ nofun (fun n c e he => ?_)
          fun _ => .inl rfl
        · obtain ⟨row, -, -, rfl⟩ := mark_eq hm
          exact fun _ hi => hi
        · simp only [TenantExportStatus.ready.injEq] at he
          rw [h.written k i byteSize hk, he.1]
      · obtain rfl := Option.some.inj hs
        exact h.goOn hc (.setAttempt s k i _) rfl (Function.update_self ..) rfl (fun _ => nofun)
          fun _ => .inl rfl
    · cases hs
  | failMarkReady k =>
    simp only [TenantExports.step] at hs
    split at hs
    · rename_i i byteSize hk
      obtain rfl := Option.some.inj hs
      exact h.goOn (by rw [hk]; rfl) (.setAttempt s k i _) rfl (Function.update_self ..) rfl nofun
        fun _ => .inl rfl
    · cases hs
  | loseMarkReady k now => exact hok.elim
  | deletePartial k deleted =>
    simp only [TenantExports.step] at hs
    split at hs
    · rename_i i cause hk
      have hnext : (cause.next i).claimed = some i ∧ ∀ n, cause.next i ≠ .written i n := by
        cases cause <;> exact ⟨rfl, nofun⟩
      split_ifs at hs with hd
      · obtain rfl := Option.some.inj hs
        refine h.goOn (by rw [hk]; rfl) ((Frame.setFile s k i _).trans (.setAttempt _ k i _)) rfl
          (Function.update_self ..) hnext.1 hnext.2 fun hfile => ?_
        simp [Sys.setAttempt, Sys.setFile] at hfile
      · obtain rfl := Option.some.inj hs
        exact h.goOn (by rw [hk]; rfl)
          ((Frame.setAttempt s k i _).trans (.lists _ k i (fun _ _ hi => hi)
            (fun _ hi => List.mem_cons_of_mem _ hi) fun _ hi => hi)) rfl
          (Function.update_self ..) hnext.1 hnext.2 fun _ => .inr List.mem_cons_self
    · cases hs
  | requeue k =>
    simp only [TenantExports.step] at hs
    split at hs
    · rename_i i hk
      split at hs
      · rename_i s₁ hm
        obtain rfl := Option.some.inj hs
        exact h.requeue hk hm (.inl rfl)
      · obtain rfl := Option.some.inj hs
        exact h.abandon hk
    · cases hs
  | failRequeue k =>
    simp only [TenantExports.step] at hs
    split at hs
    · rename_i i hk
      obtain rfl := Option.some.inj hs
      exact h.abandon hk
    · cases hs
  | loseRequeue k =>
    simp only [TenantExports.step] at hs
    split at hs
    · rename_i i hk
      obtain ⟨s₁, hm, rfl⟩ := Option.map_eq_some_iff.mp hs
      exact h.requeue hk hm (.inr rfl)
    · cases hs
  | markFailed k =>
    simp only [TenantExports.step] at hs
    split at hs
    · rename_i i hk
      split at hs
      · rename_i s₁ hm
        obtain rfl := Option.some.inj hs
        exact h.markFailed hk hm
      · rename_i hm
        obtain rfl := Option.some.inj hs
        exact h.notMarked hk hm
    · cases hs
  | failMarkFailed k => exact hok.elim
  | kill k =>
    obtain rfl := Option.some.inj hs
    exact h.kill
  | beginSweep j now =>
    simp only [TenantExports.step] at hs
    split_ifs at hs with hj
    obtain rfl := Option.some.inj hs
    exact h.beginSweep hj.2
  | sweepDelete j deleted =>
    simp only [TenantExports.step] at hs
    split at hs
    · rename_i i rest hj
      split_ifs at hs with hd
      · obtain rfl := Option.some.inj hs
        refine h.sweep s.left _ (fun i' hi => ?_) (fun _ hi => hi) (fun i' => ?_)
          fun i' hi => ?_
        · rw [hj]
          exact List.mem_cons_of_mem _ hi
        · by_cases hne : i' = i
          · subst hne
            exact .inr ⟨by rw [hj]; exact List.mem_cons_self, Function.update_self _ _ _⟩
          · exact .inl (Function.update_of_ne hne _ _)
        · rw [hj] at hi
          rcases List.mem_cons.mp hi with rfl | hi
          · exact .inr (.inr (Function.update_self _ _ _))
          · exact .inl hi
      · obtain rfl := Option.some.inj hs
        refine h.sweep _ s.files (fun i' hi => ?_) (fun _ hi => List.mem_cons_of_mem _ hi)
          (fun _ => .inl rfl) fun i' hi => ?_
        · rw [hj]
          exact List.mem_cons_of_mem _ hi
        · rw [hj] at hi
          rcases List.mem_cons.mp hi with rfl | hi
          · exact .inr (.inl List.mem_cons_self)
          · exact .inl hi
    · cases hs
  | killSweep j =>
    obtain rfl := Option.some.inj hs
    exact h.sweep _ s.files nofun (fun _ hi => List.mem_append_right _ hi)
      (fun _ => .inl rfl) fun _ hi => .inr (.inl (List.mem_append_left _ hi))

theorem leftByDesign (h : Inv s) : s.LeftByDesign where
  ready := h.ready
  stored := h.stored
  active := fun i row hrow ha => by
    rcases hst : row.status with _ | _ | _ | _
    · rcases h.pending i row hrow hst with hj | ⟨k, hc⟩ | hkill
      · exact .inl (.inl hj)
      · exact .inl (.inr ⟨k, .inl hc⟩)
      · exact .inr hkill
    · rcases h.running i row hrow hst with ⟨k, hc⟩ | hkill
      · exact .inl (.inr ⟨k, .inr hc⟩)
      · exact .inr hkill
    · rw [hst] at ha
      cases ha
    · rw [hst] at ha
      cases ha

end Inv

/-! ## The exports of a tenant -/

/-- Whatever is interrupted, a ready row has its archive, and only a process that ended or a delete
that failed leaves an export or an archive with nothing to take it on. -/
theorem leftByDesign_of_claims {s : Sys} (h : Reach step Claims .init s) : s.LeftByDesign :=
  (h.invariant Inv.init fun _ _ _ hi hok hstep => hi.step hok hstep).leftByDesign

/-- Decides `Claims` for an active tenant whose transactions all answer. -/
def answered (s : Sys) : Act → Bool
  | .tryAdmit _ => s.active
  | .failAdmit _ | .failClaim _ | .loseMarkReady _ _ | .failMarkFailed _ => false
  | _ => true

theorem claims_of_answered {s : Sys} {a : Act} (h : answered s a = true) : Claims s a := by
  cases a with
  | tryAdmit k => exact .inl h
  | failAdmit k => cases h
  | failClaim k => cases h
  | loseMarkReady k now => cases h
  | failMarkFailed k => cases h
  | _ => trivial

section

def interruptedBuild : List Act :=
  [.request 0, .pick 0 0, .tryAdmit 0, .claim 0, .write 0, .failArchive 0 .interrupted .part,
    .deletePartial 0 true, .requeue 0, .pick 1 0, .tryAdmit 1, .claim 1, .finishArchive 1 9,
    .markReady 1 5]

theorem leftByDesign_interruptedBuild : ∃ s, runActs step .init interruptedBuild = some s ∧
    s.LeftByDesign ∧ s.files 0 = .full 9 := by
  obtain ⟨s, hs⟩ := Option.isSome_iff_exists.mp
    (show (runChecked step answered .init interruptedBuild).isSome = true by decide +kernel)
  refine ⟨s, runActs_of_runChecked hs,
    leftByDesign_of_claims (.of_runChecked (fun _ _ => claims_of_answered) hs), ?_⟩
  exact eq_of_map_eq (f := fun s => s.files 0) (b := .full 9) hs (by decide +kernel)

def afterKill : ℕ → Attempt :=
  Function.update (Function.update (Function.update (Function.update (fun _ => .idle) 0
    (.picked 0)) 0 (.admitted 0)) 0 (.writing 0)) 0 .idle

theorem afterKill_eq (k : ℕ) : afterKill k = .idle := by
  unfold afterKill
  by_cases hk : k = 0
  · subst hk
    simp
  · simp [Function.update_of_ne hk]

/-- The process of a build is killed: its row stays running, and the tenant's next request is
answered with it. -/
theorem killedBuild_not_neverStuck :
    ∃ s, Reach step (fun _ _ => True) .init s ∧ ¬ s.NeverStuck ∧
      s.requestTenantExport 1 = s := by
  have hrun : runActs step .init [.request 0, .pick 0 0, .tryAdmit 0, .claim 0, .kill 0] = some _ :=
    rfl
  refine ⟨_, .of_runActs hrun, fun h => ?_, rfl⟩
  rcases h.active 0 ⟨.running, 0⟩ rfl rfl with hj | ⟨k, hk⟩
  · cases hj
  · have hk : (afterKill k).claims = some 0 ∨ (afterKill k).claimed = some 0 := hk
    rw [afterKill_eq] at hk
    rcases hk with hk | hk <;> cases hk

end

end TenantExports

end Semprec
