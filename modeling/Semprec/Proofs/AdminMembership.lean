import Semprec.Proofs.AccountTables

/-!
# An active admin always remains

The guards count admins, a fact about rows their transactions do not lock.  It stays true until the
commit because only a transaction with the membership lock takes an active admin away: every other
keeps them all (`AdminGuarantee.keeps`).  So a transaction that holds the lock has, from its guard
on, an active admin that its own writes spare (`Others`).
-/

namespace Semprec

namespace AccountAccess

open ReadCommitted (Sound Stable Compatible Programs)

def Tables.ActiveAdmin (t : Tables) (userId tenantId : ℕ) : Prop :=
  ∃ u ∈ t.users, u.id = userId ∧ u.tenantId = tenantId ∧ u.role = .admin ∧
    t.tenantStatus tenantId = some .active

def Write.Spares (w : Write) (i T : ℕ) : Prop :=
  match w with
  | .setTenantStatus tenantId status => status = .active ∨ tenantId ≠ T
  | .setUserRole userId role => role = .admin ∨ userId ≠ i
  | .deleteUser userId => userId ≠ i
  | .deleteTenant tenantId => tenantId ≠ T
  | _ => True

namespace Tables

variable {t t' : Tables} {w : Write} {ws : List Write} {i T : ℕ} {u : UserRow}

theorem adminRemains_iff : t.AdminRemains ↔ ∃ i T, t.ActiveAdmin i T := by
  constructor
  · rintro ⟨u, hu, hrole, hstatus⟩
    exact ⟨u.id, u.tenantId, u, hu, rfl, rfl, hrole, hstatus⟩
  · rintro ⟨i, T, u, hu, rfl, rfl, hrole, hstatus⟩
    exact ⟨u, hu, hrole, hstatus⟩

theorem ActiveAdmin.active (h : t.ActiveAdmin i T) : t.tenantStatus T = some .active := by
  obtain ⟨_, _, _, _, _, hstatus⟩ := h
  exact hstatus

theorem ActiveAdmin.of_mem (h : t.ActiveAdmin u.id T) (hu : u ∈ t.users) :
    u.tenantId = T ∧ u.role = .admin := by
  obtain ⟨v, hv, hid, htenant, hrole, -⟩ := h
  rw [eq_of_id hu hv hid.symm]
  exact ⟨htenant, hrole⟩

theorem ActiveAdmin.updateUser {f : UserRow → UserRow} {userId : ℕ}
    (hf : ∀ u, (f u).id = u.id ∧ (f u).tenantId = u.tenantId)
    (hrole : ∀ u, u.id = i → u.id = userId → u.role = .admin → (f u).role = .admin)
    (h : t.ActiveAdmin i T) : (t.updateUser userId f hf).ActiveAdmin i T := by
  obtain ⟨u, hu, hid, htenant, hadmin, hstatus⟩ := h
  refine ⟨_, List.mem_map_of_mem hu, ?_⟩
  by_cases hi : u.id = userId
  · rw [if_pos hi]
    exact ⟨(hf u).1.trans hid, (hf u).2.trans htenant, hrole u hid hi hadmin, hstatus⟩
  · rw [if_neg hi]
    exact ⟨hid, htenant, hadmin, hstatus⟩

theorem ActiveAdmin.apply (h : t.ActiveAdmin i T) (hw : w.Spares i T) :
    (t.apply w).ActiveAdmin i T := by
  rcases w with ⟨tenantId, status⟩ | ⟨userId, role⟩ | ⟨userId, passwordHash⟩ | _ | _ | _ | _ | _ |
    ⟨userId⟩ | ⟨tenantId⟩
  case setTenantStatus =>
    obtain ⟨u, hu, hid, htenant, hrole, hstatus⟩ := h
    refine ⟨u, hu, hid, htenant, hrole, ?_⟩
    rw [tenantStatus_setTenantStatus, hstatus, Option.map_some]
    rcases hw with rfl | hne
    · simp
    · rw [if_neg hne.symm]
  case setUserRole =>
    exact h.updateUser (f := fun u => { u with role }) (fun _ => ⟨rfl, rfl⟩)
      fun u hi hid hadmin => hw.elim id fun hne => absurd (hid.symm.trans hi) hne
  case setPasswordHash =>
    exact h.updateUser (f := fun u => { u with passwordHash }) (fun _ => ⟨rfl, rfl⟩)
      fun u _ _ hadmin => hadmin
  case deleteUser =>
    obtain ⟨u, hu, hid, hrest⟩ := h
    have hne : u.id ≠ userId := fun he => hw (he.symm.trans hid)
    exact ⟨u, List.mem_filter.mpr ⟨hu, by simpa using hne⟩, hid, hrest⟩
  case deleteTenant =>
    obtain ⟨u, hu, hid, htenant, hrole, hstatus⟩ := h
    exact ⟨u, hu, hid, htenant, hrole,
      (tenantStatus_deleteTenant_of_ne (Ne.symm hw)).trans hstatus⟩
  all_goals exact h

theorem ActiveAdmin.foldl (h : t.ActiveAdmin i T) (hws : ∀ w ∈ ws, w.Spares i T) :
    (ws.foldl Tables.apply t).ActiveAdmin i T := by
  induction ws generalizing t with
  | nil => exact h
  | cons w ws ih =>
    exact ih (h.apply (hws w List.mem_cons_self)) fun x hx => hws x (List.mem_cons_of_mem w hx)

def Others (P : ℕ → ℕ → Prop) (t : Tables) : Prop :=
  ∃ i T, P i T ∧ t.ActiveAdmin i T

theorem others_of_remaining {targetUserId tenantId : ℕ}
    (h : (t.remaining targetUserId).isEmpty = false) (hof : t.UserOf targetUserId tenantId) :
    t.Others fun i T => i ≠ targetUserId ∧ T ≠ tenantId := by
  obtain ⟨u, hu⟩ := List.exists_mem_of_ne_nil _ (by simpa using h)
  obtain ⟨hmem, hcond⟩ := List.mem_filter.mp hu
  simp only [Bool.and_eq_true, beq_iff_eq, bne_iff_ne, ne_eq] at hcond
  exact ⟨u.id, u.tenantId, ⟨hcond.2, fun hT => hcond.2 ((hof u hmem).mpr hT)⟩,
    u, hmem, rfl, rfl, hcond.1.1, hcond.1.2⟩

end Tables

structure AdminGuarantee (ls : List Lock) (t t' : Tables) : Prop where
  statuses : StatusesLocked ls t t'
  users : t.UsersKept t'
  keeps : .adminMembership ∉ ls → ∀ i T, t.ActiveAdmin i T → t'.ActiveAdmin i T
  remains : t.AdminRemains → t'.AdminRemains

section sound

variable {ls : List Lock} {A : Tables → Prop} {P : ℕ → ℕ → Prop} {ws : List Write} {l : Lock}
  {next : Transaction} {userId tenantId : ℕ}

abbrev AdminSound : Transaction → List Lock → (Tables → Prop) → List Write → Prop :=
  SoundTx AdminGuarantee Tables.AdminRemains

theorem stable_others (hl : .adminMembership ∈ ls) :
    StableTx AdminGuarantee ls (Tables.Others P) := by
  rintro t t' ⟨ms, hc, hg⟩ ⟨i, T, hP, h⟩
  exact ⟨i, T, hP, hg.keeps (not_mem_adminMembership hc hl) i T h⟩

theorem stable_userOf : StableTx AdminGuarantee ls (Tables.UserOf userId tenantId) := by
  rintro t t' ⟨ms, -, hg⟩ h
  exact h.kept hg.users

def Sparing (P : ℕ → ℕ → Prop) (ls : List Lock) (ws : List Write) : Prop :=
  WritesLocked ls ws ∧ ∀ w ∈ ws, ∀ i T, P i T → w.Spares i T

theorem sparing_nil : Sparing P ls [] :=
  ⟨fun _ h => absurd h List.not_mem_nil, fun _ h => absurd h List.not_mem_nil⟩

theorem Sparing.cons (h : Sparing P ls ws) : Sparing P (l :: ls) ws :=
  ⟨h.1.cons, h.2⟩

theorem Sparing.snoc {w : Write} (h : Sparing P ls ws)
    (hlocked : ∀ T ∈ w.tenant, TenantLocked ls T) (hw : ∀ i T, P i T → w.Spares i T) :
    Sparing P ls (ws ++ [w]) := by
  refine ⟨h.1.snoc hlocked, fun x hx => ?_⟩
  rcases List.mem_append.mp hx with hx | hx
  · exact h.2 x hx
  · rw [List.mem_singleton.mp hx]
    exact hw

theorem Sparing.snoc_neutral {w : Write} (h : Sparing P ls ws) (ht : w.tenant = none)
    (hw : ∀ i T, w.Spares i T) : Sparing P ls (ws ++ [w]) :=
  h.snoc (fun T hT => by rw [ht] at hT; exact absurd hT (Option.not_mem_none T))
    fun i T _ => hw i T

theorem sound_commit_of_all (hA : ∀ t, A t → ∀ i T, t.ActiveAdmin i T → P i T)
    (h : Sparing P ls ws) : AdminSound .commit ls A ws := by
  intro t hi ha
  have hkeeps : ∀ i T, t.ActiveAdmin i T → (ws.foldl Tables.apply t).ActiveAdmin i T :=
    fun i T hadmin => hadmin.foldl fun w hw => h.2 w hw i T (hA t ha i T hadmin)
  refine ⟨h.1.statuses, Tables.usersKept_foldl, fun _ => hkeeps, fun _ => ?_⟩
  obtain ⟨i, T, hadmin⟩ := Tables.adminRemains_iff.mp hi
  exact Tables.adminRemains_iff.mpr ⟨i, T, hkeeps i T hadmin⟩

theorem sound_commit_of_others (hl : .adminMembership ∈ ls) (h : Sparing P ls ws) :
    AdminSound .commit ls (Tables.Others P) ws := by
  rintro t - ⟨i, T, hP, hadmin⟩
  refine ⟨h.1.statuses, Tables.usersKept_foldl, fun hno => absurd hl hno, fun _ => ?_⟩
  exact Tables.adminRemains_iff.mpr ⟨i, T, hadmin.foldl fun w hw => h.2 w hw i T hP⟩

theorem sound_revokeUsers (hA : StableTx AdminGuarantee ls A)
    (hnext : ∀ ws, Sparing P ls ws → AdminSound next ls A ws) (h : Sparing P ls ws)
    (userIds : List ℕ) : AdminSound (revokeUsers next userIds) ls A ws := by
  induction userIds generalizing ws with
  | nil => exact hnext ws h
  | cons userId userIds ih =>
    refine sound_statement hA fun _ _ _ => sound_statement hA fun _ _ _ => ih ?_
    refine (h.snoc_neutral ?_ ?_).snoc_neutral ?_ ?_
    · rfl
    · exact fun _ _ => trivial
    · rfl
    · exact fun _ _ => trivial

theorem sound_transitionTenantStatus {sources : List TenantStatus} {target : TenantStatus}
    (hA : StableTx AdminGuarantee ls A) (h : Sparing P ls ws)
    (hspares : ∀ i T, P i T → target = .active ∨ tenantId ≠ T)
    (hnext : ∀ ws, Sparing P (.tenant tenantId .noKeyUpdate :: ls) ws →
      AdminSound next (.tenant tenantId .noKeyUpdate :: ls) A ws) :
    AdminSound (transitionTenantStatus tenantId sources target next) ls A ws := by
  refine sound_writeRow hA trivial trivial fun t _ ha _ =>
    ⟨A, hA.mono (List.subset_cons_self _ _), ha, hnext _ (h.cons.snoc ?_ hspares)⟩
  rintro T ⟨⟩
  exact .inl List.mem_cons_self

theorem sound_beginTenantDeletion {scope : ℕ} (hl : .adminMembership ∈ ls)
    (hP : ∀ i T, P i T → T ≠ tenantId) :
    AdminSound (beginTenantDeletion scope tenantId .commit) ls (Tables.Others P) [] := by
  unfold beginTenantDeletion
  split_ifs
  · refine sound_transitionTenantStatus (stable_others hl) sparing_nil
      (fun i T h => .inr (hP i T h).symm) fun ws hws => ?_
    have hl' : Lock.adminMembership ∈ Lock.tenant tenantId .noKeyUpdate :: ls :=
      List.mem_cons_of_mem _ hl
    refine sound_select (stable_others hl') fun t _ _ => ?_
    exact sound_revokeUsers (stable_others hl') (fun ws hws => sound_commit_of_others hl' hws) hws _
  · trivial

/-! ### The target of an account mutation -/

/-- What holds of the target from the moment it is read: unless it counts as an active admin there
is another one. -/
def Guarded (targetUserId : ℕ) (target : LockedTarget) (t : Tables) : Prop :=
  t.UserOf targetUserId target.tenantId ∧
    (target.isActiveAdmin = false → t.Others fun i T => i ≠ targetUserId ∧ T ≠ target.tenantId)

theorem stable_guarded {targetUserId : ℕ} {target : LockedTarget} (hl : .adminMembership ∈ ls) :
    StableTx AdminGuarantee ls (Guarded targetUserId target) := by
  intro t t' hr h
  exact ⟨stable_userOf t t' hr h.1, fun hno => stable_others hl t t' hr (h.2 hno)⟩

theorem sound_lockTarget {targetUserId : ℕ} {next : LockedTarget → Transaction}
    (hnext : ∀ target, AdminSound (next target) [.user targetUserId .update, .adminMembership]
      (Guarded targetUserId target) []) :
    AdminSound (lockTarget targetUserId next) [] (fun _ => True) [] := by
  have hl : Lock.adminMembership ∈ [Lock.adminMembership] := List.mem_cons_self
  have hl' : Lock.adminMembership ∈ [Lock.user targetUserId .update, .adminMembership] :=
    List.mem_cons_of_mem _ hl
  refine Sound.acquire <| Sound.read fun t hi _ => ?_
  simp only [List.foldl_nil]
  rcases hu : t.user targetUserId with _ | u
  · exact ⟨fun _ => True, ReadCommitted.stable_true, trivial, trivial⟩
  rcases hstatus : t.tenantStatus u.tenantId with _ | status
  · exact ⟨fun _ => True, ReadCommitted.stable_true, trivial, by simp [hstatus, Sound]⟩
  obtain ⟨hmem, rfl⟩ := Tables.user_eq_some hu
  -- the admin that remains now is another one, or the target under the status read here
  let known : ℕ → ℕ → Prop := fun i T =>
    i ≠ u.id ∧ T ≠ u.tenantId ∨ i = u.id ∧ status = .active
  refine ⟨fun t => t.UserOf u.id u.tenantId ∧ t.Others known, stable_userOf.and (stable_others hl),
    ⟨Tables.userOf_of_mem hmem, ?_⟩, ?_⟩
  · obtain ⟨i, T, hadmin⟩ := Tables.adminRemains_iff.mp hi
    refine ⟨i, T, ?_, hadmin⟩
    by_cases hid : i = u.id
    · subst hid
      have hT := (hadmin.of_mem hmem).1
      have hactive := hadmin.active
      rw [← hT, hstatus] at hactive
      exact .inr ⟨rfl, Option.some.inj hactive⟩
    · obtain ⟨v, hv, rfl, rfl, -, -⟩ := hadmin
      exact .inl ⟨hid, fun hT => hid ((Tables.userOf_of_mem hmem v hv).mpr hT)⟩
  · simp only [Option.bind_some, hstatus]
    refine Sound.acquire <| Sound.read fun t' _ hknown => ?_
    obtain ⟨hof, i, T, hiT, hadmin⟩ := hknown
    simp only [List.foldl_nil]
    rcases hu' : t'.user u.id with _ | u'
    · exact ⟨fun _ => True, ReadCommitted.stable_true, trivial, trivial⟩
    obtain ⟨hmem', hid'⟩ := Tables.user_eq_some hu'
    have htenant : u'.tenantId = u.tenantId := (hof u' hmem').mp hid'
    refine ⟨_, stable_guarded hl', ⟨htenant ▸ hof, fun hno => ⟨i, T, ?_, hadmin⟩⟩, hnext _⟩
    rcases hiT with hother | ⟨rfl, rfl⟩
    · rwa [htenant]
    · rw [← hid'] at hadmin
      simp [LockedTarget.isActiveAdmin, (hadmin.of_mem hmem').2] at hno

theorem sound_assertAnotherActiveAdminRemains {refused : Transaction}
    (hrefused : AdminSound refused ls (fun _ => True) [])
    (hnext : ∀ t, A t → (t.remaining userId).isEmpty = false →
      ∃ B, StableTx AdminGuarantee ls B ∧ B t ∧ AdminSound next ls B []) :
    AdminSound (assertAnotherActiveAdminRemains userId refused next) ls A [] := by
  refine Sound.read fun t _ ha => ?_
  change ∃ B, _ ∧ _ ∧ AdminSound (if (t.remaining userId).isEmpty then refused else next) ls B []
  by_cases hempty : (t.remaining userId).isEmpty = true
  · rw [if_pos hempty]
    exact ⟨fun _ => True, ReadCommitted.stable_true, trivial, hrefused⟩
  · rw [if_neg hempty]
    exact hnext t ha (by simpa using hempty)

/-- The guard, and what follows it either way. -/
theorem sound_guard {targetUserId : ℕ} {target : LockedTarget} (hl : .adminMembership ∈ ls)
    (hnext : AdminSound next ls
      (Tables.Others fun i T => i ≠ targetUserId ∧ T ≠ target.tenantId) []) :
    AdminSound (if target.isActiveAdmin then
        assertAnotherActiveAdminRemains targetUserId .rollback next else next)
      ls (Guarded targetUserId target) [] := by
  split_ifs with hactive
  · exact sound_assertAnotherActiveAdminRemains trivial fun t hguarded hremaining =>
      ⟨_, stable_others hl, Tables.others_of_remaining hremaining hguarded.1, hnext⟩
  · exact hnext.weaken fun t _ hguarded => hguarded.2 (by simpa using hactive)

/-! ### The transactions -/

theorem sound_suspendAccount (targetUserId : ℕ) :
    AdminSound (suspendAccount targetUserId) [] (fun _ => True) [] := by
  refine sound_lockTarget fun target => ?_
  dsimp only
  have hl : Lock.adminMembership ∈ [Lock.user targetUserId .update, .adminMembership] := by simp
  refine sound_guard hl (sound_transitionTenantStatus (stable_others hl) sparing_nil
    (fun i T (h : i ≠ targetUserId ∧ T ≠ target.tenantId) => .inr h.2.symm) fun ws hws => ?_)
  have hl' := List.mem_cons_of_mem (Lock.tenant target.tenantId .noKeyUpdate) hl
  exact sound_revokeUsers (stable_others hl') (fun ws hws => sound_commit_of_others hl' hws) hws
    [targetUserId]

theorem sound_commit (h : Sparing (fun _ _ => True) ls ws) : AdminSound .commit ls A ws :=
  sound_commit_of_all (fun _ _ _ _ _ => trivial) h

theorem sound_reactivateAccount (targetUserId : ℕ) :
    AdminSound (reactivateAccount targetUserId) [] (fun _ => True) [] := by
  refine sound_lockTarget fun target => ?_
  exact sound_transitionTenantStatus (stable_guarded (by simp)) sparing_nil
    (fun _ _ _ => .inl rfl) fun ws hws => sound_commit hws

theorem sound_updateUser {w : Write} {found : Tables → Bool} (hA : StableTx AdminGuarantee ls A)
    (htenant : w.tenant = none) (hw : ∀ i T, P i T → w.Spares i T)
    (hnext : ∀ ws, Sparing P (l :: ls) ws → AdminSound next (l :: ls) A ws) :
    AdminSound (writeRow l found w .rollback next) ls A [] :=
  sound_writeRow hA trivial trivial fun t _ ha _ =>
    ⟨A, hA.mono (List.subset_cons_self _ _), ha,
      hnext _ (sparing_nil.snoc (fun T hT => by simp [htenant] at hT) hw)⟩

theorem sound_changeAccountRole (targetUserId : ℕ) (role : UserRole) :
    AdminSound (changeAccountRole targetUserId role) [] (fun _ => True) [] := by
  have hl : Lock.adminMembership ∈ [Lock.user targetUserId .update, .adminMembership] := by simp
  have hdemote : ∀ T₀, AdminSound (writeRow (.user targetUserId .noKeyUpdate)
      (fun t => (t.user targetUserId).isSome) (.setUserRole targetUserId role) .rollback .commit)
      [.user targetUserId .update, .adminMembership]
      (Tables.Others fun i T => i ≠ targetUserId ∧ T ≠ T₀) [] := fun T₀ =>
    sound_updateUser (stable_others hl) rfl
      (fun i T (h : i ≠ targetUserId ∧ T ≠ T₀) => .inr h.1.symm)
      fun ws => sound_commit_of_others (List.mem_cons_of_mem _ hl)
  refine sound_lockTarget fun target => ?_
  dsimp only
  split_ifs with hsame hguard
  · exact sound_commit sparing_nil
  · simp only [Bool.and_eq_true, beq_iff_eq] at hguard
    have h := sound_guard hl (hdemote target.tenantId)
    rwa [if_pos hguard.1] at h
  · rcases role with _ | _
    · exact sound_updateUser (P := fun _ _ => True) (stable_guarded hl) rfl (fun _ _ _ => .inl rfl)
        fun ws => sound_commit
    · have hno : target.isActiveAdmin = false := by simpa using hguard
      exact (hdemote target.tenantId).weaken fun t _ h => h.2 hno

theorem sound_lockUserAndGuardLastAdmin {next : LockedTarget → Transaction}
    (hnext : ∀ locked, AdminSound (next locked) [.user userId .update, .adminMembership]
      (Tables.Others fun i T => i ≠ userId ∧ T ≠ locked.tenantId) []) :
    AdminSound (lockUserAndGuardLastAdmin userId next) [] (fun _ => True) [] :=
  sound_lockTarget fun locked => sound_guard (by simp) (hnext locked)

theorem sound_deleteOwnAccount (scope : ℕ) (lockedOut : Bool) (verifies : String → Bool) :
    AdminSound (deleteOwnAccount userId scope lockedOut verifies) [] (fun _ => True) [] := by
  refine sound_select ReadCommitted.stable_true fun t _ _ => ?_
  split
  · trivial
  split_ifs
  · trivial
  refine sound_lockUserAndGuardLastAdmin fun locked => ?_
  split_ifs
  · trivial
  · exact sound_beginTenantDeletion (by simp) fun _ _ h => h.2

theorem sound_deleteAccountAsAdmin (actorUserId : ℕ) :
    AdminSound (deleteAccountAsAdmin actorUserId userId) [] (fun _ => True) [] := by
  unfold deleteAccountAsAdmin
  split_ifs
  · trivial
  refine sound_select ReadCommitted.stable_true fun t _ _ => ?_
  split
  · trivial
  exact sound_lockUserAndGuardLastAdmin fun locked =>
    sound_beginTenantDeletion (by simp) fun _ _ h => h.2

theorem sound_guardAdmins (hl : .adminMembership ∈ ls)
    (hnext : AdminSound next ls (Tables.Others fun _ T => T ≠ tenantId) []) (userIds : List ℕ) :
    AdminSound (guardAdmins next userIds) ls
      (fun t => (t.Others fun _ T => T ≠ tenantId) ∨ ∃ i ∈ userIds, t.UserOf i tenantId) [] := by
  induction userIds with
  | nil => exact hnext.weaken fun t _ h => h.elim id fun ⟨i, hi, _⟩ => absurd hi List.not_mem_nil
  | cons userId userIds ih =>
    have hstable : StableTx AdminGuarantee ls fun t =>
        (t.Others fun _ T => T ≠ tenantId) ∨ ∃ i ∈ userIds, t.UserOf i tenantId := by
      rintro t t' hr (h | ⟨i, hi, hof⟩)
      · exact .inl (stable_others hl t t' hr h)
      · exact .inr ⟨i, hi, stable_userOf t t' hr hof⟩
    refine sound_assertAnotherActiveAdminRemains (sound_commit sparing_nil)
      fun t h hremaining => ⟨_, hstable, ?_, ih⟩
    rcases h with h | ⟨i, hi, hof⟩
    · exact .inl h
    rcases List.mem_cons.mp hi with rfl | hi
    · obtain ⟨j, T, hjT, hadmin⟩ := Tables.others_of_remaining hremaining hof
      exact .inl ⟨j, T, hjT.2, hadmin⟩
    · exact .inr ⟨i, hi, hof⟩

theorem sound_replayOneTenant (tenantId : ℕ) :
    AdminSound (replayOneTenant tenantId) [] (fun _ => True) [] := by
  refine Sound.acquire <| sound_selectForLock ReadCommitted.stable_true
    (sound_commit sparing_nil) fun t hi _ => ?_
  have hl : Lock.adminMembership ∈ [Lock.tenant tenantId .update, .adminMembership] := by simp
  have hdelete : AdminSound (beginTenantDeletion tenantId tenantId .commit)
      [.tenant tenantId .update, .adminMembership] (Tables.Others fun _ T => T ≠ tenantId) [] :=
    sound_beginTenantDeletion hl fun _ _ h => h
  simp only [List.foldl_nil]
  split
  · refine ⟨fun _ => True, ReadCommitted.stable_true, trivial, Sound.read fun t hi _ => ?_⟩
    have hguards := sound_guardAdmins hl hdelete
      (((t.usersOf tenantId).filter (·.role == .admin)).map (·.id))
    refine ⟨_, ?_, ?_, hguards⟩
    · rintro t t' hr (h | ⟨i, hi, hof⟩)
      · exact .inl (stable_others hl t t' hr h)
      · exact .inr ⟨i, hi, stable_userOf t t' hr hof⟩
    · obtain ⟨i, T, hadmin⟩ := Tables.adminRemains_iff.mp hi
      by_cases hT : T = tenantId
      · obtain ⟨u, hu, rfl, htenant, hrole, -⟩ := hadmin
        subst hT
        have hmem : u ∈ (t.usersOf T).filter (·.role == .admin) := by
          simp [Tables.usersOf, hu, htenant, hrole]
        exact .inr ⟨u.id, List.mem_map_of_mem hmem, htenant ▸ Tables.userOf_of_mem hu⟩
      · exact .inl ⟨i, T, hT, hadmin⟩
  · rename_i hsuspended
    obtain ⟨i, T, hadmin⟩ := Tables.adminRemains_iff.mp hi
    refine ⟨_, stable_others hl, ⟨i, T, fun hT => ?_, hadmin⟩, hdelete⟩
    have hactive := hadmin.active
    rw [hT, hsuspended] at hactive
    cases hactive
  · exact ⟨fun _ => True, ReadCommitted.stable_true, trivial, sound_commit sparing_nil⟩

variable (tenantId) in
/-- The users a purge deletes are of its tenant, whatever else is committed. -/
theorem stable_usersIn {userIds : List ℕ} : StableTx AdminGuarantee ls
    fun t => ∀ u ∈ t.users, u.id ∈ userIds → u.tenantId = tenantId := by
  rintro t t' ⟨ms, -, hg⟩ ha u' hu' hid
  obtain ⟨u, hu, hid', htenant⟩ := hg.users u' hu'
  rw [← htenant]
  exact ha u hu (hid' ▸ hid)

theorem sound_deleteUsers {userIds : List ℕ}
    (hnext : ∀ ls ws, Sparing (fun i T => i ∉ userIds ∧ T ≠ tenantId) ls ws →
      (∀ w ∈ ws, w.tenant = none) →
      AdminSound next ls (fun t => ∀ u ∈ t.users, u.id ∈ userIds → u.tenantId = tenantId) ws)
    (remaining : List ℕ) (hsub : remaining ⊆ userIds)
    (h : Sparing (fun i T => i ∉ userIds ∧ T ≠ tenantId) ls ws) (hws : ∀ w ∈ ws, w.tenant = none) :
    AdminSound (deleteUsers next remaining) ls
      (fun t => ∀ u ∈ t.users, u.id ∈ userIds → u.tenantId = tenantId) ws := by
  induction remaining generalizing ls ws with
  | nil => exact hnext ls ws h hws
  | cons userId remaining ih =>
    have hA := @stable_usersIn
    refine sound_statement (hA tenantId) fun _ _ _ => sound_statement (hA tenantId) fun _ _ _ =>
      sound_writeRow (hA tenantId) trivial trivial fun t _ ha _ =>
        ⟨_, stable_usersIn tenantId, ha, ih ?_ ?_ ?_⟩
    · exact fun x hx => hsub (List.mem_cons_of_mem _ hx)
    · refine ((h.cons.snoc_neutral ?_ ?_).snoc_neutral ?_ ?_).snoc nofun fun i T hiT hid => ?_
      · rfl
      · exact fun _ _ => trivial
      · rfl
      · exact fun _ _ => trivial
      · exact hiT.1 (hid ▸ hsub List.mem_cons_self)
    · intro w hw
      simp only [List.append_assoc, List.mem_append, List.mem_singleton] at hw
      rcases hw with hw | rfl | rfl | rfl
      · exact hws w hw
      all_goals rfl

theorem stable_tenantStatus (status : TenantStatus) (hl : TenantLocked ls tenantId) :
    StableTx AdminGuarantee ls fun t => t.tenantStatus tenantId = some status := by
  rintro t t' ⟨ms, hc, hg⟩ h
  by_contra hne
  exact not_tenantLocked hc hl (hg.statuses tenantId fun heq => hne (heq.trans h))

theorem sound_finalise (tenantId : ℕ) :
    AdminSound (finalise tenantId) [] (fun _ => True) [] := by
  refine sound_select ReadCommitted.stable_true fun _ _ _ => ?_
  split_ifs
  · refine Sound.read fun t _ _ => ?_
    refine ⟨_, stable_usersIn tenantId, ?_, sound_deleteUsers (fun ls ws h hws => ?_) _
      (List.Subset.refl _) sparing_nil fun _ hw => absurd hw List.not_mem_nil⟩
    · intro u hu hid
      obtain ⟨v, hv, hvid⟩ := List.mem_map.mp hid
      obtain ⟨hv, hvtenant⟩ := List.mem_filter.mp hv
      rw [← Tables.eq_of_id hv hu hvid]
      simpa using hvtenant
    refine sound_writeRow (stable_usersIn tenantId) trivial trivial fun t' _ hin hfound => ?_
    have hlocked : TenantLocked (.tenant tenantId .update :: ls) tenantId := .inr List.mem_cons_self
    refine ⟨_, (stable_usersIn tenantId).and (stable_tenantStatus .deleting hlocked), ⟨hin, ?_⟩, ?_⟩
    · obtain ⟨status, hmem, hstatus⟩ := Tables.tenantIn_iff.mp hfound
      rw [Tables.tenantStatus_foldl fun w hw => by simp [hws w hw],
        List.mem_singleton.mp hmem] at hstatus
      exact hstatus
    · refine sound_commit_of_all (fun t h i T hadmin => ?_)
        (h.cons.snoc (fun T hT => ?_) fun i T hiT => Ne.symm hiT.2)
      · have hT : T ≠ tenantId := by
          rintro rfl
          exact absurd (hadmin.active.symm.trans h.2) (by simp)
        obtain ⟨u, hu, rfl, rfl, -, -⟩ := hadmin
        exact ⟨fun hid => hT (h.1 u hu hid), hT⟩
      · cases hT
        exact hlocked
  · trivial

theorem sound_activateTenant (tenantId : ℕ) :
    AdminSound (activateTenant tenantId) [] (fun _ => True) [] := by
  refine sound_selectForLock ReadCommitted.stable_true trivial fun t _ _ =>
    ⟨fun _ => True, ReadCommitted.stable_true, trivial, ?_⟩
  split
  · refine sound_writeRow ReadCommitted.stable_true trivial trivial fun t _ _ _ =>
      ⟨fun _ => True, ReadCommitted.stable_true, trivial, sound_commit (sparing_nil.snoc ?_ ?_)⟩
    · rintro T ⟨⟩
      exact .inl List.mem_cons_self
    · exact fun _ _ _ => .inl rfl
  · exact sound_commit sparing_nil
  · exact sound_commit sparing_nil
  · trivial

theorem sound_lockUserTenantBinding {next : Option (ℕ × TenantStatus) → Transaction}
    (hnext : ∀ ls binding, AdminSound (next binding) ls (fun _ => True) []) :
    AdminSound (lockUserTenantBinding userId next) [] (fun _ => True) [] := by
  refine sound_selectForLock ReadCommitted.stable_true (hnext _ _) fun t _ _ =>
    ⟨fun _ => True, ReadCommitted.stable_true, trivial, ?_⟩
  split
  · exact hnext _ _
  · exact sound_selectForLock ReadCommitted.stable_true (hnext _ _) fun t _ _ =>
      ⟨fun _ => True, ReadCommitted.stable_true, trivial, hnext _ _⟩

theorem sound_login (email : String) (lockedOut : Bool) (verifies : String → Bool)
    (sessionId : ℕ) :
    AdminSound (login email lockedOut verifies sessionId) [] (fun _ => True) [] := by
  refine sound_select ReadCommitted.stable_true fun t _ _ => ?_
  split
  · trivial
  split_ifs
  · trivial
  refine sound_lockUserTenantBinding fun ls binding => ?_
  split
  · exact sound_statement ReadCommitted.stable_true fun _ _ _ =>
      sound_commit (sparing_nil.snoc_neutral rfl fun _ _ => trivial)
  · exact sound_commit sparing_nil

theorem sound_resetPassword (passwordHash : String) :
    AdminSound (resetPassword userId passwordHash) [] (fun _ => True) [] := by
  refine sound_lockUserTenantBinding fun ls binding => ?_
  have hrevoke : ∀ ls ws, Sparing (fun _ _ => True) ls ws →
      AdminSound (revokeUsers .commit [userId]) ls (fun _ => True) ws := fun ls ws h =>
    sound_revokeUsers ReadCommitted.stable_true (fun ws => sound_commit) h [userId]
  split
  · exact sound_writeRow ReadCommitted.stable_true (hrevoke _ _ sparing_nil)
      (hrevoke _ _ sparing_nil) fun t _ _ _ => ⟨fun _ => True, ReadCommitted.stable_true, trivial,
        hrevoke _ _ (sparing_nil.snoc_neutral rfl fun _ _ => trivial)⟩
  · trivial

theorem sound_transaction (o : Op) : AdminSound o.transaction [] (fun _ => True) [] := by
  rcases o with ⟨email, lockedOut, verifies, sessionId⟩ | ⟨userId, passwordHash⟩ | ⟨userId⟩ |
    ⟨userId⟩ | ⟨userId, role⟩ | ⟨userId, tenantId, lockedOut, verifies⟩ | ⟨actorUserId, userId⟩ |
    ⟨tenantId⟩ | ⟨tenantId⟩ | ⟨tenantId⟩
  · exact sound_login email lockedOut verifies sessionId
  · exact sound_resetPassword passwordHash
  · exact sound_suspendAccount userId
  · exact sound_reactivateAccount userId
  · exact sound_changeAccountRole userId role
  · exact sound_deleteOwnAccount tenantId lockedOut verifies
  · exact sound_deleteAccountAsAdmin actorUserId
  · exact sound_replayOneTenant tenantId
  · exact sound_finalise tenantId
  · exact sound_activateTenant tenantId

end sound

/-- In every committed state of every interleaving an active admin remains; a replay refuses the
last one as the others do. -/
theorem adminRemains_of_reach {tables : Tables} (h₀ : tables.AdminRemains) {s : Sys}
    (h : Reach step (fun _ _ => True) (Programs.init tables) s) :
    s.db.committed.AdminRemains :=
  ReadCommitted.committed_of_reach Lock.conflicts_symm (fun _ _ _ hg => hg.remains)
    sound_transaction h₀ h

def twoAdmins : Tables where
  users := [⟨0, 0, "a", .admin, "h"⟩, ⟨1, 1, "b", .admin, "h"⟩]
  tenants := [⟨0, .active⟩, ⟨1, .active⟩]
  sessions := [⟨0, 0, false⟩, ⟨1, 1, false⟩]
  pushSubscriptions := [⟨0, 1, false⟩]
  users_pkey := by decide
  users_tenant_id_key := by decide

def suspendEachOther : List Act :=
  ([.begin 0 (.suspendAccount 1), .begin 1 (.changeAccountRole 0 .member)] : List Act) ++
    List.replicate 11 (.run 0 : Act) ++ List.replicate 6 (.run 1 : Act)

theorem suspendEachOther_remains : ∃ s, runActs step (Programs.init twoAdmins) suspendEachOther =
    some s ∧ s.db.opened = ∅ ∧ s.db.committed.users.map (·.role) = [.admin, .admin] ∧
    s.db.committed.tenants.map (·.status) = [.active, .suspended] ∧
    s.db.committed.AdminRemains := by
  obtain ⟨s, hs⟩ := Option.isSome_iff_exists.mp (show
    (runActs step (Programs.init twoAdmins) suspendEachOther).isSome = true by decide +kernel)
  refine ⟨s, hs, eq_of_map_eq (f := fun s => s.db.opened) hs (by decide +kernel),
    eq_of_map_eq (f := fun s => s.db.committed.users.map (·.role)) hs (by decide +kernel),
    eq_of_map_eq (f := fun s => s.db.committed.tenants.map (·.status)) hs (by decide +kernel),
    adminRemains_of_reach ?_ (.of_runActs hs)⟩
  exact ⟨⟨0, 0, "a", .admin, "h"⟩, by simp [twoAdmins], rfl, rfl⟩

end AccountAccess

end Semprec
