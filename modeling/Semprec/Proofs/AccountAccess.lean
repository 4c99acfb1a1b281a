import Semprec.Proofs.AccountTables

/-!
# Suspension and deletion end access

Revocations are set-based: they see no session that is not committed yet.  A login commits its
session while it holds the tenant's row `FOR SHARE`, and who changes the tenant's status holds the
row against that from before the revocations until the commit, so the sessions the revocations see
are all there are (`stable_sessionsRevoked`).
-/

namespace Semprec

namespace AccountAccess

open ReadCommitted (Sound Stable Compatible Programs)

namespace Write

def sessionIds : Write → List ℕ
  | .revokeSessions ids => ids
  | _ => []

def pushSubscriptionIds : Write → List ℕ
  | .revokePushSubscriptions ids => ids
  | _ => []

def inserts : Write → Bool
  | .insertSession _ => true
  | _ => false

def deletesAccess : Write → Bool
  | .deleteSessions _ | .deletePushSubscriptions _ => true
  | _ => false

end Write

namespace Tables

variable {t t' : Tables} {w : Write} {ws : List Write} {T tenantId userId : ℕ}
  {row : SessionRow} {sub : PushSubscriptionRow}

theorem mem_sessions_apply (hw : w.inserts = false) (h : row ∈ (t.apply w).sessions)
    (hrow : row.revoked = false) : row ∈ t.sessions ∧ row.id ∉ w.sessionIds := by
  rcases w with _ | _ | _ | row' | ids | _ | ids | _ | _ | _
  case insertSession => cases hw
  case revokeSessions =>
    obtain ⟨x, hx, rfl⟩ := List.mem_map.mp h
    split_ifs at hrow ⊢ with hid
    exact ⟨hx, hid⟩
  case deleteSessions => exact ⟨List.mem_of_mem_filter h, List.not_mem_nil⟩
  all_goals exact ⟨h, List.not_mem_nil⟩

theorem mem_sessions_foldl (hws : ∀ w ∈ ws, w.inserts = false)
    (h : row ∈ (ws.foldl apply t).sessions) (hrow : row.revoked = false) :
    row ∈ t.sessions ∧ ∀ w ∈ ws, row.id ∉ w.sessionIds := by
  induction ws generalizing t with
  | nil => exact ⟨h, fun _ hw => absurd hw List.not_mem_nil⟩
  | cons w ws ih =>
    obtain ⟨hmem, hids⟩ := ih (fun x hx => hws x (List.mem_cons_of_mem w hx)) h
    obtain ⟨hmem, hid⟩ := mem_sessions_apply (hws w List.mem_cons_self) hmem hrow
    exact ⟨hmem, List.forall_mem_cons.mpr ⟨hid, hids⟩⟩

theorem mem_pushSubscriptions_apply (h : sub ∈ (t.apply w).pushSubscriptions)
    (hsub : sub.revoked = false) : sub ∈ t.pushSubscriptions ∧ sub.id ∉ w.pushSubscriptionIds := by
  rcases w with _ | _ | _ | _ | _ | ids | _ | ids | _ | _
  case revokePushSubscriptions =>
    obtain ⟨x, hx, rfl⟩ := List.mem_map.mp h
    split_ifs at hsub ⊢ with hid
    exact ⟨hx, hid⟩
  case deletePushSubscriptions => exact ⟨List.mem_of_mem_filter h, List.not_mem_nil⟩
  all_goals exact ⟨h, List.not_mem_nil⟩

theorem mem_pushSubscriptions_foldl (h : sub ∈ (ws.foldl apply t).pushSubscriptions)
    (hsub : sub.revoked = false) :
    sub ∈ t.pushSubscriptions ∧ ∀ w ∈ ws, sub.id ∉ w.pushSubscriptionIds := by
  induction ws generalizing t with
  | nil => exact ⟨h, fun _ hw => absurd hw List.not_mem_nil⟩
  | cons w ws ih =>
    obtain ⟨hmem, hids⟩ := ih h
    obtain ⟨hmem, hid⟩ := mem_pushSubscriptions_apply hmem hsub
    exact ⟨hmem, List.forall_mem_cons.mpr ⟨hid, hids⟩⟩

/-- Conversely, what the writes neither revoke nor delete is there after them. -/
theorem mem_sessions_of_not_mem (hws : ∀ w ∈ ws, w.deletesAccess = false) (h : row ∈ t.sessions)
    (hids : ∀ w ∈ ws, row.id ∉ w.sessionIds) : row ∈ (ws.foldl apply t).sessions := by
  induction ws generalizing t with
  | nil => exact h
  | cons w ws ih =>
    obtain ⟨hid, hids⟩ := List.forall_mem_cons.mp hids
    obtain ⟨hw, hws⟩ := List.forall_mem_cons.mp hws
    refine ih hws ?_ hids
    rcases w with _ | _ | _ | _ | ids | _ | _ | _ | _ | _
    case insertSession => exact List.mem_append_left _ h
    case revokeSessions => exact List.mem_map.mpr ⟨row, h, if_neg hid⟩
    case deleteSessions => cases hw
    all_goals exact h

theorem mem_pushSubscriptions_of_not_mem (hws : ∀ w ∈ ws, w.deletesAccess = false)
    (h : sub ∈ t.pushSubscriptions) (hids : ∀ w ∈ ws, sub.id ∉ w.pushSubscriptionIds) :
    sub ∈ (ws.foldl apply t).pushSubscriptions := by
  induction ws generalizing t with
  | nil => exact h
  | cons w ws ih =>
    obtain ⟨hid, hids⟩ := List.forall_mem_cons.mp hids
    obtain ⟨hw, hws⟩ := List.forall_mem_cons.mp hws
    refine ih hws ?_ hids
    rcases w with _ | _ | _ | _ | _ | ids | _ | _ | _ | _
    case revokePushSubscriptions => exact List.mem_map.mpr ⟨sub, h, if_neg hid⟩
    case deletePushSubscriptions => cases hw
    all_goals exact h

theorem tenantStatus_deleteTenant_self :
    (t.apply (.deleteTenant tenantId)).tenantStatus tenantId = none := by
  simp [apply, tenantStatus]

def SessionsRevoked (tenantId : ℕ) (remaining : List ℕ) (ws : List Write) (t : Tables) : Prop :=
  ∀ u ∈ t.users, u.tenantId = tenantId → u.id ∉ remaining → ∀ row ∈ t.sessions,
    row.userId = u.id → row.revoked = false → ∃ w ∈ ws, row.id ∈ w.sessionIds

def PushRevoked (tenantId : ℕ) (remaining : List ℕ) (ws : List Write) (t : Tables) : Prop :=
  ∀ u ∈ t.users, u.tenantId = tenantId → u.id ∉ remaining → ∀ sub ∈ t.pushSubscriptions,
    sub.userId = u.id → sub.revoked = false → ∃ w ∈ ws, sub.id ∈ w.pushSubscriptionIds

variable {remaining : List ℕ}

theorem SessionsRevoked.snoc (h : t.SessionsRevoked tenantId remaining ws) (w : Write) :
    t.SessionsRevoked tenantId remaining (ws ++ [w]) := by
  intro u hu htenant hrem row hrow huser hactive
  obtain ⟨x, hx, hid⟩ := h u hu htenant hrem row hrow huser hactive
  exact ⟨x, List.mem_append_left _ hx, hid⟩

theorem PushRevoked.snoc (h : t.PushRevoked tenantId remaining ws) (w : Write) :
    t.PushRevoked tenantId remaining (ws ++ [w]) := by
  intro u hu htenant hrem sub hsub huser hactive
  obtain ⟨x, hx, hid⟩ := h u hu htenant hrem sub hsub huser hactive
  exact ⟨x, List.mem_append_left _ hx, hid⟩

/-- What `revokeAllSessionsForUser` does for the next user. -/
theorem SessionsRevoked.revoke (hws : ∀ w ∈ ws, w.deletesAccess = false)
    (h : t.SessionsRevoked tenantId (userId :: remaining) ws) :
    t.SessionsRevoked tenantId remaining
      (ws ++ [Write.revokeSessions ((ws.foldl apply t).activeSessionIds userId)]) := by
  intro u hu htenant hrem row hrow huser hactive
  by_cases hid : u.id = userId
  · by_cases hrevoked : ∃ w ∈ ws, row.id ∈ w.sessionIds
    · obtain ⟨w, hw, hmem⟩ := hrevoked
      exact ⟨w, List.mem_append_left _ hw, hmem⟩
    · have hview := mem_sessions_of_not_mem hws hrow fun w hw hmem => hrevoked ⟨w, hw, hmem⟩
      refine ⟨_, List.mem_append_right _ (List.mem_singleton_self _), ?_⟩
      exact List.mem_map_of_mem (List.mem_filter.mpr ⟨hview, by simp [huser, hid, hactive]⟩)
  · exact h.snoc _ u hu htenant (by simp [hid, hrem]) row hrow huser hactive

theorem PushRevoked.revoke (hws : ∀ w ∈ ws, w.deletesAccess = false)
    (h : t.PushRevoked tenantId (userId :: remaining) ws) :
    t.PushRevoked tenantId remaining
      (ws ++
        [Write.revokePushSubscriptions ((ws.foldl apply t).activePushSubscriptionIds userId)]) := by
  intro u hu htenant hrem sub hsub huser hactive
  by_cases hid : u.id = userId
  · by_cases hrevoked : ∃ w ∈ ws, sub.id ∈ w.pushSubscriptionIds
    · obtain ⟨w, hw, hmem⟩ := hrevoked
      exact ⟨w, List.mem_append_left _ hw, hmem⟩
    · have hview := mem_pushSubscriptions_of_not_mem hws hsub
        fun w hw hmem => hrevoked ⟨w, hw, hmem⟩
      refine ⟨_, List.mem_append_right _ (List.mem_singleton_self _), ?_⟩
      exact List.mem_map_of_mem (List.mem_filter.mpr ⟨hview, by simp [huser, hid, hactive]⟩)
  · exact h.snoc _ u hu htenant (by simp [hid, hrem]) sub hsub huser hactive

theorem AccessEnded.foldl (h : t.AccessEnded) (hws : ∀ w ∈ ws, w.inserts = false)
    (htenant : ∀ w ∈ ws, ∀ T ∈ w.tenant,
      (∀ status, (ws.foldl apply t).tenantStatus T = some status → status = .active) ∨
        t.SessionsRevoked T [] ws ∧ t.PushRevoked T [] ws) :
    (ws.foldl apply t).AccessEnded := by
  intro u' hu' status hstatus hne
  obtain ⟨u, hu, hid, htid⟩ := usersKept_foldl u' hu'
  rw [← htid] at hstatus
  rw [← hid]
  have hold : (∀ w ∈ ws, w.tenant ≠ some u.tenantId) ∨
      t.SessionsRevoked u.tenantId [] ws ∧ t.PushRevoked u.tenantId [] ws := by
    by_cases hwrites : ∃ w ∈ ws, w.tenant = some u.tenantId
    · obtain ⟨w, hw, hT⟩ := hwrites
      exact .inr ((htenant w hw _ hT).resolve_left fun hactive => hne (hactive status hstatus))
    · exact .inl fun w hw hT => hwrites ⟨w, hw, hT⟩
  rcases hold with hkept | ⟨hsessions, hpush⟩
  · rw [tenantStatus_foldl hkept] at hstatus
    obtain ⟨hended, hpended⟩ := h u hu status hstatus hne
    constructor
    · intro row hrow huser
      by_contra hactive
      have hactive : row.revoked = false := by simpa using hactive
      have := hended row (mem_sessions_foldl hws hrow hactive).1 huser
      simp [hactive] at this
    · intro sub hsub huser
      by_contra hactive
      have hactive : sub.revoked = false := by simpa using hactive
      have := hpended sub (mem_pushSubscriptions_foldl hsub hactive).1 huser
      simp [hactive] at this
  · constructor
    · intro row hrow huser
      by_contra hactive
      have hactive : row.revoked = false := by simpa using hactive
      obtain ⟨hmem, hids⟩ := mem_sessions_foldl hws hrow hactive
      obtain ⟨w, hw, hin⟩ := hsessions u hu rfl List.not_mem_nil row hmem huser hactive
      exact hids w hw hin
    · intro sub hsub huser
      by_contra hactive
      have hactive : sub.revoked = false := by simpa using hactive
      obtain ⟨hmem, hids⟩ := mem_pushSubscriptions_foldl hsub hactive
      obtain ⟨w, hw, hin⟩ := hpush u hu rfl List.not_mem_nil sub hmem huser hactive
      exact hids w hw hin

def UserIn (userId tenantId : ℕ) (t : Tables) : Prop :=
  ∀ u ∈ t.users, u.id = userId → u.tenantId = tenantId

end Tables

/-- What a commit does to access: a session is inserted by who holds the tenant's row `FOR SHARE`,
and no push registration is. -/
structure AccessGuarantee (ls : List Lock) (t t' : Tables) : Prop where
  statuses : StatusesLocked ls t t'
  users : t.UsersKept t'
  sessions : ∀ row ∈ t'.sessions, row.revoked = false →
    row ∈ t.sessions ∨ ∃ T, t.UserIn row.userId T ∧ .tenant T .share ∈ ls
  pushSubscriptions : ∀ sub ∈ t'.pushSubscriptions, sub.revoked = false → sub ∈ t.pushSubscriptions
  ended : t.AccessEnded → t'.AccessEnded

section sound

variable {ls : List Lock} {A : Tables → Prop} {ws : List Write} {w : Write} {l : Lock}
  {next : Transaction} {userId tenantId : ℕ} {remaining : List ℕ}

abbrev AccessSound : Transaction → List Lock → (Tables → Prop) → List Write → Prop :=
  SoundTx AccessGuarantee Tables.AccessEnded

theorem stable_userIn : StableTx AccessGuarantee ls (Tables.UserIn userId tenantId) := by
  rintro t t' ⟨ms, -, hg⟩ h u' hu' hid
  obtain ⟨u, hu, hid', htenant⟩ := hg.users u' hu'
  rw [← htenant]
  exact h u hu (hid'.trans hid)

theorem stable_userOf_access : StableTx AccessGuarantee ls (Tables.UserOf userId tenantId) := by
  rintro t t' ⟨ms, -, hg⟩ h
  exact h.kept hg.users

theorem stable_sessionsRevoked (hl : TenantLocked ls tenantId) :
    StableTx AccessGuarantee ls (Tables.SessionsRevoked tenantId remaining ws) := by
  rintro t t' ⟨ms, hc, hg⟩ h u' hu' htenant hrem row hrow huser hactive
  obtain ⟨u, hu, hid, htid⟩ := hg.users u' hu'
  rcases hg.sessions row hrow hactive with hmem | ⟨T, hin, hshare⟩
  · exact h u hu (htid.trans htenant) (hid ▸ hrem) row hmem (huser.trans hid.symm) hactive
  · have hT : u.tenantId = T := hin u hu (hid.trans huser.symm)
    rw [← hT, htid, htenant] at hshare
    exact absurd hshare (not_share_of_tenantLocked hc hl)

theorem stable_pushRevoked :
    StableTx AccessGuarantee ls (Tables.PushRevoked tenantId remaining ws) := by
  rintro t t' ⟨ms, -, hg⟩ h u' hu' htenant hrem sub hsub huser hactive
  obtain ⟨u, hu, hid, htid⟩ := hg.users u' hu'
  exact h u hu (htid.trans htenant) (hid ▸ hrem) sub (hg.pushSubscriptions sub hsub hactive)
    (huser.trans hid.symm) hactive

theorem stable_tenantStatus_of_share {status : TenantStatus} (hl : .tenant tenantId .share ∈ ls) :
    StableTx AccessGuarantee ls fun t => t.tenantStatus tenantId = some status := by
  rintro t t' ⟨ms, hc, hg⟩ h
  by_contra hne
  exact not_tenantLocked_of_share hc hl (hg.statuses tenantId fun heq => hne (heq.trans h))

theorem sound_commit_of_tenants (hlocked : WritesLocked ls ws)
    (hws : ∀ w ∈ ws, w.inserts = false)
    (htenant : ∀ t, A t → ∀ w ∈ ws, ∀ T ∈ w.tenant,
      (∀ status, (ws.foldl Tables.apply t).tenantStatus T = some status → status = .active) ∨
        t.SessionsRevoked T [] ws ∧ t.PushRevoked T [] ws) :
    AccessSound .commit ls A ws := fun t _ ha =>
  ⟨hlocked.statuses, Tables.usersKept_foldl,
    fun _ hrow hactive => .inl (Tables.mem_sessions_foldl hws hrow hactive).1,
    fun _ hsub hactive => (Tables.mem_pushSubscriptions_foldl hsub hactive).1,
    fun hended => hended.foldl hws (htenant t ha)⟩

def Neutral (ws : List Write) : Prop :=
  ∀ w ∈ ws, w.tenant = none ∧ w.inserts = false

theorem neutral_nil : Neutral [] := fun _ h => absurd h List.not_mem_nil

theorem Neutral.snoc (h : Neutral ws) (ht : w.tenant = none) (hi : w.inserts = false) :
    Neutral (ws ++ [w]) := by
  intro x hx
  rcases List.mem_append.mp hx with hx | hx
  · exact h x hx
  · rw [List.mem_singleton.mp hx]
    exact ⟨ht, hi⟩

theorem Neutral.locked (h : Neutral ws) : WritesLocked ls ws :=
  fun w hw T hT => by simp [(h w hw).1] at hT

theorem sound_commit_of_neutral (h : Neutral ws) : AccessSound .commit ls A ws :=
  sound_commit_of_tenants h.locked (fun w hw => (h w hw).2) fun t _ w hw T hT => by
    simp [(h w hw).1] at hT

theorem sound_commit_of_active :
    AccessSound .commit (.tenant tenantId .noKeyUpdate :: ls) A
      [.setTenantStatus tenantId .active] := by
  refine sound_commit_of_tenants ?_ ?_ fun t _ w hw T hT => .inl fun status hstatus => ?_
  · intro w hw T hT
    obtain rfl := List.mem_singleton.mp hw
    cases hT
    exact .inl List.mem_cons_self
  · simp [Write.inserts]
  · obtain rfl := List.mem_singleton.mp hw
    cases hT
    rw [List.foldl_cons, List.foldl_nil, Tables.tenantStatus_setTenantStatus] at hstatus
    obtain ⟨_, _, h⟩ := Option.map_eq_some_iff.mp hstatus
    simpa using h.symm

/-! ### The revocations of a transaction that ends a tenant's access -/

structure Ending (tenantId : ℕ) (ls : List Lock) (ws : List Write) : Prop where
  locked : TenantLocked ls tenantId
  tenant : ∀ w ∈ ws, ∀ T ∈ w.tenant, T = tenantId
  inserts : ∀ w ∈ ws, w.inserts = false
  deletesAccess : ∀ w ∈ ws, w.deletesAccess = false

theorem Ending.snoc (h : Ending tenantId ls ws) (ht : ∀ T ∈ w.tenant, T = tenantId)
    (hi : w.inserts = false) (hd : w.deletesAccess = false) : Ending tenantId ls (ws ++ [w]) := by
  refine ⟨h.locked, ?_, ?_, ?_⟩
  · exact List.forall_mem_append.mpr ⟨h.tenant, by simpa using ht⟩
  · exact List.forall_mem_append.mpr ⟨h.inserts, by simpa using hi⟩
  · exact List.forall_mem_append.mpr ⟨h.deletesAccess, by simpa using hd⟩

theorem sound_commit_of_ending (h : Ending tenantId ls ws) :
    AccessSound .commit ls
      (fun t => t.SessionsRevoked tenantId [] ws ∧ t.PushRevoked tenantId [] ws) ws := by
  refine sound_commit_of_tenants (fun w hw T hT => h.tenant w hw T hT ▸ h.locked) h.inserts
    fun t ha w hw T hT => .inr ?_
  rw [h.tenant w hw T hT]
  exact ha

theorem sound_revokeUsers_commit (h : Ending tenantId ls ws) (remaining : List ℕ) :
    AccessSound (revokeUsers .commit remaining) ls
      (fun t => t.SessionsRevoked tenantId remaining ws ∧ t.PushRevoked tenantId remaining ws)
      ws := by
  induction remaining generalizing ws with
  | nil => exact sound_commit_of_ending h
  | cons userId remaining ih =>
    intro t _ ⟨hsessions, hpush⟩
    let w : Write := .revokeSessions ((ws.foldl Tables.apply t).activeSessionIds userId)
    have h' : Ending tenantId ls (ws ++ [w]) := h.snoc nofun rfl rfl
    refine ⟨_, (stable_sessionsRevoked h.locked).and stable_pushRevoked,
      ⟨hsessions.revoke h.deletesAccess, hpush.snoc w⟩, ?_⟩
    intro t _ ⟨hsessions, hpush⟩
    let w' : Write :=
      .revokePushSubscriptions (((ws ++ [w]).foldl Tables.apply t).activePushSubscriptionIds userId)
    exact ⟨_, (stable_sessionsRevoked h.locked).and stable_pushRevoked,
      ⟨hsessions.snoc w', hpush.revoke h'.deletesAccess⟩, ih (h'.snoc nofun rfl rfl)⟩

variable (ls tenantId) in
theorem ending_status (status : TenantStatus) :
    Ending tenantId (.tenant tenantId .noKeyUpdate :: ls) [.setTenantStatus tenantId status] := by
  refine ⟨.inl List.mem_cons_self, ?_, ?_, ?_⟩
  · simp [Write.tenant]
  · simp [Write.inserts]
  · simp [Write.deletesAccess]

theorem sound_suspend {sources : List TenantStatus} {target : TenantStatus}
    (hA : StableTx AccessGuarantee ls A)
    (hall : ∀ t, A t → ∀ u ∈ t.users, u.tenantId = tenantId → u.id ∈ remaining) :
    AccessSound (transitionTenantStatus tenantId sources target (revokeUsers .commit remaining))
      ls A [] := by
  have h := ending_status ls tenantId target
  refine sound_writeRow hA trivial trivial fun t _ ha _ =>
    ⟨_, (stable_sessionsRevoked h.locked).and stable_pushRevoked, ⟨?_, ?_⟩,
      sound_revokeUsers_commit h remaining⟩
  · exact fun u hu htenant hrem => absurd (hall t ha u hu htenant) hrem
  · exact fun u hu htenant hrem => absurd (hall t ha u hu htenant) hrem

theorem accessSound_beginTenantDeletion {scope : ℕ} (hA : StableTx AccessGuarantee ls A) :
    AccessSound (beginTenantDeletion scope tenantId .commit) ls A [] := by
  unfold beginTenantDeletion
  split_ifs
  · have h := ending_status ls tenantId .deleting
    refine sound_writeRow hA trivial trivial fun t _ ha _ =>
      ⟨A, hA.mono (List.subset_cons_self _ _), ha, Sound.read fun t _ _ => ?_⟩
    refine ⟨_, (stable_sessionsRevoked h.locked).and stable_pushRevoked, ⟨?_, ?_⟩,
      sound_revokeUsers_commit h _⟩
    · intro u hu htenant hrem
      exact absurd (List.mem_map_of_mem (List.mem_filter.mpr ⟨hu, by simpa using htenant⟩)) hrem
    · intro u hu htenant hrem
      exact absurd (List.mem_map_of_mem (List.mem_filter.mpr ⟨hu, by simpa using htenant⟩)) hrem
  · trivial

/-! ### The transactions -/

theorem accessSound_lockTarget {targetUserId : ℕ} {next : LockedTarget → Transaction}
    (hnext : ∀ target ls, AccessSound (next target) ls (Tables.UserOf targetUserId target.tenantId)
      []) :
    AccessSound (lockTarget targetUserId next) [] (fun _ => True) [] := by
  refine Sound.acquire <| Sound.read fun t _ _ =>
    ⟨fun _ => True, ReadCommitted.stable_true, trivial, ?_⟩
  split
  · trivial
  refine Sound.acquire <| Sound.read fun t _ _ => ?_
  simp only [List.foldl_nil]
  rcases hu : t.user targetUserId with _ | u
  · exact ⟨fun _ => True, ReadCommitted.stable_true, trivial, trivial⟩
  obtain ⟨hmem, rfl⟩ := Tables.user_eq_some hu
  exact ⟨_, stable_userOf_access, Tables.userOf_of_mem hmem, hnext _ _⟩

theorem accessSound_guard {refused : Transaction} (hA : StableTx AccessGuarantee ls A)
    (hrefused : AccessSound refused ls A []) (hnext : AccessSound next ls A []) :
    AccessSound (assertAnotherActiveAdminRemains userId refused next) ls A [] := by
  refine sound_select hA fun t _ _ => ?_
  split_ifs
  · exact hrefused
  · exact hnext

theorem accessSound_suspendAccount (targetUserId : ℕ) :
    AccessSound (suspendAccount targetUserId) [] (fun _ => True) [] := by
  refine accessSound_lockTarget fun target ls => ?_
  have hsuspend : AccessSound (transitionTenantStatus target.tenantId [.active] .suspended
      (revokeUsers .commit [targetUserId])) ls (Tables.UserOf targetUserId target.tenantId) [] :=
    sound_suspend stable_userOf_access fun t hof u hu htenant => by simp [(hof u hu).mpr htenant]
  dsimp only
  split_ifs
  · exact accessSound_guard stable_userOf_access trivial hsuspend
  · exact hsuspend

theorem accessSound_activate {sources : List TenantStatus} (hA : StableTx AccessGuarantee ls A) :
    AccessSound (transitionTenantStatus tenantId sources .active .commit) ls A [] := by
  refine sound_writeRow hA trivial trivial fun t _ ha _ =>
    ⟨A, hA.mono (List.subset_cons_self _ _), ha, sound_commit_of_active⟩

theorem accessSound_reactivateAccount (targetUserId : ℕ) :
    AccessSound (reactivateAccount targetUserId) [] (fun _ => True) [] :=
  accessSound_lockTarget fun _ _ => accessSound_activate stable_userOf_access

theorem accessSound_changeAccountRole (targetUserId : ℕ) (role : UserRole) :
    AccessSound (changeAccountRole targetUserId role) [] (fun _ => True) [] := by
  refine accessSound_lockTarget fun target ls => ?_
  have hupdate : AccessSound (writeRow (.user targetUserId .noKeyUpdate)
      (fun t => (t.user targetUserId).isSome) (.setUserRole targetUserId role) .rollback .commit)
      ls (Tables.UserOf targetUserId target.tenantId) [] :=
    sound_writeRow stable_userOf_access trivial trivial fun t _ ha _ =>
      ⟨_, stable_userOf_access, ha, sound_commit_of_neutral (neutral_nil.snoc rfl rfl)⟩
  dsimp only
  split_ifs
  · exact sound_commit_of_neutral neutral_nil
  · exact accessSound_guard stable_userOf_access trivial hupdate
  · exact hupdate

theorem accessSound_lockUserAndGuardLastAdmin {next : LockedTarget → Transaction}
    (hnext : ∀ locked ls, AccessSound (next locked) ls (Tables.UserOf userId locked.tenantId) []) :
    AccessSound (lockUserAndGuardLastAdmin userId next) [] (fun _ => True) [] := by
  refine accessSound_lockTarget fun locked ls => ?_
  split_ifs
  · exact accessSound_guard stable_userOf_access trivial (hnext locked ls)
  · exact hnext locked ls

theorem accessSound_deleteOwnAccount (scope : ℕ) (lockedOut : Bool) (verifies : String → Bool) :
    AccessSound (deleteOwnAccount userId scope lockedOut verifies) [] (fun _ => True) [] := by
  refine sound_select ReadCommitted.stable_true fun t _ _ => ?_
  split
  · trivial
  split_ifs
  · trivial
  refine accessSound_lockUserAndGuardLastAdmin fun locked ls => ?_
  split_ifs
  · trivial
  · exact accessSound_beginTenantDeletion stable_userOf_access

theorem accessSound_deleteAccountAsAdmin (actorUserId : ℕ) :
    AccessSound (deleteAccountAsAdmin actorUserId userId) [] (fun _ => True) [] := by
  unfold deleteAccountAsAdmin
  split_ifs
  · trivial
  refine sound_select ReadCommitted.stable_true fun t _ _ => ?_
  split
  · trivial
  exact accessSound_lockUserAndGuardLastAdmin fun locked ls =>
    accessSound_beginTenantDeletion stable_userOf_access

theorem accessSound_guardAdmins (hA : StableTx AccessGuarantee ls A)
    (hnext : AccessSound next ls A []) (userIds : List ℕ) :
    AccessSound (guardAdmins next userIds) ls A [] := by
  induction userIds with
  | nil => exact hnext
  | cons userId userIds ih =>
    exact accessSound_guard hA (sound_commit_of_neutral neutral_nil) ih

theorem accessSound_replayOneTenant (tenantId : ℕ) :
    AccessSound (replayOneTenant tenantId) [] (fun _ => True) [] := by
  refine Sound.acquire <| sound_selectForLock ReadCommitted.stable_true
    (sound_commit_of_neutral neutral_nil) fun t hi _ =>
      ⟨fun _ => True, ReadCommitted.stable_true, trivial, ?_⟩
  split
  · exact sound_select ReadCommitted.stable_true fun t _ _ =>
      accessSound_guardAdmins ReadCommitted.stable_true
        (accessSound_beginTenantDeletion ReadCommitted.stable_true) _
  · exact accessSound_beginTenantDeletion ReadCommitted.stable_true
  · exact sound_commit_of_neutral neutral_nil

theorem accessSound_deleteUsers
    (hnext : ∀ ls ws, Neutral ws → AccessSound next ls (fun _ => True) ws) (h : Neutral ws)
    (userIds : List ℕ) : AccessSound (deleteUsers next userIds) ls (fun _ => True) ws := by
  induction userIds generalizing ls ws with
  | nil => exact hnext ls ws h
  | cons userId userIds ih =>
    refine sound_statement ReadCommitted.stable_true fun _ _ _ =>
      sound_statement ReadCommitted.stable_true fun _ _ _ =>
        sound_writeRow ReadCommitted.stable_true trivial trivial fun t _ _ _ =>
          ⟨fun _ => True, ReadCommitted.stable_true, trivial, ih ?_⟩
    exact ((h.snoc rfl rfl).snoc rfl rfl).snoc rfl rfl

theorem accessSound_finalise (tenantId : ℕ) :
    AccessSound (finalise tenantId) [] (fun _ => True) [] := by
  refine sound_select ReadCommitted.stable_true fun _ _ _ => ?_
  split_ifs
  · refine sound_select ReadCommitted.stable_true fun t _ _ =>
      accessSound_deleteUsers (fun ls ws h => ?_) neutral_nil _
    refine sound_writeRow ReadCommitted.stable_true trivial trivial fun t _ _ _ =>
      ⟨fun _ => True, ReadCommitted.stable_true, trivial, ?_⟩
    refine sound_commit_of_tenants (h.locked.snoc ?_) ?_ fun t _ w hw T hT => .inl ?_
    · rintro T ⟨⟩
      exact .inr List.mem_cons_self
    · exact List.forall_mem_append.mpr ⟨fun w hw => (h w hw).2, by simp [Write.inserts]⟩
    · rcases List.mem_append.mp hw with hw | hw
      · simp [(h w hw).1] at hT
      · obtain rfl := List.mem_singleton.mp hw
        cases hT
        simp [Tables.tenantStatus_deleteTenant_self]
  · trivial

theorem accessSound_activateTenant (tenantId : ℕ) :
    AccessSound (activateTenant tenantId) [] (fun _ => True) [] := by
  refine sound_selectForLock ReadCommitted.stable_true trivial fun t _ _ =>
    ⟨fun _ => True, ReadCommitted.stable_true, trivial, ?_⟩
  split
  · exact sound_writeRow ReadCommitted.stable_true trivial trivial fun t _ _ _ =>
      ⟨fun _ => True, ReadCommitted.stable_true, trivial, sound_commit_of_active⟩
  · exact sound_commit_of_neutral neutral_nil
  · exact sound_commit_of_neutral neutral_nil
  · trivial

theorem accessSound_lockUserTenantBinding {next : Option (ℕ × TenantStatus) → Transaction}
    (hnone : ∀ ls, AccessSound (next none) ls (fun _ => True) [])
    (hsome : ∀ ls T status, .tenant T .share ∈ ls → AccessSound (next (some (T, status))) ls
      (fun t => t.UserIn userId T ∧ t.tenantStatus T = some status) []) :
    AccessSound (lockUserTenantBinding userId next) [] (fun _ => True) [] := by
  refine sound_selectForLock ReadCommitted.stable_true (hnone _) fun t _ _ => ?_
  simp only [List.foldl_nil]
  rcases hu : t.user userId with _ | u
  · exact ⟨fun _ => True, ReadCommitted.stable_true, trivial, hnone _⟩
  obtain ⟨hmem, rfl⟩ := Tables.user_eq_some hu
  have hin : t.UserIn u.id u.tenantId := fun v hv => (Tables.userOf_of_mem hmem v hv).mp
  refine ⟨_, stable_userIn, hin, ?_⟩
  refine sound_selectForLock stable_userIn ((hnone _).weaken fun _ _ _ => trivial)
    fun t _ hin => ?_
  simp only [List.foldl_nil]
  rcases hstatus : t.tenantStatus u.tenantId with _ | status
  · exact ⟨fun _ => True, ReadCommitted.stable_true, trivial, hnone _⟩
  · exact ⟨_, stable_userIn.and (stable_tenantStatus_of_share List.mem_cons_self),
      ⟨hin, hstatus⟩, hsome _ _ _ List.mem_cons_self⟩

theorem sound_insertSession {sessionId T : ℕ} (hl : .tenant T .share ∈ ls) :
    AccessSound .commit ls (fun t => t.UserIn userId T ∧ t.tenantStatus T = some .active)
      [.insertSession ⟨sessionId, userId, false⟩] := by
  rintro t - ⟨hin, hactive⟩
  have hlocked : WritesLocked ls [.insertSession ⟨sessionId, userId, false⟩] := by
    simp [WritesLocked, Write.tenant]
  refine ⟨hlocked.statuses, Tables.usersKept_foldl, ?_, fun _ hsub _ => hsub, ?_⟩
  · intro row hrow _
    rcases List.mem_append.mp hrow with hrow | hrow
    · exact .inl hrow
    · obtain rfl := List.mem_singleton.mp hrow
      exact .inr ⟨T, hin, hl⟩
  · intro hended u hu status hstatus hne
    refine ⟨fun row hrow huser => ?_, (hended u hu status hstatus hne).2⟩
    rcases List.mem_append.mp hrow with hrow | hrow
    · exact (hended u hu status hstatus hne).1 row hrow huser
    · obtain rfl := List.mem_singleton.mp hrow
      have hT : u.tenantId = T := hin u hu huser.symm
      rw [hT] at hstatus
      exact absurd (Option.some.inj (hstatus.symm.trans hactive)) hne

theorem accessSound_login (email : String) (lockedOut : Bool) (verifies : String → Bool)
    (sessionId : ℕ) :
    AccessSound (login email lockedOut verifies sessionId) [] (fun _ => True) [] := by
  refine sound_select ReadCommitted.stable_true fun t _ _ => ?_
  split
  · trivial
  split_ifs
  · trivial
  refine accessSound_lockUserTenantBinding (fun ls => sound_commit_of_neutral neutral_nil)
    fun ls T status hl => ?_
  rcases status with _ | _ | _ | _
  case active =>
    exact sound_statement (stable_userIn.and (stable_tenantStatus_of_share hl)) fun _ _ _ =>
      sound_insertSession hl
  all_goals exact sound_commit_of_neutral neutral_nil

theorem accessSound_revoke (h : Neutral ws) : AccessSound (revokeUsers .commit [userId]) ls
    (fun _ => True) ws :=
  sound_statement ReadCommitted.stable_true fun _ _ _ =>
    sound_statement ReadCommitted.stable_true fun _ _ _ =>
      sound_commit_of_neutral ((h.snoc rfl rfl).snoc rfl rfl)

theorem accessSound_resetPassword (passwordHash : String) :
    AccessSound (resetPassword userId passwordHash) [] (fun _ => True) [] := by
  refine accessSound_lockUserTenantBinding (fun ls => trivial) fun ls T status hl => ?_
  rcases status with _ | _ | _ | _
  case active =>
    refine Sound.weaken (fun _ _ _ => trivial) (sound_writeRow ReadCommitted.stable_true
      (accessSound_revoke neutral_nil) (accessSound_revoke neutral_nil) fun t _ _ _ =>
        ⟨fun _ => True, ReadCommitted.stable_true, trivial,
          accessSound_revoke (neutral_nil.snoc rfl rfl)⟩)
  all_goals trivial

theorem accessSound_transaction (o : Op) : AccessSound o.transaction [] (fun _ => True) [] := by
  rcases o with ⟨email, lockedOut, verifies, sessionId⟩ | ⟨userId, passwordHash⟩ | ⟨userId⟩ |
    ⟨userId⟩ | ⟨userId, role⟩ | ⟨userId, tenantId, lockedOut, verifies⟩ | ⟨actorUserId, userId⟩ |
    ⟨tenantId⟩ | ⟨tenantId⟩ | ⟨tenantId⟩
  · exact accessSound_login email lockedOut verifies sessionId
  · exact accessSound_resetPassword passwordHash
  · exact accessSound_suspendAccount userId
  · exact accessSound_reactivateAccount userId
  · exact accessSound_changeAccountRole userId role
  · exact accessSound_deleteOwnAccount tenantId lockedOut verifies
  · exact accessSound_deleteAccountAsAdmin actorUserId
  · exact accessSound_replayOneTenant tenantId
  · exact accessSound_finalise tenantId
  · exact accessSound_activateTenant tenantId

end sound

/-- In every committed state of every interleaving, the users of a tenant that is not active have
no session and no push registration left: none is created there before a reactivation commits. -/
theorem accessEnded_of_reach {tables : Tables} (h₀ : tables.AccessEnded) {s : Sys}
    (h : Reach step (fun _ _ => True) (Programs.init tables) s) :
    s.db.committed.AccessEnded :=
  ReadCommitted.committed_of_reach Lock.conflicts_symm (fun _ _ _ hg => hg.ended)
    accessSound_transaction h₀ h

def adminAndMember : Tables where
  users := [⟨0, 0, "a", .admin, "h"⟩, ⟨1, 1, "b", .member, "h"⟩]
  tenants := [⟨0, .active⟩, ⟨1, .active⟩]
  sessions := [⟨0, 1, false⟩]
  pushSubscriptions := [⟨0, 1, false⟩]
  users_pkey := by decide
  users_tenant_id_key := by decide

/-- The suspension has read the member when the login commits; it takes the user's row after. -/
def loginBeforeSuspension : List Act :=
  ([.begin 0 (.login "b" false (fun _ => true) 1), .begin 1 (.suspendAccount 1)] : List Act) ++
    List.replicate 5 (.run 0 : Act) ++ List.replicate 2 (.run 1 : Act) ++
    List.replicate 4 (.run 0 : Act) ++ List.replicate 8 (.run 1 : Act)

theorem loginBeforeSuspension_ended : ∃ s,
    runActs step (Programs.init adminAndMember) loginBeforeSuspension = some s ∧
    s.db.committed.tenants = [⟨0, .active⟩, ⟨1, .suspended⟩] ∧
    s.db.committed.sessions = [⟨0, 1, true⟩, ⟨1, 1, true⟩] ∧ s.db.committed.AccessEnded := by
  obtain ⟨s, hs⟩ := Option.isSome_iff_exists.mp (show
    (runActs step (Programs.init adminAndMember) loginBeforeSuspension).isSome = true by
      decide +kernel)
  refine ⟨s, hs, eq_of_map_eq (f := fun s => s.db.committed.tenants) hs (by decide +kernel),
    eq_of_map_eq (f := fun s => s.db.committed.sessions) hs (by decide +kernel),
    accessEnded_of_reach ?_ (.of_runActs hs)⟩
  intro u hu status hstatus hne
  have hu : u = ⟨0, 0, "a", .admin, "h"⟩ ∨ u = ⟨1, 1, "b", .member, "h"⟩ := by
    simpa [adminAndMember] using hu
  rcases hu with rfl | rfl <;> exact absurd (Option.some.inj hstatus).symm hne

end AccountAccess

end Semprec
