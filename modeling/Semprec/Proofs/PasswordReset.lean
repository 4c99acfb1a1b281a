import Semprec.PasswordReset

/-!
# A reset ends access by the old password

The hash of the last committed reset is the user's hash, so a login that commits while its hash is
the user's adds no session of an old password.
-/

namespace Semprec

namespace PasswordReset

variable {s s' : Sys} {users : ℕ → Option String}

structure Inv (s : Sys) : Prop where
  current : ∀ userId hash, s.resetTo userId = some hash → s.tables.passwordHash userId = some hash
  ended : s.OldPasswordsEnded

theorem inv_init (users : ℕ → Option String) : Inv (.init users) where
  current _ _ h := nomatch h
  ended _ _ h := nomatch h

theorem Inv.keep (hi : Inv s) (hhash : s'.tables.passwordHash = s.tables.passwordHash)
    (hreset : s'.resetTo = s.resetTo)
    (hsessions : ∀ row ∈ s'.tables.sessions, row.revoked = false → row ∈ s.tables.sessions) :
    Inv s' where
  current userId hash h := by
    rw [hreset] at h
    rw [hhash]
    exact hi.current userId hash h
  ended userId hash h row hr hu hrev := by
    rw [hreset] at h
    exact hi.ended userId hash h row (hsessions row hr hrev) hu hrev

theorem mem_revoke {ids : List ℕ} {row : SessionRow} (hr : row ∈ s.revoke ids)
    (hrev : row.revoked = false) : row ∈ s.tables.sessions ∧ row.id ∉ ids := by
  obtain ⟨old, hold, rfl⟩ := List.mem_map.mp hr
  by_cases h : old.id ∈ ids
  · simp [h] at hrev
  · rw [if_neg h]
    exact ⟨hold, h⟩

theorem mem_activeSessionIds {row : SessionRow} (hr : row ∈ s.tables.sessions)
    (hrev : row.revoked = false) : row.id ∈ s.activeSessionIds row.userId :=
  List.mem_map.mpr ⟨row, List.mem_filter.mpr ⟨hr, by simp [hrev]⟩, rfl⟩

theorem Inv.commitLogin (hi : Inv s) {r sessionId : ℕ} {l : Login}
    (hcur : s.tables.passwordHash l.userId = some l.passwordHash) :
    Inv { s.setLogin r none with tables := { s.tables with
      sessions := s.tables.sessions ++ [⟨sessionId, l.userId, l.passwordHash, false⟩] } } where
  current := hi.current
  ended userId hash h row hr hu hrev := by
    rcases List.mem_append.mp hr with hr | hr
    · exact hi.ended userId hash h row hr hu hrev
    · obtain rfl := List.mem_singleton.mp hr
      subst hu
      exact Option.some.inj (hcur.symm.trans (hi.current l.userId hash h))

theorem Inv.commitReset (hi : Inv s) {p userId : ℕ} {hash : String} {sessionIds : List ℕ}
    (hall : ∀ sessionId ∈ s.activeSessionIds userId, sessionId ∈ sessionIds) :
    Inv { s.closeReset p with
      tables := { s.tables with
        passwordHash := Function.update s.tables.passwordHash userId (some hash)
        sessions := s.revoke sessionIds }
      resetTo := Function.update s.resetTo userId (some hash) } where
  current u h hu := by
    by_cases huser : u = userId
    · subst huser
      simpa using hu
    · simp only [Function.update_of_ne huser] at hu ⊢
      exact hi.current u h hu
  ended u h hu row hr hrow hrev := by
    obtain ⟨hmem, hid⟩ := mem_revoke hr hrev
    by_cases huser : u = userId
    · -- the reset has revoked every session of its user
      subst huser
      exact absurd (hall _ (hrow ▸ mem_activeSessionIds hmem hrev)) hid
    · simp only [Function.update_of_ne huser] at hu
      exact hi.ended u h hu row hmem hrow hrev

theorem inv_step (hi : Inv s) {a : Act} (hok : NotOvertaken s a) (h : step s a = some s') :
    Inv s' := by
  cases a with
  | setTenantActive userId active =>
    cases h
    exact hi.keep rfl rfl fun _ hr _ => hr
  | revokeSession sessionId =>
    cases h
    exact hi.keep rfl rfl fun _ hr hrev => (mem_revoke hr hrev).1
  | login r userId =>
    simp only [step] at h
    split_ifs at h
    obtain ⟨hash, -, rfl⟩ := Option.map_eq_some_iff.mp h
    exact hi.keep rfl rfl fun _ hr _ => hr
  | verifyPassword r passwordOk | createSession r =>
    simp only [step] at h
    split at h
    · split_ifs at h <;> cases h <;> exact hi.keep rfl rfl fun _ hr _ => hr
    · cases h
  | commitLogin r =>
    simp only [step] at h
    split at h
    · next userId hash sessionId hl =>
      cases h
      exact hi.commitLogin (l := ⟨userId, hash, .inserted sessionId⟩)
        (hok ⟨userId, hash, .inserted sessionId⟩ (Option.mem_def.mpr hl))
    · cases h
  | abortLogin r =>
    obtain ⟨l, -, rfl⟩ := Option.map_eq_some_iff.mp h
    exact hi.keep rfl rfl fun _ hr _ => hr
  | consumeToken p userId =>
    simp only [step] at h
    split_ifs at h <;> cases h <;> exact hi.keep rfl rfl fun _ hr _ => hr
  | updatePasswordHash p hash =>
    simp only [step] at h
    split at h
    · split_ifs at h
      cases h
      exact hi.keep rfl rfl fun _ hr _ => hr
    · cases h
  | revokeSessions p =>
    simp only [step] at h
    split at h
    · cases h
      exact hi.keep rfl rfl fun _ hr _ => hr
    · cases h
  | commitReset p =>
    simp only [step] at h
    split at h
    · next userId hash sessionIds hx =>
      cases h
      exact hi.commitReset (hok userId hash sessionIds hx)
    · cases h
  | rollbackReset p =>
    obtain ⟨x, -, rfl⟩ := Option.map_eq_some_iff.mp h
    exact hi.keep rfl rfl fun _ hr _ => hr

/-- Wherever no login and no reset of its user overtake each other, a reset ends access by the old
password. -/
theorem oldPasswordsEnded (users : ℕ → Option String) :
    ∀ s, Reach step NotOvertaken (.init users) s → s.OldPasswordsEnded :=
  fun _ h => (h.invariant (inv_init users) fun _ _ _ hi hok hs => inv_step hi hok hs).ended

def notOvertakenCheck (s : Sys) : Act → Bool
  | .commitLogin r => (s.logins r).all fun l => s.tables.passwordHash l.userId = some l.passwordHash
  | .commitReset p =>
    match s.resets p with
    | some (.revoked userId _ sessionIds) => (s.activeSessionIds userId).all (· ∈ sessionIds)
    | _ => true
  | _ => true

theorem notOvertaken_of_check (s : Sys) (a : Act) (h : notOvertakenCheck s a = true) :
    NotOvertaken s a := by
  cases a with
  | commitLogin r =>
    intro l hl
    rw [notOvertakenCheck, Option.mem_def.mp hl, Option.all_some] at h
    exact of_decide_eq_true h
  | commitReset p =>
    intro userId hash sessionIds hx sessionId hid
    simp only [notOvertakenCheck, hx, List.all_eq_true, decide_eq_true_eq] at h
    exact h sessionId hid
  | _ => trivial

def oneUser : ℕ → Option String := fun userId => if userId = 0 then some "old" else none

def resetAfterLogin : List Act :=
  [.login 0 0, .verifyPassword 0 true, .createSession 0, .commitLogin 0, .consumeToken 0 0,
    .updatePasswordHash 0 "new", .revokeSessions 0, .commitReset 0]

theorem oldPasswordsEnded_reset : ∃ s, runActs step (.init oneUser) resetAfterLogin = some s ∧
    s.tables.sessions = [⟨0, 0, "old", true⟩] ∧ s.resetTo 0 = some "new" ∧ s.OldPasswordsEnded := by
  obtain ⟨s, hs⟩ := Option.isSome_iff_exists.mp (show
    (runChecked step notOvertakenCheck (.init oneUser) resetAfterLogin).isSome = true by
      decide +kernel)
  exact ⟨s, runActs_of_runChecked hs,
    eq_of_map_eq (f := fun s => s.tables.sessions) hs (by decide +kernel),
    eq_of_map_eq (f := fun s => s.resetTo 0) hs (by decide +kernel),
    oldPasswordsEnded oneUser s (.of_runChecked notOvertaken_of_check hs)⟩

def resetBeforeSession : List Act :=
  [.login 0 0, .verifyPassword 0 true, .consumeToken 0 0, .updatePasswordHash 0 "new",
    .revokeSessions 0, .commitReset 0, .createSession 0, .commitLogin 0]

theorem resetBeforeSession_not_ended : ∃ s, Reach step (fun _ _ => True) (.init oneUser) s ∧
    s.tables.sessions = [⟨0, 0, "old", false⟩] ∧ ¬ s.OldPasswordsEnded := by
  obtain ⟨s, hs⟩ := Option.isSome_iff_exists.mp (show
    (runActs step (.init oneUser) resetBeforeSession).isSome = true by decide +kernel)
  have hsessions : s.tables.sessions = [⟨0, 0, "old", false⟩] :=
    eq_of_map_eq (f := fun s => s.tables.sessions) hs (by decide +kernel)
  have hreset : s.resetTo 0 = some "new" :=
    eq_of_map_eq (f := fun s => s.resetTo 0) hs (by decide +kernel)
  refine ⟨s, .of_runActs hs, hsessions, fun h => ?_⟩
  have := h 0 "new" hreset ⟨0, 0, "old", false⟩ (by simp [hsessions]) rfl rfl
  exact absurd this (by decide)

end PasswordReset

end Semprec
