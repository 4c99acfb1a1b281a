import Mathlib.Data.List.Nodup
import Mathlib.Data.Int.Order.Basic
import Mathlib.Order.Nat
import Semprec.PasswordResetRequests

/-!
# The cap on password resets

A window that holds the time at which a request began lies in the hour that the request counts, so
the window stays within the cap while the count does (`Inv`).
-/

namespace Semprec

namespace PasswordResetRequests

variable {s s' : Sys} {t userId id : ℕ} {now till : ℤ} {r : Request}

def RequestOk (r : Request) : Prop :=
  ∀ recentCount token, r.phase = .created recentCount token →
    token.userId = r.userId ∧ token.createdAt = r.startedAt ∧
      recentCount < PASSWORD_RESET_MAX_REQUESTS_PER_WINDOW

structure Inv (s : Sys) : Prop where
  requests : ∀ t r, s.requests t = some r → RequestOk r
  capped : s.Capped

theorem inv_init : Inv (.init now) := ⟨nofun, fun _ _ => Nat.zero_le _⟩

theorem filter_consume (tokens : List PasswordResetTokenRow) (p : ℕ → ℤ → Bool) :
    ((consumePasswordResetToken tokens id now).filter fun token =>
      p token.userId token.createdAt).length =
        (tokens.filter fun token => p token.userId token.createdAt).length := by
  unfold consumePasswordResetToken
  rw [List.filter_map, List.length_map]
  congr 2
  funext token
  dsimp only [Function.comp_apply]
  split_ifs <;> rfl

theorem createdInWindow_le (hT : r.startedAt ≤ till) :
    (s.createdInWindow r.userId till).length ≤
      countRecentPasswordResetTokens s.tokens r.userId r.startedAt := by
  refine (List.monotone_filter_right s.tokens fun token htoken => ?_).length_le
  simp only [decide_eq_true_eq] at htoken ⊢
  omega

theorem Inv.setRequest (hi : Inv s) {o : Option Request} {n : ℕ}
    (hr : ∀ r, o = some r → RequestOk r) : Inv { s.setRequest t o with nextId := n } where
  requests u r hu := by
    by_cases hut : u = t
    · subst hut
      exact hr r (by simpa [Sys.setRequest] using hu)
    · exact hi.requests u r (by simpa [Sys.setRequest, hut] using hu)
  capped := hi.capped

theorem Inv.commit (hi : Inv s) {recentCount : ℕ} {token : PasswordResetTokenRow}
    (ht : s.requests t = some r) (hphase : r.phase = .created recentCount token)
    (hok : recentCount < countRecentPasswordResetTokens s.tokens r.userId r.startedAt →
      countRecentPasswordResetTokens s.tokens r.userId r.startedAt <
        PASSWORD_RESET_MAX_REQUESTS_PER_WINDOW) :
    Inv { s.setRequest t none with tokens := s.tokens ++ [token] } where
  requests u r' hu := hi.requests u r' (of_update_none hu).2
  capped userId till := by
    obtain ⟨huser, hcreated, hcount⟩ := hi.requests t r ht recentCount token hphase
    have hbelow : countRecentPasswordResetTokens s.tokens r.userId r.startedAt <
        PASSWORD_RESET_MAX_REQUESTS_PER_WINDOW := by
      by_cases hstale : recentCount < countRecentPasswordResetTokens s.tokens r.userId r.startedAt
      · exact hok hstale
      · exact (not_lt.mp hstale).trans_lt hcount
    have hcapped := hi.capped userId till
    unfold Sys.createdInWindow at hcapped ⊢
    rw [List.filter_append, List.length_append]
    by_cases hin : token.userId = userId ∧ till - windowLength < token.createdAt ∧
      token.createdAt ≤ till
    · -- the window is one that the request's time is in
      have hle := createdInWindow_le (s := s) (r := r) (hcreated ▸ hin.2.2)
      rw [← huser, hin.1] at hle hbelow
      unfold Sys.createdInWindow at hle
      rw [List.filter_cons_of_pos (by simpa using hin), List.filter_nil, List.length_singleton]
      omega
    · rw [List.filter_cons_of_neg (by simpa using hin)]
      exact hcapped

/-- The tokens change in a way that makes none of them count more. -/
theorem Inv.shrink (hi : Inv s) {tokens : List PasswordResetTokenRow}
    (hle : ∀ q : ℕ → ℤ → Bool, (tokens.filter fun token => q token.userId token.createdAt).length ≤
      (s.tokens.filter fun token => q token.userId token.createdAt).length) :
    Inv { s with tokens } where
  requests := hi.requests
  capped userId till := (hle fun userId' createdAt => userId' = userId ∧
    till - windowLength < createdAt ∧ createdAt ≤ till).trans (hi.capped userId till)

theorem Inv.step (hi : Inv s) {a : Act} (hok : NotOvertaken s a)
    (h : PasswordResetRequests.step s a = some s') : Inv s' := by
  cases a with
  | tick now =>
    simp only [PasswordResetRequests.step] at h
    split_ifs at h
    cases h
    exact ⟨hi.requests, hi.capped⟩
  | begin t userId =>
    simp only [PasswordResetRequests.step] at h
    split_ifs at h
    cases h
    refine hi.setRequest (n := s.nextId) fun r hr => ?_
    cases hr
    exact nofun
  | countRecent t =>
    simp only [PasswordResetRequests.step] at h
    split at h <;> cases h
    refine hi.setRequest (n := s.nextId) fun r hr => ?_
    cases hr
    exact nofun
  | create t expiresAt =>
    simp only [PasswordResetRequests.step] at h
    split at h
    · split_ifs at h with hcap
      · cases h
        exact hi.setRequest (n := s.nextId) nofun
      · cases h
        refine hi.setRequest fun r hr => ?_
        cases hr
        rintro recentCount token ⟨⟩
        exact ⟨rfl, rfl, not_le.mp hcap⟩
    · cases h
  | commit t =>
    simp only [PasswordResetRequests.step] at h
    split at h <;> cases h
    rename_i userId startedAt recentCount token ht
    exact hi.commit ht rfl (hok userId startedAt recentCount token ht)
  | abort t =>
    simp only [PasswordResetRequests.step] at h
    split_ifs at h
    cases h
    exact hi.setRequest (n := s.nextId) nofun
  | consume id =>
    simp only [PasswordResetRequests.step] at h
    split_ifs at h
    cases h
    exact hi.shrink fun q => (filter_consume s.tokens q).le
  | purge userId =>
    cases h
    exact hi.shrink fun q => (List.filter_sublist.filter _).length_le

/-- While no request commits over the cap on a count that others have overtaken, no window holds
more tokens than the cap. -/
theorem requests_capped (h : Reach step NotOvertaken (.init now) s) : s.Capped :=
  (h.invariant inv_init fun _ _ _ hi hok hs => hi.step hok hs).capped

def aRequest (t userId : ℕ) (expiresAt : ℤ) : List Act :=
  [.begin t userId, .countRecent t, .create t expiresAt, .commit t]

def twoOverlapping : List Act :=
  [.begin 0 7, .begin 1 7, .countRecent 0, .countRecent 1, .create 1 1800000000,
    .create 0 1800000000, .commit 0, .commit 1] ++ aRequest 2 7 1800000000 ++
    ([.begin 3 7, .countRecent 3, .create 3 1800000000] : List Act)

def notOvertaken (s : Sys) : Act → Bool
  | .commit t => match s.requests t with
    | some ⟨userId, startedAt, .created _ _⟩ =>
      countRecentPasswordResetTokens s.tokens userId startedAt <
        PASSWORD_RESET_MAX_REQUESTS_PER_WINDOW
    | _ => true
  | _ => true

theorem requests_capped_overlapping : ∃ s, runActs step (.init 0) twoOverlapping = some s ∧
    s.tokens.length = 3 ∧ s.requests 3 = none ∧ s.Capped := by
  obtain ⟨s, hs⟩ := Option.isSome_iff_exists.mp
    (by decide : (runChecked step notOvertaken (.init 0) twoOverlapping).isSome = true)
  refine ⟨s, runActs_of_runChecked hs, ?_, ?_, requests_capped (.of_runChecked (fun s a ha => ?_) hs)⟩
  · exact eq_of_map_eq (f := fun s => s.tokens.length) (b := 3) hs (by decide)
  · exact eq_of_map_eq (f := fun s => s.requests 3) (b := none) hs (by decide)
  · cases a with
    | commit t =>
      intro userId startedAt recentCount token ht _
      simpa [notOvertaken, ht] using ha
    | _ => trivial

/-- A second request leaves the token of the first one usable. -/
theorem first_token_stays : ¬ ∀ s, Reach step (fun _ _ => True) (.init 0) s →
    s.Capped ∧ s.OneUsable := by
  intro hall
  obtain ⟨s, hs⟩ := Option.isSome_iff_exists.mp
    (by decide : (runActs step (.init 0) (aRequest 0 7 1800000000 ++
      .tick 60000000 :: aRequest 0 7 1860000000)).isSome = true)
  have hone := (hall s (.of_runActs hs)).2 7
  have htwo : (s.tokens.filter fun token =>
      token.userId = 7 ∧ token.usable s.now).length = 2 :=
    eq_of_map_eq (f := fun s => (s.tokens.filter fun token =>
      token.userId = 7 ∧ token.usable s.now).length) (b := 2) hs (by decide)
  omega

end PasswordResetRequests

end Semprec
