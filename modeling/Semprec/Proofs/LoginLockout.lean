import Semprec.LoginLockout

/-!
# The lockout bounds guessing

A wrong password that has been checked since the last success is either recorded or still to be, so
the pair's guesses are at most the failures of both kinds; and a streak that did not lock the pair
out when it was read does not later.
-/

namespace Semprec

namespace LoginLockout

variable {s s' : Sys} {attempts : List LoginAttemptRow} {a : LoginAttemptRow} {pair : Pair}
  {now now' r : ℕ} {streak : FailureStreak}

/-! ## Streaks -/

theorem lastSuccessAt_append (h : a.pair = pair → a.succeeded = false) :
    lastSuccessAt (attempts ++ [a]) pair = lastSuccessAt attempts pair := by
  unfold lastSuccessAt
  rw [List.filter_append]
  have hnil : ([a].filter fun a => a.pair = pair ∧ a.succeeded = true) = [] := by
    rw [List.filter_eq_nil_iff]
    intro b hb
    obtain rfl := List.mem_singleton.mp hb
    simp only [decide_eq_true_eq, not_and, Bool.not_eq_true]
    exact h
  rw [hnil, List.append_nil]

theorem failures_append_other (h : a.pair ≠ pair) :
    failures (attempts ++ [a]) pair = failures attempts pair := by
  unfold failures
  rw [lastSuccessAt_append fun hp => absurd hp h, List.filter_append]
  simp [h]

theorem failures_append_failure (h : ∀ b ∈ attempts, b.attemptedAt < now) :
    failures (attempts ++ [⟨pair, false, now⟩]) pair =
      failures attempts pair ++ [⟨pair, false, now⟩] := by
  unfold failures
  rw [lastSuccessAt_append fun _ => rfl, List.filter_append]
  congr 1
  rw [List.filter_eq_self]
  intro b hb
  obtain rfl := List.mem_singleton.mp hb
  simp only [decide_eq_true_eq, true_and]
  cases hl : lastSuccessAt attempts pair with
  | none => rfl
  | some t =>
    obtain ⟨c, hc, rfl⟩ := List.mem_map.mp (List.max?_mem hl)
    exact decide_eq_true (h c (List.mem_filter.mp hc).1)

theorem locked_mono (h : streak.locked now = false) (hle : now ≤ now') :
    streak.locked now' = false := by
  unfold FailureStreak.locked at h ⊢
  cases hl : streak.lastFailedAt with
  | none => rfl
  | some t =>
    simp only [hl, decide_eq_false_iff_not, not_lt] at h ⊢
    exact h.trans (Nat.div_le_div_right hle)

theorem not_locked_of_lt (htimes : ∀ b ∈ attempts, b.attemptedAt < now)
    (h : (getFailureStreak attempts pair).count < lockoutThreshold) :
    (getFailureStreak attempts pair).locked now = false := by
  unfold FailureStreak.locked
  cases hl : (getFailureStreak attempts pair).lastFailedAt with
  | none => rfl
  | some t =>
    obtain ⟨b, hb, rfl⟩ := List.mem_map.mp (List.max?_mem hl)
    have hlt := htimes b (List.mem_filter.mp hb).1
    simp only [lockoutDurationSeconds, h, if_true, decide_eq_false_iff_not, not_lt, Nat.zero_mul,
      Nat.add_zero]
    exact Nat.div_le_div_right hlt.le

/-! ## The invariant -/

structure Inv (s : Sys) : Prop where
  times : ∀ b ∈ s.attempts, b.attemptedAt < s.now
  started : ∀ r kind pair t, s.requests r = some ⟨kind, pair, .inTransaction t⟩ → t < s.now
  unlocked : ∀ r kind pair streak, s.requests r = some ⟨kind, pair, .unlocked streak⟩ →
    streak.locked s.now = false
  recorded : ∀ pair, s.guesses pair ≤ (s.streak pair).count + s.unrecorded pair
  bounded : s.Bounded

theorem inv_init : Inv .init where
  times := by simp [Sys.init]
  started := by simp [Sys.init]
  unlocked := by simp [Sys.init]
  recorded _ := Nat.zero_le _
  bounded := ⟨rfl, fun _ => Nat.zero_le _⟩

/-- Time passes. -/
theorem Inv.later (hi : Inv s) (hle : s.now ≤ now) : Inv { s with now } where
  times b hb := (hi.times b hb).trans_le hle
  started r kind pair t h := (hi.started r kind pair t h).trans_le hle
  unlocked r kind pair streak h := locked_mono (hi.unlocked r kind pair streak h) hle
  recorded := hi.recorded
  bounded := ⟨hi.bounded.1, hi.bounded.2⟩

theorem requests_setRequest {request request' : Option Request} {r' : ℕ}
    (h : (s.setRequest r request).requests r' = request') :
    request = request' ∨ s.requests r' = request' := by
  simp only [Sys.setRequest] at h
  by_cases hr : r' = r
  · subst hr
    rw [Function.update_self] at h
    exact .inl h
  · rw [Function.update_of_ne hr] at h
    exact .inr h

/-- A request goes on to a phase in which it neither is about to check its password nor has begun a
transaction, unless it may. -/
theorem Inv.setRequest (hi : Inv s) {request : Option Request}
    (hunlocked : ∀ kind pair streak, request = some ⟨kind, pair, .unlocked streak⟩ →
      streak.locked s.now = false)
    (hstarted : ∀ kind pair t, request = some ⟨kind, pair, .inTransaction t⟩ → t < s.now) :
    Inv (s.setRequest r request) where
  times := hi.times
  started r' kind pair t h := by
    rcases requests_setRequest h with h | h
    · exact hstarted kind pair t h
    · exact hi.started r' kind pair t h
  unlocked r' kind pair streak h := by
    rcases requests_setRequest h with h | h
    · exact hunlocked kind pair streak h
    · exact hi.unlocked r' kind pair streak h
  recorded := hi.recorded
  bounded := ⟨hi.bounded.1, hi.bounded.2⟩

theorem Inv.observeCheck (hi : Inv s) {passwordOk : Bool}
    (hlocked : (s.streak pair).locked s.now = false)
    (hroom : (s.streak pair).count < lockoutThreshold → passwordOk = false →
      (s.streak pair).count + s.unrecorded pair < lockoutThreshold) :
    Inv (s.observeCheck pair passwordOk) where
  times := hi.times
  started := hi.started
  unlocked := hi.unlocked
  recorded p := by
    have hp := hi.recorded p
    show (s.observeCheck pair passwordOk).guesses p ≤
      (s.streak p).count + (s.observeCheck pair passwordOk).unrecorded p
    simp only [Sys.observeCheck]
    cases passwordOk with
    | true => simpa using hp
    | false =>
      simp only [Bool.false_eq_true, if_false, false_or]
      by_cases hpp : p = pair
      · subst hpp
        rw [Function.update_self]
        split_ifs
        · omega
        · rw [Function.update_self]
          omega
      · rw [Function.update_of_ne hpp]
        split_ifs
        · exact hp
        · rw [Function.update_of_ne hpp]
          exact hp
  bounded := by
    refine ⟨?_, fun p => ?_⟩
    · simp only [Sys.observeCheck, hlocked]
      exact hi.bounded.locked
    · have hp := hi.recorded p
      have hb := hi.bounded.guesses p
      simp only [Sys.observeCheck]
      split_ifs with hg
      · exact hb
      · by_cases hpp : p = pair
        · subst hpp
          simp only [not_or, not_le] at hg
          have := hroom hg.2 (by simpa using hg.1)
          simp only [Function.update_self]
          omega
        · rw [Function.update_of_ne hpp]
          exact hb

/-! ## The steps -/

theorem Inv.recordFailure (hi : Inv s) (verified : Bool) (elapsed : ℕ) :
    Inv { s.recordLoginAttempt ⟨pair, false, s.now⟩ with
      requests := Function.update s.requests r none
      unrecorded := if verified then
        Function.update s.unrecorded pair (s.unrecorded pair - 1) else s.unrecorded
      now := s.now + elapsed + 1 } where
  times b hb := by
    rcases List.mem_append.mp hb with hb | hb
    · exact (hi.times b hb).trans_le (by simp only; omega)
    · obtain rfl := List.mem_singleton.mp hb
      simp only
      omega
  started r' kind p t h := by
    by_cases hr : r' = r
    · subst hr
      simp at h
    · have := hi.started r' kind p t ((Function.update_of_ne hr _ _).symm.trans h)
      simp only
      omega
  unlocked r' kind p streak h := by
    by_cases hr : r' = r
    · subst hr
      simp at h
    · exact locked_mono (hi.unlocked r' kind p streak ((Function.update_of_ne hr _ _).symm.trans h))
        (by simp only; omega)
  recorded p := by
    have hp := hi.recorded p
    unfold Sys.streak getFailureStreak at hp ⊢
    simp only [Sys.recordLoginAttempt] at hp ⊢
    by_cases hpp : p = pair
    · subst hpp
      rw [failures_append_failure hi.times, List.length_append, List.length_singleton]
      split_ifs
      · rw [Function.update_self]
        omega
      · omega
    · rw [failures_append_other fun h => hpp h.symm]
      split_ifs
      · rw [Function.update_of_ne hpp]
        exact hp
      · exact hp
  bounded := ⟨hi.bounded.1, hi.bounded.2⟩

theorem Inv.commitSession (hi : Inv s) {startedAt : ℕ} (hlt : startedAt < s.now) (elapsed : ℕ) :
    Inv { s.recordLoginAttempt ⟨pair, true, startedAt⟩ with
      requests := Function.update s.requests r none
      guesses := Function.update s.guesses pair 0
      now := s.now + elapsed + 1 } where
  times b hb := by
    rcases List.mem_append.mp hb with hb | hb
    · exact (hi.times b hb).trans_le (by simp only; omega)
    · obtain rfl := List.mem_singleton.mp hb
      simp only
      omega
  started r' kind p t h := by
    by_cases hr : r' = r
    · subst hr
      simp at h
    · have := hi.started r' kind p t ((Function.update_of_ne hr _ _).symm.trans h)
      simp only
      omega
  unlocked r' kind p streak h := by
    by_cases hr : r' = r
    · subst hr
      simp at h
    · exact locked_mono (hi.unlocked r' kind p streak ((Function.update_of_ne hr _ _).symm.trans h))
        (by simp only; omega)
  recorded p := by
    by_cases hpp : p = pair
    · subst hpp
      simp
    · have hp := hi.recorded p
      unfold Sys.streak getFailureStreak at hp ⊢
      simp only [Sys.recordLoginAttempt, Function.update_of_ne hpp] at hp ⊢
      rw [failures_append_other fun h => hpp h.symm]
      exact hp
  bounded := by
    refine ⟨hi.bounded.1, fun p => ?_⟩
    by_cases hpp : p = pair
    · subst hpp
      simp
    · simp only [Function.update_of_ne hpp]
      exact hi.bounded.2 p

theorem inv_step (hi : Inv s) {a : Act × ℕ} (hok : Timely s a) (h : step s a = some s') :
    Inv s' := by
  obtain ⟨a, elapsed⟩ := a
  obtain ⟨s₁, hs₁, rfl⟩ := Option.map_eq_some_iff.mp h
  have hlater : s.now ≤ s.now + elapsed + 1 := by omega
  cases a with
  | request r kind pair =>
    simp only [act] at hs₁
    split_ifs at hs₁
    cases hs₁
    exact (hi.setRequest (by simp) (by simp)).later hlater
  | checkLockout r =>
    simp only [act] at hs₁
    split at hs₁
    · next kind pair streak hr =>
      cases hs₁
      refine (hi.setRequest (fun kind' pair' streak' hq => ?_) fun kind' pair' t hq => ?_).later
        hlater
      · split_ifs at hq with hlocked
        · cases hq
        · cases hq
          exact Bool.eq_false_iff.mpr hlocked
      · split_ifs at hq <;> cases hq
    · cases hs₁
  | verifyPassword r passwordOk =>
    simp only [act] at hs₁
    split at hs₁
    · next kind pair streak hr =>
      cases hs₁
      have hstreak := hok kind pair streak hr
      have hlocked : (s.streak pair).locked s.now = false := by
        split_ifs at hstreak with hlt
        · exact not_locked_of_lt hi.times hlt
        · rw [hstreak]
          exact hi.unlocked r kind pair streak hr
      refine (Inv.setRequest (hi.observeCheck hlocked fun hlt hwrong => ?_)
        (fun kind' pair' streak' hq => ?_) fun kind' pair' t hq => ?_).later hlater
      · rw [if_pos hlt] at hstreak
        exact hstreak hwrong
      · split_ifs at hq <;> cases hq
      · split_ifs at hq <;> cases hq
    · cases hs₁
  | recordFailure r =>
    simp only [act] at hs₁
    split at hs₁
    · next kind pair verified hr =>
      cases hs₁
      exact hi.recordFailure verified elapsed
    · cases hs₁
  | beginSession r =>
    simp only [act] at hs₁
    split at hs₁
    · next pair hr =>
      cases hs₁
      -- the transaction begins now, which is before the step ends
      have hi' : Inv { s with now := s.now + elapsed + 1 } := hi.later hlater
      refine hi'.setRequest (r := r) (by simp) fun kind pair t hq => ?_
      simp only [Option.some.injEq, Request.mk.injEq, Phase.inTransaction.injEq] at hq
      simp only
      omega
    · cases hs₁
  | commitSession r =>
    simp only [act] at hs₁
    split at hs₁
    · next kind pair startedAt hr =>
      cases hs₁
      exact hi.commitSession (hi.started r kind pair startedAt hr) elapsed
    · cases hs₁
  | refuseSession r | deleteAccount r =>
    simp only [act] at hs₁
    split at hs₁
    · cases hs₁
      exact (hi.setRequest (by simp) (by simp)).later hlater
    · cases hs₁

/-- Wherever the passwords are checked in time, the lockout bounds guessing. -/
theorem bounded_of_timely : ∀ s, Reach step Timely .init s → s.Bounded :=
  fun _ h => (h.invariant inv_init fun _ _ _ hi hok hs => inv_step hi hok hs).bounded

def timelyCheck (s : Sys) (a : Act × ℕ) : Bool :=
  match a.1 with
  | .verifyPassword r passwordOk =>
    match s.requests r with
    | some ⟨_, pair, .unlocked streak⟩ =>
      if (s.streak pair).count < lockoutThreshold then
        passwordOk || (s.streak pair).count + s.unrecorded pair < lockoutThreshold
      else s.streak pair = streak
    | _ => true
  | _ => true

theorem timely_of_check (s : Sys) (a : Act × ℕ) (h : timelyCheck s a = true) : Timely s a := by
  obtain ⟨a, elapsed⟩ := a
  cases a with
  | verifyPassword r passwordOk =>
    intro kind pair streak hr
    simp only [timelyCheck, hr] at h
    split_ifs at h ⊢ with hlt
    · intro hwrong
      simpa [hwrong] using h
    · exact of_decide_eq_true h
  | _ => trivial

def alice : Pair := ("alice@example.com", "192.0.2.1")

def wrongPassword (r : ℕ) : List (Act × ℕ) :=
  [(.request r .login alice, 0), (.checkLockout r, 0), (.verifyPassword r false, 100000),
    (.recordFailure r, 0)]

def retried : List (Act × ℕ) :=
  (List.range 5).flatMap wrongPassword ++
    [(.request 5 .login alice, 0), (.checkLockout 5, 0), (.recordFailure 5, 60000000),
      (.request 6 .login alice, 0), (.checkLockout 6, 0), (.verifyPassword 6 true, 100000),
      (.beginSession 6, 0), (.commitSession 6, 0)]

theorem bounded_retried : ∃ s, runActs step .init retried = some s ∧
    s.attempts.map (·.succeeded) = [false, false, false, false, false, false, true] ∧
      s.Bounded := by
  obtain ⟨s, hs⟩ := Option.isSome_iff_exists.mp (show
    (runChecked step timelyCheck .init retried).isSome = true by decide +kernel)
  exact ⟨s, runActs_of_runChecked hs,
    eq_of_map_eq (f := fun s => s.attempts.map (·.succeeded)) hs (by decide +kernel),
    bounded_of_timely s (.of_runChecked timely_of_check hs)⟩

/-- Six logins that read the streak before any of them has recorded its failure. -/
def burst : List (Act × ℕ) :=
  (List.range 6).map (fun r => (Act.request r .login alice, 0)) ++
    (List.range 6).map (fun r => (Act.checkLockout r, 0)) ++
    (List.range 6).map fun r => (Act.verifyPassword r false, 100000)

theorem burst_not_bounded : ∃ s, Reach step (fun _ _ => True) .init s ∧ s.guesses alice = 6 ∧
    ¬ s.Bounded := by
  obtain ⟨s, hs⟩ := Option.isSome_iff_exists.mp (show
    (runActs step .init burst).isSome = true by decide +kernel)
  have hguesses : s.guesses alice = 6 :=
    eq_of_map_eq (f := fun s => s.guesses alice) hs (by decide +kernel)
  refine ⟨s, .of_runActs hs, hguesses, fun h => ?_⟩
  have := h.guesses alice
  rw [hguesses] at this
  exact absurd this (by decide)

end LoginLockout

end Semprec
