import Semprec.Lib.Runs
import Mathlib.Data.Nat.Notation
import Mathlib.Data.Nat.Init
import Mathlib.Order.Nat

/-!
# Infinite runs

A trace takes one action after the other for ever, and may let time pass without one.  What a
progress argument needs of it is that a condition holds on until something ends it
(`Trace.persists`), and that a measure which drops whenever the condition comes back brings the goal
(`Trace.eventually_of_measure`).
-/

namespace Semprec

variable {σ α : Type*} {step : σ → α → Option σ} {s₀ : σ}

structure Trace (step : σ → α → Option σ) (s₀ : σ) where
  state : ℕ → σ
  act : ℕ → Option α
  start : state 0 = s₀
  idle : ∀ n, act n = none → state (n + 1) = state n
  next : ∀ n a, act n = some a → step (state n) a = some (state (n + 1))

namespace Trace

variable (tr : Trace step s₀)

theorem reach (n : ℕ) : Reach step (fun _ _ => True) s₀ (tr.state n) := by
  induction n with
  | zero =>
    rw [tr.start]
    exact .refl
  | succ n ih =>
    cases ha : tr.act n with
    | none => exact tr.idle n ha ▸ ih
    | some a => exact ih.tail trivial (tr.next n a ha)

variable {tr} {P : σ → Prop} {E : ℕ → Prop} {n m : ℕ}

/-- What every step keeps or ends holds until it is ended. -/
theorem persists (hstep : ∀ i, n ≤ i → P (tr.state i) → P (tr.state (i + 1)) ∨ E i)
    (hn : P (tr.state n)) (hm : n ≤ m) :
    P (tr.state m) ∨ ∃ i, n ≤ i ∧ i < m ∧ P (tr.state i) ∧ E i := by
  induction m, hm using Nat.le_induction with
  | base => exact .inl hn
  | succ m hm ih =>
    rcases ih with hP | ⟨i, hi, him, h⟩
    · rcases hstep m hm hP with h | h
      · exact .inl h
      · exact .inr ⟨m, hm, Nat.lt_succ_self m, hP, h⟩
    · exact .inr ⟨i, hi, him.trans (Nat.lt_succ_self m), h⟩

theorem eventually_of_measure {Goal : ℕ → Prop} (μ : σ → ℕ)
    (h : ∀ i, n ≤ i → P (tr.state i) →
      ∃ j, i ≤ j ∧ (Goal j ∨ P (tr.state j) ∧ μ (tr.state j) < μ (tr.state i)))
    (hn : P (tr.state n)) : ∃ j, n ≤ j ∧ Goal j := by
  suffices hall : ∀ k i, n ≤ i → P (tr.state i) → μ (tr.state i) = k → ∃ j, n ≤ j ∧ Goal j from
    hall _ n (le_refl n) hn rfl
  intro k
  induction k using Nat.strong_induction_on with
  | _ k ih =>
    intro i hi hP hk
    obtain ⟨j, hij, hg | ⟨hPj, hlt⟩⟩ := h i hi hP
    · exact ⟨j, hi.trans hij, hg⟩
    · exact ih _ (hk ▸ hlt) j (hi.trans hij) hPj rfl

def ofActs (as : List α) {s : σ} (h : runActs step s₀ as = some s) : Trace step s₀ where
  state n := (runActs step s₀ (as.take n)).getD s₀
  act n := as[n]?
  start := rfl
  idle n hn := by
    have hle : as.length ≤ n := List.getElem?_eq_none_iff.mp hn
    rw [List.take_of_length_le hle, List.take_of_length_le (Nat.le_succ_of_le hle)]
  next n a hn := by
    have hsplit : as = as.take n ++ as.drop n := (List.take_append_drop n as).symm
    have htake : as.take (n + 1) = as.take n ++ [a] := by
      rw [List.take_add_one, hn]
      rfl
    obtain ⟨s₁, hs₁⟩ : ∃ s₁, runActs step s₀ (as.take n) = some s₁ := by
      rw [hsplit, runActs_append] at h
      obtain ⟨s₁, hs₁, -⟩ := Option.bind_eq_some_iff.mp h
      exact ⟨s₁, hs₁⟩
    obtain ⟨s₂, hs₂⟩ : ∃ s₂, runActs step s₀ (as.take (n + 1)) = some s₂ := by
      rw [← List.take_append_drop (n + 1) as, runActs_append] at h
      obtain ⟨s₂, hs₂, -⟩ := Option.bind_eq_some_iff.mp h
      exact ⟨s₂, hs₂⟩
    rw [hs₁, hs₂]
    rw [htake, runActs_append, hs₁] at hs₂
    simpa [runActs, runChecked] using hs₂

theorem ofActs_state {as : List α} {s : σ} (h : runActs step s₀ as = some s)
    (hn : as.length ≤ n) : (ofActs as h).state n = s := by
  change (runActs step s₀ (as.take n)).getD s₀ = s
  rw [List.take_of_length_le hn, h]
  rfl

end Trace

end Semprec
