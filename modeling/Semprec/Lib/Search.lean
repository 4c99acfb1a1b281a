import Mathlib.Data.List.Range

/-!
# A search over the first numbers

A search over `0`, ..., `n - 1` ends at the first index that has a result.
-/

namespace Semprec

variable {α : Type*} {f : ℕ → Option α} {n : ℕ} {b : α}

theorem findSome?_range :
    (List.range n).findSome? f = some b ↔ ∃ j < n, f j = some b ∧ ∀ i < j, f i = none := by
  induction n with
  | zero => simp
  | succ n ih =>
    rw [List.range_succ, List.findSome?_append, Option.or_eq_some_iff, ih]
    constructor
    · rintro (⟨j, hj, hfj, hbefore⟩ | ⟨hnone, hn⟩)
      · exact ⟨j, by omega, hfj, hbefore⟩
      · refine ⟨n, by omega, by simpa using hn, fun i hi => ?_⟩
        exact List.findSome?_eq_none_iff.mp hnone i (List.mem_range.mpr hi)
    · rintro ⟨j, hj, hfj, hbefore⟩
      rcases Nat.lt_succ_iff_lt_or_eq.mp hj with hj | rfl
      · exact .inl ⟨j, hj, hfj, hbefore⟩
      · exact .inr ⟨List.findSome?_eq_none_iff.mpr fun i hi => hbefore i (List.mem_range.mp hi),
          by simpa using hfj⟩

/-- A search that could end at `k` ends there or before. -/
theorem exists_findSome?_range {k : ℕ} (hk : k < n) (hb : f k = some b) :
    ∃ j ≤ k, ∃ c, (List.range n).findSome? f = some c ∧ f j = some c ∧ ∀ i < j, f i = none := by
  rcases hsearch : (List.range n).findSome? f with _ | c
  · have := List.findSome?_eq_none_iff.mp hsearch k (List.mem_range.mpr hk)
    rw [hb] at this
    cases this
  · obtain ⟨j, -, hj, hbefore⟩ := findSome?_range.mp hsearch
    refine ⟨j, Nat.not_lt.mp fun hlt => ?_, c, rfl, hj, hbefore⟩
    rw [hbefore k hlt] at hb
    cases hb

end Semprec
