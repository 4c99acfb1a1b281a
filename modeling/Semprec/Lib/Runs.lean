import Mathlib.Logic.Function.Basic
import Mathlib.Logic.Relation
import Mathlib.Tactic.SplitIfs

/-!
# Runs of a partial step function

A system is a function from a state and an action to the state after it, `none` when the action is
not enabled.  `Reach step ok s₀ s` says that some run from `s₀`, each of whose steps meets `ok` at
the state it starts from, ends in `s`; an invariant of all such runs is an invariant of one step
(`Reach.invariant`).
-/

namespace Semprec

variable {σ α : Type*}

inductive Reach (step : σ → α → Option σ) (ok : σ → α → Prop) (s₀ : σ) : σ → Prop where
  | refl : Reach step ok s₀ s₀
  | tail {s s' : σ} {a : α} : Reach step ok s₀ s → ok s a → step s a = some s' →
      Reach step ok s₀ s'

/-- Takes the actions one after the other; `none` as soon as one of them is not enabled or fails
its check. -/
def runChecked (step : σ → α → Option σ) (check : σ → α → Bool) : σ → List α → Option σ
  | s, [] => some s
  | s, a :: as =>
    if check s a then (step s a).bind fun s' => runChecked step check s' as else none

/-- Takes the actions one after the other. -/
def runActs (step : σ → α → Option σ) : σ → List α → Option σ :=
  runChecked step fun _ _ => true

theorem runActs_of_runChecked {step : σ → α → Option σ} {check : σ → α → Bool} {s : σ} :
    ∀ {as : List α} {s₀ : σ}, runChecked step check s₀ as = some s → runActs step s₀ as = some s
  | [], _, h => h
  | a :: as, s₀, h => by
    simp only [runChecked] at h
    split_ifs at h
    obtain ⟨s₁, hs, h⟩ := Option.bind_eq_some_iff.mp h
    simp only [runActs, runChecked, if_true, hs, Option.bind_some]
    exact runActs_of_runChecked h

theorem runActs_append {step : σ → α → Option σ} {bs : List α} :
    ∀ {as : List α} {s : σ},
      runActs step s (as ++ bs) = (runActs step s as).bind (runActs step · bs)
  | [], _ => rfl
  | a :: as, s => by
    simp only [List.cons_append, runActs, runChecked, if_true]
    cases step s a with
    | none => rfl
    | some s' => exact runActs_append

/-- What is computed of the end of a run holds of the state it ends in. -/
theorem eq_of_map_eq {β : Type*} {o : Option σ} {s : σ} {f : σ → β} {b : β} (h : o = some s)
    (hf : o.map f = some b) : f s = b := by
  subst h
  exact Option.some.inj hf

section
variable {κ τ : Type*} [DecidableEq κ] {parts : κ → Option τ} {t u : κ} {x y : τ}

theorem of_update_none (h : Function.update parts t none u = some x) : u ≠ t ∧ parts u = some x := by
  by_cases hut : u = t
  · rw [hut, Function.update_self] at h
    cases h
  · exact ⟨hut, by rwa [Function.update_of_ne hut] at h⟩

theorem of_update_some (h : Function.update parts t (some y) u = some x) :
    u = t ∧ x = y ∨ u ≠ t ∧ parts u = some x := by
  by_cases hut : u = t
  · rw [hut, Function.update_self] at h
    exact .inl ⟨hut, (Option.some.inj h).symm⟩
  · exact .inr ⟨hut, by rwa [Function.update_of_ne hut] at h⟩

end

namespace Reach

variable {step : σ → α → Option σ} {ok ok' : σ → α → Prop} {s₀ s s' : σ}

/-- What holds at the start and survives every allowed step holds wherever a run ends. -/
theorem invariant {I : σ → Prop} (h₀ : I s₀)
    (hstep : ∀ s a s', I s → ok s a → step s a = some s' → I s') (h : Reach step ok s₀ s) :
    I s := by
  induction h with
  | refl => exact h₀
  | tail _ hok hs ih => exact hstep _ _ _ ih hok hs

theorem trans (h : Reach step ok s₀ s) (h' : Reach step ok s s') : Reach step ok s₀ s' := by
  induction h' with
  | refl => exact h
  | tail _ hok hs ih => exact .tail ih hok hs

theorem head {s₁ : σ} {a : α} (hok : ok s₀ a) (hs : step s₀ a = some s₁)
    (h : Reach step ok s₁ s) : Reach step ok s₀ s :=
  (Reach.refl.tail hok hs).trans h

theorem of_runChecked {check : σ → α → Bool} (hcheck : ∀ s a, check s a = true → ok s a) :
    ∀ {as : List α} {s₀ : σ}, runChecked step check s₀ as = some s → Reach step ok s₀ s
  | [], s₀, h => by
    simp only [runChecked, Option.some.injEq] at h
    subst h
    exact .refl
  | a :: as, s₀, h => by
    simp only [runChecked] at h
    split_ifs at h with hc
    obtain ⟨s₁, hs, h⟩ := Option.bind_eq_some_iff.mp h
    exact head (hcheck _ _ hc) hs (of_runChecked hcheck h)

theorem of_runActs {as : List α} {s₀ : σ} (h : runActs step s₀ as = some s) :
    Reach step (fun _ _ => True) s₀ s :=
  of_runChecked (fun _ _ _ => trivial) h

end Reach

end Semprec
