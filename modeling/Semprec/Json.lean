import Mathlib.Data.Int.Notation
import Mathlib.Data.Nat.Notation
import Mathlib.Data.List.Basic

/-!
# JSON values

Values as they come out of a `jsonb` column: numbers are decimals of any precision.
-/

namespace Semprec

/-- The number `coefficient / 10 ^ scale`, written with `scale` digits after the point. -/
structure Decimal where
  coefficient : ℤ
  scale : ℕ
deriving DecidableEq

inductive Json where
  | null
  | bool (b : Bool)
  | num (n : Decimal)
  | str (s : String)
  | arr (elements : List Json)
  | obj (fields : List (String × Json))

abbrev JsonObject := List (String × Json)

namespace JsonObject

/-- `o -> key`; `none` when the key is absent. -/
def get? (o : JsonObject) (key : String) : Option Json := o.lookup key

def hasOwn (o : JsonObject) (key : String) : Bool := (o.get? key).isSome

/-- `o || patch` of `jsonb`, `{ ...o, ...patch }` of JavaScript: the patch wins. -/
def merge (o patch : JsonObject) : JsonObject :=
  patch ++ o.filter fun f => !patch.hasOwn f.1

theorem get?_filter {p : String → Bool} {key : String} (hp : p key = true) :
    ∀ o : JsonObject, JsonObject.get? (o.filter fun f => p f.1) key = o.get? key
  | [] => rfl
  | (k, v) :: o => by
    have ih := get?_filter hp o
    unfold get? at ih ⊢
    by_cases hk : key = k
    · subst hk
      simp [hp]
    · have hb : (key == k) = false := by simpa using hk
      by_cases hpk : p k = true
      · simp only [List.filter_cons, hpk, if_true, List.lookup_cons, hb, ih]
      · simp only [List.filter_cons, hpk, Bool.false_eq_true, if_false, List.lookup_cons, hb, ih]

theorem get?_merge (o patch : JsonObject) (key : String) :
    (o.merge patch).get? key = (patch.get? key).or (o.get? key) := by
  unfold merge get?
  rw [List.lookup_append]
  rcases h : List.lookup key patch with _ | v
  · have hp : (!JsonObject.hasOwn patch key) = true := by simp [hasOwn, get?, h]
    rw [Option.none_or, Option.none_or]
    exact get?_filter (p := fun k => !patch.hasOwn k) hp o
  · rfl

end JsonObject

end Semprec
