import Mathlib.Data.List.Basic
import Mathlib.Data.List.Range

/-!
# Fragments of a list

A list cut into fragments of one size, and the values received with an index put in the order of
the indices.
-/

namespace Semprec

namespace Fragments

variable {α β : Type*}

def fragment (size index : ℕ) (xs : List α) : List α := (xs.drop (index * size)).take size

/-- How many fragments of `size` a list has. -/
def count (size length : ℕ) : ℕ := (length + size - 1) / size

theorem length_fragment_le (size index : ℕ) (xs : List α) :
    (fragment size index xs).length ≤ size := by
  rw [fragment, List.length_take]
  exact Nat.min_le_left _ _

theorem mem_of_mem_fragment {size index : ℕ} {xs : List α} {x : α}
    (h : x ∈ fragment size index xs) : x ∈ xs :=
  List.mem_of_mem_drop (List.mem_of_mem_take h)

theorem flatMap_fragment (size : ℕ) (xs : List α) (n : ℕ) :
    ((List.range n).flatMap fun i => fragment size i xs) = xs.take (n * size) := by
  induction n with
  | zero => simp
  | succ n ih =>
    rw [List.range_succ, List.flatMap_append, ih, List.flatMap_singleton, fragment, Nat.succ_mul,
      List.take_add]

theorem flatMap_fragments {size : ℕ} (hsize : 0 < size) (xs : List α) :
    ((List.range (count size xs.length)).flatMap fun i => fragment size i xs) = xs := by
  rw [flatMap_fragment, List.take_of_length_le]
  have hdiv := Nat.div_add_mod (xs.length + size - 1) size
  have hmod := Nat.mod_lt (xs.length + size - 1) hsize
  rw [count, Nat.mul_comm]
  omega

theorem count_pos {size length : ℕ} (hsize : 0 < size) (hlength : 0 < length) :
    0 < count size length :=
  Nat.div_pos (by omega) hsize

theorem count_le {size length : ℕ} (hsize : 0 < size) : count size length ≤ length := by
  rcases Nat.eq_zero_or_pos length with rfl | hlength
  · rw [count, Nat.div_eq_of_lt (by omega)]
  · obtain ⟨s, rfl⟩ : ∃ s, size = s + 1 := ⟨size - 1, by omega⟩
    obtain ⟨l, rfl⟩ : ∃ l, length = l + 1 := ⟨length - 1, by omega⟩
    refine Nat.div_le_of_le_mul ?_
    rw [Nat.add_one_mul, Nat.mul_add_one]
    omega

def gather (total : ℕ) (received : List (ℕ × β)) : Option (List β) :=
  (List.range total).mapM fun i => received.lookup i

theorem lookup_filterMap (total : ℕ) (f : ℕ → β) (order : List ℕ) {i : ℕ} (hi : i < total) :
    (order.filterMap fun j => if j < total then some (j, f j) else none).lookup i =
      if i ∈ order then some (f i) else none := by
  induction order with
  | nil => rfl
  | cons j order ih =>
    by_cases hj : j < total
    · simp only [List.filterMap_cons, hj, if_true, List.lookup_cons, ih]
      by_cases hij : i = j
      · simp [hij]
      · have hb : (i == j) = false := beq_eq_false_iff_ne.mpr hij
        simp [hb, hij]
    · have hij : i ≠ j := by omega
      simp only [List.filterMap_cons, hj, if_false, ih, List.mem_cons, hij, false_or]

theorem mapM_some (f : ℕ → β) {g : ℕ → Option β} : ∀ is : List ℕ, (∀ i ∈ is, g i = some (f i)) →
    is.mapM g = some (is.map f)
  | [], _ => rfl
  | i :: is, h => by
    rw [List.mapM_cons, h i List.mem_cons_self,
      mapM_some f is fun j hj => h j (List.mem_cons_of_mem i hj)]
    rfl

theorem mapM_none {g : ℕ → Option β} {i : ℕ} (hi : g i = none) : ∀ {is : List ℕ}, i ∈ is →
    is.mapM g = none
  | j :: is, h => by
    rw [List.mapM_cons]
    rcases List.mem_cons.mp h with rfl | h
    · rw [hi]
      rfl
    · rw [mapM_none hi h]
      cases g j <;> rfl

theorem gather_filterMap (total : ℕ) (f : ℕ → β) (order : List ℕ) :
    gather total (order.filterMap fun j => if j < total then some (j, f j) else none) =
      if ∀ i < total, i ∈ order then some ((List.range total).map f) else none := by
  unfold gather
  split_ifs with hall
  · refine mapM_some f _ fun i hi => ?_
    have hi := List.mem_range.mp hi
    rw [lookup_filterMap total f order hi, if_pos (hall i hi)]
  · obtain ⟨i, hi, hmissing⟩ : ∃ i < total, i ∉ order := by simpa using hall
    refine mapM_none (i := i) ?_ (List.mem_range.mpr hi)
    rw [lookup_filterMap total f order hi, if_neg hmissing]

end Fragments

end Semprec
