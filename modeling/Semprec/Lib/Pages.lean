import Mathlib.Order.Defs.LinearOrder
import Mathlib.Data.List.Basic
import Mathlib.Data.List.Sort

/-!
# Pages of a sorted list

The first `n` elements of a sorted list: a page has all that is no greater than its last element,
and a page that is not full has all there is, so pages one after another miss nothing
(`mem_pageAfter`, `followPages_keysetPage`).
-/

namespace Semprec

variable {α : Type*}

theorem mem_take_of_le_getLast [PartialOrder α] {n : ℕ} {found : List α}
    (hs : found.Pairwise (· ≤ ·)) {x last : α} (hx : x ∈ found)
    (hlast : last ∈ (found.take n).getLast?) (hle : x ≤ last) : x ∈ found.take n := by
  rw [← List.take_append_drop n found] at hx hs
  rcases List.mem_append.mp hx with hx | hx
  · exact hx
  · have hmem := List.mem_of_getLast? (Option.mem_def.mp hlast)
    have hge := (List.pairwise_append.mp hs).2.2 last hmem x hx
    exact le_antisymm hle hge ▸ hmem

theorem take_of_length_lt {n : ℕ} {found : List α} (h : (found.take n).length < n) :
    found.take n = found := by
  rw [List.length_take] at h
  exact List.take_of_length_le (by omega)

theorem mem_pageAfter {ids : List ℕ} {cursor : Option ℕ} {n id : ℕ} (hn : 0 < n) (hid : id ∈ ids)
    (hnot : id ∉ ((ids.filter fun id => cursor.all (· < id)).insertionSort (· ≤ ·)).take n) :
    (∃ c ∈ cursor, id ≤ c) ∨ ∃ last,
      (((ids.filter fun id => cursor.all (· < id)).insertionSort (· ≤ ·)).take n).getLast? =
        some last ∧
      ¬(((ids.filter fun id => cursor.all (· < id)).insertionSort (· ≤ ·)).take n).length < n ∧
      last < id := by
  by_cases hafter : cursor.all (· < id) = true
  · refine .inr ?_
    generalize hfound : (ids.filter fun id => cursor.all (· < id)).insertionSort (· ≤ ·) = found
      at hnot ⊢
    have hsorted : found.Pairwise (· ≤ ·) := hfound ▸ List.pairwise_insertionSort _ _
    have hmem : id ∈ found := by
      rw [← hfound, List.mem_insertionSort]
      exact List.mem_filter.mpr ⟨hid, hafter⟩
    have hfull : ¬(found.take n).length < n := fun hlt =>
      hnot (by
        rw [take_of_length_lt hlt]
        exact hmem)
    rcases hlast : (found.take n).getLast? with _ | last
    · rw [List.getLast?_eq_none_iff.mp hlast] at hfull
      exact absurd hn hfull
    · exact ⟨last, rfl, hfull, lt_of_not_ge fun hle =>
        hnot (mem_take_of_le_getLast hsorted hmem hlast hle)⟩
  · refine .inl ?_
    rcases cursor with _ | c
    · exact absurd rfl hafter
    · exact ⟨c, rfl, by simpa using hafter⟩

/-! ## Pages one after another -/

def followPages {κ : Type*} (page : Option κ → List α × Option κ) : ℕ → Option κ → Option (List α)
  | 0, _ => none
  | n + 1, cursor =>
    match (page cursor).2 with
    | none => some (page cursor).1
    | some next => (followPages page n (some next)).map ((page cursor).1 ++ ·)

section Keyset

variable {κ : Type*} [LinearOrder κ] (key : α → κ)

def keysetPage (found : List α) (limit : ℕ) (cursor : Option κ) : List α × Option κ :=
  let after := found.filter fun x => cursor.all (· < key x)
  (after.take limit, if limit < after.length then (after.take limit).getLast?.map key else none)

variable {key}

theorem filter_after_append {before rest : List α} {last : α}
    (hs : (before ++ rest).Pairwise (key · < key ·)) (hlast : last ∈ before.getLast?) :
    ((before ++ rest).filter fun x => (some (key last)).all (· < key x)) = rest := by
  obtain ⟨hbefore, -, hcross⟩ := List.pairwise_append.mp hs
  obtain ⟨front, rfl⟩ := List.getLast?_eq_some_iff.mp hlast
  rw [List.filter_append, List.filter_eq_nil_iff.mpr, List.filter_eq_self.mpr, List.nil_append]
  · intro x hx
    simpa using hcross last (List.mem_of_getLast? hlast) x hx
  · intro x hx
    rcases List.mem_append.mp hx with hx | hx
    · simpa using ((List.pairwise_append.mp hbefore).2.2 x hx last (List.mem_singleton_self _)).le
    · simp [List.mem_singleton.mp hx]

variable {β : Type*} (f : α → Option β)

theorem followPages_from {found : List α} {limit : ℕ} (hlimit : 0 < limit)
    (hs : found.Pairwise (key · < key ·)) :
    ∀ (n : ℕ) (before rest : List α) (cursor : Option κ), found = before ++ rest →
      (found.filter fun x => cursor.all (· < key x)) = rest → rest.length < n →
      followPages (fun cursor => ((keysetPage key found limit cursor).1.filterMap f,
        (keysetPage key found limit cursor).2)) n cursor = some (rest.filterMap f)
  | 0, _, _, _, _, _, hn => absurd hn (Nat.not_lt_zero _)
  | n + 1, before, rest, cursor, hfound, hrest, hn => by
    simp only [followPages, keysetPage, hrest]
    split_ifs with hmore
    · -- the last element of the page is its cursor
      obtain ⟨last, hlast⟩ : ∃ last, (rest.take limit).getLast? = some last := by
        refine Option.ne_none_iff_exists'.mp fun hnone => ?_
        have hlen := congrArg List.length (List.getLast?_eq_none_iff.mp hnone)
        rw [List.length_take, List.length_nil] at hlen
        omega
      have hsplit : found = (before ++ rest.take limit) ++ rest.drop limit := by
        rw [List.append_assoc, List.take_append_drop, hfound]
      have hend : last ∈ (before ++ rest.take limit).getLast? := by
        rw [List.getLast?_append, hlast]
        rfl
      have hafter : (found.filter fun x => (some (key last)).all (· < key x)) =
          rest.drop limit := by
        rw [hsplit]
        exact filter_after_append (hsplit ▸ hs) hend
      have hnext := followPages_from hlimit hs n _ _ _ hsplit hafter
        (by rw [List.length_drop]; omega)
      simp only [hlast, Option.map_some]
      simp only [keysetPage] at hnext
      rw [hnext, Option.map_some, ← List.filterMap_append, List.take_append_drop]
    · rw [List.take_of_length_le (not_lt.mp hmore)]

end Keyset

end Semprec
