import Mathlib.Tactic.Common
import Semprec.Yjs

/-!
# One client's documents

The Yjs operations on documents that a single client edits: its structs are numbered by its clock,
and a struct needs every struct of a lower clock.  They can be computed, so runs of the document
layer can be.
-/

namespace Semprec

namespace Yjs

/-- Each struct needs the one before it. -/
def clockDep (n m : ℕ) : Prop := m + 1 = n

/-- How far the clocks of a document go up from 0 without a gap, counting at most `fuel` of
them. -/
def clockUpTo (d : List ℕ) : ℕ → ℕ
  | 0 => 0
  | fuel + 1 => if clockUpTo d fuel ∈ d then clockUpTo d fuel + 1 else clockUpTo d fuel

/-- The clocks of a document that are integrated: those with no gap below them. -/
def gapless (d : List ℕ) : List ℕ := d.filter (· < clockUpTo d d.length)

/-- What an update adds to the integrated clocks of a document. -/
def newlyGapless (d u : List ℕ) : List ℕ := (gapless (d ++ u)).filter (· ∉ gapless d)

def singleClient : Yjs where
  Struct := ℕ
  dependsOn := clockDep
  Doc := List ℕ
  Update := List ℕ
  newDoc := []
  applyUpdate d u := d ++ u
  updateEvent d u := if newlyGapless d u = [] then none else some (newlyGapless d u)
  encodeStateAsUpdate d := d
  structs d := {n | n ∈ d}
  content u := {n | n ∈ u}

theorem clockDep_reach {n m : ℕ} : Relation.ReflTransGen clockDep n m ↔ m ≤ n := by
  refine ⟨fun h => ?_, fun h => ?_⟩
  · induction h with
    | refl => exact le_rfl
    | tail _ hd ih =>
      unfold clockDep at hd
      omega
  · induction n, h using Nat.le_induction with
    | base => exact .refl
    | succ n _ ih => exact .head (show n + 1 = n + 1 from rfl) ih

theorem mem_of_lt_clockUpTo {d : List ℕ} : ∀ {fuel n : ℕ}, n < clockUpTo d fuel → n ∈ d
  | fuel + 1, n, h => by
    unfold clockUpTo at h
    split_ifs at h with hd
    · rcases Nat.lt_succ_iff_lt_or_eq.mp h with h | rfl
      · exact mem_of_lt_clockUpTo h
      · exact hd
    · exact mem_of_lt_clockUpTo h

theorem le_clockUpTo {d : List ℕ} : ∀ {fuel k : ℕ}, k ≤ fuel → (∀ m < k, m ∈ d) →
    k ≤ clockUpTo d fuel
  | 0, k, hk, _ => hk
  | fuel + 1, k, hk, h => by
    unfold clockUpTo
    rcases Nat.lt_or_ge (clockUpTo d fuel) k with hlt | hge
    · rw [if_pos (h _ hlt)]
      rcases hk.lt_or_eq with hk | rfl
      · exact (le_clockUpTo (Nat.lt_succ_iff.mp hk) h).trans (Nat.le_succ _)
      · exact Nat.succ_le_succ (le_clockUpTo le_rfl fun m hm => h m (Nat.lt_succ_of_lt hm))
    · split_ifs <;> omega

theorem mem_gapless_iff {d : List ℕ} {n : ℕ} : n ∈ gapless d ↔ n ∈ d ∧ ∀ m < n, m ∈ d := by
  simp only [gapless, List.mem_filter, decide_eq_true_eq]
  refine and_congr_right fun hn => ⟨fun hlt m hm => mem_of_lt_clockUpTo (hm.trans hlt), fun h => ?_⟩
  have hall : ∀ m < n + 1, m ∈ d := fun m hm =>
    (Nat.lt_succ_iff_lt_or_eq.mp hm).elim (h m) fun he => he ▸ hn
  refine le_clockUpTo ?_ hall
  have hlen := (List.nodup_range (n := n + 1)).length_le_of_subset
    fun m hm => hall m (List.mem_range.mp hm)
  rwa [List.length_range] at hlen

theorem mem_gapless {d : List ℕ} {n : ℕ} :
    n ∈ gapless d ↔ n ∈ integrated clockDep {m | m ∈ d} := by
  rw [mem_gapless_iff]
  refine ⟨fun ⟨hn, hlt⟩ m hm => ?_, fun h => ?_⟩
  · rcases (clockDep_reach.mp hm).eq_or_lt with rfl | hm
    · exact hn
    · exact hlt m hm
  · exact ⟨h n .refl, fun m hm => h m (clockDep_reach.mpr hm.le)⟩

theorem delta_clockDep (d u : List ℕ) :
    delta clockDep {n | n ∈ d} {n | n ∈ u} = {n | n ∈ newlyGapless d u} := by
  have hunion : ({n | n ∈ d} ∪ {n | n ∈ u} : Set ℕ) = {n | n ∈ d ++ u} := by
    ext n
    exact List.mem_append.symm
  ext n
  rw [delta, hunion]
  simp only [Set.mem_sdiff, ← mem_gapless, newlyGapless, Set.mem_ofPred_eq, List.mem_filter,
    decide_eq_true_eq]

theorem singleClient_lawful : singleClient.Lawful where
  structs_newDoc := by
    ext n
    exact iff_of_false List.not_mem_nil (Set.notMem_empty n)
  structs_applyUpdate d u := by
    ext n
    exact List.mem_append
  content_encodeStateAsUpdate _ := rfl
  updateEvent_none := fun (d u : List ℕ) => by
    change (if newlyGapless d u = [] then none else some (newlyGapless d u)) = none ↔
      delta clockDep {n | n ∈ d} {n | n ∈ u} = ∅
    rw [delta_clockDep, Set.eq_empty_iff_forall_notMem]
    split_ifs with h
    · simp [h]
    · simpa using List.exists_mem_of_ne_nil _ h
  updateEvent_some := fun (d u e : List ℕ) h => by
    change (if newlyGapless d u = [] then none else some (newlyGapless d u)) = some e at h
    split_ifs at h
    cases h
    exact (delta_clockDep d u).symm

theorem singleClient_content_append (d u : List ℕ) :
    singleClient.content (d ++ u : List ℕ) = singleClient.content d ∪ singleClient.content u := by
  ext n
  exact List.mem_append

theorem mem_visible_singleClient {d : List ℕ} {n : ℕ} :
    n ∈ singleClient.visible (singleClient.content d) ↔ n ∈ gapless d :=
  mem_gapless.symm

/-- An update whose clocks leave no gap in the document is integrated in full. -/
theorem subset_visible_singleClient {d u : List ℕ} (h : ∀ n ∈ u, n ∈ gapless (d ++ u)) :
    singleClient.content u ⊆
      singleClient.visible (singleClient.content d ∪ singleClient.content u) := by
  rw [← singleClient_content_append]
  exact fun n hn => mem_visible_singleClient.mpr (h n hn)

end Yjs

end Semprec
