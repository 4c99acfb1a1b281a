import Mathlib.Data.Set.Insert
import Mathlib.Data.Set.Lattice
import Mathlib.Logic.Relation
import Mathlib.Order.CompletePartialOrder
import Mathlib.Tactic.Tauto

/-!
# Components kept up to date

Vertices are added one at a time to a graph whose edges are given by a relation, and every vertex
carries a label.  The labels are those of the connected components (`Labels`) as long as a new
vertex brings the labels of its neighbours together and takes that label, or a new one when it has
no neighbour (`Labels.insert`).
-/

namespace Semprec

namespace Components

open Relation

variable {V T : Type*} {r : V → V → Prop} {S : Set V} {f f' : V → T} {u v w x : V} {t : T}

/-- An edge between two vertices of the set, in either direction. -/
def Link (r : V → V → Prop) (S : Set V) (u v : V) : Prop := u ∈ S ∧ v ∈ S ∧ (r u v ∨ r v u)

def Joined (r : V → V → Prop) (S : Set V) : V → V → Prop := ReflTransGen (Link r S)

def Labels (r : V → V → Prop) (S : Set V) (f : V → T) : Prop :=
  ∀ u ∈ S, ∀ v ∈ S, f u = f v ↔ Joined r S u v

/-- The labels of the neighbours. -/
def Around (r : V → V → Prop) (S : Set V) (f : V → T) (x : V) : Set T :=
  {t | ∃ u ∈ S, (r x u ∨ r u x) ∧ f u = t}

theorem Link.symm (h : Link r S u v) : Link r S v u := ⟨h.2.1, h.1, h.2.2.symm⟩

theorem Joined.symm (h : Joined r S u v) : Joined r S v u := by
  induction h with
  | refl => exact .refl
  | tail _ hbc ih => exact .head hbc.symm ih

theorem Joined.trans (h : Joined r S u v) (h' : Joined r S v w) : Joined r S u w :=
  ReflTransGen.trans h h'

theorem Joined.mono {S' : Set V} (hS : S ⊆ S') (h : Joined r S u v) : Joined r S' u v := by
  induction h with
  | refl => exact .refl
  | tail _ hbc ih => exact ih.tail ⟨hS hbc.1, hS hbc.2.1, hbc.2.2⟩

/-- A path in the larger set runs in the smaller one, or through the new vertex: its end then is
the vertex itself or is joined to a neighbour of it. -/
theorem joined_insert (hu : u ∈ S) (h : Joined r (insert x S) u v) :
    (v ∈ S ∧ Joined r S u v) ∨ (∃ a ∈ S, (r x a ∨ r a x) ∧ Joined r S u a) := by
  induction h with
  | refl => exact .inl ⟨hu, .refl⟩
  | @tail b c _ hbc ih =>
    rcases ih with ⟨hb, hj⟩ | hj
    · rcases Set.mem_insert_iff.mp hbc.2.1 with rfl | hc
      · exact .inr ⟨b, hb, hbc.2.2.symm, hj⟩
      · exact .inl ⟨hc, hj.tail ⟨hb, hc, hbc.2.2⟩⟩
    · exact .inr hj

/-- What a path from the new vertex reaches is joined to a neighbour of it. -/
theorem joined_insert_self (hv : v ∈ S) (h : Joined r (insert x S) x v) (hx : x ∉ S) :
    ∃ a ∈ S, (r x a ∨ r a x) ∧ Joined r S a v := by
  obtain ⟨hxS, -⟩ | ⟨a, ha, hxa, hj⟩ := joined_insert hv h.symm
  · exact absurd hxS hx
  · exact ⟨a, ha, hxa, hj.symm⟩

theorem joined_neighbour (hu : u ∈ S) (h : r x u ∨ r u x) : Joined r (insert x S) x u :=
  .single ⟨Set.mem_insert _ _, Set.mem_insert_of_mem _ hu, h⟩

theorem Labels.mem_around (h : Labels r S f) (hu : u ∈ S) :
    f u ∈ Around r S f x ↔ ∃ a ∈ S, (r x a ∨ r a x) ∧ Joined r S u a := by
  constructor
  · rintro ⟨a, ha, hxa, hf⟩
    exact ⟨a, ha, hxa, (h u hu a ha).mp hf.symm⟩
  · rintro ⟨a, ha, hxa, hj⟩
    exact ⟨a, ha, hxa, ((h u hu a ha).mpr hj).symm⟩

theorem Labels.joined_insert_iff (h : Labels r S f) (hu : u ∈ S) (hv : v ∈ S) :
    Joined r (insert x S) u v ↔
      f u = f v ∨ (f u ∈ Around r S f x ∧ f v ∈ Around r S f x) := by
  constructor
  · intro hj
    rcases joined_insert hu hj with ⟨-, huv⟩ | hux
    · exact .inl ((h u hu v hv).mpr huv)
    · rcases joined_insert hv hj.symm with ⟨-, hvu⟩ | hvx
      · exact .inl ((h v hv u hu).mpr hvu).symm
      · exact .inr ⟨(h.mem_around hu).mpr hux, (h.mem_around hv).mpr hvx⟩
  · rintro (huv | ⟨hux, hvx⟩)
    · exact ((h u hu v hv).mp huv).mono (Set.subset_insert _ _)
    · obtain ⟨a, ha, hxa, hua⟩ := (h.mem_around hu).mp hux
      obtain ⟨b, hb, hxb, hvb⟩ := (h.mem_around hv).mp hvx
      have hax : Joined r (insert x S) a x := (joined_neighbour ha hxa).symm
      have hxb' : Joined r (insert x S) x b := joined_neighbour hb hxb
      exact (((hua.mono (Set.subset_insert _ _)).trans hax).trans hxb').trans
        (hvb.mono (Set.subset_insert _ _)).symm

theorem Labels.joined_self_iff (h : Labels r S f) (hx : x ∉ S) (hv : v ∈ S) :
    Joined r (insert x S) x v ↔ f v ∈ Around r S f x := by
  rw [h.mem_around hv]
  constructor
  · intro hj
    obtain ⟨a, ha, hxa, hav⟩ := joined_insert_self hv hj hx
    exact ⟨a, ha, hxa, hav.symm⟩
  · rintro ⟨a, ha, hxa, hva⟩
    exact (joined_neighbour ha hxa).trans (hva.mono (Set.subset_insert _ _)).symm

open scoped Classical in
theorem Labels.insert (h : Labels r S f) (hx : x ∉ S)
    (hf : ∀ u ∈ S, f' u = if f u ∈ Around r S f x then t else f u) (hfx : f' x = t)
    (ht : t ∈ Around r S f x ∨ ∀ u ∈ S, f u ≠ t) : Labels r (insert x S) f' := by
  have hin : ∀ u ∈ S, f' u = t ↔ f u ∈ Around r S f x := by
    intro u hu
    rw [hf u hu]
    split_ifs with hux
    · simp [hux]
    · refine ⟨fun hut => ?_, fun hux' => absurd hux' hux⟩
      rcases ht with ht | ht
      · rwa [hut]
      · exact absurd hut (ht u hu)
  intro u hu' v hv'
  rcases Set.mem_insert_iff.mp hu' with hu | hu <;> rcases Set.mem_insert_iff.mp hv' with hv | hv
  · rw [hu, hv]
    exact ⟨fun _ => .refl, fun _ => rfl⟩
  · rw [hu, h.joined_self_iff hx hv, hfx, ← hin v hv]
    exact eq_comm
  · rw [hv, hfx, hin u hu, ← h.joined_self_iff hx hu]
    exact ⟨fun h => h.symm, fun h => h.symm⟩
  · rw [h.joined_insert_iff hu hv, hf u hu, hf v hv]
    by_cases hux : f u ∈ Around r S f x <;> by_cases hvx : f v ∈ Around r S f x
    · simp [hux, hvx]
    · simp only [hux, hvx, if_true, if_false, and_false, or_false]
      have hvt : f v ≠ t := fun hvt => hvx ((hin v hv).mp (by rw [hf v hv, if_neg hvx, hvt]))
      exact ⟨fun htv => absurd htv.symm hvt, fun huv => absurd (huv ▸ hux) hvx⟩
    · simp only [hux, hvx, if_true, if_false, false_and, or_false]
      have hut : f u ≠ t := fun hut => hux ((hin u hu).mp (by rw [hf u hu, if_neg hux, hut]))
      exact ⟨fun hut' => absurd hut' hut, fun huv => absurd (huv ▸ hvx) hux⟩
    · simp [hux, hvx]

/-- Vertices that no edge reaches change no connection between the others. -/
theorem joined_union_isolated {I : Set V} (hI : ∀ u ∈ S ∪ I, ∀ v ∈ I, u ≠ v → ¬r u v ∧ ¬r v u)
    (hu : u ∈ S) (hdisj : Disjoint S I) (h : Joined r (S ∪ I) u v) : v ∈ S ∧ Joined r S u v := by
  induction h with
  | refl => exact ⟨hu, .refl⟩
  | @tail b c _ hbc ih =>
    rcases hbc.2.1 with hc | hc
    · exact ⟨hc, ih.2.tail ⟨ih.1, hc, hbc.2.2⟩⟩
    · have hne : b ≠ c := fun h => Set.disjoint_left.mp hdisj ih.1 (h ▸ hc)
      have hno := hI b (.inl ih.1) c hc hne
      exact absurd hbc.2.2 (by tauto)

theorem joined_isolated (hI : ∀ v ∈ S, u ≠ v → ¬r u v ∧ ¬r v u) (h : Joined r S u v) : v = u := by
  induction h with
  | refl => rfl
  | tail _ hbc ih =>
    subst ih
    by_contra hne
    have hno := hI _ hbc.2.1 (Ne.symm hne)
    exact absurd hbc.2.2 (by tauto)

theorem Labels.congr (h : Labels r S f) (hf : ∀ u ∈ S, f' u = f u) : Labels r S f' := by
  intro u hu v hv
  rw [hf u hu, hf v hv]
  exact h u hu v hv

end Components

end Semprec
