import Mathlib.Data.Finite.Defs
import Mathlib.Data.List.Basic
import Mathlib.Data.List.Nodup
import Mathlib.Data.Set.Finite.Basic
import Mathlib.Logic.Relation
import Mathlib.Order.WellFounded

/-!
# Topological orders

A list that holds a node only after every node the relation puts before it.  Nodes are added to such
a list one at a time, each once all of those are in it (`Ready`), and unless the relation has a
cycle there is one to add until the list holds every node.
-/

namespace Semprec

namespace TopologicalOrder

variable {α : Type*} {nodes : Set α} {r : α → α → Prop} {order : List α} {x : α}

structure Ready (nodes : Set α) (r : α → α → Prop) (order : List α) (x : α) : Prop where
  mem : x ∈ nodes
  notMem : x ∉ order
  before : ∀ y, r y x → y ∈ order

/-- While the list lacks a node, and the relation has no cycle, there is one to add. -/
theorem exists_ready (hfin : nodes.Finite) (hacyclic : ∀ x, ¬Relation.TransGen r x x)
    (hr : ∀ y x, r y x → y ∈ nodes) (hx : x ∈ nodes) (hmissing : x ∉ order) :
    ∃ y, Ready nodes r order y := by
  have := hfin.to_subtype
  let step : nodes → nodes → Prop := fun y z => Relation.TransGen r y z
  have : IsTrans nodes step := ⟨fun _ _ _ h₁ h₂ => h₁.trans h₂⟩
  have : Std.Irrefl step := ⟨fun y => hacyclic y⟩
  have hwf : WellFounded step := Finite.wellFounded_of_trans_of_irrefl step
  obtain ⟨y, hy, hmin⟩ := hwf.has_min {y | (y : α) ∉ order} ⟨⟨x, hx⟩, hmissing⟩
  refine ⟨y, y.2, hy, fun z hz => ?_⟩
  by_contra hzmissing
  exact hmin ⟨z, hr z y hz⟩ hzmissing (.single hz)

variable [DecidableEq α]

/-- The list holds nodes only, none twice and each after those the relation puts before it. -/
structure Ordered (nodes : Set α) (r : α → α → Prop) (order : List α) : Prop where
  nodup : order.Nodup
  mem : ∀ x ∈ order, x ∈ nodes
  before : ∀ x ∈ order, ∀ y, r y x → order.idxOf y < order.idxOf x

theorem Ordered.nil : Ordered nodes r [] := ⟨List.nodup_nil, by simp, by simp⟩

theorem Ordered.mem_of_rel (h : Ordered nodes r order) {y : α} (hx : x ∈ order) (hr : r y x) :
    y ∈ order :=
  List.idxOf_lt_length_iff.mp ((h.before x hx y hr).trans (List.idxOf_lt_length_iff.mpr hx))

theorem Ordered.append (h : Ordered nodes r order) (hx : Ready nodes r order x) :
    Ordered nodes r (order ++ [x]) := by
  refine ⟨?_, ?_, ?_⟩
  · simpa [List.nodup_append, h.nodup] using fun a ha (hax : a = x) => hx.notMem (hax ▸ ha)
  · intro a ha
    rcases List.mem_append.mp ha with ha | ha
    · exact h.mem a ha
    · exact List.mem_singleton.mp ha ▸ hx.mem
  · intro a ha y hy
    rcases List.mem_append.mp ha with ha | ha
    · rw [List.idxOf_append_of_mem ha, List.idxOf_append_of_mem (h.mem_of_rel ha hy)]
      exact h.before a ha y hy
    · obtain rfl := List.mem_singleton.mp ha
      rw [List.idxOf_append_of_mem (hx.before y hy), List.idxOf_append_of_notMem hx.notMem]
      exact Nat.lt_add_right _ (List.idxOf_lt_length_iff.mpr (hx.before y hy))

/-- Along the relation one only goes forward in the list. -/
theorem Ordered.idxOf_lt (h : Ordered nodes r order) {y : α} (hx : x ∈ order)
    (hyx : Relation.TransGen r y x) : order.idxOf y < order.idxOf x := by
  induction hyx using Relation.TransGen.head_induction_on with
  | single hr => exact h.before x hx _ hr
  | head hr _ ih =>
    have hmem := List.idxOf_lt_length_iff.mp (ih.trans (List.idxOf_lt_length_iff.mpr hx))
    exact (h.before _ hmem _ hr).trans ih

/-- There is such a list of all nodes only when the relation has no cycle. -/
theorem Ordered.acyclic (h : Ordered nodes r order) (hall : ∀ x ∈ nodes, x ∈ order)
    (hr : ∀ y x, r y x → x ∈ nodes) (x : α) : ¬Relation.TransGen r x x := by
  intro hcycle
  obtain ⟨y, -, hrel⟩ := Relation.TransGen.tail'_iff.mp hcycle
  exact absurd (h.idxOf_lt (hall x (hr y x hrel)) hcycle) (lt_irrefl _)

end TopologicalOrder

end Semprec
