import Semprec.Lib.Causal

/-!
# What the document layer uses of Yjs

Documents and updates are opaque; what is observed of them is the set of structs (inserted items
and deletions) they carry.  A document knows the structs it was given; those whose dependencies it
also knows are integrated, the others wait in the document's pending store.
-/

namespace Semprec

/-- The Yjs operations the document layer calls, with the structs a document knows and an encoded
update carries. -/
structure Yjs where
  Struct : Type
  dependsOn : Struct → Struct → Prop
  Doc : Type
  Update : Type
  newDoc : Doc
  applyUpdate : Doc → Update → Doc
  /-- The update passed to `doc.on("update", …)` when a transaction applies this one, if any. -/
  updateEvent : Doc → Update → Option Update
  encodeStateAsUpdate : Doc → Update
  structs : Doc → Set Struct
  content : Update → Set Struct

namespace Yjs

/-- The documented behaviour of these operations.  An update whose structs stay pending emits no
event, and an event carries exactly what the transaction integrated. -/
structure Lawful (Y : Yjs) : Prop where
  structs_newDoc : Y.structs Y.newDoc = ∅
  structs_applyUpdate : ∀ d u, Y.structs (Y.applyUpdate d u) = Y.structs d ∪ Y.content u
  content_encodeStateAsUpdate : ∀ d, Y.content (Y.encodeStateAsUpdate d) = Y.structs d
  updateEvent_none : ∀ d u, Y.updateEvent d u = none ↔
    delta Y.dependsOn (Y.structs d) (Y.content u) = ∅
  updateEvent_some : ∀ d u e, Y.updateEvent d u = some e →
    Y.content e = delta Y.dependsOn (Y.structs d) (Y.content u)

variable (Y : Yjs)

def contents (us : List Y.Update) : Set Y.Struct := {x | ∃ u ∈ us, x ∈ Y.content u}

def applyUpdates (d : Y.Doc) (us : List Y.Update) : Y.Doc := us.foldl Y.applyUpdate d

/-- The integrated part of a set of structs: what a reader of the document sees. -/
def visible (S : Set Y.Struct) : Set Y.Struct := integrated Y.dependsOn S

variable {Y}

@[simp] theorem contents_nil : Y.contents [] = ∅ := by simp [contents]

@[simp] theorem contents_cons (u : Y.Update) (us : List Y.Update) :
    Y.contents (u :: us) = Y.content u ∪ Y.contents us := by
  ext x
  simp [contents]

@[simp] theorem contents_append (us vs : List Y.Update) :
    Y.contents (us ++ vs) = Y.contents us ∪ Y.contents vs := by
  ext x
  simp only [contents, List.mem_append, Set.mem_ofPred_eq, Set.mem_union]
  grind

theorem contents_congr {us vs : List Y.Update} (h : ∀ u, u ∈ us ↔ u ∈ vs) :
    Y.contents us = Y.contents vs := by
  ext x
  simp [contents, h]

theorem content_subset_contents {u : Y.Update} {us : List Y.Update} (h : u ∈ us) :
    Y.content u ⊆ Y.contents us := fun _ hx => ⟨u, h, hx⟩

namespace Lawful

variable (hY : Y.Lawful)
include hY

theorem structs_applyUpdates : ∀ (us : List Y.Update) (d : Y.Doc),
    Y.structs (Y.applyUpdates d us) = Y.structs d ∪ Y.contents us
  | [], d => by simp [applyUpdates]
  | u :: us, d => by
    have ih := structs_applyUpdates us (Y.applyUpdate d u)
    simp only [applyUpdates, List.foldl_cons] at ih ⊢
    rw [ih, hY.structs_applyUpdate, contents_cons, Set.union_assoc]

theorem structs_applyUpdate_newDoc (u : Y.Update) :
    Y.structs (Y.applyUpdate Y.newDoc u) = Y.content u := by
  rw [hY.structs_applyUpdate, hY.structs_newDoc, Set.empty_union]

theorem subset_visible_of_event {d : Y.Doc} {u : Y.Update}
    (h : Y.content u ⊆ Y.visible (Y.structs d ∪ Y.content u)) {S : Set Y.Struct}
    (hd : Y.structs d ⊆ S) (he : ∀ e, Y.updateEvent d u = some e → Y.content e ⊆ S) :
    Y.content u ⊆ Y.visible S := by
  have hdelta : delta Y.dependsOn (Y.structs d) (Y.content u) ⊆ S := by
    rcases hev : Y.updateEvent d u with _ | e
    · rw [(hY.updateEvent_none d u).mp hev]
      exact Set.empty_subset S
    · rw [← hY.updateEvent_some d u e hev]
      exact he e hev
  have hall : Y.visible (Y.structs d ∪ Y.content u) ⊆ S := by
    intro x hx
    by_cases hxd : x ∈ integrated Y.dependsOn (Y.structs d)
    · exact hd (integrated_subset hxd)
    · exact hdelta ⟨hx, hxd⟩
  exact h.trans (closed_integrated.subset_integrated hall)

end Lawful

end Yjs

end Semprec
