import Mathlib.Data.List.Basic
import Mathlib.Order.Nat
import Semprec.Trash

/-!
# The walk of a subtree

`collectItemSubtree` collects exactly the rows nested under its root through rows it includes
(`mem_collectItemSubtree`).  Each level that goes on has walked a database that no level before it
had, so as many levels as there are databases are enough.
-/

namespace Semprec

namespace Trash

variable {s : Store} {include_ : ItemRow → Bool} {root row : ItemRow}

inductive Under (s : Store) (include_ : ItemRow → Bool) (root : ItemRow) : ItemRow → Prop where
  | root : Under s include_ root root
  | row {parent row : ItemRow} {database : DatabaseRow} : Under s include_ root parent →
      database ∈ s.databases → database.parentItemId = some parent.id → row ∈ s.items →
      row.databaseId = database.id → include_ row = true → Under s include_ root row

def RowOf (s : Store) (include_ : ItemRow → Bool) (databaseId : ℕ) (row : ItemRow) : Prop :=
  row ∈ s.items ∧ row.databaseId = databaseId ∧ include_ row = true

theorem mem_filter_getAllItemsInDatabase {id : ℕ} :
    row ∈ (s.getAllItemsInDatabase id).filter include_ ↔ RowOf s include_ id row := by
  simp only [Store.getAllItemsInDatabase, List.mem_filter, decide_eq_true_eq, RowOf, and_assoc]

theorem visitDatabases_visited {id : ℕ} : ∀ {ds : List DatabaseRow} {acc : List ℕ × List ItemRow},
    id ∈ (ds.foldl (visitDatabase s include_) acc).1 ↔ id ∈ acc.1 ∨ ∃ d ∈ ds, d.id = id
  | [], acc => by simp
  | d :: ds, acc => by
    rw [List.foldl_cons, visitDatabases_visited]
    unfold visitDatabase
    split_ifs with h
    · simp only [List.mem_cons, exists_eq_or_imp]
      exact ⟨fun hid => hid.imp_right .inr, fun hid => by
        rcases hid with hid | rfl | hid
        · exact .inl hid
        · exact .inl h
        · exact .inr hid⟩
    · simp only [List.mem_cons, exists_eq_or_imp]
      exact ⟨fun hid => by
        rcases hid with (rfl | hid) | hid
        · exact .inr (.inl rfl)
        · exact .inl hid
        · exact .inr (.inr hid), fun hid => by
        rcases hid with hid | rfl | hid
        · exact .inl (.inr hid)
        · exact .inl (.inl rfl)
        · exact .inr hid⟩

theorem visitDatabases_rows : ∀ {ds : List DatabaseRow} {acc : List ℕ × List ItemRow},
    row ∈ (ds.foldl (visitDatabase s include_) acc).2 ↔
      row ∈ acc.2 ∨ ∃ d ∈ ds, d.id ∉ acc.1 ∧ RowOf s include_ d.id row
  | [], acc => by simp
  | d :: ds, acc => by
    rw [List.foldl_cons, visitDatabases_rows]
    unfold visitDatabase
    split_ifs with h
    · simp only [List.mem_cons, exists_eq_or_imp]
      exact or_congr_right ⟨.inr, fun hd => hd.resolve_left fun hd => hd.1 h⟩
    · simp only [List.mem_cons, List.mem_append, exists_eq_or_imp,
        mem_filter_getAllItemsInDatabase, not_or]
      constructor
      · rintro ((hrow | hrow) | ⟨d', hd', hid, hrow⟩)
        · exact .inl hrow
        · exact .inr (.inl ⟨h, hrow⟩)
        · exact .inr (.inr ⟨d', hd', hid.2, hrow⟩)
      · rintro (hrow | ⟨-, hrow⟩ | ⟨d', hd', hid, hrow⟩)
        · exact .inl (.inl hrow)
        · exact .inl (.inr hrow)
        · by_cases hdd : d'.id = d.id
          · exact .inl (.inr (hdd ▸ hrow))
          · exact .inr ⟨d', hd', ⟨hdd, hid⟩, hrow⟩

def OwnedBy (s : Store) (frontier : List ℕ) (d : DatabaseRow) : Prop :=
  d ∈ s.databases ∧ ∃ id ∈ frontier, d.parentItemId = some id

theorem mem_owned {frontier : List ℕ} {d : DatabaseRow} :
    d ∈ frontier.flatMap s.listDatabasesByParentItem ↔ OwnedBy s frontier d := by
  simp only [List.mem_flatMap, Store.listDatabasesByParentItem, List.mem_filter,
    decide_eq_true_eq, OwnedBy]
  exact ⟨fun ⟨id, hid, hd, hp⟩ => ⟨hd, id, hid, hp⟩, fun ⟨hd, id, hid, hp⟩ => ⟨id, hid, hd, hp⟩⟩

section frontier

variable {frontier visited visited' : List ℕ} {rows : List ItemRow}

theorem visitFrontier_visited {id : ℕ}
    (h : visitFrontier s include_ frontier visited = (visited', rows)) :
    id ∈ visited' ↔ id ∈ visited ∨ ∃ d, OwnedBy s frontier d ∧ d.id = id := by
  rw [show visited' = (visitFrontier s include_ frontier visited).1 by rw [h]]
  simp only [visitFrontier, visitDatabases_visited, mem_owned]

theorem visitFrontier_rows (h : visitFrontier s include_ frontier visited = (visited', rows)) :
    row ∈ rows ↔ ∃ d, OwnedBy s frontier d ∧ d.id ∉ visited ∧ RowOf s include_ d.id row := by
  rw [show rows = (visitFrontier s include_ frontier visited).2 by rw [h]]
  simp only [visitFrontier, visitDatabases_rows, mem_owned, List.not_mem_nil, false_or]

end frontier

theorem countP_lt_of_imp {α : Type} {p q : α → Bool} {l : List α} {a : α}
    (h : ∀ x ∈ l, p x = true → q x = true) (ha : a ∈ l) (hp : p a = false) (hq : q a = true) :
    l.countP p < l.countP q := by
  obtain ⟨l₁, l₂, rfl⟩ := List.append_of_mem ha
  have h₁ : l₁.countP p ≤ l₁.countP q :=
    List.countP_mono_left fun x hx => h x (List.mem_append_left _ hx)
  have h₂ : l₂.countP p ≤ l₂.countP q :=
    List.countP_mono_left fun x hx => h x (List.mem_append_right _ (List.mem_cons_of_mem _ hx))
  simp only [List.countP_append, List.countP_cons, hp, hq, if_true, Bool.false_eq_true, if_false]
  omega

/-- How many database rows have not been walked. -/
def unvisited (s : Store) (visited : List ℕ) : ℕ := s.databases.countP fun d => d.id ∉ visited

/-- A level that finds rows walks a database for the first time. -/
theorem unvisited_lt {frontier visited visited' : List ℕ} {rows : List ItemRow}
    (h : visitFrontier s include_ frontier visited = (visited', rows)) (hrow : row ∈ rows) :
    unvisited s visited' < unvisited s visited := by
  obtain ⟨d, hd, hid, -⟩ := (visitFrontier_rows h).mp hrow
  have hd' : d.id ∈ visited' := (visitFrontier_visited h).mpr (.inr ⟨d, hd, rfl⟩)
  refine countP_lt_of_imp ?_ hd.1 (by simpa using hd') (by simpa using hid)
  intro x _ hx
  simp only [decide_eq_true_eq] at hx ⊢
  exact fun hv => hx ((visitFrontier_visited h).mpr (.inl hv))

theorem under_of_mem_subtreeBelow {root : ItemRow} : ∀ {fuel : ℕ} {frontier visited : List ℕ},
    (∀ id ∈ frontier, ∃ p, Under s include_ root p ∧ p.id = id) →
    row ∈ subtreeBelow s include_ fuel frontier visited → Under s include_ root row
  | 0, _, _, _, h => nomatch h
  | fuel + 1, frontier, visited, hf, h => by
    unfold subtreeBelow at h
    split at h
    · cases h
    · rename_i visited' rows _ hv
      have hrows : ∀ r ∈ rows, Under s include_ root r := by
        intro r hr
        obtain ⟨d, ⟨hd, id, hid, hp⟩, -, hmem, hdb, hinc⟩ := (visitFrontier_rows hv).mp hr
        obtain ⟨p, hup, rfl⟩ := hf id hid
        exact .row hup hd hp hmem hdb hinc
      rcases List.mem_append.mp h with h | h
      · exact hrows row h
      · refine under_of_mem_subtreeBelow (fun id hid => ?_) h
        obtain ⟨r, hr, rfl⟩ := List.mem_map.mp hid
        exact ⟨r, hrows r hr, rfl⟩

theorem subtreeBelow_closed : ∀ {fuel : ℕ} {frontier visited : List ℕ},
    unvisited s visited ≤ fuel → ∀ {d : DatabaseRow},
    (OwnedBy s frontier d ∨ ∃ p ∈ subtreeBelow s include_ fuel frontier visited,
      d ∈ s.databases ∧ d.parentItemId = some p.id) →
    RowOf s include_ d.id row →
    d.id ∈ visited ∨ row ∈ subtreeBelow s include_ fuel frontier visited
  | 0, frontier, visited, hle, d, hd, hrow => by
    have hall : d ∈ s.databases := by
      rcases hd with hd | ⟨p, hp, -⟩
      · exact hd.1
      · cases hp
    have hzero := List.countP_eq_zero.mp (Nat.le_zero.mp hle) d hall
    simp only [decide_eq_true_eq, not_not] at hzero
    exact .inl hzero
  | fuel + 1, frontier, visited, hle, d, hd, hrow => by
    by_cases hvis : d.id ∈ visited
    · exact .inl hvis
    refine .inr ?_
    unfold subtreeBelow at hd ⊢
    split at hd
    · rename_i visited' hv
      rcases hd with hd | ⟨p, hp, -⟩
      · have := (visitFrontier_rows hv).mpr ⟨d, hd, hvis, hrow⟩
        cases this
      · cases hp
    · rename_i visited' rows hne hv
      have hfound : ∀ {d' : DatabaseRow}, OwnedBy s frontier d' → d'.id = d.id → row ∈ rows := by
        intro d' hd' hid
        exact (visitFrontier_rows hv).mpr ⟨d', hd', hid ▸ hvis, hid ▸ hrow⟩
      have hlt : unvisited s visited' ≤ fuel := by
        obtain ⟨r, hr⟩ := List.exists_mem_of_ne_nil rows hne
        have := unvisited_lt hv hr
        omega
      have hnext : (OwnedBy s (rows.map fun r => r.id) d ∨
          ∃ p ∈ subtreeBelow s include_ fuel (rows.map fun r => r.id) visited',
            d ∈ s.databases ∧ d.parentItemId = some p.id) →
          row ∈ rows ++ subtreeBelow s include_ fuel (rows.map fun r => r.id) visited' := by
        intro hd
        rcases subtreeBelow_closed hlt hd hrow with hid | hrow
        · rcases (visitFrontier_visited hv).mp hid with hid | ⟨d', hd', hid⟩
          · exact absurd hid hvis
          · exact List.mem_append_left _ (hfound hd' hid)
        · exact List.mem_append_right _ hrow
      rcases hd with hd | ⟨p, hp, hd, hpar⟩
      · exact List.mem_append_left _ (hfound hd rfl)
      · rcases List.mem_append.mp hp with hp | hp
        · exact hnext (.inl ⟨hd, p.id, List.mem_map_of_mem hp, hpar⟩)
        · exact hnext (.inr ⟨p, hp, hd, hpar⟩)

theorem mem_collectItemSubtree :
    row ∈ collectItemSubtree s root include_ ↔ Under s include_ root row := by
  have hle : unvisited s [] ≤ s.databases.length := List.countP_le_length
  constructor
  · intro h
    rcases List.mem_cons.mp h with rfl | h
    · exact .root
    · refine under_of_mem_subtreeBelow (fun id hid => ?_) h
      cases List.mem_singleton.mp hid
      exact ⟨root, .root, rfl⟩
  · intro h
    induction h with
    | root => exact List.mem_cons_self
    | row _ hd hp hmem hdb hinc ih =>
      refine List.mem_cons_of_mem _ ((subtreeBelow_closed hle ?_ ⟨hmem, hdb, hinc⟩).resolve_left
        List.not_mem_nil)
      rcases List.mem_cons.mp ih with rfl | ih
      · exact .inl ⟨hd, _, List.mem_singleton_self _, hp⟩
      · exact .inr ⟨_, ih, hd, hp⟩

end Trash

end Semprec
