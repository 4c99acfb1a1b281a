import Semprec.Lib.TopologicalOrder
import Semprec.TenantPurgeOrder

/-!
# A purge removes no table before those that reference it

At the head of a round the tables that are ready are those a topological order may go on with
(`PurgeState.Inv`), and taking the first of them keeps that (`inv_take`).  What is taken follows
from which tables and which keys there are, so neither their order nor their number matters.
-/

namespace Semprec

namespace TenantPurgeOrder

open TopologicalOrder

variable {tables known set : List String} {foreignKeys : List TableForeignKey} {name x : String}
  {nodes : Set String} {r : String → String → Prop}

/-! ## The tables and the keys -/

@[simp]
theorem mem_addToSet : x ∈ addToSet set name ↔ x ∈ set ∨ x = name := by
  unfold addToSet
  split_ifs with h
  · exact ⟨.inl, fun hx => hx.elim id fun hx => hx ▸ h⟩
  · simp

theorem nodup_addToSet (h : set.Nodup) : (addToSet set name).Nodup := by
  unfold addToSet
  split_ifs with hmem
  · exact h
  · simpa [List.nodup_append, h] using fun a ha (hax : a = name) => hmem (hax ▸ ha)

theorem mem_foldl_addToSet : ∀ {names set : List String},
    x ∈ names.foldl addToSet set ↔ x ∈ set ∨ x ∈ names
  | [], set => by simp
  | name :: names, set => by
    rw [List.foldl_cons, mem_foldl_addToSet, mem_addToSet, List.mem_cons, or_assoc]

theorem nodup_foldl_addToSet : ∀ {names set : List String}, set.Nodup →
    (names.foldl addToSet set).Nodup
  | [], _, h => h
  | _ :: _, _, h => by
    rw [List.foldl_cons]
    exact nodup_foldl_addToSet (nodup_addToSet h)

theorem mem_known : x ∈ tables.foldl addToSet [] ↔ x ∈ tables := by simp [mem_foldl_addToSet]

theorem nodup_known (tables : List String) : (tables.foldl addToSet []).Nodup :=
  nodup_foldl_addToSet List.nodup_nil

/-- The maps hold the pairs of `r`, on the side of the parents none of them twice. -/
structure TableGraph.Shows (r : String → String → Prop) (graph : TableGraph) : Prop where
  pending : ∀ c p, c ∈ graph.pendingChildren p ↔ r c p
  parents : ∀ c p, p ∈ graph.parentsOf c ↔ r c p
  nodup : ∀ c, (graph.parentsOf c).Nodup

theorem mem_update_addToSet {f : String → List String} {a b c d : String} :
    c ∈ Function.update f a (addToSet (f a) b) d ↔ c ∈ f d ∨ d = a ∧ c = b := by
  rw [Function.update_apply]
  split_ifs with h
  · subst h
    simp
  · simp [h]

theorem TableGraph.Shows.addKey {done : List TableForeignKey} {graph : TableGraph}
    (h : graph.Shows (References known done)) (key : TableForeignKey) :
    (graph.addKey known key).Shows (References known (done ++ [key])) := by
  have href : ∀ c p, References known (done ++ [key]) c p ↔ References known done c p ∨
      References known [key] c p := by
    intro c p
    simp only [References, List.mem_append]
    exact or_and_right
  unfold TableGraph.addKey
  split_ifs with hskip
  · have hnone : ∀ c p, ¬References known [key] c p := by
      rintro c p ⟨hkey, hne, hc, hp⟩
      obtain rfl := List.mem_singleton.mp hkey
      exact hskip.elim hne fun hskip => hskip.elim (absurd hc) (absurd hp)
    refine ⟨fun c p => ?_, fun c p => ?_, h.nodup⟩
    · rw [href, h.pending, or_iff_left (hnone c p)]
    · rw [href, h.parents, or_iff_left (hnone c p)]
  · push Not at hskip
    have hone : ∀ c p, References known [key] c p ↔ p = key.referencedTable ∧ c = key.table := by
      intro c p
      constructor
      · rintro ⟨hkey, -⟩
        obtain rfl := List.mem_singleton.mp hkey
        exact ⟨rfl, rfl⟩
      · rintro ⟨rfl, rfl⟩
        exact ⟨List.mem_singleton.mpr rfl, hskip⟩
    refine ⟨fun c p => ?_, fun c p => ?_, fun c => ?_⟩
    · rw [mem_update_addToSet, href, h.pending, hone]
    · rw [mem_update_addToSet, href, h.parents, hone, and_comm (a := c = key.table)]
    · simp only [Function.update_apply]
      split_ifs
      · exact nodup_addToSet (h.nodup _)
      · exact h.nodup c

theorem tableGraph_shows (known : List String) (foreignKeys : List TableForeignKey) :
    (tableGraph known foreignKeys).Shows (References known foreignKeys) := by
  have hfold : ∀ (keys done : List TableForeignKey) (graph : TableGraph),
      graph.Shows (References known done) →
        (keys.foldl (TableGraph.addKey known) graph).Shows (References known (done ++ keys)) := by
    intro keys
    induction keys with
    | nil => exact fun done graph h => by rwa [List.append_nil]
    | cons key keys ih =>
      intro done graph h
      rw [List.append_cons]
      exact ih _ _ (h.addKey key)
  exact hfold foreignKeys [] _ ⟨by simp [References], by simp [References], by simp⟩

/-! ## One round -/

theorem ordered_foldl_release (name : String) : ∀ (parents : List String) (s : PurgeState),
    (parents.foldl (PurgeState.release name) s).ordered = s.ordered
  | [], _ => rfl
  | parent :: parents, s => ordered_foldl_release name parents (s.release name parent)

structure Released (name : String) (parents : List String) (s s' : PurgeState) : Prop where
  sorted : Utf16.Sorted s'.ready
  nodup : s'.ready.Nodup
  ready : ∀ x, x ∈ s'.ready ↔ x ∈ s.ready ∨ x ∈ parents ∧ ∀ c ∈ s.pendingChildren x, c = name
  pending : ∀ c p, c ∈ s'.pendingChildren p ↔ c ∈ s.pendingChildren p ∧ (p ∈ parents → c ≠ name)

theorem foldl_release (name : String) : ∀ (parents : List String) (s : PurgeState),
    parents.Nodup → (∀ p ∈ parents, p ∉ s.ready) → Utf16.Sorted s.ready → s.ready.Nodup →
      Released name parents s (parents.foldl (PurgeState.release name) s)
  | [], s, _, _, hsorted, hready => ⟨hsorted, hready, by simp, by simp⟩
  | parent :: parents, s, hnodup, hnew, hsorted, hready => by
    obtain ⟨hparent, hnodup⟩ := List.nodup_cons.mp hnodup
    have hwaiting : (s.pendingChildren parent).filter (fun child => child ≠ name) = [] ↔
        ∀ c ∈ s.pendingChildren parent, c = name := by
      simp [List.filter_eq_nil_iff]
    have hmem : ∀ x, x ∈ (s.release name parent).ready ↔
        x ∈ s.ready ∨ x = parent ∧ ∀ c ∈ s.pendingChildren parent, c = name := by
      intro x
      simp only [PurgeState.release, hwaiting]
      split_ifs with hall
      · rw [Utf16.mem_sort, List.mem_append, List.mem_singleton, and_iff_left hall]
      · rw [or_iff_left fun hx => hall hx.2]
    have hpending : ∀ c p, c ∈ (s.release name parent).pendingChildren p ↔
        c ∈ s.pendingChildren p ∧ (p = parent → c ≠ name) := by
      intro c p
      simp only [PurgeState.release, Function.update_apply]
      split_ifs with hp
      · simp [hp]
      · simp [hp]
    have h := foldl_release name parents (s.release name parent) hnodup ?_ ?_ ?_
    · refine ⟨h.sorted, h.nodup, fun x => ?_, fun c p => ?_⟩
      · rw [List.foldl_cons, h.ready, hmem, List.mem_cons, or_assoc, or_and_right]
        refine or_congr_right (or_congr (and_congr_right fun hx => hx ▸ Iff.rfl) ?_)
        refine and_congr_right fun hx => forall_congr' fun c => ?_
        rw [hpending, and_iff_left fun hxp : x = parent => absurd (hxp ▸ hx) hparent]
      · rw [List.foldl_cons, h.pending, hpending, and_assoc, List.mem_cons, or_imp]
    · intro p hp hpready
      rcases (hmem p).mp hpready with hpready | ⟨rfl, -⟩
      · exact hnew p (List.mem_cons_of_mem _ hp) hpready
      · exact hparent hp
    · simp only [PurgeState.release]
      split_ifs
      · exact Utf16.sorted_sort _
      · exact hsorted
    · simp only [PurgeState.release]
      split_ifs
      · rw [Utf16.nodup_sort]
        simpa [List.nodup_append, hready] using
          fun a ha (hap : a = parent) => hnew parent List.mem_cons_self (hap ▸ ha)
      · exact hready

/-- What holds at the head of a round. -/
structure PurgeState.Inv (nodes : Set String) (r : String → String → Prop) (s : PurgeState) :
    Prop where
  ordered : Ordered nodes r s.ordered
  sorted : Utf16.Sorted s.ready
  nodup : s.ready.Nodup
  ready : ∀ x, x ∈ s.ready ↔ Ready nodes r s.ordered x
  pending : ∀ c p, c ∈ s.pendingChildren p ↔ r c p ∧ c ∉ s.ordered

theorem inv_take {parents ready : List String} {s : PurgeState} (h : s.Inv nodes r)
    (hs : s.ready = name :: ready) (hparents : ∀ p, p ∈ parents ↔ r name p)
    (hnodup : parents.Nodup) (hne : ∀ c p, r c p → c ≠ p) (hnodes : ∀ c p, r c p → p ∈ nodes) :
    (parents.foldl (PurgeState.release name) { s with ordered := s.ordered ++ [name], ready }).Inv
      nodes r := by
  have hname : Ready nodes r s.ordered name := (h.ready name).mp (hs ▸ List.mem_cons_self)
  obtain ⟨hnotReady, hreadyNodup⟩ := List.nodup_cons.mp (hs ▸ h.nodup)
  have hreadyOf : ∀ x, x ∈ ready → Ready nodes r s.ordered x := fun x hx =>
    (h.ready x).mp (hs ▸ List.mem_cons_of_mem name hx)
  have hfold := foldl_release name parents { s with ordered := s.ordered ++ [name], ready } hnodup
    (fun p hp hpready =>
      hname.notMem ((hreadyOf p hpready).before name ((hparents p).mp hp)))
    (List.pairwise_cons.mp (hs ▸ h.sorted)).2 hreadyNodup
  refine ⟨?_, hfold.sorted, hfold.nodup, fun x => ?_, fun c p => ?_⟩
  · rw [ordered_foldl_release]
    exact h.ordered.append hname
  · rw [hfold.ready, ordered_foldl_release, hparents]
    constructor
    · rintro (hx | ⟨href, hall⟩)
      · have hxready := hreadyOf x hx
        refine ⟨hxready.mem, ?_, fun c hc => List.mem_append_left _ (hxready.before c hc)⟩
        simpa [hxready.notMem] using fun hxname : x = name => hnotReady (hxname ▸ hx)
      · refine ⟨hnodes name x href, ?_, fun c hc => ?_⟩
        · have hx : x ∉ s.ordered := fun hx => hname.notMem (h.ordered.mem_of_rel hx href)
          simpa [hx] using (hne name x href).symm
        · by_cases hmem : c ∈ s.ordered
          · exact List.mem_append_left _ hmem
          · rw [hall c ((h.pending c x).mpr ⟨hc, hmem⟩)]
            exact List.mem_append_right _ (List.mem_singleton_self name)
    · intro hx
      have hbefore : ∀ c, r c x → c ∈ s.ordered ∨ c = name := by
        simpa using hx.before
      by_cases href : r name x
      · refine .inr ⟨href, fun c hc => ?_⟩
        obtain ⟨hcx, hcmem⟩ := (h.pending c x).mp hc
        exact (hbefore c hcx).resolve_left hcmem
      · have hxready : x ∈ name :: ready := by
          rw [← hs, h.ready]
          refine ⟨hx.mem, fun hmem => hx.notMem (List.mem_append_left _ hmem), fun c hc => ?_⟩
          exact (hbefore c hc).resolve_right fun hcname => href (hcname ▸ hc)
        refine .inl ((List.mem_cons.mp hxready).resolve_left ?_)
        rintro rfl
        exact hx.notMem (List.mem_append_right _ (List.mem_singleton_self x))
  · rw [hfold.pending, ordered_foldl_release, hparents, h.pending, List.mem_append, List.mem_singleton,
      not_or]
    grind

/-! ## All rounds -/

theorem takeTables_ends {parentsOf : String → List String} {count : ℕ}
    (hparents : ∀ c p, p ∈ parentsOf c ↔ r c p) (hnodup : ∀ c, (parentsOf c).Nodup)
    (hne : ∀ c p, r c p → c ≠ p) (hnodes : ∀ c p, r c p → p ∈ nodes)
    (hcount : ∀ order, Ordered nodes r order → order.length ≤ count) :
    ∀ {fuel : ℕ} {s : PurgeState}, s.Inv nodes r → count < fuel + s.ordered.length →
      ∃ order, takeTables parentsOf fuel s = some order ∧ Ordered nodes r order ∧
        ∀ x, ¬Ready nodes r order x
  | 0, s, h, hfuel => absurd (hcount _ h.ordered) (by omega)
  | fuel + 1, s, h, hfuel => by
    unfold takeTables
    split
    · next hs =>
      exact ⟨s.ordered, rfl, h.ordered, fun x hx => by simpa [hs] using (h.ready x).mpr hx⟩
    · next name ready hs =>
      have hnext := inv_take h hs (hparents name) (hnodup name) hne hnodes
      refine takeTables_ends hparents hnodup hne hnodes hcount hnext ?_
      rw [ordered_foldl_release, List.length_append, List.length_singleton]
      omega

theorem takeTables_eq {parentsOf parentsOf' : String → List String}
    (hparents : ∀ c p, p ∈ parentsOf c ↔ r c p) (hparents' : ∀ c p, p ∈ parentsOf' c ↔ r c p)
    (hnodup : ∀ c, (parentsOf c).Nodup) (hnodup' : ∀ c, (parentsOf' c).Nodup)
    (hne : ∀ c p, r c p → c ≠ p) (hnodes : ∀ c p, r c p → p ∈ nodes) :
    ∀ (fuel : ℕ) {s s' : PurgeState}, s.Inv nodes r → s'.Inv nodes r → s'.ordered = s.ordered →
      takeTables parentsOf' fuel s' = takeTables parentsOf fuel s
  | 0, _, _, _, _, _ => rfl
  | fuel + 1, s, s', h, h', hordered => by
    have hready : s'.ready = s.ready :=
      h'.sorted.eq_of_mem_iff h.sorted h'.nodup h.nodup fun x => by
        rw [h'.ready, h.ready, hordered]
    unfold takeTables
    rw [hready]
    split
    · rw [hordered]
    · next name ready hs =>
      refine takeTables_eq hparents hparents' hnodup hnodup' hne hnodes fuel
        (inv_take h hs (hparents name) (hnodup name) hne hnodes)
        (inv_take h' (hready.trans hs) (hparents' name) (hnodup' name) hne hnodes) ?_
      rw [ordered_foldl_release, ordered_foldl_release, hordered]

/-! ## The order -/

theorem References.ne {c p : String} (h : References tables foreignKeys c p) : c ≠ p := h.2.1

theorem References.mem_left {c p : String} (h : References tables foreignKeys c p) :
    c ∈ tables := h.2.2.1

theorem References.mem_right {c p : String} (h : References tables foreignKeys c p) :
    p ∈ tables := h.2.2.2

def startState (tables : List String) (foreignKeys : List TableForeignKey) : PurgeState :=
  let known := tables.foldl addToSet []
  let graph := tableGraph known foreignKeys
  ⟨[], Utf16.sort (known.filter fun name => graph.pendingChildren name = []),
    graph.pendingChildren⟩

theorem references_known (tables : List String) (foreignKeys : List TableForeignKey) :
    References (tables.foldl addToSet []) foreignKeys = References tables foreignKeys := by
  funext c p
  simp only [References, mem_known]

theorem shows_known (tables : List String) (foreignKeys : List TableForeignKey) :
    (tableGraph (tables.foldl addToSet []) foreignKeys).Shows (References tables foreignKeys) := by
  rw [← references_known]
  exact tableGraph_shows _ foreignKeys

theorem inv_startState (tables : List String) (foreignKeys : List TableForeignKey) :
    (startState tables foreignKeys).Inv {t | t ∈ tables} (References tables foreignKeys) := by
  have hgraph := shows_known tables foreignKeys
  refine ⟨.nil, Utf16.sorted_sort _, Utf16.nodup_sort.mpr ((nodup_known tables).filter _),
    fun x => ?_, fun c p => ?_⟩
  · rw [startState, Utf16.mem_sort, List.mem_filter, mem_known, decide_eq_true_iff,
      List.eq_nil_iff_forall_not_mem]
    constructor
    · rintro ⟨hx, hnone⟩
      exact ⟨hx, List.not_mem_nil, fun c hc => absurd ((hgraph.pending c x).mpr hc) (hnone c)⟩
    · intro hx
      refine ⟨hx.mem, fun c hc => ?_⟩
      exact List.not_mem_nil (hx.before c ((hgraph.pending c x).mp hc))
  · rw [startState, hgraph.pending, and_iff_left List.not_mem_nil]

theorem length_le_of_ordered {order : List String}
    (h : Ordered {t | t ∈ tables} (References tables foreignKeys) order) :
    order.length ≤ (tables.foldl addToSet []).length :=
  (h.nodup.subperm fun x hx => mem_known.mpr (h.mem x hx)).length_le

theorem length_eq_iff {order : List String}
    (h : Ordered {t | t ∈ tables} (References tables foreignKeys) order) :
    order.length = (tables.foldl addToSet []).length ↔ ∀ x ∈ tables, x ∈ order := by
  have hsub : order.Subperm (tables.foldl addToSet []) :=
    h.nodup.subperm fun x hx => mem_known.mpr (h.mem x hx)
  constructor
  · intro hlength x hx
    exact (hsub.perm_of_length_le hlength.ge).mem_iff.mpr (mem_known.mpr hx)
  · intro hall
    exact le_antisymm hsub.length_le
      ((nodup_known tables).subperm fun x hx => hall x (mem_known.mp hx)).length_le

theorem takeTables_startState (tables : List String) (foreignKeys : List TableForeignKey) :
    ∃ order, takeTables (tableGraph (tables.foldl addToSet []) foreignKeys).parentsOf
        ((tables.foldl addToSet []).length + 1) (startState tables foreignKeys) = some order ∧
      Ordered {t | t ∈ tables} (References tables foreignKeys) order ∧
      ((∀ x ∈ tables, x ∈ order) ↔ ∀ x, ¬Relation.TransGen (References tables foreignKeys) x x) := by
  have hgraph := shows_known tables foreignKeys
  obtain ⟨order, htake, hordered, hnone⟩ : ∃ order, takeTables
      (tableGraph (tables.foldl addToSet []) foreignKeys).parentsOf
      ((tables.foldl addToSet []).length + 1) (startState tables foreignKeys) = some order ∧
      Ordered {t | t ∈ tables} (References tables foreignKeys) order ∧
      ∀ x, ¬Ready {t | t ∈ tables} (References tables foreignKeys) order x :=
    takeTables_ends hgraph.parents hgraph.nodup (fun c p h => h.ne) (fun c p h => h.mem_right)
      (fun order => length_le_of_ordered) (inv_startState tables foreignKeys)
      (Nat.lt_add_right _ (Nat.lt_succ_self _))
  refine ⟨order, htake, hordered, ?_, ?_⟩
  · exact fun hall => hordered.acyclic hall fun c p h => h.mem_right
  · intro hacyclic x hx
    by_contra hmissing
    obtain ⟨y, hy⟩ : ∃ y, Ready {t | t ∈ tables} (References tables foreignKeys) order y :=
      exists_ready tables.finite_toSet hacyclic
      (fun c p h => h.mem_left) hx hmissing
    exact hnone y hy

theorem orderTablesForPurge_eq (tables : List String) (foreignKeys : List TableForeignKey)
    {order : List String}
    (h : takeTables (tableGraph (tables.foldl addToSet []) foreignKeys).parentsOf
      ((tables.foldl addToSet []).length + 1) (startState tables foreignKeys) = some order) :
    orderTablesForPurge tables foreignKeys =
      some (if order.length ≠ (tables.foldl addToSet []).length then
        .error ("Foreign keys form a cycle; tables on or behind it: " ++ ", ".intercalate
          (Utf16.sort ((tables.foldl addToSet []).filter fun name => name ∉ order)))
      else .ok order) :=
  congrArg (Option.map _) h

theorem orderTablesForPurge_eq_of_mem_iff {tables' : List String}
    {foreignKeys' : List TableForeignKey} (htables : ∀ t, t ∈ tables' ↔ t ∈ tables)
    (hkeys : ∀ key, key ∈ foreignKeys' ↔ key ∈ foreignKeys) :
    orderTablesForPurge tables' foreignKeys' = orderTablesForPurge tables foreignKeys := by
  have hnodes : {t | t ∈ tables'} = {t | t ∈ tables} := Set.ext htables
  have href : References tables' foreignKeys' = References tables foreignKeys := by
    funext c p
    simp only [References, htables, hkeys]
  have hknown : (tables'.foldl addToSet []).Perm (tables.foldl addToSet []) :=
    (List.perm_ext_iff_of_nodup (nodup_known tables') (nodup_known tables)).mpr fun t => by
      rw [mem_known, mem_known, htables]
  obtain ⟨order, htake, -⟩ := takeTables_startState tables foreignKeys
  have hgraph := shows_known tables foreignKeys
  have hgraph' : (tableGraph (tables'.foldl addToSet []) foreignKeys').Shows
      (References tables foreignKeys) := href ▸ shows_known tables' foreignKeys'
  have hinv : (startState tables' foreignKeys').Inv {t | t ∈ tables}
      (References tables foreignKeys) := hnodes ▸ href ▸ inv_startState tables' foreignKeys'
  have htake' := (takeTables_eq hgraph.parents hgraph'.parents hgraph.nodup hgraph'.nodup
    (fun c p h => h.ne) (fun c p h => h.mem_right) ((tables.foldl addToSet []).length + 1)
    (inv_startState tables foreignKeys) hinv rfl).trans htake
  rw [← hknown.length_eq] at htake'
  rw [orderTablesForPurge_eq tables foreignKeys htake,
    orderTablesForPurge_eq tables' foreignKeys' htake', hknown.length_eq]
  have hstuck : Utf16.sort ((tables'.foldl addToSet []).filter fun name => name ∉ order) =
      Utf16.sort ((tables.foldl addToSet []).filter fun name => name ∉ order) :=
    (Utf16.sorted_sort _).eq_of_mem_iff (Utf16.sorted_sort _)
      (Utf16.nodup_sort.mpr ((nodup_known tables').filter _))
      (Utf16.nodup_sort.mpr ((nodup_known tables).filter _)) fun t => by
        rw [Utf16.mem_sort, Utf16.mem_sort, List.mem_filter, List.mem_filter, hknown.mem_iff]
  rw [hstuck]

/-- Without a cycle every table is returned once, before the tables it references; with one the
call throws; and what comes of it depends neither on the order nor on the number of times in which
the tables and the keys are given. -/
theorem orderTablesForPurge_topological (tables : List String)
    (foreignKeys : List TableForeignKey) :
    ((∀ t, ¬Relation.TransGen (References tables foreignKeys) t t) →
      ∃ order, orderTablesForPurge tables foreignKeys = some (.ok order) ∧ order.Nodup ∧
        (∀ t, t ∈ order ↔ t ∈ tables) ∧
        ∀ child parent, References tables foreignKeys child parent →
          order.idxOf child < order.idxOf parent) ∧
    ((∃ error, orderTablesForPurge tables foreignKeys = some (.error error)) ↔
      ∃ t, Relation.TransGen (References tables foreignKeys) t t) ∧
    ∀ tables' foreignKeys', (∀ t, t ∈ tables' ↔ t ∈ tables) →
      (∀ key, key ∈ foreignKeys' ↔ key ∈ foreignKeys) →
      orderTablesForPurge tables' foreignKeys' = orderTablesForPurge tables foreignKeys := by
  obtain ⟨order, htake, hordered, hall⟩ := takeTables_startState tables foreignKeys
  have heq := orderTablesForPurge_eq tables foreignKeys htake
  have hlength := length_eq_iff hordered
  refine ⟨fun hacyclic => ?_, ?_, fun tables' foreignKeys' htables hkeys =>
    orderTablesForPurge_eq_of_mem_iff htables hkeys⟩
  · have hmem := hall.mpr hacyclic
    rw [if_neg (not_not.mpr (hlength.mpr hmem))] at heq
    exact ⟨order, heq, hordered.nodup, fun t => ⟨hordered.mem t, hmem t⟩,
      fun child parent href => hordered.before parent (hmem parent href.mem_right) child href⟩
  · have hcycle : (∃ t, Relation.TransGen (References tables foreignKeys) t t) ↔
        order.length ≠ (tables.foldl addToSet []).length := by
      rw [Ne, hlength, hall]
      push Not
      rfl
    rw [hcycle, heq]
    split_ifs with hne
    · exact ⟨fun _ => hne, fun _ => ⟨_, rfl⟩⟩
    · exact ⟨fun ⟨_, h⟩ => (nomatch Option.some.inj h), fun h => absurd h hne⟩

example : (orderTablesForPurge ["b", "a", "c", "b"] [⟨"a", "b"⟩, ⟨"a", "b"⟩, ⟨"c", "c"⟩,
    ⟨"b", "z"⟩]).map Except.toOption = some (some ["a", "b", "c"]) := by
  decide +kernel

end TenantPurgeOrder

end Semprec
