import Mathlib.Data.List.Nodup
import Mathlib.Data.Finset.Basic
import Semprec.CuratedViews

/-!
# A position is one member's

Only the transaction that holds a view's row gives positions in it; all that the others can do to
the members meanwhile is to delete some, and what is asked of a transaction's members between its
statements survives that (`Between.sublist`).
-/

namespace Semprec

namespace CuratedViews

variable {s s' : Sys} {t u v i viewId itemId : ℕ} {w : Write} {ws : List Write}
  {rows rows' ms ms' c c' : List ViewItemRow} {op : Op} {phase : Phase} {position current : ℤ}

/-! ## Writes, view by view -/

def Write.isLock : Write → Bool
  | .lockView _ | .lockRow _ _ => true
  | _ => false

def Write.isDelete : Write → Bool
  | .delete _ _ => true
  | _ => false

def Write.keepsMembers : Write → Bool
  | .insert _ | .delete _ _ => false
  | _ => true

def Write.isIn (viewId : ℕ) : Write → Bool
  | .lockView viewId' | .lockRow viewId' _ | .shift viewId' _ _ | .setPosition viewId' _ _
  | .delete viewId' _ => viewId' = viewId
  | .insert row => row.viewId = viewId

theorem mem_members {row : ViewItemRow} :
    row ∈ members v rows ↔ row ∈ rows ∧ row.viewId = v := by
  simp [members]

theorem members_sublist (h : rows.Sublist rows') : (members v rows).Sublist (members v rows') :=
  h.filter _

theorem members_map {f : ViewItemRow → ViewItemRow} (hf : ∀ row, (f row).viewId = row.viewId) :
    members v (rows.map f) = (members v rows).map f := by
  unfold members
  rw [List.filter_map]
  congr 2
  funext row
  simp [hf row]

theorem members_apply_of_isIn (hw : w.isIn v = true) :
    members v (apply rows w) = apply (members v rows) w := by
  cases w with
  | lockView _ => rfl
  | lockRow _ _ => rfl
  | shift viewId' itemIds distance => exact members_map fun row => by split_ifs <;> rfl
  | setPosition viewId' itemId' position => exact members_map fun row => by split_ifs <;> rfl
  | insert row =>
    have hrow : row.viewId = v := by simpa [Write.isIn] using hw
    simp [apply, members, List.filter_append, hrow]
  | delete viewId' itemId' => simp only [apply, members, List.filter_filter, Bool.and_comm]

theorem map_members {f : ViewItemRow → ViewItemRow} (hf : ∀ row, row.viewId = v → f row = row) :
    (members v rows).map f = members v rows :=
  (List.map_congr_left fun row hrow => hf row (mem_members.mp hrow).2).trans (List.map_id _)

/-- A write in another view leaves them as they are. -/
theorem members_apply_of_not_isIn (hw : w.isIn v = false) :
    members v (apply rows w) = members v rows := by
  cases w with
  | lockView _ => rfl
  | lockRow _ _ => rfl
  | shift viewId' itemIds distance | setPosition viewId' itemId' position =>
    have hne : v ≠ viewId' := fun h => by simp [Write.isIn, h] at hw
    refine (members_map fun row => by split_ifs <;> rfl).trans (map_members fun row hrow => ?_)
    exact if_neg fun h => hne (hrow.symm.trans h.1)
  | insert row =>
    have hne : row.viewId ≠ v := by simpa [Write.isIn] using hw
    simp [apply, members, List.filter_append, hne]
  | delete viewId' itemId' =>
    have hne : viewId' ≠ v := by simpa [Write.isIn] using hw
    simp only [apply, members, List.filter_filter]
    refine List.filter_congr fun row _ => ?_
    by_cases hrow : row.viewId = v
    · simp [hrow, Ne.symm hne]
    · simp [hrow]

theorem members_foldl_of_isIn : ∀ {ws : List Write} {rows : List ViewItemRow},
    (∀ w ∈ ws, w.isIn v = true) → members v (ws.foldl apply rows) = ws.foldl apply (members v rows)
  | [], _, _ => rfl
  | w :: ws, rows, h => by
    rw [List.foldl_cons, members_foldl_of_isIn fun w' hw' => h w' (List.mem_cons_of_mem _ hw'),
      members_apply_of_isIn (h w List.mem_cons_self), List.foldl_cons]

theorem members_foldl_of_not_isIn : ∀ {ws : List Write} {rows : List ViewItemRow},
    (∀ w ∈ ws, w.isIn v = false) → members v (ws.foldl apply rows) = members v rows
  | [], _, _ => rfl
  | w :: ws, rows, h => by
    rw [List.foldl_cons, members_foldl_of_not_isIn fun w' hw' => h w' (List.mem_cons_of_mem _ hw'),
      members_apply_of_not_isIn (h w List.mem_cons_self)]

theorem foldl_locks : ∀ {ws : List Write}, (∀ w ∈ ws, w.isLock = true) →
    ws.foldl apply rows = rows
  | [], _ => rfl
  | w :: ws, h => by
    have hw : apply rows w = rows := by
      have hlock := h w List.mem_cons_self
      cases w <;> first | rfl | cases hlock
    rw [List.foldl_cons, hw, foldl_locks fun w' hw' => h w' (List.mem_cons_of_mem _ hw')]

theorem foldl_deletes : ∀ {ws : List Write} {rows : List ViewItemRow},
    (∀ w ∈ ws, w.isDelete = true) → (ws.foldl apply rows).Sublist rows
  | [], _, _ => .refl _
  | w :: ws, rows, h => by
    have hw : (apply rows w).Sublist rows := by
      have hdelete := h w List.mem_cons_self
      cases w <;> first | exact List.filter_sublist | cases hdelete
    exact (foldl_deletes fun w' hw' => h w' (List.mem_cons_of_mem _ hw')).trans hw

/-- Of a part of the rows a transaction sees a part of what it saw. -/
theorem foldl_sublist : ∀ {l : List Write} {rows rows' : List ViewItemRow},
    rows.Sublist rows' → (l.foldl apply rows).Sublist (l.foldl apply rows')
  | [], _, _, h => h
  | w :: ws, rows, rows', h => by
    refine foldl_sublist (l := ws) ?_
    cases w with
    | lockView _ => exact h
    | lockRow _ _ => exact h
    | shift _ _ _ => exact h.map _
    | setPosition _ _ _ => exact h.map _
    | insert _ => exact h.append (.refl _)
    | delete _ _ => exact h.filter _

theorem foldl_keepsMembers : ∀ {ws : List Write} {rows : List ViewItemRow},
    (∀ w ∈ ws, w.keepsMembers = true) →
      (ws.foldl apply rows).map (fun row => (row.viewId, row.itemId)) =
        rows.map fun row => (row.viewId, row.itemId)
  | [], _, _ => rfl
  | w :: ws, rows, h => by
    have hw : (apply rows w).map (fun row => (row.viewId, row.itemId)) =
        rows.map fun row => (row.viewId, row.itemId) := by
      have hkeeps := h w List.mem_cons_self
      cases w with
      | lockView _ => rfl
      | lockRow _ _ => rfl
      | shift _ _ _ | setPosition _ _ _ =>
        rw [apply, List.map_map]
        exact List.map_congr_left fun row _ => by
          dsimp only [Function.comp_apply]
          split_ifs <;> rfl
      | insert _ => cases hkeeps
      | delete _ _ => cases hkeeps
    rw [List.foldl_cons, foldl_keepsMembers fun w' hw' => h w' (List.mem_cons_of_mem _ hw'), hw]

/-! ## The members of a view between two statements -/

/-- The positions of these members are one member's each. -/
structure Good (ms : List ViewItemRow) : Prop where
  keys : (ms.map (·.itemId)).Nodup
  distinct : ∀ r ∈ ms, ∀ r' ∈ ms, r.position = r'.position → r.itemId = r'.itemId

def SameOrder (i : ℕ) (c ms : List ViewItemRow) : Prop :=
  ∀ r₁ ∈ c, ∀ r₂ ∈ c, ∀ r₁' ∈ ms, ∀ r₂' ∈ ms, r₁.itemId ≠ i → r₂.itemId ≠ i →
    r₁'.itemId = r₁.itemId → r₂'.itemId = r₂.itemId →
      (r₁.position < r₂.position ↔ r₁'.position < r₂'.position)

structure Room (i : ℕ) (position : ℤ) (ms : List ViewItemRow) : Prop where
  keys : (ms.map (·.itemId)).Nodup
  distinct : ∀ r ∈ ms, ∀ r' ∈ ms, r.itemId ≠ i → r'.itemId ≠ i → r.position = r'.position →
    r.itemId = r'.itemId
  free : ∀ r ∈ ms, r.itemId ≠ i → r.position ≠ position

/-- What holds of the members `ms` that a transaction sees, `c` being the committed ones. -/
def Between (c ms : List ViewItemRow) (op : Op) : Phase → Prop
  | .begun | .lockedView => True
  | .placing => ∀ r ∈ ms, r.itemId ≠ op.itemId
  | .inserting position =>
    Room op.itemId position ms ∧ SameOrder op.itemId c ms ∧ ∀ r ∈ ms, r.itemId ≠ op.itemId
  | .moving current => ∀ r ∈ ms, r.itemId ≠ op.itemId → r.position ≠ current
  | .setting => (∀ viewId itemId position, op = .reorder viewId itemId position →
      Room itemId position ms) ∧ SameOrder op.itemId c ms
  | .done _ => Good ms ∧ SameOrder op.itemId c ms

theorem Good.sublist (h : Good ms) (hs : ms'.Sublist ms) : Good ms' :=
  ⟨h.keys.sublist (hs.map _), fun r hr r' hr' =>
    h.distinct r (hs.subset hr) r' (hs.subset hr')⟩

theorem Room.sublist (h : Room i position ms) (hs : ms'.Sublist ms) : Room i position ms' :=
  ⟨h.keys.sublist (hs.map _), fun r hr r' hr' => h.distinct r (hs.subset hr) r' (hs.subset hr'),
    fun r hr => h.free r (hs.subset hr)⟩

theorem SameOrder.sublist (h : SameOrder i c ms) (hc : c'.Sublist c) (hs : ms'.Sublist ms) :
    SameOrder i c' ms' :=
  fun r₁ h₁ r₂ h₂ r₁' h₁' r₂' h₂' =>
    h r₁ (hc.subset h₁) r₂ (hc.subset h₂) r₁' (hs.subset h₁') r₂' (hs.subset h₂')

/-- Members may go at any time. -/
theorem Between.sublist (h : Between c ms op phase) (hc : c'.Sublist c) (hs : ms'.Sublist ms) :
    Between c' ms' op phase := by
  cases phase with
  | begun => trivial
  | lockedView => trivial
  | placing => exact fun r hr => h r (hs.subset hr)
  | inserting position =>
    exact ⟨h.1.sublist hs, h.2.1.sublist hc hs, fun r hr => h.2.2 r (hs.subset hr)⟩
  | moving current => exact fun r hr => h r (hs.subset hr)
  | setting => exact ⟨fun v i p hop => (h.1 v i p hop).sublist hs, h.2.sublist hc hs⟩
  | done result => exact ⟨h.1.sublist hs, h.2.sublist hc hs⟩

/-! ## What the statements do to the members -/

theorem eq_of_itemId_eq (h : (ms.map (·.itemId)).Nodup) {r r' : ViewItemRow} (hr : r ∈ ms)
    (hr' : r' ∈ ms) (he : r.itemId = r'.itemId) : r = r' :=
  List.inj_on_of_nodup_map h hr hr' he

theorem SameOrder.refl (h : (c.map (·.itemId)).Nodup) : SameOrder i c c := by
  intro r₁ h₁ r₂ h₂ r₁' h₁' r₂' h₂' _ _ he₁ he₂
  rw [eq_of_itemId_eq h h₁' h₁ he₁, eq_of_itemId_eq h h₂' h₂ he₂]

def relocate (f : ℤ → ℤ) (ms : List ViewItemRow) : List ViewItemRow :=
  ms.map fun row => { row with position := f row.position }

/-- Moved by a function that keeps the order of their positions, the members other than `i` keep
their order, and leave free what the function never gives. -/
theorem relocate_room {p : ℤ} {f : ℤ → ℤ} {A : ℤ → Prop} (hgood : Good c)
    (hA : ∀ r ∈ c, r.itemId ≠ i → A r.position) (hf : ∀ x y, A x → A y → (x < y ↔ f x < f y))
    (hfree : ∀ x, A x → f x ≠ p) :
    Room i p (relocate f c) ∧ SameOrder i c (relocate f c) := by
  have hkeep : (relocate f c).map (·.itemId) = c.map (·.itemId) := by
    rw [relocate, List.map_map]
    rfl
  refine ⟨⟨hkeep ▸ hgood.keys, fun r hr r' hr' hne hne' heq => ?_, fun r hr hne => ?_⟩, ?_⟩
  · obtain ⟨q, hq, rfl⟩ := List.mem_map.mp hr
    obtain ⟨q', hq', rfl⟩ := List.mem_map.mp hr'
    refine hgood.distinct q hq q' hq' ?_
    have hlt := hf _ _ (hA q hq hne) (hA q' hq' hne')
    have hgt := hf _ _ (hA q' hq' hne') (hA q hq hne)
    simp only [] at heq
    omega
  · obtain ⟨q, hq, rfl⟩ := List.mem_map.mp hr
    exact hfree _ (hA q hq hne)
  · intro r₁ h₁ r₂ h₂ r₁' h₁' r₂' h₂' hne₁ hne₂ he₁ he₂
    obtain ⟨q₁, hq₁, rfl⟩ := List.mem_map.mp h₁'
    obtain ⟨q₂, hq₂, rfl⟩ := List.mem_map.mp h₂'
    rw [eq_of_itemId_eq hgood.keys hq₁ h₁ he₁, eq_of_itemId_eq hgood.keys hq₂ h₂ he₂]
    exact hf _ _ (hA r₁ h₁ hne₁) (hA r₂ h₂ hne₂)

theorem apply_shift (hkeys : (ms.map (·.itemId)).Nodup) (hv : ∀ r ∈ ms, r.viewId = v)
    {within : ℤ → Bool} {distance : ℤ} :
    apply ms (.shift v ((ms.filter fun row => within row.position).map (·.itemId)) distance) =
      relocate (fun p => if within p then p + distance else p) ms := by
  refine List.map_congr_left fun row hrow => ?_
  have hmem : row.itemId ∈ (ms.filter fun row => within row.position).map (·.itemId) ↔
      within row.position = true := by
    constructor
    · intro h
      obtain ⟨row', hrow', he⟩ := List.mem_map.mp h
      obtain ⟨hin, hwithin⟩ := List.mem_filter.mp hrow'
      rwa [← eq_of_itemId_eq hkeys hin hrow he]
    · exact fun h => List.mem_map.mpr ⟨row, List.mem_filter.mpr ⟨hrow, h⟩, rfl⟩
  by_cases hwithin : within row.position = true
  · simp [hv row hrow, hmem.mpr hwithin, hwithin]
  · simp [hmem, hwithin]

theorem Room.insert (h : Room i position ms) (hnew : ∀ r ∈ ms, r.itemId ≠ i) :
    Good (ms ++ [⟨v, i, position⟩]) := by
  constructor
  · rw [List.map_append]
    refine List.Nodup.append h.keys (List.nodup_singleton _) fun a ha ha' => ?_
    obtain ⟨r, hr, rfl⟩ := List.mem_map.mp ha
    exact hnew r hr (List.mem_singleton.mp ha')
  · intro r hr r' hr' heq
    rcases List.mem_append.mp hr with hr | hr <;> rcases List.mem_append.mp hr' with hr' | hr'
    · exact h.distinct r hr r' hr' (hnew r hr) (hnew r' hr') heq
    · obtain rfl := List.mem_singleton.mp hr'
      exact absurd heq (h.free r hr (hnew r hr))
    · obtain rfl := List.mem_singleton.mp hr
      exact absurd heq.symm (h.free r' hr' (hnew r' hr'))
    · rw [List.mem_singleton.mp hr, List.mem_singleton.mp hr']

theorem SameOrder.insert (h : SameOrder i c ms) : SameOrder i c (ms ++ [⟨v, i, position⟩]) := by
  intro r₁ h₁ r₂ h₂ r₁' h₁' r₂' h₂' hne₁ hne₂ he₁ he₂
  have hold : ∀ r ∈ ms ++ [⟨v, i, position⟩], r.itemId ≠ i → r ∈ ms := by
    intro r hr hne
    rcases List.mem_append.mp hr with hr | hr
    · exact hr
    · exact absurd (congrArg ViewItemRow.itemId (List.mem_singleton.mp hr)) hne
  exact h r₁ h₁ r₂ h₂ r₁' (hold r₁' h₁' (he₁ ▸ hne₁)) r₂' (hold r₂' h₂' (he₂ ▸ hne₂)) hne₁ hne₂
    he₁ he₂

theorem mem_setPosition (hv : ∀ r ∈ ms, r.viewId = v) {r : ViewItemRow}
    (hr : r ∈ apply ms (.setPosition v i position)) :
    r.itemId ≠ i ∧ r ∈ ms ∨ r.itemId = i ∧ r.position = position := by
  obtain ⟨q, hq, rfl⟩ := List.mem_map.mp hr
  by_cases hqi : q.itemId = i
  · exact .inr (by simp [hv q hq, hqi])
  · exact .inl (by simp [hqi, hq])

theorem Room.setPosition (h : Room i position ms) (hv : ∀ r ∈ ms, r.viewId = v) :
    Good (apply ms (.setPosition v i position)) := by
  constructor
  · have hkeep : (apply ms (.setPosition v i position)).map (·.itemId) = ms.map (·.itemId) := by
      rw [apply, List.map_map]
      exact List.map_congr_left fun row _ => by dsimp only [Function.comp_apply]; split_ifs <;> rfl
    exact hkeep ▸ h.keys
  · intro r hr r' hr' heq
    rcases mem_setPosition hv hr with ⟨hne, hr⟩ | ⟨hi, hp⟩ <;>
      rcases mem_setPosition hv hr' with ⟨hne', hr'⟩ | ⟨hi', hp'⟩
    · exact h.distinct r hr r' hr' hne hne' heq
    · exact absurd (heq.trans hp') (h.free r hr hne)
    · exact absurd (heq.symm.trans hp) (h.free r' hr' hne')
    · rw [hi, hi']

theorem SameOrder.setPosition (h : SameOrder i c ms) (hv : ∀ r ∈ ms, r.viewId = v) :
    SameOrder i c (apply ms (.setPosition v i position)) := by
  intro r₁ h₁ r₂ h₂ r₁' h₁' r₂' h₂' hne₁ hne₂ he₁ he₂
  have hold : ∀ r ∈ apply ms (.setPosition v i position), r.itemId ≠ i → r ∈ ms := by
    intro r hr hne
    rcases mem_setPosition hv hr with ⟨-, hr⟩ | ⟨hi, -⟩
    · exact hr
    · exact absurd hi hne
  exact h r₁ h₁ r₂ h₂ r₁' (hold r₁' h₁' (he₁ ▸ hne₁)) r₂' (hold r₂' h₂' (he₂ ▸ hne₂)) hne₁ hne₂
    he₁ he₂

theorem lt_nextPosition {r : ViewItemRow} (hr : r ∈ ms) : r.position < nextPosition ms := by
  unfold nextPosition
  rcases hmax : (ms.map (·.position)).max? with _ | m
  · rw [List.max?_eq_none_iff, List.map_eq_nil_iff] at hmax
    exact absurd (hmax ▸ hr) List.not_mem_nil
  · have hle := (List.max?_eq_some_iff.mp hmax).2 _ (List.mem_map_of_mem hr)
    rw [hmax]
    exact Int.lt_add_one_of_le hle

/-! ## The invariant -/

/-- The transaction has placed nothing yet. -/
def Phase.isStill : Phase → Bool
  | .begun | .lockedView | .placing | .moving _ => true
  | _ => false

structure TxOk (committed : List ViewItemRow) (ws : List Write) (tx : Tx) : Prop where
  deletes : tx.op.placesIn = none → ∀ w ∈ ws, w.isDelete = true
  inView : ∀ v, tx.op.placesIn = some v → ∀ w ∈ ws, w.isIn v = true
  still : tx.phase.isStill = true → tx.op.placesIn ≠ none → ∀ w ∈ ws, w.isLock = true
  locked : ∀ v, tx.op.placesIn = some v → tx.phase ≠ .begun → .lockView v ∈ ws
  keeps : ∀ v i p, tx.op = .reorder v i p → ∀ w ∈ ws, w.keepsMembers = true
  between : ∀ v, tx.op.placesIn = some v →
    Between (members v committed) (members v (ws.foldl apply committed)) tx.op tx.phase

structure Inv (s : Sys) : Prop where
  good : ∀ v, Good (members v s.db.committed)
  txs : ∀ t tx, s.txs t = some tx → TxOk s.db.committed (s.db.pending t) tx
  idle : ∀ t, s.txs t = none → s.db.pending t = []
  alone : ∀ t u v, .lockView v ∈ s.db.pending t → .lockView v ∈ s.db.pending u → t = u

theorem inv_init {items : ℕ → Option ItemState} : Inv (.init items) where
  good := fun _ => ⟨List.nodup_nil, nofun⟩
  txs := nofun
  idle := fun _ _ => rfl
  alone := nofun

/-- What another's commit of deletes leaves a transaction. -/
theorem TxOk.sublist {tx : Tx} (h : TxOk c ws tx) (hs : c'.Sublist c) : TxOk c' ws tx :=
  { h with
    between := fun v hv =>
      (h.between v hv).sublist (members_sublist hs) (members_sublist (foldl_sublist hs)) }

theorem TxOk.otherView {tx : Tx} (h : TxOk c ws tx)
    (hsame : ∀ v, tx.op.placesIn = some v → tx.phase ≠ .begun → members v c' = members v c) :
    TxOk c' ws tx :=
  { h with
    between := fun v hv => by
      by_cases hphase : tx.phase = .begun
      · rw [hphase]
        trivial
      · have hin := h.inView v hv
        rw [members_foldl_of_isIn hin, hsame v hv hphase, ← members_foldl_of_isIn hin]
        exact h.between v hv }

/-- Nothing is given positions by one that adds and reorders nothing. -/
theorem foldl_sublist_of_placesIn {tx : Tx} (h : TxOk c ws tx) (hop : tx.op.placesIn = none) :
    (ws.foldl apply c).Sublist c :=
  foldl_deletes (h.deletes hop)

theorem seen_of_isStill (hi : Inv s) {tx : Tx} (ht : s.txs t = some tx)
    (hstill : tx.phase.isStill = true) (hop : tx.op.placesIn = some v) :
    s.seen t v = members v s.db.committed := by
  unfold Sys.seen ReadCommitted.view
  rw [foldl_locks ((hi.txs t tx ht).still hstill (by simp [hop]))]

/-- A statement of a transaction, which adds to its writes. -/
theorem Inv.write (hi : Inv s) {tx : Tx} (hok : TxOk s.db.committed (s.db.pending t ++ ws) tx)
    (hlock : ∀ v, .lockView v ∈ ws → ∀ u, u ≠ t → .lockView v ∉ s.db.pending u)
    (h : s.write t ws tx = some s') : Inv s' := by
  obtain ⟨db, hdb, rfl⟩ := Option.map_eq_some_iff.mp h
  have hcommitted := ReadCommitted.write_committed hdb
  have hpending := ReadCommitted.write_pending hdb
  constructor
  · exact fun v => hcommitted ▸ hi.good v
  · intro u tx' hu
    simp only [hcommitted, hpending]
    rcases of_update_some hu with ⟨rfl, rfl⟩ | ⟨hut, hu⟩
    · rwa [Function.update_self]
    · rw [Function.update_of_ne hut]
      exact hi.txs u tx' hu
  · intro u hu
    by_cases hut : u = t
    · simp [hut] at hu
    · simp only [Function.update_of_ne hut, hpending] at hu ⊢
      exact hi.idle u hu
  · exact ReadCommitted.Exclusive.write Write.lockView hi.alone hdb hlock

/-- The end of a transaction, after which the others find what is committed as it was, or with
fewer members, or with other members in views that they have not locked. -/
theorem Inv.close (hi : Inv s) {db : ReadCommitted (List ViewItemRow) Write}
    (hpending : db.pending = Function.update s.db.pending t [])
    (hgood : ∀ v, Good (members v db.committed))
    (hothers : ∀ u tx, u ≠ t → s.txs u = some tx → TxOk db.committed (s.db.pending u) tx) :
    Inv { s with db, txs := Function.update s.txs t none } := by
  constructor
  · exact hgood
  · intro u tx hu
    obtain ⟨hut, hu⟩ := of_update_none hu
    simp only [hpending, Function.update_of_ne hut]
    exact hothers u tx hut hu
  · intro u hu
    by_cases hut : u = t
    · simp [hut, hpending]
    · simp only [Function.update_of_ne hut, hpending] at hu ⊢
      exact hi.idle u hu
  · exact ReadCommitted.Exclusive.close Write.lockView hi.alone hpending

theorem isIn_of_ne {v' : ℕ} (h : w.isIn v' = true) (hne : v ≠ v') : w.isIn v = false := by
  cases w <;> simp_all [Write.isIn, Ne.symm hne]

theorem members_of_ne {tx : Tx} (h : TxOk c ws tx) {v' : ℕ} (hop : tx.op.placesIn = some v')
    (hne : v ≠ v') : members v (ws.foldl apply c) = members v c :=
  members_foldl_of_not_isIn fun w hw => isIn_of_ne (h.inView v' hop w hw) hne

theorem Inv.commit (hi : Inv s) {tx : Tx} (ht : s.txs t = some tx)
    (hdone : tx.op.placesIn = none ∨ ∃ result, tx.phase = .done result)
    {db : ReadCommitted (List ViewItemRow) Write} (h : s.db.commit apply t = some db) :
    Inv { s with db, txs := Function.update s.txs t none } := by
  have hok := hi.txs t tx ht
  have hcommitted := ReadCommitted.commit_committed h
  unfold ReadCommitted.view at hcommitted
  refine hi.close (ReadCommitted.commit_pending h) ?_ ?_
  · rw [hcommitted]
    intro v
    rcases hop : tx.op.placesIn with _ | v'
    · exact (hi.good v).sublist (members_sublist (foldl_sublist_of_placesIn hok hop))
    · obtain ⟨result, hphase⟩ := hdone.resolve_left (by simp [hop])
      by_cases hv : v = v'
      · subst hv
        have hbetween := hok.between v hop
        rw [hphase] at hbetween
        exact hbetween.1
      · rw [members_of_ne hok hop hv]
        exact hi.good v
  · rw [hcommitted]
    intro u tx' hut hu
    rcases hop : tx.op.placesIn with _ | v'
    · exact (hi.txs u tx' hu).sublist (foldl_sublist_of_placesIn hok hop)
    · obtain ⟨result, hphase⟩ := hdone.resolve_left (by simp [hop])
      refine (hi.txs u tx' hu).otherView fun v hv hne => members_of_ne hok hop fun hvv => ?_
      -- both would have locked the view
      have hlock := hok.locked v' hop (by simp [hphase])
      have hlock' := (hi.txs u tx' hu).locked v hv hne
      exact hut (hi.alone u t v hlock' (hvv ▸ hlock))

theorem viewId_of_mem {r : ViewItemRow} (hr : r ∈ members v rows) : r.viewId = v :=
  (mem_members.mp hr).2

theorem Inv.shift (hi : Inv s) {tx tx' : Tx} {within : ℤ → Bool} {distance : ℤ}
    (h : s.shift t v within distance tx' = some s') (ht : s.txs t = some tx)
    (hstill : tx.phase.isStill = true) (hphase : tx.phase ≠ .begun) (hop : tx.op.placesIn = some v)
    (hop' : tx'.op = tx.op) (hphase' : tx'.phase.isStill = false)
    (hroom : Between (members v s.db.committed)
      (relocate (fun p => if within p then p + distance else p) (members v s.db.committed))
      tx'.op tx'.phase) : Inv s' := by
  have hok := hi.txs t tx ht
  unfold Sys.shift at h
  simp only [seen_of_isStill hi ht hstill hop] at h
  split_ifs at h
  have hlocks := hok.still hstill (by simp [hop])
  refine hi.write ⟨fun hnone => ?_, fun v' hv' w hw => ?_, fun hs => ?_, fun v' hv' _ => ?_,
    fun v' i p hr w hw => ?_, fun v' hv' => ?_⟩ (by simp) h
  · simp [hop', hop] at hnone
  · rcases List.mem_append.mp hw with hw | hw
    · exact hok.inView v' (hop' ▸ hv') w hw
    · obtain rfl : v = v' := by simpa [hop', hop] using hv'
      simp [List.mem_singleton.mp hw, Write.isIn]
  · simp [hphase'] at hs
  · exact List.mem_append_left _ (hok.locked v' (hop' ▸ hv') hphase)
  · rcases List.mem_append.mp hw with hw | hw
    · exact hok.keeps v' i p (hop' ▸ hr) w hw
    · simp [List.mem_singleton.mp hw, Write.keepsMembers]
  · obtain rfl : v = v' := by simpa [hop', hop] using hv'
    rw [List.foldl_append, foldl_locks hlocks, List.foldl_cons, List.foldl_nil,
      members_apply_of_isIn (by simp [Write.isIn]),
      apply_shift (hi.good v).keys fun r hr => viewId_of_mem hr]
    exact hroom

/-- A statement that at most locks, of a transaction that has placed nothing yet. -/
theorem Inv.locks (hi : Inv s) {tx tx' : Tx} (h : s.write t ws tx' = some s')
    (ht : s.txs t = some tx)
    (hstill : tx.phase.isStill = true) (hop : tx.op.placesIn = some v)
    (hop' : tx'.op.placesIn = some v) (hws : ∀ w ∈ ws, w.isLock = true ∧ w.isIn v = true)
    (hlocked : tx'.phase ≠ .begun → .lockView v ∈ s.db.pending t ++ ws)
    (hbetween : Between (members v s.db.committed) (members v s.db.committed) tx'.op tx'.phase)
    (hlock : ∀ v, .lockView v ∈ ws → ∀ u, u ≠ t → .lockView v ∉ s.db.pending u) : Inv s' := by
  have hok := hi.txs t tx ht
  have hlocks : ∀ w ∈ s.db.pending t ++ ws, w.isLock = true := fun w hw =>
    (List.mem_append.mp hw).elim (hok.still hstill (by simp [hop]) w) fun hw => (hws w hw).1
  refine hi.write ⟨fun hnone => ?_, fun v' hv' w hw => ?_, fun _ _ => hlocks,
    fun v' hv' hne => ?_, fun v' i p hr w hw => ?_, fun v' hv' => ?_⟩ hlock h
  · simp [hop'] at hnone
  · obtain rfl : v = v' := by simpa [hop'] using hv'
    exact (List.mem_append.mp hw).elim (hok.inView v hop w) fun hw => (hws w hw).2
  · obtain rfl : v = v' := by simpa [hop'] using hv'
    exact hlocked hne
  · have hlock := hlocks w hw
    cases w <;> first | rfl | cases hlock
  · obtain rfl : v = v' := by simpa [hop'] using hv'
    rw [foldl_locks hlocks]
    exact hbetween

/-- The statement that gives an item its position. -/
theorem Inv.placed (hi : Inv s) {tx : Tx} {result : Option ViewItemRow}
    (h : s.write t [w] ⟨tx.op, .done result⟩ = some s') (ht : s.txs t = some tx)
    (hphase : tx.phase ≠ .begun) (hop : tx.op.placesIn = some v) (hw : w.isIn v = true)
    (hplain : ∀ v, w ≠ .lockView v)
    (hkeeps : ∀ v i p, tx.op = .reorder v i p → w.keepsMembers = true)
    (hdone : Good (apply (s.seen t v) w) ∧
      SameOrder tx.op.itemId (members v s.db.committed) (apply (s.seen t v) w)) : Inv s' := by
  have hok := hi.txs t tx ht
  refine hi.write ⟨fun hnone => ?_, fun v' hv' w' hw' => ?_,
    fun hs => (by cases hs), fun v' hv' _ => ?_,
    fun v' i p hr w' hw' => ?_, fun v' hv' => ?_⟩ ?_ h
  · simp [hop] at hnone
  · obtain rfl : v = v' := by simpa [hop] using hv'
    rcases List.mem_append.mp hw' with hw' | hw'
    · exact hok.inView v hop w' hw'
    · exact List.mem_singleton.mp hw' ▸ hw
  · exact List.mem_append_left _ (hok.locked v' hv' hphase)
  · rcases List.mem_append.mp hw' with hw' | hw'
    · exact hok.keeps v' i p hr w' hw'
    · exact List.mem_singleton.mp hw' ▸ hkeeps v' i p hr
  · obtain rfl : v = v' := by simpa [hop] using hv'
    rw [List.foldl_append, List.foldl_cons, List.foldl_nil, members_apply_of_isIn hw]
    exact hdone
  · intro v' hv'
    exact absurd (List.mem_singleton.mp hv').symm (hplain v')

theorem Inv.delete (hi : Inv s) {tx tx' : Tx} (h : s.write t [.delete v i] tx' = some s')
    (ht : s.txs t = some tx) (hop : tx.op.placesIn = none) (hop' : tx'.op = tx.op) : Inv s' := by
  have hok := hi.txs t tx ht
  have hnone : tx'.op.placesIn = none := hop' ▸ hop
  refine hi.write ⟨fun _ w hw => ?_, fun v' hv' => ?_, fun _ hne => absurd hnone hne,
    fun v' hv' => ?_, fun v' i' p hr => ?_, fun v' hv' => ?_⟩ (by simp) h
  · rcases List.mem_append.mp hw with hw | hw
    · exact hok.deletes hop w hw
    · exact List.mem_singleton.mp hw ▸ rfl
  · simp [hnone] at hv'
  · simp [hnone] at hv'
  · simp [hr, Op.placesIn] at hnone
  · simp [hnone] at hv'

theorem Inv.begin (hi : Inv s) {db : ReadCommitted (List ViewItemRow) Write}
    (h : s.db.begin t = some db) :
    Inv { s with db, txs := Function.update s.txs t (some ⟨op, .begun⟩) } := by
  have ht : s.db.pending t = [] := by
    refine s.db.pending_nil t fun hopen => ?_
    simp [ReadCommitted.begin, hopen] at h
  have hcommitted := ReadCommitted.begin_committed h
  have hpending := ReadCommitted.begin_pending h
  constructor
  · exact fun v => hcommitted ▸ hi.good v
  · intro u tx hu
    simp only [hcommitted, hpending]
    by_cases hut : u = t
    · subst hut
      obtain rfl : ⟨op, .begun⟩ = tx := by simpa using hu
      rw [ht]
      exact ⟨by simp, by simp, by simp, fun _ _ hne => absurd rfl hne, by simp,
        fun _ _ => trivial⟩
    · simp only [Function.update_of_ne hut] at hu
      exact hi.txs u tx hu
  · intro u hu
    by_cases hut : u = t
    · simp [hut] at hu
    · simp only [Function.update_of_ne hut, hpending] at hu ⊢
      exact hi.idle u hu
  · intro u u' v hu hu'
    simp only [hpending] at hu hu'
    exact hi.alone u u' v hu hu'

/-- No other member is found. -/
theorem ne_of_find?_eq_none (h : ms.find? (·.itemId = i) = none) : ∀ r ∈ ms, r.itemId ≠ i :=
  fun r hr => by simpa using List.find?_eq_none.mp h r hr

theorem ne_of_find?_eq_some (hgood : Good ms) {row : ViewItemRow}
    (h : ms.find? (·.itemId = i) = some row) :
    ∀ r ∈ ms, r.itemId ≠ i → r.position ≠ row.position := by
  intro r hr hne heq
  have hrow : row.itemId = i := by simpa using List.find?_some h
  exact hne ((hgood.distinct r hr row (List.mem_of_find?_eq_some h) heq).trans hrow)

theorem Inv.step (hi : Inv s) {a : Act} (h : CuratedViews.step s a = some s') : Inv s' := by
  cases a with
  | begin t op =>
    simp only [CuratedViews.step] at h
    split_ifs at h
    obtain ⟨db, hdb, rfl⟩ := Option.map_eq_some_iff.mp h
    exact hi.begin hdb
  | lockView t =>
    simp only [CuratedViews.step] at h
    split at h
    · rename_i op ht
      split at h
      · rename_i v hop
        split_ifs at h with hlocked
        refine hi.locks h ht rfl hop hop (by simp [Write.isLock, Write.isIn]) (by simp) trivial ?_
        intro v' hv' u hut hu
        obtain rfl : v' = v := by simpa using hv'
        exact hlocked (.of_mem hu hut (by simp))
      · cases h
    · cases h
  | selectPosition t =>
    simp only [CuratedViews.step] at h
    split at h
    · rename_i v i position ht
      have hlock := (hi.txs t _ ht).locked v rfl nofun
      have hseen := seen_of_isStill hi ht rfl (v := v) rfl
      split_ifs at h
      rw [hseen] at h
      split at h
      · rename_i hnone
        exact hi.locks h ht rfl rfl rfl (by simp) (fun _ => by simpa using hlock)
          (ne_of_find?_eq_none hnone) (by simp)
      · exact hi.locks h ht rfl rfl rfl (by simp [Write.isLock, Write.isIn])
          (fun _ => List.mem_append_left _ hlock) ⟨hi.good v, .refl (hi.good v).keys⟩ (by simp)
      · exact hi.locks h ht rfl rfl rfl (by simp [Write.isLock, Write.isIn])
          (fun _ => List.mem_append_left _ hlock) trivial (by simp)
    · rename_i v i position ht
      have hlock := (hi.txs t _ ht).locked v rfl nofun
      have hseen := seen_of_isStill hi ht rfl (v := v) rfl
      split_ifs at h
      rw [hseen] at h
      split at h
      · cases h
      · rename_i row hrow
        exact hi.locks h ht rfl rfl rfl (by simp [Write.isLock, Write.isIn])
          (fun _ => List.mem_append_left _ hlock) (ne_of_find?_eq_some (hi.good v) hrow)
          (by simp)
    · cases h
  | place t =>
    simp only [CuratedViews.step] at h
    split at h
    · rename_i v i ht
      have hlock := (hi.txs t _ ht).locked v rfl nofun
      have hseen := seen_of_isStill hi ht rfl (v := v) rfl
      have hnew : ∀ r ∈ s.seen t v, r.itemId ≠ i := (hi.txs t _ ht).between v rfl
      rw [hseen] at h hnew
      split_ifs at h
      refine hi.locks h ht rfl rfl rfl (by simp) (fun _ => by simpa using hlock)
        ⟨⟨(hi.good v).keys, fun r hr r' hr' _ _ => (hi.good v).distinct r hr r' hr',
          fun r hr _ => (lt_nextPosition hr).ne⟩, .refl (hi.good v).keys, hnew⟩ (by simp)
    · rename_i v i position ht
      have hnew : ∀ r ∈ s.seen t v, r.itemId ≠ i := (hi.txs t _ ht).between v rfl
      rw [seen_of_isStill hi ht rfl (v := v) rfl] at hnew
      obtain ⟨hroom, horder⟩ := relocate_room (p := position) (i := i)
        (f := fun x => if decide (position ≤ x) = true then x + 1 else x) (A := fun _ => True)
        (hi.good v) (fun _ _ _ => trivial)
        (fun x y _ _ => by simp only [decide_eq_true_eq]; split_ifs <;> omega)
        fun x _ => by simp only [decide_eq_true_eq]; split_ifs <;> omega
      refine hi.shift h ht rfl nofun rfl rfl rfl ⟨hroom, horder, fun r hr => ?_⟩
      obtain ⟨q, hq, rfl⟩ := List.mem_map.mp hr
      exact hnew q hq
    · cases h
  | insert t =>
    simp only [CuratedViews.step] at h
    split at h
    · rename_i v i requested position ht
      obtain ⟨hroom, horder, hnew⟩ : Room i position (s.seen t v) ∧
        SameOrder i (members v s.db.committed) (s.seen t v) ∧ ∀ r ∈ s.seen t v, r.itemId ≠ i :=
          (hi.txs t _ ht).between v rfl
      split_ifs at h
      exact hi.placed h ht nofun rfl (by simp [Write.isIn]) nofun nofun
        ⟨hroom.insert hnew, horder.insert⟩
    · cases h
  | shiftBetween t =>
    simp only [CuratedViews.step] at h
    split at h
    · rename_i v i position current ht
      have hcurrent : ∀ r ∈ s.seen t v, r.itemId ≠ i → r.position ≠ current :=
        (hi.txs t _ ht).between v rfl
      rw [seen_of_isStill hi ht rfl (v := v) rfl] at hcurrent
      split_ifs at h with hup hdown
      · obtain ⟨hroom, horder⟩ := relocate_room (p := position) (i := i)
          (f := fun x => if decide (current < x ∧ x ≤ position) = true then x + -1 else x)
          (A := fun x => x ≠ current) (hi.good v) hcurrent
          (fun x y _ _ => by simp only [decide_eq_true_eq]; split_ifs <;> omega)
          fun x _ => by simp only [decide_eq_true_eq]; split_ifs <;> omega
        refine hi.shift h ht rfl nofun rfl rfl rfl ⟨?_, horder⟩
        rintro _ _ _ ⟨⟩
        exact hroom
      · obtain ⟨hroom, horder⟩ := relocate_room (p := position) (i := i)
          (f := fun x => if decide (position ≤ x ∧ x < current) = true then x + 1 else x)
          (A := fun x => x ≠ current) (hi.good v) hcurrent
          (fun x y _ _ => by simp only [decide_eq_true_eq]; split_ifs <;> omega)
          fun x _ => by simp only [decide_eq_true_eq]; split_ifs <;> omega
        refine hi.shift h ht rfl nofun rfl rfl rfl ⟨?_, horder⟩
        rintro _ _ _ ⟨⟩
        exact hroom
      · obtain rfl : position = current := by omega
        have hlock := (hi.txs t _ ht).locked v rfl nofun
        refine hi.locks h ht rfl rfl rfl (by simp) (fun _ => by simpa using hlock)
          ⟨?_, .refl (hi.good v).keys⟩ (by simp)
        rintro _ _ _ ⟨⟩
        exact ⟨(hi.good v).keys, fun r hr r' hr' _ _ => (hi.good v).distinct r hr r' hr', hcurrent⟩
    · cases h
  | setPosition t =>
    simp only [CuratedViews.step] at h
    split at h
    · rename_i v i position ht
      obtain ⟨hroom, horder⟩ := (hi.txs t _ ht).between v rfl
      have hv : ∀ r ∈ s.seen t v, r.viewId = v := fun r hr => viewId_of_mem hr
      split_ifs at h
      exact hi.placed h ht nofun rfl (by simp [Write.isIn]) nofun (fun _ _ _ _ => rfl)
        ⟨(hroom v i position rfl).setPosition hv, horder.setPosition hv⟩
    · cases h
  | remove t | purgeRow t viewId =>
    simp only [CuratedViews.step] at h
    split at h
    · rename_i ht
      split_ifs at h
      exact hi.delete h ht rfl rfl
    · cases h
  | commit t =>
    simp only [CuratedViews.step] at h
    split at h
    · rename_i ht
      obtain ⟨db, hdb, rfl⟩ := Option.map_eq_some_iff.mp h
      exact hi.commit ht (.inl rfl) hdb
    · rename_i ht
      obtain ⟨db, hdb, rfl⟩ := Option.map_eq_some_iff.mp h
      exact hi.commit ht (.inr ⟨_, rfl⟩) hdb
    · cases h
  | abort t =>
    obtain ⟨db, hdb, rfl⟩ := Option.map_eq_some_iff.mp h
    have hcommitted := ReadCommitted.rollback_committed hdb
    exact hi.close (ReadCommitted.rollback_pending hdb) (fun v => hcommitted ▸ hi.good v)
      fun u tx _ hu => hcommitted ▸ hi.txs u tx hu
  | setItem itemId state =>
    cases h
    exact ⟨hi.good, hi.txs, hi.idle, hi.alone⟩

/-! ## Paging -/

instance : Std.Total fun a b : ViewItemRow => a.position ≤ b.position :=
  ⟨fun _ _ => Int.le_total _ _⟩

instance : IsTrans ViewItemRow fun a b => a.position ≤ b.position :=
  ⟨fun _ _ _ => Int.le_trans⟩

theorem sorted_of_good (hgood : Good ms) :
    (ms.insertionSort (·.position ≤ ·.position)).Pairwise (·.position < ·.position) := by
  have hsub : ∀ r ∈ ms.insertionSort (·.position ≤ ·.position), r ∈ ms :=
    fun r hr => List.mem_insertionSort _ |>.mp hr
  have hnodup : (ms.insertionSort (·.position ≤ ·.position)).Nodup :=
    (List.perm_insertionSort _ ms).nodup_iff.mpr hgood.keys.of_map
  refine ((List.pairwise_insertionSort _ ms).and hnodup).imp_of_mem fun {a b} ha hb hab => ?_
  refine lt_of_le_of_ne hab.1 fun heq => hab.2 ?_
  exact eq_of_itemId_eq hgood.keys (hsub a ha) (hsub b hb)
    (hgood.distinct a (hsub a ha) b (hsub b hb) heq)

theorem insertionSort_filter (hgood : Good ms) (p : ViewItemRow → Bool) :
    (ms.filter p).insertionSort (·.position ≤ ·.position) =
      (ms.insertionSort (·.position ≤ ·.position)).filter p := by
  refine List.Perm.eq_of_pairwise (fun a b _ _ hab hba => absurd hba (Int.lt_asymm hab))
    (sorted_of_good (hgood.sublist List.filter_sublist)) ((sorted_of_good hgood).filter p)
    ((List.perm_insertionSort _ _).trans ((List.perm_insertionSort _ ms).symm.filter p))

def shown (rows : List ViewItemRow) (items : ℕ → Option ItemState) (viewId : ℕ)
    (includeDeleted : Bool) : List ViewItemRow :=
  ((members viewId rows).filter fun row => includeDeleted ∨ items row.itemId = some .live)
    |>.insertionSort (·.position ≤ ·.position)

def lookup (items : ℕ → Option ItemState) (includeDeleted : Bool) (row : ViewItemRow) :
    Option (ℕ × ItemState) :=
  if includeDeleted then getItemsByIdsIncludingDeleted items row.itemId
  else getItemsByIds items row.itemId

theorem queryCuratedView_eq (hgood : Good (members v rows)) {items : ℕ → Option ItemState}
    {limit : Option ℕ} {includeDeleted : Bool} {cursor : Option ℤ} :
    queryCuratedView rows items v limit includeDeleted cursor =
      ((keysetPage (·.position) (shown rows items v includeDeleted) (min (limit.getD 50) 200)
          cursor).1.filterMap (lookup items includeDeleted),
        (keysetPage (·.position) (shown rows items v includeDeleted) (min (limit.getD 50) 200)
          cursor).2) := by
  cases includeDeleted with
  | true =>
    simp only [queryCuratedView, keysetPage, shown, lookup, listViewItems, if_true, true_or,
      decide_true, List.filter_true]
    rfl
  | false =>
    have hafter : ((members v rows).filter fun row => items row.itemId = some .live ∧
        cursor.all (· < row.position)).insertionSort (·.position ≤ ·.position) =
        (shown rows items v false).filter fun row => cursor.all (· < row.position) := by
      rw [shown, ← insertionSort_filter (hgood.sublist List.filter_sublist), List.filter_filter]
      congr 2
      funext row
      simp [Bool.and_comm]
    simp only [queryCuratedView, keysetPage, listLiveViewItemsAfter, lookup, hafter,
      Bool.false_eq_true, if_false, List.take_take, List.length_take]
    have hlimit : min (min (limit.getD 50) 200) (min (limit.getD 50) 200 + 1) =
        min (limit.getD 50) 200 := by omega
    rw [hlimit]
    congr 1
    exact if_congr (by omega) rfl rfl

theorem lookup_fst {items : ℕ → Option ItemState} {includeDeleted : Bool} {row : ViewItemRow}
    {item : ℕ × ItemState} (h : lookup items includeDeleted row = some item) :
    item.1 = row.itemId := by
  unfold lookup getItemsByIds getItemsByIdsIncludingDeleted at h
  split_ifs at h
  · obtain ⟨state, -, rfl⟩ := Option.map_eq_some_iff.mp h
    rfl
  · split at h
    · cases h
      rfl
    · cases h

theorem lookup_isSome {items : ℕ → Option ItemState} {includeDeleted : Bool} {row : ViewItemRow} :
    (lookup items includeDeleted row).isSome = true ↔
      items row.itemId = some .live ∨ includeDeleted = true ∧ (items row.itemId).isSome = true := by
  unfold lookup getItemsByIds getItemsByIdsIncludingDeleted
  rcases items row.itemId with _ | _ | _ <;> cases includeDeleted <;> simp

/-- No item is on two pages. -/
theorem nodup_filterMap_lookup (items : ℕ → Option ItemState) (includeDeleted : Bool) :
    ∀ {ms : List ViewItemRow}, (ms.map (·.itemId)).Nodup →
      ((ms.filterMap (lookup items includeDeleted)).map (·.1)).Nodup
  | [], _ => List.nodup_nil
  | row :: ms, h => by
    obtain ⟨hnot, hrest⟩ := List.nodup_cons.mp h
    have ih := nodup_filterMap_lookup items includeDeleted hrest
    rcases hl : lookup items includeDeleted row with _ | item
    · rwa [List.filterMap_cons_none hl]
    · rw [List.filterMap_cons_some hl, List.map_cons, List.nodup_cons]
      refine ⟨fun hmem => hnot ?_, ih⟩
      obtain ⟨item', hitem', heq⟩ := List.mem_map.mp hmem
      obtain ⟨row', hrow', hl'⟩ := List.mem_filterMap.mp hitem'
      exact List.mem_map.mpr
        ⟨row', hrow', (lookup_fst hl').symm.trans (heq.trans (lookup_fst hl))⟩

theorem pages_of_good (hgood : Good (members v rows)) (items : ℕ → Option ItemState)
    {limit : Option ℕ} (hlimit : ∀ n ∈ limit, 0 < n) (includeDeleted : Bool) :
    ∃ found : List (ℕ × ItemState),
      followPages (queryCuratedView rows items v limit includeDeleted)
        ((members v rows).length + 1) none = some found ∧
      (found.map (·.1)).Nodup ∧
      ∀ i, i ∈ found.map (·.1) ↔ (∃ row ∈ members v rows, row.itemId = i) ∧
        (items i = some .live ∨ includeDeleted = true ∧ (items i).isSome = true) := by
  have hpart := hgood.sublist (List.filter_sublist (p := fun row =>
    decide (includeDeleted = true ∨ items row.itemId = some .live)))
  have hlength : (shown rows items v includeDeleted).length ≤ (members v rows).length := by
    rw [shown, List.length_insertionSort]
    exact List.length_filter_le _ _
  have hpositive : 0 < min (limit.getD 50) 200 := by
    rcases limit with _ | n <;> simp_all
  have hpages := followPages_from (lookup items includeDeleted) hpositive (sorted_of_good hpart)
    ((members v rows).length + 1) [] (shown rows items v includeDeleted) none rfl
    (List.filter_eq_self.mpr fun _ _ => rfl) (by omega)
  refine ⟨(shown rows items v includeDeleted).filterMap (lookup items includeDeleted), ?_,
    nodup_filterMap_lookup _ _ ?_, fun i => ?_⟩
  · rw [← hpages]
    congr 1
    funext cursor
    exact queryCuratedView_eq hgood
  · rw [shown, ((List.perm_insertionSort _ _).map _).nodup_iff]
    exact hpart.keys
  · constructor
    · intro hi
      obtain ⟨item, hitem, rfl⟩ := List.mem_map.mp hi
      obtain ⟨row, hrow, hl⟩ := List.mem_filterMap.mp hitem
      have hrow' := List.mem_filter.mp ((List.mem_insertionSort _).mp hrow)
      rw [lookup_fst hl]
      exact ⟨⟨row, hrow'.1, rfl⟩, lookup_isSome.mp (Option.isSome_of_eq_some hl)⟩
    · rintro ⟨⟨row, hrow, rfl⟩, hstate⟩
      obtain ⟨item, hl⟩ := Option.isSome_iff_exists.mp (lookup_isSome.mpr hstate)
      refine List.mem_map.mpr ⟨item, List.mem_filterMap.mpr ⟨row, ?_, hl⟩, lookup_fst hl⟩
      refine (List.mem_insertionSort _).mpr (List.mem_filter.mpr ⟨hrow, ?_⟩)
      rcases hstate with h | h
      · simp [h]
      · simp [h.1]

/-! ## Runs -/

theorem Inv.commit_order (hi : Inv s) {tx : Tx} (ht : s.txs t = some tx)
    (h : CuratedViews.step s (.commit t) = some s') :
    (∀ v, SameOrder tx.op.itemId (members v s.db.committed) (members v s'.db.committed)) ∧
      ∀ v i p, tx.op = .reorder v i p →
        s'.db.committed.map (fun row => (row.viewId, row.itemId)) =
          s.db.committed.map fun row => (row.viewId, row.itemId) := by
  have hok := hi.txs t tx ht
  obtain ⟨hdone, db, hdb, rfl⟩ : (tx.op.placesIn = none ∨ ∃ result, tx.phase = .done result) ∧
      ∃ db, s.db.commit apply t = some db ∧
        ({ s with db, txs := Function.update s.txs t none } : Sys) = s' := by
    simp only [CuratedViews.step, ht] at h
    split at h
    · rename_i heq
      cases heq
      exact ⟨.inl rfl, Option.map_eq_some_iff.mp h⟩
    · rename_i heq
      cases heq
      exact ⟨.inr ⟨_, rfl⟩, Option.map_eq_some_iff.mp h⟩
    · cases h
  have hcommitted := ReadCommitted.commit_committed hdb
  unfold ReadCommitted.view at hcommitted
  simp only [hcommitted]
  refine ⟨fun v => ?_, fun v i p hop => foldl_keepsMembers (hok.keeps v i p hop)⟩
  have hrefl := SameOrder.refl (i := tx.op.itemId) (hi.good v).keys
  rcases hop : tx.op.placesIn with _ | v'
  · exact hrefl.sublist (.refl _) (members_sublist (foldl_sublist_of_placesIn hok hop))
  · obtain ⟨result, hphase⟩ := hdone.resolve_left (by simp [hop])
    by_cases hv : v = v'
    · subst hv
      have hbetween := hok.between v hop
      rw [hphase] at hbetween
      exact hbetween.2
    · rw [members_of_ne hok hop hv]
      exact hrefl

/-- However adds, removes, reorders and purges interleave, the positions of a view are distinct, a
commit moves no two other members against each other, and the pages of the view together have
every member to show, once. -/
theorem view_positions {items : ℕ → Option ItemState}
    (h : Reach step (fun _ _ => True) (.init items) s) :
    (∀ v, ((members v s.db.committed).map (·.position)).Nodup) ∧
      (∀ t tx s', s.txs t = some tx → step s (.commit t) = some s' →
        (∀ v, SameOrder tx.op.itemId (members v s.db.committed) (members v s'.db.committed)) ∧
          ∀ v i p, tx.op = .reorder v i p →
            s'.db.committed.map (fun row => (row.viewId, row.itemId)) =
              s.db.committed.map fun row => (row.viewId, row.itemId)) ∧
      ∀ v limit includeDeleted, (∀ n ∈ limit, 0 < n) →
        ∃ found : List (ℕ × ItemState),
          followPages (queryCuratedView s.db.committed s.items v limit includeDeleted)
            ((members v s.db.committed).length + 1) none = some found ∧
          (found.map (·.1)).Nodup ∧
          ∀ i, i ∈ found.map (·.1) ↔ (∃ row ∈ members v s.db.committed, row.itemId = i) ∧
            (s.items i = some .live ∨ includeDeleted = true ∧ (s.items i).isSome = true) := by
  have hi : Inv s := h.invariant inv_init fun _ _ _ hi _ hs => hi.step hs
  refine ⟨fun v => ?_, fun t tx s' ht hs => hi.commit_order ht hs,
    fun v limit includeDeleted hlimit => pages_of_good (hi.good v) s.items hlimit includeDeleted⟩
  refine List.Nodup.map_on (fun r hr r' hr' heq => ?_) (hi.good v).keys.of_map
  exact eq_of_itemId_eq (hi.good v).keys hr hr' ((hi.good v).distinct r hr r' hr' heq)

def twoMembers : List Act :=
  [.begin 0 (.add 5 1 (some 0)), .begin 1 (.add 5 2 (some 0)), .lockView 0, .selectPosition 0,
    .place 0, .insert 0, .commit 0, .lockView 1, .selectPosition 1, .place 1, .insert 1, .commit 1,
    .begin 0 (.reorder 5 2 7), .lockView 0, .selectPosition 0, .shiftBetween 0, .setPosition 0]

theorem view_positions_twoMembers : ∃ s s', runActs step (.init fun _ => some .live) twoMembers =
      some s ∧ step s (.commit 0) = some s' ∧
    s'.db.committed = [⟨5, 1, 0⟩, ⟨5, 2, 7⟩] ∧
    ∀ v, ((members v s'.db.committed).map (·.position)).Nodup := by
  obtain ⟨s', hs'⟩ := Option.isSome_iff_exists.mp
    (by decide +kernel : (runActs step (.init fun _ => some .live)
      (twoMembers ++ [.commit 0])).isSome = true)
  have hcommitted : s'.db.committed = [⟨5, 1, 0⟩, ⟨5, 2, 7⟩] :=
    eq_of_map_eq (f := fun s => s.db.committed) (b := [⟨5, 1, 0⟩, ⟨5, 2, 7⟩]) hs'
      (by decide +kernel)
  have hrun := hs'
  rw [runActs_append] at hrun
  obtain ⟨s, hs, hstep⟩ := Option.bind_eq_some_iff.mp hrun
  refine ⟨s, s', hs, ?_, hcommitted, (view_positions (.of_runActs hs')).1⟩
  simpa [runActs, runChecked, Option.bind_eq_some_iff] using hstep

end CuratedViews

end Semprec
