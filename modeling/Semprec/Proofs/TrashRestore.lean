import Semprec.ChokePoint
import Semprec.Proofs.Subtree

/-!
# A restore takes out what its delete put in

Both walk the subtree of their root and write each row of it: a delete the live ones, a restore the
trashed ones whose time is, to the millisecond, the root's.  So a restore takes out of the trash
exactly what the delete of its root put there if and only if no other trashed row under the root
shares that millisecond, and every row of the cascade is still under the root.
-/

namespace Semprec

def Store.Live (s : Store) (databaseId itemId : ℕ) : Prop :=
  ∃ item ∈ s.items, item.isAt databaseId itemId = true ∧ item.deletedAt = none

def Store.Trashed (s : Store) (databaseId itemId : ℕ) : Prop :=
  ∃ item ∈ s.items, item.isAt databaseId itemId = true ∧ item.deletedAt.isSome = true

def RollupFreshness.TrashedWith (root row : ItemRow) : Prop :=
  row.deletedAt.isSome ∧ row.deletedAt.map toISOString = root.deletedAt.map toISOString

namespace Trash

open TxState RollupFreshness

variable {s s' : Store} {t t' : TxState} {root row : ItemRow} {rows : List ItemRow}

/-! ## What a cascade writes -/

theorem enqueueForEdges_store {itemId : ℕ} {u : Unit}
    (h : (enqueueForEdges itemId).run t = (.ok u, t')) : t'.store = t.store := by
  have hkeeps : Tx.Keeps (fun t' : TxState => t'.store = t.store) (enqueueForEdges itemId) := by
    refine (Tx.keeps_gets _).bind fun edges => Tx.Keeps.forM fun e _ => ?_
    refine (Tx.keeps_gets _).bind fun targets => Tx.Keeps.forM fun target _ => ?_
    exact Tx.triple_write fun _ h => h
  exact hkeeps t u t' rfl h

theorem cascadeRow_store {write : ItemRow → Store → Option ItemRow × Store} {itemId : ℕ}
    {acc r : Option ItemRow} (h : (cascadeRow write itemId acc row).run t = (.ok r, t')) :
    t'.store = (write row t.store).2 := by
  obtain ⟨item, t₁, hw, h⟩ := Tx.run_bind_ok.mp h
  cases hw
  split at h
  · cases h
    rfl
  · obtain ⟨_, t₂, he, h⟩ := Tx.run_bind_ok.mp h
    cases h
    exact enqueueForEdges_store he

theorem cascade_store {write : ItemRow → Store → Option ItemRow × Store} {itemId : ℕ} :
    ∀ {rows : List ItemRow} {acc r : Option ItemRow} {t : TxState},
      (rows.foldlM (cascadeRow write itemId) acc).run t = (.ok r, t') →
      t'.store = rows.foldl (fun s row => (write row s).2) t.store
  | [], acc, r, t, h => by
    cases h
    rfl
  | row :: rows, acc, r, t, h => by
    rw [List.foldlM_cons] at h
    obtain ⟨acc', t₁, h₁, h₂⟩ := Tx.run_bind_ok.mp h
    rw [cascade_store h₂, cascadeRow_store h₁, List.foldl_cons]

def among (rows : List ItemRow) (r : ItemRow) : Bool := rows.any fun x => r.isAt x.databaseId x.id

theorem foldl_updateItem {guard : ItemRow → Bool} {set : ItemRow → ItemRow}
    (hkey : ∀ r db id, (set r).isAt db id = r.isAt db id) (hset : ∀ r, guard (set r) = false) :
    ∀ {rows : List ItemRow} {s : Store},
      (rows.foldl (fun s row => (s.updateItem row.databaseId row.id guard set).2) s).items =
        s.items.map fun r => if guard r && among rows r then set r else r
  | [], s => by simp [among]
  | row :: rows, s => by
    rw [List.foldl_cons, foldl_updateItem hkey hset]
    simp only [Store.updateItem, List.map_map]
    refine List.map_congr_left fun r _ => ?_
    simp only [Function.comp, among, List.any_cons]
    by_cases hg : guard r = true
    · by_cases hr : r.isAt row.databaseId row.id = true
      · simp [hg, hr, hset]
      · simp [hg, hr]
    · simp [hg]

theorem foldl_softDeleteRow {now : ℤ} :
    (rows.foldl (fun s row => (softDeleteRow now row s).2) s).items =
      s.items.map fun r =>
        if (decide (r.deletedAt = none) && among rows r) = true then
          { r with deletedAt := some now }
        else r :=
  @foldl_updateItem (fun r => r.deletedAt = none) (fun r => { r with deletedAt := some now })
    (fun _ _ _ => rfl) (fun _ => rfl) rows s

theorem foldl_restoreItem :
    (rows.foldl (fun s row => (s.restoreItem row.databaseId row.id).2) s).items =
      s.items.map fun r =>
        if (decide (r.deletedAt ≠ none) && among rows r) = true then { r with deletedAt := none }
        else r :=
  @foldl_updateItem (fun r => r.deletedAt ≠ none) (fun r => { r with deletedAt := none })
    (fun _ _ _ => rfl) (fun _ => rfl) rows s

theorem mem_among {r : ItemRow} : among rows r = true ↔
    ∃ x ∈ rows, r.isAt x.databaseId x.id = true := by
  simp only [among, List.any_eq_true]

theorem writableSubtree_ok (h : writableSubtree root s = .ok rows) :
    rows = collectItemSubtree s root fun _ => true := by
  obtain ⟨-, -, h⟩ := except_bind_ok.mp h
  cases h
  rfl

def restorable (s : Store) (root : ItemRow) : List ItemRow :=
  (collectItemSubtree s root fun _ => true).filter fun x =>
    x.deletedAt.map toISOString = root.deletedAt.map toISOString

theorem restoreRow_foldl {epoch : ℤ} : ∀ {rows : List ItemRow} {s : Store},
    rows.foldl (fun s row => (restoreRow epoch row s).2) s =
      (rows.filter fun x => x.deletedAt.map toISOString = some (toISOString epoch)).foldl
        (fun s row => (s.restoreItem row.databaseId row.id).2) s
  | [], _ => rfl
  | row :: rows, s => by
    rw [List.foldl_cons, restoreRow_foldl]
    by_cases hrow : row.deletedAt.map toISOString = some (toISOString epoch)
    · rw [List.filter_cons_of_pos (by simpa using hrow), List.foldl_cons, restoreRow, if_pos hrow]
    · rw [List.filter_cons_of_neg (by simpa using hrow), restoreRow, if_neg hrow]

theorem itemDelete_root {env : Env} {databaseId itemId : ℕ} {r : Option ItemRow}
    (hrun : (itemDeleteWithClient env databaseId itemId).run t = (.ok r, t'))
    (hroot : t.store.getItemById databaseId itemId = some root) (hlive : root.deletedAt = none) :
    ¬ t'.store.Live databaseId itemId := by
  obtain ⟨before, hbefore, hrun⟩ := Tx.run_query_bind_ok.mp hrun
  have hb : before = some root := by
    obtain ⟨-, -, hbefore⟩ := except_bind_ok.mp hbefore
    simp only [hroot] at hbefore
    split_ifs at hbefore
    cases hbefore
    rfl
  subst hb
  simp only [hlive, Option.isSome_none, Bool.false_eq_true, if_false] at hrun
  obtain ⟨rows, hrows, hrun⟩ := Tx.run_query_bind_ok.mp hrun
  have hitems := congrArg Store.items (cascade_store hrun)
  rw [foldl_softDeleteRow] at hitems
  rintro ⟨item, hitem, hat, hnone⟩
  rw [hitems] at hitem
  obtain ⟨r₀, hr₀, rfl⟩ := List.mem_map.mp hitem
  have hmem : root ∈ rows := by
    rw [writableSubtree_ok hrows]
    exact mem_collectItemSubtree.mpr .root
  split_ifs at hat hnone with hc
  refine hc ?_
  rw [Bool.and_eq_true, mem_among]
  have hkey : root.isAt databaseId itemId = true := by
    simpa using List.find?_some hroot
  simp only [ItemRow.isAt, decide_eq_true_eq] at hkey hat
  exact ⟨by simpa using hnone, root, hmem, by simp [ItemRow.isAt, hkey, hat]⟩

section commit

variable {pg : Postgres} {computedKeys : List String} {env : Env} {databaseId itemId : ℕ}

theorem step_unit {α : Type} {x : Tx TxState Failure α} {op : ChokePointOp}
    (hop : ChokePoint.perform pg computedKeys env op = ChokePoint.unit x)
    (h : ChokePoint.step pg computedKeys s (env, op) = some s') :
    ∃ a t, x.run ⟨s, []⟩ = (.ok a, t) ∧ t.store = s' := by
  obtain ⟨⟨s₁, jobs⟩, hc, rfl⟩ := Option.map_eq_some_iff.mp h
  unfold ChokePoint.commit withTransaction at hc
  simp only [hop] at hc
  rcases ht : (ChokePoint.unit x).transaction ⟨s, []⟩ with ⟨_ | u, t⟩
  · rw [ht] at hc
    cases hc
  · rw [ht] at hc
    cases hc
    obtain ⟨a, t₁, hx, hu⟩ := Tx.run_bind_ok.mp (Tx.transaction_ok.mp ht)
    cases hu
    exact ⟨a, t, hx, rfl⟩

theorem delete_root (h : ChokePoint.step pg computedKeys s
      (env, .deleteItem databaseId itemId) = some s')
    (hroot : s.getItemById databaseId itemId = some root) (hlive : root.deletedAt = none) :
    ¬ s'.Live databaseId itemId := by
  obtain ⟨r, t, hrun, rfl⟩ := step_unit rfl h
  exact itemDelete_root hrun hroot hlive

theorem restore_items (h : ChokePoint.step pg computedKeys s
      (env, .restoreItem databaseId itemId) = some s')
    (hroot : s.getItemById databaseId itemId = some root) (htrashed : root.deletedAt.isSome = true) :
    s'.items = s.items.map fun r =>
      if r.deletedAt ≠ none ∧ among (restorable s root) r = true then
        { r with deletedAt := none }
      else r := by
  obtain ⟨r, t, hrun, rfl⟩ := step_unit rfl h
  obtain ⟨-, -, hrun⟩ := Tx.run_query_bind_ok.mp hrun
  rw [TxState.select, Tx.run_gets_bind] at hrun
  simp only [hroot] at hrun
  obtain ⟨epoch, hepoch⟩ := Option.isSome_iff_exists.mp htrashed
  simp only [hepoch] at hrun
  obtain ⟨rows, hrows, hrun⟩ := Tx.run_query_bind_ok.mp hrun
  have hitems := congrArg Store.items (cascade_store hrun)
  rw [restoreRow_foldl, foldl_restoreItem] at hitems
  rw [hitems, restorable, hepoch, ← writableSubtree_ok hrows]
  simp only [Option.map_some, Bool.and_eq_true, decide_eq_true_eq]

end commit

/-! ## A delete and the restore of its root -/

def TakenOut (s s' : Store) (databaseId itemId : ℕ) : Prop :=
  s.Trashed databaseId itemId ∧ s'.Live databaseId itemId ∧ ¬ s'.Trashed databaseId itemId

theorem takenOut_iff {pg : Postgres} {computedKeys : List String} {env : Env}
    {databaseId itemId db id : ℕ}
    (h : ChokePoint.step pg computedKeys s (env, .restoreItem databaseId itemId) = some s')
    (hroot : s.getItemById databaseId itemId = some root)
    (htrashed : root.deletedAt.isSome = true) :
    TakenOut s s' db id ↔ ∃ row, Under s (fun _ => true) root row ∧ TrashedWith root row ∧
      row.isAt db id = true := by
  have hitems := restore_items h hroot htrashed
  have hamong : ∀ {r : ItemRow}, among (restorable s root) r = true ↔
      ∃ x, Under s (fun _ => true) root x ∧ TrashedWith root x ∧
        r.isAt x.databaseId x.id = true := by
    intro r
    simp only [mem_among, restorable, List.mem_filter, mem_collectItemSubtree, decide_eq_true_eq,
      TrashedWith]
    constructor
    · rintro ⟨x, ⟨hx, hms⟩, hat⟩
      refine ⟨x, hx, ⟨?_, hms⟩, hat⟩
      rw [← Option.isSome_map (f := toISOString), hms, Option.isSome_map]
      exact htrashed
    · rintro ⟨x, hx, ⟨-, hms⟩, hat⟩
      exact ⟨x, ⟨hx, hms⟩, hat⟩
  have hmem : root ∈ s.items := List.mem_of_find?_eq_some hroot
  have hitem : ∀ {x}, Under s (fun _ => true) root x → x ∈ s.items := by
    intro x hx
    cases hx with
    | root => exact hmem
    | row _ _ _ hmem _ _ => exact hmem
  constructor
  · rintro ⟨⟨r, hr, hat, hdel⟩, -, hgone⟩
    by_cases ha : among (restorable s root) r = true
    · obtain ⟨x, hx, hw, hrx⟩ := hamong.mp ha
      simp only [ItemRow.isAt, decide_eq_true_eq] at hat hrx
      exact ⟨x, hx, hw, by simp [ItemRow.isAt, ← hrx, hat]⟩
    · refine absurd ⟨r, ?_, hat, hdel⟩ hgone
      rw [hitems]
      exact List.mem_map.mpr ⟨r, hr, if_neg fun hc => ha hc.2⟩
  · rintro ⟨x, hx, hw, hat⟩
    have hxa : among (restorable s root) x = true :=
      hamong.mpr ⟨x, hx, hw, by simp [ItemRow.isAt]⟩
    refine ⟨⟨x, hitem hx, hat, hw.1⟩, ⟨{ x with deletedAt := none }, ?_, hat, rfl⟩, ?_⟩
    · rw [hitems]
      exact List.mem_map.mpr ⟨x, hitem hx, if_pos ⟨Option.isSome_iff_ne_none.mp hw.1, hxa⟩⟩
    · rintro ⟨r', hr', hat', hdel'⟩
      rw [hitems] at hr'
      obtain ⟨r, hr, rfl⟩ := List.mem_map.mp hr'
      split_ifs at hat' hdel' with hc
      · cases hdel'
      · refine hc ⟨Option.isSome_iff_ne_none.mp hdel', hamong.mpr ⟨x, hx, hw, ?_⟩⟩
        simp only [ItemRow.isAt, decide_eq_true_eq] at hat hat'
        simp [ItemRow.isAt, hat, hat']

def Cascade (s₀ s₁ : Store) (databaseId itemId : ℕ) : Prop :=
  s₀.Live databaseId itemId ∧ ¬ s₁.Live databaseId itemId

/-- A live item is deleted, then come other operations that leave the rows of its cascade in the
trash as they are, and then it is restored. -/
structure DeleteThenRestore (pg : Postgres) (computedKeys : List String) (env env' : Env)
    (databaseId itemId : ℕ) (s₀ s₁ s₂ s₃ : Store) : Prop where
  reachable : ChokePoint.Reachable pg computedKeys s₀
  live : ∃ root, s₀.getItemById databaseId itemId = some root ∧ root.deletedAt = none
  deleted : ChokePoint.step pg computedKeys s₀ (env, .deleteItem databaseId itemId) = some s₁
  between : Reach (ChokePoint.step pg computedKeys) (fun _ _ => True) s₁ s₂
  untouched : ∀ db id, Cascade s₀ s₁ db id → (∃ row ∈ s₂.items, row.isAt db id = true) ∧
    ∀ row ∈ s₂.items, row.isAt db id = true → row.deletedAt = some env.now
  restored : ChokePoint.step pg computedKeys s₂ (env', .restoreItem databaseId itemId) = some s₃

def RestoresExactly (s₀ s₁ s₂ s₃ : Store) : Prop :=
  ∀ db id, TakenOut s₂ s₃ db id ↔ Cascade s₀ s₁ db id

def Apart (s₀ s₁ s₂ : Store) (databaseId itemId : ℕ) : Prop :=
  ∀ root, s₂.getItemById databaseId itemId = some root →
    ∀ row, Under s₂ (fun _ => true) root row → TrashedWith root row →
      Cascade s₀ s₁ row.databaseId row.id

def StillUnder (s₀ s₁ s₂ : Store) (databaseId itemId : ℕ) : Prop :=
  ∀ root, s₂.getItemById databaseId itemId = some root → ∀ db id, Cascade s₀ s₁ db id →
    ∃ row, Under s₂ (fun _ => true) root row ∧ row.isAt db id = true

section pair

variable {pg : Postgres} {computedKeys : List String} {env env' : Env} {databaseId itemId : ℕ}
  {s₀ s₁ s₂ s₃ : Store}

theorem DeleteThenRestore.root_trashed
    (h : DeleteThenRestore pg computedKeys env env' databaseId itemId s₀ s₁ s₂ s₃) :
    ∃ root, s₂.getItemById databaseId itemId = some root ∧ root.deletedAt = some env.now := by
  obtain ⟨root, hroot, hlive⟩ := h.live
  have hat : root.isAt databaseId itemId = true := by simpa using List.find?_some hroot
  have hcascade : Cascade s₀ s₁ databaseId itemId :=
    ⟨⟨root, List.mem_of_find?_eq_some hroot, hat, hlive⟩, delete_root h.deleted hroot hlive⟩
  obtain ⟨⟨row, hrow, hrat⟩, hall⟩ := h.untouched _ _ hcascade
  obtain ⟨root', hroot'⟩ : ∃ r, s₂.getItemById databaseId itemId = some r :=
    Option.isSome_iff_exists.mp (List.find?_isSome.mpr ⟨row, hrow, hrat⟩)
  exact ⟨root', hroot', hall root' (List.mem_of_find?_eq_some hroot')
    (by simpa using List.find?_some hroot')⟩

theorem restoresExactly_iff
    (h : DeleteThenRestore pg computedKeys env env' databaseId itemId s₀ s₁ s₂ s₃) :
    RestoresExactly s₀ s₁ s₂ s₃ ↔
      Apart s₀ s₁ s₂ databaseId itemId ∧ StillUnder s₀ s₁ s₂ databaseId itemId := by
  obtain ⟨root, hroot, hdel⟩ := h.root_trashed
  have hout : ∀ db id, TakenOut s₂ s₃ db id ↔ ∃ row, Under s₂ (fun _ => true) root row ∧
      TrashedWith root row ∧ row.isAt db id = true :=
    fun _ _ => takenOut_iff h.restored hroot (by rw [hdel]; rfl)
  constructor
  · intro hexact
    refine ⟨fun root' hroot' row hu hw => ?_, fun root' hroot' db id hc => ?_⟩
    · cases hroot.symm.trans hroot'
      exact (hexact _ _).mp ((hout _ _).mpr ⟨row, hu, hw, by simp [ItemRow.isAt]⟩)
    · cases hroot.symm.trans hroot'
      obtain ⟨row, hu, -, hat⟩ := (hout db id).mp ((hexact db id).mpr hc)
      exact ⟨row, hu, hat⟩
  · rintro ⟨hapart, hunder⟩ db id
    rw [hout]
    constructor
    · rintro ⟨row, hu, hw, hat⟩
      simp only [ItemRow.isAt, decide_eq_true_eq] at hat
      have hc := hapart root hroot row hu hw
      rwa [hat.1, hat.2] at hc
    · intro hc
      obtain ⟨row, hu, hat⟩ := hunder root hroot db id hc
      have hmem : row ∈ s₂.items := by
        cases hu with
        | root => exact List.mem_of_find?_eq_some hroot
        | row _ _ _ hmem _ _ => exact hmem
      have hrow := (h.untouched db id hc).2 row hmem hat
      exact ⟨row, hu, ⟨by rw [hrow]; rfl, by rw [hrow, hdel]⟩, hat⟩

end pair

def TrashInverse : Prop := ∀ pg computedKeys env env' databaseId itemId s₀ s₁ s₂ s₃,
  DeleteThenRestore pg computedKeys env env' databaseId itemId s₀ s₁ s₂ s₃ →
    RestoresExactly s₀ s₁ s₂ s₃

/-- Nothing in the run below is cast. -/
def noCasts : Postgres :=
  ⟨fun _ => none, fun _ => none, fun _ => none, fun _ => .nan, fun _ _ => .null, fun _ => .null,
    fun _ => "", fun _ => false⟩

def envAt (now : ℤ) : Env :=
  ⟨now, fun _ => true, fun _ => "", fun _ _ _ => "", fun _ _ _ => .ok (), fun _ _ _ _ _ => .ok ()⟩

def rowDeleted : List (Env × ChokePointOp) :=
  [(envAt 0, .createDatabase ⟨some "Pages", none, none, none, none, false, false⟩),
    (envAt 0, .createItem ⟨0, [], none⟩ .none),
    (envAt 0, .createDatabase ⟨some "Rows", none, some 1, none, none, false, false⟩),
    (envAt 0, .createItem ⟨2, [], none⟩ .none),
    (envAt 0, .createItem ⟨2, [], none⟩ .none),
    (envAt 7100, .deleteItem 2 3)]

/-- The keys of the items and their times in the trash. -/
def stamps (s : Store) : List (ℕ × ℕ × Option ℤ) :=
  s.items.map fun r => (r.databaseId, r.id, r.deletedAt)

theorem mem_stamps {db id : ℕ} {t : Option ℤ} : (db, id, t) ∈ stamps s ↔
    ∃ r ∈ s.items, r.isAt db id = true ∧ r.deletedAt = t := by
  simp only [stamps, List.mem_map, Prod.mk.injEq, ItemRow.isAt, decide_eq_true_eq, and_assoc]

theorem live_iff {db id : ℕ} : s.Live db id ↔ (db, id, none) ∈ stamps s := mem_stamps.symm

theorem rowDeleted_stamps : (runActs (ChokePoint.step noCasts []) Store.empty rowDeleted).map
    (fun s => (stamps s, (s.getItemById 0 1).map (·.deletedAt))) =
      some ([(0, 1, none), (2, 3, some 7100), (2, 4, none)], some none) := by
  decide +kernel

theorem rowDeleted_delete_stamps : (runActs (ChokePoint.step noCasts []) Store.empty
    (rowDeleted ++ [(envAt 7900, ChokePointOp.deleteItem 0 1)])).map stamps =
      some [(0, 1, some 7900), (2, 3, some 7100), (2, 4, some 7900)] := by
  decide +kernel

theorem rowDeleted_restore_stamps : (runActs (ChokePoint.step noCasts []) Store.empty
    (rowDeleted ++ [(envAt 7900, ChokePointOp.deleteItem 0 1)] ++
      [(envAt 9000, ChokePointOp.restoreItem 0 1)])).map stamps =
        some [(0, 1, none), (2, 3, none), (2, 4, none)] := by
  decide +kernel

theorem rowDeleted_pair : ∃ s₀ s₁ s₃,
    DeleteThenRestore noCasts [] (envAt 7900) (envAt 9000) 0 1 s₀ s₁ s₁ s₃ ∧
      stamps s₀ = [(0, 1, none), (2, 3, some 7100), (2, 4, none)] ∧
      stamps s₁ = [(0, 1, some 7900), (2, 3, some 7100), (2, 4, some 7900)] ∧
      stamps s₃ = [(0, 1, none), (2, 3, none), (2, 4, none)] := by
  obtain ⟨s₀, hs₀, hboth⟩ := Option.map_eq_some_iff.mp rowDeleted_stamps
  obtain ⟨h₀, hlive⟩ := Prod.mk.inj hboth
  have h₁ := rowDeleted_delete_stamps
  have h₃ := rowDeleted_restore_stamps
  rw [runActs_append, hs₀, Option.bind_some] at h₁
  obtain ⟨s₁, hs₁, h₁⟩ := Option.map_eq_some_iff.mp h₁
  rw [runActs_append, runActs_append, hs₀, Option.bind_some, hs₁, Option.bind_some] at h₃
  obtain ⟨s₃, hs₃, h₃⟩ := Option.map_eq_some_iff.mp h₃
  obtain ⟨s₁', hdelete, hs₁⟩ := Option.bind_eq_some_iff.mp hs₁
  obtain ⟨s₃', hrestore, hs₃⟩ := Option.bind_eq_some_iff.mp hs₃
  cases hs₁
  cases hs₃
  refine ⟨s₀, s₁, s₃, ⟨.of_runActs hs₀, Option.map_eq_some_iff.mp hlive, hdelete, .refl,
    fun db id hc => ?_, hrestore⟩, h₀, h₁, h₃⟩
  have hstamp : (db, id, some 7900) ∈ stamps s₁ ∧
      ∀ t, (db, id, t) ∈ stamps s₁ → t = some 7900 := by
    rw [Cascade, live_iff, live_iff, h₀, h₁] at hc
    rw [h₁]
    simp only [List.mem_cons, Prod.mk.injEq, reduceCtorEq, and_false, List.not_mem_nil, or_false,
      and_true, false_or, not_false_eq_true] at hc ⊢
    rcases hc with ⟨rfl, rfl⟩ | ⟨rfl, rfl⟩ <;> simp
  obtain ⟨row, hrow, hat, -⟩ := mem_stamps.mp hstamp.1
  exact ⟨⟨row, hrow, hat⟩, fun row hrow hat => hstamp.2 _ (mem_stamps.mpr ⟨row, hrow, hat, rfl⟩)⟩

theorem restoresExactly_iff_rows : ∃ s₀ s₁ s₃,
    DeleteThenRestore noCasts [] (envAt 7900) (envAt 9000) 0 1 s₀ s₁ s₁ s₃ ∧
      (RestoresExactly s₀ s₁ s₁ s₃ ↔ Apart s₀ s₁ s₁ 0 1 ∧ StillUnder s₀ s₁ s₁ 0 1) := by
  obtain ⟨s₀, s₁, s₃, hpair, -, -, -⟩ := rowDeleted_pair
  exact ⟨s₀, s₁, s₃, hpair, restoresExactly_iff hpair⟩

theorem not_trashInverse : ¬ TrashInverse := by
  intro hclaim
  obtain ⟨s₀, s₁, s₃, hpair, h₀, h₁, h₃⟩ := rowDeleted_pair
  have hexact := hclaim _ _ _ _ _ _ _ _ _ _ hpair 2 3
  have hout : TakenOut s₁ s₃ 2 3 := by
    refine ⟨?_, live_iff.mpr (by rw [h₃]; decide), ?_⟩
    · obtain ⟨r, hr, hat, hdel⟩ := mem_stamps.mp
        (show ((2, 3, some 7100) : ℕ × ℕ × Option ℤ) ∈ stamps s₁ by rw [h₁]; decide)
      exact ⟨r, hr, hat, by rw [hdel]; rfl⟩
    · rintro ⟨r, hr, hat, hdel⟩
      have hmem := mem_stamps.mpr ⟨r, hr, hat, rfl⟩
      rw [h₃] at hmem
      simp only [List.mem_cons, Prod.mk.injEq, List.not_mem_nil, or_false] at hmem
      rcases hmem with ⟨h, -⟩ | ⟨-, -, h⟩ | ⟨-, h, -⟩
      · cases h
      · rw [h] at hdel
        cases hdel
      · cases h
  have hcascade := (hexact.mp hout).1
  rw [live_iff, h₀] at hcascade
  exact absurd hcascade (by decide)

end Trash

end Semprec
