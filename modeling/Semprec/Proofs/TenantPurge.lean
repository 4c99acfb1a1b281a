import Mathlib.Tactic.SplitIfs
import Semprec.TenantPurge

/-!
# What a purge leaves

The foreign keys to `tenants` make the finalising commit complete: once its `DELETE` of the tenant
has checked them, no row of the tenant is there or being inserted, and none can be until the commit
(`TablesOk.deleting`).  The files have no such guard, so what is known of them is what the run has
removed and not been stored since (`RunOk`).
-/

namespace Semprec

namespace TenantPurge

variable {start : Start} {catalog : Catalog} {s s' : Sys} {t : Tables} {w : Write}
  {ws : List Write} {T U : ℕ}

/-! ### The writes of a purge -/

def Write.Purges (w : Write) (start : Start) (T : ℕ) : Prop :=
  match w with
  | .deleteRows tenantId _ | .deleteJobs tenantId _ | .insertTombstone tenantId
  | .deleteTenant tenantId => tenantId = T
  | .dropPartition d => d.tenantId = T
  | .deleteIdentity user | .deleteUser user => user ∈ start.tables.users ∧ user.tenantId = T
  | _ => False

theorem Write.Purges.not_insertRow (h : w.Purges start T) (row : Row) : w ≠ .insertRow row := by
  rintro rfl
  exact h

theorem users_apply (w : Write) : (t.apply w).users ⊆ t.users := by
  rcases w with _ | _ | _ | _ | _ | _ | _ | _ | _ | _ | _ | _
  case deleteUser => exact List.filter_subset_self _
  all_goals exact List.Subset.refl _

theorem users_foldl : (ws.foldl Tables.apply t).users ⊆ t.users := by
  induction ws generalizing t with
  | nil => exact List.Subset.refl _
  | cons w ws ih => exact List.Subset.trans ih (users_apply w)

theorem filter_filter_of_imp {α : Type*} {p q : α → Bool} {l : List α}
    (h : ∀ a ∈ l, q a = true → p a = true) : (l.filter p).filter q = l.filter q := by
  rw [List.filter_filter]
  refine List.filter_congr fun a ha => ?_
  rcases hq : q a with _ | _
  · rfl
  · simp [h a ha hq]

theorem part_apply (hw : w.Purges start T) (hne : U ≠ T)
    (husers : t.users ⊆ start.tables.users) : (t.apply w).part U = t.part U := by
  rcases w with _ | ⟨tenantId, ids⟩ | d | _ | user | user | _ | _ | ⟨tenantId, ids⟩ | _ |
    tenantId | tenantId
  case deleteRows =>
    subst hw
    simp only [Tables.part, Tables.apply, Tables.usersOf]
    rw [filter_filter_of_imp]
    intro row _ hU
    have hrow : row.tenantId = U := by simpa using hU
    simp [hrow, hne]
  case dropPartition =>
    subst hw
    simp only [Tables.part, Tables.apply, Tables.usersOf]
    rw [filter_filter_of_imp]
    intro row _ hU
    have hrow : row.tenantId = U := by simpa using hU
    simp only [ne_eq, decide_eq_true_eq]
    intro hd
    exact hne (hrow ▸ (row.databaseId_tenant d hd).symm)
  case deleteIdentity =>
    simp only [Tables.part, Tables.apply, Tables.usersOf]
    rw [filter_filter_of_imp]
    intro i _ hU
    obtain ⟨v, hv, hi⟩ := List.any_eq_true.mp hU
    obtain ⟨hmem, hvU⟩ := List.mem_filter.mp hv
    have hvU : v.tenantId = U := by simpa using hvU
    have hapart : v ≠ user := by
      rintro rfl
      exact hne (hvU.symm.trans hw.2)
    have hv := husers hmem
    rcases i with ⟨table, userId⟩ | ⟨table, email⟩
    · simp only [IdentityRow.isOf, decide_eq_true_eq] at hi
      simp only [IdentityRow.isOf, Bool.not_eq_true', decide_eq_false_iff_not]
      exact fun h => hapart (start.users_pkey v hv user hw.1 (hi.symm.trans h))
    · simp only [IdentityRow.isOf, decide_eq_true_eq] at hi
      simp only [IdentityRow.isOf, Bool.not_eq_true', decide_eq_false_iff_not]
      exact fun h => hapart (start.users_email_key v hv user hw.1 (hi.symm.trans h))
  case deleteUser =>
    have hfilter : (t.users.filter (·.id ≠ user.id)).filter (·.tenantId = U) =
        t.users.filter (·.tenantId = U) := by
      refine filter_filter_of_imp fun v hv hU => ?_
      have hvU : v.tenantId = U := by simpa using hU
      simp only [ne_eq, decide_eq_true_eq]
      intro hid
      have heq := start.users_pkey v (husers hv) user hw.1 hid
      exact hne (hvU.symm.trans (heq ▸ hw.2))
    simp only [Tables.part, Tables.apply, Tables.usersOf, hfilter]
  case deleteJobs =>
    subst hw
    simp only [Tables.part, Tables.apply, Tables.usersOf]
    rw [filter_filter_of_imp]
    intro job _ hU
    have hjob : job.tenantId = U := by simpa using hU
    simp [hjob, hne]
  case insertTombstone => rfl
  case deleteTenant =>
    subst hw
    simp only [Tables.part, Tables.apply, Tables.usersOf]
    rw [filter_filter_of_imp]
    intro x _ hU
    have hx : x.id = U := by simpa using hU
    simp [hx, hne]
  all_goals exact hw.elim

theorem part_foldl (hws : ∀ w ∈ ws, w.Purges start T) (hne : U ≠ T)
    (husers : t.users ⊆ start.tables.users) :
    (ws.foldl Tables.apply t).part U = t.part U := by
  induction ws generalizing t with
  | nil => rfl
  | cons w ws ih =>
    rw [List.foldl_cons, ih (fun x hx => hws x (List.mem_cons_of_mem w hx))
      (List.Subset.trans (users_apply w) husers), part_apply (hws w List.mem_cons_self) hne husers]

/-! ### The tables -/

theorem hasTenant_apply (hw : w ≠ .deleteTenant T) :
    (t.apply w).hasTenant T = t.hasTenant T := by
  rcases w with _ | _ | _ | _ | _ | _ | _ | _ | _ | tenantId | _ | tenantId
  case setDeleting =>
    simp only [Tables.hasTenant, Tables.apply, List.any_map]
    congr 1
    funext x
    simp only [Function.comp]
    split_ifs <;> rfl
  case deleteTenant =>
    have hne : T ≠ tenantId := fun h => hw (by rw [h])
    simp only [Tables.hasTenant, Tables.apply, List.any_filter]
    congr 1
    funext x
    by_cases hx : x.id = T
    · simp [hx, hne]
    · simp [hx]
  all_goals rfl

theorem hasTenant_deleteTenant (T : ℕ) : (t.apply (.deleteTenant T)).hasTenant T = false := by
  simp [Tables.hasTenant, Tables.apply, List.any_filter]

theorem mem_rows_apply {row : Row} (h : row ∈ (t.apply w).rows) :
    row ∈ t.rows ∨ w = .insertRow row := by
  rcases w with inserted | _ | _ | _ | _ | _ | _ | _ | _ | _ | _ | _
  case insertRow =>
    rcases List.mem_append.mp h with h | h
    · exact .inl h
    · exact .inr (by rw [List.mem_singleton.mp h])
  case deleteRows | dropPartition => exact .inl (List.mem_of_mem_filter h)
  all_goals exact .inl h

theorem mem_rows_foldl {row : Row} (h : row ∈ (ws.foldl Tables.apply t).rows) :
    row ∈ t.rows ∨ .insertRow row ∈ ws := by
  induction ws generalizing t with
  | nil => exact .inl h
  | cons w ws ih =>
    rcases ih h with h | h
    · refine (mem_rows_apply h).imp_right fun hw => ?_
      rw [hw]
      exact List.mem_cons_self
    · exact .inr (List.mem_cons_of_mem w h)

theorem hasTenant_foldl (hws : .deleteTenant T ∉ ws) :
    (ws.foldl Tables.apply t).hasTenant T = t.hasTenant T := by
  induction ws generalizing t with
  | nil => rfl
  | cons w ws ih =>
    rw [List.foldl_cons, ih fun h => hws (List.mem_cons_of_mem w h),
      hasTenant_apply fun h => hws (h ▸ List.mem_cons_self)]

theorem hasTenant_foldl_of_mem (hws : .deleteTenant T ∈ ws) :
    (ws.foldl Tables.apply t).hasTenant T = false := by
  induction ws generalizing t with
  | nil => exact absurd hws List.not_mem_nil
  | cons w ws ih =>
    by_cases hmem : .deleteTenant T ∈ ws
    · exact ih hmem
    · have hw : w = .deleteTenant T := ((List.mem_cons.mp hws).resolve_right hmem).symm
      rw [List.foldl_cons, hasTenant_foldl hmem, hw, hasTenant_deleteTenant]

structure TablesOk (start : Start) (db : ReadCommitted Tables Write) : Prop where
  users : db.committed.users ⊆ start.tables.users
  fk : ∀ row ∈ db.committed.rows, db.committed.hasTenant row.tenantId = true
  fk_pending : ∀ u row, .insertRow row ∈ db.pending u →
    db.committed.hasTenant row.tenantId = true
  deleting : ∀ u T, .deleteTenant T ∈ db.pending u →
    (∀ row ∈ db.committed.rows, row.tenantId ≠ T) ∧
      ∀ v row, .insertRow row ∈ db.pending v → row.tenantId ≠ T

namespace TablesOk

variable {db db' : ReadCommitted Tables Write} {u : ℕ}

theorem begin (h : TablesOk start db) (hdb : db.begin u = some db') : TablesOk start db' := by
  have hc := ReadCommitted.begin_committed hdb
  have hp := ReadCommitted.begin_pending hdb
  exact ⟨hc ▸ h.users, hc ▸ h.fk, fun v row hrow => hc ▸ h.fk_pending v row (hp ▸ hrow),
    fun v T hT => hc ▸ ⟨(h.deleting v T (hp ▸ hT)).1, fun v row hrow =>
      (h.deleting _ T (hp ▸ hT)).2 v row (hp ▸ hrow)⟩⟩

theorem write (h : TablesOk start db) (hdb : db.write u ws = some db')
    (hinsert : ∀ row, .insertRow row ∈ ws → db.committed.hasTenant row.tenantId = true ∧
      .deleteTenant row.tenantId ∉ ws ∧ ∀ v, .deleteTenant row.tenantId ∉ db.pending v)
    (hdelete : ∀ T, .deleteTenant T ∈ ws → (∀ row ∈ db.committed.rows, row.tenantId ≠ T) ∧
      ∀ v row, .insertRow row ∈ db.pending v → row.tenantId ≠ T) : TablesOk start db' := by
  have hc := ReadCommitted.write_committed hdb
  refine ⟨hc ▸ h.users, hc ▸ h.fk, fun v row hrow => ?_, fun v T hT => ?_⟩
  · rw [hc]
    rcases ReadCommitted.mem_write_pending hdb hrow with hold | ⟨-, hnew⟩
    · exact h.fk_pending v row hold
    · exact (hinsert row hnew).1
  · rw [hc]
    rcases ReadCommitted.mem_write_pending hdb hT with hold | ⟨-, hnew⟩
    · refine ⟨(h.deleting v T hold).1, fun v' row hrow => ?_⟩
      rcases ReadCommitted.mem_write_pending hdb hrow with hold' | ⟨-, hnew'⟩
      · exact (h.deleting v T hold).2 v' row hold'
      · rintro rfl
        exact (hinsert row hnew').2.2 v hold
    · refine ⟨(hdelete T hnew).1, fun v' row hrow => ?_⟩
      rcases ReadCommitted.mem_write_pending hdb hrow with hold' | ⟨-, hnew'⟩
      · exact (hdelete T hnew).2 v' row hold'
      · rintro rfl
        exact (hinsert row hnew').2.1 hnew

theorem mem_pending_of_close {x : Write} {v : ℕ}
    (hp : db'.pending = Function.update db.pending u []) (hx : x ∈ db'.pending v) :
    v ≠ u ∧ x ∈ db.pending v := by
  rw [hp] at hx
  by_cases hv : v = u
  · rw [hv, Function.update_self] at hx
    exact absurd hx List.not_mem_nil
  · rw [Function.update_of_ne hv] at hx
    exact ⟨hv, hx⟩

theorem discard (h : TablesOk start db) (hc : db'.committed = db.committed)
    (hp : db'.pending = Function.update db.pending u []) : TablesOk start db' :=
  ⟨hc ▸ h.users, hc ▸ h.fk,
    fun v row hrow => hc ▸ h.fk_pending v row (mem_pending_of_close hp hrow).2,
    fun v T hT => hc ▸ ⟨(h.deleting v T (mem_pending_of_close hp hT).2).1, fun v' row hrow =>
      (h.deleting v T (mem_pending_of_close hp hT).2).2 v' row
        (mem_pending_of_close hp hrow).2⟩⟩

theorem commit (h : TablesOk start db) (hdb : db.commit Tables.apply u = some db') :
    TablesOk start db' := by
  have hc : db'.committed = (db.pending u).foldl Tables.apply db.committed :=
    ReadCommitted.commit_committed hdb
  have hp := ReadCommitted.commit_pending hdb
  -- a row that is there or being inserted has a tenant that this commit does not delete
  have hkept : ∀ row : Row, db.committed.hasTenant row.tenantId = true →
      .deleteTenant row.tenantId ∉ db.pending u →
      db'.committed.hasTenant row.tenantId = true := by
    intro row hrow hnot
    rw [hc, hasTenant_foldl hnot, hrow]
  have hrows : ∀ row ∈ db'.committed.rows, row ∈ db.committed.rows ∨
      .insertRow row ∈ db.pending u := by
    intro row hrow
    rw [hc] at hrow
    exact mem_rows_foldl hrow
  refine ⟨?_, fun row hrow => ?_, fun v row hrow => ?_, fun v T hT => ⟨fun row hrow => ?_,
    fun v' row hrow => ?_⟩⟩
  · rw [hc]
    exact List.Subset.trans users_foldl h.users
  · rcases hrows row hrow with hold | hnew
    · exact hkept row (h.fk row hold) fun hd => (h.deleting u _ hd).1 row hold rfl
    · exact hkept row (h.fk_pending u row hnew) fun hd => (h.deleting u _ hd).2 u row hnew rfl
  · have hold := (mem_pending_of_close hp hrow).2
    exact hkept row (h.fk_pending v row hold) fun hd => (h.deleting u _ hd).2 v row hold rfl
  · have hd := h.deleting v T (mem_pending_of_close hp hT).2
    rcases hrows row hrow with hold | hnew
    · exact hd.1 row hold
    · exact hd.2 u row hnew
  · exact (h.deleting v T (mem_pending_of_close hp hT).2).2 v' row
      (mem_pending_of_close hp hrow).2

/-- Once the `DELETE` of the tenant is written, the commit leaves nothing of it. -/
theorem erased (h : TablesOk start db) (hdb : db.commit Tables.apply u = some db')
    (hT : .deleteTenant T ∈ db.pending u) :
    (∀ row ∈ db'.committed.rows, row.tenantId ≠ T) ∧ db'.committed.hasTenant T = false := by
  have hc : db'.committed = (db.pending u).foldl Tables.apply db.committed :=
    ReadCommitted.commit_committed hdb
  refine ⟨fun row hrow => ?_, by rw [hc, hasTenant_foldl_of_mem hT]⟩
  rw [hc] at hrow
  rcases mem_rows_foldl hrow with hold | hnew
  · exact (h.deleting u T hT).1 row hold
  · exact (h.deleting u T hT).2 u row hnew

end TablesOk

/-! ### The runs -/

namespace Phase

def left : Phase → List (Root × StorageKey)
  | .removeBlobs files _ | .removeExports files => files
  | _ => []

/-- The directory of the root has been removed the second time. -/
def cleared (root : Root) : Phase → Prop
  | .directoriesAgain left => root ∉ left
  | .checking _ | .identity _ | .tombstone | .tenant | .committing => True
  | _ => False

/-- The finalising transaction is open. -/
def Finalising : Phase → Prop
  | .checking _ | .identity _ | .tombstone | .tenant | .committing => True
  | _ => False

def Ok (start : Start) (T : ℕ) : Phase → Prop
  | .removeBlobs files _ | .removeExports files => ∀ x ∈ files, x.2.tenantId = T
  | .partitions left | .latePartitions left _ => ∀ d ∈ left, d.tenantId = T
  | .identity users => ∀ u ∈ users, u ∈ start.tables.users ∧ u.tenantId = T
  | _ => True

end Phase

structure RunOk (start : Start) (ws : List Write) (files : List File) (stored : ℕ) (run : Run) :
    Prop where
  writes : ∀ w ∈ ws, w.Purges start run.tenantId
  closed : ¬ run.phase.Finalising → ws = []
  committing : run.phase = .committing → .deleteTenant run.tenantId ∈ ws
  phase : run.phase.Ok start run.tenantId
  named : run.phase ≠ .idle → ∀ f ∈ files, f.key.prefixed = false → f.key ∈ run.named →
    (f.root, f.key) ∈ run.phase.left
  cleared : ∀ root, run.phase.cleared root → ∀ f ∈ files, f.root = root →
    f.key.tenantId = run.tenantId → f.key.prefixed = true → run.cleared root ≤ f.stored
  cleared_le : ∀ root, run.cleared root ≤ stored

structure Inv (start : Start) (s : Sys) : Prop where
  tables : TablesOk start s.db
  runs : ∀ r, RunOk start (s.db.pending (runTx r)) s.files s.stored (s.runs r)
  writers : ∀ w T, .deleteTenant T ∉ s.db.pending (writerTx w)

theorem inv_start (start : Start) : Inv start start.sys := by
  refine ⟨⟨List.Subset.refl _, start.tenant_fk, ?_, ?_⟩, fun r => ?_,
    fun w T hT => absurd hT List.not_mem_nil⟩
  · intro u row hrow
    exact absurd hrow List.not_mem_nil
  · intro u T hT
    exact absurd hT List.not_mem_nil
  · exact ⟨fun w hw => absurd hw List.not_mem_nil, fun _ => rfl, nofun, True.intro,
      fun _ f _ _ hf => absurd hf List.not_mem_nil, fun root h => h.elim, fun root => Nat.zero_le _⟩

section runs

variable {ws' : List Write} {files files' : List File} {stored stored' : ℕ} {run : Run} {r : ℕ}

theorem RunOk.withFiles (h : RunOk start ws files stored run) (hstored : stored ≤ stored')
    (hfiles : ∀ f ∈ files', f ∈ files ∨ f.key.prefixed = true ∧ f.stored = stored) :
    RunOk start ws files' stored' run := by
  refine ⟨h.writes, h.closed, h.committing, h.phase, fun hactive f hf hunder => ?_,
    fun root hroot f hf hr hT hunder => ?_, fun root => (h.cleared_le root).trans hstored⟩
  · rcases hfiles f hf with hold | ⟨hnew, -⟩
    · exact h.named hactive f hold hunder
    · exact absurd (hunder.symm.trans hnew) Bool.false_ne_true
  · rcases hfiles f hf with hold | ⟨-, hnew⟩
    · exact h.cleared root hroot f hold hr hT hunder
    · rw [hnew]
      exact h.cleared_le root

theorem runTx_injective {r r' : ℕ} (h : runTx r = runTx r') : r = r' := by
  unfold runTx at h
  omega

theorem runTx_ne_writerTx (r w : ℕ) : runTx r ≠ writerTx w := by
  unfold runTx writerTx
  omega

/-- A step of one run: the others find their transactions as they were. -/
theorem Inv.setRun {s' : Sys} (h : Inv start s) (htables : TablesOk start s'.db)
    (hruns : s'.runs = Function.update s.runs r run)
    (hpending : ∀ u, u ≠ runTx r → s'.db.pending u = s.db.pending u)
    (hfiles : s'.files ⊆ s.files) (hstored : s'.stored = s.stored)
    (hrun : RunOk start (s'.db.pending (runTx r)) s'.files s.stored run) : Inv start s' := by
  refine ⟨htables, fun r' => ?_, fun w T => ?_⟩
  · rw [hruns, hstored]
    rcases eq_or_ne r' r with rfl | hne
    · rwa [Function.update_self]
    · rw [Function.update_of_ne hne, hpending _ fun he => hne (runTx_injective he)]
      exact (h.runs r').withFiles le_rfl fun f hf => .inl (hfiles hf)
  · rw [hpending _ (runTx_ne_writerTx r w).symm]
    exact h.writers w T

theorem RunOk.goOn {phase : Phase} (h : RunOk start [] files stored run)
    (hactive : run.phase ≠ .idle) (hfinal : ¬ phase.Finalising)
    (hok : phase.Ok start run.tenantId) (hleft : run.phase.left ⊆ phase.left)
    (hcleared : ∀ root, ¬ phase.cleared root) :
    RunOk start [] files stored { run with phase } :=
  ⟨h.writes, fun _ => rfl, fun hc => absurd (by rw [show phase = .committing from hc]; trivial)
    hfinal, hok, fun _ f hf hunder hnamed => hleft (h.named hactive f hf hunder hnamed),
    fun root hroot => absurd hroot (hcleared root), h.cleared_le⟩

theorem RunOk.finish (h : RunOk start ws files stored run) :
    RunOk start [] files stored { run with phase := .idle } :=
  ⟨fun _ hw => absurd hw List.not_mem_nil, fun _ => rfl, nofun, True.intro,
    fun hactive => absurd rfl hactive, fun _ hroot => hroot.elim, h.cleared_le⟩

theorem RunOk.finalise {phase : Phase} (h : RunOk start ws files stored run)
    (hold : run.phase.left = []) (hactive : run.phase ≠ .idle)
    (hcleared : ∀ root, run.phase.cleared root)
    (hws : ∀ w ∈ ws', w.Purges start run.tenantId) (hfinal : phase.Finalising)
    (hcommitting : phase = .committing → .deleteTenant run.tenantId ∈ ws')
    (hok : phase.Ok start run.tenantId) :
    RunOk start ws' files stored { run with phase } :=
  ⟨hws, fun hnot => absurd hfinal hnot, hcommitting, hok,
    fun _ f hf hunder hnamed => absurd (hold ▸ h.named hactive f hf hunder hnamed)
      List.not_mem_nil,
    fun root _ => h.cleared root (hcleared root), h.cleared_le⟩

theorem runStatement_spec (h : Inv start s) (hs : s.runStatement r ws = some s')
    (hws : ∀ w ∈ ws, w.Purges start T ∧ ∀ T', w ≠ .deleteTenant T') :
    TablesOk start s'.db ∧ s' = { s with db := s'.db } ∧
      (∀ u, s'.db.pending u = s.db.pending u) ∧
      s'.db.committed = ws.foldl Tables.apply s.db.committed := by
  obtain ⟨db, hbegin, hs⟩ := Option.bind_eq_some_iff.mp hs
  obtain ⟨db', hwrite, hs⟩ := Option.bind_eq_some_iff.mp hs
  obtain ⟨db'', hcommit, rfl⟩ := Option.map_eq_some_iff.mp hs
  have hnew : runTx r ∉ s.db.opened := by
    intro hmem
    simp [ReadCommitted.begin, hmem] at hbegin
  have hnil := s.db.pending_nil _ hnew
  have hpending : db'.pending (runTx r) = ws := by
    rw [ReadCommitted.write_pending hwrite, Function.update_self,
      ReadCommitted.begin_pending hbegin, hnil, List.nil_append]
  refine ⟨?_, rfl, fun u => ?_, ?_⟩
  · refine ((h.tables.begin hbegin).write hwrite (fun row hrow => ?_) fun T' hT' => ?_).commit
      hcommit
    · exact ((hws _ hrow).1.not_insertRow row rfl).elim
    · exact absurd rfl ((hws _ hT').2 T')
  · rw [ReadCommitted.commit_pending hcommit]
    by_cases hu : u = runTx r
    · rw [hu, Function.update_self, hnil]
    · rw [Function.update_of_ne hu, ReadCommitted.write_pending hwrite, Function.update_of_ne hu,
        ReadCommitted.begin_pending hbegin]
  · have hc : db''.committed = (db'.pending (runTx r)).foldl Tables.apply db'.committed :=
      ReadCommitted.commit_committed hcommit
    rw [hc, hpending, ReadCommitted.write_committed hwrite, ReadCommitted.begin_committed hbegin]

structure RunStep (start : Start) (s s' : Sys) (r : ℕ) : Prop where
  inv : Inv start s'
  spared : ∀ U, U ≠ (s.runs r).tenantId → Spared U s s'

/-- Only the phase changes, and what the run has read. -/
theorem RunStep.ofRun (h : Inv start s) (hruns : s'.runs = Function.update s.runs r run)
    (hdb : s'.db = s.db) (hfiles : s'.files = s.files) (hstored : s'.stored = s.stored)
    (hrun : RunOk start (s.db.pending (runTx r)) s.files s.stored run) : RunStep start s s' r := by
  refine ⟨h.setRun (hdb ▸ h.tables) hruns (fun u _ => by rw [hdb]) (hfiles ▸ fun _ => id) hstored
    (by rwa [hdb, hfiles]), fun U _ => ⟨by rw [hdb], by rw [hfiles]⟩⟩

theorem RunStep.ofFiles (h : Inv start s) {keep : File → Bool}
    (hkeep : ∀ f ∈ s.files, keep f = false → f.key.tenantId = (s.runs r).tenantId)
    (hruns : s'.runs = Function.update s.runs r run) (hdb : s'.db = s.db)
    (hfiles : s'.files = s.files.filter keep) (hstored : s'.stored = s.stored)
    (hrun : RunOk start (s.db.pending (runTx r)) (s.files.filter keep) s.stored run) :
    RunStep start s s' r := by
  refine ⟨h.setRun (hdb ▸ h.tables) hruns (fun u _ => by rw [hdb])
    (hfiles ▸ List.filter_subset_self _) hstored (by rwa [hdb, hfiles]),
    fun U hU => ⟨by rw [hdb], ?_⟩⟩
  rw [hfiles, filter_filter_of_imp]
  intro f hf hfU
  by_contra hdrop
  have hfU : f.key.tenantId = U := by simpa using hfU
  exact hU (hfU.symm.trans (hkeep f hf (by simpa using hdrop)))

theorem RunStep.ofStatement (h : Inv start s) {s₁ : Sys} (hs : s.runStatement r ws = some s₁)
    (hws : ∀ w ∈ ws, w.Purges start (s.runs r).tenantId ∧ ∀ T', w ≠ .deleteTenant T')
    (hruns : s'.runs = Function.update s.runs r run) (hdb : s'.db = s₁.db)
    (hfiles : s'.files = s.files) (hstored : s'.stored = s.stored)
    (hrun : RunOk start (s.db.pending (runTx r)) s.files s.stored run) :
    RunStep start s s' r := by
  obtain ⟨htables, -, hpending, hcommitted⟩ := runStatement_spec h hs hws
  refine ⟨h.setRun (hdb ▸ htables) hruns (fun u _ => by rw [hdb, hpending])
    (hfiles ▸ fun _ => id) hstored (by rwa [hdb, hpending, hfiles]),
    fun U hU => ⟨?_, by rw [hfiles]⟩⟩
  rw [hdb, hcommitted, part_foldl (fun w hw => (hws w hw).1) hU h.tables.users]

theorem runStatement_frame (hs : s.runStatement r ws = some s') :
    s'.runs = s.runs ∧ s'.files = s.files ∧ s'.stored = s.stored := by
  obtain ⟨db, -, hs⟩ := Option.bind_eq_some_iff.mp hs
  obtain ⟨db', -, hs⟩ := Option.bind_eq_some_iff.mp hs
  obtain ⟨db'', -, rfl⟩ := Option.map_eq_some_iff.mp hs
  exact ⟨rfl, rfl, rfl⟩

theorem RunStep.statementThen (h : Inv start s) {s₁ : Sys} {phase : Phase}
    (hs : s.runStatement r ws = some s₁)
    (hws : ∀ w ∈ ws, w.Purges start (s.runs r).tenantId ∧ ∀ T', w ≠ .deleteTenant T')
    (hrun : RunOk start (s.db.pending (runTx r)) s.files s.stored { s.runs r with phase }) :
    RunStep start s (s₁.setPhase r phase) r := by
  obtain ⟨hruns, hfiles, hstored⟩ := runStatement_frame hs
  refine RunStep.ofStatement h hs hws ?_ rfl hfiles hstored hrun
  rw [Sys.setPhase, Sys.setRun, hruns]

/-- A statement of the finalising transaction, which nothing of it conflicts with. -/
theorem RunStep.ofWrite (h : Inv start s) {db : ReadCommitted Tables Write}
    (hdb : s.db.write (runTx r) ws = some db)
    (hws : ∀ w ∈ ws, w.Purges start (s.runs r).tenantId)
    (hdelete : ∀ T, .deleteTenant T ∈ ws → (∀ row ∈ s.db.committed.rows, row.tenantId ≠ T) ∧
      ∀ v row, .insertRow row ∈ s.db.pending v → row.tenantId ≠ T)
    (hs' : s' = { s.setRun r run with db })
    (hrun : RunOk start (s.db.pending (runTx r) ++ ws) s.files s.stored run) :
    RunStep start s s' r := by
  subst hs'
  have hpending := ReadCommitted.write_pending hdb
  have htables := h.tables.write hdb
    (fun row hrow => ((hws _ hrow).not_insertRow row rfl).elim) hdelete
  refine ⟨h.setRun htables rfl (fun u hu => ?_) (fun _ => id) rfl ?_,
    fun U _ => ⟨?_, rfl⟩⟩
  · rw [hpending, Function.update_of_ne hu]
  · rwa [hpending, Function.update_self]
  · rw [ReadCommitted.write_committed hdb]

theorem runStep_stop (h : Inv start s) (r : ℕ) : RunStep start s (s.stop r) r := by
  have hrun := (h.runs r).finish
  by_cases hopen : runTx r ∈ s.db.opened
  · have hdb : (s.stop r).db = s.db.close (runTx r) s.db.committed := if_pos hopen
    refine ⟨h.setRun (hdb ▸ h.tables.discard rfl rfl) rfl (fun u hu => ?_) (fun _ => id) rfl ?_,
      fun U _ => ⟨by rw [hdb]; rfl, rfl⟩⟩
    · rw [hdb]
      exact Function.update_of_ne hu _ _
    · rw [hdb]
      have hnil : (s.db.close (runTx r) s.db.committed).pending (runTx r) = [] :=
        Function.update_self ..
      rwa [hnil]
  · have hdb : (s.stop r).db = s.db := if_neg hopen
    refine RunStep.ofRun h rfl hdb rfl rfl ?_
    rwa [s.db.pending_nil _ hopen]

theorem mem_rowsOf {table : String} {row : Row} (h : row ∈ t.rowsOf table T) :
    row ∈ t.rows ∧ row.table = table ∧ row.tenantId = T := by
  simpa [Tables.rowsOf] using h

theorem keys_tenant {rows : List Row} (h : ∀ row ∈ rows, row.tenantId = T) :
    ∀ key ∈ rows.filterMap (·.storageKey), key.tenantId = T := by
  intro key hkey
  obtain ⟨row, hrow, heq⟩ := List.mem_filterMap.mp hkey
  exact (row.storageKey_tenant key heq).trans (h row hrow)

theorem databasesOf_tenant : ∀ d ∈ databasesOf t T, d.tenantId = T := by
  intro d hd
  obtain ⟨row, hrow, rfl⟩ := List.mem_map.mp hd
  exact (mem_rowsOf hrow).2.2

theorem readBlobPage_tenant {afterId : Option ℕ} :
    ∀ row ∈ readBlobPage t T afterId, row.tenantId = T := by
  intro row hrow
  have hsorted := (List.mem_insertionSort _).mp (List.mem_of_mem_take hrow)
  exact (mem_rowsOf (List.mem_of_mem_filter hsorted)).2.2

theorem mem_inBothRoots {keys : List StorageKey} {x : Root × StorageKey} :
    x ∈ inBothRoots keys ↔ x.2 ∈ keys := by
  obtain ⟨root, key⟩ := x
  simp only [inBothRoots, roots, List.mem_flatMap, List.mem_map, Prod.mk.injEq]
  constructor
  · rintro ⟨key', hkey, root', -, -, rfl⟩
    exact hkey
  · intro hkey
    refine ⟨key, hkey, root, ?_, rfl, rfl⟩
    rcases root <;> simp

theorem RunOk.read {keys : List StorageKey} {phase : Phase}
    (h : RunOk start [] files stored run) (hactive : run.phase ≠ .idle)
    (hold : run.phase.left = []) (hkeys : ∀ key ∈ keys, key.tenantId = run.tenantId)
    (hphase : (∃ last, phase = .removeBlobs (inBothRoots keys) last) ∨
      phase = .removeExports (inBothRoots keys)) :
    RunOk start [] files stored { run with phase, named := run.named ++ keys } := by
  have hleft : phase.left = inBothRoots keys := by
    rcases hphase with ⟨last, rfl⟩ | rfl <;> rfl
  have hok : phase.Ok start run.tenantId := by
    have hall : ∀ x ∈ inBothRoots keys, x.2.tenantId = run.tenantId :=
      fun x hx => hkeys x.2 (mem_inBothRoots.mp hx)
    rcases hphase with ⟨last, rfl⟩ | rfl <;> exact hall
  have hno : ¬ phase.Finalising ∧ ∀ root, ¬ phase.cleared root := by
    rcases hphase with ⟨last, rfl⟩ | rfl <;> exact ⟨id, fun _ => id⟩
  refine ⟨h.writes, fun _ => rfl, ?_, hok, fun _ f hf hunder hnamed => ?_,
    fun root hroot => absurd hroot (hno.2 root), h.cleared_le⟩
  · rintro rfl
    exact absurd trivial hno.1
  · rw [hleft]
    refine mem_inBothRoots.mpr ((List.mem_append.mp hnamed).resolve_left fun hin => ?_)
    have hmem := h.named hactive f hf hunder hin
    rw [hold] at hmem
    exact absurd hmem List.not_mem_nil

/-- One file of those left is removed. -/
theorem RunOk.remove {root : Root} {key : StorageKey} {left : List (Root × StorageKey)}
    {phase : Phase} (h : RunOk start [] files stored run) (hactive : run.phase ≠ .idle)
    (hold : run.phase.left = (root, key) :: left) (hfinal : ¬ phase.Finalising)
    (hok : phase.Ok start run.tenantId) (hleft : phase.left = left)
    (hcleared : ∀ root, ¬ phase.cleared root) :
    RunOk start [] (files.filter fun f => !(f.root = root && f.key = key)) stored
      { run with phase } := by
  refine ⟨h.writes, fun _ => rfl, ?_, hok, fun _ f hf hunder hnamed => ?_,
    fun root hroot => absurd hroot (hcleared root), h.cleared_le⟩
  · rintro rfl
    exact absurd trivial hfinal
  · obtain ⟨hmem, hkeep⟩ := List.mem_filter.mp hf
    have hin := h.named hactive f hmem hunder hnamed
    rw [hold] at hin
    rw [hleft]
    refine (List.mem_cons.mp hin).resolve_left fun heq => ?_
    simp only [Prod.mk.injEq] at heq
    simp [heq.1, heq.2] at hkeep

theorem RunOk.removeDirectory {root : Root} {left : List Root} {phase : Phase}
    {cleared : Root → ℕ} (h : RunOk start [] files stored run) (hactive : run.phase ≠ .idle)
    (hold : run.phase.left = [])
    (hphase : phase = .directories left ∧ cleared = run.cleared ∨
      run.phase = .directoriesAgain (root :: left) ∧ phase = .directoriesAgain left ∧
        cleared = Function.update run.cleared root stored) :
    RunOk start [] (files.filter fun f =>
        !(f.root = root && f.key.prefixed && f.key.tenantId = run.tenantId)) stored
      { run with phase, cleared } := by
  have hnamed : ∀ f ∈ files, f.key.prefixed = false → f.key ∉ run.named := by
    intro f hf hunder hin
    have hmem := h.named hactive f hf hunder hin
    rw [hold] at hmem
    exact absurd hmem List.not_mem_nil
  rcases hphase with ⟨rfl, rfl⟩ | ⟨hrun, rfl, rfl⟩
  · exact ⟨h.writes, fun _ => rfl, nofun, True.intro, fun _ f hf hunder hin =>
      absurd hin (hnamed f (List.mem_of_mem_filter hf) hunder), fun _ hroot => hroot.elim,
      h.cleared_le⟩
  · refine ⟨h.writes, fun _ => rfl, nofun, True.intro, fun _ f hf hunder hin =>
      absurd hin (hnamed f (List.mem_of_mem_filter hf) hunder), fun root' hroot f hf hr hT
      hunder => ?_, fun root' => ?_⟩
    · obtain ⟨hmem, hkeep⟩ := List.mem_filter.mp hf
      dsimp only at hT ⊢
      rcases eq_or_ne root' root with rfl | hne
      · simp [hr, hT, hunder] at hkeep
      · rw [Function.update_of_ne hne]
        refine h.cleared root' ?_ f hmem hr hT hunder
        rw [hrun]
        exact fun hin => (List.mem_cons.mp hin).elim hne hroot
    · rcases eq_or_ne root' root with rfl | hne
      · simp
      · simpa [Function.update_of_ne hne] using h.cleared_le root'

theorem purges_deleteRows {rows : List (String × ℕ)} :
    ∀ w ∈ [Write.deleteRows T rows], w.Purges start T ∧ ∀ T', w ≠ .deleteTenant T' :=
  List.forall_mem_singleton.mpr ⟨rfl, fun _ => nofun⟩

theorem purges_deleteJobs {ids : List ℕ} :
    ∀ w ∈ [Write.deleteJobs T ids], w.Purges start T ∧ ∀ T', w ≠ .deleteTenant T' :=
  List.forall_mem_singleton.mpr ⟨rfl, fun _ => nofun⟩

theorem purges_dropPartition {d : DatabaseId} (hd : d.tenantId = T) :
    ∀ w ∈ [Write.dropPartition d], w.Purges start T ∧ ∀ T', w ≠ .deleteTenant T' :=
  List.forall_mem_singleton.mpr ⟨hd, fun _ => nofun⟩

theorem RunStep.statementStay (h : Inv start s) (hs : s.runStatement r ws = some s')
    (hws : ∀ w ∈ ws, w.Purges start (s.runs r).tenantId ∧ ∀ T', w ≠ .deleteTenant T') :
    RunStep start s s' r := by
  obtain ⟨hruns, hfiles, hstored⟩ := runStatement_frame hs
  refine RunStep.ofStatement h hs hws ?_ rfl hfiles hstored (h.runs r)
  rw [hruns, Function.update_eq_self]

/-- One that fails the run once it is committed. -/
theorem RunStep.statementFinish (h : Inv start s) {s₁ : Sys} (hs : s.runStatement r ws = some s₁)
    (hws : ∀ w ∈ ws, w.Purges start (s.runs r).tenantId ∧ ∀ T', w ≠ .deleteTenant T')
    (hrun : RunOk start (s.db.pending (runTx r)) s.files s.stored
      { s.runs r with phase := .idle }) : RunStep start s (s₁.finish r) r := by
  obtain ⟨hruns, hfiles, hstored⟩ := runStatement_frame hs
  refine RunStep.ofStatement h hs hws ?_ rfl hfiles hstored hrun
  rw [Sys.finish, Sys.setPhase, Sys.setRun, hruns]

theorem runStep_before (h : Inv start s) (hs : advance catalog s r = some s')
    (hbefore : ¬ (s.runs r).phase.Finalising)
    (hagain : ∀ left, (s.runs r).phase ≠ .directoriesAgain left) : RunStep start s s' r := by
  have hr := h.runs r
  rw [hr.closed hbefore] at hr
  have hnil := (h.runs r).closed hbefore
  have hok := hr.phase
  rcases hphase : (s.runs r).phase with _ | _ | _ | _ | afterId | ⟨files, last⟩ | _ | files |
    roots | _ | left | _ | tables | ⟨left, tables⟩ | ⟨table, tables⟩ | roots | tables |
    users | _ | _ | _
  case idle => simp [advance, hphase] at hs
  case directoriesAgain => exact absurd hphase (hagain roots)
  case checking | identity | tombstone | tenant | committing =>
    exact absurd (by rw [hphase]; trivial) hbefore
  all_goals
    have hactive : (s.runs r).phase ≠ .idle := by simp [hphase]
    rw [hphase] at hok
    simp only [advance, hphase] at hs
  case removeBlobs =>
    rcases files with _ | ⟨⟨root, key⟩, files⟩
    · cases hs
      refine .ofRun h rfl rfl rfl rfl ?_
      rw [hnil]
      rcases last with _ | id
      · exact hr.goOn hactive (fun h => h) trivial (by simp [hphase, Phase.left]) fun _ h => h
      · exact hr.goOn hactive (fun h => h) trivial (by simp [hphase, Phase.left]) fun _ h => h
    · cases hs
      refine .ofFiles h (fun f _ hf => ?_) rfl rfl rfl rfl ?_
      · have hkey : f.root = root ∧ f.key = key := by simpa using hf
        rw [hkey.2]
        exact hok _ List.mem_cons_self
      · rw [hnil]
        exact hr.remove hactive (by rw [hphase]; rfl) (fun h => h)
          (fun x hx => hok x (List.mem_cons_of_mem _ hx)) rfl fun _ h => h
  case removeExports =>
    rcases files with _ | ⟨⟨root, key⟩, files⟩
    · cases hs
      refine .ofRun h rfl rfl rfl rfl ?_
      rw [hnil]
      exact hr.goOn hactive (fun h => h) trivial (by simp [hphase, Phase.left]) fun _ h => h
    · cases hs
      refine .ofFiles h (fun f _ hf => ?_) rfl rfl rfl rfl ?_
      · have hkey : f.root = root ∧ f.key = key := by simpa using hf
        rw [hkey.2]
        exact hok _ List.mem_cons_self
      · rw [hnil]
        exact hr.remove hactive (by rw [hphase]; rfl) (fun h => h)
          (fun x hx => hok x (List.mem_cons_of_mem _ hx)) rfl fun _ h => h
  all_goals
    have hleft : (s.runs r).phase.left = [] := by simp [hphase, Phase.left]
    -- a phase in which nothing is read, removed or cleared
    have hgo : ∀ phase : Phase, ¬ phase.Finalising → phase.Ok start (s.runs r).tenantId →
        (∀ root, ¬ phase.cleared root) →
        RunOk start (s.db.pending (runTx r)) s.files s.stored { s.runs r with phase } := by
      intro phase hfinal hok hcleared
      rw [hnil]
      refine hr.goOn hactive hfinal hok ?_ hcleared
      rw [hleft]
      exact List.nil_subset _
  case locked =>
    cases hs
    split_ifs
    · exact .ofRun h rfl rfl rfl rfl (hgo _ (fun h => h) trivial fun _ h => h)
    · exact .ofRun h rfl rfl rfl rfl (by rw [hnil]; exact hr.finish)
  case keys =>
    obtain ⟨s₁, hs₁, rfl⟩ := Option.map_eq_some_iff.mp hs
    exact .statementThen h hs₁ purges_deleteRows (hgo _ (fun h => h) trivial fun _ h => h)
  case jobs =>
    split_ifs at hs
    · cases hs
      exact .ofRun h rfl rfl rfl rfl (hgo _ (fun h => h) trivial fun _ h => h)
    · exact .statementStay h hs purges_deleteJobs
  case blobs =>
    cases hs
    refine .ofRun h rfl rfl rfl rfl ?_
    rw [hnil]
    exact hr.read hactive hleft (keys_tenant readBlobPage_tenant) (.inl ⟨_, rfl⟩)
  case exports =>
    cases hs
    refine .ofRun h rfl rfl rfl rfl ?_
    rw [hnil]
    exact hr.read hactive hleft (keys_tenant fun row hrow => (mem_rowsOf hrow).2.2) (.inr rfl)
  case directories =>
    rcases roots with _ | ⟨root, roots⟩
    · cases hs
      exact .ofRun h rfl rfl rfl rfl (hgo _ (fun h => h) trivial fun _ h => h)
    · cases hs
      refine .ofFiles h (fun f _ hf => ?_) rfl rfl rfl rfl ?_
      · have hf : (f.root = root ∧ f.key.prefixed = true) ∧
            f.key.tenantId = (s.runs r).tenantId := by
          simpa using hf
        exact hf.2
      · rw [hnil]
        exact hr.removeDirectory hactive hleft (.inl ⟨rfl, rfl⟩)
  case databases =>
    cases hs
    exact .ofRun h rfl rfl rfl rfl (hgo _ (fun h => h) databasesOf_tenant fun _ h => h)
  case partitions =>
    rcases left with _ | ⟨d, left⟩
    · cases hs
      exact .ofRun h rfl rfl rfl rfl (hgo _ (fun h => h) trivial fun _ h => h)
    · obtain ⟨s₁, hs₁, rfl⟩ := Option.map_eq_some_iff.mp hs
      exact .statementThen h hs₁ (purges_dropPartition (hok d List.mem_cons_self))
        (hgo _ (fun h => h) (fun x hx => hok x (List.mem_cons_of_mem _ hx)) fun _ h => h)
  case credentials =>
    split at hs
    · obtain ⟨s₁, hs₁, rfl⟩ := Option.map_eq_some_iff.mp hs
      exact .statementThen h hs₁ purges_deleteRows (hgo _ (fun h => h) trivial fun _ h => h)
    · cases hs
  case rows =>
    rcases tables with _ | ⟨table, tables⟩
    · cases hs
      refine .ofRun h rfl rfl rfl rfl (hgo _ (fun h => h) trivial fun root hnot => hnot ?_)
      rcases root <;> simp [roots]
    · dsimp only at hs
      split_ifs at hs
      · cases hs
        exact .ofRun h rfl rfl rfl rfl (hgo _ (fun h => h) databasesOf_tenant fun _ h => h)
      · cases hs
        exact .ofRun h rfl rfl rfl rfl (hgo _ (fun h => h) trivial fun _ h => h)
      · obtain ⟨s₁, hs₁, rfl⟩ := Option.map_eq_some_iff.mp hs
        exact .statementThen h hs₁ purges_deleteRows (hgo _ (fun h => h) trivial fun _ h => h)
      · cases hs
        exact .ofRun h rfl rfl rfl rfl (hgo _ (fun h => h) trivial fun _ h => h)
      · exact .statementStay h hs purges_deleteRows
  case latePartitions =>
    rcases left with _ | ⟨d, left⟩
    · cases hs
      exact .ofRun h rfl rfl rfl rfl (hgo _ (fun h => h) trivial fun _ h => h)
    · obtain ⟨s₁, hs₁, rfl⟩ := Option.map_eq_some_iff.mp hs
      exact .statementThen h hs₁ (purges_dropPartition (hok d List.mem_cons_self))
        (hgo _ (fun h => h) (fun x hx => hok x (List.mem_cons_of_mem _ hx)) fun _ h => h)
  case items =>
    obtain ⟨s₁, hs₁, rfl⟩ := Option.map_eq_some_iff.mp hs
    split_ifs
    · exact .statementThen h hs₁ purges_deleteRows (hgo _ (fun h => h) trivial fun _ h => h)
    · refine .statementFinish h hs₁ purges_deleteRows ?_
      rw [hnil]
      exact hr.finish

/-- The second removal of the directories, and the beginning of the finalising transaction. -/
theorem runStep_again (h : Inv start s) (hs : advance catalog s r = some s') {roots : List Root}
    (hphase : (s.runs r).phase = .directoriesAgain roots) : RunStep start s s' r := by
  have hactive : (s.runs r).phase ≠ .idle := by simp [hphase]
  have hleft : (s.runs r).phase.left = [] := by simp [hphase, Phase.left]
  have hnil := (h.runs r).closed (by rw [hphase]; exact fun h => h)
  have hr := h.runs r
  simp only [advance, hphase] at hs
  rcases roots with _ | ⟨root, roots⟩
  · obtain ⟨db, hdb, rfl⟩ := Option.map_eq_some_iff.mp hs
    have hpending := ReadCommitted.begin_pending hdb
    refine ⟨h.setRun (h.tables.begin hdb) rfl (fun u _ => by rw [hpending]) (fun _ => id) rfl ?_,
      fun U _ => ⟨by rw [ReadCommitted.begin_committed hdb], rfl⟩⟩
    rw [hpending]
    refine hr.finalise hleft hactive (fun root => ?_) hr.writes trivial nofun trivial
    rw [hphase]
    exact List.not_mem_nil
  · cases hs
    rw [hnil] at hr
    refine .ofFiles h (fun f _ hf => ?_) rfl rfl rfl rfl ?_
    · have hf : (f.root = root ∧ f.key.prefixed = true) ∧
          f.key.tenantId = (s.runs r).tenantId := by
        simpa using hf
      exact hf.2
    · rw [hnil]
      exact hr.removeDirectory hactive hleft (.inr ⟨hphase, rfl, rfl⟩)

theorem Phase.Finalising.cleared {phase : Phase} (h : phase.Finalising) (root : Root) :
    phase.cleared root := by
  rcases phase
  case checking | identity | tombstone | tenant | committing => trivial
  all_goals exact h.elim

theorem Phase.Finalising.left {phase : Phase} (h : phase.Finalising) : phase.left = [] := by
  rcases phase
  case removeBlobs | removeExports => exact h.elim
  all_goals rfl

/-- The finalising transaction up to its last statement. -/
theorem runStep_finalising (h : Inv start s) (hs : advance catalog s r = some s')
    (hfinal : (s.runs r).phase.Finalising) (hopen : (s.runs r).phase ≠ .committing) :
    RunStep start s s' r := by
  have hr := h.runs r
  have hactive : (s.runs r).phase ≠ .idle := by
    intro he
    rw [he] at hfinal
    exact hfinal
  have hcleared := hfinal.cleared
  have hleft := hfinal.left
  have hok := hr.phase
  rcases hphase : (s.runs r).phase with _ | _ | _ | _ | _ | _ | _ | _ | _ | _ | _ | _ | _ | _ |
    _ | _ | tables | users | _ | _ | _
  case checking =>
    simp only [advance, hphase] at hs
    rcases tables with _ | ⟨table, tables⟩
    · cases hs
      refine .ofRun h rfl rfl rfl rfl
        (hr.finalise hleft hactive hcleared hr.writes trivial nofun fun u hu => ?_)
      obtain ⟨hmem, htenant⟩ := List.mem_filter.mp hu
      exact ⟨h.tables.users hmem, by simpa using htenant⟩
    · dsimp only at hs
      split_ifs at hs
      · cases hs
        exact .ofRun h rfl rfl rfl rfl
          (hr.finalise hleft hactive hcleared hr.writes trivial nofun trivial)
      · cases hs
        exact runStep_stop h r
  case identity =>
    rw [hphase] at hok
    simp only [advance, hphase] at hs
    rcases users with _ | ⟨user, users⟩
    · cases hs
      exact .ofRun h rfl rfl rfl rfl
        (hr.finalise hleft hactive hcleared hr.writes trivial nofun trivial)
    · obtain ⟨s₁, hs₁, rfl⟩ := Option.map_eq_some_iff.mp hs
      obtain ⟨db, hdb, rfl⟩ := Option.map_eq_some_iff.mp hs₁
      have hws : ∀ w ∈ [Write.deleteIdentity user, .deleteUser user],
          w.Purges start (s.runs r).tenantId := by
        intro w hw
        rcases List.mem_cons.mp hw with rfl | hw
        · exact hok user List.mem_cons_self
        · rw [List.mem_singleton.mp hw]
          exact hok user List.mem_cons_self
      refine .ofWrite h hdb hws (fun T hT => ?_) rfl (hr.finalise hleft hactive hcleared ?_ trivial
        nofun fun u hu => hok u (List.mem_cons_of_mem _ hu))
      · simp at hT
      · exact fun w hw => (List.mem_append.mp hw).elim (hr.writes w) (hws w)
  case tombstone =>
    simp only [advance, hphase] at hs
    split_ifs at hs
    · obtain ⟨s₁, hs₁, rfl⟩ := Option.map_eq_some_iff.mp hs
      obtain ⟨db, hdb, rfl⟩ := Option.map_eq_some_iff.mp hs₁
      have hws : ∀ w ∈ [Write.insertTombstone (s.runs r).tenantId],
          w.Purges start (s.runs r).tenantId := List.forall_mem_singleton.mpr rfl
      refine .ofWrite h hdb hws (fun T hT => ?_) rfl (hr.finalise hleft hactive hcleared ?_ trivial
        nofun trivial)
      · simp at hT
      · exact fun w hw => (List.mem_append.mp hw).elim (hr.writes w) (hws w)
    · cases hs
      exact runStep_stop h r
  case tenant =>
    simp only [advance, hphase] at hs
    split_ifs at hs with hlocked hcheck
    · obtain ⟨s₁, hs₁, rfl⟩ := Option.map_eq_some_iff.mp hs
      obtain ⟨db, hdb, rfl⟩ := Option.map_eq_some_iff.mp hs₁
      have hws : ∀ w ∈ [Write.deleteTenant (s.runs r).tenantId],
          w.Purges start (s.runs r).tenantId := List.forall_mem_singleton.mpr rfl
      have hnone : ∀ row ∈ s.db.committed.rows, row.tenantId ≠ (s.runs r).tenantId := by
        simp only [Bool.and_eq_true, List.all_eq_true, decide_eq_true_eq] at hcheck
        exact hcheck.2
      have hpending : ∀ v row, .insertRow row ∈ s.db.pending v →
          row.tenantId ≠ (s.runs r).tenantId := by
        intro v row hrow htenant
        by_cases hv : v = runTx r
        · rw [hv] at hrow
          exact (hr.writes _ hrow).not_insertRow _ rfl
        · exact hlocked ⟨v, ReadCommitted.mem_opened_of_mem_pending hrow, hv,
            List.any_eq_true.mpr ⟨_, hrow, by simpa using htenant⟩⟩
      refine .ofWrite h hdb hws (fun T hT => ?_) rfl (hr.finalise hleft hactive hcleared ?_ trivial
        (fun _ => List.mem_append_right _ List.mem_cons_self) trivial)
      · obtain rfl : T = (s.runs r).tenantId := by simpa using hT
        exact ⟨hnone, hpending⟩
      · exact fun w hw => (List.mem_append.mp hw).elim (hr.writes w) (hws w)
    · cases hs
      exact runStep_stop h r
  case committing => exact absurd hphase hopen
  all_goals
    rw [hphase] at hfinal
    exact hfinal.elim

theorem runStep_commit (h : Inv start s) (hs : advance catalog s r = some s')
    (hphase : (s.runs r).phase = .committing) :
    RunStep start s s' r ∧ Erased (s.runs r) s' := by
  have hr := h.runs r
  simp only [advance, hphase] at hs
  obtain ⟨db, hdb, rfl⟩ := Option.map_eq_some_iff.mp hs
  have hpending := ReadCommitted.commit_pending hdb
  have hcommitted : db.committed = (s.db.pending (runTx r)).foldl Tables.apply s.db.committed :=
    ReadCommitted.commit_committed hdb
  refine ⟨⟨h.setRun (h.tables.commit hdb) rfl (fun u hu => ?_) (fun _ => id) rfl ?_,
    fun U hU => ⟨?_, rfl⟩⟩, ?_⟩
  · rw [hpending, Function.update_of_ne hu]
  · rw [hpending, Function.update_self]
    exact hr.finish
  · rw [hcommitted, part_foldl hr.writes hU h.tables.users]
  · obtain ⟨hrows, htenant⟩ := h.tables.erased hdb (hr.committing hphase)
    refine ⟨hrows, htenant, fun f hf hT hunder => ?_, fun f hf _ hunder hnamed => ?_⟩
    · refine hr.cleared f.root ?_ f hf rfl hT hunder
      rw [hphase]
      trivial
    · have hmem := hr.named (by simp [hphase]) f hf hunder hnamed
      rw [hphase] at hmem
      exact absurd hmem List.not_mem_nil

theorem runStep_advance (h : Inv start s) (hs : advance catalog s r = some s') :
    RunStep start s s' r := by
  by_cases hfinal : (s.runs r).phase.Finalising
  · by_cases hphase : (s.runs r).phase = .committing
    · exact (runStep_commit h hs hphase).1
    · exact runStep_finalising h hs hfinal hphase
  · by_cases hagain : ∃ left, (s.runs r).phase = .directoriesAgain left
    · obtain ⟨left, hphase⟩ := hagain
      exact runStep_again h hs hphase
    · exact runStep_before h hs hfinal fun left hphase => hagain ⟨left, hphase⟩

theorem runStep_acquire (h : Inv start s) {tenantId : ℕ}
    (hs : step catalog s (.acquire r tenantId) = some s') : RunStep start s s' r := by
  simp only [step] at hs
  split_ifs at hs with hfree
  cases hs
  have hnil := (h.runs r).closed (by rw [hfree.1]; exact fun h => h)
  refine .ofRun h rfl rfl rfl rfl ?_
  rw [hnil]
  exact ⟨fun w hw => absurd hw List.not_mem_nil, fun _ => rfl, nofun, trivial,
    fun _ f _ _ hf => absurd hf List.not_mem_nil, fun root hroot => hroot.elim,
    fun root => Nat.zero_le _⟩

end runs

/-- A step of a transaction that is not a run's. -/
theorem Inv.writer {db : ReadCommitted Tables Write} {w : ℕ} (h : Inv start s)
    (htables : TablesOk start db)
    (hpending : ∀ u, u ≠ writerTx w → db.pending u = s.db.pending u)
    (hwriter : ∀ T, .deleteTenant T ∉ db.pending (writerTx w)) : Inv start { s with db } := by
  refine ⟨htables, fun r => ?_, fun w' T => ?_⟩
  · dsimp only
    rw [hpending _ (runTx_ne_writerTx r w)]
    exact h.runs r
  · by_cases hw : writerTx w' = writerTx w
    · dsimp only
      rw [hw]
      exact hwriter T
    · dsimp only
      rw [hpending _ hw]
      exact h.writers w' T

theorem WriterStatement.write_ne (statement : WriterStatement) (T : ℕ) :
    statement.write ≠ .deleteTenant T := by
  rcases statement with _ | _ | _ | _ | _ | _ <;> exact nofun

theorem WriterStatement.row_of_write {statement : WriterStatement} {row : Row}
    (h : statement.write = .insertRow row) : statement = .insertRow row := by
  rcases statement with row' | _ | _ | _ | _ | _
  case insertRow => exact congrArg WriterStatement.insertRow (Write.insertRow.inj h)
  all_goals exact absurd h nofun

theorem inv_statement {w : ℕ} {statement : WriterStatement} (h : Inv start s)
    (hs : step catalog s (.statement w statement) = some s') : Inv start s' := by
  simp only [step] at hs
  split_ifs at hs with hallowed
  obtain ⟨db, hdb, rfl⟩ := Option.map_eq_some_iff.mp hs
  refine h.writer (w := w) (h.tables.write hdb (fun row hrow => ?_) fun T hT => ?_)
    (fun u hu => ?_) fun T hT => ?_
  · rw [List.mem_singleton] at hrow
    obtain rfl := WriterStatement.row_of_write hrow.symm
    refine ⟨hallowed.1, by simp [WriterStatement.write], fun v hv => ?_⟩
    by_cases hvw : v = writerTx w
    · rw [hvw] at hv
      exact h.writers w _ hv
    · exact hallowed.2 ⟨v, ReadCommitted.mem_opened_of_mem_pending hv, hvw,
        List.any_eq_true.mpr ⟨_, hv, by simp⟩⟩
  · exact absurd (List.mem_singleton.mp hT).symm (statement.write_ne T)
  · rw [ReadCommitted.write_pending hdb, Function.update_of_ne hu]
  · rw [ReadCommitted.write_pending hdb, Function.update_self] at hT
    rcases List.mem_append.mp hT with hT | hT
    · exact h.writers w T hT
    · exact absurd (List.mem_singleton.mp hT).symm (statement.write_ne T)

theorem inv_step {a : Act} (h : Inv start s) (hs : step catalog s a = some s') :
    Inv start s' := by
  rcases a with w | ⟨w, statement⟩ | w | w | ⟨root, tenantId, name⟩ | ⟨root, key⟩ |
    ⟨r, tenantId⟩ | r | r
  case begin =>
    obtain ⟨db, hdb, rfl⟩ := Option.map_eq_some_iff.mp hs
    have hpending := ReadCommitted.begin_pending hdb
    exact h.writer (w := w) (h.tables.begin hdb) (fun u _ => by rw [hpending])
      fun T => hpending ▸ h.writers w T
  case statement => exact inv_statement h hs
  case commit =>
    obtain ⟨db, hdb, rfl⟩ := Option.map_eq_some_iff.mp hs
    have hpending := ReadCommitted.commit_pending hdb
    refine h.writer (w := w) (h.tables.commit hdb) (fun u hu => ?_) fun T => ?_
    · rw [hpending, Function.update_of_ne hu]
    · rw [hpending, Function.update_self]
      exact List.not_mem_nil
  case rollback =>
    obtain ⟨db, hdb, rfl⟩ := Option.map_eq_some_iff.mp hs
    have hpending := ReadCommitted.rollback_pending hdb
    refine h.writer (w := w) (h.tables.discard (ReadCommitted.rollback_committed hdb) hpending)
      (fun u hu => ?_) fun T => ?_
    · rw [hpending, Function.update_of_ne hu]
    · rw [hpending, Function.update_self]
      exact List.not_mem_nil
  case store =>
    cases hs
    refine ⟨h.tables, fun r => (h.runs r).withFiles (Nat.le_succ _) fun f hf => ?_, h.writers⟩
    rcases List.mem_append.mp hf with hold | hnew
    · exact .inl hold
    · rw [List.mem_singleton.mp hnew]
      exact .inr ⟨rfl, rfl⟩
  case discard =>
    cases hs
    exact ⟨h.tables, fun r => (h.runs r).withFiles le_rfl fun f hf =>
      .inl (List.mem_of_mem_filter hf), h.writers⟩
  case acquire => exact (runStep_acquire h hs).inv
  case advance => exact (runStep_advance h hs).inv
  case stop =>
    cases hs
    exact (runStep_stop h r).inv

theorem inv_of_reach (h : Reach (step catalog) (fun _ _ => True) start.sys s) : Inv start s :=
  Reach.invariant (inv_start start) (fun _ _ _ hi _ hs => inv_step hi hs) h

/-- A run that finalises a tenant leaves no row of it, and of its files only those that the second
removal of the directories came too early for or that no row has named; no run ever changes what is
another tenant's. -/
theorem purge_erases (h : Reach (step catalog) (fun _ _ => True) start.sys s) {a : Act}
    (hs : step catalog s a = some s') {r : ℕ} (ha : a.run? = some r) :
    ((s.runs r).phase = .committing → a = .advance r → Erased (s.runs r) s') ∧
      ∀ U, U ≠ (s.runs r).tenantId → Spared U s s' := by
  have hi := inv_of_reach h
  rcases a with w | ⟨w, statement⟩ | w | w | ⟨root, tenantId, name⟩ | ⟨root, key⟩ |
    ⟨r', tenantId⟩ | r' | r'
  case acquire =>
    cases ha
    exact ⟨fun _ => nofun, (runStep_acquire hi hs).spared⟩
  case advance =>
    cases ha
    exact ⟨fun hphase _ => (runStep_commit hi hs hphase).2, (runStep_advance hi hs).spared⟩
  case stop =>
    cases ha
    cases hs
    exact ⟨fun _ => nofun, (runStep_stop hi r).spared⟩
  all_goals exact absurd ha nofun

def deletedTenant : Start where
  tables := ⟨[⟨0, .deleting⟩, ⟨1, .active⟩], [⟨"databases", 0, 0, none, none, nofun, nofun⟩,
    ⟨"databases", 1, 1, none, none, nofun, nofun⟩], [⟨0, 0, "a"⟩, ⟨1, 1, "b"⟩],
    [.ofUser "sessions" 0, .ofUser "sessions" 1], [⟨0, 0, false⟩, ⟨1, 1, false⟩], []⟩
  files := [⟨.files, ⟨0, true, 0⟩, 0⟩, ⟨.files, ⟨0, false, 0⟩, 1⟩, ⟨.files, ⟨1, true, 0⟩, 2⟩]
  stored := 3
  tenant_fk := by decide
  users_pkey := by decide
  users_email_key := by decide

def twoTables : Catalog where
  tables := ["databases", "items"]
  partitioned := ["items"]
  foreignKeys := [⟨"items", "databases"⟩]

/-- A writer of the tenant stores bytes after the second removal of the directories; the run is
about to commit. -/
def storedLate : List Act :=
  Act.acquire 0 0 :: List.replicate 24 (Act.advance 0) ++ [Act.store .files 0 1] ++
    List.replicate 9 (Act.advance 0)

theorem storedLate_commits : ∃ s s',
    runActs (step twoTables) deletedTenant.sys storedLate = some s ∧
    (s.runs 0).tenantId = 0 ∧ (s.runs 0).phase = .committing ∧
    step twoTables s (.advance 0) = some s' ∧ s'.db.committed.tenants = [⟨1, .active⟩] ∧
    s'.files.map (·.key) = [⟨0, false, 0⟩, ⟨1, true, 0⟩, ⟨0, true, 1⟩] := by
  obtain ⟨s', hs'⟩ := Option.isSome_iff_exists.mp (show
    (runActs (step twoTables) deletedTenant.sys (storedLate ++ [.advance 0])).isSome = true by
      decide +kernel)
  obtain ⟨s, hs, hstep⟩ := Option.bind_eq_some_iff.mp (runActs_append.symm.trans hs')
  exact ⟨s, s', hs, eq_of_map_eq (f := fun s => (s.runs 0).tenantId) hs (by decide +kernel),
    eq_of_map_eq (f := fun s => (s.runs 0).phase) hs (by decide +kernel),
    by simpa [runActs, runChecked] using hstep,
    eq_of_map_eq (f := fun s => s.db.committed.tenants) hs' (by decide +kernel),
    eq_of_map_eq (f := fun s => s.files.map (·.key)) hs' (by decide +kernel)⟩

theorem storedLate_erased : ∃ s s',
    Reach (step twoTables) (fun _ _ => True) deletedTenant.sys s ∧
    step twoTables s (.advance 0) = some s' ∧ s'.db.committed.tenants = [⟨1, .active⟩] ∧
    Erased (s.runs 0) s' ∧ Spared 1 s s' := by
  obtain ⟨s, s', hs, htenant, hphase, hstep, htenants, -⟩ := storedLate_commits
  obtain ⟨herased, hspared⟩ := purge_erases (.of_runActs hs) hstep (r := 0) rfl
  exact ⟨s, s', .of_runActs hs, hstep, htenants, herased hphase rfl,
    hspared 1 (by rw [htenant]; decide)⟩

theorem storedLate_remains : ∃ s s',
    Reach (step twoTables) (fun _ _ => True) deletedTenant.sys s ∧
    (s.runs 0).phase = .committing ∧ step twoTables s (.advance 0) = some s' ∧
    (s.runs 0).tenantId = 0 ∧ ¬ ErasedFully 0 s' ∧
    ∀ key ∈ [(⟨0, true, 1⟩ : StorageKey), ⟨0, false, 0⟩], ∃ f ∈ s'.files, f.key = key := by
  obtain ⟨s, s', hs, htenant, hphase, hstep, -, hfiles⟩ := storedLate_commits
  have hleft : ∀ key ∈ [(⟨0, true, 1⟩ : StorageKey), ⟨0, false, 0⟩],
      ∃ f ∈ s'.files, f.key = key := by
    intro key hkey
    refine List.mem_map.mp ?_
    rw [hfiles]
    revert key
    decide
  refine ⟨s, s', .of_runActs hs, hphase, hstep, htenant, fun hfully => ?_, hleft⟩
  obtain ⟨f, hf, hkey⟩ := hleft _ List.mem_cons_self
  exact hfully.files f hf (by rw [hkey])

end TenantPurge

end Semprec
