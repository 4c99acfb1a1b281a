import Semprec.Blobs

/-!
# No live file points at a missing blob

The invariant of the uploads, purges and edits (`Inv`): every committed item has its blob, an
upload that may still put an item on a blob of its content has that blob, and nobody has deleted
a blob of that content meanwhile.  The last part is what a purge breaks when it deletes the blob
an upload in flight has just looked up.
-/

namespace Semprec

namespace Blobs

section tables

variable {tables : Tables} {b row : BlobRow} {item : FileItem}

def FileItem.Same (item₀ item : FileItem) : Prop :=
  item₀.id = item.id ∧ item₀.databaseId = item.databaseId ∧ item₀.blobId = item.blobId

theorem mem_items_apply {w : Write} (h : item ∈ (tables.apply w).items) :
    (w ≠ .deleteItem item.id ∧ ∃ item₀ ∈ tables.items, item₀.Same item) ∨
      w = .insertItem item := by
  cases w with
  | insertItem row =>
    rcases List.mem_append.mp h with h | h
    · exact .inl ⟨nofun, item, h, rfl, rfl, rfl⟩
    · rw [List.mem_singleton] at h
      exact .inr (h ▸ rfl)
  | deleteItem itemId =>
    obtain ⟨h, hne⟩ := List.mem_filter.mp h
    refine .inl ⟨fun heq => ?_, item, h, rfl, rfl, rfl⟩
    cases heq
    simp at hne
  | setDeleted itemId deleted =>
    obtain ⟨item₀, h₀, rfl⟩ := List.mem_map.mp h
    refine .inl ⟨nofun, item₀, h₀, ?_⟩
    unfold FileItem.setDeleted
    split_ifs <;> exact ⟨rfl, rfl, rfl⟩
  | insertBlob row | deleteBlob row | insertDatabase databaseId => exact .inl ⟨nofun, item, h, rfl, rfl, rfl⟩

theorem mem_items_foldl (ws : List Write) :
    ∀ {tables : Tables}, item ∈ (ws.foldl Tables.apply tables).items →
      (Write.deleteItem item.id ∉ ws ∧ ∃ item₀ ∈ tables.items, item₀.Same item) ∨
        ∃ row, Write.insertItem row ∈ ws ∧ row.Same item := by
  induction ws with
  | nil => exact fun h => .inl ⟨List.not_mem_nil, item, h, rfl, rfl, rfl⟩
  | cons w ws ih =>
    intro tables h
    rcases @ih (tables.apply w) h with ⟨hws, item₁, h₁, hid, hdb, hblob⟩ | ⟨row, hrow, hs⟩
    · rcases mem_items_apply h₁ with ⟨hw, item₀, h₀, hid₀, hdb₀, hblob₀⟩ | rfl
      · refine .inl ⟨fun hmem => ?_, item₀, h₀, hid₀.trans hid, hdb₀.trans hdb,
          hblob₀.trans hblob⟩
        rcases List.mem_cons.mp hmem with heq | hmem
        · exact hw (hid ▸ heq.symm)
        · exact hws hmem
      · exact .inr ⟨item₁, List.mem_cons_self, hid, hdb, hblob⟩
    · exact .inr ⟨row, List.mem_cons_of_mem _ hrow, hs⟩

theorem mem_items_foldl_of_mem (ws : List Write) :
    ∀ {tables : Tables} {item : FileItem}, item ∈ tables.items →
      Write.deleteItem item.id ∉ ws → ∃ item' ∈ (ws.foldl Tables.apply tables).items,
        item.Same item' := by
  induction ws with
  | nil => exact fun {_ item} h _ => ⟨item, h, rfl, rfl, rfl⟩
  | cons w ws ih =>
    intro tables item h hws
    rw [List.mem_cons, not_or] at hws
    have hstep : ∃ item₁ ∈ (tables.apply w).items, item.Same item₁ := by
      cases w with
      | insertItem row => exact ⟨item, List.mem_append_left _ h, rfl, rfl, rfl⟩
      | deleteItem itemId =>
        refine ⟨item, List.mem_filter.mpr ⟨h, ?_⟩, rfl, rfl, rfl⟩
        simpa using hws.1
      | setDeleted itemId deleted =>
        refine ⟨_, List.mem_map_of_mem h, ?_⟩
        unfold FileItem.setDeleted
        split_ifs <;> exact ⟨rfl, rfl, rfl⟩
      | _ => exact ⟨item, h, rfl, rfl, rfl⟩
    obtain ⟨item₁, h₁, hid, hdb, hblob⟩ := hstep
    obtain ⟨item', h', hid', hdb', hblob'⟩ := ih h₁ (hid ▸ hws.2)
    exact ⟨item', h', hid.trans hid', hdb.trans hdb', hblob.trans hblob'⟩

def Write.database? : Write → Option ℕ
  | .insertDatabase databaseId => some databaseId
  | _ => none

theorem databases_foldl (ws : List Write) :
    ∀ tables : Tables, (ws.foldl Tables.apply tables).databases =
      tables.databases ++ ws.filterMap Write.database? := by
  induction ws with
  | nil => simp
  | cons w ws ih =>
    intro tables
    rw [List.foldl_cons, ih, List.filterMap_cons]
    cases w <;> simp [Tables.apply, Write.database?]

def Write.Spares (blobId : ℕ) (w : Write) : Prop := ∀ row, w = .deleteBlob row → row.id ≠ blobId

theorem mem_blobs_apply_of_mem {w : Write} (h : b ∈ tables.blobs) (hw : w.Spares b.id) :
    b ∈ (tables.apply w).blobs := by
  cases w with
  | insertBlob row => exact List.mem_append_left _ h
  | deleteBlob row => exact List.mem_filter.mpr ⟨h, by simpa using (hw row rfl).symm⟩
  | _ => exact h

theorem mem_blobs_foldl_of_mem (ws : List Write) :
    ∀ {tables : Tables}, b ∈ tables.blobs → (∀ w ∈ ws, w.Spares b.id) →
      b ∈ (ws.foldl Tables.apply tables).blobs := by
  induction ws with
  | nil => exact fun h _ => h
  | cons w ws ih =>
    intro tables h hws
    rw [List.forall_mem_cons] at hws
    exact @ih (tables.apply w) (mem_blobs_apply_of_mem h hws.1) hws.2

theorem mem_blobs_foldl_of_insert (ws : List Write) :
    ∀ {tables : Tables}, Write.insertBlob b ∈ ws → (∀ w ∈ ws, w.Spares b.id) →
      b ∈ (ws.foldl Tables.apply tables).blobs := by
  induction ws with
  | nil => exact fun h _ => absurd h List.not_mem_nil
  | cons w ws ih =>
    intro tables h hws
    rw [List.forall_mem_cons] at hws
    rcases List.mem_cons.mp h with rfl | h
    · exact mem_blobs_foldl_of_mem ws
        (List.mem_append_right _ (List.mem_singleton_self b)) hws.2
    · exact @ih (tables.apply w) h hws.2

theorem mem_blobs_of_mem_apply {w : Write} (h : b ∈ (tables.apply w).blobs) :
    (b ∈ tables.blobs ∧ w.Spares b.id) ∨ w = .insertBlob b := by
  cases w with
  | insertBlob row =>
    rcases List.mem_append.mp h with h | h
    · exact .inl ⟨h, nofun⟩
    · rw [List.mem_singleton] at h
      exact .inr (h ▸ rfl)
  | deleteBlob row =>
    obtain ⟨h, hne⟩ := List.mem_filter.mp h
    refine .inl ⟨h, fun row' heq hid => ?_⟩
    cases heq
    simp [hid] at hne
  | _ => exact .inl ⟨h, nofun⟩

theorem mem_blobs_of_mem_foldl (ws : List Write) :
    ∀ {tables : Tables}, b ∈ (ws.foldl Tables.apply tables).blobs →
      (b ∈ tables.blobs ∧ ∀ w ∈ ws, w.Spares b.id) ∨ Write.insertBlob b ∈ ws := by
  induction ws with
  | nil => exact fun h => .inl ⟨h, fun _ hw => absurd hw List.not_mem_nil⟩
  | cons w ws ih =>
    intro tables h
    rcases @ih (tables.apply w) h with ⟨h, hws⟩ | h
    · rcases mem_blobs_of_mem_apply h with ⟨h, hw⟩ | rfl
      · exact .inl ⟨h, List.forall_mem_cons.mpr ⟨hw, hws⟩⟩
      · exact .inr List.mem_cons_self
    · exact .inr (List.mem_cons_of_mem _ h)

theorem getBlobByContentHash_spec {contentHash : String}
    (h : getBlobByContentHash tables contentHash = some b) :
    b ∈ tables.blobs ∧ b.contentHash = contentHash :=
  ⟨List.mem_of_find?_eq_some h, by simpa using List.find?_some h⟩

theorem deleteBlobIfUnreferenced_spec {blobId : ℕ} {databaseIds : List ℕ}
    (h : deleteBlobIfUnreferenced tables blobId databaseIds = some b) :
    b ∈ tables.blobs ∧ b.id = blobId ∧ (∀ d ∈ tables.databases, d ∈ databaseIds) ∧
      ∀ i ∈ tables.items, i.databaseId ∈ databaseIds → i.blobId ≠ blobId := by
  unfold deleteBlobIfUnreferenced at h
  split_ifs at h with hg
  exact ⟨List.mem_of_find?_eq_some h, by simpa using List.find?_some h, hg.1, hg.2.1⟩

end tables

def UploadPhase.blob? : UploadPhase → Option BlobRow
  | .resolved blob | .creating blob | .returned blob _ => some blob
  | _ => none

def Sys.Created (s : Sys) (b : BlobRow) : Prop :=
  ∃ d, s.procs b.id = some (.upload b.contentHash d (.committed b))

def Sys.NoDelete (s : Sys) (contentHash : String) : Prop :=
  ∀ p b, .deleteBlob b ∈ s.db.pending p → b.contentHash ≠ contentHash

def ProcOk (s : Sys) (t : ℕ) : Proc → Prop
  | .upload contentHash _ phase =>
    (phase.isOpen = true → t ∈ s.stored ∧ t ∈ s.db.opened) ∧
      (phase.reuses = true → s.NoDelete contentHash ∧
        ∀ b, phase.blob? = some b → b.contentHash = contentHash ∧
          (b ∈ s.db.committed.blobs ∨ .insertBlob b ∈ s.db.pending t))
  | .purge _ keys false => ∀ key ∈ keys, ∃ b, .deleteBlob b ∈ s.db.pending t ∧ b.id = key
  | .purge _ keys true =>
    ∀ key ∈ keys, ∃ b, b.id = key ∧ s.Created b ∧ ∀ b' ∈ s.db.committed.blobs, b'.id ≠ key
  | .edit => True

def WriteOk (s : Sys) (t : ℕ) : Write → Prop
  | .insertBlob b => b.id = t ∧ b.storageKey = t ∧ ∃ d phase,
      s.procs t = some (.upload b.contentHash d phase) ∧ phase.blob? = some b
  | .insertItem row => row.databaseId ∈ (s.view t).databases ∧ ∃ contentHash d b,
      s.procs t = some (.upload contentHash d (.returned b true)) ∧ row.blobId = b.id
  | .deleteBlob b => b.storageKey = b.id ∧ s.Created b ∧
      (∃ checking keys, s.procs t = some (.purge checking keys false)) ∧
      ∀ item ∈ s.db.committed.items, item.blobId = b.id → .deleteItem item.id ∈ s.db.pending t
  | _ => True

structure Inv (s : Sys) : Prop where
  created : ∀ b ∈ s.db.committed.blobs, b.storageKey = b.id ∧ b.id ∈ s.stored ∧ s.Created b
  items : ∀ item ∈ s.db.committed.items, item.databaseId ∈ s.db.committed.databases ∧
    ∃ b ∈ s.db.committed.blobs, b.id = item.blobId
  procs : ∀ t p, s.procs t = some p → ProcOk s t p
  writes : ∀ t, ∀ w ∈ s.db.pending t, WriteOk s t w

theorem inv_init (databases mailAttachments : List ℕ) : Inv (.init databases mailAttachments) :=
  ⟨fun _ h => absurd h List.not_mem_nil, fun _ h => absurd h List.not_mem_nil, nofun,
    fun _ _ h => absurd h List.not_mem_nil⟩

theorem Inv.noDangling {s : Sys} (hi : Inv s) : s.NoDangling := by
  intro item hitem _
  obtain ⟨-, b, hb, hid⟩ := hi.items item hitem
  obtain ⟨hkey, hst, -⟩ := hi.created b hb
  exact ⟨b, hb, hid, hkey ▸ hst⟩

section statement

variable {s s' : Sys} {t : ℕ} {ws : List Write} {q : Proc}

structure Stmt (s s' : Sys) (t : ℕ) (ws : List Write) (q : Proc) : Prop where
  committed : s'.db.committed = s.db.committed
  pending : s'.db.pending = Function.update s.db.pending t (s.db.pending t ++ ws)
  procs : s'.procs = Function.update s.procs t (some q)
  stored : s.stored ⊆ s'.stored
  opened : s.db.opened ⊆ s'.db.opened

theorem Stmt.of_setProc : Stmt s (s.setProc t q) t [] q :=
  ⟨rfl, by rw [List.append_nil, Function.update_eq_self]; rfl, rfl, fun _ h => h, fun _ h => h⟩

theorem Stmt.of_write (h : s.write t ws q = some s') : Stmt s s' t ws q := by
  obtain ⟨db, hdb, rfl⟩ := Option.map_eq_some_iff.mp h
  exact ⟨ReadCommitted.write_committed hdb, ReadCommitted.write_pending hdb, rfl, fun _ h => h,
    (ReadCommitted.write_opened hdb).superset⟩

theorem Stmt.of_begin {s₀ : Sys} (hs : s.db = s₀.db) (hp : s.procs = s₀.procs)
    (hst : s₀.stored ⊆ s.stored) (h : s.begin t q = some s') :
    Stmt s₀ s' t [] q ∧ s₀.procs t = none ∧ t ∈ s'.db.opened ∧ s'.stored = s.stored := by
  unfold Sys.begin at h
  split_ifs at h with hn
  obtain ⟨db, hdb, rfl⟩ := Option.map_eq_some_iff.mp h
  have hop := ReadCommitted.begin_opened hdb
  refine ⟨⟨?_, ?_, ?_, hst, ?_⟩, ?_, ?_, rfl⟩
  · exact (ReadCommitted.begin_committed hdb).trans (by rw [hs])
  · rw [List.append_nil, Function.update_eq_self]
    exact (ReadCommitted.begin_pending hdb).trans (by rw [hs])
  · simp only [Sys.setProc, hp]
  · rw [← hs]
    exact fun u hu => hop ▸ Finset.mem_insert_of_mem hu
  · simpa [hp] using hn
  · exact hop ▸ Finset.mem_insert_self t _

theorem Stmt.procs_of_ne (h : Stmt s s' t ws q) {u : ℕ} (hu : u ≠ t) :
    s'.procs u = s.procs u := by
  rw [h.procs, Function.update_of_ne hu]

theorem Stmt.procs_self (h : Stmt s s' t ws q) : s'.procs t = some q := by
  rw [h.procs, Function.update_self]

theorem Stmt.pending_of_ne (h : Stmt s s' t ws q) {u : ℕ} (hu : u ≠ t) :
    s'.db.pending u = s.db.pending u := by
  rw [h.pending, Function.update_of_ne hu]

theorem Stmt.pending_self (h : Stmt s s' t ws q) :
    s'.db.pending t = s.db.pending t ++ ws := by
  rw [h.pending, Function.update_self]

theorem Stmt.mem_pending (h : Stmt s s' t ws q) {u : ℕ} {w : Write}
    (hw : w ∈ s'.db.pending u) : w ∈ s.db.pending u ∨ u = t ∧ w ∈ ws := by
  by_cases hu : u = t
  · subst hu
    rw [h.pending_self, List.mem_append] at hw
    exact hw.imp_right fun h => ⟨rfl, h⟩
  · rw [h.pending_of_ne hu] at hw
    exact .inl hw

def Sys.Uncommitted (s : Sys) (t : ℕ) : Prop :=
  ∀ contentHash d b, s.procs t ≠ some (.upload contentHash d (.committed b))

theorem Sys.Created.of_procs {b : BlobRow} (hb : s.Created b) (ht : s.Uncommitted t)
    (hp : ∀ u, u ≠ t → s'.procs u = s.procs u) : s'.Created b := by
  obtain ⟨d, hd⟩ := hb
  refine ⟨d, ?_⟩
  rw [hp, hd]
  rintro rfl
  exact ht _ _ _ hd

theorem Stmt.noDelete (h : Stmt s s' t ws q) {contentHash : String}
    (hn : s.NoDelete contentHash)
    (hws : ∀ b, .deleteBlob b ∈ ws → b.contentHash ≠ contentHash) :
    s'.NoDelete contentHash := by
  intro p b hb
  rcases h.mem_pending hb with hb | ⟨-, hb⟩
  · exact hn p b hb
  · exact hws b hb

/-- What is left to show of a statement: its process and its transaction's writes are in order,
and nobody reuses the content of a blob it deletes. -/
theorem Inv.stmt (hi : Inv s) (h : Stmt s s' t ws q) (ht : s.Uncommitted t)
    (hp : ProcOk s' t q) (hws : ∀ w ∈ s'.db.pending t, WriteOk s' t w)
    (hdel : ∀ b, .deleteBlob b ∈ ws → ∀ u contentHash d phase,
      s.procs u = some (.upload contentHash d phase) → phase.reuses = true →
      b.contentHash ≠ contentHash) : Inv s' := by
  have hcreated : ∀ {b}, s.Created b → s'.Created b := fun hb =>
    hb.of_procs ht fun u hu => h.procs_of_ne hu
  refine ⟨fun b hb => ?_, fun item hitem => ?_, fun u p hu => ?_, fun u w hw => ?_⟩
  · rw [h.committed] at hb
    obtain ⟨hkey, hst, hc⟩ := hi.created b hb
    exact ⟨hkey, h.stored hst, hcreated hc⟩
  · rw [h.committed] at hitem ⊢
    exact hi.items item hitem
  · by_cases hut : u = t
    · subst hut
      rw [h.procs_self] at hu
      cases hu
      exact hp
    · rw [h.procs_of_ne hut] at hu
      have hok := hi.procs u p hu
      rcases p with ⟨contentHash, d, phase⟩ | ⟨checking, keys, _ | _⟩ | _
      · refine ⟨fun ho => ⟨h.stored (hok.1 ho).1, h.opened (hok.1 ho).2⟩, fun hr => ?_⟩
        obtain ⟨hn, hb⟩ := hok.2 hr
        refine ⟨h.noDelete hn fun b hb => hdel b hb u contentHash d phase hu hr, ?_⟩
        rwa [h.committed, h.pending_of_ne hut]
      · simp only [ProcOk, h.pending_of_ne hut]
        exact hok
      · intro key hkey
        obtain ⟨b, hid, hc, hb⟩ := hok key hkey
        exact ⟨b, hid, hcreated hc, by rwa [h.committed]⟩
      · trivial
  · by_cases hut : u = t
    · subst hut
      exact hws w hw
    · rw [h.pending_of_ne hut] at hw
      have hok := hi.writes u w hw
      cases w with
      | insertBlob b =>
        simp only [WriteOk, h.procs_of_ne hut]
        exact hok
      | insertItem row =>
        simp only [WriteOk, h.procs_of_ne hut, Sys.view, ReadCommitted.view, h.committed,
          h.pending_of_ne hut]
        exact hok
      | deleteBlob b =>
        obtain ⟨hkey, hc, hproc, hitems⟩ := hok
        refine ⟨hkey, hcreated hc, ?_, ?_⟩
        · rwa [h.procs_of_ne hut]
        · rwa [h.committed, h.pending_of_ne hut]
      | _ => trivial

/-- The writes a transaction already has stay in order when its process moves on. -/
theorem Inv.writes_stmt (hi : Inv s) (h : Stmt s s' t ws q)
    (hold : ∀ w ∈ s.db.pending t, WriteOk s t w → WriteOk s' t w)
    (hws : ∀ w ∈ ws, WriteOk s' t w) : ∀ w ∈ s'.db.pending t, WriteOk s' t w := by
  intro w hw
  rw [h.pending_self, List.mem_append] at hw
  rcases hw with hw | hw
  · exact hold w hw (hi.writes t w hw)
  · exact hws w hw

theorem WriteOk.upload {contentHash : String} {d : ℕ} {phase phase' : UploadPhase} {w : Write}
    (h : Stmt s s' t ws (.upload contentHash d phase'))
    (hp : s.procs t = some (.upload contentHash d phase))
    (hblob : ∀ b, phase.blob? = some b → phase'.blob? = some b)
    (hret : ∀ b, phase ≠ .returned b true) (hw : WriteOk s t w) : WriteOk s' t w := by
  cases w with
  | insertBlob b =>
    obtain ⟨hid, hkey, d', phase₀, hp', hb⟩ := hw
    rw [hp] at hp'
    cases hp'
    exact ⟨hid, hkey, d, phase', h.procs_self, hblob b hb⟩
  | insertItem row =>
    obtain ⟨-, h', d', b, hp', -⟩ := hw
    rw [hp] at hp'
    cases hp'
    exact absurd rfl (hret b)
  | deleteBlob b =>
    obtain ⟨-, -, ⟨checking, keys, hp'⟩, -⟩ := hw
    rw [hp] at hp'
    cases hp'
  | _ => trivial

theorem WriteOk.none {w : Write} (hp : s.procs t = .none) (hw : WriteOk s t w) :
    WriteOk s' t w := by
  cases w with
  | insertBlob b =>
    obtain ⟨-, -, d, phase, hp', -⟩ := hw
    rw [hp] at hp'
    cases hp'
  | insertItem row =>
    obtain ⟨-, h', d, b, hp', -⟩ := hw
    rw [hp] at hp'
    cases hp'
  | deleteBlob b =>
    obtain ⟨-, -, ⟨checking, keys, hp'⟩, -⟩ := hw
    rw [hp] at hp'
    cases hp'
  | _ => trivial

theorem WriteOk.edit {w : Write} (hp : s.procs t = some .edit) (hw : WriteOk s t w) :
    WriteOk s' t w := by
  cases w with
  | insertBlob b =>
    obtain ⟨-, -, d, phase, hp', -⟩ := hw
    rw [hp] at hp'
    cases hp'
  | insertItem row =>
    obtain ⟨-, h', d, b, hp', -⟩ := hw
    rw [hp] at hp'
    cases hp'
  | deleteBlob b =>
    obtain ⟨-, -, ⟨checking, keys, hp'⟩, -⟩ := hw
    rw [hp] at hp'
    cases hp'
  | _ => trivial

theorem WriteOk.purge {checking checking' : Option (ℕ × Option (List ℕ))} {keys keys' : List ℕ}
    {w : Write} (h : Stmt s s' t ws (.purge checking' keys' false))
    (hp : s.procs t = some (.purge checking keys false)) (hw : WriteOk s t w) :
    WriteOk s' t w := by
  have ht : s.Uncommitted t := fun _ _ _ h => by
    rw [hp] at h
    cases h
  cases w with
  | insertBlob b =>
    obtain ⟨-, -, d, phase, hp', -⟩ := hw
    rw [hp] at hp'
    cases hp'
  | insertItem row =>
    obtain ⟨-, h', d, b, hp', -⟩ := hw
    rw [hp] at hp'
    cases hp'
  | deleteBlob b =>
    obtain ⟨hkey, hc, -, hitems⟩ := hw
    refine ⟨hkey, hc.of_procs ht fun u hu => h.procs_of_ne hu, ⟨checking', keys', h.procs_self⟩,
      fun item hitem hid => ?_⟩
    rw [h.committed] at hitem
    rw [h.pending_self]
    exact List.mem_append_left _ (hitems item hitem hid)
  | _ => trivial

theorem Sys.Uncommitted.of_procs {p : Proc} (hp : s.procs t = some p)
    (hne : ∀ contentHash d b, p ≠ .upload contentHash d (.committed b)) : s.Uncommitted t := by
  intro contentHash d b h
  rw [hp] at h
  cases h
  exact hne _ _ _ rfl

end statement

section statements

variable {s s' : Sys} {t d : ℕ} {contentHash : String}

theorem Inv.begin {p : Proc} {s₀ : Sys} (hi : Inv s₀) (hs : s.db = s₀.db)
    (hp : s.procs = s₀.procs) (hst : s₀.stored ⊆ s.stored) (h : s.begin t p = some s')
    (hok : t ∈ s'.db.opened → s'.stored = s.stored → ProcOk s' t p) : Inv s' := by
  obtain ⟨hstmt, hnone, hop, hstored⟩ := Stmt.of_begin hs hp hst h
  refine hi.stmt hstmt (fun _ _ _ h => by rw [hnone] at h; cases h) (hok hop hstored)
    (hi.writes_stmt hstmt (fun w _ hw => hw.none hnone) (by simp)) (by simp)

theorem Inv.insertBlob (hi : Inv s) (h : step s (.insertBlob t) = some s') : Inv s' := by
  simp only [step] at h
  split at h
  · rename_i contentHash d hproc
    have hopen := (hi.procs t _ hproc).1 rfl
    have ht : s.Uncommitted t := .of_procs hproc nofun
    split_ifs at h with hlock
    have hnd : s.NoDelete contentHash := by
      intro p b hb heq
      have hpt : p ≠ t := by
        rintro rfl
        obtain ⟨-, -, ⟨checking, keys, hp⟩, -⟩ := hi.writes p _ hb
        rw [hproc] at hp
        cases hp
      exact hlock (.of_mem hb hpt (by simpa [Write.ofContent] using heq))
    split at h
    · cases h
      have hstmt := Stmt.of_setProc (s := s) (t := t) (q := .upload contentHash d .conflicted)
      exact hi.stmt hstmt ht ⟨fun _ => hopen, fun _ => ⟨hnd, nofun⟩⟩
        (hi.writes_stmt hstmt (fun w _ hw => hw.upload hstmt hproc nofun nofun) (by simp)) (by simp)
    · have hstmt := Stmt.of_write h
      have hself : Write.insertBlob ⟨t, t, contentHash⟩ ∈ s'.db.pending t := by
        rw [hstmt.pending_self]
        exact List.mem_append_right _ (List.mem_singleton_self _)
      refine hi.stmt hstmt ht ⟨fun _ => ⟨hstmt.stored hopen.1, hstmt.opened hopen.2⟩,
        fun _ => ⟨hstmt.noDelete hnd (by simp), ?_⟩⟩
        (hi.writes_stmt hstmt (fun w _ hw => hw.upload hstmt hproc nofun nofun) ?_) (by simp)
      · rintro b hb
        cases hb
        exact ⟨rfl, .inr hself⟩
      · intro w hw
        rw [List.mem_singleton] at hw
        subst hw
        exact ⟨rfl, rfl, d, _, hstmt.procs_self, rfl⟩
  · cases h

theorem Inv.getBlobByContentHash (hi : Inv s)
    (h : step s (.getBlobByContentHash t) = some s') : Inv s' := by
  simp only [step] at h
  split at h
  · rename_i contentHash d hproc
    obtain ⟨hopen, hreuse⟩ := hi.procs t _ hproc
    obtain ⟨b, hb, rfl⟩ := Option.map_eq_some_iff.mp h
    obtain ⟨hmem, hhash⟩ := getBlobByContentHash_spec hb
    have hstmt := Stmt.of_setProc (s := s) (t := t)
      (q := .upload contentHash d (.resolved b))
    refine hi.stmt hstmt (.of_procs hproc nofun)
      ⟨fun _ => hopen rfl, fun _ => ⟨(hreuse rfl).1, ?_⟩⟩
      (hi.writes_stmt hstmt (fun w _ hw => hw.upload hstmt hproc nofun nofun) (by simp)) (by simp)
    rintro b' hb'
    cases hb'
    exact ⟨hhash, (mem_blobs_of_mem_foldl _ hmem).imp_left And.left⟩
  · cases h

theorem Inv.findFileItemByBlobId (hi : Inv s)
    (h : step s (.findFileItemByBlobId t) = some s') : Inv s' := by
  simp only [step] at h
  split at h
  · rename_i contentHash d b hproc
    obtain ⟨hopen, hreuse⟩ := hi.procs t _ hproc
    split at h
    · cases h
      have hstmt := Stmt.of_setProc (s := s) (t := t)
        (q := .upload contentHash d (.returned b false))
      exact hi.stmt hstmt (.of_procs hproc nofun) ⟨fun _ => hopen rfl, nofun⟩
        (hi.writes_stmt hstmt (fun w _ hw => hw.upload hstmt hproc (fun _ h => h) nofun) (by simp))
        (by simp)
    · cases h
      have hstmt := Stmt.of_setProc (s := s) (t := t) (q := .upload contentHash d (.creating b))
      exact hi.stmt hstmt (.of_procs hproc nofun) ⟨fun _ => hopen rfl, fun _ => hreuse rfl⟩
        (hi.writes_stmt hstmt (fun w _ hw => hw.upload hstmt hproc (fun _ h => h) nofun) (by simp))
        (by simp)
  · cases h

theorem Inv.createItem (hi : Inv s) (h : step s (.createItem t) = some s') : Inv s' := by
  simp only [step] at h
  split at h
  · rename_i contentHash d b hproc
    obtain ⟨hopen, hreuse⟩ := hi.procs t _ hproc
    split_ifs at h with hd
    have hstmt := Stmt.of_write h
    refine hi.stmt hstmt (.of_procs hproc nofun)
      ⟨fun _ => ⟨hstmt.stored (hopen rfl).1, hstmt.opened (hopen rfl).2⟩, fun _ =>
        ⟨hstmt.noDelete (hreuse rfl).1 (by simp), ?_⟩⟩
      (hi.writes_stmt hstmt (fun w _ hw => hw.upload hstmt hproc (fun _ h => h) nofun) ?_) (by simp)
    · intro b' hb'
      obtain ⟨hhash, hmem⟩ := (hreuse rfl).2 b' hb'
      rw [hstmt.committed, hstmt.pending_self]
      exact ⟨hhash, hmem.imp_right fun h => List.mem_append_left _ h⟩
    · intro w hw
      rw [List.mem_singleton] at hw
      subst hw
      refine ⟨?_, contentHash, d, b, hstmt.procs_self, rfl⟩
      unfold Sys.view ReadCommitted.view at hd ⊢
      rw [hstmt.committed, hstmt.pending_self, List.foldl_append]
      exact hd
  · cases h

theorem Inv.hardDeleteItem {itemId : ℕ} (hi : Inv s)
    (h : step s (.hardDeleteItem t itemId) = some s') : Inv s' := by
  simp only [step] at h
  split at h
  · rename_i keys hproc
    split_ifs at h
    split at h
    · split_ifs at h
      · have hstmt := Stmt.of_write h
        refine hi.stmt hstmt (.of_procs hproc nofun) ?_
          (hi.writes_stmt hstmt (fun w _ hw => hw.purge hstmt hproc) (by simp [WriteOk])) (by simp)
        intro key hkey
        obtain ⟨b, hb, hid⟩ := hi.procs t _ hproc key hkey
        rw [hstmt.pending_self]
        exact ⟨b, List.mem_append_left _ hb, hid⟩
      · cases h
        exact hi
    · cases h
      exact hi
  · cases h

theorem Inv.visibleDatabaseIds (hi : Inv s) (h : step s (.visibleDatabaseIds t) = some s') :
    Inv s' := by
  simp only [step] at h
  split at h
  · rename_i blobId keys hproc
    cases h
    have hstmt := Stmt.of_setProc (s := s) (t := t)
      (q := .purge (some (blobId, some (s.view t).databases)) keys false)
    exact hi.stmt hstmt (.of_procs hproc nofun) (hi.procs t _ hproc)
      (hi.writes_stmt hstmt (fun w _ hw => hw.purge hstmt hproc) (by simp)) (by simp)
  · cases h

/-- The reference check of a purge sees every committed item it has not deleted itself. -/
theorem Inv.deleteBlob (hi : Inv s) (hok : NoReuseInFlight s (.deleteBlob t))
    (h : step s (.deleteBlob t) = some s') : Inv s' := by
  simp only [step] at h
  split at h
  · rename_i blobId databaseIds keys hproc
    have ht : s.Uncommitted t := .of_procs hproc nofun
    split_ifs at h
    split at h
    · rename_i b hb
      have hstmt := Stmt.of_write h
      obtain ⟨hmem, rfl, hdbs, hitems⟩ := deleteBlobIfUnreferenced_spec hb
      have hold : b ∈ s.db.committed.blobs := by
        rcases mem_blobs_of_mem_foldl _ hmem with ⟨hold, -⟩ | hins
        · exact hold
        · obtain ⟨-, -, d, phase, hp, -⟩ := hi.writes t _ hins
          rw [hproc] at hp
          cases hp
      obtain ⟨hkey, -, hc⟩ := hi.created b hold
      have hself : Write.deleteBlob b ∈ s'.db.pending t := by
        rw [hstmt.pending_self]
        exact List.mem_append_right _ (List.mem_singleton_self _)
      refine hi.stmt hstmt ht ?_
        (hi.writes_stmt hstmt (fun w _ hw => hw.purge hstmt hproc) ?_) ?_
      · intro key hk
        rcases List.mem_append.mp hk with hk | hk
        · obtain ⟨b', hb', hid⟩ := hi.procs t _ hproc key hk
          rw [hstmt.pending_self]
          exact ⟨b', List.mem_append_left _ hb', hid⟩
        · rw [List.mem_singleton] at hk
          exact ⟨b, hself, hk ▸ hkey.symm⟩
      · intro w hw
        rw [List.mem_singleton] at hw
        subst hw
        refine ⟨hkey, hc.of_procs ht fun u hu => hstmt.procs_of_ne hu,
          ⟨_, _, hstmt.procs_self⟩, fun item hitem hid => ?_⟩
        rw [hstmt.committed] at hitem
        rw [hstmt.pending_self]
        refine List.mem_append_left _ ?_
        by_contra hdel
        obtain ⟨item', hitem', -, hdb, hblob⟩ := mem_items_foldl_of_mem _ hitem hdel
        refine hitems item' hitem' (hdbs _ ?_) (hblob ▸ hid)
        have hd : item'.databaseId ∈ s.db.committed.databases := hdb ▸ (hi.items item hitem).1
        unfold Sys.view ReadCommitted.view
        rw [databases_foldl]
        exact List.mem_append_left _ hd
      · intro b' hb' u contentHash d phase hu hreuse heq
        rw [List.mem_singleton] at hb'
        cases hb'
        have hopen : phase.isOpen = true := by
          rcases phase with _ | _ | _ | _ | ⟨_, _ | _⟩ | _ | _ <;>
            first | rfl | simp [UploadPhase.reuses] at hreuse
        have hop := ((hi.procs u _ hu).1 hopen).2
        have hdeletes : s.deletes t = some b := by
          simp only [Sys.deletes, hproc, hb]
        have hr := hok b hdeletes u hop _ hu
        simp [Proc.reuses, heq, hreuse] at hr
    · cases h
      have hstmt := Stmt.of_setProc (s := s) (t := t) (q := .purge none keys false)
      exact hi.stmt hstmt ht (hi.procs t _ hproc)
        (hi.writes_stmt hstmt (fun w _ hw => hw.purge hstmt hproc) (by simp)) (by simp)
  · cases h

theorem Inv.edit {ws : List Write} (hi : Inv s) (hproc : s.procs t = some .edit)
    (h : s.write t ws .edit = some s')
    (hws : ∀ w ∈ ws, (∃ itemId deleted, w = .setDeleted itemId deleted) ∨
      ∃ databaseId, w = .insertDatabase databaseId) : Inv s' := by
  have hstmt := Stmt.of_write h
  refine hi.stmt hstmt (.of_procs hproc nofun) trivial
    (hi.writes_stmt hstmt (fun w _ hw => hw.edit hproc) fun w hw => ?_) fun b hb => ?_
  · rcases hws w hw with ⟨itemId, deleted, rfl⟩ | ⟨databaseId, rfl⟩ <;> trivial
  · rcases hws _ hb with ⟨itemId, deleted, h⟩ | ⟨databaseId, h⟩ <;> cases h

end statements

section close

variable {s s' : Sys} {t : ℕ} {q : Proc}

structure Close (s s' : Sys) (t : ℕ) (q : Proc) : Prop where
  pending : s'.db.pending = Function.update s.db.pending t []
  procs : s'.procs = Function.update s.procs t (some q)
  stored : s'.stored = s.stored
  opened : s'.db.opened = s.db.opened.erase t

theorem Close.procs_of_ne (h : Close s s' t q) {u : ℕ} (hu : u ≠ t) :
    s'.procs u = s.procs u := by
  rw [h.procs, Function.update_of_ne hu]

theorem Close.procs_self (h : Close s s' t q) : s'.procs t = some q := by
  rw [h.procs, Function.update_self]

theorem Close.pending_of_ne (h : Close s s' t q) {u : ℕ} (hu : u ≠ t) :
    s'.db.pending u = s.db.pending u := by
  rw [h.pending, Function.update_of_ne hu]

theorem Close.mem_pending (h : Close s s' t q) {u : ℕ} {w : Write}
    (hw : w ∈ s'.db.pending u) : u ≠ t ∧ w ∈ s.db.pending u :=
  ReadCommitted.mem_closed_pending h.pending hw

/-- What is left to show of the end of a transaction: which rows its commit leaves. -/
theorem Inv.close (hi : Inv s) (h : Close s s' t q) (ht : s.Uncommitted t)
    (hnew : ∀ b ∈ s'.db.committed.blobs, b ∈ s.db.committed.blobs ∨
      b.storageKey = b.id ∧ b.id = t ∧ t ∈ s.stored ∧ s'.Created b)
    (hkeep : ∀ b ∈ s.db.committed.blobs, s.NoDelete b.contentHash →
      b ∈ s'.db.committed.blobs)
    (hdb : s.db.committed.databases ⊆ s'.db.committed.databases)
    (hitems : ∀ item ∈ s'.db.committed.items, item.databaseId ∈ s'.db.committed.databases ∧
      ∃ b ∈ s'.db.committed.blobs, b.id = item.blobId)
    (hdel : ∀ p, p ≠ t → ∀ b, .deleteBlob b ∈ s.db.pending p → s.Created b →
      ∀ item ∈ s'.db.committed.items, item.blobId = b.id →
        ∃ item₀ ∈ s.db.committed.items, item₀.Same item)
    (hp : ProcOk s' t q) : Inv s' := by
  have hcreated : ∀ {b}, s.Created b → s'.Created b := fun hb =>
    hb.of_procs ht fun u hu => h.procs_of_ne hu
  refine ⟨fun b hb => ?_, hitems, fun u p hu => ?_, fun u w hw => ?_⟩
  · rw [h.stored]
    rcases hnew b hb with hb | ⟨hkey, hid, hst, hc⟩
    · obtain ⟨hkey, hst, hc⟩ := hi.created b hb
      exact ⟨hkey, hst, hcreated hc⟩
    · exact ⟨hkey, hid ▸ hst, hc⟩
  · by_cases hut : u = t
    · subst hut
      rw [h.procs_self] at hu
      cases hu
      exact hp
    · rw [h.procs_of_ne hut] at hu
      have hok := hi.procs u p hu
      rcases p with ⟨contentHash, d, phase⟩ | ⟨checking, keys, _ | _⟩ | _
      · refine ⟨fun ho => ?_, fun hr => ?_⟩
        · rw [h.stored, h.opened]
          exact ⟨(hok.1 ho).1, Finset.mem_erase.mpr ⟨hut, (hok.1 ho).2⟩⟩
        · obtain ⟨hn, hb⟩ := hok.2 hr
          refine ⟨fun p b hb => hn p b (h.mem_pending hb).2, fun b hph => ?_⟩
          obtain ⟨hhash, hmem⟩ := hb b hph
          rw [h.pending_of_ne hut]
          exact ⟨hhash, hmem.imp_left fun hmem => hkeep b hmem (hhash ▸ hn)⟩
      · simp only [ProcOk, h.pending_of_ne hut]
        exact hok
      · intro key hkey
        obtain ⟨b, hid, hc, hb⟩ := hok key hkey
        refine ⟨b, hid, hcreated hc, fun b' hb' heq => ?_⟩
        rcases hnew b' hb' with hb' | ⟨-, hid', -, -⟩
        · exact hb b' hb' heq
        · obtain ⟨d, hd⟩ := hc
          rw [hid, ← heq, hid'] at hd
          exact ht _ _ _ hd
      · trivial
  · obtain ⟨hut, hw⟩ := h.mem_pending hw
    have hok := hi.writes u w hw
    cases w with
    | insertBlob b =>
      simp only [WriteOk, h.procs_of_ne hut]
      exact hok
    | insertItem row =>
      refine ⟨?_, by rw [h.procs_of_ne hut]; exact hok.2⟩
      have hd := hok.1
      unfold Sys.view ReadCommitted.view at hd ⊢
      rw [databases_foldl, List.mem_append] at hd ⊢
      rw [h.pending_of_ne hut]
      exact hd.imp_left fun hd => hdb hd
    | deleteBlob b =>
      obtain ⟨hkey, hc, hproc, hrefs⟩ := hok
      refine ⟨hkey, hcreated hc, by rwa [h.procs_of_ne hut], fun item hitem hid => ?_⟩
      obtain ⟨item₀, h₀, hid₀, -, hblob₀⟩ := hdel u hut b hw hc item hitem hid
      rw [h.pending_of_ne hut, ← hid₀]
      exact hrefs item₀ h₀ (hblob₀.trans hid)
    | _ => trivial

theorem Proc.rolledBack_spec {p : Proc} (h : p.rolledBack = some q) :
    (∀ contentHash d b, p ≠ .upload contentHash d (.committed b)) ∧
      ((∃ contentHash d, q = .upload contentHash d .rolledBack) ∨ q = .purge none [] true ∨
        q = .edit) := by
  rcases p with ⟨contentHash, d, phase⟩ | ⟨checking, keys, _ | _⟩ | _
  · simp only [Proc.rolledBack] at h
    split_ifs at h with ho
    cases h
    refine ⟨fun _ _ b heq => ?_, .inl ⟨_, _, rfl⟩⟩
    cases heq
    cases ho
  · cases h
    exact ⟨nofun, .inr (.inl rfl)⟩
  · cases h
  · cases h
    exact ⟨nofun, .inr (.inr rfl)⟩

theorem Inv.rollback (hi : Inv s) (h : step s (.rollback t) = some s') : Inv s' := by
  simp only [step] at h
  obtain ⟨p', hp', h⟩ := Option.bind_eq_some_iff.mp h
  obtain ⟨p, hp, hp'⟩ := Option.bind_eq_some_iff.mp hp'
  obtain ⟨db, hdb, rfl⟩ := Option.map_eq_some_iff.mp h
  obtain ⟨hne, hcase⟩ := Proc.rolledBack_spec hp'
  have hc : ({ s with db := db }.setProc t p').db.committed = s.db.committed :=
    ReadCommitted.rollback_committed hdb
  refine hi.close ⟨ReadCommitted.rollback_pending hdb, rfl, rfl, ReadCommitted.rollback_opened hdb⟩
    (.of_procs hp hne) ?_ ?_ ?_ ?_ ?_ ?_
  · exact fun b hb => .inl (hc ▸ hb)
  · exact fun b hb _ => hc ▸ hb
  · exact fun d hd => hc ▸ hd
  · rw [hc]
    exact hi.items
  · exact fun _ _ _ _ _ item hitem _ => ⟨item, hc ▸ hitem, rfl, rfl, rfl⟩
  · rcases hcase with ⟨contentHash, d, rfl⟩ | rfl | rfl
    · exact ⟨nofun, nofun⟩
    · exact nofun
    · trivial

theorem Sys.Created.unique {b b' : BlobRow} (h : s.Created b) (h' : s.Created b')
    (hid : b.id = b'.id) : b = b' := by
  obtain ⟨d, hd⟩ := h
  obtain ⟨d', hd'⟩ := h'
  rw [hid, hd'] at hd
  simp only [Option.some.injEq, Proc.upload.injEq, UploadPhase.committed.injEq] at hd
  exact hd.2.2.symm

/-- The writes of an upload or an edit delete no blob. -/
theorem Inv.spares (hi : Inv s) {p : Proc} (hp : s.procs t = some p)
    (hne : ∀ checking keys, p ≠ .purge checking keys false) (blobId : ℕ) :
    ∀ w ∈ s.db.pending t, w.Spares blobId := by
  rintro w hw row rfl
  obtain ⟨-, -, ⟨checking, keys, hp'⟩, -⟩ := hi.writes t _ hw
  rw [hp] at hp'
  cases hp'
  exact absurd rfl (hne _ _)

theorem Inv.commit_upload {contentHash : String} {d : ℕ} {b : BlobRow} {created : Bool}
    (hi : Inv s) (hp : s.procs t = some (.upload contentHash d (.returned b created)))
    (h : Close s s' t (.upload contentHash d (.committed b)))
    (hc : s'.db.committed = s.view t) : Inv s' := by
  have hspares := hi.spares hp nofun
  obtain ⟨hopen, hreuse⟩ := hi.procs t _ hp
  have ht : s.Uncommitted t := .of_procs hp nofun
  have hins : ∀ b', .insertBlob b' ∈ s.db.pending t → b' = b ∧ b'.id = t ∧ b'.storageKey = t ∧
      b'.contentHash = contentHash := by
    intro b' hb'
    obtain ⟨hid, hkey, d', phase, hp', hph⟩ := hi.writes t _ hb'
    rw [hp] at hp'
    cases hp'
    cases hph
    exact ⟨rfl, hid, hkey, rfl⟩
  have hrow : ∀ row, .insertItem row ∈ s.db.pending t →
      row.databaseId ∈ (s.view t).databases ∧ row.blobId = b.id ∧ created = true := by
    intro row hrow
    obtain ⟨hd, contentHash', d', b', hp', hblob⟩ := hi.writes t _ hrow
    rw [hp] at hp'
    cases hp'
    exact ⟨hd, hblob, rfl⟩
  have hblobs : ∀ b' ∈ s.db.committed.blobs, b' ∈ (s.view t).blobs := fun b' hb' =>
    mem_blobs_foldl_of_mem _ hb' (hspares _)
  refine hi.close h ht ?_ ?_ ?_ ?_ ?_ ⟨nofun, nofun⟩
  · intro b' hb'
    rw [hc] at hb'
    rcases mem_blobs_of_mem_foldl _ hb' with ⟨hb', -⟩ | hb'
    · exact .inl hb'
    · obtain ⟨rfl, hid, hkey, hhash⟩ := hins b' hb'
      exact .inr ⟨hkey.trans hid.symm, hid, (hopen rfl).1, d, by rw [hid, hhash, h.procs_self]⟩
  · exact fun b' hb' _ => hc ▸ hblobs b' hb'
  · rw [hc]
    unfold Sys.view ReadCommitted.view
    rw [databases_foldl]
    exact List.subset_append_left _ _
  · intro item hitem
    rw [hc] at hitem ⊢
    rcases mem_items_foldl _ hitem with ⟨-, item₀, h₀, -, hdb₀, hblob₀⟩ | ⟨row, hr, -, hdb, hblob⟩
    · obtain ⟨hd, b', hb', hid⟩ := hi.items item₀ h₀
      refine ⟨?_, b', hblobs b' hb', hid.trans hblob₀⟩
      unfold Sys.view ReadCommitted.view
      rw [databases_foldl]
      exact List.mem_append_left _ (hdb₀ ▸ hd)
    · obtain ⟨hd, hid, rfl⟩ := hrow row hr
      refine ⟨hdb ▸ hd, b, ?_, hid.symm.trans hblob⟩
      rcases ((hreuse rfl).2 b rfl).2 with hb | hb
      · exact hblobs b hb
      · exact mem_blobs_foldl_of_insert _ hb (hspares _)
  · intro p hpt b' hb' hcr item hitem hid
    rw [hc] at hitem
    rcases mem_items_foldl _ hitem with ⟨-, hold⟩ | ⟨row, hr, -, -, hblob⟩
    · exact hold
    · obtain ⟨-, hrid, rfl⟩ := hrow row hr
      have hbid : b.id = b'.id := (hrid.symm.trans hblob).trans hid
      obtain ⟨hn, hheld⟩ := hreuse rfl
      obtain ⟨hhash, hb | hb⟩ := hheld b rfl
      · have heq := (hi.created b hb).2.2.unique hcr hbid
        exact absurd (heq ▸ hhash) (hn p b' hb')
      · obtain ⟨-, hbt, -, -⟩ := hins b hb
        obtain ⟨d', hd'⟩ := hcr
        rw [← hbid, hbt] at hd'
        exact absurd hd' (ht _ _ _)

theorem Inv.commit_purge {keys : List ℕ} (hi : Inv s)
    (hp : s.procs t = some (.purge none keys false)) (h : Close s s' t (.purge none keys true))
    (hc : s'.db.committed = s.view t) : Inv s' := by
  have ht : s.Uncommitted t := .of_procs hp nofun
  have hins : ∀ b', .insertBlob b' ∉ s.db.pending t := by
    intro b' hb'
    obtain ⟨-, -, d', phase, hp', -⟩ := hi.writes t _ hb'
    rw [hp] at hp'
    cases hp'
  have hrow : ∀ row, .insertItem row ∉ s.db.pending t := by
    intro row hrow
    obtain ⟨-, contentHash', d', b', hp', -⟩ := hi.writes t _ hrow
    rw [hp] at hp'
    cases hp'
  have hblobs : ∀ b' ∈ (s.view t).blobs, b' ∈ s.db.committed.blobs ∧
      ∀ w ∈ s.db.pending t, w.Spares b'.id := fun b' hb' =>
    (mem_blobs_of_mem_foldl _ hb').resolve_right (hins b')
  have hitems : ∀ item ∈ (s.view t).items, .deleteItem item.id ∉ s.db.pending t ∧
      ∃ item₀ ∈ s.db.committed.items, item₀.Same item := by
    intro item hitem
    rcases mem_items_foldl _ hitem with hold | ⟨row, hr, -⟩
    · exact hold
    · exact absurd hr (hrow row)
  refine hi.close h ht ?_ ?_ ?_ ?_ ?_ ?_
  · exact fun b' hb' => .inl (hblobs b' (hc ▸ hb')).1
  · intro b' hb' hn
    rw [hc]
    refine mem_blobs_foldl_of_mem _ hb' ?_
    rintro w hw row rfl hid
    have heq := (hi.writes t _ hw).2.1.unique (hi.created b' hb').2.2 hid
    exact hn t row hw (heq ▸ rfl)
  · rw [hc]
    unfold Sys.view ReadCommitted.view
    rw [databases_foldl]
    exact List.subset_append_left _ _
  · intro item hitem
    rw [hc] at hitem ⊢
    obtain ⟨hdel, item₀, h₀, hid₀, hdb₀, hblob₀⟩ := hitems item hitem
    obtain ⟨hd, b', hb', hid⟩ := hi.items item₀ h₀
    refine ⟨?_, b', mem_blobs_foldl_of_mem _ hb' ?_, hid.trans hblob₀⟩
    · unfold Sys.view ReadCommitted.view
      rw [databases_foldl]
      exact List.mem_append_left _ (hdb₀ ▸ hd)
    · rintro w hw row rfl hrid
      have hrefs := (hi.writes t _ hw).2.2.2 item₀ h₀ (hid.symm.trans hrid.symm)
      exact hdel (hid₀ ▸ hrefs)
  · exact fun _ _ _ _ _ item hitem _ => (hitems item (hc ▸ hitem)).2
  · intro key hkey
    obtain ⟨b, hb, rfl⟩ := hi.procs t _ hp key hkey
    refine ⟨b, rfl, (hi.writes t _ hb).2.1.of_procs ht fun u hu => h.procs_of_ne hu,
      fun b' hb' hid => ?_⟩
    rw [hc] at hb'
    exact (hblobs b' hb').2 _ hb b rfl hid.symm

theorem Inv.commit_edit (hi : Inv s) (hp : s.procs t = some .edit) (h : Close s s' t .edit)
    (hc : s'.db.committed = s.view t) : Inv s' := by
  have hspares := hi.spares hp nofun
  have hrow : ∀ row, .insertItem row ∉ s.db.pending t := by
    intro row hrow
    obtain ⟨-, contentHash', d', b', hp', -⟩ := hi.writes t _ hrow
    rw [hp] at hp'
    cases hp'
  have hitems : ∀ item ∈ (s.view t).items,
      ∃ item₀ ∈ s.db.committed.items, item₀.Same item := by
    intro item hitem
    rcases mem_items_foldl _ hitem with ⟨-, hold⟩ | ⟨row, hr, -⟩
    · exact hold
    · exact absurd hr (hrow row)
  have hblobs : ∀ b' ∈ s.db.committed.blobs, b' ∈ (s.view t).blobs := fun b' hb' =>
    mem_blobs_foldl_of_mem _ hb' (hspares _)
  refine hi.close h (.of_procs hp nofun) ?_ ?_ ?_ ?_ ?_ trivial
  · intro b' hb'
    rcases mem_blobs_of_mem_foldl _ (hc ▸ hb') with ⟨hb', -⟩ | hb'
    · exact .inl hb'
    · obtain ⟨-, -, d', phase, hp', -⟩ := hi.writes t _ hb'
      rw [hp] at hp'
      cases hp'
  · exact fun b' hb' _ => hc ▸ hblobs b' hb'
  · rw [hc]
    unfold Sys.view ReadCommitted.view
    rw [databases_foldl]
    exact List.subset_append_left _ _
  · intro item hitem
    rw [hc] at hitem ⊢
    obtain ⟨item₀, h₀, -, hdb₀, hblob₀⟩ := hitems item hitem
    obtain ⟨hd, b', hb', hid⟩ := hi.items item₀ h₀
    refine ⟨?_, b', hblobs b' hb', hid.trans hblob₀⟩
    unfold Sys.view ReadCommitted.view
    rw [databases_foldl]
    exact List.mem_append_left _ (hdb₀ ▸ hd)
  · exact fun _ _ _ _ _ item hitem _ => hitems item (hc ▸ hitem)

theorem Inv.commit (hi : Inv s) (h : step s (.commit t) = some s') : Inv s' := by
  simp only [step] at h
  obtain ⟨q, hp', h⟩ := Option.bind_eq_some_iff.mp h
  obtain ⟨p, hp, hp'⟩ := Option.bind_eq_some_iff.mp hp'
  obtain ⟨db, hdb, rfl⟩ := Option.map_eq_some_iff.mp h
  have hclose : Close s ({ s with db := db }.setProc t q) t q :=
    ⟨ReadCommitted.commit_pending hdb, rfl, rfl, ReadCommitted.commit_opened hdb⟩
  have hc : ({ s with db := db }.setProc t q).db.committed = s.view t :=
    ReadCommitted.commit_committed hdb
  unfold Proc.committed at hp'
  split at hp'
  · cases hp'
    exact hi.commit_upload hp hclose hc
  · cases hp'
    exact hi.commit_purge hp hclose hc
  · cases hp'
    exact hi.commit_edit hp hclose hc
  · cases hp'

/-- The bytes an ended process removes are those of no blob and of no open upload. -/
theorem Inv.deleteBytes {key : ℕ} (hi : Inv s) (h : step s (.deleteBytes t key) = some s') :
    Inv s' := by
  simp only [step] at h
  split at h
  · rename_i p hp
    split_ifs at h with hkey
    cases h
    have hok := hi.procs t p hp
    have hblob : ∀ b ∈ s.db.committed.blobs, b.id ≠ key := by
      rintro b hb rfl
      obtain ⟨hbk, -, d', hb'⟩ := hi.created b hb
      unfold Proc.garbage at hkey
      split at hkey
      · split_ifs at hkey with hne
        · rw [List.mem_singleton] at hkey
          rw [hkey, hp] at hb'
          cases hb'
          exact hne (hbk.trans hkey)
        · exact List.not_mem_nil hkey
      · rw [List.mem_singleton] at hkey
        rw [hkey, hp] at hb'
        cases hb'
      · obtain ⟨-, -, -, hgone⟩ := hok _ hkey
        exact hgone b hb rfl
      · exact List.not_mem_nil hkey
    have hopen : ∀ u contentHash d phase, s.procs u = some (.upload contentHash d phase) →
        phase.isOpen = true → u ≠ key := by
      rintro u contentHash d phase hu ho rfl
      unfold Proc.garbage at hkey
      split at hkey
      · split_ifs at hkey
        · rw [List.mem_singleton] at hkey
          rw [hkey, hp] at hu
          cases hu
          cases ho
        · exact List.not_mem_nil hkey
      · rw [List.mem_singleton] at hkey
        rw [hkey, hp] at hu
        cases hu
        cases ho
      · obtain ⟨b, rfl, ⟨d', hd'⟩, -⟩ := hok _ hkey
        rw [hu] at hd'
        cases hd'
        cases ho
      · exact List.not_mem_nil hkey
    refine ⟨fun b hb => ?_, hi.items, fun u p hu => ?_, fun u w hw => ?_⟩
    · obtain ⟨hbk, hst, hc⟩ := hi.created b hb
      exact ⟨hbk, Finset.mem_erase.mpr ⟨hblob b hb, hst⟩, hc⟩
    · have hpu := hi.procs u p hu
      rcases p with ⟨contentHash, d, phase⟩ | ⟨checking, keys, _ | _⟩ | _
      · exact ⟨fun ho => ⟨Finset.mem_erase.mpr ⟨hopen u contentHash d phase hu ho, (hpu.1 ho).1⟩,
          (hpu.1 ho).2⟩, hpu.2⟩
      · exact hpu
      · exact hpu
      · trivial
    · have hwu := hi.writes u w hw
      cases w with
      | insertBlob b => exact hwu
      | insertItem row => exact hwu
      | deleteBlob b => exact hwu
      | _ => trivial
  · cases h

end close

theorem Inv.step {s s' : Sys} {a : Act} (hi : Inv s) (hok : NoReuseInFlight s a)
    (h : Blobs.step s a = some s') : Inv s' := by
  cases a with
  | upload t contentHash d =>
    refine @Inv.begin { s with stored := insert t s.stored } s' t _ s hi rfl rfl
      (Finset.subset_insert _ _) h fun hop hst => ⟨fun _ => ⟨?_, hop⟩, nofun⟩
    rw [hst]
    exact Finset.mem_insert_self t _
  | insertBlob t => exact hi.insertBlob h
  | getBlobByContentHash t => exact hi.getBlobByContentHash h
  | findFileItemByBlobId t => exact hi.findFileItemByBlobId h
  | createItem t => exact hi.createItem h
  | purge t => exact Inv.begin hi rfl rfl (Finset.Subset.refl _) h fun _ _ => nofun
  | hardDeleteItem t itemId => exact hi.hardDeleteItem h
  | visibleDatabaseIds t => exact hi.visibleDatabaseIds h
  | deleteBlob t => exact hi.deleteBlob hok h
  | edit t => exact Inv.begin hi rfl rfl (Finset.Subset.refl _) h fun _ _ => trivial
  | setDeleted t itemId deleted =>
    simp only [Blobs.step] at h
    split at h
    · rename_i hproc
      split_ifs at h
      exact hi.edit hproc h fun w hw => .inl ⟨itemId, deleted, List.mem_singleton.mp hw⟩
    · cases h
  | insertDatabase t databaseId =>
    simp only [Blobs.step] at h
    split at h
    · rename_i hproc
      exact hi.edit hproc h fun w hw => .inr ⟨databaseId, List.mem_singleton.mp hw⟩
    · cases h
  | commit t => exact hi.commit h
  | rollback t => exact hi.rollback h
  | deleteBytes t key => exact hi.deleteBytes h

section runs

variable {databases mailAttachments : List ℕ}

/-- While purges and uploads of one content keep apart, no live file item dangles. -/
theorem noDangling_of_reach {s : Sys}
    (h : Reach step NoReuseInFlight (.init databases mailAttachments) s) : s.NoDangling :=
  (h.invariant (I := Inv) (inv_init _ _) fun _ _ _ hi hok hs => hi.step hok hs).noDangling

def firstUpload (t : ℕ) : List Act :=
  [.upload t "content" 7, .insertBlob t, .findFileItemByBlobId t, .createItem t, .commit t]

def trashItem (t itemId : ℕ) : List Act := [.edit t, .setDeleted t itemId true, .commit t]

def purgeItem (t itemId blobId : ℕ) : List Act :=
  [.purge t, .hardDeleteItem t itemId, .visibleDatabaseIds t, .deleteBlob t, .commit t,
   .deleteBytes t blobId]

def reuseAcrossPurge : List Act :=
  firstUpload 1 ++ trashItem 2 1 ++
    [Act.upload 3 "content" 7, Act.insertBlob 3, Act.getBlobByContentHash 3] ++ purgeItem 4 1 1 ++
    [Act.findFileItemByBlobId 3, Act.createItem 3, Act.commit 3]

theorem noDangling_after_purge : ∃ s : Sys,
    runActs step (.init [7] []) (firstUpload 1 ++ trashItem 2 1 ++ purgeItem 4 1 1 ++
      firstUpload 5) = some s ∧ s.db.committed.items = [⟨5, 7, 5, false⟩] ∧ s.NoDangling := by
  obtain ⟨s, hs⟩ := Option.isSome_iff_exists.mp (rfl : (runChecked step
    (fun s a => decide (NoReuseInFlight s a)) (.init [7] []) (firstUpload 1 ++ trashItem 2 1 ++
      purgeItem 4 1 1 ++ firstUpload 5)).isSome = true)
  exact ⟨s, runActs_of_runChecked hs, eq_of_map_eq (f := fun s => s.db.committed.items) hs rfl,
    noDangling_of_reach (.of_runChecked (fun _ _ h => of_decide_eq_true h) hs)⟩

theorem upload_reuses_purged_blob :
    ¬ ∀ s : Sys, Reach step (fun _ _ => True) (.init [7] []) s → s.NoDangling := by
  intro h
  obtain ⟨s, hs⟩ := Option.isSome_iff_exists.mp (rfl : (runActs step (.init [7] [])
    reuseAcrossPurge).isSome = true)
  have hitems : s.db.committed.items = [⟨3, 7, 1, false⟩] :=
    eq_of_map_eq (f := fun s => s.db.committed.items) hs rfl
  have hblobs : s.db.committed.blobs = [] :=
    eq_of_map_eq (f := fun s => s.db.committed.blobs) hs rfl
  obtain ⟨b, hb, -⟩ := h s (.of_runActs hs) ⟨3, 7, 1, false⟩ (by simp [hitems]) rfl
  rw [hblobs] at hb
  exact List.not_mem_nil hb

end runs

end Blobs

end Semprec
