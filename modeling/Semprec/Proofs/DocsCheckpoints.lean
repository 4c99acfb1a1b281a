import Semprec.Proofs.DocsCompaction

/-!
# History checkpoints

A checkpoint carries the updates through its id and claims to represent an instant.  Compaction
takes that instant from the greatest update it folds, while `created_at` need not follow the ids,
so the claim holds (`CheckpointInv`) only where that update is dated no earlier than the others.
Given this, appending, compacting, re-baselining and pruning each keep the history (`HistInv`).
-/

namespace Semprec

namespace Docs

variable {Y : Yjs}

section order

instance : Std.Total fun a b : UpdateRow Y => a.id ≤ b.id := ⟨fun a b => le_total a.id b.id⟩

instance : IsTrans (UpdateRow Y) fun a b => a.id ≤ b.id := ⟨fun _ _ _ => le_trans⟩

instance : Std.Total (newestFirst (Y := Y)) := ⟨fun a b => by unfold newestFirst; omega⟩

instance : IsTrans (Checkpoint Y) newestFirst := ⟨fun a b c => by unfold newestFirst; omega⟩

theorem pairwise_getLast {α : Type*} {R : α → α → Prop} {l : List α} {b : α}
    (h : l.Pairwise R) (hb : l.getLast? = some b) : ∀ a ∈ l, a = b ∨ R a b := by
  obtain ⟨init, rfl⟩ := List.getLast?_eq_some_iff.mp hb
  intro a ha
  rw [List.pairwise_append] at h
  rw [List.mem_append, List.mem_singleton] at ha
  rcases ha with ha | rfl
  · exact .inr (h.2.2 a ha b (by simp))
  · exact .inl rfl

theorem orderById_getLast {rows : List (UpdateRow Y)} {b : UpdateRow Y}
    (h : (orderById rows).getLast? = some b) : b ∈ rows ∧ ∀ r ∈ rows, r.id ≤ b.id := by
  refine ⟨mem_orderById.mp (List.mem_of_getLast? h), fun r hr => ?_⟩
  have hp : (orderById rows).Pairwise fun a b => a.id ≤ b.id := List.pairwise_insertionSort _ _
  rcases pairwise_getLast hp h r (mem_orderById.mpr hr) with rfl | hle
  · exact le_rfl
  · exact hle

theorem checkpointAt_some {cs : List (Checkpoint Y)} {t : ℤ} {c : Checkpoint Y}
    (h : checkpointAt cs t = some c) :
    c ∈ cs ∧ c.representedAt ≤ t ∧ ∀ d ∈ cs, d.representedAt ≤ t → newestFirst c d := by
  unfold checkpointAt at h
  rw [List.head?_eq_some_iff] at h
  obtain ⟨rest, h⟩ := h
  have hmem : ∀ d, d ∈ c :: rest ↔ d ∈ cs ∧ d.representedAt ≤ t := by
    intro d
    rw [← h, List.mem_insertionSort]
    simp
  have hp : (c :: rest).Pairwise newestFirst := h ▸ List.pairwise_insertionSort _ _
  obtain ⟨hc, hle⟩ := (hmem c).mp List.mem_cons_self
  refine ⟨hc, hle, fun d hd hdt => ?_⟩
  rcases List.mem_cons.mp ((hmem d).mpr ⟨hd, hdt⟩) with rfl | hd
  · exact .inr ⟨rfl, le_rfl⟩
  · exact (List.pairwise_cons.mp hp).1 d hd

theorem toDate_toDate (t : ℤ) : toDate (toDate t) = toDate t := by
  unfold toDate
  omega

end order

/-- The time a row is kept under in the history. -/
def UpdateRow.dated (r : UpdateRow Y) : ℤ := toDate r.createdAt

def folded (snapshot₀ : Y.Update) (L : List (UpdateRow Y)) (P : UpdateRow Y → Prop) :
    Set Y.Struct :=
  Y.content snapshot₀ ∪ {x | ∃ r ∈ L, P r ∧ x ∈ Y.content r.update}

structure CheckpointInv (snapshot₀ : Y.Update) (L : List (UpdateRow Y)) (H : ℕ) (haf : ℤ)
    (c : Checkpoint Y) : Prop where
  state : Y.content c.state = folded snapshot₀ L (·.id ≤ c.throughUpdateId)
  through : c.throughUpdateId = 0 ∨ ∃ r ∈ L, r.id = c.throughUpdateId
  current : ∀ r ∈ L, r.id ≤ c.throughUpdateId → r.dated ≤ c.representedAt
  kept : c.representedAt ≠ haf → H ≤ c.throughUpdateId
  later : haf < c.representedAt → ∃ r ∈ L, r.id = c.throughUpdateId ∧ r.dated = c.representedAt

structure HistInv (snapshot₀ : Y.Update) (L : List (UpdateRow Y)) (nextId nextCheckpointId : ℕ)
    (H : ℕ) (haf : ℤ) (t : Tables Y) : Prop where
  sorted : L.Pairwise fun a b => a.id < b.id
  pos : ∀ r ∈ L, 0 < r.id
  bound : ∀ r ∈ L, r.id < nextId
  next : 0 < nextId
  pending : ∀ r ∈ t.docUpdates, r ∈ L ∧ ∀ x ∈ L, r.id ≤ x.id → x ∈ t.docUpdates
  boundary : H = 0 ∨ ∃ r ∈ L, r.id = H
  history : ∀ h, h ∈ t.historyUpdates ↔ ∃ r ∈ L, H < r.id ∧ h = r.mirror
  docs : ∃ a, t.docs = some ⟨some a⟩ ∧ toDate a = haf
  baseline : ∃ b ∈ t.snapshotHistory, b.expiresAt = none ∧ b.representedAt = haf ∧
    H ≤ b.throughUpdateId
  checkpoints : ∀ c ∈ t.snapshotHistory, CheckpointInv snapshot₀ L H haf c
  checkpointIds : ∀ c ∈ t.snapshotHistory, c.id < nextCheckpointId

variable {snapshot₀ : Y.Update} {L : List (UpdateRow Y)}
  {nextId nextCheckpointId H : ℕ} {haf : ℤ} {t : Tables Y}

section folded

variable {P Q : UpdateRow Y → Prop}

@[simp] theorem mirror_id (r : UpdateRow Y) : r.mirror.id = r.id := rfl

@[simp] theorem mirror_update (r : UpdateRow Y) : r.mirror.update = r.update := rfl

@[simp] theorem mirror_createdAt (r : UpdateRow Y) : r.mirror.createdAt = r.dated := rfl

theorem folded_congr (h : ∀ r ∈ L, P r ↔ Q r) : folded snapshot₀ L P = folded snapshot₀ L Q := by
  unfold folded
  congr 1
  ext x
  constructor <;> rintro ⟨r, hr, hp, hx⟩
  · exact ⟨r, hr, (h r hr).mp hp, hx⟩
  · exact ⟨r, hr, (h r hr).mpr hp, hx⟩

theorem folded_all (h : ∀ r ∈ L, P r) :
    folded snapshot₀ L P = Y.content snapshot₀ ∪ Y.contents (L.map (·.update)) := by
  unfold folded Yjs.contents
  congr 1
  ext x
  simp only [Set.mem_ofPred_eq, List.mem_map]
  constructor
  · rintro ⟨r, hr, -, hx⟩
    exact ⟨_, ⟨r, hr, rfl⟩, hx⟩
  · rintro ⟨_, ⟨r, hr, rfl⟩, hx⟩
    exact ⟨r, hr, h r hr, hx⟩

theorem folded_append {M : List (UpdateRow Y)} (h : ∀ r ∈ M, ¬ P r) :
    folded snapshot₀ (L ++ M) P = folded snapshot₀ L P := by
  unfold folded
  congr 1
  ext x
  constructor
  · rintro ⟨r, hr, hp, hx⟩
    rcases List.mem_append.mp hr with hr | hr
    · exact ⟨r, hr, hp, hx⟩
    · exact absurd hp (h r hr)
  · rintro ⟨r, hr, hp, hx⟩
    exact ⟨r, List.mem_append_left _ hr, hp, hx⟩

theorem folded_replay (hY : Y.Lawful) {state : Y.Update} {rows : List (UpdateRow Y)}
    (hstate : Y.content state = folded snapshot₀ L P)
    (hrows : ∀ x, x ∈ rows ↔ ∃ r ∈ L, Q r ∧ x = r.mirror) :
    Y.structs (replay state rows) = folded snapshot₀ L fun r => P r ∨ Q r := by
  rw [structs_replay hY, hstate]
  unfold folded Yjs.contents
  rw [Set.union_assoc]
  congr 1
  ext x
  simp only [Set.mem_union, Set.mem_ofPred_eq, List.mem_map, hrows]
  constructor
  · rintro (⟨r, hr, hp, hx⟩ | ⟨_, ⟨_, ⟨r, hr, hq, rfl⟩, rfl⟩, hx⟩)
    · exact ⟨r, hr, .inl hp, hx⟩
    · exact ⟨r, hr, .inr hq, hx⟩
  · rintro ⟨r, hr, hp | hq, hx⟩
    · exact .inl ⟨r, hr, hp, hx⟩
    · exact .inr ⟨_, ⟨_, ⟨r, hr, hq, rfl⟩, rfl⟩, hx⟩

end folded

theorem CheckpointInv.append {c : Checkpoint Y} (h : CheckpointInv snapshot₀ L H haf c)
    {M : List (UpdateRow Y)} (hM : ∀ r ∈ M, c.throughUpdateId < r.id) :
    CheckpointInv snapshot₀ (L ++ M) H haf c where
  state := by
    rw [folded_append fun r hr => not_le.mpr (hM r hr)]
    exact h.state
  through := h.through.imp_right fun ⟨r, hr, hid⟩ => ⟨r, List.mem_append_left _ hr, hid⟩
  current := by
    intro r hr hle
    rcases List.mem_append.mp hr with hr | hr
    · exact h.current r hr hle
    · exact absurd hle (not_le.mpr (hM r hr))
  kept := h.kept
  later := fun hlt => (h.later hlt).imp fun r ⟨hr, hid⟩ => ⟨List.mem_append_left _ hr, hid⟩

theorem HistInv.through_lt (h : HistInv snapshot₀ L nextId nextCheckpointId H haf t)
    {n : ℕ} (hn : n = 0 ∨ ∃ r ∈ L, r.id = n) : n < nextId := by
  rcases hn with rfl | ⟨r, hr, rfl⟩
  · exact h.next
  · exact h.bound r hr

theorem HistInv.append (h : HistInv snapshot₀ L nextId nextCheckpointId H haf t) (e : Y.Update)
    (startedAt : ℤ) :
    HistInv snapshot₀ (L ++ [{ id := nextId, update := e, createdAt := startedAt }])
      (nextId + 1) nextCheckpointId H haf
      (applyWrites (appendDocUpdate nextId e startedAt) t) := by
  set row : UpdateRow Y := { id := nextId, update := e, createdAt := startedAt } with hrow
  have ht : applyWrites (appendDocUpdate nextId e startedAt) t =
      { t with docUpdates := t.docUpdates ++ [row],
               historyUpdates := t.historyUpdates ++ [row.mirror] } := rfl
  have hlt : ∀ r ∈ L, r.id < row.id := h.bound
  rw [ht]
  refine ⟨?_, ?_, ?_, Nat.succ_pos _, ?_, ?_, ?_, h.docs, h.baseline, ?_, h.checkpointIds⟩
  · rw [List.pairwise_append]
    exact ⟨h.sorted, List.pairwise_singleton _ _, by simpa using hlt⟩
  · intro r hr
    rcases List.mem_append.mp hr with hr | hr
    · exact h.pos r hr
    · rw [List.mem_singleton] at hr
      exact hr ▸ h.next
  · intro r hr
    rcases List.mem_append.mp hr with hr | hr
    · exact (h.bound r hr).trans (Nat.lt_succ_self _)
    · rw [List.mem_singleton] at hr
      exact hr ▸ Nat.lt_succ_self _
  · intro r hr
    simp only [List.mem_append, List.mem_singleton] at hr ⊢
    rcases hr with hr | rfl
    · refine ⟨.inl (h.pending r hr).1, fun x hx hle => ?_⟩
      exact hx.imp_left fun hx => (h.pending r hr).2 x hx hle
    · refine ⟨.inr rfl, fun x hx hle => ?_⟩
      refine hx.imp_left fun hx => ?_
      exact absurd (hlt x hx) (not_lt.mpr hle)
  · exact h.boundary.imp_right fun ⟨r, hr, hid⟩ => ⟨r, List.mem_append_left _ hr, hid⟩
  · intro x
    simp only [List.mem_append, List.mem_singleton, h.history]
    constructor
    · rintro (⟨r, hr, hlt, rfl⟩ | rfl)
      · exact ⟨r, .inl hr, hlt, rfl⟩
      · exact ⟨row, .inr rfl, h.through_lt h.boundary, rfl⟩
    · rintro ⟨r, hr | rfl, hlt, rfl⟩
      · exact .inl ⟨r, hr, hlt, rfl⟩
      · exact .inr rfl
  · intro c hc
    refine (h.checkpoints c hc).append fun r hr => ?_
    rw [List.mem_singleton] at hr
    exact hr ▸ h.through_lt (h.checkpoints c hc).through

/-- Compaction adds a checkpoint of everything committed so far, provided its boundary is dated no
earlier than anything it folds. -/
theorem HistInv.compact (hY : Y.Lawful)
    (h : HistInv snapshot₀ L nextId nextCheckpointId H haf t)
    (htotal : t.total = Y.content snapshot₀ ∪ Y.contents (L.map (·.update))) {doc : Y.Doc}
    (hdoc : Y.structs doc = t.total) (days : ℕ)
    (hok : ∀ b, (orderById t.docUpdates).getLast? = some b → ∀ r ∈ L, r.dated ≤ b.dated) :
    HistInv snapshot₀ L nextId (nextCheckpointId + 1) H haf
      (applyWrites (Docs.compact nextCheckpointId doc (orderById t.docUpdates) days) t) := by
  obtain ⟨-, hu⟩ := applyWrites_compact nextCheckpointId doc t days
  have hpend : ∀ r ∈ (applyWrites (Docs.compact nextCheckpointId doc (orderById t.docUpdates)
      days) t).docUpdates, r ∈ L ∧ ∀ x ∈ L, r.id ≤ x.id → x ∈ (applyWrites
        (Docs.compact nextCheckpointId doc (orderById t.docUpdates) days) t).docUpdates := by
    simp [hu]
  unfold Docs.compact at hpend ⊢
  rcases hl : (orderById t.docUpdates).getLast? with _ | b
  · rw [hl] at hpend
    exact { h with
      pending := hpend
      checkpointIds := fun c hc => (h.checkpointIds c hc).trans (Nat.lt_succ_self _) }
  · rw [hl] at hpend
    obtain ⟨hb, hmax⟩ := orderById_getLast hl
    have hbL : b ∈ L := (h.pending b hb).1
    have hle : ∀ r ∈ L, r.id ≤ b.id := by
      intro r hr
      by_contra hgt
      exact hgt (hmax r ((h.pending b hb).2 r hr (by omega)))
    have hnew : CheckpointInv snapshot₀ L H haf {
        id := nextCheckpointId
        state := Y.encodeStateAsUpdate doc
        throughUpdateId := b.id
        representedAt := toDate b.createdAt
        expiresAt := some (toDate b.createdAt + makeInterval (retentionHours days)) } := by
      refine ⟨?_, .inr ⟨b, hbL, rfl⟩, fun r hr _ => hok b hl r hr, fun _ => ?_,
        fun _ => ⟨b, hbL, rfl, rfl⟩⟩
      · rw [hY.content_encodeStateAsUpdate, hdoc, htotal, folded_all hle]
      · rcases h.boundary with rfl | ⟨r, hr, rfl⟩
        · exact Nat.zero_le _
        · exact hle r hr
    refine ⟨h.sorted, h.pos, h.bound, h.next, hpend, h.boundary, h.history, h.docs, ?_, ?_, ?_⟩
    · obtain ⟨b', hb', hbase⟩ := h.baseline
      exact ⟨b', List.mem_append_left _ hb', hbase⟩
    · intro c hc
      rcases List.mem_append.mp hc with hc | hc
      · exact h.checkpoints c hc
      · rw [List.mem_singleton] at hc
        exact hc ▸ hnew
    · intro c hc
      rcases List.mem_append.mp hc with hc | hc
      · exact (h.checkpointIds c hc).trans (Nat.lt_succ_self _)
      · rw [List.mem_singleton] at hc
        exact hc ▸ Nat.lt_succ_self _

/-- Whatever instant a checkpoint is chosen for, the rows after it have not been folded away. -/
theorem HistInv.le_through (h : HistInv snapshot₀ L nextId nextCheckpointId H haf t) {x : ℤ}
    {c : Checkpoint Y} (hc : checkpointAt t.snapshotHistory x = some c) :
    H ≤ c.throughUpdateId := by
  obtain ⟨hmem, hle, hnewest⟩ := checkpointAt_some hc
  by_cases hrep : c.representedAt = haf
  · obtain ⟨b, hb, -, hbrep, hbH⟩ := h.baseline
    rcases hnewest b hb (by omega) with hlt | ⟨-, hth⟩
    · omega
    · exact hbH.trans hth
  · exact (h.checkpoints c hmem).kept hrep

/-- What a re-baseline knows of the checkpoint it starts from. -/
structure ChosenInv (snapshot₀ : Y.Update) (L : List (UpdateRow Y)) (H : ℕ) (haf cutoff : ℤ)
    (c : Checkpoint Y) : Prop where
  checkpoint : CheckpointInv snapshot₀ L H haf c
  before : c.representedAt ≤ cutoff
  kept : H ≤ c.throughUpdateId
  advances : haf < cutoff
  date : toDate cutoff = cutoff

section rebaseline

variable {cutoff : ℤ} {c : Checkpoint Y}

def Foldable (L : List (UpdateRow Y)) (through : ℕ) (cutoff : ℤ) (r : UpdateRow Y) : Prop :=
  through < r.id ∧ ∀ p ∈ L, through < p.id → cutoff < p.dated → r.id < p.id

theorem mem_foldedRows (h : HistInv snapshot₀ L nextId nextCheckpointId H haf t) {n : ℕ}
    (hn : H ≤ n) (x : UpdateRow Y) :
    x ∈ foldedRows t.historyUpdates n cutoff ↔ ∃ r ∈ L, Foldable L n cutoff r ∧ x = r.mirror := by
  simp only [foldedRows, mem_orderById, List.mem_filter, decide_eq_true_eq, List.all_eq_true,
    and_imp, Foldable]
  constructor
  · rintro ⟨⟨hx, hlt⟩, hall⟩
    obtain ⟨r, hr, -, rfl⟩ := (h.history x).mp hx
    refine ⟨r, hr, ⟨hlt, fun p hp hnp hcp => ?_⟩, rfl⟩
    exact hall p.mirror ((h.history _).mpr ⟨p, hp, by omega, rfl⟩) hnp hcp
  · rintro ⟨r, hr, ⟨hlt, hall⟩, rfl⟩
    refine ⟨⟨(h.history _).mpr ⟨r, hr, by omega, rfl⟩, hlt⟩, fun p hp hnp hcp => ?_⟩
    obtain ⟨q, hq, -, rfl⟩ := (h.history p).mp hp
    exact hall q hq hnp hcp

theorem foldedThrough_spec (cutoff : ℤ)
    (h : HistInv snapshot₀ L nextId nextCheckpointId H haf t) {n : ℕ} (hn : H ≤ n)
    (hthrough : n = 0 ∨ ∃ r ∈ L, r.id = n) :
    let m := foldedThrough (foldedRows t.historyUpdates n cutoff) n
    n ≤ m ∧ (m = 0 ∨ ∃ r ∈ L, r.id = m) ∧
      ∀ r ∈ L, r.id ≤ m ↔ r.id ≤ n ∨ Foldable L n cutoff r := by
  intro m
  rcases hl : (foldedRows t.historyUpdates n cutoff).getLast? with _ | b
  · have hm : m = n := by simp [m, foldedThrough, hl]
    have hnil : ∀ r ∈ L, ¬ Foldable L n cutoff r := by
      intro r hr hf
      have := (mem_foldedRows h hn r.mirror).mpr ⟨r, hr, hf, rfl⟩
      rw [List.getLast?_eq_none_iff.mp hl] at this
      exact List.not_mem_nil this
    rw [hm]
    exact ⟨le_rfl, hthrough, fun r hr => by simp [hnil r hr]⟩
  · have hm : m = b.id := by simp [m, foldedThrough, hl]
    obtain ⟨b₀, hb₀, hfb, rfl⟩ := (mem_foldedRows h hn b).mp (List.mem_of_getLast? hl)
    have hmax : ∀ x ∈ foldedRows t.historyUpdates n cutoff, x.id ≤ b₀.id := by
      intro x hx
      exact (orderById_getLast hl).2 x (mem_orderById.mp hx)
    rw [hm, mirror_id]
    refine ⟨hfb.1.le, .inr ⟨b₀, hb₀, rfl⟩, fun r hr => ⟨fun hle => ?_, ?_⟩⟩
    · by_cases hrn : r.id ≤ n
      · exact .inl hrn
      · exact .inr ⟨by omega, fun p hp hnp hcp => hle.trans_lt (hfb.2 p hp hnp hcp)⟩
    · rintro (hrn | hf)
      · exact hrn.trans hfb.1.le
      · exact hmax r.mirror ((mem_foldedRows h hn _).mpr ⟨r, hr, hf, rfl⟩)

theorem ChosenInv.baselineAt (hY : Y.Lawful)
    (h : HistInv snapshot₀ L nextId nextCheckpointId H haf t)
    (hc : ChosenInv snapshot₀ L H haf cutoff c) :
    CheckpointInv snapshot₀ L (baselineAt nextCheckpointId t cutoff c).throughUpdateId cutoff
      (baselineAt nextCheckpointId t cutoff c) := by
  obtain ⟨-, hthrough, hfold⟩ :=
    foldedThrough_spec cutoff h hc.kept hc.checkpoint.through
  refine ⟨?_, hthrough, fun r hr hrm => ?_, fun hne => absurd rfl hne, fun hlt =>
    absurd hlt (lt_irrefl _)⟩
  · simp only [Docs.baselineAt]
    rw [hY.content_encodeStateAsUpdate,
      folded_replay hY hc.checkpoint.state (mem_foldedRows h hc.kept)]
    exact folded_congr fun r hr => (hfold r hr).symm
  · rcases (hfold r hr).mp hrm with hrc | hf
    · exact (hc.checkpoint.current r hr hrc).trans hc.before
    · by_contra hgt
      exact lt_irrefl _ (hf.2 r hr hf.1 (not_le.mp hgt))

theorem mem_rebaseline_checkpoints {id : ℕ} {d : Checkpoint Y}
    (hd : d ∈ (applyWrites (Docs.rebaseline id t cutoff c) t).snapshotHistory) :
    (d ∈ t.snapshotHistory ∧ cutoff ≤ d.representedAt) ∨ d = baselineAt id t cutoff c := by
  simp only [applyWrites, Docs.rebaseline, List.foldl_cons, List.foldl_nil, Write.apply,
    List.mem_filter, List.mem_append, List.mem_singleton, decide_eq_true_eq] at hd
  obtain ⟨hd | hd, hnot⟩ := hd
  · refine .inl ⟨hd, ?_⟩
    by_contra hlt
    exact hnot (List.mem_map.mpr ⟨d, List.mem_filter.mpr ⟨hd, by simpa using hlt⟩, rfl⟩)
  · exact .inr hd

theorem baselineAt_mem {id : ℕ} (hid : ∀ d ∈ t.snapshotHistory, d.id < id) :
    baselineAt id t cutoff c ∈ (applyWrites (Docs.rebaseline id t cutoff c) t).snapshotHistory := by
  simp only [applyWrites, Docs.rebaseline, List.foldl_cons, List.foldl_nil, Write.apply,
    List.mem_filter, List.mem_append, List.mem_singleton, decide_eq_true_eq, List.mem_map,
    or_true, true_and, not_exists, not_and, and_imp]
  exact fun d hd _ heq => (hid d hd).ne heq

theorem mem_rebaseline_history {id : ℕ} (x : UpdateRow Y) :
    x ∈ (applyWrites (Docs.rebaseline id t cutoff c) t).historyUpdates ↔
      x ∈ t.historyUpdates ∧ (baselineAt id t cutoff c).throughUpdateId < x.id := by
  simp only [applyWrites, Docs.rebaseline, List.foldl_cons, List.foldl_nil, Write.apply,
    List.mem_filter, decide_eq_true_eq, List.mem_map, not_exists, not_and, and_imp]
  refine and_congr_right fun hx => ⟨fun hnot => ?_, fun hlt y _ hle heq => ?_⟩
  · by_contra hle
    exact hnot x hx (not_lt.mp hle) rfl
  · rw [heq] at hle
    exact absurd hlt (not_lt.mpr hle)

theorem HistInv.rebaseline (hY : Y.Lawful)
    (h : HistInv snapshot₀ L nextId nextCheckpointId H haf t)
    (hc : ChosenInv snapshot₀ L H haf cutoff c) :
    HistInv snapshot₀ L nextId (nextCheckpointId + 1)
      (Docs.baselineAt nextCheckpointId t cutoff c).throughUpdateId cutoff
      (applyWrites (Docs.rebaseline nextCheckpointId t cutoff c) t) := by
  have hnew := hc.baselineAt hY h
  have hle : H ≤ (Docs.baselineAt nextCheckpointId t cutoff c).throughUpdateId :=
    hc.kept.trans (foldedThrough_spec cutoff h hc.kept hc.checkpoint.through).1
  obtain ⟨a, hdocs, ha⟩ := h.docs
  refine ⟨h.sorted, h.pos, h.bound, h.next, h.pending, hnew.through, ?_, ?_, ?_, ?_, ?_⟩
  · intro x
    rw [mem_rebaseline_history, h.history]
    constructor
    · rintro ⟨⟨r, hr, -, rfl⟩, hlt⟩
      exact ⟨r, hr, hlt, rfl⟩
    · rintro ⟨r, hr, hlt, rfl⟩
      exact ⟨⟨r, hr, hle.trans_lt hlt, rfl⟩, hlt⟩
  · exact ⟨cutoff, by simp [applyWrites, Docs.rebaseline, Write.apply, hdocs], hc.date⟩
  · exact ⟨_, baselineAt_mem h.checkpointIds, rfl, rfl, le_rfl⟩
  · intro d hd
    rcases mem_rebaseline_checkpoints hd with ⟨hd, hrep⟩ | rfl
    · have hdi := h.checkpoints d hd
      refine ⟨hdi.state, hdi.through, hdi.current, fun hne => ?_, fun hlt =>
        hdi.later (hc.advances.trans hlt)⟩
      have hlt : cutoff < d.representedAt := lt_of_le_of_ne hrep (Ne.symm hne)
      obtain ⟨r, hr, hid, hdate⟩ := hdi.later (hc.advances.trans hlt)
      by_contra hgt
      have := hnew.current r hr (hid ▸ (not_le.mp hgt).le)
      exact absurd hlt (not_lt.mpr (hdate ▸ this))
    · exact hnew
  · intro d hd
    rcases mem_rebaseline_checkpoints hd with ⟨hd, -⟩ | rfl
    · exact (h.checkpointIds d hd).trans (Nat.lt_succ_self _)
    · exact Nat.lt_succ_self _

end rebaseline

end Docs

end Semprec
