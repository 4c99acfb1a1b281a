import Semprec.ItemVersions

/-!
# What `ifVersion` guards against

Every version that was read is followed through the changes committed since (`Matches`): as long as
the properties were not written it is the row's, and afterwards the row's version is that of the
last write.
-/

namespace Semprec

namespace ItemVersions

variable {s s' : Sys} {h h' : Hold} {v now : ℤ} {k n : ℕ} {cs ds : List Change} {c : Change}
  {row row' : ItemRow} {t : ℕ} {ifVersion : Option ℤ} {patch : JsonObject}

theorem lastWrite_append : lastWrite (cs ++ ds) = (lastWrite ds <|> lastWrite cs) := by
  induction cs with
  | nil => cases h : lastWrite ds <;> simp [lastWrite, h]
  | cons c cs ih =>
    simp only [List.cons_append, lastWrite, ih]
    cases lastWrite ds <;> simp

theorem not_mem_of_lastWrite (h : lastWrite cs = none) : .properties now ∉ cs := by
  intro hmem
  obtain ⟨ds, es, rfl⟩ := List.mem_iff_append.mp hmem
  rw [lastWrite_append] at h
  cases hes : lastWrite es <;> simp [lastWrite, hes] at h

def Matches (v : ℤ) (cs : List Change) (row : ItemRow) : Prop :=
  match lastWrite cs with
  | none => toISOString row.updatedAt = v
  | some now => row.updatedAt = now

theorem matches_nil (row : ItemRow) : Matches (toISOString row.updatedAt) [] row := rfl

theorem Matches.version {w : ℤ} (hm : Matches v cs row) (hw : toISOString row.updatedAt = w)
    (hl : lastWrite cs = some now) : toISOString now = w := by
  unfold Matches at hm
  rw [hl] at hm
  rw [← hm, hw]

/-- How a change moves the row's `updated_at`. -/
def Change.Moves (c : Change) (row row' : ItemRow) : Prop :=
  match c with
  | .properties now => row'.updatedAt = now
  | _ => row'.updatedAt = row.updatedAt

theorem Matches.snoc (hm : Matches v cs row) (hc : c.Moves row row') :
    Matches v (cs ++ [c]) row' := by
  unfold Matches at hm ⊢
  rw [lastWrite_append]
  cases c with
  | properties now => exact hc
  | computed | deletedAt =>
    simp only [Change.Moves] at hc
    simp only [lastWrite, hc]
    exact hm

theorem RowWrite.moves (now : ℤ) (row : ItemRow) (w : RowWrite) :
    (w.change now).Moves row (w.apply now row) := by
  cases w with
  | properties f => rfl
  | computed key value => rfl
  | softDelete =>
    simp only [RowWrite.change, RowWrite.apply, Change.Moves]
    split <;> rfl
  | restore => rfl

/-! ## The invariant -/

structure HoldOk (row : ItemRow) (history : List Change) (reads : List (ℤ × ℕ)) (h : Hold) :
    Prop where
  own : Matches (toISOString row.updatedAt) h.changes h.row
  since : ∀ v n, (v, n) ∈ reads → Matches v (history.drop n ++ h.changes) h.row
  count : ∀ v k, (v, k) ∈ h.passed → k ≤ h.changes.length
  mine : ∀ v k, (v, k) ∈ h.passed → ∀ now, lastWrite (h.changes.take k) = some now →
    toISOString now = v
  guarded : ∀ v k, (v, k) ∈ h.passed → ∀ n, (v, n) ∈ reads → ∀ now,
    lastWrite (history.drop n ++ h.changes.take k) = some now → toISOString now = v

structure Inv (s : Sys) : Prop where
  count : ∀ v n, (v, n) ∈ s.reads → n ≤ s.history.length
  since : ∀ v n, (v, n) ∈ s.reads → Matches v (s.history.drop n) s.row
  hold : ∀ h, s.hold = some h → HoldOk s.row s.history s.reads h

theorem inv_init (row : ItemRow) : Inv (.init row) where
  count := fun _ _ h => by cases h
  since := fun _ _ h => by cases h
  hold := fun _ h => by cases h

theorem Inv.lock (hi : Inv s) (hl : s.lock t = some h) : HoldOk s.row s.history s.reads h := by
  unfold Sys.lock at hl
  cases hh : s.hold with
  | none =>
    rw [hh] at hl
    cases hl
    exact {
      own := matches_nil _
      since := fun v n hr => by
        rw [List.append_nil]
        exact hi.since v n hr
      count := fun _ _ hp => by cases hp
      mine := fun _ _ hp => by cases hp
      guarded := fun _ _ hp => by cases hp }
  | some g =>
    rw [hh] at hl
    simp only [] at hl
    split_ifs at hl
    cases hl
    exact hi.hold h hh

theorem Inv.setHold (hi : Inv s) (hh : HoldOk s.row s.history s.reads h) :
    Inv { s with hold := some h } where
  count := hi.count
  since := hi.since
  hold := fun g hg => by
    cases hg
    exact hh

theorem Inv.rollback (hi : Inv s) (t : ℕ) : Inv (s.rollback t) where
  count := hi.count
  since := hi.since
  hold := fun h hh => hi.hold h (Option.filter_eq_some_iff.mp hh).1

theorem HoldOk.change {history : List Change} {reads : List (ℤ × ℕ)}
    (hh : HoldOk row history reads h) (hc : c.Moves h.row row') :
    HoldOk row history reads { h with row := row', changes := h.changes ++ [c] } where
  own := hh.own.snoc hc
  since := fun v n hr => by
    rw [← List.append_assoc]
    exact (hh.since v n hr).snoc hc
  count := fun v k hp => by
    have hk := hh.count v k hp
    simp only [List.length_append]
    omega
  mine := fun v k hp => by
    rw [List.take_append_of_le_length (hh.count v k hp)]
    exact hh.mine v k hp
  guarded := fun v k hp => by
    rw [List.take_append_of_le_length (hh.count v k hp)]
    exact hh.guarded v k hp

theorem HoldOk.pass {history : List Change} {reads : List (ℤ × ℕ)}
    (hh : HoldOk row history reads h) (hv : toISOString h.row.updatedAt = v) :
    HoldOk row history reads { h with passed := h.passed ++ [(v, h.changes.length)] } where
  own := hh.own
  since := hh.since
  count := fun v k hp => by
    rcases List.mem_append.mp hp with hp | hp
    · exact hh.count v k hp
    · cases List.mem_singleton.mp hp
      exact le_refl _
  mine := fun v k hp now hl => by
    rcases List.mem_append.mp hp with hp | hp
    · exact hh.mine v k hp now hl
    · cases List.mem_singleton.mp hp
      rw [List.take_length] at hl
      exact hh.own.version hv hl
  guarded := fun v k hp n hr now hl => by
    rcases List.mem_append.mp hp with hp | hp
    · exact hh.guarded v k hp n hr now hl
    · cases List.mem_singleton.mp hp
      rw [List.take_length] at hl
      exact (hh.since v n hr).version hv hl

theorem lockUpdatable_only : Items.lockUpdatable { Store.empty with items := [row] } row.databaseId
    row.id ifVersion =
      if row.deletedAt = none then
        if ifVersion.any fun v => v ≠ toISOString row.updatedAt then
          .error (.conflictError "Item was modified since ifVersion was read"
            (some (.obj [("current", Items.itemJson row)])))
        else .ok row
      else .error (.notFoundError s!"Item {row.id} not found" none) := by
  have hfind : ({ Store.empty with items := [row] } : Store).getItemById row.databaseId row.id =
      some row := by
    simp [Store.getItemById, ItemRow.isAt]
  unfold Items.lockUpdatable
  rw [hfind]
  by_cases hd : row.deletedAt = none
  · simp [Option.filter, hd]
  · simp [Option.filter, hd]

theorem updateItemProperties_ok (hu : Sys.updateItemProperties h now ifVersion patch = .ok h') :
    (∀ v ∈ ifVersion, toISOString h.row.updatedAt = v) ∧
      h' = { h with
        row := { h.row with properties := h.row.properties.merge patch, updatedAt := now }
        changes := h.changes ++ [.properties now]
        passed := h.passed ++ ifVersion.toList.map fun v => (v, h.changes.length) } := by
  unfold Sys.updateItemProperties at hu
  rw [lockUpdatable_only] at hu
  split_ifs at hu with hd hv
  · cases hu
  · cases hu
    refine ⟨fun v hm => ?_, rfl⟩
    cases hm
    by_contra hne
    refine hv ?_
    simp only [Option.any_some, decide_eq_true_eq]
    exact fun h => hne h.symm
  · cases hu

/-! ## The steps -/

theorem HoldOk.update {history : List Change} {reads : List (ℤ × ℕ)}
    (hh : HoldOk row history reads h)
    (hu : Sys.updateItemProperties h now ifVersion patch = .ok h') :
    HoldOk row history reads h' := by
  obtain ⟨hv, rfl⟩ := updateItemProperties_ok hu
  cases ifVersion with
  | none =>
    simp only [Option.toList_none, List.map_nil, List.append_nil]
    exact hh.change (c := .properties now) rfl
  | some v => exact (hh.pass (hv v rfl)).change (c := .properties now) rfl

theorem Inv.commit (hi : Inv s) (hh : s.hold = some h) (t : ℕ) : Inv { s with
    row := h.row
    history := s.history ++ h.changes
    started := Function.update s.started t none
    hold := none } where
  count := fun v n hr => by
    have hn := hi.count v n hr
    simp only [List.length_append]
    omega
  since := fun v n hr => by
    rw [List.drop_append_of_le_length (hi.count v n hr)]
    exact (hi.hold h hh).since v n hr
  hold := fun _ hg => by cases hg

theorem Inv.read (hi : Inv s) : Inv { s with
    reads := s.reads ++ [(toISOString s.row.updatedAt, s.history.length)] } where
  count := fun v n hr => by
    rcases List.mem_append.mp hr with hr | hr
    · exact hi.count v n hr
    · cases List.mem_singleton.mp hr
      exact le_refl _
  since := fun v n hr => by
    rcases List.mem_append.mp hr with hr | hr
    · exact hi.since v n hr
    · cases List.mem_singleton.mp hr
      rw [List.drop_length]
      exact matches_nil _
  hold := fun h hh => by
    have hok := hi.hold h hh
    refine { hok with since := fun v n hr => ?_, guarded := fun v k hp n hr now hl => ?_ }
    · rcases List.mem_append.mp hr with hr | hr
      · exact hok.since v n hr
      · cases List.mem_singleton.mp hr
        rw [List.drop_length]
        exact hok.own
    · rcases List.mem_append.mp hr with hr | hr
      · exact hok.guarded v k hp n hr now hl
      · cases List.mem_singleton.mp hr
        rw [List.drop_length] at hl
        exact hok.mine _ k hp now hl

theorem inv_preserved (hi : Inv s) {a : Act} (hs : step s a = some s') : Inv s' := by
  cases a with
  | begin t now =>
    simp only [step] at hs
    split_ifs at hs
    cases hs
    exact ⟨hi.count, hi.since, hi.hold⟩
  | lockItem t =>
    obtain ⟨now, -, hs⟩ := Option.bind_eq_some_iff.mp hs
    obtain ⟨h, hl, rfl⟩ := Option.map_eq_some_iff.mp hs
    exact hi.setHold (hi.lock hl)
  | update t ifVersion patch =>
    obtain ⟨now, -, hs⟩ := Option.bind_eq_some_iff.mp hs
    obtain ⟨h, hl, rfl⟩ := Option.map_eq_some_iff.mp hs
    cases hu : Sys.updateItemProperties h now ifVersion patch with
    | ok h' => exact hi.setHold ((hi.lock hl).update hu)
    | error e => exact hi.rollback t
  | write t w =>
    obtain ⟨now, -, hs⟩ := Option.bind_eq_some_iff.mp hs
    obtain ⟨h, hl, rfl⟩ := Option.map_eq_some_iff.mp hs
    exact hi.setHold ((hi.lock hl).change (w.moves now h.row))
  | commit t =>
    obtain ⟨now, -, rfl⟩ := Option.map_eq_some_iff.mp hs
    cases hh : s.hold.filter (·.t = t) with
    | none => exact ⟨hi.count, hi.since, hi.hold⟩
    | some h => exact hi.commit (Option.filter_eq_some_iff.mp hh).1 t
  | rollback t =>
    obtain ⟨now, -, rfl⟩ := Option.map_eq_some_iff.mp hs
    exact hi.rollback t
  | read =>
    cases hs
    exact hi.read

theorem Inv.isGuarded (hi : Inv s) : s.Guarded := by
  intro h hh v k hp n hr
  cases hl : lastWrite (s.history.drop n ++ h.changes.take k) with
  | none => exact .inl fun now => not_mem_of_lastWrite hl
  | some now => exact .inr ⟨now, rfl, (hi.hold h hh).guarded v k hp n hr now hl⟩

/-- An update that carries a version is committed only if its read was followed by no write of the
properties, or last by one of a transaction begun in the version's own millisecond; over a live row
of another version it fails with a conflict, and the row stays as it was. -/
theorem guarded (row : ItemRow) (s : Sys) (hs : Reach step (fun _ _ => True) (.init row) s) :
    s.Guarded ∧ ∀ t now v patch h, s.started t = some now → s.lock t = some h →
      h.row.deletedAt = none → v ≠ toISOString h.row.updatedAt →
        Sys.updateItemProperties h now (some v) patch =
          .error (.conflictError "Item was modified since ifVersion was read"
            (some (.obj [("current", Items.itemJson h.row)]))) ∧
        step s (.update t (some v) patch) = some (s.rollback t) ∧
        (s.rollback t).row = s.row ∧ (s.rollback t).history = s.history := by
  have hi : Inv s := hs.invariant (inv_init row) fun s a s' hi _ hs => inv_preserved hi hs
  refine ⟨hi.isGuarded, ?_⟩
  intro t now v patch h hstart hl hd hv
  have hfail : Sys.updateItemProperties h now (some v) patch =
      .error (.conflictError "Item was modified since ifVersion was read"
        (some (.obj [("current", Items.itemJson h.row)]))) := by
    unfold Sys.updateItemProperties
    rw [lockUpdatable_only, if_pos hd, if_pos (by simpa using hv)]
    rfl
  refine ⟨hfail, ?_, rfl, rfl⟩
  simp only [step, hstart, hl, Option.bind_some, Option.map_some, hfail]

def newRow : ItemRow := ⟨0, 0, [], [], 0, none⟩

def overtaken : List Act :=
  [.read, .begin 0 5000, .write 0 (.properties fun p => p), .commit 0, .begin 1 6000]

theorem guarded_overtaken : ∃ s, runActs step (.init newRow) overtaken = some s ∧ s.Guarded ∧
    step s (.update 1 (some 0) []) = some (s.rollback 1) := by
  obtain ⟨s, hs⟩ := Option.isSome_iff_exists.mp
    (show (runActs step (.init newRow) overtaken).isSome = true from rfl)
  have hstart : s.started 1 = some 6000 := eq_of_map_eq (f := fun s => s.started 1) hs rfl
  have hlock : s.lock 1 = some ⟨1, { newRow with updatedAt := 5000 }, [], []⟩ :=
    eq_of_map_eq (f := fun s => s.lock 1) hs rfl
  have hg := guarded newRow s (.of_runActs hs)
  exact ⟨s, hs, hg.1, (hg.2 1 6000 0 [] _ hstart hlock rfl (by decide)).2.1⟩

def recomputed : List Act :=
  [.read, .begin 0 5000, .write 0 (.computed "total" .null), .commit 0, .begin 1 6000,
    .update 1 (some 0) []]

/-- The version does not move when another transaction changes the row's computed values. -/
theorem update_over_recomputed :
    ¬ ∀ (row : ItemRow) (s : Sys), Reach step (fun _ _ => True) (.init row) s → s.NoChange := by
  intro hall
  obtain ⟨s, hs⟩ := Option.isSome_iff_exists.mp
    (show (runActs step (.init newRow) recomputed).isSome = true from rfl)
  have hpassed : s.hold.map (·.passed) = some [(0, 0)] :=
    eq_of_map_eq (f := fun s => s.hold.map (·.passed)) hs rfl
  have hreads : s.reads = [(0, 0)] := eq_of_map_eq (f := Sys.reads) hs rfl
  have hhistory : s.history = [.computed] := eq_of_map_eq (f := Sys.history) hs rfl
  obtain ⟨h, hh, hp⟩ := Option.map_eq_some_iff.mp hpassed
  have hempty := hall newRow s (.of_runActs hs) h hh 0 0 (by simp [hp]) 0 (by simp [hreads])
  simp [hhistory] at hempty

end ItemVersions

end Semprec
