import Semprec.Lib.Pages
import Semprec.ModuleDataMigration

/-!
# When a recorded migration is complete

Behind the cursor of the second pass every item is converted.  A batch takes all its statement found
up to its last row, so the cursor passes only items that are converted and items that were inserted
since the statement; a condition on those makes the recorded migration complete.
-/

namespace Semprec

namespace ModuleDataMigration

variable {P : Type} {converter : P → P} {pageSize : ℕ} {s s' : Sys P}
  {item : Item P} {now : ℤ}

/-! ## A row -/

section

variable [DecidableEq P]

theorem convertItem_original : (convertItem converter now item).original = item.original := by
  unfold convertItem
  split_ifs <;> rfl

theorem convertItem_properties :
    (convertItem converter now item).properties = converter item.properties := by
  unfold convertItem
  split_ifs with h
  · exact h.symm
  · rfl

end

/-! ## The invariant -/

def Item.Valid (converter : P → P) (item : Item P) : Prop :=
  item.properties = item.original ∨ item.properties = converter item.original

theorem Item.Valid.of_fits (hv : item.Valid converter) (hf : item.Fits converter) :
    item.properties = converter item.original := by
  rcases hv with h | h
  · rw [← h]
    exact hf.symm
  · exact h

theorem Item.Valid.convert (hv : item.Valid converter)
    (hidem : ∀ p, converter (converter p) = converter p) :
    converter item.properties = converter item.original := by
  rcases hv with h | h
  · rw [h]
  · rw [h, hidem]

structure Inv (converter : P → P) (s : Sys P) : Prop where
  valid : ∀ item ∈ s.items, item.Valid converter
  behind : s.readProgress.pass = .two → ∀ item ∈ s.items,
    s.readProgress.Behind item.id → item.properties = converter item.original
  sorted : ∀ found held, s.runner = some (.batch found held) → found.Pairwise (· ≤ ·)
  finished : s.runner = some .finished → s.readProgress.pass = .two

theorem inv_init (items : List (ℕ × P)) : Inv converter (.init items) where
  valid := fun item h => by
    obtain ⟨i, -, rfl⟩ := List.mem_map.mp h
    exact .inl rfl
  behind := fun h => nomatch h
  sorted := fun _ _ h => nomatch h
  finished := fun h => nomatch h

theorem Inv.insert (hi : Inv converter s) {id : ℕ} {properties : P}
    (hok : NoneBehind converter pageSize s (.insert id properties)) :
    Inv converter { s with items := s.items ++ [⟨id, properties, properties, 0⟩] } where
  valid := fun item h => by
    rcases List.mem_append.mp h with h | h
    · exact hi.valid item h
    · rw [List.mem_singleton.mp h]
      exact .inl rfl
  behind := fun hp item h hc => by
    rcases List.mem_append.mp h with h | h
    · exact hi.behind hp item h hc
    · rw [List.mem_singleton.mp h] at hc ⊢
      exact (hok hp hc).symm
  sorted := hi.sorted
  finished := hi.finished

theorem Inv.setRunner (hi : Inv converter s) {locked : List ℕ} {runner : Option Runner}
    (hsorted : ∀ found held, runner = some (.batch found held) → found.Pairwise (· ≤ ·))
    (hfinished : runner = some .finished → s.readProgress.pass = .two) :
    Inv converter { s with locked := locked, runner := runner } where
  valid := hi.valid
  behind := hi.behind
  sorted := hsorted
  finished := hfinished

theorem nextProgress_two {progress : Progress} {rows : List ℕ}
    (h : (nextProgress pageSize progress rows).1.pass = .two)
    (hc : (nextProgress pageSize progress rows).1.cursor ≠ none) :
    progress.pass = .two ∧
      (nextProgress pageSize progress rows).1.cursor = (rows.getLast? <|> progress.cursor) := by
  unfold nextProgress at h hc ⊢
  dsimp only at h hc ⊢
  split_ifs at h hc ⊢ with hfull hone
  · exact ⟨h, rfl⟩
  · exact absurd rfl hc
  · refine ⟨?_, rfl⟩
    cases hp : progress.pass with
    | one => exact absurd hp hone
    | two => rfl

theorem nextProgress_last {progress : Progress} {rows : List ℕ}
    (h : (nextProgress pageSize progress rows).2 = true) :
    (nextProgress pageSize progress rows).1.pass = .two := by
  unfold nextProgress at h ⊢
  dsimp only at h ⊢
  split_ifs at h ⊢
  rfl

theorem Inv.commitBatch [DecidableEq P] (hi : Inv converter s)
    (hidem : ∀ p, converter (converter p) = converter p) {found held skipped : List ℕ}
    (hrunner : s.runner = some (.batch found held))
    (hskip : s.readProgress.pass = .two → skipped = [])
    (hok : NoneBehind converter pageSize s (.commitBatch skipped now))
    {rows : List ℕ} (hrows : rows = (found.filter (· ∉ skipped)).take pageSize) :
    Inv converter { s with
      items := s.items.map fun item =>
        if item.id ∈ rows then convertItem converter now item else item
      progress := some (nextProgress pageSize s.readProgress rows).1
      runner := some (if (nextProgress pageSize s.readProgress rows).2 then .finished
        else .between) } := by
  refine ⟨fun item h => ?_, fun hp item h hb => ?_, fun found held h => ?_, fun h => ?_⟩
  · obtain ⟨item, hitem, rfl⟩ := List.mem_map.mp h
    have hv := hi.valid item hitem
    split_ifs
    · exact .inr (by rw [convertItem_properties, convertItem_original, hv.convert hidem])
    · exact hv
  · obtain ⟨item, hitem, rfl⟩ := List.mem_map.mp h
    have hv := hi.valid item hitem
    by_cases hin : item.id ∈ rows
    · rw [if_pos hin, convertItem_properties, convertItem_original, hv.convert hidem]
    · rw [if_neg hin] at hb ⊢
      obtain ⟨cursor, hcursor, hle⟩ := hb
      change cursor ∈ (nextProgress pageSize s.readProgress rows).1.cursor at hcursor
      obtain ⟨htwo, hmoved⟩ := nextProgress_two hp (by rw [Option.mem_def.mp hcursor]; nofun)
      by_cases hbehind : s.readProgress.Behind item.id
      · exact hi.behind htwo item hitem hbehind
      rw [hmoved] at hcursor
      rw [hskip htwo] at hrows
      simp only [List.not_mem_nil, not_false_eq_true, decide_true, List.filter_true] at hrows
      cases hlast : rows.getLast? with
      | none =>
        rw [hlast] at hcursor
        exact absurd ⟨cursor, hcursor, hle⟩ hbehind
      | some last =>
        rw [hlast] at hcursor
        cases hcursor
        rw [hrows] at hlast hin
        have hnew : item.id ∉ found := fun hmem =>
          hin (mem_take_of_le_getLast (hi.sorted found held hrunner) hmem hlast hle)
        exact hv.of_fits
          (hok found held hrunner htwo item hitem hnew hbehind ⟨cursor, hlast, hle⟩)
  · change some (if _ then _ else _) = _ at h
    split_ifs at h <;> cases h
  · change (nextProgress pageSize s.readProgress rows).1.pass = .two
    change some (if _ then _ else _) = _ at h
    split_ifs at h with hlast
    · exact nextProgress_last hlast
    · cases h

theorem inv_preserved [DecidableEq P] (hidem : ∀ p, converter (converter p) = converter p)
    (hi : Inv converter s) {a : Act P} (hok : NoneBehind converter pageSize s a)
    (hs : step converter pageSize s a = some s') : Inv converter s' := by
  cases a with
  | insert id properties =>
    simp only [step] at hs
    split_ifs at hs
    cases hs
    exact hi.insert hok
  | lock id =>
    cases hs
    refine hi.setRunner (fun found held h => ?_) fun h => ?_
    · obtain ⟨runner, hr, h⟩ := Option.map_eq_some_iff.mp h
      cases runner with
      | batch found' held' =>
        cases h
        exact hi.sorted _ _ hr
      | between => cases h
      | finished => cases h
    · obtain ⟨runner, hr, h⟩ := Option.map_eq_some_iff.mp h
      cases runner with
      | finished => exact hi.finished hr
      | between => cases h
      | batch => cases h
  | unlock id =>
    cases hs
    exact hi.setRunner hi.sorted hi.finished
  | run =>
    simp only [step] at hs
    split_ifs at hs
    cases hs
    exact hi.setRunner (fun _ _ h => nomatch h) fun h => nomatch h
  | lockItemBatch =>
    simp only [step] at hs
    split_ifs at hs
    cases hs
    refine hi.setRunner (fun found held h => ?_) fun h => nomatch h
    cases h
    exact List.pairwise_insertionSort _ _
  | commitBatch skipped now =>
    simp only [step] at hs
    split at hs
    case h_1 found held hrunner =>
      split at hs
      case isTrue hc =>
        cases hs
        exact hi.commitBatch hidem hrunner hc.2.1 hok rfl
      case isFalse => cases hs
    case h_2 => cases hs
  | record =>
    simp only [step] at hs
    split_ifs at hs
    cases hs
    exact ⟨hi.valid, nofun, nofun, nofun⟩
  | crash =>
    obtain ⟨runner, -, rfl⟩ := Option.map_eq_some_iff.mp hs
    exact hi.setRunner (fun _ _ h => nomatch h) fun h => nomatch h

/-- At the moment the migration is recorded every item has been converted, if no item that the
converter changes was inserted behind the second pass. -/
theorem complete_of_recorded [DecidableEq P] (converter : P → P)
    (hidem : ∀ p, converter (converter p) = converter p) (pageSize : ℕ) (items : List (ℕ × P))
    (s s' : Sys P)
    (hs : Reach (step converter pageSize) (NoneBehind converter pageSize) (.init items) s)
    (hok : NoneBehind converter pageSize s .record)
    (hrecord : step converter pageSize s .record = some s') : s'.Converted converter := by
  have hi : Inv converter s := hs.invariant (inv_init items) fun _ _ _ hi hok hs =>
    inv_preserved hidem hi hok hs
  simp only [step] at hrecord
  split_ifs at hrecord with hfinished
  cases hrecord
  intro item hitem
  by_cases hbehind : s.readProgress.Behind item.id
  · exact hi.behind (hi.finished hfinished) item hitem hbehind
  · exact (hi.valid item hitem).of_fits (hok item hitem hbehind)

/-! ## Two runs -/

def toTarget : Bool → Bool := fun _ => true

def noneBehindCheck (s : Sys Bool) : Act Bool → Bool
  | .insert _ _ => s.readProgress.pass = .one
  | .commitBatch _ _ => s.runner.all fun
    | .batch found _ => s.items.all fun item => item.id ∈ found ∨ s.readProgress.Behind item.id
    | _ => true
  | .record => s.items.all fun item => s.readProgress.Behind item.id
  | _ => true

theorem noneBehind_of_check (s : Sys Bool) (a : Act Bool) (h : noneBehindCheck s a = true) :
    NoneBehind toTarget 1 s a := by
  cases a with
  | insert id properties =>
    intro htwo
    rw [show s.readProgress.pass = .one from of_decide_eq_true h] at htwo
    cases htwo
  | commitBatch skipped now =>
    intro found held hrunner htwo item hitem hnew hbehind
    simp only [noneBehindCheck, hrunner, Option.all_some, List.all_eq_true,
      decide_eq_true_eq] at h
    exact absurd (h item hitem) (not_or.mpr ⟨hnew, hbehind⟩)
  | record =>
    intro item hitem hbehind
    simp only [noneBehindCheck, List.all_eq_true, decide_eq_true_eq] at h
    exact absurd (h item hitem) hbehind
  | _ => trivial

def insertedInPassOne : List (Act Bool) :=
  [.run, .lockItemBatch, .commitBatch [] 0, .insert 0 false, .lockItemBatch, .commitBatch [] 0,
    .lockItemBatch, .commitBatch [] 0, .lockItemBatch, .commitBatch [] 0, .lockItemBatch,
    .commitBatch [] 0, .lockItemBatch, .commitBatch [] 0, .lockItemBatch, .commitBatch [] 0]

theorem complete_insertedInPassOne : ∃ s s', runActs (step toTarget 1)
    (.init [(1, false), (3, false)]) insertedInPassOne = some s ∧
      step toTarget 1 s .record = some s' ∧ s'.items.length = 3 ∧ s'.Converted toTarget := by
  obtain ⟨s, hs⟩ := Option.isSome_iff_exists.mp (show (runChecked (step toTarget 1)
    noneBehindCheck (.init [(1, false), (3, false)]) insertedInPassOne).isSome = true by
      decide +kernel)
  have hcheck : noneBehindCheck s .record = true :=
    eq_of_map_eq (f := fun s => noneBehindCheck s .record) hs (by decide +kernel)
  have hlength : (step toTarget 1 s .record).map (·.items.length) = some 3 :=
    eq_of_map_eq (f := fun s => (step toTarget 1 s .record).map (·.items.length)) hs
      (by decide +kernel)
  obtain ⟨s', hrecord, hitems⟩ := Option.map_eq_some_iff.mp hlength
  exact ⟨s, s', runActs_of_runChecked hs, hrecord, hitems,
    complete_of_recorded toTarget (fun _ => rfl) 1 _ s s'
      (.of_runChecked noneBehind_of_check hs) (noneBehind_of_check s .record hcheck) hrecord⟩

def insertedInPassTwo : List (Act Bool) :=
  [.run, .lockItemBatch, .commitBatch [] 0, .lockItemBatch, .insert 5 false, .commitBatch [] 0]

/-- The migration is recorded, and the item is not converted. -/
theorem recorded_unconverted : ¬ ∀ converter : Bool → Bool,
    (∀ p, converter (converter p) = converter p) → ∀ pageSize items s s',
      Reach (step converter pageSize) (fun _ _ => True) (.init items) s →
        step converter pageSize s .record = some s' → s'.Converted converter := by
  intro hall
  obtain ⟨s, hs⟩ := Option.isSome_iff_exists.mp (show (runActs (step toTarget 2)
    (.init [(1, false)]) insertedInPassTwo).isSome = true by decide +kernel)
  have hafter : (step toTarget 2 s .record).map (fun s => s.items.map (·.properties)) =
      some [true, false] :=
    eq_of_map_eq (f := fun s => (step toTarget 2 s .record).map fun s =>
      s.items.map (·.properties)) hs (by decide +kernel)
  obtain ⟨s', hrecord, hproperties⟩ := Option.map_eq_some_iff.mp hafter
  have hconverted := hall toTarget (fun _ => rfl) 2 _ s s' (.of_runActs hs) hrecord
  have hmem : false ∈ s'.items.map (·.properties) := by
    rw [hproperties]
    exact .tail _ (.head _)
  obtain ⟨item, hitem, hfalse⟩ := List.mem_map.mp hmem
  rw [hconverted item hitem] at hfalse
  cases hfalse

end ModuleDataMigration

end Semprec
