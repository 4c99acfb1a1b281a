import Mathlib.Tactic.IntervalCases
import Semprec.Lib.Pages
import Semprec.PropertyTypeMigration

/-!
# Which values a migration with retries converts

An attempt knows what an earlier one has converted by its shape alone.  Where only the conversion
makes values of that shape, and all it makes have it, each value is converted once: behind the
cursor of an attempt every value is the conversion of the one the item had.  Elsewhere a value that
only looks converted stays, and a converted one that does not is dropped by the next attempt.
-/

namespace Semprec

namespace PropertyTypeMigration

variable {host : Host} {source target : PropertyType} {s s' : Sys} {item : Item}
  {value value' : Json} {now ms : ℤ} {a : ℕ}

/-! ## The shape of what the conversion makes -/

theorem isDigit_ofNat (n : ℕ) : (Char.ofNat (48 + n % 10)).isDigit = true := by
  have h : n % 10 < 10 := Nat.mod_lt n (by decide)
  generalize n % 10 = digit at h
  interval_cases digit <;> rfl

theorem converted_toISOString (h : 0 ≤ utcYear ms ∧ utcYear ms ≤ 9999) :
    CONVERTED_DATE_SHAPE (toISOString ms) = true := by
  unfold utcYear at h
  have hshape : "dddd-dd-ddTdd:dd:dd.dddZ".toList =
    ['d', 'd', 'd', 'd', '-', 'd', 'd', '-', 'd', 'd', 'T', 'd', 'd', ':', 'd', 'd', ':', 'd', 'd',
      '.', 'd', 'd', 'd', 'Z'] := rfl
  simp only [CONVERTED_DATE_SHAPE, toISOString, isoYear, if_pos h, hshape, String.toList_ofList,
    digits, List.nil_append, List.cons_append, matchesShape, isDigit_ofNat]
  rfl

theorem iso_of_converted {text : String} (h : CONVERTED_DATE_SHAPE text = true) :
    ISO_8601_DATE text = true := by
  refine List.any_eq_true.mpr ⟨"Tdd:dd:dd.ddd" ++ "Z", List.mem_cons_of_mem _ ?_, h⟩
  exact List.mem_flatMap.mpr ⟨_, by simp, List.mem_map_of_mem List.mem_cons_self⟩

theorem convert_eq (hne : source ≠ target) :
    convertPropertyValue host source target value =
      (CONVERTERS host source target).bind fun converter => converter value := by
  unfold convertPropertyValue
  rw [if_neg hne]
  cases CONVERTERS host source target <;> rfl

theorem Fits.convert (h : Fits host source target value) (hne : source ≠ target)
    (hshape : isAlreadyTargetType target value = true) :
    convertPropertyValue host source target value = some value := by
  rw [convert_eq hne]
  have hfits := h.resolve_left hne
  split at hfits
  case h_1 text =>
    have hconverted : CONVERTED_DATE_SHAPE text = true := hshape
    rw [if_pos hconverted] at hfits
    obtain ⟨ms, hparsed, htext⟩ := Option.map_eq_some_iff.mp hfits
    simp only [CONVERTERS, Option.bind_some, iso_of_converted hconverted, if_true, hparsed,
      Option.map_some, htext]
  case h_2 =>
    cases value with
    | str text => rfl
    | _ => cases hshape
  case h_3 =>
    rw [hshape] at hfits
    cases hfits

theorem Fits.converted (h : Fits host source target value) (hne : source ≠ target)
    (hc : convertPropertyValue host source target value = some value') :
    isAlreadyTargetType target value' = true := by
  rw [convert_eq hne] at hc
  obtain ⟨converter, hconverter, hc⟩ := Option.bind_eq_some_iff.mp hc
  have hfits := h.resolve_left hne
  unfold CONVERTERS at hconverter
  split at hconverter <;> cases hconverter
  case h_1 =>
    cases value with
    | str text =>
      dsimp only at hc
      split_ifs at hc
      obtain ⟨n, -, rfl⟩ := Option.map_eq_some_iff.mp hc
      rfl
    | _ => cases hc
  case h_2 =>
    cases value with
    | str text =>
      dsimp only at hc hfits
      split_ifs at hc with hiso
      obtain ⟨ms, hparsed, rfl⟩ := Option.map_eq_some_iff.mp hc
      split_ifs at hfits with hconverted
      · rw [hparsed, Option.map_some, Option.some.injEq] at hfits
        show CONVERTED_DATE_SHAPE (toISOString ms) = true
        rw [hfits]
        exact hconverted
      · exact converted_toISOString (hfits hiso ms hparsed)
    | _ => cases hc
  case h_3 =>
    cases value with
    | num n =>
      cases hc
      rfl
    | _ => cases hc
  case h_4 =>
    cases value with
    | str text =>
      cases hc
      rfl
    | _ => cases hc

/-! ## A row -/

def Item.Converted (host : Host) (source target : PropertyType) (item : Item) : Prop :=
  item.value = item.original.bind (convertPropertyValue host source target)

def Item.Valid (host : Host) (source target : PropertyType) (item : Item) : Prop :=
  item.value = item.original ∨ item.Converted host source target

def Item.Fits (host : Host) (source target : PropertyType) (item : Item) : Prop :=
  ∀ value ∈ item.original, PropertyTypeMigration.Fits host source target value

theorem migrateItem_frame : (migrateItem host source target now item).1.id = item.id ∧
    (migrateItem host source target now item).1.original = item.original := by
  unfold migrateItem
  split
  · exact ⟨rfl, rfl⟩
  · split_ifs
    · exact ⟨rfl, rfl⟩
    · split <;> exact ⟨rfl, rfl⟩

@[simp] theorem migrateItem_id : (migrateItem host source target now item).1.id = item.id :=
  migrateItem_frame.1

@[simp] theorem migrateItem_original :
    (migrateItem host source target now item).1.original = item.original := migrateItem_frame.2

theorem migrateItem_gone (h : (migrateItem host source target now item).1.value = none) :
    item.value = none ∨ (migrateItem host source target now item).2 = true := by
  unfold migrateItem at h ⊢
  split at h
  case h_1 hnone => exact .inl hnone
  case h_2 =>
    split_ifs at h ⊢
    · exact .inl h
    · split at h
      · cases h
      · exact .inr rfl

theorem migrateItem_of_original (h : item.value = item.original)
    (hfit : item.Fits host source target) :
    (migrateItem host source target now item).1.Converted host source target ∧
      ((migrateItem host source target now item).2 = true →
        ∃ value ∈ item.original, convertPropertyValue host source target value = none) := by
  unfold Item.Converted
  rw [migrateItem_original]
  unfold migrateItem
  split
  case h_1 hnone =>
    rw [← h, hnone]
    exact ⟨rfl, nofun⟩
  case h_2 value hvalue =>
    rw [← h, hvalue, Option.bind_some]
    split_ifs with hskip
    · have hv : PropertyTypeMigration.Fits host source target value := hfit value (h ▸ hvalue)
      exact ⟨hvalue.trans (hv.convert hskip.1 hskip.2).symm, nofun⟩
    · split
      case h_1 value' hc => exact ⟨hc.symm, nofun⟩
      case h_2 hc => exact ⟨hc.symm, fun _ => ⟨value, rfl, hc⟩⟩

theorem migrateItem_of_converted (now : ℤ) (h : item.Converted host source target)
    (hfit : item.Fits host source target) :
    (migrateItem host source target now item).1.value = item.value ∧
      (migrateItem host source target now item).2 = false := by
  unfold migrateItem
  split
  case h_1 => exact ⟨rfl, rfl⟩
  case h_2 value hvalue =>
    unfold Item.Converted at h
    rw [hvalue] at h
    obtain ⟨original, horiginal, hc⟩ := Option.bind_eq_some_iff.mp h.symm
    by_cases hst : source = target
    · have hsame : convertPropertyValue host source target value = some value := by
        unfold convertPropertyValue
        exact if_pos hst
      rw [if_neg fun hskip => hskip.1 hst, hsame]
      exact ⟨hvalue.symm, rfl⟩
    · rw [if_pos ⟨hst, (hfit original horiginal).converted hst hc⟩]
      exact ⟨rfl, rfl⟩

/-! ## The job -/

structure Inv (host : Host) (source target : PropertyType) (s : Sys) : Prop where
  fits : ∀ item ∈ s.items, item.Fits host source target
  valid : ∀ item ∈ s.items, item.Valid host source target
  behind : ∀ a cursor, s.attempts a = some (.page (some cursor)) → ∀ item ∈ s.items,
    item.id ≤ cursor → item.Converted host source target
  ended : ∀ a, s.attempts a = some .settle → ∀ item ∈ s.items, item.Converted host source target
  dropped : s.droppedValues = true → ∃ item ∈ s.items, ∃ value ∈ item.original,
    convertPropertyValue host source target value = none
  gone : ∀ item ∈ s.items, item.value = none → item.original = none ∨ s.droppedValues = true
  finished : s.Finished → (∀ item ∈ s.items, item.Converted host source target) ∧
    (s.migrationStatus = .partial_ ↔ s.droppedValues = true)

theorem inv_init {items : List (ℕ × Option Json)}
    (hfits : ∀ i ∈ items, ∀ value ∈ i.2, Fits host source target value) :
    Inv host source target (.init items) where
  fits := fun item h => by
    obtain ⟨i, hi, rfl⟩ := List.mem_map.mp h
    exact hfits i hi
  valid := fun item h => by
    obtain ⟨i, -, rfl⟩ := List.mem_map.mp h
    exact .inl rfl
  behind := nofun
  ended := nofun
  dropped := nofun
  gone := fun item h hnone => by
    obtain ⟨i, -, rfl⟩ := List.mem_map.mp h
    exact .inl hnone
  finished := fun h => h.elim nofun nofun

namespace Inv

theorem setAttempt (h : Inv host source target s) {phase : Option Phase}
    (hphase : phase = none ∨ phase = some (.page none)) :
    Inv host source target (s.setAttempt a phase) := by
  have hold : ∀ b p, Function.update s.attempts a phase b = some p → p ≠ .page none →
      s.attempts b = some p := by
    intro b p hb hp
    by_cases hab : b = a
    · subst hab
      rw [Function.update_self] at hb
      rcases hphase with rfl | rfl
      · cases hb
      · exact absurd (Option.some.inj hb).symm hp
    · rwa [Function.update_of_ne hab] at hb
  exact { h with
    behind := fun b cursor hb => h.behind b cursor (hold b _ hb nofun)
    ended := fun b hb => h.ended b (hold b _ hb nofun) }

theorem setStatus (h : Inv host source target s) {status : MigrationStatus}
    (hfinished : status = .done ∨ status = .partial_ →
      (∀ item ∈ s.items, item.Converted host source target) ∧
        (status = .partial_ ↔ s.droppedValues = true)) :
    Inv host source target { s with migrationStatus := status } :=
  { h with finished := hfinished }

theorem mem_batch {cursor : Option ℕ} (hitem : item ∈ s.items) (hnot : item.id ∉ s.batch cursor) :
    (∃ c, cursor = some c ∧ item.id ≤ c) ∨ ∃ last, nextPhase (s.batch cursor) = .page (some last) ∧
      last < item.id := by
  rcases mem_pageAfter (by decide) (List.mem_map_of_mem hitem) hnot with hbehind | ⟨last, hlast, hfull, hlt⟩
  · exact .inl hbehind
  · refine .inr ⟨last, ?_, hlt⟩
    unfold nextPhase Sys.batch
    rw [hlast]
    exact if_neg hfull

theorem migrated (h : Inv host source target s) (hitem : item ∈ s.items) :
    (migrateItem host source target now item).1.Converted host source target ∧
      ((migrateItem host source target now item).2 = true →
        ∃ value ∈ item.original, convertPropertyValue host source target value = none) := by
  rcases h.valid item hitem with horiginal | hconverted
  · exact migrateItem_of_original horiginal (h.fits item hitem)
  · obtain ⟨hvalue, hkept⟩ := migrateItem_of_converted now hconverted (h.fits item hitem)
    refine ⟨?_, fun hdropped => absurd hdropped (Bool.eq_false_iff.mp hkept)⟩
    unfold Item.Converted
    rw [hvalue, migrateItem_original]
    exact hconverted

theorem commitBatch {cursor : Option ℕ} (h : Inv host source target s)
    (ha : s.attempts a = some (.page cursor)) {rows : List ℕ} (hrows : rows = s.batch cursor) :
    Inv host source target { s.setAttempt a (some (nextPhase rows)) with
      items := s.items.map fun item =>
        if item.id ∈ rows then (migrateItem host source target now item).1 else item
      droppedValues := s.droppedValues || s.items.any fun item =>
        item.id ∈ rows && (migrateItem host source target now item).2 } := by
  have hkeep : ∀ item ∈ s.items, item.Converted host source target →
      (if item.id ∈ rows then (migrateItem host source target now item).1 else item).Converted
        host source target := by
    intro item hitem hconverted
    split_ifs
    · exact (h.migrated hitem).1
    · exact hconverted
  -- what the page did not have is converted when the attempt has gone past it
  have hpast : ∀ item ∈ s.items, (∀ last, nextPhase rows = .page (some last) → item.id ≤ last) →
      (if item.id ∈ rows then (migrateItem host source target now item).1 else item).Converted
        host source target := by
    intro item hitem hle
    split_ifs with hin
    · exact (h.migrated hitem).1
    · rw [hrows] at hin hle
      rcases mem_batch hitem hin with ⟨c, rfl, hbehind⟩ | ⟨last, hnext, hlt⟩
      · exact h.behind a c ha item hitem hbehind
      · exact absurd (hle last hnext) (not_le_of_gt hlt)
  refine ⟨fun item hi => ?_, fun item hi => ?_, fun b c hb item hi hle => ?_,
    fun b hb item hi => ?_, fun hdropped => ?_, fun item hi hnone => ?_, fun hfinished => ?_⟩
  · obtain ⟨item, hitem, rfl⟩ := List.mem_map.mp hi
    split_ifs
    · unfold Item.Fits
      rw [migrateItem_original]
      exact h.fits item hitem
    · exact h.fits item hitem
  · obtain ⟨item, hitem, rfl⟩ := List.mem_map.mp hi
    split_ifs
    · exact .inr (h.migrated hitem).1
    · exact h.valid item hitem
  · obtain ⟨item, hitem, rfl⟩ := List.mem_map.mp hi
    have hid : item.id ≤ c := by
      split_ifs at hle
      · rwa [migrateItem_id] at hle
      · exact hle
    change Function.update s.attempts a _ b = _ at hb
    by_cases hab : b = a
    · subst hab
      rw [Function.update_self, Option.some.injEq] at hb
      refine hpast item hitem fun last hlast => ?_
      rw [hlast] at hb
      cases hb
      exact hid
    · rw [Function.update_of_ne hab] at hb
      exact hkeep item hitem (h.behind b c hb item hitem hid)
  · obtain ⟨item, hitem, rfl⟩ := List.mem_map.mp hi
    change Function.update s.attempts a _ b = _ at hb
    by_cases hab : b = a
    · subst hab
      rw [Function.update_self, Option.some.injEq] at hb
      refine hpast item hitem fun last hlast => ?_
      rw [hlast] at hb
      cases hb
    · rw [Function.update_of_ne hab] at hb
      exact hkeep item hitem (h.ended b hb item hitem)
  · have hfound : ∃ item ∈ s.items, ∃ value ∈ item.original,
        convertPropertyValue host source target value = none := by
      rcases Bool.or_eq_true_iff.mp hdropped with hold | hnew
      · exact h.dropped hold
      · obtain ⟨item, hitem, hdrop⟩ := List.any_eq_true.mp hnew
        exact ⟨item, hitem, (h.migrated hitem).2 (Bool.and_eq_true_iff.mp hdrop).2⟩
    obtain ⟨item, hitem, hvalue⟩ := hfound
    refine ⟨_, List.mem_map_of_mem hitem, ?_⟩
    split_ifs
    · rw [migrateItem_original]
      exact hvalue
    · exact hvalue
  · obtain ⟨item, hitem, rfl⟩ := List.mem_map.mp hi
    split_ifs at hnone ⊢ with hin
    · rw [migrateItem_original]
      rcases migrateItem_gone hnone with hgone | hdrop
      · exact (h.gone item hitem hgone).imp_right fun hold => Bool.or_eq_true_iff.mpr (.inl hold)
      · refine .inr (Bool.or_eq_true_iff.mpr (.inr (List.any_eq_true.mpr ⟨item, hitem, ?_⟩)))
        exact Bool.and_eq_true_iff.mpr ⟨decide_eq_true hin, hdrop⟩
    · exact (h.gone item hitem hnone).imp_right fun hold => Bool.or_eq_true_iff.mpr (.inl hold)
  · obtain ⟨hall, hstatus⟩ := h.finished hfinished
    have hnone : (s.items.any fun item =>
        item.id ∈ rows && (migrateItem host source target now item).2) = false := by
      refine List.any_eq_false.mpr fun item hitem hdrop => ?_
      have hkept := (migrateItem_of_converted now (hall item hitem) (h.fits item hitem)).2
      rw [(Bool.and_eq_true_iff.mp hdrop).2] at hkept
      cases hkept
    refine ⟨fun item hi => ?_, ?_⟩
    · obtain ⟨item, hitem, rfl⟩ := List.mem_map.mp hi
      exact hkeep item hitem (hall item hitem)
    · show s.migrationStatus = .partial_ ↔ (s.droppedValues || _) = true
      rw [hnone, Bool.or_false]
      exact hstatus

theorem step {act : Act} (h : Inv host source target s) (hok : NeverGivenUp s act)
    (hs : step host source target s act = some s') : Inv host source target s' := by
  cases act with
  | start b =>
    simp only [PropertyTypeMigration.step] at hs
    split_ifs at hs
    cases hs
    exact (h.setAttempt (.inr rfl)).setStatus fun hstatus => hstatus.elim nofun nofun
  | commitBatch b now =>
    simp only [PropertyTypeMigration.step] at hs
    split at hs
    case h_1 cursor hb =>
      cases hs
      exact h.commitBatch hb rfl
    case h_2 => cases hs
  | settle b =>
    simp only [PropertyTypeMigration.step] at hs
    split at hs
    case isTrue hb =>
      cases hs
      refine (h.setAttempt (.inl rfl)).setStatus fun _ => ⟨h.ended b hb, ?_⟩
      show (if s.droppedValues = true then _ else _) = _ ↔ s.droppedValues = true
      cases s.droppedValues <;> simp
    case isFalse => cases hs
  | fail b =>
    obtain ⟨phase, -, rfl⟩ := Option.map_eq_some_iff.mp hs
    exact h.setAttempt (.inl rfl)
  | failFinally b => exact hok.elim

theorem migrated_of_finished (h : Inv host source target s) (hfinished : s.Finished) :
    s.Migrated host source target := by
  obtain ⟨hall, hstatus⟩ := h.finished hfinished
  refine ⟨hall, hstatus.trans ⟨h.dropped, ?_⟩, fun item hitem now =>
    migrateItem_of_converted now (hall item hitem) (h.fits item hitem)⟩
  rintro ⟨item, hitem, value, hvalue, hdropped⟩
  refine (h.gone item hitem ?_).resolve_left fun hnone => ?_
  · rw [hall item hitem, Option.mem_def.mp hvalue, Option.bind_some, hdropped]
  · rw [Option.mem_def.mp hvalue] at hnone
    cases hnone

end Inv

/-! ## Values that do not fit -/

theorem not_converted_toISOString (h : ¬ (0 ≤ utcYear ms ∧ utcYear ms ≤ 9999)) :
    CONVERTED_DATE_SHAPE (toISOString ms) = false ∧ ISO_8601_DATE (toISOString ms) = false := by
  unfold utcYear at h
  obtain ⟨sign, text, hsign, htext⟩ : ∃ sign text, sign.isDigit = false ∧
      (toISOString ms).toList = sign :: text := by
    simp only [toISOString, isoYear, if_neg h, String.toList_ofList, List.cons_append]
    refine ⟨_, _, ?_, rfl⟩
    split_ifs <;> rfl
  have hnone : ∀ shape, matchesShape ('d' :: shape) (sign :: text) = false := fun shape => by
    simp only [matchesShape, if_true, hsign, Bool.false_and]
  refine ⟨?_, List.any_eq_false.mpr fun shape _ => ?_⟩
  · rw [CONVERTED_DATE_SHAPE, htext]
    exact hnone _
  · rw [htext, String.toList_append]
    exact Bool.eq_false_iff.mp (hnone _)

structure Kept (target : PropertyType) (items : List (ℕ × Option Json)) (s : Sys) : Prop where
  originals : s.items.map (fun item => (item.id, item.original)) = items
  values : ∀ item ∈ s.items, ∀ value ∈ item.original, isAlreadyTargetType target value = true →
    item.value = some value

theorem kept_init {items : List (ℕ × Option Json)} : Kept target items (.init items) := by
  refine ⟨?_, fun item hi value hvalue _ => ?_⟩
  · rw [Sys.init, List.map_map]
    exact List.map_id items
  · obtain ⟨i, -, rfl⟩ := List.mem_map.mp hi
    exact hvalue

theorem Kept.step {items : List (ℕ × Option Json)} {act : Act} (hne : source ≠ target)
    (h : Kept target items s) (hs : step host source target s act = some s') :
    Kept target items s' := by
  cases act with
  | start b =>
    simp only [PropertyTypeMigration.step] at hs
    split_ifs at hs
    cases hs
    exact { h with }
  | commitBatch b now =>
    simp only [PropertyTypeMigration.step] at hs
    split at hs
    case h_1 cursor hb =>
      cases hs
      refine ⟨?_, fun item hi value hvalue hshape => ?_⟩
      · refine Eq.trans ?_ h.originals
        rw [List.map_map]
        refine List.map_congr_left fun item _ => ?_
        simp only [Function.comp_apply]
        split_ifs
        · rw [migrateItem_id, migrateItem_original]
        · rfl
      · obtain ⟨item, hitem, rfl⟩ := List.mem_map.mp hi
        split_ifs at hvalue ⊢
        · rw [migrateItem_original] at hvalue
          have hkept := h.values item hitem value hvalue hshape
          unfold migrateItem
          rw [hkept]
          exact (congrArg (fun p : Item × Bool => p.1.value) (if_pos ⟨hne, hshape⟩)).trans hkept
        · exact h.values item hitem value hvalue hshape
    case h_2 => cases hs
  | settle b =>
    simp only [PropertyTypeMigration.step] at hs
    split at hs
    case isTrue =>
      cases hs
      exact { h with }
    case isFalse => cases hs
  | fail b =>
    obtain ⟨phase, -, rfl⟩ := Option.map_eq_some_iff.mp hs
    exact { h with }
  | failFinally b =>
    obtain ⟨phase, -, rfl⟩ := Option.map_eq_some_iff.mp hs
    exact { h with }

theorem fits_of_kept (hne : source ≠ target) (hshape : isAlreadyTargetType target value = true)
    (h : convertPropertyValue host source target value = some value) :
    Fits host source target value := by
  rw [convert_eq hne] at h
  obtain ⟨converter, hconverter, hc⟩ := Option.bind_eq_some_iff.mp h
  refine .inr ?_
  unfold CONVERTERS at hconverter
  split at hconverter <;> cases hconverter
  case h_1 =>
    cases value with
    | num n => cases hc
    | _ => cases hshape
  case h_2 =>
    cases value with
    | str text =>
      have hconverted : CONVERTED_DATE_SHAPE text = true := hshape
      dsimp only at hc ⊢
      rw [if_pos hconverted]
      rw [if_pos (iso_of_converted hconverted)] at hc
      obtain ⟨ms, hparsed, htext⟩ := Option.map_eq_some_iff.mp hc
      rw [hparsed, Option.map_some, Json.str.inj htext]
    | _ => cases hshape
  case h_3 =>
    cases value with
    | str text => cases hc
    | _ => cases hshape
  case h_4 => cases value <;> trivial

theorem fits_of_again (hne : source ≠ target) (hshape : isAlreadyTargetType target value = false)
    (h : ∀ value', convertPropertyValue host source target value = some value' →
      isAlreadyTargetType target value' = true ∨
        convertPropertyValue host source target value' = some value') :
    Fits host source target value := by
  refine .inr ?_
  split
  case h_1 text =>
    have hnot : ¬ CONVERTED_DATE_SHAPE text = true := Bool.eq_false_iff.mp hshape
    rw [if_neg hnot]
    intro hiso ms hparsed
    by_contra hyear
    obtain ⟨hconverted, hisoNot⟩ := not_converted_toISOString hyear
    have hconvert : convertPropertyValue host .text .date (.str text) =
        some (.str (toISOString ms)) := by
      rw [convert_eq hne]
      simp only [CONVERTERS, Option.bind_some, hiso, if_true, Option.mem_def.mp hparsed,
        Option.map_some]
    rcases h _ hconvert with hagain | hagain
    · rw [isAlreadyTargetType, hconverted] at hagain
      cases hagain
    · rw [convert_eq hne] at hagain
      simp only [CONVERTERS, Option.bind_some, hisoNot, Bool.false_eq_true, if_false] at hagain
      cases hagain
  case h_2 => trivial
  case h_3 => exact hshape

theorem again_of_migrateItem (hvalue : item.value = some value)
    (h : (migrateItem host source target now item).1.value = item.value ∧
      (migrateItem host source target now item).2 = false) :
    isAlreadyTargetType target value = true ∨
      convertPropertyValue host source target value = some value := by
  rw [or_iff_not_imp_left]
  intro hshape
  unfold migrateItem at h
  rw [hvalue] at h
  dsimp only at h
  rw [if_neg fun hskip => hshape hskip.2] at h
  split at h
  case h_1 value' hc => rw [hc, ← h.1]
  case h_2 => cases h.2

/-- A migration that has finished has converted all values if and only if all values fit. -/
theorem migrated_iff_fits (host : Host) (source target : PropertyType)
    (items : List (ℕ × Option Json)) (s : Sys)
    (hs : Reach (step host source target) NeverGivenUp (.init items) s) (hfinished : s.Finished) :
    s.Migrated host source target ↔
      ∀ i ∈ items, ∀ value ∈ i.2, Fits host source target value := by
  refine ⟨fun hmigrated i hi value hvalue => ?_, fun hfits => ?_⟩
  · by_cases hst : source = target
    · exact .inl hst
    · have hkept : Kept target items s :=
        hs.invariant kept_init fun _ _ _ hi _ hs => hi.step hst hs
      rw [← hkept.originals] at hi
      obtain ⟨item, hitem, rfl⟩ := List.mem_map.mp hi
      have horiginal : item.original = some value := hvalue
      have hconverted : item.value = convertPropertyValue host source target value := by
        rw [hmigrated.values item hitem, horiginal, Option.bind_some]
      cases hshape : isAlreadyTargetType target value with
      | true =>
        refine fits_of_kept hst hshape ?_
        rw [← hconverted]
        exact hkept.values item hitem value hvalue hshape
      | false =>
        exact fits_of_again hst hshape fun value' hc =>
          again_of_migrateItem (hconverted.trans hc) (hmigrated.again item hitem 0)
  · have h : Inv host source target s :=
      hs.invariant (inv_init hfits) fun _ _ _ hi hok hs => hi.step hok hs
    exact h.migrated_of_finished hfinished

def neverGivenUpCheck : Act → Bool
  | .failFinally _ => false
  | _ => true

theorem neverGivenUp_of_check (s : Sys) (act : Act) (h : neverGivenUpCheck act = true) :
    NeverGivenUp s act := by
  cases act with
  | failFinally b => cases h
  | _ => trivial

/-- The host on the texts of the runs below. -/
def utcHost : Host where
  number _ := none
  string _ := ""
  dateParse
    | "2024-01-15" => some 1705276800000
    | "2024-01-15T00:00:00.000Z" => some 1705276800000
    | _ => none

def retried : List Act :=
  [.start 0, .commitBatch 0 1, .fail 0, .start 1, .commitBatch 1 2, .settle 1]

def dated : List (ℕ × Option Json) :=
  [(1, some (.str "2024-01-15")), (2, none), (3, some (.str "March 5"))]

theorem dated_fits : ∀ i ∈ dated, ∀ value ∈ i.2, Fits utcHost .text .date value := by
  intro i hi value hvalue
  simp only [dated, List.mem_cons, List.not_mem_nil, or_false] at hi
  rcases hi with rfl | rfl | rfl <;> cases hvalue <;> refine .inr ?_
  · show if CONVERTED_DATE_SHAPE "2024-01-15" = true then _ else _
    rw [if_neg (by decide)]
    intro _ ms hms
    cases hms
    decide
  · show if CONVERTED_DATE_SHAPE "March 5" = true then _ else _
    rw [if_neg (by decide)]
    exact fun hiso => absurd hiso (by decide)

theorem migrated_retried : ∃ s, runActs (step utcHost .text .date) (.init dated) retried = some s ∧
    s.migrationStatus = .partial_ ∧ s.Migrated utcHost .text .date := by
  obtain ⟨s, hs⟩ := Option.isSome_iff_exists.mp (show (runChecked (step utcHost .text .date)
    (fun _ a => neverGivenUpCheck a) (.init dated) retried).isSome = true from rfl)
  have hstatus : s.migrationStatus = .partial_ := eq_of_map_eq (f := Sys.migrationStatus) hs rfl
  exact ⟨s, runActs_of_runChecked hs, hstatus, (migrated_iff_fits utcHost .text .date dated s
    (.of_runChecked neverGivenUp_of_check hs) (.inr hstatus)).mpr dated_fits⟩

/-- A text that looks converted, of a month that is none. -/
def lookAlike : List (ℕ × Option Json) := [(1, some (.str "2024-13-01T00:00:00.000Z"))]

theorem lookAlike_kept : ¬ ∀ (host : Host) (source target : PropertyType)
    (items : List (ℕ × Option Json)) (s : Sys),
      Reach (step host source target) (fun _ _ => True) (.init items) s → s.Finished →
        s.Migrated host source target := by
  intro hall
  obtain ⟨s, hs⟩ := Option.isSome_iff_exists.mp (rfl : (runActs (step utcHost .text .date)
    (.init lookAlike) [.start 0, .commitBatch 0 1, .settle 0]).isSome = true)
  have hstatus : s.migrationStatus = .done := eq_of_map_eq (f := Sys.migrationStatus) hs rfl
  have hitems : s.items = [⟨1, some (.str "2024-13-01T00:00:00.000Z"),
      some (.str "2024-13-01T00:00:00.000Z"), 0⟩] :=
    eq_of_map_eq (f := Sys.items) hs rfl
  have hmigrated := hall utcHost .text .date lookAlike s (.of_runActs hs) (.inl hstatus)
  have hvalue := hmigrated.values _ (by rw [hitems]; exact List.mem_singleton_self _)
  cases hvalue

end PropertyTypeMigration

end Semprec
