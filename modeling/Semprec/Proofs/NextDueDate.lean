import Semprec.NextDueDate
import Semprec.Lib.Search
import Mathlib.Data.List.Lemmas

/-!
# The next due date is the least date the rule names

The sweeps run over the days after the reference in order, and the month search over one candidate
a month, which is the month's only date the rule names.  A month has a weekday four or five times,
so an ordinal up to 5 comes within four months and a larger one never does.  The search compares
instants, and a day whose midnight comes twice is later than itself: a candidate counted back from
the end of the month begins at the second one.
-/

namespace Semprec

namespace Tasks

open Calendar

/-! ## The dates a rule names -/

/-- The how manieth of its weekday a date is in its month. -/
def ordinal (d : Date) : ℤ := ((d.day : ℤ) - 1) / 7 + 1

def ordinalFromEnd (d : Date) : ℤ := ((daysInMonth d.month : ℤ) - d.day) / 7 + 1

def FixedRecurrenceRule.Matches : FixedRecurrenceRule → Date → Prop
  | .weekdays days, d => d.weekday ∈ days.map WEEKDAY_TO_LUXON
  | .monthDates dates, d => (d.day : ℤ) ∈ dates
  | .nthWeekday n weekday, d => d.weekday = WEEKDAY_TO_LUXON weekday ∧
      if 0 < n then ordinal d = n else ordinalFromEnd d = -n

def FloatingRecurrenceRule.Matches (rule : FloatingRecurrenceRule) (reference d : Date) : Prop :=
  match rule.unit with
  | .days => d.dayNumber = reference.dayNumber + rule.n
  | .weeks => d.dayNumber = reference.dayNumber + 7 * rule.n
  | .months => d.month = reference.month + rule.n ∧ d.day = min reference.day (daysInMonth d.month)

def TaskRecurrenceRule.Matches (rule : TaskRecurrenceRule) (reference d : Date) : Prop :=
  match rule with
  | .fixed rule => rule.Matches d
  | .floating rule => rule.Matches reference d

/-! ## What the library promises -/

namespace Luxon

inductive FromStart (L : Luxon) : L.DateTime → Prop where
  | day {d s} : L.startOfDay d = some s → FromStart L s
  | month {d s} : L.startOfMonth d = some s → FromStart L s
  | days {d s} (n : ℤ) : FromStart L d → L.plusDays d n = some s → FromStart L s
  | weeks {d s} (n : ℤ) : FromStart L d → L.plusWeeks d n = some s → FromStart L s
  | months {d s} (n : ℤ) : FromStart L d → L.plusMonths d n = some s → FromStart L s

/-- The platform can hold these dates, and an operation is valid where it can hold its date.  So it
is in a zone that leaves out no whole date, and neither skips nor repeats a month's first
midnight. -/
structure Lawful (L : Luxon) (holds : Date → Bool) : Prop where
  startOfDay : ∀ d, (L.startOfDay d).map L.date = (some (L.date d)).filter holds
  startOfMonth : ∀ d,
    (L.startOfMonth d).map L.date = (some (Date.first (L.date d).month)).filter holds
  endOfMonth : ∀ d, L.FromStart d →
    (L.endOfMonth d).map L.date = (some (Date.last (L.date d).month)).filter holds
  plusDays : ∀ d n, L.FromStart d →
    (L.plusDays d n).map L.date = (some ((L.date d).plusDays n)).filter holds
  plusWeeks : ∀ d n, L.FromStart d →
    (L.plusWeeks d n).map L.date = (some ((L.date d).plusDays (7 * n))).filter holds
  plusMonths : ∀ d n, L.FromStart d →
    (L.plusMonths d n).map L.date = (some ((L.date d).plusMonths n)).filter holds
  lt_of_date_lt : ∀ d e s t, L.startOfDay d = some s → L.startOfDay e = some t →
    L.date s < L.date t → L.valueOf s < L.valueOf t

def Midnight (L : Luxon) (date : Date) (s : L.DateTime) : Prop :=
  L.date s = date ∧ L.startOfDay s = some s

def Again (L : Luxon) (d : L.DateTime) : Prop :=
  ∃ s, L.Midnight (L.date d) s ∧ L.valueOf d < L.valueOf s

/-- Of two midnights the library takes the one that has the offset of the `DateTime` it comes from.
In a zone that changes its clock at most once a month, and skips no midnight from the day before,
that is the first one of a later day, and the last one of an earlier. -/
structure Carries (L : Luxon) : Prop where
  startOfDay_start : ∀ d s, L.startOfDay d = some s → L.startOfDay s = some s
  startOfDay_le : ∀ d s, L.startOfDay d = some s → L.valueOf s ≤ L.valueOf d
  le_startOfDay : ∀ d s t, L.startOfDay d = some s → L.Midnight (L.date d) t →
    L.valueOf t ≤ L.valueOf d → L.valueOf t ≤ L.valueOf s
  startOfMonth_start : ∀ d s, L.startOfMonth d = some s → L.startOfDay s = some s
  startOfMonth_first : ∀ s m, L.Midnight (Date.first m) s → L.startOfMonth s = some s
  plusMonths_zero : ∀ s, L.startOfDay s = some s → L.plusMonths s 0 = some s
  endOfMonth_last : ∀ d e s t, L.endOfMonth d = some e → L.startOfDay e = some s →
    L.Midnight (L.date s) t → L.valueOf t ≤ L.valueOf s
  forth : ∀ d e f s t i j, L.startOfDay d = some d → 0 ≤ i → 0 ≤ j → L.plusDays d i = some e →
    L.plusWeeks e j = some f → L.startOfDay f = some s → (L.date s).month = (L.date d).month →
    L.Midnight (L.date s) t → s = d ∨ L.valueOf s ≤ L.valueOf t
  back : ∀ d e f s t i j, L.startOfDay d = some d → i ≤ 0 → j ≤ 0 → L.plusDays d i = some e →
    L.plusWeeks e j = some f → L.startOfDay f = some s → (L.date s).month = (L.date d).month →
    L.Midnight (L.date s) t → s = d ∨ L.valueOf t ≤ L.valueOf s

end Luxon

/-- The computation returns the least date after the day of the reference that the rule names. -/
def ComputesLeast (L : Luxon) (rule : TaskRecurrenceRule) (reference : ℤ) : Prop :=
  ∃ now, L.fromJSDate reference = some now ∧
    ∃ next, computeNextDueDate L rule reference = .ok (some next) ∧
      IsLeast {d | L.date now < d ∧ rule.Matches (L.date now) d} next

/-- An ordinal of at most five, which does not count back to a day whose midnight comes again, and
a floating date that the platform can hold. -/
def Supported (L : Luxon) (holds : Date → Bool) (rule : TaskRecurrenceRule) (now : L.DateTime) :
    Prop :=
  match rule with
  | .fixed (.nthWeekday n weekday) => -5 ≤ n ∧ n ≤ 5 ∧
      (n < 0 → (FixedRecurrenceRule.nthWeekday n weekday).Matches (L.date now) → ¬ L.Again now)
  | .fixed _ => True
  | .floating rule => ∀ d, rule.Matches (L.date now) d → holds d = true

def HoldsAround (holds : Date → Bool) (reference : Date) : Prop :=
  ∀ d : Date, reference.dayNumber - 400 ≤ d.dayNumber → d.dayNumber ≤ reference.dayNumber + 400 →
    holds d = true

variable {L : Luxon} {holds : Date → Bool} {now start : L.DateTime}

theorem exists_of_holds {r : Option L.DateTime} {d : Date}
    (h : r.map L.date = (some d).filter holds) (hd : holds d = true) :
    ∃ s, r = some s ∧ L.date s = d := by
  rw [Option.filter_some, if_pos hd, Option.map_eq_some_iff] at h
  exact h

theorem exists_start (hL : L.Lawful holds) (hhold : HoldsAround holds (L.date now)) :
    ∃ start, L.startOfDay now = some start ∧ L.date start = L.date now :=
  exists_of_holds (hL.startOfDay now) (hhold _ (by omega) (by omega))

/-! ## The sweeps -/

theorem sweep_isLeast {p : Date → Bool} {days : ℕ} {e : Date} (hL : L.Lawful holds)
    (hstart : L.FromStart start) (hhold : HoldsAround holds (L.date start)) (hdays : days ≤ 400)
    (hlt : L.date start < e) (hle : e.dayNumber ≤ (L.date start).dayNumber + days)
    (hp : p e = true) : ∃ next, (sweep L p start days).map L.date = some next ∧
      IsLeast {d | L.date start < d ∧ p d = true} next := by
  have hf : ∀ i < days,
      (((L.plusDays start ((i : ℤ) + 1)).bind L.startOfDay).filter fun candidate =>
        p (L.date candidate)).map L.date =
      if p ((L.date start).plusDays (i + 1)) then some ((L.date start).plusDays (i + 1))
      else none := by
    intro i hi
    have hnumber := Date.dayNumber_plusDays (L.date start) (i + 1)
    have hheld := hhold ((L.date start).plusDays (i + 1)) (by omega) (by omega)
    obtain ⟨d, hd, hdate⟩ := exists_of_holds (hL.plusDays start (i + 1) hstart) hheld
    obtain ⟨s, hs, hsdate⟩ := exists_of_holds (hL.startOfDay d) (by rw [hdate]; exact hheld)
    rw [hd, Option.bind_some, hs, Option.filter_some, hsdate, hdate]
    split_ifs
    · rw [Option.map_some, hsdate, hdate]
    · rfl
  -- a date after the reference is the candidate of its index
  have hindex : ∀ d, L.date start < d →
      (L.date start).plusDays
        (((d.dayNumber - (L.date start).dayNumber - 1).toNat : ℤ) + 1) = d := by
    intro d hd
    rw [Date.lt_iff] at hd
    have hsub : ((d.dayNumber - (L.date start).dayNumber - 1).toNat : ℤ) + 1 =
        d.dayNumber - (L.date start).dayNumber := by omega
    rw [hsub, Date.plusDays_sub]
  unfold sweep
  rw [List.map_findSome?]
  have hlt' := hlt
  rw [Date.lt_iff] at hlt'
  have hk : (e.dayNumber - (L.date start).dayNumber - 1).toNat < days := by omega
  obtain ⟨j, hjk, next, hnext, hfj, hbefore⟩ := exists_findSome?_range hk
    (f := Option.map L.date ∘ fun i : ℕ =>
      ((L.plusDays start ((i : ℤ) + 1)).bind L.startOfDay).filter fun candidate =>
        p (L.date candidate))
    ((hf _ hk).trans (by rw [hindex e hlt, if_pos hp]))
  have hfj := (hf j (by omega)).symm.trans hfj
  split_ifs at hfj with hpj
  cases hfj
  have hnumber := Date.dayNumber_plusDays (L.date start) (j + 1)
  refine ⟨(L.date start).plusDays (j + 1), hnext, ⟨?_, hpj⟩, ?_⟩
  · rw [Date.lt_iff]
    omega
  · rintro d ⟨hd, hpd⟩
    by_contra hle
    rw [Date.le_iff] at hle
    have hd' := hd
    rw [Date.lt_iff] at hd'
    have hi : (d.dayNumber - (L.date start).dayNumber - 1).toNat < j := by omega
    have := (hf _ (by omega)).symm.trans (hbefore _ hi)
    rw [hindex d hd, if_pos hpd] at this
    cases this

theorem WEEKDAY_TO_LUXON_bounds (weekday : Weekday) :
    1 ≤ WEEKDAY_TO_LUXON weekday ∧ WEEKDAY_TO_LUXON weekday ≤ 7 := by
  cases weekday <;> decide

theorem exists_weekday (reference : Date) (weekday : Weekday) :
    ∃ e, reference < e ∧ e.dayNumber ≤ reference.dayNumber + 7 ∧
      e.weekday = WEEKDAY_TO_LUXON weekday := by
  have hbounds := WEEKDAY_TO_LUXON_bounds weekday
  refine ⟨reference.plusDays (1 + (WEEKDAY_TO_LUXON weekday - reference.weekday + 6) % 7), ?_⟩
  simp only [Date.lt_iff, Date.weekday, Date.dayNumber_plusDays]
  omega

theorem exists_monthDate (reference : Date) {day : ℤ} (hone : 1 ≤ day) (hle : day ≤ 31) :
    ∃ e, reference < e ∧ e.dayNumber ≤ reference.dayNumber + 366 ∧ (e.day : ℤ) = day := by
  have hlt := reference.dayNumber_lt_monthStart
  have hstart := reference.monthStart_le_dayNumber
  have h0 := monthStart_succ reference.month
  have h1 := monthStart_succ (reference.month + 1)
  have b0 := daysInMonth_bounds reference.month
  have b1 := daysInMonth_bounds (reference.month + 1)
  rcases daysInMonth_or (reference.month + 1) with hlong | hlong
  · refine ⟨⟨reference.month + 1, day.toNat, by omega, by omega⟩, ?_⟩
    simp only [Date.lt_iff, Date.dayNumber] at hlt hstart ⊢
    omega
  · refine ⟨⟨reference.month + 1 + 1, day.toNat, by omega, by omega⟩, ?_⟩
    simp only [Date.lt_iff, Date.dayNumber] at hlt hstart ⊢
    omega

/-! ## The month search -/

def candidateDay (m : ℤ) (weekday : Weekday) (n : ℤ) : ℤ :=
  let targetWeekday := WEEKDAY_TO_LUXON weekday
  if 0 < n then
    monthStart m + (targetWeekday - (Date.first m).weekday + 7) % 7 + 7 * (n - 1)
  else
    (Date.last m).dayNumber - ((Date.last m).weekday - targetWeekday + 7) % 7 + 7 * (n + 1)

theorem first_dayNumber (m : ℤ) : (Date.first m).dayNumber = monthStart m := by
  simp [Date.first, Date.dayNumber]

theorem last_dayNumber (m : ℤ) : (Date.last m).dayNumber = monthStart m + daysInMonth m - 1 := rfl

theorem matches_iff {d : Date} {n : ℤ} {weekday : Weekday} :
    (FixedRecurrenceRule.nthWeekday n weekday).Matches d ↔
      d.dayNumber = candidateDay d.month weekday n := by
  have hbounds := WEEKDAY_TO_LUXON_bounds weekday
  have hone := d.one_le
  have hle := d.le_length
  unfold FixedRecurrenceRule.Matches candidateDay ordinal ordinalFromEnd
  simp only [Date.weekday, first_dayNumber, last_dayNumber]
  simp only [Date.dayNumber]
  split_ifs with hpos <;> omega

/-- The candidate of an ordinal of at most five is in its month or a neighbour of it. -/
theorem candidateDay_bounds {n : ℤ} (m : ℤ) (weekday : Weekday) (hlow : -5 ≤ n)
    (hhigh : n ≤ 5) : monthStart (m - 1) ≤ candidateDay m weekday n ∧
      candidateDay m weekday n < monthStart (m + 2) := by
  have h0 := monthStart_succ (m - 1)
  have h1 := monthStart_succ m
  have h2 := monthStart_succ (m + 1)
  have b0 := daysInMonth_bounds (m - 1)
  have b1 := daysInMonth_bounds m
  have b2 := daysInMonth_bounds (m + 1)
  rw [Int.sub_add_cancel] at h0
  rw [show m + 1 + 1 = m + 2 by omega] at h2
  unfold candidateDay
  simp only [last_dayNumber]
  split_ifs with hpos <;> omega

theorem candidateDay_succ {m : ℤ} {weekday : Weekday}
    (hnone : monthStart (m + 1) ≤ candidateDay m weekday 5) :
    candidateDay (m + 1) weekday 1 ≤ candidateDay m weekday 1 + 28 := by
  simp only [candidateDay, Date.weekday, first_dayNumber] at *
  omega

theorem exists_fifth (m : ℤ) (weekday : Weekday) :
    ∃ k : ℕ, k < 4 ∧ candidateDay (m + k) weekday 5 < monthStart (m + k + 1) := by
  by_contra hno
  have hnone : ∀ k : ℕ, k < 4 → monthStart (m + k + 1) ≤ candidateDay (m + k) weekday 5 :=
    fun k hk => Int.not_lt.mp fun h => hno ⟨k, hk, h⟩
  have h0 := candidateDay_succ (hnone 0 (by omega))
  have h1 := candidateDay_succ (hnone 1 (by omega))
  have h2 := candidateDay_succ (hnone 2 (by omega))
  have h3 := candidateDay_succ (hnone 3 (by omega))
  have hdays := four_months m
  have s0 := monthStart_succ m
  have s1 := monthStart_succ (m + 1)
  have s2 := monthStart_succ (m + 2)
  have s3 := monthStart_succ (m + 3)
  have hfirst : candidateDay m weekday 1 < monthStart m + 7 := by
    simp only [candidateDay]
    omega
  have hlast : monthStart (m + 4) ≤ candidateDay (m + 4) weekday 1 := by
    simp only [candidateDay]
    omega
  norm_num [Int.add_assoc] at *
  omega

theorem exists_nthWeekday (m : ℤ) (weekday : Weekday) {n : ℤ} (hn : n ≠ 0) (hlow : -5 ≤ n)
    (hhigh : n ≤ 5) : ∃ k : ℕ, k < 4 ∧ ∃ d : Date, d.month = m + k ∧
      (FixedRecurrenceRule.nthWeekday n weekday).Matches d := by
  obtain ⟨k, hk, hfifth⟩ := exists_fifth m weekday
  have hbounds := daysInMonth_bounds (m + k)
  have hstep := monthStart_succ (m + k)
  have hin : monthStart (m + k) ≤ candidateDay (m + k) weekday n ∧
      candidateDay (m + k) weekday n < monthStart (m + k + 1) := by
    simp only [candidateDay, Date.weekday, first_dayNumber, last_dayNumber] at *
    split_ifs <;> omega
  obtain ⟨d, hmonth, hnumber⟩ := Date.exists_dayNumber hin.1 hin.2
  exact ⟨k, hk, d, hmonth, matches_iff.mpr (hnumber.trans (by rw [hmonth]))⟩

theorem nthWeekdayOfMonth_eq {monthStart : L.DateTime} {n m : ℤ} (weekday : Weekday)
    (hL : L.Lawful holds) (hs : L.FromStart monthStart) (hdate : L.date monthStart = Date.first m)
    (hlow : -5 ≤ n) (hhigh : n ≤ 5)
    (hhold : ∀ d : Date, Calendar.monthStart m - 70 ≤ d.dayNumber →
      d.dayNumber ≤ Calendar.monthStart m + 70 → holds d = true) :
    ∃ next, (nthWeekdayOfMonth L monthStart weekday n).bind L.startOfDay = some next ∧
      (L.date next).dayNumber = candidateDay m weekday n := by
  have hbounds := daysInMonth_bounds m
  have hfirst := first_dayNumber m
  have hlast := last_dayNumber m
  -- days and then weeks from a start
  have hsteps : ∀ (d : L.DateTime) (i j : ℤ), L.FromStart d →
      Calendar.monthStart m - 35 ≤ (L.date d).dayNumber + i →
      (L.date d).dayNumber + i ≤ Calendar.monthStart m + 35 → -35 ≤ 7 * j → 7 * j ≤ 35 →
      ∃ next, ((L.plusDays d i).bind (L.plusWeeks · j)).bind L.startOfDay = some next ∧
        (L.date next).dayNumber = (L.date d).dayNumber + i + 7 * j := by
    intro d i j hd hi hi' hj hj'
    have hnumber := Date.dayNumber_plusDays (L.date d) i
    have hnumber' := Date.dayNumber_plusDays ((L.date d).plusDays i) (7 * j)
    obtain ⟨e, he, hedate⟩ := exists_of_holds (hL.plusDays d i hd)
      (hhold _ (by omega) (by omega))
    obtain ⟨f, hf, hfdate⟩ := exists_of_holds (hL.plusWeeks e j (.days i hd he))
      (hhold _ (by rw [hedate]; omega) (by rw [hedate]; omega))
    obtain ⟨next, hnext, hnextdate⟩ := exists_of_holds (hL.startOfDay f)
      (hhold _ (by rw [hfdate, hedate]; omega) (by rw [hfdate, hedate]; omega))
    refine ⟨next, by rw [he, Option.bind_some, hf, Option.bind_some, hnext], ?_⟩
    rw [hnextdate, hfdate, hedate]
    omega
  unfold nthWeekdayOfMonth candidateDay
  simp only []
  split_ifs with hpos
  · rw [← hdate] at hfirst ⊢
    obtain ⟨next, hnext, hnumber⟩ := hsteps monthStart
      ((WEEKDAY_TO_LUXON weekday - (L.date monthStart).weekday + 7) % 7) (n - 1) hs (by omega)
      (by omega) (by omega) (by omega)
    exact ⟨next, hnext, by omega⟩
  · obtain ⟨e, he, hedate⟩ := exists_of_holds (hL.endOfMonth monthStart hs)
      (hhold _ (by rw [hdate]; exact hlast ▸ (by omega)) (by rw [hdate]; exact hlast ▸ (by omega)))
    obtain ⟨monthEnd, hend, henddate⟩ := exists_of_holds (hL.startOfDay e)
      (hhold _ (by rw [hedate, hdate]; exact hlast ▸ (by omega))
        (by rw [hedate, hdate]; exact hlast ▸ (by omega)))
    replace henddate : L.date monthEnd = Date.last m := by
      rw [henddate, hedate, hdate]
      rfl
    obtain ⟨next, hnext, hnumber⟩ := hsteps monthEnd
      (-(((L.date monthEnd).weekday - WEEKDAY_TO_LUXON weekday + 7) % 7)) (n + 1) (.day hend)
      (by rw [henddate]; omega) (by rw [henddate]; omega) (by omega) (by omega)
    refine ⟨next, by rw [he, Option.bind_some, hend, Option.bind_some, hnext], ?_⟩
    rw [henddate] at hnumber
    omega

theorem valueOf_le_of_forth (hC : L.Carries) {monthStart next : L.DateTime} {n m : ℤ}
    {weekday : Weekday} (hpos : 0 < n) (hstart : L.startOfDay start = some start)
    (hmonth : L.startOfMonth start = some monthStart) (hdate : L.date monthStart = Date.first m)
    (hnext : (nthWeekdayOfMonth L monthStart weekday n).bind L.startOfDay = some next)
    (hsame : L.date next = L.date start) (hm : (L.date start).month = m) :
    L.valueOf next ≤ L.valueOf start := by
  obtain ⟨f, hf, hfnext⟩ := Option.bind_eq_some_iff.mp hnext
  unfold nthWeekdayOfMonth at hf
  simp only [] at hf
  rw [if_pos hpos] at hf
  obtain ⟨e, he, hef⟩ := Option.bind_eq_some_iff.mp hf
  have hbounds := WEEKDAY_TO_LUXON_bounds weekday
  rcases hC.forth _ e f next start _ _ (hC.startOfMonth_start _ _ hmonth) (by omega) (by omega) he
    hef hfnext (by rw [hsame, hdate, hm]; rfl) ⟨hsame.symm, hstart⟩ with heq | hle
  · have hfirst := hC.startOfMonth_first start m ⟨by rw [← hsame, heq, hdate], hstart⟩
    rw [hmonth] at hfirst
    rw [heq, Option.some.inj hfirst]
  · exact hle

theorem valueOf_le_of_back (hL : L.Lawful holds) (hC : L.Carries) {monthStart next s : L.DateTime}
    {n m : ℤ} {weekday : Weekday} (hneg : n < 0) (hs : L.FromStart monthStart)
    (hdate : L.date monthStart = Date.first m)
    (hnext : (nthWeekdayOfMonth L monthStart weekday n).bind L.startOfDay = some next)
    (hm : (L.date next).month = m) (hmid : L.Midnight (L.date next) s) :
    L.valueOf s ≤ L.valueOf next := by
  obtain ⟨f, hf, hfnext⟩ := Option.bind_eq_some_iff.mp hnext
  unfold nthWeekdayOfMonth at hf
  simp only [] at hf
  rw [if_neg (by omega)] at hf
  obtain ⟨monthEnd, hend, hf⟩ := Option.bind_eq_some_iff.mp hf
  obtain ⟨e', he', hend⟩ := Option.bind_eq_some_iff.mp hend
  obtain ⟨e, he, hef⟩ := Option.bind_eq_some_iff.mp hf
  have hmonthEnd : (L.date monthEnd).month = m := by
    have h := hL.endOfMonth monthStart hs
    have h' := hL.startOfDay e'
    rw [he', Option.map_some] at h
    rw [hend, Option.map_some] at h'
    obtain ⟨h, -⟩ := Option.filter_eq_some_iff.mp h.symm
    obtain ⟨h', -⟩ := Option.filter_eq_some_iff.mp h'.symm
    rw [← Option.some.inj h', ← Option.some.inj h, hdate]
    rfl
  have hbounds := WEEKDAY_TO_LUXON_bounds weekday
  rcases hC.back monthEnd e f next s _ _ (hC.startOfDay_start _ _ hend) (by omega) (by omega) he
    hef hfnext (by rw [hmonthEnd, hm]) hmid with rfl | hle
  · exact hC.endOfMonth_last _ _ _ _ he' hend hmid
  · exact hle

/-- A candidate is later than the reference on a later day, or where it was counted back to the day
of the reference and the midnight of that comes again. -/
theorem valueOf_lt_iff (hL : L.Lawful holds) (hC : L.Carries) {monthStart next : L.DateTime}
    {n m : ℤ} {weekday : Weekday} (hn : n ≠ 0) (hstart : L.startOfDay now = some start)
    (hnow : L.date start = L.date now) (hs : L.FromStart monthStart)
    (hmonth : L.date now = L.date next → L.startOfMonth start = some monthStart)
    (hdate : L.date monthStart = Date.first m)
    (hnext : (nthWeekdayOfMonth L monthStart weekday n).bind L.startOfDay = some next)
    (hm : (L.date next).month = m) : L.valueOf start < L.valueOf next ↔
      L.date now < L.date next ∨ L.date next = L.date now ∧ n < 0 ∧ L.Again now := by
  obtain ⟨f, -, hfnext⟩ := Option.bind_eq_some_iff.mp hnext
  have hnextstart := hC.startOfDay_start _ _ hfnext
  have hstartstart := hC.startOfDay_start _ _ hstart
  rcases lt_trichotomy (L.date now) (L.date next) with hlt | heq | hgt
  · exact iff_of_true (hL.lt_of_date_lt _ _ _ _ hstart hfnext (by rw [hnow]; exact hlt)) (.inl hlt)
  · have hsame : L.date next = L.date start := by rw [hnow, heq]
    rw [heq]
    simp only [lt_irrefl, false_or, true_and]
    rcases lt_or_gt_of_ne hn with hneg | hpos
    · constructor
      · intro hlt
        refine ⟨hneg, next, ⟨heq.symm, hnextstart⟩, ?_⟩
        by_contra hle
        exact absurd (hC.le_startOfDay _ _ _ hstart ⟨heq.symm, hnextstart⟩ (by omega)) (by omega)
      · rintro ⟨-, s, hmid, hlt⟩
        have := valueOf_le_of_back hL hC hneg hs hdate hnext hm (s := s) (by rw [← heq]; exact hmid)
        have := hC.startOfDay_le _ _ hstart
        omega
    · have := valueOf_le_of_forth hC hpos hstartstart (hmonth heq) hdate hnext hsame
        (by rw [← hsame, hm])
      omega
  · have := hL.lt_of_date_lt _ _ _ _ hfnext hstart (by rw [hnow]; exact hgt)
    refine iff_of_false (by omega) ?_
    rintro (hlt | ⟨heq, -⟩)
    · exact lt_asymm hlt hgt
    · rw [heq] at hgt
      exact lt_irrefl _ hgt

theorem month_emod_iff {d : Date} {n m : ℤ} {weekday : Weekday} (hlow : -5 ≤ n) (hhigh : n ≤ 5)
    (hnumber : d.dayNumber = candidateDay m weekday n) : d.month % 12 = m % 12 ↔ d.month = m := by
  have hcand := candidateDay_bounds m weekday hlow hhigh
  have hlow' : m - 1 ≤ d.month := by
    by_contra hlt
    have := Date.monthStart_lt (Int.not_le.mp hlt)
    have := d.dayNumber_lt_monthStart
    rw [monthStart_succ] at this
    omega
  have hhigh' : d.month < m + 2 := by
    by_contra hge
    rcases (Int.not_lt.mp hge).lt_or_eq with hlt | heq
    · have := Date.monthStart_lt hlt
      have := d.monthStart_le_dayNumber
      omega
    · have := d.monthStart_le_dayNumber
      rw [← heq] at this
      omega
  omega

theorem nthWeekdayCandidate_iff {n : ℤ} {weekday : Weekday} {k : ℕ} {d : Date}
    (hL : L.Lawful holds) (hC : L.Carries) (hstart : L.startOfDay now = some start)
    (hnow : L.date start = L.date now) (hhold : HoldsAround holds (L.date now)) (hn : n ≠ 0)
    (hlow : -5 ≤ n) (hhigh : n ≤ 5) (hk : k ≤ 4) :
    (nthWeekdayCandidate L n weekday start k).map L.date = some d ↔
      d.month = (L.date now).month + k ∧
        (L.date now < d ∨ d = L.date now ∧ n < 0 ∧ L.Again now) ∧
          (FixedRecurrenceRule.nthWeekday n weekday).Matches d := by
  have hfrom := (L.date now).monthStart_le_dayNumber
  have hlt := (L.date now).dayNumber_lt_monthStart
  have hsucc := monthStart_succ (L.date now).month
  have hbounds := daysInMonth_bounds (L.date now).month
  have hadd := Date.monthStart_add (L.date now).month k
  have hf0 := first_dayNumber (L.date now).month
  have hfk := first_dayNumber ((L.date now).month + k)
  obtain ⟨first, hfirst, hfirstdate⟩ := exists_of_holds (hL.startOfMonth start)
    (hhold _ (by rw [hnow]; omega) (by rw [hnow]; omega))
  rw [hnow] at hfirstdate
  have hplus : (L.date first).plusMonths k = Date.first ((L.date now).month + k) := by
    rw [hfirstdate, Date.first_plusMonths]
  obtain ⟨monthStart, hmonth, hdate⟩ := exists_of_holds (hL.plusMonths first k (.month hfirst))
    (hhold _ (by rw [hplus]; omega) (by rw [hplus]; omega))
  rw [hplus] at hdate
  have hs : L.FromStart monthStart := .months k (.month hfirst) hmonth
  obtain ⟨next, hnext, hnumber⟩ := nthWeekdayOfMonth_eq weekday hL hs hdate hlow hhigh
    fun d _ _ => hhold d (by omega) (by omega)
  have hmod := month_emod_iff hlow hhigh hnumber
  have hmatches := @matches_iff (L.date next) n weekday
  unfold nthWeekdayCandidate
  rw [hfirst, Option.bind_some, hmonth, Option.bind_some, hnext, Option.map_eq_some_iff]
  simp only [Option.filter_eq_some_iff, decide_eq_true_eq, hdate, Date.first]
  by_cases hm : (L.date next).month = (L.date now).month + k
  · have hlater := valueOf_lt_iff hL hC hn hstart hnow hs (fun heq => by
      have hk0 : (k : ℤ) = 0 := by rw [heq] at hm; omega
      rw [hk0, hC.plusMonths_zero _ (hC.startOfMonth_start _ _ hfirst)] at hmonth
      rw [hfirst, hmonth]) hdate hnext hm
    constructor
    · rintro ⟨c, ⟨hc, -, hval⟩, rfl⟩
      obtain rfl := Option.some.inj hc
      exact ⟨hm, hlater.mp hval, hmatches.mpr (by rw [hnumber, hm])⟩
    · rintro ⟨hmd, hlaterd, hmd'⟩
      have hnum := matches_iff.mp hmd'
      rw [hmd, ← hnumber] at hnum
      obtain rfl := Date.dayNumber_injective hnum
      exact ⟨next, ⟨rfl, hmod.mpr hm, hlater.mpr hlaterd⟩, rfl⟩
  · constructor
    · rintro ⟨c, ⟨hc, hmc, -⟩, -⟩
      obtain rfl := Option.some.inj hc
      exact absurd (hmod.mp hmc) hm
    · rintro ⟨hmd, -, hmd'⟩
      have hnum := matches_iff.mp hmd'
      rw [hmd, ← hnumber] at hnum
      obtain rfl := Date.dayNumber_injective hnum
      exact absurd hmd hm

theorem monthSearch_isLeast_iff {n : ℤ} {weekday : Weekday} (hL : L.Lawful holds) (hC : L.Carries)
    (hstart : L.startOfDay now = some start) (hnow : L.date start = L.date now)
    (hhold : HoldsAround holds (L.date now)) (hn : n ≠ 0) (hlow : -5 ≤ n) (hhigh : n ≤ 5) :
    (∃ next, ((List.range 13).findSome? (nthWeekdayCandidate L n weekday start)).map L.date =
        some next ∧ IsLeast {d | L.date now < d ∧
          (FixedRecurrenceRule.nthWeekday n weekday).Matches d} next) ↔
      (n < 0 → (FixedRecurrenceRule.nthWeekday n weekday).Matches (L.date now) →
        ¬ L.Again now) := by
  have hiff := fun k d => @nthWeekdayCandidate_iff L holds now start n weekday k d hL hC hstart hnow
    hhold hn hlow hhigh
  rw [List.map_findSome?]
  obtain ⟨k, hk, e, hmonth, he⟩ :=
    exists_nthWeekday ((L.date now).month + 1) weekday hn hlow hhigh
  have hfound := (hiff (k + 1) e (by omega)).mpr
    ⟨by omega, .inl (Date.lt_of_month (by omega)), he⟩
  obtain ⟨j, hjk, next, hnext, hfj, hbefore⟩ :=
    exists_findSome?_range (f := Option.map L.date ∘ nthWeekdayCandidate L n weekday start)
      (by omega : k + 1 < 13) hfound
  obtain ⟨hmonthj, hlater, hm⟩ := (hiff j next (by omega)).mp hfj
  constructor
  · rintro ⟨next', hnext', hleast⟩ hneg hnamed hagain
    -- the candidate of the month is the day of the reference
    have hzero := (hiff 0 (L.date now) (by omega)).mpr
      ⟨by omega, .inr ⟨rfl, hneg, hagain⟩, hnamed⟩
    obtain rfl := Option.some.inj (hnext.symm.trans hnext')
    rcases Nat.eq_zero_or_pos j with rfl | hpos
    · obtain rfl := Option.some.inj (hfj.symm.trans hzero)
      exact lt_irrefl _ hleast.1.1
    · exact absurd (hzero.symm.trans (hbefore 0 hpos)) (by simp)
  · intro hnot
    have hlt : ∀ d, L.date now < d ∨ d = L.date now ∧ n < 0 ∧ L.Again now →
        (FixedRecurrenceRule.nthWeekday n weekday).Matches d → L.date now < d := by
      rintro d (hlt | ⟨rfl, hneg, hagain⟩) hmd
      · exact hlt
      · exact absurd hagain (hnot hneg hmd)
    refine ⟨next, hnext, ⟨hlt next hlater hm, hm⟩, ?_⟩
    rintro d ⟨hltd, hmd⟩
    by_contra hle
    have hdn : d < next := not_le.mp hle
    have hmonthd := Date.month_le_of_lt hdn
    have hmonthr := Date.month_le_of_lt hltd
    obtain ⟨i, hi⟩ : ∃ i : ℕ, d.month = (L.date now).month + i :=
      ⟨(d.month - (L.date now).month).toNat, by omega⟩
    have hfi := (hiff i d (by omega)).mpr ⟨hi, .inl hltd, hmd⟩
    rcases Nat.lt_or_eq_of_le (by omega : i ≤ j) with hij | rfl
    · exact absurd (hfi.symm.trans (hbefore i hij)) (by simp)
    · obtain rfl := Option.some.inj (hfj.symm.trans hfi)
      exact lt_irrefl _ hdn

/-- No month has a weekday a sixth time. -/
theorem not_matches_of_unsupported {n : ℤ} {weekday : Weekday} (hn : ¬ (-5 ≤ n ∧ n ≤ 5))
    (d : Date) :
    ¬ (FixedRecurrenceRule.nthWeekday n weekday).Matches d := by
  have hone := d.one_le
  have hle := d.le_length
  have hbounds := daysInMonth_bounds d.month
  simp only [FixedRecurrenceRule.Matches, ordinal, ordinalFromEnd]
  split_ifs <;> omega

/-! ## The floating rules -/

theorem FloatingRecurrenceRule.matches_unique {rule : FloatingRecurrenceRule} (reference : Date)
    (hpos : 0 < rule.n) : ∃ d, reference < d ∧ (∀ e, rule.Matches reference e ↔ e = d) ∧
      d = match rule.unit with
        | .days => reference.plusDays rule.n
        | .weeks => reference.plusDays (7 * rule.n)
        | .months => reference.plusMonths rule.n := by
  obtain ⟨unit, n⟩ := rule
  simp only [] at hpos
  have hdays : ∀ (m : ℤ) (e : Date),
      e.dayNumber = reference.dayNumber + m ↔ e = reference.plusDays m := by
    intro m e
    refine ⟨fun h => Date.dayNumber_injective (h.trans (Date.dayNumber_plusDays _ _).symm), ?_⟩
    rintro rfl
    exact Date.dayNumber_plusDays _ _
  cases unit with
  | days =>
    refine ⟨reference.plusDays n, ?_, hdays n, rfl⟩
    rw [Date.lt_iff, Date.dayNumber_plusDays]
    omega
  | weeks =>
    refine ⟨reference.plusDays (7 * n), ?_, hdays (7 * n), rfl⟩
    rw [Date.lt_iff, Date.dayNumber_plusDays]
    omega
  | months =>
    refine ⟨reference.plusMonths n, Date.lt_of_month ?_, fun e => ⟨?_, ?_⟩, rfl⟩
    · simp only [Date.plusMonths]
      omega
    · rintro ⟨hmonth, hday⟩
      exact Date.ext hmonth (hday.trans (by rw [hmonth]; rfl))
    · rintro rfl
      exact ⟨rfl, rfl⟩

/-- The floating date is the one the rule names where the platform can hold that. -/
theorem nextFloatingDate_eq {rule : FloatingRecurrenceRule} {d : Date} (hL : L.Lawful holds)
    (hstart : L.FromStart start)
    (hd : d = match rule.unit with
      | .days => (L.date start).plusDays rule.n
      | .weeks => (L.date start).plusDays (7 * rule.n)
      | .months => (L.date start).plusMonths rule.n) :
    (nextFloatingDate L rule start).map L.date = (some d).filter holds := by
  have hbind : ∀ r : Option L.DateTime, r.map L.date = (some d).filter holds →
      (r.bind L.startOfDay).map L.date = (some d).filter holds := by
    intro r hr
    cases r with
    | none => exact hr
    | some e =>
      have he := Option.filter_eq_some_iff.mp hr.symm
      rw [Option.bind_some, hL.startOfDay, ← Option.some.inj he.1]
  obtain ⟨unit, n⟩ := rule
  cases unit with
  | days => exact hbind _ (hd ▸ hL.plusDays start n hstart)
  | weeks => exact hbind _ (hd ▸ hL.plusWeeks start n hstart)
  | months => exact hbind _ (hd ▸ hL.plusMonths start n hstart)

/-! ## The least date -/

def TaskRecurrenceRule.Valid : TaskRecurrenceRule → Prop
  | .fixed rule => rule.valid = true
  | .floating rule => rule.valid = true

theorem valid_of_parse {mode : TaskRecurrenceMode} {raw rule : TaskRecurrenceRule}
    (hparse : parseTaskRecurrenceRule mode raw = some rule) : rule.Valid := by
  rcases mode with _ | _ <;> rcases raw with raw | raw <;>
    simp only [parseTaskRecurrenceRule, reduceCtorEq] at hparse
  · split_ifs at hparse with hvalid
    cases hparse
    exact hvalid
  · split_ifs at hparse with hvalid
    cases hparse
    exact hvalid

theorem computeNextDueDate_fixed_iff (rule : FixedRecurrenceRule) {reference : ℤ} {d : Date}
    {search : L.DateTime → Option L.DateTime} {error : String}
    (hreference : referenceDateTime L reference = some start)
    (hrule : ∀ r, nextFixedDate L rule r =
      match r.bind search with
      | some candidate => .ok candidate
      | none => .error error) :
    computeNextDueDate L (.fixed rule) reference = .ok (some d) ↔
      (search start).map L.date = some d := by
  simp only [computeNextDueDate, hrule, hreference, Option.bind_some]
  rcases search start with _ | candidate
  · simp [Except.map]
  · simp [Except.map]

theorem weekdays_isLeast {days : List Weekday} {reference : ℤ} (hL : L.Lawful holds)
    (hstart : L.FromStart start) (hreference : referenceDateTime L reference = some start)
    (hhold : HoldsAround holds (L.date start))
    (hvalid : (FixedRecurrenceRule.weekdays days).valid = true) :
    ∃ next, computeNextDueDate L (.fixed (.weekdays days)) reference = .ok (some next) ∧
      IsLeast {d | L.date start < d ∧ (FixedRecurrenceRule.weekdays days).Matches d} next := by
  simp only [FixedRecurrenceRule.valid, decide_eq_true_eq] at hvalid
  obtain ⟨weekday, hmem⟩ := List.exists_mem_of_ne_nil days hvalid
  obtain ⟨e, hlt, hle, he⟩ := exists_weekday (L.date start) weekday
  have hnamed : e.weekday ∈ days.map WEEKDAY_TO_LUXON := by
    rw [he]
    exact List.mem_map_of_mem hmem
  obtain ⟨next, hnext, hleast⟩ := sweep_isLeast
    (p := fun d => d.weekday ∈ days.map WEEKDAY_TO_LUXON) hL hstart hhold (by omega : 7 ≤ 400) hlt
    hle (decide_eq_true hnamed)
  refine ⟨next, (computeNextDueDate_fixed_iff _ hreference fun _ => rfl).mpr hnext, ?_⟩
  simpa [FixedRecurrenceRule.Matches] using hleast

theorem monthDates_isLeast {dates : List ℤ} {reference : ℤ} (hL : L.Lawful holds)
    (hstart : L.FromStart start) (hreference : referenceDateTime L reference = some start)
    (hhold : HoldsAround holds (L.date start))
    (hvalid : (FixedRecurrenceRule.monthDates dates).valid = true) :
    ∃ next, computeNextDueDate L (.fixed (.monthDates dates)) reference = .ok (some next) ∧
      IsLeast {d | L.date start < d ∧ (FixedRecurrenceRule.monthDates dates).Matches d} next := by
  simp only [FixedRecurrenceRule.valid, decide_eq_true_eq] at hvalid
  obtain ⟨day, hmem⟩ := List.exists_mem_of_ne_nil dates hvalid.1
  obtain ⟨e, hlt, hle, he⟩ :=
    exists_monthDate (L.date start) (hvalid.2 day hmem).1 (hvalid.2 day hmem).2
  obtain ⟨next, hnext, hleast⟩ := sweep_isLeast (p := fun d => (d.day : ℤ) ∈ dates) hL hstart hhold
    (by omega : 366 ≤ 400) hlt hle (decide_eq_true (he ▸ hmem))
  refine ⟨next, (computeNextDueDate_fixed_iff _ hreference fun _ => rfl).mpr hnext, ?_⟩
  simpa [FixedRecurrenceRule.Matches] using hleast

theorem floating_isLeast_iff {rule : FloatingRecurrenceRule} {reference : ℤ} (hL : L.Lawful holds)
    (hstart : L.FromStart start) (hreference : referenceDateTime L reference = some start)
    (hvalid : rule.valid = true) :
    (∃ next, computeNextDueDate L (.floating rule) reference = .ok (some next) ∧
      IsLeast {d | L.date start < d ∧ rule.Matches (L.date start) d} next) ↔
      ∀ d, rule.Matches (L.date start) d → holds d = true := by
  obtain ⟨d, hlt, hm, hd⟩ := FloatingRecurrenceRule.matches_unique (L.date start)
    (of_decide_eq_true hvalid)
  have hnext := nextFloatingDate_eq hL hstart hd
  simp only [computeNextDueDate, hreference, Option.bind_some, hnext, hm, forall_eq]
  constructor
  · rintro ⟨next, hnext, -⟩
    obtain ⟨hsome, hheld⟩ := Option.filter_eq_some_iff.mp (Except.ok.inj hnext)
    rw [Option.some.inj hsome]
    exact hheld
  · intro hheld
    refine ⟨d, by rw [Option.filter_some, if_pos hheld], ⟨hlt, rfl⟩, ?_⟩
    rintro e ⟨-, rfl⟩
    exact le_rfl

/-- UTC within the dates of the platform: a date and the milliseconds since its midnight.  Its
dates are counted from 2026-01-01. -/
def Luxon.utc : Luxon where
  DateTime := Date × ℕ
  fromJSDate t := some ((Date.first 24312).plusDays (t / 86400000 - 20454), (t % 86400000).toNat)
  date d := d.1
  valueOf d := d.1.dayNumber * 86400000 + d.2
  startOfDay d := some (d.1, 0)
  startOfMonth d := some (Date.first d.1.month, 0)
  endOfMonth d := some (Date.last d.1.month, 86399999)
  plusDays d n := some (d.1.plusDays n, d.2)
  plusWeeks d n := some (d.1.plusDays (7 * n), d.2)
  plusMonths d n := some (d.1.plusMonths n, d.2)

theorem Luxon.utc_lawful : utc.Lawful fun _ => true where
  startOfDay _ := rfl
  startOfMonth _ := rfl
  endOfMonth _ _ := rfl
  plusDays _ _ _ := rfl
  plusWeeks _ _ _ := rfl
  plusMonths _ _ _ := rfl
  lt_of_date_lt d e s t hs ht hlt := by
    cases hs
    cases ht
    simp only [utc, Date.lt_iff] at *
    omega

theorem Luxon.eq_of_midnight {d : Date} {s : utc.DateTime} (h : utc.Midnight d s) : s = (d, 0) := by
  obtain ⟨rfl, hs⟩ := h
  exact (Option.some.inj hs).symm

theorem Luxon.utc_not_again (d : utc.DateTime) : ¬ utc.Again d := by
  rintro ⟨s, hs, hlt⟩
  rw [eq_of_midnight hs] at hlt
  simp only [utc] at hlt
  omega

theorem Luxon.utc_carries : utc.Carries where
  startOfDay_start d s hs := by
    cases hs
    rfl
  startOfDay_le d s hs := by
    cases hs
    simp only [utc]
    omega
  le_startOfDay d s t hs ht _ := by
    cases hs
    rw [eq_of_midnight ht]
    exact le_rfl
  startOfMonth_start d s hs := by
    cases hs
    rfl
  startOfMonth_first s m hs := by
    rw [eq_of_midnight hs]
    rfl
  plusMonths_zero s _ := by
    refine congrArg some (Prod.ext (Date.ext (Int.add_zero _) ?_) rfl)
    simp [Date.plusMonths, s.1.le_length]
  endOfMonth_last d e s t _ hs ht := by
    cases hs
    rw [eq_of_midnight ht]
    exact le_rfl
  forth d e f s t i j _ _ _ _ _ hs _ ht := by
    cases hs
    rw [eq_of_midnight ht]
    exact .inr le_rfl
  back d e f s t i j _ _ _ _ _ hs _ ht := by
    cases hs
    rw [eq_of_midnight ht]
    exact .inr le_rfl

end Tasks

end Semprec
