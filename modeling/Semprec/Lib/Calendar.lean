import Mathlib.Data.Int.Notation
import Mathlib.Data.Nat.Notation
import Mathlib.Data.Int.Order.Basic
import Mathlib.Order.Nat
import Mathlib.Order.Basic
import Mathlib.Order.Bounds.Defs
import Mathlib.Tactic.IntervalCases
import Mathlib.Tactic.SplitIfs

/-!
# Calendar dates

The Gregorian calendar without end in either direction.  A date is a month and a day of it, and
`Date.dayNumber` numbers the dates in order; 1970-01-01 is day 0.  What is proved of dates that are
so many days apart goes through the numbers.
-/

namespace Semprec

namespace Calendar

def isLeapYear (year : ℤ) : Bool := year % 4 = 0 && (year % 100 ≠ 0 || year % 400 = 0)

def daysInMonth (month : ℤ) : ℕ :=
  if month % 12 = 1 then if isLeapYear (month / 12) then 29 else 28
  else if month % 12 = 3 ∨ month % 12 = 5 ∨ month % 12 = 8 ∨ month % 12 = 10 then 30
  else 31

def leapDays (year : ℤ) : ℤ := (year + 3) / 4 - (year + 99) / 100 + (year + 399) / 400

def daysBefore (year i : ℤ) : ℤ :=
  (367 * i + 5) / 12 - if i < 2 then 0 else if isLeapYear year then 1 else 2

def monthStart (month : ℤ) : ℤ :=
  365 * (month / 12) + leapDays (month / 12) - 719528 + daysBefore (month / 12) (month % 12)

theorem isLeapYear_iff (year : ℤ) :
    isLeapYear year = true ↔ year % 4 = 0 ∧ (year % 100 ≠ 0 ∨ year % 400 = 0) := by
  simp [isLeapYear]

theorem leapDays_succ (year : ℤ) :
    leapDays (year + 1) = leapDays year + if isLeapYear year then 1 else 0 := by
  unfold leapDays
  split_ifs with h <;> rw [isLeapYear_iff] at h <;> omega

theorem daysBefore_succ {month : ℤ} (hi : month % 12 < 11) :
    daysBefore (month / 12) (month % 12 + 1) =
      daysBefore (month / 12) (month % 12) + daysInMonth month := by
  have hpos : 0 ≤ month % 12 := by omega
  unfold daysBefore daysInMonth
  interval_cases month % 12 <;> cases isLeapYear (month / 12) <;> rfl

theorem monthStart_succ (month : ℤ) :
    monthStart (month + 1) = monthStart month + daysInMonth month := by
  by_cases hi : month % 12 < 11
  · have hyear : (month + 1) / 12 = month / 12 := by omega
    have hmonth : (month + 1) % 12 = month % 12 + 1 := by omega
    unfold monthStart
    rw [hyear, hmonth, daysBefore_succ hi]
    omega
  · have hyear : (month + 1) / 12 = month / 12 + 1 := by omega
    have hmonth : (month + 1) % 12 = 0 := by omega
    have hi : month % 12 = 11 := by omega
    unfold monthStart daysBefore daysInMonth
    rw [hyear, hmonth, hi, leapDays_succ]
    split_ifs <;> omega

theorem daysInMonth_bounds (month : ℤ) : 28 ≤ daysInMonth month ∧ daysInMonth month ≤ 31 := by
  unfold daysInMonth
  split_ifs <;> omega

/-- No two months in a row are short. -/
theorem daysInMonth_or (month : ℤ) : daysInMonth month = 31 ∨ daysInMonth (month + 1) = 31 := by
  unfold daysInMonth
  split_ifs <;> omega

theorem daysInMonth_lt {month : ℤ} (h : daysInMonth month < 30) : month % 12 = 1 := by
  unfold daysInMonth at h
  split_ifs at h with hfeb <;> omega

theorem four_months (month : ℤ) : 120 ≤ daysInMonth month + daysInMonth (month + 1) +
    daysInMonth (month + 2) + daysInMonth (month + 3) := by
  have b0 := daysInMonth_bounds month
  have b1 := daysInMonth_bounds (month + 1)
  have b2 := daysInMonth_bounds (month + 2)
  have b3 := daysInMonth_bounds (month + 3)
  have h0 := @daysInMonth_lt month
  have h1 := @daysInMonth_lt (month + 1)
  have h2 := @daysInMonth_lt (month + 2)
  have h3 := @daysInMonth_lt (month + 3)
  have hlong := daysInMonth_or month
  have hlong' := daysInMonth_or (month + 2)
  rw [show month + 2 + 1 = month + 3 by omega] at hlong'
  omega

@[ext]
structure Date where
  month : ℤ
  day : ℕ
  one_le : 1 ≤ day
  le_length : day ≤ daysInMonth month
deriving DecidableEq

namespace Date

def dayNumber (d : Date) : ℤ := monthStart d.month + d.day - 1

/-- Monday is 1, and 1970-01-01 was a Thursday. -/
def weekday (d : Date) : ℤ := (d.dayNumber + 3) % 7 + 1

def first (month : ℤ) : Date :=
  ⟨month, 1, le_rfl, (by omega : 1 ≤ 28).trans (daysInMonth_bounds month).1⟩

def last (month : ℤ) : Date :=
  ⟨month, daysInMonth month, (by omega : 1 ≤ 28).trans (daysInMonth_bounds month).1, le_rfl⟩

def next (d : Date) : Date :=
  if h : d.day < daysInMonth d.month then ⟨d.month, d.day + 1, Nat.succ_pos _, h⟩
  else first (d.month + 1)

def prev (d : Date) : Date :=
  if h : 1 < d.day then
    ⟨d.month, d.day - 1, by omega, (Nat.sub_le _ _).trans d.le_length⟩
  else last (d.month - 1)

def plusDays (d : Date) : ℤ → Date
  | .ofNat n => Nat.rec d (fun _ e => e.next) n
  | .negSucc n => Nat.rec d.prev (fun _ e => e.prev) n

def plusMonths (d : Date) (n : ℤ) : Date :=
  ⟨d.month + n, min d.day (daysInMonth (d.month + n)),
    le_min d.one_le ((by omega : 1 ≤ 28).trans (daysInMonth_bounds _).1), min_le_right _ _⟩

variable {d e : Date}

theorem dayNumber_next (d : Date) : d.next.dayNumber = d.dayNumber + 1 := by
  have hle := d.le_length
  unfold next
  split_ifs with h
  · simp only [dayNumber]
    omega
  · simp only [dayNumber, first, monthStart_succ]
    omega

theorem dayNumber_prev (d : Date) : d.prev.dayNumber = d.dayNumber - 1 := by
  have hone := d.one_le
  unfold prev
  split_ifs with h
  · simp only [dayNumber]
    omega
  · have hstart := monthStart_succ (d.month - 1)
    rw [Int.sub_add_cancel] at hstart
    simp only [dayNumber, last]
    omega

theorem dayNumber_plusDays (d : Date) (n : ℤ) : (d.plusDays n).dayNumber = d.dayNumber + n := by
  rcases n with n | n
  · induction n with
    | zero => simp [plusDays]
    | succ n ih =>
      have hstep : d.plusDays (.ofNat (n + 1)) = (d.plusDays (.ofNat n)).next := rfl
      rw [hstep, dayNumber_next, ih]
      simp only [Int.ofNat_eq_natCast]
      omega
  · induction n with
    | zero =>
      have hstep : d.plusDays (.negSucc 0) = d.prev := rfl
      rw [hstep, dayNumber_prev]
      rfl
    | succ n ih =>
      have hstep : d.plusDays (.negSucc (n + 1)) = (d.plusDays (.negSucc n)).prev := rfl
      rw [hstep, dayNumber_prev, ih]
      omega

theorem monthStart_lt {m n : ℤ} (h : m < n) : monthStart m + daysInMonth m ≤ monthStart n := by
  obtain ⟨k, rfl⟩ : ∃ k : ℕ, n = m + 1 + k := ⟨(n - m - 1).toNat, by omega⟩
  clear h
  induction k with
  | zero => simp [monthStart_succ]
  | succ k ih =>
    have hstep := monthStart_succ (m + 1 + k)
    have : m + 1 + ((k + 1 : ℕ) : ℤ) = m + 1 + k + 1 := by omega
    rw [this, hstep]
    omega

theorem monthStart_add (m : ℤ) (k : ℕ) :
    monthStart m + 28 * k ≤ monthStart (m + k) ∧ monthStart (m + k) ≤ monthStart m + 31 * k := by
  induction k with
  | zero => simp
  | succ k ih =>
    have hstep := monthStart_succ (m + k)
    have hbounds := daysInMonth_bounds (m + k)
    have hadd : m + ((k + 1 : ℕ) : ℤ) = m + k + 1 := by omega
    rw [hadd, hstep]
    omega

/-- The dates of an earlier month are earlier. -/
theorem dayNumber_lt_of_month (h : d.month < e.month) : d.dayNumber < e.dayNumber := by
  have hlt := monthStart_lt h
  have hd := d.le_length
  have he := e.one_le
  simp only [dayNumber]
  omega

theorem dayNumber_injective (h : d.dayNumber = e.dayNumber) : d = e := by
  rcases Int.lt_trichotomy d.month e.month with hlt | heq | hgt
  · have := dayNumber_lt_of_month hlt
    omega
  · refine Date.ext heq ?_
    simp only [dayNumber, heq] at h
    omega
  · have := dayNumber_lt_of_month hgt
    omega

theorem first_plusMonths (m n : ℤ) : (first m).plusMonths n = first (m + n) := by
  have hbounds := daysInMonth_bounds (m + n)
  refine Date.ext rfl ?_
  simp only [plusMonths, first]
  omega

theorem plusDays_sub (d e : Date) : d.plusDays (e.dayNumber - d.dayNumber) = e :=
  dayNumber_injective (by rw [dayNumber_plusDays]; omega)

theorem monthStart_le_dayNumber (d : Date) : monthStart d.month ≤ d.dayNumber := by
  have hone := d.one_le
  simp only [dayNumber]
  omega

theorem dayNumber_lt_monthStart (d : Date) : d.dayNumber < monthStart (d.month + 1) := by
  have hle := d.le_length
  rw [monthStart_succ]
  simp only [dayNumber]
  omega

theorem exists_dayNumber {m n : ℤ} (hm : monthStart m ≤ n) (hn : n < monthStart (m + 1)) :
    ∃ d : Date, d.month = m ∧ d.dayNumber = n := by
  rw [monthStart_succ] at hn
  refine ⟨⟨m, (n - monthStart m + 1).toNat, by omega, by omega⟩, rfl, ?_⟩
  simp only [dayNumber]
  omega

instance : LinearOrder Date := LinearOrder.lift' dayNumber fun _ _ => dayNumber_injective

theorem lt_iff : d < e ↔ d.dayNumber < e.dayNumber := .rfl

theorem le_iff : d ≤ e ↔ d.dayNumber ≤ e.dayNumber := .rfl

theorem lt_of_month (h : d.month < e.month) : d < e := dayNumber_lt_of_month h

theorem month_le_of_lt (h : d < e) : d.month ≤ e.month := by
  by_contra hlt
  exact absurd (lt_of_month (by omega : e.month < d.month)) (not_lt_of_gt h)

end Date

end Calendar

end Semprec
