import Semprec.NextFireAt
import Semprec.Lib.Search
import Mathlib.Data.Int.LeastGreatest
import Mathlib.Data.Nat.Find
import Mathlib.Order.Bounds.Basic
import Mathlib.Tactic.SplitIfs

/-!
# When the next fire time is the least one

A local time means its first occurrence, and one in a gap the next instant of its day.  Local time
never falls back into a time it has skipped, so the instants meant are records of it
(`Meant.record`), and those of later days are later.  Around a local time the offset changes at most
once (`Around`), and all that a guess near it resolves it to follows from where that change is.  The
computed instant is then the least match as soon as the clock is `Regular` on the days that the
computation looks at.
-/

namespace Semprec

namespace Scheduler

variable {zone : Zone} {s t u w w' o : ℤ}

/-- The instant a local time stands for. -/
def Meant (zone : Zone) (w t : ℤ) : Prop :=
  IsLeast {t | zone.localTime t = w} t ∨
    (∀ u, zone.localTime u ≠ w) ∧
      IsLeast {t | zone.localTime t / dayLength = w / dayLength ∧ w < zone.localTime t} t

def TimeOfDay.on (at' : TimeOfDay) (day : ℤ) : ℤ := day * dayLength + at'.millis

def Matches (zone : Zone) (rule : AnyHeartbeatRule) (after t : ℤ) : Prop :=
  match rule with
  | .dailyTime at' => ∃ day, Meant zone (at'.on day) t
  | .weekly days at' => ∃ day, weekdayOf day ∈ days.map WEEKDAY_TO_LUXON ∧ Meant zone (at'.on day) t
  | .everyNDays n at' => Meant zone (at'.on (zone.day after + n)) t
  | .interval minutes => t = after + minutes * 60000
  | _ => False

/-- The computation ends in the least match after `after`, or in nothing where the rule matches
nothing. -/
def ComputesLeast (zone : Zone) (rule : AnyHeartbeatRule) (after : ℤ)
    (moduleRuleKinds : String → Option (String → Zone → ℤ → Option (Option ℤ))) : Prop :=
  ∃ next, zone.computeNextFireAt rule after moduleRuleKinds = .ok next ∧
    match next with
    | some (some v) => IsLeast {t | after < t ∧ Matches zone rule after t} v
    | some none => False
    | none => ∀ t, ¬ Matches zone rule after t

/-! ## A regular clock -/

/-- The local time means an instant after `after`. -/
def Comes (zone : Zone) (after w : ℤ) : Prop := ∃ t, Meant zone w t ∧ after < t

def Shown (zone : Zone) (w : ℤ) : Prop :=
  (∃ t, zone.localTime t = w) ∨ (∃ t, zone.localTime t = w - 1) ∧
    ∃ t, zone.localTime t / dayLength = w / dayLength ∧ w < zone.localTime t

def Again (zone : Zone) (w o : ℤ) : Prop :=
  ∃ t u, t < u ∧ zone.localTime t = w ∧ zone.localTime u = w ∧ zone.offset u = o

/-- The clock shows the time of day of `after` so many days on, and if it does so twice, in the
offset in force so many times 24 hours after `after`. -/
def ClockOn (zone : Zone) (after n x : ℤ) : Prop :=
  zone.localTime x = zone.localTime after + n * dayLength ∧
    (zone.offset x = zone.offset (after + n * dayLength) ∨
      ∀ y, zone.localTime y = zone.localTime x → y = x)

/-- The time of day of `after` so many days on falls on this day, where it is read in the offset in
force so many times 24 hours after `after`, and moved on by a change from or to that offset. -/
def FallsOn (zone : Zone) (after n day : ℤ) : Prop :=
  let w := zone.localTime after + n * dayLength
  let o := zone.offset (after + n * dayLength)
  zone.day (w - min o (zone.offset (w - o))) = day

/-- The local time is to come on this day, the clock shows it or begins a gap with it, and the time
of day of `after` on the day is not past a change that brings it again. -/
structure ToCome (zone : Zone) (after n : ℤ) (at' : TimeOfDay) (day : ℤ) : Prop where
  comes : Comes zone after (at'.on day)
  shown : Shown zone (at'.on day)
  once : ∀ x, ClockOn zone after n x → ¬ Again zone (at'.on day) (zone.offset x)

def Over (zone : Zone) (after w : ℤ) : Prop :=
  (∃ t ≤ after, zone.localTime t = w) ∧
    ∀ u, after < u → zone.localTime u = w → zone.offset u ≠ zone.offset after

/-- The local time is over, or it is skipped and the clock would have shown it by now in the offset
before the gap. -/
def Passed (zone : Zone) (after w : ℤ) : Prop :=
  Over zone after w ∨ (∀ t, zone.localTime t ≠ w) ∧
    ∃ s, w - 2 * dayLength ≤ s ∧ s ≤ after ∧ zone.localTime s < w ∧ w ≤ after + zone.offset s

/-- The platform can hold the dates around, with two weeks to spare. -/
def Roomy (t : ℤ) : Prop := -maxTime + 14 * dayLength ≤ t ∧ t ≤ maxTime - 14 * dayLength

/-- What the clock and the platform must be like for the least match to be found: on the day that
the rule names next its time is to come, a `dailyTime` rule goes on from a time that the clock has
shown, and no named day is left out on the way. -/
def Regular (zone : Zone) (rule : AnyHeartbeatRule) (after : ℤ) : Prop :=
  match rule with
  | .dailyTime at' => ToCome zone after 0 at' (zone.day after) ∨
      Over zone after (at'.on (zone.day after)) ∧ Comes zone after (at'.on (zone.day after + 1)) ∧
        Shown zone (at'.on (zone.day after + 1))
  | .weekly days at' =>
    let named := fun day => weekdayOf day ∈ days.map WEEKDAY_TO_LUXON
    ∃ k : ℕ, k ≤ 7 ∧ ∃ day, FallsOn zone after k day ∧ named day ∧ ToCome zone after k at' day ∧
      (∀ d, zone.day after ≤ d → d < day → named d → ¬ Comes zone after (at'.on d)) ∧
      ∀ j : ℕ, j < k → ∀ d, FallsOn zone after j d → named d →
        j = 0 ∧ Passed zone after (at'.on d)
  | .everyNDays n at' => Roomy (after + n * dayLength) ∧ FallsOn zone after n (zone.day after + n) ∧
      ToCome zone after n at' (zone.day after + n)
  | .interval minutes => zone.dateTime (after + minutes * 60000) ≠ none
  | _ => True

variable {at' : TimeOfDay} {after : ℤ}
  {moduleRuleKinds : String → Option (String → Zone → ℤ → Option (Option ℤ))}

/-! ## The instants meant -/

/-- The first instant of a local time is later on the clock than every instant before it. -/
theorem Zone.localTime_lt (hfirst : ∀ u < t, zone.localTime u ≠ zone.localTime t) (hs : s < t) :
    zone.localTime s < zone.localTime t := by
  by_contra hle
  have hne := hfirst s hs
  have hbs := zone.offset_bounds s
  have hbt := zone.offset_bounds t
  have hu := hfirst (zone.localTime t - zone.offset s)
  simp only [Zone.localTime, maxOffset] at *
  have hchanges := zone.changes (t + zone.offset t - zone.offset s) s t (by omega) (by omega)
    (by simp only [dayLength]; omega)
  rcases hchanges with heq | heq
  · exact hu (by omega) (by rw [heq]; omega)
  · omega

theorem Meant.record (h : Meant zone w t) (hs : s < t) : zone.localTime s < zone.localTime t := by
  refine zone.localTime_lt (fun u hu heq => ?_) hs
  rcases h with ⟨hw, hleast⟩ | ⟨-, ⟨hday, hw⟩, hleast⟩
  · exact absurd (hleast (heq.trans hw)) (by omega)
  · refine absurd (hleast (⟨?_, ?_⟩ : _ ∧ _)) (by omega : ¬ t ≤ u)
    · rw [heq]
      exact hday
    · rw [heq]
      exact hw

theorem Meant.day_eq (h : Meant zone w t) : zone.day t = w / dayLength := by
  rcases h with ⟨hw, -⟩ | ⟨-, ⟨hday, -⟩, -⟩
  · exact congrArg (· / dayLength) hw
  · exact hday

theorem Meant.le_localTime (h : Meant zone w t) : w ≤ zone.localTime t := by
  rcases h with ⟨hw, -⟩ | ⟨-, ⟨-, hw⟩, -⟩
  · exact (show _ = _ from hw).ge
  · exact hw.le

theorem Meant.unique (h : Meant zone w t) (h' : Meant zone w u) : t = u := by
  rcases h with h | ⟨hno, h⟩
  · rcases h' with h' | ⟨hno', -⟩
    · exact h.unique h'
    · exact absurd h.1 (hno' t)
  · rcases h' with h' | ⟨-, h'⟩
    · exact absurd h'.1 (hno u)
    · exact h.unique h'

theorem Meant.le (h : Meant zone w t) (hlt : w / dayLength < zone.day u) : t ≤ u := by
  have hd := h.day_eq
  by_contra hle
  have := h.record (Int.not_le.mp hle)
  simp only [Zone.day, dayLength] at *
  omega

theorem Meant.lt (h : Meant zone w t) (h' : Meant zone w' u)
    (hlt : w / dayLength < w' / dayLength) : t < u := by
  refine (h.le (by rw [h'.day_eq]; exact hlt)).lt_of_ne ?_
  rintro rfl
  rw [← h.day_eq, ← h'.day_eq] at hlt
  exact absurd hlt (lt_irrefl _)

theorem on_bounds (hvalid : at'.valid = true) (day : ℤ) :
    day * dayLength ≤ at'.on day ∧ at'.on day < (day + 1) * dayLength := by
  simp only [TimeOfDay.valid, decide_eq_true_eq] at hvalid
  simp only [TimeOfDay.on, TimeOfDay.millis, dayLength]
  omega

theorem on_div (hvalid : at'.valid = true) (day : ℤ) : at'.on day / dayLength = day := by
  have hbounds := on_bounds hvalid day
  simp only [dayLength] at *
  omega

theorem on_succ (at' : TimeOfDay) (day : ℤ) : at'.on (day + 1) = at'.on day + dayLength := by
  simp only [TimeOfDay.on, dayLength]
  omega

theorem isLeast_meant {p : ℤ → Prop} {day v : ℤ} (hvalid : at'.valid = true) (hp : p day)
    (hv : Meant zone (at'.on day) v) (hlt : after < v)
    (hbefore : ∀ d, zone.day after ≤ d → d < day → p d → ¬ Comes zone after (at'.on d)) :
    IsLeast {t | after < t ∧ ∃ d, p d ∧ Meant zone (at'.on d) t} v := by
  refine ⟨⟨hlt, day, hp, hv⟩, ?_⟩
  rintro t ⟨ht, d, hpd, hd⟩
  rcases Int.lt_trichotomy d day with hdlt | rfl | hdgt
  · rcases Int.lt_or_le d (zone.day after) with hpast | hfrom
    · exact absurd (hd.le (by rw [on_div hvalid]; exact hpast)) (by omega)
    · exact absurd ⟨t, hd, ht⟩ (hbefore d hfrom hdlt hpd)
  · exact (hv.unique hd).le
  · exact (hv.lt hd (by rw [on_div hvalid, on_div hvalid]; exact hdgt)).le

theorem not_comes_of_isLeast {p : ℤ → Prop} {day d v : ℤ} (hvalid : at'.valid = true)
    (hleast : IsLeast {t | after < t ∧ ∃ d, p d ∧ Meant zone (at'.on d) t} v)
    (hv : Meant zone (at'.on day) v) (hd : d < day) (hp : p d) : ¬ Comes zone after (at'.on d) := by
  rintro ⟨t, ht, hlt⟩
  have := hleast.2 ⟨hlt, d, hp, ht⟩
  have := ht.lt hv (by rw [on_div hvalid, on_div hvalid]; exact hd)
  omega

theorem matches_dailyTime :
    {t | after < t ∧ Matches zone (.dailyTime at') after t} =
      {t | after < t ∧ ∃ d, True ∧ Meant zone (at'.on d) t} := by
  simp [Matches]

/-! ## Around a local time -/

theorem dayLength_pos : 0 < dayLength := by decide

theorem maxOffset_eq : 3 * maxOffset = 2 * dayLength := by decide

structure Around (zone : Zone) (w c p q : ℤ) : Prop where
  before : ∀ t, w - 2 * dayLength ≤ t → t ≤ w + 2 * dayLength → t < c → zone.offset t = p
  since : ∀ t, w - 2 * dayLength ≤ t → t ≤ w + 2 * dayLength → c ≤ t → zone.offset t = q
  boundsBefore : -maxOffset < p ∧ p < maxOffset
  boundsSince : -maxOffset < q ∧ q < maxOffset

theorem exists_around (zone : Zone) (w : ℤ) : ∃ c p q, Around zone w c p q := by
  have hpos := dayLength_pos
  have hmax := maxOffset_eq
  by_cases hchange : ∃ t, (w - 2 * dayLength ≤ t ∧ t ≤ w + 2 * dayLength) ∧
      zone.offset t ≠ zone.offset (w - 2 * dayLength)
  · obtain ⟨c, ⟨⟨hlow, hhigh⟩, hne⟩, hleast⟩ :=
      Int.exists_least_of_bdd ⟨w - 2 * dayLength, fun t ht => ht.1.1⟩ hchange
    refine ⟨c, zone.offset (w - 2 * dayLength), zone.offset c, fun t ht ht' htc => ?_,
      fun t ht ht' htc => ?_, zone.offset_bounds _, zone.offset_bounds _⟩
    · by_contra h
      exact absurd (hleast t ⟨⟨ht, ht'⟩, h⟩) (Int.not_le.mpr htc)
    · rcases zone.changes (w - 2 * dayLength) c t hlow htc (by omega) with h | h
      · exact absurd h.symm hne
      · exact h.symm
  · refine ⟨w - 2 * dayLength, zone.offset (w - 2 * dayLength), zone.offset (w - 2 * dayLength),
      fun t ht _ htc => absurd ht (Int.not_le.mpr htc), fun t ht ht' _ => ?_,
      zone.offset_bounds _, zone.offset_bounds _⟩
    by_contra h
    exact hchange ⟨t, ⟨ht, ht'⟩, h⟩

theorem near_localTime (zone : Zone) (t : ℤ) :
    zone.localTime t - maxOffset < t ∧ t < zone.localTime t + maxOffset := by
  have hbounds := zone.offset_bounds t
  simp only [Zone.localTime]
  omega

namespace Around

variable {c p q x y : ℤ}

theorem localTime (h : Around zone w c p q) (hlow : w - 2 * dayLength ≤ t)
    (hhigh : t ≤ w + 2 * dayLength) :
    t < c ∧ zone.localTime t = t + p ∨ c ≤ t ∧ zone.localTime t = t + q := by
  rcases Int.lt_or_le t c with htc | htc
  · exact .inl ⟨htc, congrArg (t + ·) (h.before t hlow hhigh htc)⟩
  · exact .inr ⟨htc, congrArg (t + ·) (h.since t hlow hhigh htc)⟩

theorem localTime_iff (h : Around zone w c p q) (hlow : w - 2 * maxOffset ≤ y)
    (hhigh : y ≤ w + 2 * maxOffset) :
    zone.localTime t = y ↔ t = y - p ∧ t < c ∨ t = y - q ∧ c ≤ t := by
  have hpos := dayLength_pos
  have hmax := maxOffset_eq
  have hp := h.boundsBefore
  have hq := h.boundsSince
  constructor
  · rintro rfl
    have hnear := near_localTime zone t
    have := h.localTime (t := t) (by omega) (by omega)
    omega
  · intro ht
    have := h.localTime (t := t) (by omega) (by omega)
    omega

theorem guess (h : Around zone w c p q) (hlow : w - 2 * dayLength ≤ x)
    (hhigh : x ≤ w + 2 * dayLength) : zone.offset x = p ∨ zone.offset x = q := by
  rcases Int.lt_or_le x c with hxc | hxc
  · exact .inl (h.before x hlow hhigh hxc)
  · exact .inr (h.since x hlow hhigh hxc)

theorem meant_iff (h : Around zone w c p q) : Meant zone w y ↔
    w - p < c ∧ y = w - p ∨ c ≤ w - p ∧ (c ≤ w - q ∧ y = w - q ∨
      w - q < c ∧ y = c ∧ (c + q) / dayLength = w / dayLength) := by
  have hpos := dayLength_pos
  have hmax := maxOffset_eq
  have hp := h.boundsBefore
  have hq := h.boundsSince
  have hiff : ∀ t, zone.localTime t = w ↔ t = w - p ∧ t < c ∨ t = w - q ∧ c ≤ t :=
    fun t => h.localTime_iff (by omega) (by omega)
  -- what the clock shows later on the day of a skipped local time
  have hlater : ∀ t, zone.localTime t / dayLength = w / dayLength → w < zone.localTime t →
      t < c ∧ zone.localTime t = t + p ∨ c ≤ t ∧ zone.localTime t = t + q := by
    intro t hday hlt
    have hnear := near_localTime zone t
    refine h.localTime ?_ ?_ <;> simp only [dayLength] at * <;> omega
  constructor
  · rintro (⟨hw, hleast⟩ | ⟨hno, ⟨hday, hlt⟩, hleast⟩)
    · rcases (hiff y).mp hw with ⟨rfl, hy⟩ | ⟨rfl, hy⟩
      · exact .inl ⟨hy, rfl⟩
      · refine .inr ⟨Int.not_lt.mp fun hlt => ?_, .inl ⟨hy, rfl⟩⟩
        exact absurd (hleast ((hiff _).mpr (.inl ⟨rfl, hlt⟩))) (by omega)
    · have hbefore : c ≤ w - p := Int.not_lt.mp fun hlt => hno _ ((hiff _).mpr (.inl ⟨rfl, hlt⟩))
      have hsince : w - q < c := Int.not_le.mp fun hle => hno _ ((hiff _).mpr (.inr ⟨rfl, hle⟩))
      have hy := hlater y hday hlt
      have hc := h.localTime (t := c) (by omega) (by omega)
      have hdayc : (c + q) / dayLength = w / dayLength := by
        simp only [dayLength] at *
        omega
      have hle : y ≤ c := hleast ⟨by rw [hc.resolve_left (by omega) |>.2]; exact hdayc, by omega⟩
      exact .inr ⟨hbefore, .inr ⟨hsince, by omega, hdayc⟩⟩
  · rintro (⟨hlt, rfl⟩ | ⟨hle, ⟨hle', rfl⟩ | ⟨hlt, rfl, hday⟩⟩)
    · exact .inl ⟨(hiff _).mpr (.inl ⟨rfl, hlt⟩), fun t ht => by
        rcases (hiff t).mp ht with ht | ht <;> omega⟩
    · exact .inl ⟨(hiff _).mpr (.inr ⟨rfl, hle'⟩), fun t ht => by
        rcases (hiff t).mp ht with ht | ht <;> omega⟩
    · have hy := (h.localTime (t := y) (by omega) (by omega)).resolve_left (by omega)
      refine .inr ⟨fun t ht => ?_, ⟨by rw [hy.2]; exact hday, by omega⟩, fun t ⟨hd, ht⟩ => ?_⟩
      · rcases (hiff t).mp ht with ht | ht <;> omega
      · have := hlater t hd ht
        omega

theorem shown_iff (h : Around zone w c p q) : Shown zone w ↔
    w - p < c ∨ c ≤ w - q ∨ c = w - p ∧ (c + q) / dayLength = w / dayLength := by
  have hpos := dayLength_pos
  have hmax := maxOffset_eq
  have hp := h.boundsBefore
  have hq := h.boundsSince
  have hiff : ∀ t, zone.localTime t = w ↔ t = w - p ∧ t < c ∨ t = w - q ∧ c ≤ t :=
    fun t => h.localTime_iff (by omega) (by omega)
  constructor
  · rintro (⟨t, ht⟩ | ⟨⟨t, ht⟩, u, hday, hlt⟩)
    · rcases (hiff t).mp ht with ht | ht <;> omega
    · by_cases hshown : w - p < c ∨ c ≤ w - q
      · exact hshown.elim .inl fun h => .inr (.inl h)
      · have ht := (h.localTime_iff (by simp only [maxOffset]; omega)
          (by simp only [maxOffset]; omega)).mp ht
        have hnear := near_localTime zone u
        have hu := h.localTime (t := u) (by simp only [dayLength] at *; omega)
          (by simp only [dayLength] at *; omega)
        refine .inr (.inr ⟨by omega, ?_⟩)
        simp only [dayLength] at *
        omega
  · rintro (hlt | hle | ⟨hc, hday⟩)
    · exact .inl ⟨_, (hiff _).mpr (.inl ⟨rfl, hlt⟩)⟩
    · exact .inl ⟨_, (hiff _).mpr (.inr ⟨rfl, hle⟩)⟩
    · by_cases hqc : c ≤ w - q
      · exact .inl ⟨_, (hiff _).mpr (.inr ⟨rfl, hqc⟩)⟩
      · have hy := (h.localTime (t := c) (by omega) (by omega)).resolve_left (by omega)
        refine .inr ⟨⟨w - 1 - p, ?_⟩, c, by rw [hy.2]; exact hday, by omega⟩
        exact (h.localTime_iff (by simp only [maxOffset]; omega)
          (by simp only [maxOffset]; omega)).mpr (.inl ⟨rfl, by omega⟩)

theorem again_iff (h : Around zone w c p q) (hlow : w - 2 * maxOffset ≤ y)
    (hhigh : y ≤ w + 2 * maxOffset) : Again zone y o ↔ y - p < c ∧ c ≤ y - q ∧ o = q := by
  have hpos := dayLength_pos
  have hmax := maxOffset_eq
  have hp := h.boundsBefore
  have hq := h.boundsSince
  have hiff : ∀ t, zone.localTime t = y ↔ t = y - p ∧ t < c ∨ t = y - q ∧ c ≤ t :=
    fun t => h.localTime_iff hlow hhigh
  constructor
  · rintro ⟨t, u, hlt, ht, hu, rfl⟩
    have ht := (hiff t).mp ht
    have hu := (hiff u).mp hu
    exact ⟨by omega, by omega, h.since u (by omega) (by omega) (by omega)⟩
  · rintro ⟨hlt, hle, rfl⟩
    exact ⟨y - p, y - o, by omega, (hiff _).mpr (.inl ⟨rfl, hlt⟩), (hiff _).mpr (.inr ⟨rfl, hle⟩),
      h.since _ (by omega) (by omega) hle⟩

/-- What the guess at an instant nearby resolves the local time to. -/
theorem fixOffset_eq (h : Around zone w c p q) (ho : o = p ∨ o = q) : zone.fixOffset w o =
    if w - p < c ∧ (o = p ∨ w - q < c) then w - p else if c ≤ w - q then w - q else w - p := by
  have hpos := dayLength_pos
  have hmax := maxOffset_eq
  have hp := h.boundsBefore
  have hq := h.boundsSince
  have hop : zone.offset (w - p) = if w - p < c then p else q := by
    split_ifs with hlt
    · exact h.before _ (by omega) (by omega) hlt
    · exact h.since _ (by omega) (by omega) (Int.not_lt.mp hlt)
  have hoq : zone.offset (w - q) = if w - q < c then p else q := by
    split_ifs with hlt
    · exact h.before _ (by omega) (by omega) hlt
    · exact h.since _ (by omega) (by omega) (Int.not_lt.mp hlt)
  unfold Zone.fixOffset
  by_cases hlt : w - p < c <;> by_cases hlt' : w - q < c <;> rcases ho with rfl | rfl <;>
    simp only [hop, hoq, hlt, hlt', if_true, if_false, true_and, false_and, and_true, true_or] <;>
    split_ifs <;> simp_all <;> omega

end Around

theorem meant_fixOffset_iff {x : ℤ} (hlow : w - 2 * dayLength ≤ x) (hhigh : x ≤ w + 2 * dayLength) :
    Meant zone w (zone.fixOffset w (zone.offset x)) ↔
      Shown zone w ∧ ¬ Again zone w (zone.offset x) := by
  obtain ⟨c, p, q, h⟩ := exists_around zone w
  rw [h.meant_iff, h.shown_iff,
    h.again_iff (by simp only [maxOffset]; omega) (by simp only [maxOffset]; omega),
    h.fixOffset_eq (h.guess hlow hhigh)]
  rcases h.guess hlow hhigh with hx | hx <;> rw [hx] <;> split_ifs <;> omega

/-! ## What the computation goes through -/

/-- The time of day of `after` so many days on, as the library resolves it. -/
def onward (zone : Zone) (after n : ℤ) : ℤ :=
  zone.fixOffset (zone.localTime after + n * dayLength) (zone.offset after)

/-- The rule's time on the day of an instant, as the library resolves it. -/
def candidate (zone : Zone) (at' : TimeOfDay) (x : ℤ) : ℤ :=
  zone.fixOffset (at'.on (zone.day x)) (zone.offset x)

theorem fixOffset_near (zone : Zone) (w o : ℤ) :
    w - maxOffset < zone.fixOffset w o ∧ zone.fixOffset w o < w + maxOffset := by
  have hb := zone.offset_bounds (w - o)
  have hb' := zone.offset_bounds (w - zone.offset (w - o))
  unfold Zone.fixOffset
  dsimp only
  split_ifs <;> omega

theorem candidate_near (zone : Zone) (hvalid : at'.valid = true) (x : ℤ) :
    x - 2 * dayLength < at'.on (zone.day x) ∧ at'.on (zone.day x) < x + 2 * dayLength ∧
      at'.on (zone.day x) - maxOffset < candidate zone at' x ∧
        candidate zone at' x < at'.on (zone.day x) + maxOffset := by
  have hb := zone.offset_bounds x
  have hon := on_bounds hvalid (zone.day x)
  have hnear := fixOffset_near zone (at'.on (zone.day x)) (zone.offset x)
  refine ⟨?_, ?_, hnear⟩ <;> simp only [Zone.day, Zone.localTime, dayLength, maxOffset] at * <;>
    omega

/-- The clock never shows less than the local time that was resolved. -/
theorem le_localTime_fixOffset (zone : Zone) (hlow : -maxOffset < o) (hhigh : o < maxOffset) :
    w ≤ zone.localTime (zone.fixOffset w o) := by
  have hpos := dayLength_pos
  have hmax := maxOffset_eq
  obtain ⟨c, p, q, h⟩ := exists_around zone w
  have hp := h.boundsBefore
  have hq := h.boundsSince
  have hb := zone.offset_bounds (w - o)
  have hb' := zone.offset_bounds (w - zone.offset (w - o))
  have ho := h.localTime (t := w - o) (by omega) (by omega)
  have ho2 := h.localTime (t := w - zone.offset (w - o)) (by omega) (by omega)
  have hmin := h.localTime
    (t := w - min (zone.offset (w - o)) (zone.offset (w - zone.offset (w - o))))
    (by omega) (by omega)
  unfold Zone.fixOffset
  simp only [Zone.localTime] at *
  split_ifs <;> omega

theorem resolve_eq (hlow : -maxOffset < o) (hhigh : o < maxOffset)
    (hw : -maxTime + 3 * dayLength ≤ w) (hw' : w ≤ maxTime - 3 * dayLength) :
    zone.resolve w o = some (zone.fixOffset w o) := by
  have hpos := dayLength_pos
  have hmax := maxOffset_eq
  have hb := zone.offset_bounds (w - o)
  have hnear := fixOffset_near zone w o
  have hb' := zone.offset_bounds (zone.fixOffset w o)
  have hholds : ∀ t, -maxTime ≤ t → t ≤ maxTime → holds t = true := fun t h h' =>
    decide_eq_true ⟨h, h'⟩
  unfold Zone.resolve Zone.dateTime Zone.localTime
  rw [if_pos ⟨hholds _ (by omega) (by omega), hholds _ (by omega) (by omega),
    .inr (hholds _ (by omega) (by omega))⟩,
    if_pos ⟨hholds _ (by omega) (by omega), hholds _ (by omega) (by omega)⟩]

section roomy

variable {n : ℤ}

theorem dateTime_eq (h : Roomy after) : zone.dateTime after = some after := by
  have hb := zone.offset_bounds after
  have hmax := maxOffset_eq
  have hpos := dayLength_pos
  unfold Roomy at h
  exact if_pos ⟨decide_eq_true ⟨by omega, by omega⟩,
    decide_eq_true ⟨by simp only [Zone.localTime]; omega, by simp only [Zone.localTime]; omega⟩⟩

/-- The platform holds what the library makes of the dates around. -/
def Held (t : ℤ) : Prop := -maxTime + 7 * dayLength ≤ t ∧ t ≤ maxTime - 7 * dayLength

theorem plusDays_eq (h : Held (after + n * dayLength)) :
    zone.plusDays after n = some (onward zone after n) := by
  have hb := zone.offset_bounds after
  have hmax := maxOffset_eq
  have hpos := dayLength_pos
  unfold Held at h
  refine resolve_eq hb.1 hb.2 ?_ ?_ <;> simp only [Zone.localTime] <;> omega

theorem atLocalTime_eq (zone : Zone) {x : ℤ} (hvalid : at'.valid = true)
    (hlow : -maxTime + 5 * dayLength ≤ x) (hhigh : x ≤ maxTime - 5 * dayLength) :
    zone.atLocalTime x at' = some (candidate zone at' x) := by
  have hb := zone.offset_bounds x
  have hpos := dayLength_pos
  have hnear := candidate_near zone hvalid x
  exact resolve_eq hb.1 hb.2 (show _ ≤ at'.on (zone.day x) by omega)
    (show at'.on (zone.day x) ≤ _ by omega)

theorem held_onward (zone : Zone) (h : Held (after + n * dayLength)) :
    -maxTime + 5 * dayLength ≤ onward zone after n ∧
      onward zone after n ≤ maxTime - 5 * dayLength := by
  have hb := zone.offset_bounds after
  have hmax := maxOffset_eq
  have hpos := dayLength_pos
  have hnear := fixOffset_near zone (zone.localTime after + n * dayLength) (zone.offset after)
  unfold Held at h
  unfold onward
  simp only [Zone.localTime] at *
  omega

end roomy

theorem onward_eq (zone : Zone) (after n : ℤ) : onward zone after n =
    zone.localTime after + n * dayLength - min (zone.offset (after + n * dayLength))
      (zone.offset
        (zone.localTime after + n * dayLength - zone.offset (after + n * dayLength))) := by
  have hread :
      zone.localTime after + n * dayLength - zone.offset after = after + n * dayLength := by
    simp only [Zone.localTime]
    omega
  unfold onward Zone.fixOffset
  dsimp only
  rw [hread]
  split_ifs with hguess hread'
  · rw [← hguess, hread, ← hguess, min_self, hread]
  · rw [← hread', min_self]
  · rfl

theorem fallsOn_iff {n day : ℤ} :
    FallsOn zone after n day ↔ zone.day (onward zone after n) = day := by
  rw [onward_eq]
  rfl

/-- Where the clock shows a local time of the day again, the instant that the day is read at has the
later offset exactly if the time of day of `after` is past the change. -/
theorem again_onward {n : ℤ} (hday : w / dayLength = zone.day (onward zone after n)) :
    Again zone w (zone.offset (onward zone after n)) ↔
      ∃ x, ClockOn zone after n x ∧ Again zone w (zone.offset x) := by
  have hpos := dayLength_pos
  have hmax := maxOffset_eq
  have hb := zone.offset_bounds after
  have hx := fixOffset_near zone (zone.localTime after + n * dayLength) (zone.offset after)
  have hlocal := near_localTime zone (onward zone after n)
  have heq := onward_eq zone after n
  have hread :
      zone.localTime after + n * dayLength - zone.offset after = after + n * dayLength := by
    simp only [Zone.localTime]
    omega
  unfold ClockOn
  change _ - _ < onward zone after n ∧ onward zone after n < _ at hx
  generalize onward zone after n = x at *
  generalize zone.localTime after + n * dayLength = v at *
  obtain ⟨c, p, q, h⟩ := exists_around zone ((v + w) / 2)
  have hmid : (v + w) / 2 - 2 * maxOffset ≤ w ∧ w ≤ (v + w) / 2 + 2 * maxOffset ∧
      (v + w) / 2 - 2 * maxOffset ≤ v ∧ v ≤ (v + w) / 2 + 2 * maxOffset := by
    simp only [Zone.day, dayLength, maxOffset] at *
    omega
  have hp := h.boundsBefore
  have hq := h.boundsSince
  have hv : ∀ t, zone.localTime t = v ↔ t = v - p ∧ t < c ∨ t = v - q ∧ c ≤ t :=
    fun t => h.localTime_iff hmid.2.2.1 hmid.2.2.2
  have hoffset : ∀ t, v - maxOffset ≤ t → t ≤ v + maxOffset →
      t < c ∧ zone.offset t = p ∨ c ≤ t ∧ zone.offset t = q := by
    intro t hlow hhigh
    have := h.localTime (t := t) (by omega) (by omega)
    simp only [Zone.localTime] at this
    omega
  have hox := hoffset x (by omega) (by omega)
  have ho := hoffset (after + n * dayLength) (by omega) (by omega)
  have hop := hoffset (v - p) (by omega) (by omega)
  have hoq := hoffset (v - q) (by omega) (by omega)
  simp only [h.again_iff hmid.1 hmid.2.1]
  constructor
  · rintro ⟨hlt, hle, hlater⟩
    refine ⟨x, ⟨?_, ?_⟩, hlt, hle, hlater⟩
    · rcases ho with ⟨-, ho⟩ | ⟨-, ho⟩ <;> rw [ho] at heq <;> refine (hv x).mpr ?_ <;> omega
    · rcases ho with ⟨-, ho⟩ | ⟨-, ho⟩ <;> rw [ho] at heq ⊢
      · refine .inr fun y hy => ?_
        have hxv : zone.localTime x = v := (hv x).mpr (by omega)
        have hy := (hv y).mp (hy.trans hxv)
        omega
      · exact .inl hlater
  · rintro ⟨y, ⟨hy, hread'⟩, hlt, hle, hlater⟩
    refine ⟨hlt, hle, ?_⟩
    have hy' := (hv y).mp hy
    have hoy := hoffset y (by omega) (by omega)
    have honce : zone.offset (after + n * dayLength) = q ∨ c ≤ v - p := by
      rcases hread' with hread' | honce
      · exact .inl (by rw [← hread']; exact hlater)
      · refine .inr (Int.not_lt.mp fun hbefore => ?_)
        have := honce (v - p) (((hv _).mpr (.inl ⟨rfl, hbefore⟩)).trans hy.symm)
        omega
    rcases ho with ⟨-, ho⟩ | ⟨-, ho⟩ <;> rw [ho] at heq <;> omega

theorem toCome_iff (zone : Zone) (after n : ℤ) (hvalid : at'.valid = true) :
    ToCome zone after n at' (zone.day (onward zone after n)) ↔
      Meant zone (at'.on (zone.day (onward zone after n)))
          (candidate zone at' (onward zone after n)) ∧
        after < candidate zone at' (onward zone after n) := by
  have hnear := candidate_near zone hvalid (onward zone after n)
  have hmeant : Meant zone _ (candidate zone at' (onward zone after n)) ↔ _ :=
    meant_fixOffset_iff (by omega) (by omega)
  have hagain := again_onward (n := n) (on_div hvalid (zone.day (onward zone after n)))
  constructor
  · rintro ⟨⟨t, ht, hlt⟩, hshown, honce⟩
    have hm := hmeant.mpr ⟨hshown, fun h => by
      obtain ⟨x, hx, hx'⟩ := hagain.mp h
      exact honce x hx hx'⟩
    exact ⟨hm, by rwa [hm.unique ht]⟩
  · rintro ⟨hm, hlt⟩
    obtain ⟨hshown, honce⟩ := hmeant.mp hm
    exact ⟨⟨_, hm, hlt⟩, hshown, fun x hx hx' => honce (hagain.mpr ⟨x, hx, hx'⟩)⟩

theorem onward_zero (zone : Zone) (after : ℤ) : onward zone after 0 = after := by
  simp [onward, Zone.fixOffset, Zone.localTime]

theorem toCome_today_iff (hvalid : at'.valid = true) : ToCome zone after 0 at' (zone.day after) ↔
    Meant zone (at'.on (zone.day after)) (candidate zone at' after) ∧
      after < candidate zone at' after := by
  have h := toCome_iff zone after 0 hvalid
  rwa [onward_zero] at h

/-- A day after today's time is tomorrow's, read in the offset of today's. -/
theorem onward_one
    (hlocal : zone.localTime (candidate zone at' after) = at'.on (zone.day after)) :
    onward zone (candidate zone at' after) 1 =
      zone.fixOffset (at'.on (zone.day after + 1)) (zone.offset (candidate zone at' after)) := by
  rw [onward, hlocal, on_succ, one_mul]

/-! ## Times that have passed -/

theorem passed_iff (hvalid : at'.valid = true) :
    (Over zone after (at'.on (zone.day after)) ↔ candidate zone at' after ≤ after ∧
      zone.localTime (candidate zone at' after) = at'.on (zone.day after)) ∧
    (Passed zone after (at'.on (zone.day after)) ↔ candidate zone at' after ≤ after) := by
  have hpos := dayLength_pos
  have hmax := maxOffset_eq
  have hnear := candidate_near zone hvalid after
  unfold Passed Over candidate
  generalize at'.on (zone.day after) = w at *
  obtain ⟨c, p, q, h⟩ := exists_around zone w
  have hp := h.boundsBefore
  have hq := h.boundsSince
  have hiff : ∀ t, zone.localTime t = w ↔ t = w - p ∧ t < c ∨ t = w - q ∧ c ≤ t :=
    fun t => h.localTime_iff (by omega) (by omega)
  have hafter := h.localTime (t := after) (by omega) (by omega)
  simp only [Zone.localTime] at hafter
  rw [h.fixOffset_eq (h.guess (by omega) (by omega))]
  have hover : ((∃ t ≤ after, zone.localTime t = w) ∧
      ∀ u, after < u → zone.localTime u = w → zone.offset u ≠ zone.offset after) ↔
      w - p < c ∧ w - p ≤ after ∧ (c ≤ w - q → zone.offset after = q → w - q ≤ after) ∨
        c ≤ w - p ∧ c ≤ w - q ∧ w - q ≤ after := by
    have hop := h.before (w - p) (by omega) (by omega)
    have hoq := h.since (w - q) (by omega) (by omega)
    constructor
    · rintro ⟨⟨t, hle, ht⟩, hno⟩
      have ht := (hiff t).mp ht
      have hnoq := hno (w - q)
      rw [hiff] at hnoq
      omega
    · intro hor
      refine ⟨?_, fun u hlt hu => ?_⟩
      · rcases hor with ⟨hlt, hle, -⟩ | ⟨-, hle, hle'⟩
        · exact ⟨w - p, hle, (hiff _).mpr (.inl ⟨rfl, hlt⟩)⟩
        · exact ⟨w - q, hle', (hiff _).mpr (.inr ⟨rfl, hle⟩)⟩
      · have hu := (hiff u).mp hu
        rcases hu with ⟨rfl, hu⟩ | ⟨rfl, hu⟩ <;> omega
  have hskipped : ((∀ t, zone.localTime t ≠ w) ∧
      ∃ s, w - 2 * dayLength ≤ s ∧ s ≤ after ∧ zone.localTime s < w ∧ w ≤ after + zone.offset s) ↔
      c ≤ w - p ∧ w - q < c ∧ w - p ≤ after := by
    constructor
    · rintro ⟨hno, s, hlow, hle, hlt, hw⟩
      have hnop := hno (w - p)
      have hnoq := hno (w - q)
      have hs := h.localTime (t := s) (by omega) (by omega)
      simp only [Zone.localTime, ne_eq] at *
      rw [hiff] at hnop hnoq
      omega
    · rintro ⟨hle, hlt, hafter⟩
      have hc := h.localTime (t := c - 1) (by omega) (by omega)
      simp only [Zone.localTime] at *
      refine ⟨fun t ht => ?_, c - 1, by omega, by omega, by omega, by omega⟩
      have := (hiff t).mp ht
      omega
  rw [hskipped, hover, hiff]
  clear hskipped hover hiff
  constructor <;> split_ifs <;> omega

/-! ## What the computation stops at -/

theorem dailyTime_eq (hvalid : at'.valid = true) (hroomy : Roomy after) :
    zone.computeNextFireAt (.dailyTime at') after moduleRuleKinds =
      .ok (some (some (if candidate zone at' after ≤ after then
        onward zone (candidate zone at' after) 1 else candidate zone at' after))) := by
  have hpos := dayLength_pos
  have hmax := maxOffset_eq
  have htoday := candidate_near zone hvalid after
  have hnext : zone.plusDays (candidate zone at' after) 1 = _ :=
    plusDays_eq (by unfold Roomy Held at *; omega)
  have hcandidate := atLocalTime_eq zone (x := after) hvalid
    (by unfold Roomy at hroomy; omega) (by unfold Roomy at hroomy; omega)
  simp only [Zone.computeNextFireAt, dateTime_eq hroomy, Option.bind_some, hcandidate, hnext]
  split_ifs <;> rfl

/-- What the loop reads so many days on. -/
def stop (zone : Zone) (days : List Weekday) (at' : TimeOfDay) (after : ℤ) (j : ℕ) : Option ℤ :=
  if weekdayOf (zone.day (onward zone after j)) ∈ days.map WEEKDAY_TO_LUXON ∧
      after < candidate zone at' (onward zone after j) then
    some (candidate zone at' (onward zone after j))
  else none

theorem weeklyCandidate_eq (zone : Zone) (days : List Weekday) (hvalid : at'.valid = true)
    (hroomy : Roomy after) :
    ∀ {l : List ℕ}, (∀ j ∈ l, j < 8) →
      zone.weeklyCandidate after days at' l = l.findSome? (stop zone days at' after)
  | [], _ => rfl
  | j :: l, hl => by
    have hpos := dayLength_pos
    have hj := hl j List.mem_cons_self
    have hrest := weeklyCandidate_eq zone days hvalid hroomy
      fun i hi => hl i (List.mem_cons_of_mem j hi)
    have hheld : Held (after + (j : ℤ) * dayLength) := by
      have : (j : ℤ) * dayLength ≤ 7 * dayLength := by
        simp only [dayLength]
        omega
      have : 0 ≤ (j : ℤ) * dayLength := by
        simp only [dayLength]
        omega
      unfold Roomy Held at *
      omega
    have hat := held_onward zone hheld
    rw [Zone.weeklyCandidate, plusDays_eq hheld, List.findSome?_cons, hrest]
    unfold stop
    by_cases hnamed : weekdayOf (zone.day (onward zone after j)) ∈ days.map WEEKDAY_TO_LUXON
    · rw [Option.filter_some, if_pos (decide_eq_true hnamed)]
      simp only [atLocalTime_eq zone hvalid hat.1 hat.2, Option.filter_some, hnamed,
        true_and, decide_eq_true_eq]
      split_ifs <;> rfl
    · rw [Option.filter_some, if_neg (by simpa using hnamed), if_neg fun h => hnamed h.1]

theorem weekly_iff {days : List Weekday} (hvalid : at'.valid = true) (hroomy : Roomy after) :
    ComputesLeast zone (.weekly days at') after moduleRuleKinds ↔
      ∃ k < 8, stop zone days at' after k = some (candidate zone at' (onward zone after k)) ∧
        (∀ j < k, stop zone days at' after j = none) ∧
        IsLeast {t | after < t ∧ Matches zone (.weekly days at') after t}
          (candidate zone at' (onward zone after k)) := by
  have hloop := weeklyCandidate_eq zone days hvalid hroomy
    (l := List.range 8) fun j hj => List.mem_range.mp hj
  constructor
  · rintro ⟨next, hnext, hleast⟩
    simp only [Zone.computeNextFireAt, dateTime_eq hroomy, Option.bind_some, hloop] at hnext
    split at hnext
    · rename_i y hy
      cases hnext
      obtain ⟨k, hk, hstop, hbefore⟩ := findSome?_range.mp hy
      have hy' : candidate zone at' (onward zone after k) = y := by
        unfold stop at hstop
        split_ifs at hstop
        exact Option.some.inj hstop
      subst hy'
      exact ⟨k, hk, hstop, hbefore, hleast⟩
    · cases hnext
  · rintro ⟨k, hk, hstop, hbefore, hleast⟩
    refine ⟨some (some _), ?_, hleast⟩
    simp only [Zone.computeNextFireAt, dateTime_eq hroomy, Option.bind_some, hloop]
    rw [findSome?_range.mpr ⟨k, hk, hstop, hbefore⟩]

/-! ## A regular clock is enough -/

theorem Over.not_comes (h : Over zone after w) : ¬ Comes zone after w := by
  obtain ⟨⟨s, hs, hshows⟩, -⟩ := h
  rintro ⟨u, ⟨-, hleast⟩ | ⟨hno, -⟩, hlt⟩
  · exact absurd (hleast hshows) (by omega)
  · exact hno s hshows

theorem dailyTime_least (hvalid : at'.valid = true) (hroomy : Roomy after)
    (h : Regular zone (.dailyTime at') after) :
    ComputesLeast zone (.dailyTime at') after moduleRuleKinds := by
  refine ⟨_, dailyTime_eq hvalid hroomy, ?_⟩
  simp only [matches_dailyTime]
  rcases h with htoday | ⟨hover, ⟨t, ht, hlt⟩, hshown⟩
  · obtain ⟨hm, hlt⟩ := (toCome_today_iff hvalid).mp htoday
    rw [if_neg (Int.not_le.mpr hlt)]
    exact isLeast_meant hvalid trivial hm hlt fun d hfrom hd => absurd hd (Int.not_lt.mpr hfrom)
  · obtain ⟨hle, hlocal⟩ := (passed_iff hvalid).1.mp hover
    rw [if_pos hle]
    have hnear := candidate_near zone hvalid after
    have hsucc := on_succ at' (zone.day after)
    have hm : Meant zone (at'.on (zone.day after + 1))
        (onward zone (candidate zone at' after) 1) := by
      rw [onward_one hlocal]
      have hpos := dayLength_pos
      have hmax := maxOffset_eq
      refine (meant_fixOffset_iff (by omega) (by omega)).mpr ⟨hshown, fun hagain => ?_⟩
      -- tomorrow's time is to come, so today's was read before it comes for the first time
      obtain ⟨c, p, q, h⟩ := exists_around zone (at'.on (zone.day after + 1))
      obtain ⟨hbefore, hsince, hq⟩ := (h.again_iff (by omega) (by omega)).mp hagain
      have ht := h.meant_iff.mp ht
      have hread := h.before (candidate zone at' after) (by omega) (by omega)
      omega
    refine isLeast_meant hvalid trivial hm ?_ fun d hfrom hd _ => ?_
    · rwa [hm.unique ht]
    · obtain rfl : d = zone.day after := by omega
      exact hover.not_comes

theorem weekly_least {days : List Weekday} (hvalid : at'.valid = true) (hroomy : Roomy after)
    (h : Regular zone (.weekly days at') after) :
    ComputesLeast zone (.weekly days at') after moduleRuleKinds := by
  obtain ⟨k, hk, day, hfalls, hnamed, hto, hbefore, hpassed⟩ := h
  obtain rfl := fallsOn_iff.mp hfalls
  obtain ⟨hm, hlt⟩ := (toCome_iff _ _ _ hvalid).mp hto
  refine (weekly_iff hvalid hroomy).mpr ⟨k, by omega, if_pos ⟨hnamed, hlt⟩, fun j hj => ?_, ?_⟩
  · refine if_neg fun ⟨hnamed', hlt'⟩ => ?_
    obtain ⟨rfl, hpast⟩ := hpassed j hj _ (fallsOn_iff.mpr rfl) hnamed'
    rw [Nat.cast_zero, onward_zero] at hpast hlt'
    exact absurd ((passed_iff hvalid).2.mp hpast) (Int.not_le.mpr hlt')
  · exact isLeast_meant (p := fun d => weekdayOf d ∈ days.map WEEKDAY_TO_LUXON) hvalid hnamed hm hlt
      hbefore

theorem held_of_roomy (h : Roomy t) : Held t := by
  have hpos := dayLength_pos
  unfold Roomy Held at *
  omega

theorem everyNDays_eq {n : ℤ} (hvalid : at'.valid = true) (hroomy : Roomy after)
    (hroomy' : Roomy (after + n * dayLength)) :
    zone.computeNextFireAt (.everyNDays n at') after moduleRuleKinds =
      .ok (some (some (candidate zone at' (onward zone after n)))) := by
  have hheld := held_of_roomy hroomy'
  have hat := held_onward zone hheld
  simp only [Zone.computeNextFireAt, dateTime_eq hroomy, Option.bind_some, plusDays_eq hheld,
    atLocalTime_eq _ hvalid hat.1 hat.2]

theorem everyNDays_least {n : ℤ} (hvalid : at'.valid = true) (hroomy : Roomy after)
    (h : Regular zone (.everyNDays n at') after) :
    ComputesLeast zone (.everyNDays n at') after moduleRuleKinds := by
  obtain ⟨hroomy', hfalls, hto⟩ := h
  have hday := fallsOn_iff.mp hfalls
  rw [← hday] at hto
  obtain ⟨hm, hlt⟩ := (toCome_iff _ _ _ hvalid).mp hto
  rw [hday] at hm
  exact ⟨_, everyNDays_eq hvalid hroomy hroomy', ⟨hlt, hm⟩, fun t ht => (hm.unique ht.2).le⟩

theorem interval_iff {minutes : ℤ} (hpos : 0 < minutes) (hroomy : Roomy after) :
    ComputesLeast zone (.interval minutes) after moduleRuleKinds ↔
      Regular zone (.interval minutes) after := by
  have hcompute : zone.computeNextFireAt (.interval minutes) after moduleRuleKinds =
      .ok (some (zone.dateTime (after + minutes * 60000))) := by
    simp only [Zone.computeNextFireAt, dateTime_eq hroomy, Option.bind_some, Zone.plusMinutes]
  constructor
  · rintro ⟨next, hnext, hleast⟩ hnone
    rw [hcompute, hnone] at hnext
    cases hnext
    exact hleast
  · intro h
    have hsome : zone.dateTime (after + minutes * 60000) = some (after + minutes * 60000) := by
      have h : zone.dateTime (after + minutes * 60000) ≠ none := h
      unfold Zone.dateTime at *
      split_ifs at * with hholds
      · rfl
      · exact absurd rfl h
    exact ⟨some (some _), hcompute.trans (by rw [hsome]), ⟨by omega, rfl⟩, fun t ht => ht.2.ge⟩

/-! ## Nothing less is -/

def Zone.NoDaySkipped (zone : Zone) : Prop := ∀ a b, zone.offset a - zone.offset b < dayLength

/-- The dates of the rule are not the platform's last ones, the earlier of which it still holds. -/
def NotAtEnd (rule : AnyHeartbeatRule) (after : ℤ) : Prop :=
  match rule with
  | .everyNDays n _ => Roomy (after + n * dayLength) ∨ maxTime + dayLength < after + n * dayLength
  | _ => True

theorem Meant.day_le {x d : ℤ} (hvalid : at'.valid = true)
    (h : Meant zone (at'.on d) (candidate zone at' x)) : zone.day x ≤ d := by
  have hd := h.day_eq
  rw [on_div hvalid] at hd
  have hb := zone.offset_bounds x
  have hlow := le_localTime_fixOffset zone (w := at'.on (zone.day x)) hb.1 hb.2
  have hon := on_bounds hvalid (zone.day x)
  subst hd
  unfold candidate
  simp only [Zone.day, dayLength] at *
  omega

theorem localTime_fixOffset_lt (hskip : zone.NoDaySkipped) {x : ℤ} (hlow : w - 2 * dayLength ≤ x)
    (hhigh : x ≤ w + 2 * dayLength) :
    zone.localTime (zone.fixOffset w (zone.offset x)) < w + dayLength := by
  have hpos := dayLength_pos
  have hmax := maxOffset_eq
  obtain ⟨c, p, q, h⟩ := exists_around zone w
  have hp := h.boundsBefore
  have hq := h.boundsSince
  have hgap := hskip (w - p) (w - q)
  have hatp := h.localTime (t := w - p) (by omega) (by omega)
  have hatq := h.localTime (t := w - q) (by omega) (by omega)
  rw [h.fixOffset_eq (h.guess hlow hhigh)]
  simp only [Zone.localTime] at *
  split_ifs <;> omega

theorem Meant.day_ge {d day x : ℤ} (hskip : zone.NoDaySkipped)
    (hlow : at'.on day - 2 * dayLength ≤ x) (hhigh : x ≤ at'.on day + 2 * dayLength)
    (h : Meant zone (at'.on d) (zone.fixOffset (at'.on day) (zone.offset x))) : d ≤ day := by
  have hle := h.le_localTime
  have hlt := localTime_fixOffset_lt hskip hlow hhigh
  simp only [TimeOfDay.on, dayLength] at *
  omega

theorem everyNDays_regular {n : ℤ} (hvalid : at'.valid = true) (hroomy : Roomy after)
    (hend : NotAtEnd (.everyNDays n at') after)
    (h : ComputesLeast zone (.everyNDays n at') after moduleRuleKinds) :
    Regular zone (.everyNDays n at') after := by
  obtain ⟨next, hnext, hleast⟩ := h
  rcases hend with hroomy' | hbeyond
  · rw [everyNDays_eq hvalid hroomy hroomy'] at hnext
    cases hnext
    obtain ⟨⟨hlt, hm⟩, -⟩ := hleast
    have hm : Meant zone (at'.on (zone.day after + n)) _ := hm
    have hday : zone.day (onward zone after n) = zone.day after + n := by
      refine le_antisymm (hm.day_le hvalid) ?_
      have hb := zone.offset_bounds after
      have hlow := le_localTime_fixOffset zone (w := zone.localTime after + n * dayLength) hb.1 hb.2
      unfold onward
      simp only [Zone.day, dayLength] at *
      omega
    refine ⟨hroomy', fallsOn_iff.mpr hday, ?_⟩
    have hto := toCome_iff zone after n hvalid
    rw [hday] at hto
    exact hto.mpr ⟨hm, hlt⟩
  · have hpos := dayLength_pos
    have hmax := maxOffset_eq
    have hb := zone.offset_bounds after
    have hnone : zone.plusDays after n = none := by
      refine if_neg fun h => ?_
      have := (of_decide_eq_true h.1).2
      simp only [Zone.localTime] at this
      omega
    simp only [Zone.computeNextFireAt, dateTime_eq hroomy, Option.bind_some, hnone,
      Option.bind_none] at hnext
    cases hnext
    exact hleast.elim

theorem not_isLeast_of_moved (hskip : zone.NoDaySkipped) (hvalid : at'.valid = true)
    (hle : candidate zone at' after ≤ after)
    (hmoved : zone.localTime (candidate zone at' after) ≠ at'.on (zone.day after)) :
    ¬ IsLeast {t | after < t ∧ ∃ d, True ∧ Meant zone (at'.on d) t}
      (onward zone (candidate zone at' after) 1) := by
  intro hleast
  have hpos := dayLength_pos
  have hmax := maxOffset_eq
  have hnear := candidate_near zone hvalid after
  have hon := on_bounds hvalid (zone.day after)
  have hb := zone.offset_bounds (candidate zone at' after)
  have hlocal := le_localTime_fixOffset zone
    (w := zone.localTime (candidate zone at' after) + 1 * dayLength) hb.1 hb.2
  change _ ≤ zone.localTime (onward zone (candidate zone at' after) 1) at hlocal
  obtain ⟨c, p, q, h⟩ := exists_around zone (at'.on (zone.day after))
  have hp := h.boundsBefore
  have hq := h.boundsSince
  have heq : candidate zone at' after = _ := h.fixOffset_eq (h.guess (by omega) (by omega))
  have hread := h.localTime (t := candidate zone at' after) (by omega) (by omega)
  -- the gap, and the instant it is moved on to
  have hgap : c ≤ at'.on (zone.day after) - p ∧ at'.on (zone.day after) - q < c ∧
      candidate zone at' after = at'.on (zone.day after) - p := by
    split_ifs at heq <;> omega
  have hshort := hskip (candidate zone at' after) (at'.on (zone.day after) - q)
  have hbefore := h.localTime (t := at'.on (zone.day after) - q) (by omega) (by omega)
  have hiff : ∀ t, zone.localTime t = at'.on (zone.day after + 1) ↔ _ := fun t =>
    h.localTime_iff (by rw [on_succ]; omega) (by rw [on_succ]; omega)
  have hsucc := on_succ at' (zone.day after)
  have hnow := h.localTime (t := after) (by omega) (by omega)
  have hday : zone.localTime after < (zone.day after + 1) * dayLength := by
    simp only [Zone.day, dayLength]
    omega
  have hmeant : Meant zone (at'.on (zone.day after + 1)) (at'.on (zone.day after + 1) - q) := by
    refine .inl ⟨(hiff _).mpr (.inr ⟨rfl, ?_⟩), fun t ht => ?_⟩
    · simp only [Zone.localTime] at *
      omega
    · have := (hiff t).mp ht
      omega
  have hle := hleast.2 ⟨(by rw [Int.add_mul] at hday; omega), _, trivial, hmeant⟩
  have hshows := (hiff _).mpr (.inr ⟨rfl, by simp only [Zone.localTime] at *; omega⟩)
  rcases hle.lt_or_eq with hlt | heq
  · have := hmeant.record hlt
    omega
  · rw [heq] at hlocal
    omega

theorem dailyTime_regular (hskip : zone.NoDaySkipped) (hvalid : at'.valid = true)
    (hroomy : Roomy after) (h : ComputesLeast zone (.dailyTime at') after moduleRuleKinds) :
    Regular zone (.dailyTime at') after := by
  obtain ⟨next, hnext, hleast⟩ := h
  rw [dailyTime_eq hvalid hroomy] at hnext
  cases hnext
  simp only [matches_dailyTime] at hleast
  have hpos := dayLength_pos
  have hmax := maxOffset_eq
  have hnear := candidate_near zone hvalid after
  split_ifs at hleast with hle
  · by_cases hlocal : zone.localTime (candidate zone at' after) = at'.on (zone.day after)
    · have hsucc := on_succ at' (zone.day after)
      rw [onward_one hlocal] at hleast
      obtain ⟨hlt, d, -, hm⟩ := hleast.1
      have hb := zone.offset_bounds (candidate zone at' after)
      have hlow := le_localTime_fixOffset zone (w := at'.on (zone.day after + 1)) hb.1 hb.2
      obtain rfl : d = zone.day after + 1 := by
        refine le_antisymm (hm.day_ge hskip (by omega) (by omega)) ?_
        have hd := hm.day_eq
        have hon := on_bounds hvalid (zone.day after + 1)
        rw [on_div hvalid] at hd
        subst hd
        simp only [Zone.day, dayLength] at *
        omega
      have hover := (passed_iff hvalid).1.mpr ⟨hle, hlocal⟩
      exact .inr ⟨hover, ⟨_, hm, hlt⟩, ((meant_fixOffset_iff (by omega) (by omega)).mp hm).1⟩
    · exact absurd hleast (not_isLeast_of_moved hskip hvalid hle hlocal)
  · obtain ⟨hlt, d, -, hm⟩ := hleast.1
    obtain rfl : d = zone.day after :=
      le_antisymm (Meant.day_ge hskip (by omega) (by omega) hm) (hm.day_le hvalid)
    exact .inl ((toCome_today_iff hvalid).mpr ⟨hm, hlt⟩)

theorem lt_candidate_onward (hskip : zone.NoDaySkipped) (hvalid : at'.valid = true) {n : ℤ}
    (hn : 1 ≤ n) : after < candidate zone at' (onward zone after n) := by
  by_contra hle
  have hpos := dayLength_pos
  have hmax := maxOffset_eq
  have hb := zone.offset_bounds after
  have hbx := zone.offset_bounds (onward zone after n)
  have hx : _ ≤ zone.localTime (onward zone after n) :=
    le_localTime_fixOffset zone (w := zone.localTime after + n * dayLength) hb.1 hb.2
  have hdays : dayLength ≤ n * dayLength := by
    simp only [dayLength]
    omega
  have hlater : zone.localTime after < at'.on (zone.day (onward zone after n)) := by
    have hon := on_bounds hvalid (zone.day (onward zone after n))
    simp only [Zone.day, dayLength] at *
    omega
  have hy : _ ≤ zone.localTime (candidate zone at' (onward zone after n)) :=
    le_localTime_fixOffset zone (w := at'.on (zone.day (onward zone after n))) hbx.1 hbx.2
  have hnear := candidate_near zone hvalid (onward zone after n)
  have hshort := hskip (candidate zone at' (onward zone after n)) after
  have hread : candidate zone at' (onward zone after n) = zone.fixOffset _ _ := rfl
  have hlocal : zone.localTime (onward zone after n) <
      at'.on (zone.day (onward zone after n)) + dayLength := by
    have hon := on_bounds hvalid (zone.day (onward zone after n))
    simp only [Zone.day, dayLength] at *
    omega
  generalize candidate zone at' (onward zone after n) = y at *
  generalize at'.on (zone.day (onward zone after n)) = w at *
  generalize onward zone after n = x at *
  obtain ⟨c, p, q, h⟩ := exists_around zone (after + 43200000)
  have hp := h.boundsBefore
  have hq := h.boundsSince
  simp only [dayLength, maxOffset, Zone.localTime] at *
  have hnow := h.localTime (t := after)
    (by simp only [dayLength]; omega) (by simp only [dayLength]; omega)
  have haty := h.localTime (t := y)
    (by simp only [dayLength]; omega) (by simp only [dayLength]; omega)
  have hatx := h.localTime (t := x)
    (by simp only [dayLength]; omega) (by simp only [dayLength]; omega)
  have hatw := h.localTime (t := w - q)
    (by simp only [dayLength]; omega) (by simp only [dayLength]; omega)
  simp only [Zone.localTime] at hnow haty hatx hatw
  have hox : zone.offset x = q := by omega
  have how : zone.offset (w - q) = q := by omega
  rw [hox, Zone.fixOffset, how] at hread
  simp only [if_true] at hread
  omega

theorem weekly_regular {days : List Weekday} (hskip : zone.NoDaySkipped)
    (hvalid : at'.valid = true) (hroomy : Roomy after)
    (h : ComputesLeast zone (.weekly days at') after moduleRuleKinds) :
    Regular zone (.weekly days at') after := by
  obtain ⟨k, hk, hstop, hbefore, hleast⟩ := (weekly_iff hvalid hroomy).mp h
  have hpos := dayLength_pos
  have hnear := candidate_near zone hvalid (onward zone after k)
  have hstops : weekdayOf (zone.day (onward zone after k)) ∈ days.map WEEKDAY_TO_LUXON ∧
      after < candidate zone at' (onward zone after k) := by
    by_contra hno
    exact absurd (hstop.symm.trans (if_neg hno)) (Option.some_ne_none _)
  obtain ⟨-, d, -, hm⟩ := hleast.1
  obtain rfl : d = zone.day (onward zone after k) :=
    le_antisymm (Meant.day_ge hskip (by omega) (by omega) hm) (hm.day_le hvalid)
  refine ⟨k, by omega, _, fallsOn_iff.mpr rfl, hstops.1, (toCome_iff _ _ _ hvalid).mpr ⟨hm, hstops.2⟩,
    fun d _ hd hnamed => ?_, fun j hj d hfalls hnamed => ?_⟩
  · exact not_comes_of_isLeast (p := fun d => weekdayOf d ∈ days.map WEEKDAY_TO_LUXON) hvalid
      hleast hm hd hnamed
  · obtain rfl := fallsOn_iff.mp hfalls
    have hle : ¬ after < candidate zone at' (onward zone after j) := fun hlt =>
      absurd ((if_pos ⟨hnamed, hlt⟩).symm.trans (hbefore j hj)) (Option.some_ne_none _)
    rcases Nat.eq_zero_or_pos j with rfl | hj'
    · rw [Nat.cast_zero, onward_zero] at hle ⊢
      exact ⟨rfl, (passed_iff hvalid).2.mpr (Int.not_lt.mp hle)⟩
    · exact absurd (lt_candidate_onward hskip hvalid (by omega)) hle

theorem computesLeast_of_regular {rule : AnyHeartbeatRule} (hvalid : rule.coreValid = true)
    (hroomy : Roomy after) (h : Regular zone rule after) :
    ComputesLeast zone rule after moduleRuleKinds := by
  cases rule with
  | dailyTime at' => exact dailyTime_least hvalid hroomy h
  | weekly days at' =>
    simp only [AnyHeartbeatRule.coreValid, decide_eq_true_eq] at hvalid
    exact weekly_least hvalid.2 hroomy h
  | everyNDays n at' =>
    simp only [AnyHeartbeatRule.coreValid, decide_eq_true_eq] at hvalid
    exact everyNDays_least hvalid.2 hroomy h
  | interval minutes =>
    simp only [AnyHeartbeatRule.coreValid, decide_eq_true_eq] at hvalid
    exact (interval_iff hvalid hroomy).mpr h
  | onItemEvent databaseId event => exact ⟨none, rfl, fun _ h => h⟩
  | module kind fields => cases hvalid

theorem regular_of_computesLeast {rule : AnyHeartbeatRule} (hskip : zone.NoDaySkipped)
    (hvalid : rule.coreValid = true) (hroomy : Roomy after) (hend : NotAtEnd rule after)
    (h : ComputesLeast zone rule after moduleRuleKinds) : Regular zone rule after := by
  cases rule with
  | dailyTime at' => exact dailyTime_regular hskip hvalid hroomy h
  | weekly days at' =>
    simp only [AnyHeartbeatRule.coreValid, decide_eq_true_eq] at hvalid
    exact weekly_regular hskip hvalid.2 hroomy h
  | everyNDays n at' =>
    simp only [AnyHeartbeatRule.coreValid, decide_eq_true_eq] at hvalid
    exact everyNDays_regular hvalid.2 hroomy hend h
  | interval minutes =>
    simp only [AnyHeartbeatRule.coreValid, decide_eq_true_eq] at hvalid
    exact (interval_iff hvalid hroomy).mp h
  | onItemEvent databaseId event => trivial
  | module kind fields => cases hvalid

/-- Where the clock is regular on the days it looks at, the computed instant is the least match of a
valid rule of core; in a zone that never skips a day, only there. -/
theorem computesLeast_iff_regular {rule : AnyHeartbeatRule} (hvalid : rule.coreValid = true)
    (hroomy : Roomy after) :
    (Regular zone rule after → ComputesLeast zone rule after moduleRuleKinds) ∧
      (zone.NoDaySkipped → NotAtEnd rule after →
        (ComputesLeast zone rule after moduleRuleKinds ↔ Regular zone rule after)) :=
  ⟨computesLeast_of_regular hvalid hroomy, fun hskip hend =>
    ⟨regular_of_computesLeast hskip hvalid hroomy hend, computesLeast_of_regular hvalid hroomy⟩⟩

/-- A zone that falls back by an hour on 2026-10-25 at 01:00 UTC. -/
def autumn : Zone where
  offset t := if t < 1792890000000 then 7200000 else 3600000
  offset_bounds t := by
    simp only [maxOffset]
    split_ifs <;> omega
  changes a b c hab hbc _ := by split_ifs <;> omega

/-- At midnight of that day, 02:30 is to come twice; the first is meant, and it is found. -/
theorem computesLeast_firstOccurrence :
    ComputesLeast autumn (.dailyTime ⟨2, 30⟩) 1792879200000 fun _ => none := by
  have hon : TimeOfDay.on ⟨2, 30⟩ (autumn.day 1792879200000) = 1792895400000 := by decide
  have hiff : ∀ t, autumn.localTime t = 1792895400000 ↔ t = 1792888200000 ∨ t = 1792891800000 := by
    intro t
    show t + (if t < 1792890000000 then 7200000 else 3600000 : ℤ) = 1792895400000 ↔ _
    split_ifs <;> omega
  refine (computesLeast_iff_regular (by decide) (by unfold Roomy; decide)).1 (.inl ⟨?_, ?_, ?_⟩)
  · rw [hon]
    refine ⟨1792888200000, .inl ⟨(hiff _).mpr (.inl rfl), fun t ht => ?_⟩, by decide⟩
    have := (hiff t).mp ht
    omega
  · rw [hon]
    exact .inl ⟨_, (hiff _).mpr (.inl rfl)⟩
  · rintro x ⟨hx, hread⟩ ⟨t, u, hlt, ht, hu, hagain⟩
    rw [hon] at ht hu
    have ht := (hiff t).mp ht
    have hu := (hiff u).mp hu
    obtain rfl : u = 1792891800000 := by omega
    have hnow : autumn.localTime 1792879200000 = 1792886400000 := by decide
    have hx : x + (if x < 1792890000000 then 7200000 else 3600000 : ℤ) = _ := hx
    have hagain : (3600000 : ℤ) = if x < 1792890000000 then 7200000 else 3600000 := hagain
    rw [hnow] at hx
    split_ifs at hx hagain <;> omega

/-- Ten minutes into the hour that comes again, the first 02:30 has passed; the computed instant is
the second. -/
theorem secondOccurrence_not_least :
    autumn.computeNextFireAt (.dailyTime ⟨2, 30⟩) 1792890600000 (fun _ => none) =
        .ok (some (some 1792891800000)) ∧
      ¬ ComputesLeast autumn (.dailyTime ⟨2, 30⟩) 1792890600000 fun _ => none := by
  have hcompute : autumn.computeNextFireAt (.dailyTime ⟨2, 30⟩) 1792890600000 (fun _ => none) =
      .ok (some (some 1792891800000)) := by decide
  refine ⟨hcompute, ?_⟩
  rintro ⟨next, hnext, hleast⟩
  rw [hcompute] at hnext
  cases hnext
  obtain ⟨⟨-, day, hmeant⟩, -⟩ := hleast
  have hlocal : autumn.localTime 1792891800000 = 1792895400000 := by decide
  rcases hmeant with ⟨hw, hfirst⟩ | ⟨hno, ⟨hday, -⟩, -⟩
  · -- the same local time an hour earlier
    have hearlier : autumn.localTime 1792888200000 = 1792895400000 := by decide
    have := hfirst (hearlier.trans (hlocal.symm.trans hw))
    omega
  · rw [hlocal, on_div (by decide)] at hday
    refine hno 1792891800000 (hlocal.trans ?_)
    simp only [TimeOfDay.on, TimeOfDay.millis, dayLength] at *
    omega

end Scheduler

end Semprec
