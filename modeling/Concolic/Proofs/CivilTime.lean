import Concolic.Stamp
import Mathlib.Logic.ExistsUnique

/-
  Civil time: a stamp shows the true time in the proleptic Gregorian calendar.

  What that is, is said by counting (`dayCount`).  The calendar does not count, it calculates.
  `eraYear` never decreases and is right on the first and on the last day of each of the 400 years
  of an era, so it is right on every day between them.  Years and months do not overlap, so that no
  other year and month fit.
-/

namespace Concolic

variable {month day m : Nat} {year year' : Int}

namespace Calendar

/-! ## Counting days -/

/-- The months are 1 to 12, and the days those of the month. -/
structure IsDate (year : Int) (month day : Nat) : Prop where
  month_pos : 1 ≤ month
  month_le : month ≤ 12
  day_pos : 1 ≤ day
  day_le : day ≤ monthLength year month

/-- The days in the first months of a year. -/
def daysInMonths (year : Int) : Nat → Int
  | 0 => 0
  | months + 1 => daysInMonths year months + monthLength year (months + 1)

/-- The days in some years, from the first of them on. -/
def daysInYears (first : Int) : Nat → Int
  | 0 => 0
  | years + 1 => daysInYears first years + daysInMonths (first + years) 12

/-- The days from 1 January 1970 to 1 January of a year. -/
def daysToYear (year : Int) : Int :=
  if 1970 ≤ year then daysInYears 1970 (year - 1970).toNat
  else -daysInYears year (1970 - year).toNat

/-- The days from 1 January 1970 to a date. -/
def dayCount (year : Int) (month day : Nat) : Int :=
  daysToYear year + daysInMonths year (month - 1) + (day - 1)

/-! ## The closed form -/

/-- The days in the years from 1 to `year`. -/
def daysThrough (year : Int) : Int := 365 * year + year / 4 - year / 100 + year / 400

theorem daysInMonths_february (year : Int) :
    daysInMonths year 12 = 337 + monthLength year 2 ∧ monthLength year 2 ≤ 29 := by
  cases hleap : isLeap year <;> simp [daysInMonths, monthLength, hleap]

theorem daysInMonths_year (year : Int) :
    daysInMonths year 12 = daysThrough year - daysThrough (year - 1) := by
  have hleap : isLeap year = true ↔ year % 4 = 0 ∧ (year % 100 ≠ 0 ∨ year % 400 = 0) := by
    simp [isLeap]
  rw [(daysInMonths_february year).1, monthLength, if_pos rfl, daysThrough, daysThrough]
  split
  · have hyear := hleap.mp (by assumption)
    omega
  · have hyear := mt hleap.mpr (by assumption)
    omega

theorem daysInYears_eq (first : Int) (years : Nat) :
    daysInYears first years = daysThrough (first + years - 1) - daysThrough (first - 1) := by
  induction years with
  | zero => simp [daysInYears]
  | succ years ih =>
    have hlast : first + (years + 1 : Nat) - 1 = first + years := by omega
    rw [daysInYears, ih, daysInMonths_year, hlast]
    omega

theorem daysToYear_eq (year : Int) : daysToYear year = daysThrough (year - 1) - 719162 := by
  have hepoch : daysThrough (1970 - 1) = 719162 := rfl
  rw [daysToYear]
  split
  · rw [daysInYears_eq, hepoch, show 1970 + ((year - 1970).toNat : Int) - 1 = year - 1 by omega]
  · rw [daysInYears_eq, show year + ((1970 - year).toNat : Int) - 1 = 1970 - 1 by omega, hepoch]
    omega

/-- Before a month come as many days as from 1 March to it, and those of January and February; or,
    before these two, all but the last 306 days of a year. -/
theorem daysInMonths_eq (year : Int) (hlo : 1 ≤ month) (hhi : month ≤ 12) :
    daysInMonths year (month - 1) =
      if month ≤ 2 then (daysBefore (month + 9) - 306 : Int)
      else daysBefore (month - 3) + daysInMonths year 12 - 306 := by
  by_cases hspring : month ≤ 2
  · obtain rfl | rfl : month = 1 ∨ month = 2 := by omega
    all_goals simp [daysInMonths, monthLength, daysBefore]
  · obtain rfl | rfl | rfl | rfl | rfl | rfl | rfl | rfl | rfl | rfl :
        month = 3 ∨ month = 4 ∨ month = 5 ∨ month = 6 ∨ month = 7 ∨ month = 8 ∨ month = 9 ∨
          month = 10 ∨ month = 11 ∨ month = 12 := by omega
    all_goals
      simp [daysInMonths, monthLength, daysBefore]
      omega

/-- **The days before a date**, calculated from the year that begins with March. -/
theorem dayCount_eq (year : Int) (day : Nat) (hlo : 1 ≤ month) (hhi : month ≤ 12) :
    dayCount year month day + epoch = (day - 1) +
      if month ≤ 2 then daysThrough (year - 1) + daysBefore (month + 9)
      else daysThrough year + daysBefore (month - 3) := by
  have hyear := daysInMonths_year year
  rw [dayCount, daysToYear_eq, daysInMonths_eq year hlo hhi, epoch]
  split <;> omega

/-! ## Calculating the date -/

theorem eraYear_mono {d d' : Nat} (h : d ≤ d') (hd' : d' < 146097) : eraYear d ≤ eraYear d' := by
  induction d' with
  | zero => exact Nat.le_of_eq (congrArg eraYear (Nat.le_zero.mp h))
  | succ d' ih =>
    rcases Nat.lt_or_eq_of_le h with hlt | rfl
    · have hnext : eraYear d' ≤ eraYear (d' + 1) := by
        rw [eraYear, eraYear]
        omega
      exact Nat.le_trans (ih (by omega) (by omega)) hnext
    · exact Nat.le_refl _

theorem eraYear_at_ends :
    ∀ y < 400, eraYear (yearDays y) = y ∧ eraYear (yearDays (y + 1) - 1) = y := by
  decide +kernel

/-- A day of an era lies in its year; the last year of an era has one more leap day. -/
theorem eraYear_bounds {d : Nat} (h : d < 146097) :
    eraYear d < 400 ∧ yearDays (eraYear d) ≤ d ∧
      d < yearDays (eraYear d + 1) + (eraYear d + 1) / 400 := by
  have hlt : eraYear d < 400 := by
    rw [eraYear]
    omega
  have hera : ∀ y < 400, yearDays y < 146097 := by
    intro y hy
    rw [yearDays]
    omega
  refine ⟨hlt, Nat.le_of_not_lt fun hlow => ?_, Nat.lt_of_not_le fun hhigh => ?_⟩
  · -- a day before the year would not be later than the last day of the year before
    have hpos : eraYear d ≠ 0 := by
      intro hzero
      rw [hzero] at hlow
      exact absurd hlow (Nat.not_lt_zero d)
    obtain ⟨y, hy⟩ : ∃ y, eraYear d = y + 1 := ⟨eraYear d - 1, by omega⟩
    rw [hy] at hlow
    have hbound := hera (y + 1) (by omega)
    have hle := eraYear_mono (show d ≤ yearDays (y + 1) - 1 by omega) (by omega)
    rw [(eraYear_at_ends y (by omega)).2] at hle
    omega
  · have hnext : eraYear d + 1 < 400 := by
      rw [yearDays] at hhigh
      omega
    have hle := eraYear_mono (show yearDays (eraYear d + 1) ≤ d by omega) h
    rw [(eraYear_at_ends _ hnext).1] at hle
    omega

theorem daysThrough_era (year era : Int) :
    daysThrough (year + era * 400) = daysThrough year + era * 146097 := by
  simp only [daysThrough]
  omega

theorem yearDays_eq (y : Nat) : yearDays y + (y : Int) / 400 = daysThrough y := by
  rw [yearDays, daysThrough]
  omega

/-- The year that begins with March and has the day number `n`. -/
def marchYear (n : Int) : Int := eraYear ((n + epoch) % 146097).toNat + (n + epoch) / 146097 * 400

/-- The days from 1 March to the day number `n`. -/
def marchDay (n : Int) : Nat :=
  ((n + epoch) % 146097).toNat - yearDays (eraYear ((n + epoch) % 146097).toNat)

theorem marchDay_bounds (n : Int) :
    daysThrough (marchYear n) + marchDay n = n + epoch ∧
      marchDay n < daysThrough (marchYear n + 1) - daysThrough (marchYear n) := by
  obtain ⟨hlt, hle, hlt'⟩ :=
    eraYear_bounds (show ((n + epoch) % 146097).toNat < 146097 by omega)
  rw [marchDay, marchYear]
  generalize eraYear ((n + epoch) % 146097).toNat = y at hlt hle hlt' ⊢
  have hyear := yearDays_eq y
  have hnext : yearDays (y + 1) + ((y : Int) + 1) / 400 = daysThrough (y + 1) := yearDays_eq (y + 1)
  rw [Int.add_right_comm, daysThrough_era, daysThrough_era]
  omega

theorem month_bounds (h : day < 366) :
    (5 * day + 2) / 153 < 12 ∧ daysBefore ((5 * day + 2) / 153) ≤ day ∧
      day < daysBefore ((5 * day + 2) / 153 + 1) := by
  simp only [daysBefore]
  omega

theorem civil_eq (n : Int) (hm : (5 * marchDay n + 2) / 153 = m) (hlt : m < 12) :
    civil n = if m < 10 then ⟨marchYear n, m + 3, marchDay n - daysBefore m + 1⟩
      else ⟨marchYear n + 1, m - 9, marchDay n - daysBefore m + 1⟩ := by
  subst hm
  rw [marchDay] at hlt ⊢
  rw [civil, marchYear]
  split <;> simp <;> omega

theorem monthLength_after_march (year : Int) (h : m < 10) :
    monthLength year (m + 3) = daysBefore (m + 1) - daysBefore m := by
  have hlengths : ∀ m < 10, (if m + 3 = 4 ∨ m + 3 = 6 ∨ m + 3 = 9 ∨ m + 3 = 11 then 30 else 31) =
      daysBefore (m + 1) - daysBefore m := by decide
  rw [monthLength, if_neg (by omega), hlengths m h]

/-- **The date of a day number** is a date, and has that many days before it. -/
theorem civil_counts (n : Int) :
    IsDate (civil n).year (civil n).month (civil n).day ∧
      dayCount (civil n).year (civil n).month (civil n).day = n := by
  obtain ⟨hsum, hday⟩ := marchDay_bounds n
  obtain ⟨hyear, hfebruary⟩ := daysInMonths_february (marchYear n + 1)
  rw [daysInMonths_year, Int.add_sub_cancel] at hyear
  obtain ⟨hm, hlo, hhi⟩ := month_bounds (show marchDay n < 366 by omega)
  generalize hmonth : (5 * marchDay n + 2) / 153 = m at hm hlo hhi
  rw [civil_eq n hmonth hm]
  split <;> rename_i hten <;> dsimp only
  · have hlength := monthLength_after_march (marchYear n) hten
    have hcount := dayCount_eq (marchYear n) (marchDay n - daysBefore m + 1)
      (show 1 ≤ m + 3 by omega) (by omega)
    rw [if_neg (by omega), Nat.add_sub_cancel] at hcount
    exact ⟨⟨by omega, by omega, by omega, by omega⟩, by omega⟩
  · have hcount := dayCount_eq (marchYear n + 1) (marchDay n - daysBefore m + 1)
      (show 1 ≤ m - 9 by omega) (by omega)
    rw [if_pos (by omega), Nat.sub_add_cancel (by omega), Int.add_sub_cancel] at hcount
    have hlength : marchDay n < daysBefore m + monthLength (marchYear n + 1) (m - 9) := by
      obtain rfl | rfl : m = 10 ∨ m = 11 := by omega
      · exact hhi
      · show marchDay n < 337 + monthLength (marchYear n + 1) 2
        omega
    exact ⟨⟨by omega, by omega, by omega, by omega⟩, by omega⟩

/-! ## No other date -/

theorem daysInMonths_le (year : Int) {m' : Nat} (h : m ≤ m') :
    daysInMonths year m ≤ daysInMonths year m' := by
  induction h with
  | refl => exact Int.le_refl _
  | step _ ih =>
    rw [daysInMonths]
    omega

theorem daysToYear_lt (h : year < year') :
    daysToYear year + daysInMonths year 12 ≤ daysToYear year' := by
  rw [daysToYear_eq, daysToYear_eq, daysInMonths_year]
  simp only [daysThrough]
  omega

/-- A date lies in its month, and that month in its year. -/
theorem IsDate.bounds (h : IsDate year month day) :
    daysToYear year ≤ dayCount year month day ∧
      dayCount year month day < daysToYear year + daysInMonths year month ∧
      daysInMonths year month ≤ daysInMonths year 12 := by
  obtain ⟨m, rfl⟩ : ∃ m, month = m + 1 := ⟨month - 1, by have := h.month_pos; omega⟩
  have hday := h.day_pos
  have hlength := h.day_le
  have hzero := daysInMonths_le year (Nat.zero_le m)
  refine ⟨?_, ?_, daysInMonths_le year h.month_le⟩
  · rw [dayCount, Nat.add_sub_cancel]
    rw [daysInMonths] at hzero
    omega
  · rw [dayCount, Nat.add_sub_cancel, daysInMonths]
    omega

theorem dayCount_lt {month' day' : Nat} (h : IsDate year month day)
    (h' : IsDate year' month' day') (hlt : year < year' ∨ year = year' ∧ month < month') :
    dayCount year month day < dayCount year' month' day' := by
  obtain ⟨-, hhi, hyear⟩ := h.bounds
  obtain ⟨hlo', -, -⟩ := h'.bounds
  rcases hlt with hlt | ⟨rfl, hlt⟩
  · have := daysToYear_lt hlt
    omega
  · have := daysInMonths_le year (show month ≤ month' - 1 by omega)
    have := h'.day_pos
    have : dayCount year month' day' =
        daysToYear year + daysInMonths year (month' - 1) + (day' - 1) :=
      rfl
    omega

theorem dayCount_inj {month' day' : Nat} (h : IsDate year month day)
    (h' : IsDate year' month' day') (hcount : dayCount year month day =
      dayCount year' month' day') : year = year' ∧ month = month' := by
  have hlt := fun hlt => Int.ne_of_lt (dayCount_lt h h' hlt) hcount
  have hgt := fun hgt => Int.ne_of_lt (dayCount_lt h' h hgt) hcount.symm
  rcases Int.lt_trichotomy year year' with hyear | rfl | hyear
  · exact absurd (.inl hyear) hlt
  · rcases Nat.lt_trichotomy month month' with hmonth | rfl | hmonth
    · exact absurd (.inr ⟨rfl, hmonth⟩) hlt
    · exact ⟨rfl, rfl⟩
    · exact absurd (.inr ⟨rfl, hmonth⟩) hgt
  · exact absurd (.inl hyear) hgt

end Calendar

namespace Stamp

open Calendar

/-- **A stamp is the true civil time** of its moment: the hour, minute, second and microsecond are
    in their ranges, and there is exactly one year and month whose day the stamp names so that the
    days since 1970 and the time of the day make up the moment, seen from the offset. -/
theorem stamp_is_civil_time (secs : Int) (nanos : Nat) (offset : Int)
    (hlo : firstSecond ≤ secs) (hhi : secs ≤ lastSecond)
    (hnanos : nanos < 1000000000 ∨ nanos < 2000000000 ∧ secs % 60 = 59)
    (hoffset : -86400 < offset ∧ offset < 86400) :
    ∃ s, at? secs nanos offset = some s ∧
      s.hour < 24 ∧ s.minute < 60 ∧ s.second < 60 ∧
      s.micros = nanos % 1000000000 / 1000 ∧ s.micros < 1000000 ∧
      ∃! date : Int × Nat, IsDate date.1 date.2 s.day ∧
        dayCount date.1 date.2 s.day * 86400 + 3600 * s.hour + 60 * s.minute + s.second =
          secs + offset := by
  have hmoment : (isMoment secs nanos && isOffset offset) = true := by
    simp only [isMoment, isOffset, Bool.and_eq_true, Bool.or_eq_true, decide_eq_true_eq]
    omega
  obtain ⟨hdate, hcount⟩ := civil_counts ((secs + offset) / 86400)
  refine ⟨_, by rw [at?, if_pos hmoment], ?_⟩
  dsimp only
  refine ⟨by omega, by omega, by omega, rfl, by omega, (_, _), ⟨hdate, by rw [hcount]; omega⟩, ?_⟩
  rintro ⟨year, month⟩ ⟨hdate', hcount'⟩
  obtain ⟨rfl, rfl⟩ := dayCount_inj hdate' hdate (by rw [hcount]; omega)
  rfl

/-- A leap second before a leap day: seen from an hour further east, the day has begun. -/
theorem leapSecond_is_civil_time :
    at? 951782399 1999999999 3600 = some ⟨29, 0, 59, 59, 999999⟩ ∧
      ∃! date : Int × Nat, IsDate date.1 date.2 29 ∧
        dayCount date.1 date.2 29 * 86400 + 3600 * 0 + 60 * 59 + 59 = 951782399 + 3600 := by
  have hstamp : at? 951782399 1999999999 3600 = some ⟨29, 0, 59, 59, 999999⟩ := by decide
  obtain ⟨s, hs, -, -, -, -, -, hdate⟩ :=
    stamp_is_civil_time 951782399 1999999999 3600 (by decide) (by decide) (by decide) (by decide)
  rw [hstamp] at hs
  cases hs
  exact ⟨hstamp, hdate⟩

end Stamp

end Concolic
