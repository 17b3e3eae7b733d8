/-
Module: Snert.Proofs.CalendarExact
Purpose: What `convertToGmt` makes of a date of the proleptic Gregorian calendar. Its term for leap
  days counts every fourth year, so that each year from 2101 on, behind the first century that is
  no leap year, comes days late.
Trusted boundary: the definition of the days of the calendar
Main exports: convertToGmt_exact_iff
-/
import Mathlib.Algebra.BigOperators.Intervals
import Mathlib.Algebra.Order.BigOperators.Group.Finset
import Mathlib.Data.Int.GCD
import Snert.Proofs.DateNotations

namespace Snert

open CModel

/-! ### The calendar -/

/-- The number of days of a year of the proleptic Gregorian calendar. -/
def daysInYear (year : Nat) : Nat :=
  ∑ month ∈ Finset.range 12, daysInMonth year (month + 1)

/-- The number of days from 1 Jan 1970 to a date, whose month counts from zero and its day from
one. -/
def gregorianDays (year month : Nat) (day : Int) : Int :=
  (∑ y ∈ Finset.Ico 1970 year, daysInYear y : Nat) +
    (∑ m ∈ Finset.range month, daysInMonth year (m + 1) : Nat) + (day - 1)

/-- The seconds from 1 Jan 1970 to a date, time and zone. -/
def calendarGmt (year month day hour minute second zone : Int) : Int :=
  86400 * gregorianDays year.toNat month.toNat day + (3600 * hour + 60 * minute + second) - zone

/-- A date comes before another one. -/
def DateBefore (year month day year' month' day' : Int) : Prop :=
  year < year' ∨ year = year' ∧ (month < month' ∨ month = month' ∧ day < day')

/-- The day that a leap year has more. -/
def leapDay (year : Nat) : Nat :=
  if year % 4 = 0 ∧ (year % 100 ≠ 0 ∨ year % 400 = 0) then 1 else 0

theorem daysInMonth_eq (year month : Nat) :
    daysInMonth year month = daysInMonth 1 month + if month = 2 then leapDay year else 0 := by
  by_cases hmonth : month = 2
  · rw [daysInMonth, daysInMonth, if_pos hmonth, if_pos hmonth, if_pos hmonth, leapDay]
    split <;> rfl
  · rw [daysInMonth, daysInMonth, if_neg hmonth, if_neg hmonth, if_neg hmonth, Nat.add_zero]

theorem sum_daysInMonth (year month : Nat) :
    ∑ m ∈ Finset.range month, daysInMonth year (m + 1) =
      (∑ m ∈ Finset.range month, daysInMonth 1 (m + 1)) + if 2 ≤ month then leapDay year else 0 := by
  have hleap : ∑ m ∈ Finset.range month, (if m + 1 = 2 then leapDay year else 0) =
      if 2 ≤ month then leapDay year else 0 := by
    simp [Nat.succ_le_iff]
  rw [← hleap, ← Finset.sum_add_distrib]
  exact Finset.sum_congr rfl fun m _ => daysInMonth_eq year (m + 1)

theorem daysInYear_eq (year : Nat) : daysInYear year = 365 + leapDay year := by
  rw [daysInYear, sum_daysInMonth]
  rfl

theorem leapDays_eq (years : Nat) :
    (∑ y ∈ Finset.Ico 1970 (1970 + years), daysInYear y) + 477 + (1969 + years) / 100 =
      365 * years + (1969 + years) / 4 + (1969 + years) / 400 := by
  induction years with
  | zero => rfl
  | succ years ih =>
      rw [← Nat.add_assoc, Finset.sum_Ico_succ_top (by omega), daysInYear_eq, leapDay]
      split <;> omega

/-! ### What the functions give -/

theorem isLeapYear_iff {year : Int} (h : 0 ≤ year) :
    isLeapYear year = true ↔ leapDay year.toNat = 1 := by
  obtain ⟨n, rfl⟩ := Int.eq_ofNat_of_zero_le h
  have htmod : ∀ k : Nat, (n : Int).tmod k = (n % k : Nat) := fun k => (Int.ofNat_tmod n k).symm
  have h400 := htmod 400
  have h100 := htmod 100
  have h4 := htmod 4
  rw [isLeapYear, leapDay, Int.toNat_natCast]
  simp only [Nat.cast_ofNat] at h400 h100 h4
  rw [h400, h100, h4]
  split_ifs <;> simp <;> omega

theorem isLeapYear_eq {year : Int} (h : 0 ≤ year) :
    isLeapYear year = decide (leapDay year.toNat = 1) := by
  rw [Bool.eq_iff_iff, isLeapYear_iff h, decide_eq_true_eq]

theorem leapDay_le (year : Nat) : leapDay year ≤ 1 := by
  rw [leapDay]
  split <;> omega

/-- A date of the calendar, whose month counts from zero. -/
structure CalendarDate (year month day : Int) : Prop where
  month_nonneg : 0 ≤ month
  month_lt : month < 12
  day_pos : 1 ≤ day
  day_le : day ≤ daysInMonth year.toNat (month.toNat + 1)

theorem convertDayOfYear_eq_some_iff {year month day yday : Int} (hyear : 0 ≤ year) :
    convertDayOfYear year month day = some yday ↔ CalendarDate year month day ∧
      yday = (∑ m ∈ Finset.range month.toNat, daysInMonth year.toNat (m + 1) : Nat) + (day - 1) := by
  rw [convertDayOfYear]
  by_cases hrange : year < 0 ∨ month < 0 ∨ 12 ≤ month ∨ day < 1
  · rw [if_pos hrange]
    refine ⟨by simp, fun h => ?_⟩
    obtain ⟨hmonth, hlt, hday, -⟩ := h.1
    omega
  · rw [if_neg hrange]
    push Not at hrange
    obtain ⟨-, hmonth, hlt, hday⟩ := hrange
    obtain ⟨m, rfl⟩ := Int.eq_ofNat_of_zero_le hmonth
    have htables : ∀ m < 12, daysPerMonth.getD m 0 = (daysInMonth 1 (m + 1) : Nat) ∧
        dayOfYear.getD m 0 = (∑ k ∈ Finset.range m, daysInMonth 1 (k + 1) : Nat) ∧
          dayOfLeapYear.getD m 0 = dayOfYear.getD m 0 + if 2 ≤ m then 1 else 0 := by decide
    obtain ⟨hlength, hplain, hleap⟩ := htables m (Int.ofNat_lt.mp hlt)
    have hle := leapDay_le year.toNat
    have hlast : (if (m : Int) = 1 ∧ isLeapYear year then 1 else 0) + daysPerMonth.getD m 0 =
        (daysInMonth year.toNat (m + 1) : Nat) := by
      rw [hlength, daysInMonth_eq year.toNat, isLeapYear_eq hyear]
      simp only [decide_eq_true_eq]
      split_ifs <;> omega
    have hyday : (if isLeapYear year then some (dayOfLeapYear.getD m 0 + day - 1)
        else some (dayOfYear.getD m 0 + day - 1)) = some
          ((∑ m ∈ Finset.range m, daysInMonth year.toNat (m + 1) : Nat) + (day - 1)) := by
      rw [sum_daysInMonth, Int.natCast_add, ← hplain, hleap, isLeapYear_eq hyear]
      simp only [decide_eq_true_eq]
      split_ifs <;> rw [Option.some.injEq] <;> omega
    rw [Int.toNat_natCast, hlast, hyday]
    by_cases hfits : day ≤ (daysInMonth year.toNat (m + 1) : Nat)
    · rw [if_neg (Int.not_lt.mpr hfits), Option.some.injEq]
      exact ⟨fun h => ⟨⟨hmonth, hlt, hday, hfits⟩, h.symm⟩, fun h => h.2.symm⟩
    · rw [if_pos (Int.not_le.mp hfits)]
      exact ⟨by simp, fun h => absurd h.1.day_le hfits⟩

theorem convertToGmt_eq {year month day hour minute second zone gmt : Int}
    (h : convertToGmt year month day hour minute second zone = some gmt) :
    1970 ≤ year ∧ CalendarDate year month day ∧
      gmt = calendarGmt year month day hour minute second zone +
        86400 * ((year - 1) / 100 - (year - 1) / 400 - 15) := by
  rw [convertToGmt] at h
  by_cases hearly : year < 1970
  · rw [if_pos hearly] at h
    cases h
  · rw [if_neg hearly] at h
    obtain ⟨yday, hyday, hgmt⟩ := Option.bind_eq_some_iff.mp h
    obtain ⟨hdate, hdays⟩ := (convertDayOfYear_eq_some_iff (by omega)).mp hyday
    obtain ⟨years, rfl⟩ := Int.le.dest (Int.not_lt.mp hearly)
    have hquarter : (1970 + (years : Int) - 1969).tdiv 4 = (years + 1) / 4 := by
      rw [Int.tdiv_eq_ediv_of_nonneg (by omega)]
      congr 1
      omega
    have hyears := leapDays_eq years
    rw [hquarter] at hgmt
    rw [calendarGmt, gregorianDays, show (1970 + (years : Int)).toNat = 1970 + years by omega]
    rw [show (1970 + (years : Int)).toNat = 1970 + years by omega] at hdays
    refine ⟨by omega, hdate, ?_⟩
    rw [← Option.some.inj hgmt]
    omega

theorem convertToGmtLong_eq (year month day hour minute second zone : Int64) :
    convertToGmtLong year month day hour minute second zone =
      (convertToGmt year.toInt month.toInt day.toInt hour.toInt minute.toInt second.toInt
        zone.toInt).map Int64.ofInt := by
  have hearly : year < 1970 ↔ year.toInt < 1970 := Int64.lt_iff_toInt_lt
  rw [convertToGmtLong, convertToGmt]
  by_cases h : year < 1970
  · rw [if_pos h, if_pos (hearly.mp h)]
    rfl
  · have hyear := (not_congr hearly).mp h
    have hquarter : Int64.ofInt ((year.toInt - 1969).tdiv 4) = (year - 1969) / 4 := by
      have hlt := year.toInt_lt
      have hspan : (year - 1969).toInt = year.toInt - 1969 := by
        rw [Int64.toInt_sub]
        exact Int.bmod_eq_of_le (by simp; omega) (by simp; omega)
      rw [← Int64.ofInt_toInt ((year - 1969) / 4), Int64.toInt_div_of_ne_right _ _ (by decide), hspan]
      rfl
    rw [if_neg h, if_neg hyear]
    cases convertDayOfYear year.toInt month.toInt day.toInt with
    | none => rfl
    | some yday =>
        simp only [Option.bind_eq_bind, Option.bind_some, Option.pure_def, Option.map_some,
          Int64.ofInt_add, Int64.ofInt_sub, Int64.ofInt_mul, Int64.ofInt_toInt, hquarter]
        rfl

/-! ### The order of dates -/

theorem CalendarDate.day_le_sum {year month day : Int} (h : CalendarDate year month day) {n : Nat}
    (hn : month.toNat < n) :
    (∑ m ∈ Finset.range month.toNat, daysInMonth year.toNat (m + 1) : Nat) + day ≤
      (∑ m ∈ Finset.range n, daysInMonth year.toNat (m + 1) : Nat) := by
  have hmonths : ∑ m ∈ Finset.range (month.toNat + 1), daysInMonth year.toNat (m + 1) ≤
      ∑ m ∈ Finset.range n, daysInMonth year.toNat (m + 1) :=
    Finset.sum_le_sum_of_subset (Finset.range_mono hn)
  have hday := h.day_le
  rw [Finset.sum_range_succ] at hmonths
  omega

theorem gregorianDays_lt {year month day year' month' day' : Int} (hyear : 1970 ≤ year)
    (h : CalendarDate year month day) (h' : CalendarDate year' month' day')
    (hbefore : DateBefore year month day year' month' day') :
    gregorianDays year.toNat month.toNat day < gregorianDays year'.toNat month'.toNat day' := by
  have hmonth := h.month_nonneg
  have hday := h'.day_pos
  rw [gregorianDays, gregorianDays]
  rcases hbefore with hyears | ⟨rfl, hmonths | ⟨rfl, hdays⟩⟩
  · have hwhole := h.day_le_sum (n := 12) (by have := h.month_lt; omega)
    have hsum : ∑ y ∈ Finset.Ico 1970 (year.toNat + 1), daysInYear y ≤
        ∑ y ∈ Finset.Ico 1970 year'.toNat, daysInYear y :=
      Finset.sum_le_sum_of_subset (Finset.Ico_subset_Ico_right (by omega))
    rw [Finset.sum_Ico_succ_top (by omega)] at hsum
    rw [← daysInYear] at hwhole
    omega
  · have hmonths := h.day_le_sum (n := month'.toNat) (by omega)
    omega
  · omega

/-! ### Exactness -/

/-- A number that a `long` holds. -/
def InLong (x : Int) : Prop :=
  -2 ^ 63 ≤ x ∧ x < 2 ^ 63

theorem bmod_late_eq_iff {exact late : Int} (hlate : 0 ≤ late) (hlt : late < 2 ^ 57) :
    (exact + 86400 * late).bmod (2 ^ 64) = exact ↔ late = 0 ∧ InLong exact := by
  constructor
  · intro h
    obtain ⟨hle, hbmod, hdvd⟩ := (Int.bmod_eq_iff (by decide)).mp h
    have hlong : (2 ^ 7 * 2 ^ 57 : Int) ∣ 2 ^ 7 * (675 * late) := by
      have hneg := Int.dvd_neg.mpr hdvd
      rw [show -(exact - (exact + 86400 * late)) = 2 ^ 7 * (675 * late) by omega] at hneg
      exact hneg
    obtain ⟨k, rfl⟩ : (2 ^ 57 : Int) ∣ late :=
      Int.dvd_of_dvd_mul_right_of_gcd_one (Int.dvd_of_mul_dvd_mul_left (by decide) hlong)
        (by decide)
    exact ⟨by omega, hle, hbmod⟩
  · rintro ⟨rfl, hle, hlong⟩
    rw [Int.mul_zero, Int.add_zero]
    exact Int.bmod_eq_of_le hle hlong

/-- The year is not behind 2100, and a `long` holds the seconds. -/
def CountedExactly (year month day hour minute second zone : Int64) : Prop :=
  year.toInt ≤ 2100 ∧ InLong (calendarGmt year.toInt month.toInt day.toInt hour.toInt minute.toInt
    second.toInt zone.toInt)

theorem convertToGmtLong_accepted {year month day hour minute second zone gmt : Int64}
    (h : convertToGmtLong year month day hour minute second zone = some gmt) :
    1970 ≤ year.toInt ∧ CalendarDate year.toInt month.toInt day.toInt ∧
      gmt.toInt = (calendarGmt year.toInt month.toInt day.toInt hour.toInt minute.toInt
        second.toInt zone.toInt +
          86400 * ((year.toInt - 1) / 100 - (year.toInt - 1) / 400 - 15)).bmod (2 ^ 64) := by
  rw [convertToGmtLong_eq] at h
  obtain ⟨value, hvalue, rfl⟩ := Option.map_eq_some_iff.mp h
  obtain ⟨hyear, hdate, hvalue⟩ := convertToGmt_eq hvalue
  exact ⟨hyear, hdate, by rw [Int64.toInt_ofInt, hvalue]; rfl⟩

theorem convertToGmtLong_exact {year month day hour minute second zone gmt : Int64}
    (h : convertToGmtLong year month day hour minute second zone = some gmt) :
    gmt.toInt = calendarGmt year.toInt month.toInt day.toInt hour.toInt minute.toInt second.toInt
      zone.toInt ↔ CountedExactly year month day hour minute second zone := by
  obtain ⟨hyear, -, hgmt⟩ := convertToGmtLong_accepted h
  have hbound := year.toInt_lt
  rw [hgmt, bmod_late_eq_iff (by omega) (by omega)]
  refine and_congr_left fun _ => ?_
  omega

/-- The value of a date, time and zone is exact if and only if the year is not behind 2100 and a
`long` holds it. It is strictly increasing in such dates. -/
theorem convertToGmt_exact_iff (year month day hour minute second zone gmt : Int64)
    (h : convertToGmtLong year month day hour minute second zone = some gmt) :
    (gmt.toInt = calendarGmt year.toInt month.toInt day.toInt hour.toInt minute.toInt second.toInt
        zone.toInt ↔ CountedExactly year month day hour minute second zone) ∧
      ∀ year' month' day' gmt' : Int64,
        convertToGmtLong year' month' day' hour minute second zone = some gmt' →
        DateBefore year.toInt month.toInt day.toInt year'.toInt month'.toInt day'.toInt →
        CountedExactly year month day hour minute second zone →
        CountedExactly year' month' day' hour minute second zone → gmt < gmt' := by
  refine ⟨convertToGmtLong_exact h, fun year' month' day' gmt' h' hbefore hexact hexact' => ?_⟩
  obtain ⟨hyear, hdate, -⟩ := convertToGmtLong_accepted h
  obtain ⟨-, hdate', -⟩ := convertToGmtLong_accepted h'
  have hdays := gregorianDays_lt hyear hdate hdate' hbefore
  rw [Int64.lt_iff_toInt_lt, (convertToGmtLong_exact h).mpr hexact,
    (convertToGmtLong_exact h').mpr hexact', calendarGmt, calendarGmt]
  omega

theorem gregorianDays_eq (years month : Nat) (day : Int) :
    gregorianDays (1970 + years) month day = 365 * years + (1969 + years) / 4 + (1969 + years) / 400 -
      477 - (1969 + years) / 100 +
        (∑ m ∈ Finset.range month, daysInMonth (1970 + years) (m + 1) : Nat) + (day - 1) := by
  have hyears := leapDays_eq years
  rw [gregorianDays]
  omega

/-- The last second of the year 2100, an hour east of Greenwich. -/
theorem convertToGmt_exact_2100 : (4133977199 : Int64).toInt =
    calendarGmt (2100 : Int64).toInt (11 : Int64).toInt (31 : Int64).toInt (23 : Int64).toInt
      (59 : Int64).toInt (59 : Int64).toInt (3600 : Int64).toInt := by
  refine (convertToGmt_exact_iff 2100 11 31 23 59 59 3600 4133977199 (by decide)).1.mpr
    ⟨by decide, ?_⟩
  rw [InLong, calendarGmt, show (2100 : Int64).toInt.toNat = 1970 + 130 from rfl, gregorianDays_eq]
  decide

/-- The first second of the year 2101 is a day late. -/
theorem convertToGmt_late : ¬ ∀ year month day hour minute second zone gmt : Int64,
    convertToGmtLong year month day hour minute second zone = some gmt →
      gmt.toInt = calendarGmt year.toInt month.toInt day.toInt hour.toInt minute.toInt
        second.toInt zone.toInt := by
  intro h
  have hgmt := h 2101 0 1 0 0 0 0 4134067200 (by decide)
  rw [calendarGmt, show (2101 : Int64).toInt.toNat = 1970 + 131 from rfl, gregorianDays_eq] at hgmt
  exact absurd hgmt (by decide)

end Snert
