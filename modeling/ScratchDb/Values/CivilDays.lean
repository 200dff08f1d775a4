import Mathlib.Data.Fintype.Basic
import Mathlib.Order.Monotone.Basic
import ScratchDb.Values.DateTime

/-!
# The civil calendar

A day printed as year, month and day is read back as the same day. The years of
an era are counted by a formula that corrects the days for the leap days before
them; it is right because it is monotone and right at both ends of every year.
-/

namespace ScratchDb

/-! ## Years of an era -/

/-- The year of an era in which a day of the era lies. -/
def yearOfDay (dayOfEra : Nat) : Nat :=
  (dayOfEra - dayOfEra / 1460 + dayOfEra / 36524 - dayOfEra / 146096) / 365

/-- The first day of a year of an era. -/
def firstDay (year : Nat) : Nat := year * 365 + year / 4 - year / 100 + year / 400

theorem yearOfDay_mono : Monotone yearOfDay := by
  refine monotone_nat_of_le_succ fun day => Nat.div_le_div_right ?_
  omega

theorem yearOfDay_ends :
    ∀ year : Fin 400, yearOfDay (firstDay year) = year ∧
      yearOfDay (firstDay (year + 1) - 1) = year := by
  decide +kernel

theorem firstDay_succ :
    ∀ year : Fin 400,
      firstDay (year + 1) = firstDay year + if isLeapYear (year + 1) then 366 else 365 := by
  decide +kernel

/-- The formula finds the year that has begun and has not ended. -/
theorem yearOfDay_spec {day : Nat} (h : day < 146097) :
    yearOfDay day < 400 ∧ firstDay (yearOfDay day) ≤ day ∧
      day < firstDay (yearOfDay day + 1) := by
  have hbound : yearOfDay day < 400 := by
    rw [yearOfDay]
    omega
  refine ⟨hbound, ?_, ?_⟩
  · by_contra hbefore
    -- the day would lie in an earlier year
    have hpos : yearOfDay day ≠ 0 := fun hzero => by
      rw [hzero] at hbefore
      exact hbefore (Nat.zero_le day)
    have hend := (yearOfDay_ends ⟨yearOfDay day - 1, by omega⟩).2
    have hmono : yearOfDay day ≤ yearOfDay (firstDay (yearOfDay day) - 1) :=
      yearOfDay_mono (by omega)
    simp only [Nat.sub_add_cancel (Nat.pos_of_ne_zero hpos)] at hend
    omega
  · by_contra hafter
    rcases Nat.lt_or_ge (yearOfDay day + 1) 400 with hlast | hlast
    · have hstart := (yearOfDay_ends ⟨yearOfDay day + 1, hlast⟩).1
      have hmono : yearOfDay (firstDay (yearOfDay day + 1)) ≤ yearOfDay day :=
        yearOfDay_mono (by omega)
      simp only at hstart
      omega
    · have hfull : yearOfDay day + 1 = 400 := by omega
      rw [hfull] at hafter
      exact hafter h

/-! ## Rounding down -/

theorem tdiv_era (days : Int) :
    (if days ≥ 0 then days else days - 146096).tdiv 146097 = days / 146097 := by
  rw [Int.tdiv_eq_ediv]
  have hsign : Int.sign 146097 = 1 := rfl
  rw [hsign]
  split <;> split <;> omega

theorem tdiv_year (year : Int) :
    (if year ≥ 0 then year else year - 399).tdiv 400 = year / 400 := by
  rw [Int.tdiv_eq_ediv]
  have hsign : Int.sign 400 = 1 := rfl
  rw [hsign]
  split <;> split <;> omega

/-! ## Days of a year -/

/-- Counted from March: five months of 153 days and a rest. -/
def monthPrime (dayOfYear : Nat) : Nat := (5 * dayOfYear + 2) / 153

def dayOfMonth (dayOfYear : Nat) : Nat := dayOfYear - (153 * monthPrime dayOfYear + 2) / 5 + 1

def monthOf (dayOfYear : Nat) : Nat :=
  if monthPrime dayOfYear < 10 then monthPrime dayOfYear + 3 else monthPrime dayOfYear - 9

/-- The month and its day, for every day of a year, and their limits. -/
theorem dayOfMonth_spec :
    ∀ dayOfYear : Fin 366,
      1 ≤ monthOf dayOfYear ∧ monthOf dayOfYear ≤ 12 ∧ 1 ≤ dayOfMonth dayOfYear ∧
        (monthOf dayOfYear ≤ 2 ↔ 306 ≤ dayOfYear.val) ∧
        (153 * (if monthOf dayOfYear > 2 then monthOf dayOfYear - 3
          else monthOf dayOfYear + 9) + 2) / 5 + dayOfMonth dayOfYear - 1 = dayOfYear ∧
        dayOfMonth dayOfYear ≤ (if monthOf dayOfYear = 2 ∧ dayOfYear.val = 365 then 29
          else daysOfMonths.getD (monthOf dayOfYear - 1) 0) := by
  decide +kernel

theorem twoDigits_suffice :
    ∀ dayOfYear : Fin 366, monthOf dayOfYear < 100 ∧ dayOfMonth dayOfYear < 100 := by
  decide +kernel

/-! ## Days and dates -/

/-- The date that a day of a year of an era has. -/
def civilOf (era : Int) (yearOfEra dayOfYear : Nat) : Int × Nat × Nat :=
  (if monthOf dayOfYear ≤ 2 then yearOfEra + era * 400 + 1 else yearOfEra + era * 400,
    monthOf dayOfYear, dayOfMonth dayOfYear)

/-- A last day of February is the 29th in leap years only. -/
def FitsYear (yearOfEra dayOfYear : Nat) : Prop :=
  yearOfEra < 400 ∧ dayOfYear < 366 ∧ (dayOfYear = 365 → isLeapYear (yearOfEra + 1) = true)

theorem civilFromDays_parts (days : Int) :
    ∃ (era : Int) (yearOfEra dayOfYear : Nat), FitsYear yearOfEra dayOfYear ∧
      days + 719468 = era * 146097 + (firstDay yearOfEra + dayOfYear : Nat) ∧
      civilFromDays days = civilOf era yearOfEra dayOfYear := by
  set era := (days + 719468) / 146097 with hera
  set dayOfEra := (days + 719468 - era * 146097).toNat with hday
  have hlt : dayOfEra < 146097 := by omega
  obtain ⟨hyear, hbegun, hopen⟩ := yearOfDay_spec hlt
  have hfirst : firstDay (yearOfDay dayOfEra) =
      365 * yearOfDay dayOfEra + yearOfDay dayOfEra / 4 - yearOfDay dayOfEra / 100 := by
    rw [firstDay]
    omega
  have hnext := firstDay_succ ⟨yearOfDay dayOfEra, hyear⟩
  simp only at hnext
  rw [hnext] at hopen
  refine ⟨era, yearOfDay dayOfEra, dayOfEra - firstDay (yearOfDay dayOfEra),
    ⟨hyear, ?_, ?_⟩, ?_, ?_⟩
  · split at hopen <;> omega
  · intro hlast
    by_contra hcommon
    rw [if_neg hcommon] at hopen
    omega
  · omega
  · rw [civilFromDays]
    simp only [tdiv_era, ← hera, ← hday]
    rw [civilOf, hfirst]
    rfl

/-- A date is read as the day that it was printed for. -/
theorem daysFromCivil_civilOf {era : Int} {yearOfEra dayOfYear : Nat}
    (h : FitsYear yearOfEra dayOfYear) :
    daysFromCivil (civilOf era yearOfEra dayOfYear).1 (civilOf era yearOfEra dayOfYear).2.1
        (civilOf era yearOfEra dayOfYear).2.2 =
      era * 146097 + (firstDay yearOfEra + dayOfYear : Nat) - 719468 := by
  obtain ⟨hyear, hday, -⟩ := h
  obtain ⟨-, -, -, -, hback, -⟩ := dayOfMonth_spec ⟨dayOfYear, hday⟩
  have hshift : (if monthOf dayOfYear ≤ 2 then (civilOf era yearOfEra dayOfYear).1 - 1
      else (civilOf era yearOfEra dayOfYear).1) = yearOfEra + era * 400 := by
    rw [civilOf]
    split <;> omega
  have hera : (yearOfEra + era * 400 : Int) / 400 = era := by omega
  have hrest : (yearOfEra + era * 400 - era * 400 : Int).toNat = yearOfEra := by omega
  rw [daysFromCivil]
  have hmonth : (civilOf era yearOfEra dayOfYear).2.1 = monthOf dayOfYear := rfl
  have hdayOf : (civilOf era yearOfEra dayOfYear).2.2 = dayOfMonth dayOfYear := rfl
  simp only [hmonth, hdayOf, hshift, tdiv_year, hera, hrest, hback]
  rw [firstDay]
  omega

theorem isValidDate_civilOf {era : Int} {yearOfEra dayOfYear : Nat}
    (h : FitsYear yearOfEra dayOfYear) :
    isValidDate (civilOf era yearOfEra dayOfYear).1.toNat (civilOf era yearOfEra dayOfYear).2.1
      (civilOf era yearOfEra dayOfYear).2.2 = true := by
  obtain ⟨hyear, hday, hleap⟩ := h
  obtain ⟨hfirst, hlast, hpos, hturn, -, hlimit⟩ := dayOfMonth_spec ⟨dayOfYear, hday⟩
  simp only at hfirst hlast hpos hturn hlimit
  have hbound : dayOfMonth dayOfYear ≤
      daysInMonth (civilOf era yearOfEra dayOfYear).1.toNat (monthOf dayOfYear) := by
    refine le_trans hlimit ?_
    rw [daysInMonth]
    by_cases hfeb : monthOf dayOfYear = 2
    · by_cases hend : dayOfYear = 365
      · have hleap' : isLeapYear (civilOf era yearOfEra dayOfYear).1.toNat = true := by
          have hnumbers := hleap hend
          rw [isLeapYear] at hnumbers ⊢
          rw [civilOf, if_pos (by omega)]
          simp only [Bool.or_eq_true, Bool.and_eq_true, decide_eq_true_eq] at hnumbers ⊢
          omega
        rw [if_pos ⟨hfeb, hend⟩, if_pos ⟨hfeb, hleap'⟩]
      · rw [if_neg fun h => hend h.2, hfeb]
        split
        · decide
        · exact le_rfl
    · rw [if_neg fun h => hfeb h.1, if_neg fun h => hfeb h.1]
  rw [isValidDate]
  simp only [Bool.and_eq_true, decide_eq_true_eq]
  exact ⟨⟨⟨hfirst, hlast⟩, hpos⟩, hbound⟩

/-- The days whose year has four digits. -/
theorem civilOf_year_iff {days era : Int} {yearOfEra dayOfYear : Nat}
    (h : FitsYear yearOfEra dayOfYear)
    (hdays : days + 719468 = era * 146097 + (firstDay yearOfEra + dayOfYear : Nat)) :
    (0 ≤ (civilOf era yearOfEra dayOfYear).1 ↔ -719528 ≤ days) ∧
      ((civilOf era yearOfEra dayOfYear).1 ≤ 9999 ↔ days ≤ 2932896) := by
  obtain ⟨hyear, hday, hleap⟩ := h
  obtain ⟨-, -, -, hturn, -, -⟩ := dayOfMonth_spec ⟨dayOfYear, hday⟩
  simp only at hturn
  rw [firstDay] at hdays
  rw [civilOf]
  by_cases hspring : monthOf dayOfYear ≤ 2
  · have hlate := hturn.mp hspring
    simp only [if_pos hspring]
    constructor <;> constructor <;> intro h <;> omega
  · have hearly : ¬ 306 ≤ dayOfYear := fun h => hspring (hturn.mpr h)
    simp only [if_neg hspring]
    constructor <;> constructor <;> intro h <;> omega

/-! ## Order -/

/-- The days from the first of March of the year 0 to that of this year. -/
def yearStart (year : Int) : Int := 365 * year + year / 4 - year / 100 + year / 400

theorem daysFromCivil_eq (year : Int) (month day : Nat) :
    daysFromCivil year month day =
      yearStart (if month ≤ 2 then year - 1 else year) +
        ((153 * (if month > 2 then month - 3 else month + 9) + 2) / 5 + day - 1 : Nat) - 719468 := by
  rw [daysFromCivil]
  simp only [tdiv_year]
  rw [yearStart]
  omega

def yearLength (year : Nat) : Nat := if isLeapYear year then 366 else 365

theorem yearStart_succ (year : Nat) :
    yearStart year = yearStart (year - 1) + yearLength year := by
  have hleap : isLeapYear year = true ↔ (year % 4 = 0 ∧ year % 100 ≠ 0) ∨ year % 400 = 0 := by
    rw [isLeapYear]
    simp only [Bool.or_eq_true, Bool.and_eq_true, decide_eq_true_eq]
  rw [yearStart, yearStart, yearLength]
  by_cases h : isLeapYear year = true
  · rw [if_pos h]
    have hnumbers := hleap.mp h
    omega
  · rw [if_neg h]
    have hnumbers := hleap.not.mp h
    omega

theorem yearStart_mono {year later : Int} (h : year ≤ later) :
    yearStart year ≤ yearStart later := by
  rw [yearStart, yearStart]
  omega

/-- The days of a year before a month. -/
def daysBefore (leap : Bool) (month : Nat) : Nat :=
  if month ≤ 2 then 31 * (month - 1)
  else (if leap then 60 else 59) + (153 * (month - 3) + 2) / 5

/-- `daysInMonth` of a year that is leap or not. -/
def lengthOfMonth (leap : Bool) (month : Nat) : Nat :=
  if month = 2 ∧ leap then 29 else daysOfMonths.getD (month - 1) 0

/-- The months of a year follow each other. -/
theorem daysBefore_spec :
    ∀ (leap : Bool) (month : Fin 13), 1 ≤ month.val →
      daysBefore leap month + lengthOfMonth leap month ≤ (if leap then 366 else 365) ∧
        ∀ later : Fin 13, month < later →
          daysBefore leap month + lengthOfMonth leap month ≤ daysBefore leap later := by
  decide +kernel

theorem daysFromCivil_eq_daysBefore {year month day : Nat} (hmonth : 1 ≤ month) (hday : 1 ≤ day) :
    daysFromCivil year month day =
      yearStart (year - 1) + (daysBefore (isLeapYear year) month + day : Nat) - 719163 := by
  have hnext := yearStart_succ year
  rw [yearLength] at hnext
  rw [daysFromCivil_eq, daysBefore]
  by_cases hearly : month ≤ 2
  · simp only [if_pos hearly, if_neg (not_lt.mpr hearly)]
    omega
  · simp only [if_neg hearly, if_pos (not_le.mp hearly)]
    split at hnext <;> simp_all <;> omega

theorem isValidDate_iff {year month day : Nat} :
    isValidDate year month day = true ↔
      1 ≤ month ∧ month ≤ 12 ∧ 1 ≤ day ∧ day ≤ lengthOfMonth (isLeapYear year) month := by
  rw [isValidDate]
  simp only [Bool.and_eq_true, decide_eq_true_eq, and_assoc]
  rfl

/-- Earlier in the year, then in the month, then in the day. -/
def Earlier (year month day year' month' day' : Nat) : Prop :=
  year < year' ∨ year = year' ∧ (month < month' ∨ month = month' ∧ day < day')

theorem daysFromCivil_lt {year month day year' month' day' : Nat}
    (h : isValidDate year month day = true) (h' : isValidDate year' month' day' = true)
    (hlt : Earlier year month day year' month' day') :
    daysFromCivil year month day < daysFromCivil year' month' day' := by
  obtain ⟨hfirst, hlast, hday, hend⟩ := isValidDate_iff.mp h
  obtain ⟨hfirst', hlast', hday', hend'⟩ := isValidDate_iff.mp h'
  obtain ⟨hyear, hmonths⟩ := daysBefore_spec (isLeapYear year) ⟨month, by omega⟩ hfirst
  rw [daysFromCivil_eq_daysBefore hfirst hday, daysFromCivil_eq_daysBefore hfirst' hday']
  rcases hlt with hyears | ⟨rfl, hmonth | ⟨rfl, hdays⟩⟩
  · -- the year is over
    have hnext := yearStart_succ year
    have hmono : yearStart year ≤ yearStart (year' - 1) := yearStart_mono (by omega)
    rw [yearLength] at hnext
    simp only at hyear
    omega
  · have hbefore := hmonths ⟨month', by omega⟩ hmonth
    simp only at hbefore
    omega
  · omega

theorem daysFromCivil_lt_iff {year month day year' month' day' : Nat}
    (h : isValidDate year month day = true) (h' : isValidDate year' month' day' = true) :
    daysFromCivil year month day < daysFromCivil year' month' day' ↔
      Earlier year month day year' month' day' := by
  refine ⟨fun hlt => ?_, daysFromCivil_lt h h'⟩
  by_contra hnot
  have hrest : Earlier year' month' day' year month day ∨
      year = year' ∧ month = month' ∧ day = day' := by
    rw [Earlier] at hnot ⊢
    omega
  rcases hrest with hearlier | ⟨rfl, rfl, rfl⟩
  · exact absurd (daysFromCivil_lt h' h hearlier) (by omega)
  · exact absurd hlt (lt_irrefl _)

theorem daysFromCivil_inj {year month day year' month' day' : Nat}
    (h : isValidDate year month day = true) (h' : isValidDate year' month' day' = true)
    (heq : daysFromCivil year month day = daysFromCivil year' month' day') :
    year = year' ∧ month = month' ∧ day = day' := by
  have hlt := (daysFromCivil_lt_iff h h').not.mp (by omega)
  have hgt := (daysFromCivil_lt_iff h' h).not.mp (by omega)
  rw [Earlier] at hlt hgt
  omega

/-- The day that a date is read as is printed as this date. -/
theorem civilFromDays_daysFromCivil {year month day : Nat}
    (h : isValidDate year month day = true) :
    civilFromDays (daysFromCivil year month day) = ((year : Int), month, day) := by
  obtain ⟨era, yearOfEra, dayOfYear, hfits, hdays, hcivil⟩ :=
    civilFromDays_parts (daysFromCivil year month day)
  have hback := @daysFromCivil_civilOf era _ _ hfits
  have hvalid := @isValidDate_civilOf era _ _ hfits
  have hlow := (civilOf_year_iff hfits hdays).1
  -- no day is before the first of January of the year 0
  have hstart : -719528 ≤ daysFromCivil year month day := by
    obtain ⟨hfirst, -, hday, -⟩ := isValidDate_iff.mp h
    have hmono : yearStart (-1) ≤ yearStart (year - 1) := yearStart_mono (by omega)
    have hzero : yearStart (-1) = -366 := by decide
    rw [daysFromCivil_eq_daysBefore hfirst hday]
    omega
  rw [← hcivil] at hback hvalid hlow
  have hnonneg := hlow.mpr hstart
  have hyear : (((civilFromDays (daysFromCivil year month day)).1.toNat : Nat) : Int) =
      (civilFromDays (daysFromCivil year month day)).1 := Int.toNat_of_nonneg hnonneg
  have hsame : daysFromCivil ((civilFromDays (daysFromCivil year month day)).1.toNat : Nat)
      (civilFromDays (daysFromCivil year month day)).2.1
      (civilFromDays (daysFromCivil year month day)).2.2 = daysFromCivil year month day := by
    rw [hyear, hback]
    omega
  obtain ⟨hy, hm, hd⟩ := daysFromCivil_inj hvalid h hsame
  rw [Prod.ext_iff, Prod.ext_iff]
  exact ⟨by rw [← hyear, hy], hm, hd⟩

end ScratchDb
