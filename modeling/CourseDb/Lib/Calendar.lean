import Mathlib.Tactic

/-! # The Gregorian calendar

Days are numbered from the first day of the year 1, backwards as well as
forwards. Every number is that of one date, and dates are ordered as their
numbers are. Months are counted from 0, days from 1.
-/

namespace CourseDb.Calendar

def IsLeap (year : ℤ) : Prop := year % 4 = 0 ∧ (year % 100 ≠ 0 ∨ year % 400 = 0)

instance (year : ℤ) : Decidable (IsLeap year) := by unfold IsLeap; infer_instance

def yearStart (year : ℤ) : ℤ :=
  365 * (year - 1) + (year - 1) / 4 - (year - 1) / 100 + (year - 1) / 400

def monthLength (year : ℤ) (month : ℕ) : ℕ :=
  if month = 1 then (if IsLeap year then 29 else 28)
  else if month = 3 ∨ month = 5 ∨ month = 8 ∨ month = 10 then 30
  else 31

theorem monthLength_le (year : ℤ) (month : ℕ) : monthLength year month ≤ 31 := by
  unfold monthLength
  split_ifs <;> omega

/-- The days of a year before a month. -/
def monthStart (year : ℤ) : ℕ → ℕ
  | 0 => 0
  | month + 1 => monthStart year month + monthLength year month

@[ext]
structure Date where
  year : ℤ
  month : ℕ
  day : ℕ
deriving DecidableEq

namespace Date

/-- The day is one that the month has. -/
structure Valid (d : Date) : Prop where
  month_lt : d.month < 12
  day_pos : 1 ≤ d.day
  day_le : d.day ≤ monthLength d.year d.month

def number (d : Date) : ℤ := yearStart d.year + monthStart d.year d.month + (d.day - 1)

/-- Years come before months, and months before days. -/
def Before (d d' : Date) : Prop :=
  d.year < d'.year ∨ d.year = d'.year ∧ (d.month < d'.month ∨ d.month = d'.month ∧ d.day < d'.day)

end Date

/-- The year of a day: 400 years have 146097 days, which leaves two years to choose from. -/
def yearOf (days : ℤ) : ℤ :=
  if yearStart (400 * days / 146097 + 2) ≤ days then 400 * days / 146097 + 2
  else 400 * days / 146097 + 1

def monthOf (year : ℤ) (dayOfYear : ℕ) : ℕ :=
  Nat.findGreatest (fun month => monthStart year month ≤ dayOfYear) 11

def dateOf (days : ℤ) : Date :=
  let year := yearOf days
  let dayOfYear := (days - yearStart year).toNat
  let month := monthOf year dayOfYear
  ⟨year, month, dayOfYear - monthStart year month + 1⟩

theorem monthStart_twelve (year : ℤ) :
    (monthStart year 12 : ℤ) = yearStart (year + 1) - yearStart year := by
  by_cases hleap : IsLeap year
  · simp only [monthStart, monthLength, if_pos hleap]
    unfold IsLeap at hleap
    unfold yearStart
    simp
    omega
  · simp only [monthStart, monthLength, if_neg hleap]
    unfold IsLeap at hleap
    unfold yearStart
    simp
    omega

theorem yearStart_le_iff {year year' : ℤ} : yearStart year ≤ yearStart year' ↔ year ≤ year' := by
  unfold yearStart
  omega

theorem yearOf_spec (days : ℤ) :
    yearStart (yearOf days) ≤ days ∧ days < yearStart (yearOf days + 1) := by
  unfold yearOf
  have hlow : 146097 * (400 * days / 146097) ≤ 400 * days := Int.mul_ediv_self_le (by decide)
  have hhigh : 400 * days < 146097 * (400 * days / 146097) + 146097 :=
    Int.lt_mul_ediv_self_add (by decide)
  generalize 400 * days / 146097 = q at hlow hhigh ⊢
  split_ifs with hlate
  · refine ⟨hlate, ?_⟩
    unfold yearStart at hlate ⊢
    omega
  · constructor
    · unfold yearStart
      omega
    · rw [add_assoc]
      exact Int.lt_of_not_ge hlate

theorem yearOf_eq {year days : ℤ} (hstart : yearStart year ≤ days)
    (hend : days < yearStart (year + 1)) : yearOf days = year := by
  obtain ⟨hstart', hend'⟩ := yearOf_spec days
  have hle : yearOf days ≤ year := by
    by_contra hlt
    have := yearStart_le_iff.mpr (show year + 1 ≤ yearOf days by omega)
    omega
  have hge : year ≤ yearOf days := by
    by_contra hlt
    have := yearStart_le_iff.mpr (show yearOf days + 1 ≤ year by omega)
    omega
  exact le_antisymm hle hge

section Months

variable {year : ℤ} {month month' dayOfYear : ℕ}

theorem monthStart_mono : Monotone (monthStart year) := by
  apply monotone_nat_of_le_succ
  intro month
  exact Nat.le_add_right _ _

theorem monthStart_succ_le (year : ℤ) (h : month < month') :
    monthStart year (month + 1) ≤ monthStart year month' := monthStart_mono h

theorem monthOf_le_eleven : monthOf year dayOfYear ≤ 11 := Nat.findGreatest_le 11

theorem monthStart_monthOf_le (year : ℤ) (dayOfYear : ℕ) :
    monthStart year (monthOf year dayOfYear) ≤ dayOfYear :=
  Nat.findGreatest_spec (P := fun month => monthStart year month ≤ dayOfYear) (Nat.zero_le 11)
    (Nat.zero_le _)

theorem lt_monthStart_monthOf_succ (h : dayOfYear < monthStart year 12) :
    dayOfYear < monthStart year (monthOf year dayOfYear + 1) := by
  by_cases hlast : monthOf year dayOfYear = 11
  · rw [hlast]
    exact h
  · have hle : monthOf year dayOfYear ≤ 11 := monthOf_le_eleven
    exact Nat.lt_of_not_le (Nat.findGreatest_is_greatest
      (P := fun month => monthStart year month ≤ dayOfYear) (Nat.lt_succ_self _) (by omega))

theorem month_unique (hstart : monthStart year month ≤ dayOfYear)
    (hend : dayOfYear < monthStart year (month + 1)) (hstart' : monthStart year month' ≤ dayOfYear)
    (hend' : dayOfYear < monthStart year (month' + 1)) : month = month' := by
  rcases lt_trichotomy month month' with hlt | heq | hlt
  · have := monthStart_succ_le year hlt
    omega
  · exact heq
  · have := monthStart_succ_le year hlt
    omega

end Months

namespace Date

variable {d d' : Date}

theorem Valid.dayOfYear_lt (h : d.Valid) :
    monthStart d.year d.month + (d.day - 1) < monthStart d.year (d.month + 1) := by
  have := h.day_pos
  have := h.day_le
  rw [monthStart]
  omega

theorem Valid.dayOfYear_lt_year (h : d.Valid) :
    monthStart d.year d.month + (d.day - 1) < monthStart d.year 12 :=
  h.dayOfYear_lt.trans_le (monthStart_mono h.month_lt)

theorem number_eq (h : 1 ≤ d.day) :
    d.number = yearStart d.year + (monthStart d.year d.month + (d.day - 1) : ℕ) := by
  rw [number]
  omega

end Date

theorem dateOf_number {d : Date} (h : d.Valid) : dateOf d.number = d := by
  have hnumber := Date.number_eq h.day_pos
  have hlt := h.dayOfYear_lt_year
  have hyear : yearOf d.number = d.year := by
    have htwelve := monthStart_twelve d.year
    apply yearOf_eq <;> omega
  have hday : (d.number - yearStart d.year).toNat = monthStart d.year d.month + (d.day - 1) := by
    omega
  have hmonth : monthOf d.year (monthStart d.year d.month + (d.day - 1)) = d.month :=
    month_unique (monthStart_monthOf_le _ _) (lt_monthStart_monthOf_succ hlt) (Nat.le_add_right _ _)
      h.dayOfYear_lt
  have hpos := h.day_pos
  unfold dateOf
  simp only [hyear, hday, hmonth]
  rw [show monthStart d.year d.month + (d.day - 1) - monthStart d.year d.month + 1 = d.day by omega]

theorem dateOf_valid (days : ℤ) : (dateOf days).Valid := by
  obtain ⟨hstart, hend⟩ := yearOf_spec days
  have htwelve := monthStart_twelve (yearOf days)
  have hlt : (days - yearStart (yearOf days)).toNat < monthStart (yearOf days) 12 := by omega
  have hle := monthStart_monthOf_le (yearOf days) (days - yearStart (yearOf days)).toNat
  have hnext := lt_monthStart_monthOf_succ hlt
  rw [monthStart] at hnext
  refine ⟨Nat.lt_succ_of_le monthOf_le_eleven, Nat.le_add_left 1 _, ?_⟩
  change (days - yearStart (yearOf days)).toNat - monthStart (yearOf days) (monthOf (yearOf days)
    (days - yearStart (yearOf days)).toNat) + 1 ≤ monthLength (yearOf days) (monthOf (yearOf days)
    (days - yearStart (yearOf days)).toNat)
  omega

/-- Dates are ordered as their numbers are. -/
theorem Date.number_lt_of_before {d d' : Date} (h : d.Valid) (h' : d'.Valid) (hb : d.Before d') :
    d.number < d'.number := by
  rw [number_eq h.day_pos, number_eq h'.day_pos]
  rcases hb with hyear | ⟨hyear, hmonth | ⟨hmonth, hday⟩⟩
  · have hlt := h.dayOfYear_lt_year
    have htwelve := monthStart_twelve d.year
    have hle := yearStart_le_iff.mpr (show d.year + 1 ≤ d'.year by omega)
    omega
  · -- the month of the first date ends before the second date
    have hlt := h.dayOfYear_lt
    have hle := monthStart_succ_le d.year hmonth
    rw [hyear] at hlt hle ⊢
    omega
  · have := h.day_pos
    rw [hyear, hmonth]
    omega

theorem Date.number_lt_iff {d d' : Date} (h : d.Valid) (h' : d'.Valid) :
    d.number < d'.number ↔ d.Before d' := by
  refine ⟨fun hlt => ?_, number_lt_of_before h h'⟩
  by_contra hnot
  have hcases : d = d' ∨ d'.Before d := by
    cases d
    cases d'
    simp only [Before, Date.mk.injEq] at hnot ⊢
    omega
  rcases hcases with rfl | hb
  · exact lt_irrefl _ hlt
  · exact lt_asymm hlt (number_lt_of_before h' h hb)

end CourseDb.Calendar
