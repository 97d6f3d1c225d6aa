import Mathlib.Tactic.Linarith

/-!
# The Gregorian calendar

The proleptic Gregorian calendar, in which every day has a date (`Date`) and a next one
(`Date.next`).
-/

namespace Lib

/-! ## Dates -/

def IsLeap (y : ℤ) : Prop := y % 4 = 0 ∧ (y % 100 ≠ 0 ∨ y % 400 = 0)

instance (y : ℤ) : Decidable (IsLeap y) := inferInstanceAs (Decidable (_ ∧ _))

def daysInMonth (y m : ℤ) : ℤ :=
  if m = 2 then if IsLeap y then 29 else 28
  else if m = 4 ∨ m = 6 ∨ m = 9 ∨ m = 11 then 30
  else 31

theorem one_le_daysInMonth (y m : ℤ) : 1 ≤ daysInMonth y m := by
  unfold daysInMonth
  split_ifs <;> decide

@[ext]
structure Date where
  year : ℤ
  month : ℤ
  day : ℤ
  one_le_month : 1 ≤ month
  month_le : month ≤ 12
  one_le_day : 1 ≤ day
  day_le : day ≤ daysInMonth year month

namespace Date

theorem day_le_thirtyOne (t : Date) : t.day ≤ 31 := by
  refine t.day_le.trans ?_
  unfold daysInMonth
  split_ifs <;> decide

def next (t : Date) : Date :=
  if h : t.day < daysInMonth t.year t.month then
    { t with day := t.day + 1, one_le_day := by have := t.one_le_day; omega, day_le := h }
  else if h : t.month < 12 then
    { year := t.year, month := t.month + 1, day := 1
      one_le_month := by have := t.one_le_month; omega
      month_le := h, one_le_day := le_rfl, day_le := one_le_daysInMonth _ _ }
  else
    { year := t.year + 1, month := 1, day := 1
      one_le_month := le_rfl, month_le := by decide
      one_le_day := le_rfl, day_le := one_le_daysInMonth _ _ }

def civil (t : Date) : ℤ × ℤ × ℤ := (t.year, t.month, t.day)

end Date

/-! ## Years and months that begin in March -/

def yearStart (y : ℤ) : ℤ := 365 * y + y / 4 - y / 100 + y / 400

def monthStart (mp : ℤ) : ℤ := (153 * mp + 2) / 5

theorem yearStart_lt_succ (y : ℤ) : yearStart y < yearStart (y + 1) := by
  unfold yearStart
  omega

theorem yearStart_mono {y y' : ℤ} (h : y ≤ y') : yearStart y ≤ yearStart y' :=
  (strictMono_int_of_lt_succ yearStart_lt_succ).monotone h

theorem lt_of_yearStart_lt {y y' : ℤ} (h : yearStart y < yearStart y') : y < y' :=
  (strictMono_int_of_lt_succ yearStart_lt_succ).lt_iff_lt.1 h

theorem eq_of_yearStart {y y' n : ℤ} (h₁ : yearStart y ≤ n) (h₂ : n < yearStart (y + 1))
    (h₁' : yearStart y' ≤ n) (h₂' : n < yearStart (y' + 1)) : y = y' := by
  have h := lt_of_yearStart_lt (h₁.trans_lt h₂')
  have h' := lt_of_yearStart_lt (h₁'.trans_lt h₂)
  omega

theorem yearStart_era (era yoe : ℤ) :
    yearStart (yoe + era * 400) = era * 146097 + yearStart yoe := by
  unfold yearStart
  omega

theorem yearStart_succ (y : ℤ) : yearStart (y + 1) = yearStart y + if IsLeap (y + 1) then 366
    else 365 := by
  unfold yearStart IsLeap
  split_ifs <;> omega

def yearOfEra (doe : ℤ) : ℤ := (doe - doe / 1460 + doe / 36524 - doe / 146096) / 365

section

variable {n : ℤ} (h₀ : 0 ≤ n) (h₁ : n < 146097)

include h₀ h₁

theorem yearOfEra_bounds : 0 ≤ yearOfEra n ∧ yearOfEra n < 400 ∧ yearStart (yearOfEra n) ≤ n ∧
    n ≤ yearStart (yearOfEra n) + 365 := by
  obtain ⟨yoe, hyoe⟩ : ∃ yoe, yoe = yearOfEra n := ⟨_, rfl⟩
  rw [← hyoe]
  unfold yearOfEra at hyoe
  unfold yearStart
  have hcentury : n / 36524 = 0 ∨ n / 36524 = 1 ∨ n / 36524 = 2 ∨ n / 36524 = 3 ∨
      n / 36524 = 4 := by
    omega
  have hrange : 0 ≤ yoe ∧ yoe < 400 := by rcases hcentury with h | h | h | h | h <;> omega
  have hera : yoe / 400 = 0 := by omega
  have hquarter : yoe / 4 = n / 1460 ∨ yoe / 4 = n / 1460 - 1 := by
    rcases hcentury with h | h | h | h | h <;> omega
  rw [hera]
  refine ⟨hrange.1, hrange.2, ?_⟩
  rcases hcentury with h | h | h | h | h <;> omega

omit h₀ h₁ in
theorem yearOfEra_yearStart {y : ℤ} (h₀ : 0 ≤ y) (h₁ : y < 400) : yearOfEra (yearStart y) = y := by
  obtain ⟨c, r, hr, hr', rfl⟩ : ∃ c r : ℤ, 0 ≤ r ∧ r < 100 ∧ y = 100 * c + r :=
    ⟨y / 100, y % 100, by omega, by omega, by omega⟩
  have hstart : yearStart (100 * c + r) = 36524 * c + (365 * r + r / 4) := by
    unfold yearStart
    omega
  have hera : yearStart (100 * c + r) / 146096 = 0 := by omega
  have hcentury : yearStart (100 * c + r) / 36524 = c := by omega
  have hquarter : yearStart (100 * c + r) / 1460 = 25 * c + r / 4 := by omega
  rw [yearOfEra, hquarter, hcentury, hera]
  omega

theorem yearOfEra_spec : 0 ≤ yearOfEra n ∧ yearOfEra n < 400 ∧ yearStart (yearOfEra n) ≤ n ∧
    n < yearStart (yearOfEra n + 1) := by
  obtain ⟨hyoe₀, hyoe₁, hstart, hle⟩ := yearOfEra_bounds h₀ h₁
  refine ⟨hyoe₀, hyoe₁, hstart, lt_of_not_ge fun hge => ?_⟩
  -- The day would be the first one of the next year, which the division does not miss.
  have hfirst : n = yearStart (yearOfEra n + 1) := by
    have := yearStart_succ (yearOfEra n)
    split_ifs at this <;> omega
  have hlt : yearOfEra n + 1 < 400 := by
    refine lt_of_le_of_ne hyoe₁ fun h => ?_
    rw [h] at hfirst
    have : yearStart 400 = 146097 := by decide
    omega
  have := yearOfEra_yearStart (by omega) hlt
  rw [← hfirst] at this
  omega

end

def monthOf (doy : ℤ) : ℤ := (5 * doy + 2) / 153

theorem monthOf_spec {n m : ℤ} : monthOf n = m ↔ monthStart m ≤ n ∧ n < monthStart (m + 1) := by
  unfold monthOf monthStart
  omega

end Lib
