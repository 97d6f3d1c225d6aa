import Mathlib.Analysis.SpecialFunctions.Integrals.Basic

/-!
# Ramps

A quantity that moves linearly from a value to a target, then to the next one, and so on, and stays
at the last (`Ramp.rate`).
-/

namespace Lib

structure Ramp (K : Type*) where
  duration : K
  target : K

namespace Ramp

section Field

variable {K : Type*} [Field K] [LinearOrder K]

def rate (start : K) : List (Ramp K) → K → K
  | [], _ => start
  | r :: rs, t =>
    if t ≤ r.duration then start + (r.target - start) * (t / r.duration)
    else rate r.target rs (t - r.duration)

def area (start : K) : List (Ramp K) → K → K
  | [], t => t * start
  | r :: rs, t =>
    if t < r.duration then
      r.duration * (start * (t / r.duration) +
        (r.target - start) * (t / r.duration) * (t / r.duration) / 2)
    else (start + r.target) * r.duration / 2 + area r.target rs (t - r.duration)

variable {start t : K} {rs : List (Ramp K)}

theorem rate_zero (h : ∀ r ∈ rs, 0 < r.duration) : rate start rs 0 = start := by
  cases rs with
  | nil => rfl
  | cons r rs =>
    have hpos : 0 < r.duration := h r List.mem_cons_self
    rw [rate, if_pos hpos.le, zero_div, mul_zero, add_zero]

variable [IsStrictOrderedRing K]

theorem rate_nonneg (h : ∀ r ∈ rs, 0 < r.duration ∧ 0 ≤ r.target) (hstart : 0 ≤ start)
    (ht : 0 ≤ t) :
    0 ≤ rate start rs t := by
  induction rs generalizing start t with
  | nil => exact hstart
  | cons r rs ih =>
    obtain ⟨⟨hpos, htarget⟩, hrs⟩ := List.forall_mem_cons.1 h
    rw [rate]
    split
    next hle =>
      -- The value is a mean of the two ends of the ramp.
      have hp : 0 ≤ t / r.duration := div_nonneg ht hpos.le
      have hp' : 0 ≤ 1 - t / r.duration := sub_nonneg.2 ((div_le_one hpos).2 hle)
      calc (0 : K) ≤ start * (1 - t / r.duration) + r.target * (t / r.duration) :=
            add_nonneg (mul_nonneg hstart hp') (mul_nonneg htarget hp)
        _ = start + (r.target - start) * (t / r.duration) := by ring
    next hlt => exact ih hrs htarget (sub_nonneg.2 (not_le.1 hlt).le)

theorem area_cast {start t : ℚ} {rs : List (Ramp ℚ)} : ((area start rs t : ℚ) : K) =
      area (start : K) (rs.map fun r => ⟨(r.duration : K), (r.target : K)⟩) (t : K) := by
  induction rs generalizing start t with
  | nil => simp [area]
  | cons r rs ih =>
    simp only [List.map_cons, area, Rat.cast_lt]
    split
    · push_cast
      rfl
    · push_cast
      rw [ih]
      push_cast
      rfl

end Field

section Integral

open MeasureTheory

variable {start t : ℝ} {rs : List (Ramp ℝ)}

theorem continuous_rate (h : ∀ r ∈ rs, 0 < r.duration) : Continuous (rate start rs) := by
  induction rs generalizing start with
  | nil => exact continuous_const
  | cons r rs ih =>
    obtain ⟨hpos, hrs⟩ := List.forall_mem_cons.1 h
    refine Continuous.if_le (by fun_prop) ((ih hrs).comp (continuous_sub_right _)) continuous_id
      continuous_const fun x hx => ?_
    -- At the end of a ramp, the next one starts.
    obtain rfl : x = r.duration := hx
    rw [sub_self, rate_zero hrs, div_self hpos.ne', mul_one, add_sub_cancel]

theorem intervalIntegrable_rate (h : ∀ r ∈ rs, 0 < r.duration) (a b : ℝ) :
    IntervalIntegrable (rate start rs) volume a b :=
  (continuous_rate h).intervalIntegrable a b

theorem integral_rate_cons {r : Ramp ℝ} (ht : 0 ≤ t) (hle : t ≤ r.duration) :
    ∫ x in 0..t,
      rate start (r :: rs) x = start * t + (r.target - start) / r.duration * (t ^ 2 / 2) := by
  have hrate :
      Set.EqOn (rate start (r :: rs)) (fun x => start + (r.target - start) / r.duration * x)
      (Set.uIcc 0 t) := by
    intro x hx
    rw [Set.uIcc_of_le ht] at hx
    rw [rate, if_pos (hx.2.trans hle)]
    ring
  have hconst : IntervalIntegrable (fun _ : ℝ => start) volume 0 t := intervalIntegrable_const
  have hlinear : IntervalIntegrable (fun x : ℝ => (r.target - start) / r.duration * x) volume 0 t :=
    (continuous_const_mul _).intervalIntegrable 0 t
  rw [intervalIntegral.integral_congr hrate, intervalIntegral.integral_add hconst hlinear,
    intervalIntegral.integral_const, intervalIntegral.integral_const_mul, integral_id, smul_eq_mul]
  ring

theorem integral_rate (h : ∀ r ∈ rs, 0 < r.duration) (ht : 0 ≤ t) :
    ∫ x in 0..t, rate start rs x = area start rs t := by
  induction rs generalizing start t with
  | nil => simp [rate, area]
  | cons r rs ih =>
    obtain ⟨hpos, hrs⟩ := List.forall_mem_cons.1 h
    rw [area]
    split
    next hlt =>
      rw [integral_rate_cons ht hlt.le]
      field_simp
    next hle =>
      replace hle : r.duration ≤ t := not_lt.1 hle
      -- After the first ramp, the others start from its target.
      have hrest : ∫ x in r.duration..t, rate start (r :: rs) x =
          ∫ x in r.duration..t, rate r.target rs (x - r.duration) := by
        refine intervalIntegral.integral_congr_Ioo_of_le hle fun x hx => ?_
        rw [rate, if_neg (not_le.2 hx.1)]
      rw [← intervalIntegral.integral_add_adjacent_intervals
        (intervalIntegrable_rate h 0 r.duration) (intervalIntegrable_rate h r.duration t), hrest,
          integral_rate_cons hpos.le le_rfl,
        intervalIntegral.integral_comp_sub_right (rate r.target rs), sub_self,
          ih hrs (sub_nonneg.2 hle)]
      field_simp
      ring

theorem continuous_integral_rate (h : ∀ r ∈ rs, 0 < r.duration) : Continuous fun t => ∫ x in 0..t,
    rate start rs x :=
  intervalIntegral.continuous_primitive (intervalIntegrable_rate h) 0

theorem integral_rate_mono (h : ∀ r ∈ rs, 0 < r.duration ∧ 0 ≤ r.target) (hstart : 0 ≤ start)
    {t' : ℝ} (ht : 0 ≤ t) (hle : t ≤ t') : ∫ x in 0..t, rate start rs x ≤ ∫ x in 0..t',
      rate start rs x := by
  have hpos : ∀ r ∈ rs, 0 < r.duration := fun r hr => (h r hr).1
  rw [← sub_nonneg, intervalIntegral.integral_interval_sub_left (intervalIntegrable_rate hpos 0 t')
    (intervalIntegrable_rate hpos 0 t)]
  exact intervalIntegral.integral_nonneg hle fun x hx => rate_nonneg h hstart (ht.trans hx.1)

end Integral

end Ramp

end Lib
