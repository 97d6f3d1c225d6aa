import Tropel.Lib.Ramp
import Tropel.Scheduler.Validation

/-!
# The schedule of a ramping arrival rate

The executor counts the arrivals that are due by a time (`tokensAt`).

* `tokensAt_eq_integral`: the integral of the rate.
-/

namespace Tropel

open Lib

variable (parseDuration : String → Result TropelError ℕ)

/-! ## The executor -/

def stageSeconds (stage : ArrivalRateStage) : ℚ :=
  let dur := (parseDuration stage.duration).toOption.getD (10 * 10 ^ 9)
  (max dur (10 ^ 6) : ℕ) / 10 ^ 9

def stageData (prevTarget : ℚ) : List ArrivalRateStage → List (ℚ × ℚ × ℚ)
  | [] => []
  | stage :: stages =>
    (stageSeconds parseDuration stage, prevTarget, stage.target) :: stageData stage.target stages

variable (data : List (ℚ × ℚ × ℚ))

def prefixSums (cumulative : ℚ) : List ℚ :=
  data.scanl (fun cumulative (durSecs, s, e) => cumulative + (s + e) * durSecs / 2) cumulative

def cumulativeDuration (d : ℚ) : List ℚ :=
  data.scanl (fun d (durSecs, _, _) => d + durSecs) d

def partitionPoint (p : ℚ → Bool) (l : List ℚ) : ℕ := (l.takeWhile p).length

def stageIndex (cumulative : List ℚ) (elapsedSecs : ℚ) : ℕ :=
  match partitionPoint (· ≤ elapsedSecs) cumulative with
  | 0 => 0
  | i + 1 => i

def tokensIn (sums cumulative : List ℚ) (finalRate elapsedSecs : ℚ) (idx : ℕ) : Option ℚ := do
  let areaBefore ← sums[idx]?
  let timeBeforeStage ← cumulative[idx]?
  let remaining := elapsedSecs - timeBeforeStage
  if idx ≥ data.length then return areaBefore + remaining * finalRate
  let (durSecs, s, e) ← data[idx]?
  if remaining ≥ durSecs then return areaBefore + (s + e) * durSecs / 2
  else
    let p := remaining / durSecs
    return areaBefore + durSecs * (s * p + (e - s) * p * p / 2)

def tokensAt (startRate : ℚ) (stages : List ArrivalRateStage) (elapsedSecs : ℚ) : Option ℚ :=
  let data := stageData parseDuration startRate stages
  let sums := prefixSums data 0
  let cumulative := cumulativeDuration data 0
  if data.isEmpty then some (elapsedSecs * startRate)
  else
    let finalRate := (stages.getLast?.map ArrivalRateStage.target).getD startRate
    tokensIn data sums cumulative finalRate elapsedSecs (stageIndex cumulative elapsedSecs)

/-! ## The area under the rate -/

def ramps (stages : List ArrivalRateStage) : List (Ramp ℚ) :=
  stages.map fun stage => ⟨stageSeconds parseDuration stage, stage.target⟩

variable {parseDuration}

theorem prefixSums_cons (dur s e : ℚ) (data : List (ℚ × ℚ × ℚ)) (a : ℚ) :
    prefixSums ((dur, s, e) :: data) a = a :: prefixSums data (a + (s + e) * dur / 2) :=
  List.scanl_cons

theorem cumulativeDuration_cons (dur s e : ℚ) (data : List (ℚ × ℚ × ℚ)) (c : ℚ) :
    cumulativeDuration ((dur, s, e) :: data) c = c :: cumulativeDuration data (c + dur) :=
  List.scanl_cons

theorem tokensIn_succ (x : ℚ × ℚ × ℚ) (data : List (ℚ × ℚ × ℚ)) (a c : ℚ) (sums cumulative : List ℚ)
    (finalRate t : ℚ) (idx : ℕ) :
    tokensIn (x :: data) (a :: sums) (c :: cumulative) finalRate t (idx + 1) =
      tokensIn data sums cumulative finalRate t idx := by
  simp [tokensIn]

theorem stageIndex_cons {c t : ℚ} (cumulative : List ℚ) (h : c ≤ t) :
    stageIndex (c :: cumulative) t = partitionPoint (· ≤ t) cumulative := by
  simp [stageIndex, partitionPoint, h]

theorem partitionPoint_cumulativeDuration_of_lt {d t : ℚ} (data : List (ℚ × ℚ × ℚ)) (h : t < d) :
    partitionPoint (· ≤ t) (cumulativeDuration data d) = 0 := by
  cases data <;> simp [partitionPoint, cumulativeDuration, h]

theorem partitionPoint_cumulativeDuration_of_le {d t : ℚ} (data : List (ℚ × ℚ × ℚ)) (h : d ≤ t) :
    partitionPoint (· ≤ t) (cumulativeDuration data d) =
      stageIndex (cumulativeDuration data d) t + 1 := by
  cases data <;> simp [partitionPoint, stageIndex, cumulativeDuration, h]

theorem tokensIn_eq_area (stages : List ArrivalRateStage) (startRate a c : ℚ) {t : ℚ} (ht : c ≤ t) :
    tokensIn (stageData parseDuration startRate stages)
      (prefixSums (stageData parseDuration startRate stages) a)
        (cumulativeDuration (stageData parseDuration startRate stages) c)
        ((stages.getLast?.map ArrivalRateStage.target).getD startRate) t
        (stageIndex (cumulativeDuration (stageData parseDuration startRate stages) c) t) =
      some (a + Ramp.area startRate (ramps parseDuration stages) (t - c)) := by
  induction stages generalizing startRate a c with
  | nil => simp [stageData, prefixSums, cumulativeDuration, stageIndex, partitionPoint, ht,
      tokensIn, ramps, Ramp.area]
  | cons stage stages ih =>
    have hlast : (((stage :: stages).getLast?.map ArrivalRateStage.target).getD startRate) =
        ((stages.getLast?.map ArrivalRateStage.target).getD stage.target) := by
      cases stages with
      | nil => rfl
      | cons s l => simp [List.getLast?_cons]
    set d := stageSeconds parseDuration stage with hd
    rw [hlast]
    simp only [stageData, ramps, List.map_cons, Ramp.area, prefixSums_cons, cumulativeDuration_cons,
      stageIndex_cons _ ht, ← hd]
    split
    next hlt =>
      -- The time is in this stage.
      rw [partitionPoint_cumulativeDuration_of_lt _ (by linarith)]
      simp [tokensIn, not_le.2 hlt]
    next hle =>
      have hle : c + d ≤ t := by linarith [not_lt.1 hle]
      rw [partitionPoint_cumulativeDuration_of_le _ hle, tokensIn_succ, ih stage.target _ _ hle]
      rw [ramps, sub_add_eq_sub_sub, add_assoc]

theorem tokensAt_eq_area (startRate : ℚ) (stages : List ArrivalRateStage) {t : ℚ} (ht : 0 ≤ t) :
    tokensAt parseDuration startRate stages t =
      some (Ramp.area startRate (ramps parseDuration stages) t) := by
  cases stages with
  | nil => rfl
  | cons stage stages =>
    have h := @tokensIn_eq_area parseDuration (stage :: stages) startRate 0 0 t ht
    rw [zero_add, sub_zero] at h
    exact h

theorem stageSeconds_cast {stage : ArrivalRateStage} {n : ℕ}
    (h : parseDuration stage.duration = .ok n) :
    (stageSeconds parseDuration stage : ℝ) = max (n / 10 ^ 9 : ℝ) (1 / 1000) := by
  have hdur : (parseDuration stage.duration).toOption.getD (10 * 10 ^ 9) = n := by rw [h]; rfl
  have hmilli : (1 / 1000 : ℝ) = 10 ^ 6 / 10 ^ 9 := by norm_num
  rw [stageSeconds, hdur, hmilli, max_div_div_right (by positivity)]
  norm_num

/-- For rates that are not negative, the tokens at a time are the integral of the rate that starts
    at the start rate, moves to each target over its stage, a millisecond at least, and stays at the
    last. So they are continuous, not negative, and never decrease. -/
theorem tokensAt_eq_integral {startRate : ℚ} {stages : List ArrivalRateStage}
    {nanos : ArrivalRateStage → ℕ} (hstart : 0 ≤ startRate)
    (hparse : ∀ stage ∈ stages, parseDuration stage.duration = .ok (nanos stage))
    (htarget : ∀ stage ∈ stages, 0 ≤ stage.target) :
    ∃ tokens : ℚ → ℚ,
      (∀ t, 0 ≤ t → tokensAt parseDuration startRate stages t = some (tokens t) ∧
        (tokens t : ℝ) = ∫ x in 0..(t : ℝ), Ramp.rate (startRate : ℝ)
          (stages.map fun stage => ⟨max (nanos stage / 10 ^ 9 : ℝ) (1 / 1000), stage.target⟩) x) ∧
      ContinuousOn tokens (Set.Ici 0) ∧ (∀ t, 0 ≤ t → 0 ≤ tokens t) ∧
      MonotoneOn tokens (Set.Ici 0) := by
  set rs : List (Ramp ℝ) :=
    stages.map fun stage => ⟨max (nanos stage / 10 ^ 9 : ℝ) (1 / 1000), stage.target⟩ with hrs
  have hramps : (ramps parseDuration stages).map (fun r => ⟨(r.duration : ℝ), (r.target : ℝ)⟩) =
      rs := by
    rw [ramps, List.map_map]
    refine List.map_congr_left fun stage hstage => ?_
    rw [Function.comp_apply, stageSeconds_cast (hparse stage hstage)]
  have hpos : ∀ r ∈ rs, 0 < r.duration ∧ 0 ≤ r.target := by
    intro r hr
    obtain ⟨stage, hstage, rfl⟩ := List.mem_map.1 hr
    exact ⟨lt_max_of_lt_right (by norm_num), Rat.cast_nonneg.2 (htarget stage hstage)⟩
  have hdur : ∀ r ∈ rs, 0 < r.duration := fun r hr => (hpos r hr).1
  have hstart' : (0 : ℝ) ≤ startRate := Rat.cast_nonneg.2 hstart
  have hintegral : ∀ t : ℚ, 0 ≤ t → ((Ramp.area startRate (ramps parseDuration stages) t : ℚ) : ℝ) =
      ∫ x in 0..(t : ℝ), Ramp.rate (startRate : ℝ) rs x := by
    intro t ht
    rw [Ramp.integral_rate hdur (Rat.cast_nonneg.2 ht), Ramp.area_cast, hramps]
  have hmono : MonotoneOn (Ramp.area startRate (ramps parseDuration stages)) (Set.Ici 0) := by
    intro t ht t' ht' hle
    rw [← Rat.cast_le (K := ℝ), hintegral t ht, hintegral t' ht']
    exact Ramp.integral_rate_mono hpos hstart' (Rat.cast_nonneg.2 ht) (Rat.cast_le.2 hle)
  refine ⟨Ramp.area startRate (ramps parseDuration stages),
    fun t ht => ⟨tokensAt_eq_area startRate stages ht, hintegral t ht⟩, ?_, ?_, hmono⟩
  · -- The rationals have the topology of a part of the reals.
    refine Rat.isEmbedding_coe_real.continuousOn_iff.2 ?_
    have hcont : Continuous fun t : ℚ => ∫ x in 0..(t : ℝ), Ramp.rate (startRate : ℝ) rs x :=
      (Ramp.continuous_integral_rate hdur).comp Rat.continuous_coe_real
    exact hcont.continuousOn.congr fun t ht => hintegral t ht
  · intro t ht
    have hzero : ((Ramp.area startRate (ramps parseDuration stages) 0 : ℚ) : ℝ) = 0 := by
      simpa using hintegral 0 le_rfl
    calc (0 : ℚ) = Ramp.area startRate (ramps parseDuration stages) 0 :=
          (Rat.cast_eq_zero.1 hzero).symm
      _ ≤ Ramp.area startRate (ramps parseDuration stages) t := hmono Set.self_mem_Ici ht ht

theorem tokensAt_eq_integral_tenSeconds : tokensAt parseSeconds 2 [⟨"10s", 4⟩] 5 = some (25 / 2) ∧
      ((25 / 2 : ℚ) : ℝ) = ∫ x in 0..((5 : ℚ) : ℝ), Ramp.rate ((2 : ℚ) : ℝ)
        [⟨max ((10 * 10 ^ 9 : ℕ) / 10 ^ 9 : ℝ) (1 / 1000), ((4 : ℚ) : ℝ)⟩] x := by
  obtain ⟨tokens, htokens, -⟩ := @tokensAt_eq_integral parseSeconds 2 [⟨"10s", 4⟩]
    (fun _ => 10 * 10 ^ 9) (by norm_num) (List.forall_mem_singleton.2 rfl) (by simp)
  obtain ⟨hsome, hintegral⟩ := htokens 5 (by norm_num)
  have hvalue : tokensAt parseSeconds 2 [⟨"10s", 4⟩] 5 = some (25 / 2) := by decide +kernel
  rw [hvalue, Option.some.injEq] at hsome
  rw [← hsome] at hintegral
  exact ⟨hvalue, hintegral⟩

end Tropel
