import Tropel.Scheduler.Validation

/-!
# How long the controller waits for an agent

The controller gives up on an agent after the time that the run declares, and three minutes
(`agentTimeout`).

* `longestRun_le_agentTimeout_iff`: when that is enough.
-/

namespace Tropel

open Lib

variable (parseDuration : String → Result TropelError ℕ)

def agentBaseTimeout : ℕ := 60 * 10 ^ 9

def agentGrace : ℕ := 120 * 10 ^ 9

def controllerDuration (s : String) : ℕ := (parseDuration s).toOption.getD 0

variable (execution : ExecutionConfig)

def agentTimeout : ℕ :=
  let declared := match execution with
    | .constantVus _ duration _ _ => controllerDuration parseDuration duration
    | .rampingVus stages _ _ _ _ =>
      (stages.map fun s => controllerDuration parseDuration s.duration).sum
    | .constantArrivalRate _ _ duration _ _ _ _ => controllerDuration parseDuration duration
    | .sharedIterations _ maxDuration _ _ _ =>
      (maxDuration.map (controllerDuration parseDuration)).getD 0
    | .rampingArrivalRate _ stages _ _ _ _ _ =>
      (stages.map fun s => controllerDuration parseDuration s.duration).sum
    | .perVUIterations _ _ maxDuration _ _ =>
      (maxDuration.map (controllerDuration parseDuration)).getD 0
    | .externallyControlled _ _ duration _ _ =>
      (duration.map (controllerDuration parseDuration)).getD 0
  agentBaseTimeout + declared + agentGrace

/-! ## The scheduler -/

def maxDurationOrDefault (maxDuration : Option String) : Result TropelError ℕ :=
  match maxDuration with
  | some d => parseDuration d
  | none => return 600 * 10 ^ 9

def stopsAfter : Result TropelError (Option ℕ) :=
  match execution with
  | .constantVus _ duration _ _ => some <$> parseDuration duration
  | .rampingVus stages _ _ _ _ =>
    return some (stages.map fun s => (parseDuration s.duration).toOption.getD (10 * 10 ^ 9)).sum
  | .constantArrivalRate _ _ duration _ _ _ _ => some <$> parseDuration duration
  | .sharedIterations _ maxDuration _ _ _ => some <$> maxDurationOrDefault parseDuration maxDuration
  | .rampingArrivalRate _ stages _ _ _ _ _ =>
    return some (stages.map fun s => (parseDuration s.duration).toOption.getD 0).sum
  | .perVUIterations _ _ maxDuration _ _ => some <$> maxDurationOrDefault parseDuration maxDuration
  | .externallyControlled _ _ duration _ _ =>
    match duration with
    | some d => some <$> parseDuration d
    | none => return none

namespace ExecutionConfig

def gracefulStop : ExecutionConfig → Option String
  | .constantVus _ _ gracefulStop _ => gracefulStop
  | .rampingVus _ _ _ gracefulStop _ => gracefulStop
  | .constantArrivalRate _ _ _ _ _ gracefulStop _ => gracefulStop
  | .sharedIterations _ _ _ gracefulStop _ => gracefulStop
  | .rampingArrivalRate _ _ _ _ _ gracefulStop _ => gracefulStop
  | .perVUIterations _ _ _ gracefulStop _ => gracefulStop
  | .externallyControlled _ _ _ gracefulStop _ => gracefulStop

def Bounded : ExecutionConfig → Prop
  | .externallyControlled _ _ duration _ _ => duration.isSome
  | _ => True

def DeclaresDuration : ExecutionConfig → Prop
  | .sharedIterations _ maxDuration _ _ _ => maxDuration.isSome
  | .perVUIterations _ _ maxDuration _ _ => maxDuration.isSome
  | _ => True

end ExecutionConfig

/-- The declared durations, or the default, and the graceful stop. A stage of a ramp that goes down
    may take its `gracefulRampDown` on top, which is not counted. -/
def longestRun : Result TropelError (Option ℕ) := do
  let duration ← stopsAfter parseDuration execution
  return duration.map (· + gracefulStopDuration parseDuration execution.gracefulStop)

/-! ## Comparison -/

variable {parseDuration} {execution : ExecutionConfig}

theorem controllerDuration_eq {d : String} {n : ℕ} (h : parseDuration d = .ok n) :
    controllerDuration parseDuration d = n := by
  rw [controllerDuration, h]
  rfl

theorem sum_durations_eq {α : Type} {l : List α} {duration : α → String}
    (h : ∀ a ∈ l, ∃ n, parseDuration (duration a) = .ok n) (m : ℕ) :
    (l.map fun a => (parseDuration (duration a)).toOption.getD m).sum =
      (l.map fun a => controllerDuration parseDuration (duration a)).sum := by
  congr 1
  refine List.map_congr_left fun a ha => ?_
  obtain ⟨n, hn⟩ := h a ha
  rw [controllerDuration_eq hn, hn]
  rfl

theorem exists_of_duration {d : String} (hd : floorRunDuration parseDuration d = .ok ()) :
    ∃ n, some <$> parseDuration d = .ok (some n) ∧
      agentBaseTimeout + controllerDuration parseDuration d + agentGrace = n + 180 * 10 ^ 9 := by
  obtain ⟨n, hn⟩ := exists_of_floorRunDuration hd
  refine ⟨n, by rw [hn]; rfl, ?_⟩
  rw [controllerDuration_eq hn, agentBaseTimeout, agentGrace]
  omega

theorem exists_of_maxDuration {maxDuration : Option String}
    (h : maxDuration.forM (floorRunDuration parseDuration) = .ok ()) :
    ∃ n, some <$> maxDurationOrDefault parseDuration maxDuration = .ok (some n) ∧
      (maxDuration.isSome → agentBaseTimeout +
        (maxDuration.map (controllerDuration parseDuration)).getD 0 + agentGrace =
          n + 180 * 10 ^ 9) ∧
      (¬ maxDuration.isSome → n = 600 * 10 ^ 9 ∧ agentBaseTimeout +
        (maxDuration.map (controllerDuration parseDuration)).getD 0 + agentGrace =
          180 * 10 ^ 9) := by
  cases maxDuration with
  | none => exact ⟨600 * 10 ^ 9, rfl, by simp, by simp [agentBaseTimeout, agentGrace]⟩
  | some d =>
    obtain ⟨n, hn, htimeout⟩ := exists_of_duration h
    exact ⟨n, hn, fun _ => htimeout, by simp⟩

theorem exists_stopsAfter (hvalid : validateExecutionConfig parseDuration execution = .ok ())
    (hbounded : execution.Bounded) : ∃ d, stopsAfter parseDuration execution = .ok (some d) ∧
      (execution.DeclaresDuration → agentTimeout parseDuration execution = d + 180 * 10 ^ 9) ∧
      (¬ execution.DeclaresDuration →
        d = 600 * 10 ^ 9 ∧ agentTimeout parseDuration execution = 180 * 10 ^ 9) := by
  cases execution with
  | constantVus vus duration gracefulStop thinkTime =>
    obtain ⟨n, hn, htimeout⟩ := exists_of_duration hvalid
    exact ⟨n, hn, fun _ => htimeout, fun h => absurd trivial h⟩
  | rampingVus stages startVus gracefulRampDown gracefulStop thinkTime =>
    rw [validateExecutionConfig] at hvalid
    split at hvalid
    · cases hvalid
    refine ⟨_, rfl, fun _ => ?_, fun h => absurd trivial h⟩
    rw [sum_durations_eq (exists_of_validateStages hvalid), agentTimeout, agentBaseTimeout,
      agentGrace]
    omega
  | constantArrivalRate rate timeUnit duration preAllocVus maxVus gracefulStop thinkTime =>
    obtain ⟨⟨⟩, hduration, -⟩ := bind_eq_ok.1 hvalid
    obtain ⟨n, hn, htimeout⟩ := exists_of_duration hduration
    exact ⟨n, hn, fun _ => htimeout, fun h => absurd trivial h⟩
  | sharedIterations iterations maxDuration vus gracefulStop thinkTime
  | perVUIterations vus iterations maxDuration gracefulStop thinkTime =>
    exact exists_of_maxDuration hvalid
  | rampingArrivalRate startRate stages timeUnit preAllocVus maxVus gracefulStop thinkTime =>
    obtain ⟨⟨⟩, hstages, -⟩ := bind_eq_ok.1 hvalid
    refine ⟨_, rfl, fun _ => ?_, fun h => absurd trivial h⟩
    rw [sum_durations_eq (exists_of_validateArrivalStages hstages), agentTimeout, agentBaseTimeout,
      agentGrace]
    omega
  | externallyControlled vus maxVus duration gracefulStop thinkTime =>
    cases duration with
    | none => cases hbounded
    | some d =>
      obtain ⟨n, hn, htimeout⟩ := exists_of_duration hvalid
      exact ⟨n, hn, fun _ => htimeout, fun h => absurd trivial h⟩

/-- The controller waits for as long as the scheduler lets an accepted run last if and only if the
    run declares its duration, with a grace period of at most three minutes. -/
theorem longestRun_le_agentTimeout_iff
    (hvalid : validateExecutionConfig parseDuration execution = .ok ())
    (hbounded : execution.Bounded) :
    ∃ limit, longestRun parseDuration execution = .ok (some limit) ∧
      (limit ≤ agentTimeout parseDuration execution ↔ execution.DeclaresDuration ∧
        gracefulStopDuration parseDuration execution.gracefulStop ≤ 180 * 10 ^ 9) := by
  obtain ⟨d, hd, hdeclared, hdefault⟩ := exists_stopsAfter hvalid hbounded
  refine ⟨d + gracefulStopDuration parseDuration execution.gracefulStop, ?_, ?_⟩
  · rw [longestRun, hd]
    rfl
  by_cases h : execution.DeclaresDuration
  · rw [hdeclared h, Nat.add_le_add_iff_left]
    exact ⟨fun hle => ⟨h, hle⟩, And.right⟩
  · -- The ten minutes alone are longer.
    obtain ⟨rfl, htimeout⟩ := hdefault h
    rw [htimeout]
    exact ⟨fun hle => by omega, fun hand => absurd hand.1 h⟩

def oneMinute : ExecutionConfig := .constantVus 1 "60s" none default

theorem longestRun_le_agentTimeout_oneMinute :
    ∃ limit, longestRun parseSeconds oneMinute = .ok (some limit) ∧
      limit ≤ agentTimeout parseSeconds oneMinute := by
  obtain ⟨limit, hlimit, hiff⟩ := longestRun_le_agentTimeout_iff
    (show validateExecutionConfig parseSeconds oneMinute = .ok () by decide +kernel) trivial
  exact ⟨limit, hlimit, hiff.2 ⟨trivial, by decide +kernel⟩⟩

def tenIterations : ExecutionConfig := .sharedIterations 10 none 1 none default

theorem agentTimeout_lt_longestRun :
    validateExecutionConfig parseSeconds tenIterations = .ok () ∧ tenIterations.Bounded ∧
      longestRun parseSeconds tenIterations = .ok (some (630 * 10 ^ 9)) ∧
      agentTimeout parseSeconds tenIterations = 180 * 10 ^ 9 := by
  refine ⟨rfl, trivial, rfl, rfl⟩

end Tropel
