import Tropel.Core.Config

/-!
# Validation of executors

Before a run, the durations of an executor are checked (`validateExecutionConfig`): they can be
parsed, a run lasts a second at least, units of time are positive, and ramps stay below a limit.
-/

namespace Tropel

open Lib

def parseSeconds (s : String) : Result TropelError ℕ :=
  match stripSuffix 's' s.toList with
  | some digits =>
    okOr ((parseDigits 0 digits).map (· * 10 ^ 9)) (.config s!"invalid duration '{s}'")
  | none => configError s!"invalid duration '{s}'"

variable (parseDuration : String → Result TropelError ℕ)

def maxConcurrentVus : ℕ := 100000000

def minRunDuration : String := "1s"

def floorRunDuration (d : String) : Result TropelError Unit := do
  let parsed ← parseDuration d
  let floor ← parseDuration minRunDuration
  if parsed < floor then
    configError s!"the duration must be at least {minRunDuration}, but is {d}"
  else return ()

def timeUnitSeconds (timeUnit : String) : Result TropelError ℚ := do
  let d ← parseDuration timeUnit
  let secs : ℚ := d / 10 ^ 9
  if secs ≤ 0 then configError s!"timeUnit must be a positive duration, got '{timeUnit}'"
  else return secs

def validateStage (stage : Stage × ℕ) : Result TropelError Unit := do
  let _ ← parseDuration stage.1.duration
  if stage.1.target > maxConcurrentVus then
    let position := stage.2 + 1
    configError s!"target for stage {position} exceeds the max limit of {maxConcurrentVus}"
  else return ()

def validateExecutionConfig (config : ExecutionConfig) : Result TropelError Unit :=
  match config with
  | .constantVus _ duration _ _ => floorRunDuration parseDuration duration
  | .constantArrivalRate _ timeUnit duration _ _ _ _ => do
    floorRunDuration parseDuration duration
    let _ ← timeUnitSeconds parseDuration timeUnit
  | .rampingVus stages startVus _ _ _ =>
    if startVus > maxConcurrentVus then
      configError s!"the startVUs exceed the max limit of {maxConcurrentVus}"
    else stages.zipIdx.forM (validateStage parseDuration)
  | .rampingArrivalRate _ stages timeUnit _ _ _ _ => do
    stages.forM fun stage => do
      let _ ← parseDuration stage.duration
    let _ ← timeUnitSeconds parseDuration timeUnit
  | .sharedIterations _ maxDuration _ _ _ | .perVUIterations _ _ maxDuration _ _ =>
    maxDuration.forM (floorRunDuration parseDuration)
  | .externallyControlled _ _ duration _ _ => duration.forM (floorRunDuration parseDuration)

def gracefulStopDuration (s : Option String) : ℕ :=
  match s with
  | some d => if trim d.toList = [] then 30 * 10 ^ 9 else (parseDuration
      d).toOption.getD (30 * 10 ^ 9)
  | none => 30 * 10 ^ 9

variable {parseDuration}

theorem exists_of_floorRunDuration {d : String} (h : floorRunDuration parseDuration d = .ok ()) :
    ∃ n, parseDuration d = .ok n := by
  obtain ⟨n, hn, -⟩ := bind_eq_ok.1 h
  exact ⟨n, hn⟩

theorem exists_of_validateStages {stages : List Stage}
    (h : stages.zipIdx.forM (validateStage parseDuration) = .ok ()) :
    ∀ stage ∈ stages, ∃ n, parseDuration stage.duration = .ok n := by
  intro stage hstage
  obtain ⟨i, hi, rfl⟩ := List.getElem_of_mem hstage
  have hmem : (stages[i], i) ∈ stages.zipIdx := List.mem_zipIdx_iff_getElem?.2 (by simp)
  obtain ⟨n, hn, -⟩ := bind_eq_ok.1 (eq_ok_of_forM_eq_ok h _ hmem)
  exact ⟨n, hn⟩

theorem exists_of_validateArrivalStages {stages : List ArrivalRateStage}
    (h : (stages.forM fun stage => do let _ ← parseDuration stage.duration) = .ok ()) :
    ∀ stage ∈ stages, ∃ n, parseDuration stage.duration = .ok n := by
  intro stage hstage
  obtain ⟨n, hn, -⟩ := bind_eq_ok.1 (eq_ok_of_forM_eq_ok h stage hstage)
  exact ⟨n, hn⟩

end Tropel
