import Tropel.Lib.Machine
import Tropel.Metrics.Thresholds

/-!
# The abort coordinator

One task polls the results every two seconds, and stops the run if a threshold that aborts it is
breached.

* `aborted_iff_checkAbortOnFail_iff`: when it decides as `checkAbortOnFail`.
-/

namespace Tropel

open Lib

variable {hdr : Hdr} (parseDuration : String → Option ℕ)

def inGrace (config : ThresholdConfig) (elapsed : ℕ) : Bool :=
  (config.delayAbortEval.bind parseDuration).any fun delay => elapsed < delay

variable (thresholds : IndexMap String ThresholdConfig)

def checkAbortOnFail (r : MetricsResult hdr) (elapsed : ℕ) : Bool :=
  thresholds.entries.any fun t =>
    t.2.abortOnFail && !inGrace parseDuration t.2 elapsed &&
      (evaluateSingleThresholdOpt t.2.expression.toList r).any fun o => !o.passed

/-! ## The coordinator -/

inductive AbortPc
  | first
  | waiting
  | awaiting (elapsed : ℕ)
  | left
  | aborted
  deriving DecidableEq, Repr

structure AbortState where
  pc : AbortPc
  stopRequested : Bool
  forceStopRequested : Bool
  tainted : Bool
  deriving DecidableEq, Repr

inductive AbortAction (hdr : Hdr)
  | tick (elapsed : ℕ)
  | results (r : MetricsResult hdr)
  | requestStop
  | requestForceStop

structure Findings where
  tainted : Bool
  shouldAbort : Bool

def Findings.judge (elapsed : ℕ) (f : Findings) (tr : ThresholdResult) : Findings :=
  if tr.passed then f
  else
    { tainted := true
      shouldAbort := f.shouldAbort ||
        (tr.abortOnFail && !tr.delayAbortEval.any fun grace => elapsed < grace) }

namespace AbortState

def start : AbortState where
  pc := .first
  stopRequested := false
  forceStopRequested := false
  tainted := false

def evaluate (elapsed : ℕ) (r : MetricsResult hdr) (s : AbortState) : AbortState :=
  let found := (evaluateThresholds parseDuration thresholds { r with runDuration := elapsed }).foldl
    (Findings.judge elapsed) ⟨s.tainted, false⟩
  if found.shouldAbort then
    { s with tainted := found.tainted, stopRequested := true, pc := .aborted }
  else { s with tainted := found.tainted, pc := .waiting }

def tick (elapsed : ℕ) (s : AbortState) : AbortState :=
  if s.stopRequested || s.forceStopRequested then { s with pc := .left }
  else if 10 ^ 9 < elapsed then { s with pc := .awaiting elapsed }
  else s

end AbortState

def abortCoordinator (hdr : Hdr) (parseDuration : String → Option ℕ)
    (thresholds : IndexMap String ThresholdConfig) : Machine AbortState (AbortAction hdr) where
  step s
    | .tick elapsed => match s.pc with
      | .first => some { s with pc := .waiting }
      | .waiting => some (s.tick elapsed)
      | _ => none
    | .results r => match s.pc with
      | .awaiting elapsed => some (s.evaluate parseDuration thresholds elapsed r)
      | _ => none
    | .requestStop => some { s with stopRequested := true }
    | .requestForceStop => some { s with stopRequested := true, forceStopRequested := true }

def spawnAbortCoordinator (hdr : Hdr) (parseDuration : String → Option ℕ)
    (thresholds : IndexMap String ThresholdConfig) :
    Option (Machine AbortState (AbortAction hdr)) :=
  if thresholds.entries = [] then none else some (abortCoordinator hdr parseDuration thresholds)

/-! ## What it decides -/

section Decision

variable {parseDuration : String → Option ℕ} {thresholds : IndexMap String ThresholdConfig}
  {elapsed : ℕ} {r : MetricsResult hdr} {s s' : AbortState}

def Armed (parseDuration : String → Option ℕ) (elapsed : ℕ) (config : ThresholdConfig) : Prop :=
  config.abortOnFail = true ∧ inGrace parseDuration config elapsed = false

def Breached (r : MetricsResult hdr) (config : ThresholdConfig) : Prop :=
  ∃ o, evaluateSingleThresholdOpt config.expression.toList r = some o ∧ o.passed = false

def DataSuffice (parseDuration : String → Option ℕ) (thresholds : IndexMap String ThresholdConfig)
    (elapsed : ℕ) (r : MetricsResult hdr) : Prop :=
  (∃ t ∈ thresholds.entries, Armed parseDuration elapsed t.2 ∧
      evaluateSingleThresholdOpt t.2.expression.toList r = none) →
    ∃ t ∈ thresholds.entries, Armed parseDuration elapsed t.2 ∧ Breached r t.2

theorem checkAbortOnFail_iff : checkAbortOnFail parseDuration thresholds r elapsed = true ↔
      ∃ t ∈ thresholds.entries, Armed parseDuration elapsed t.2 ∧ Breached r t.2 := by
  simp only [checkAbortOnFail, List.any_eq_true, Bool.and_eq_true, Bool.not_eq_true',
    Option.any_eq_true, Armed, Breached]

theorem shouldAbort_foldl_judge (l : List ThresholdResult) (f : Findings) :
    (l.foldl (Findings.judge elapsed) f).shouldAbort = true ↔
      f.shouldAbort = true ∨ ∃ tr ∈ l, tr.passed = false ∧ tr.abortOnFail = true ∧
        (tr.delayAbortEval.any fun grace => elapsed < grace) = false := by
  induction l generalizing f with
  | nil => simp
  | cons tr l ih =>
    rw [List.foldl_cons, ih, Findings.judge]
    by_cases hpassed : tr.passed = true
    · simp [hpassed]
    · simp [hpassed, or_assoc]

theorem passed_thresholdResult_eq_false_iff {name : String} {config : ThresholdConfig} :
    (thresholdResult parseDuration name config
        (evaluateSingleThresholdOpt config.expression.toList r)).passed = false ↔
      evaluateSingleThresholdOpt config.expression.toList r = none ∨ Breached r config := by
  rw [Breached, thresholdResult]
  rcases evaluateSingleThresholdOpt config.expression.toList r with _ | o <;> simp

theorem AbortState.evaluate_aborted_iff :
    (s.evaluate parseDuration thresholds elapsed r).pc = .aborted ↔
      ∃ t ∈ thresholds.entries, Armed parseDuration elapsed t.2 ∧
        (evaluateSingleThresholdOpt t.2.expression.toList { r with runDuration := elapsed } = none ∨
          Breached { r with runDuration := elapsed } t.2) := by
  have hpc : (s.evaluate parseDuration thresholds elapsed r).pc = .aborted ↔
      ((evaluateThresholds parseDuration thresholds { r with runDuration := elapsed }).foldl
        (Findings.judge elapsed) ⟨s.tainted, false⟩).shouldAbort = true := by
    rw [evaluate]
    split <;> simp [*]
  rw [hpc, shouldAbort_foldl_judge, evaluateThresholds]
  simp only [Bool.false_eq_true, false_or, List.mem_insertionSort, List.mem_map]
  constructor
  · rintro ⟨_, ⟨t, ht, rfl⟩, hpassed, harmed⟩
    exact ⟨t, ht, harmed, passed_thresholdResult_eq_false_iff.1 hpassed⟩
  · rintro ⟨t, ht, harmed, hfailed⟩
    exact ⟨_, ⟨t, ht, rfl⟩, passed_thresholdResult_eq_false_iff.2 hfailed, harmed⟩

theorem AbortState.evaluate_agrees_iff :
    ((s.evaluate parseDuration thresholds elapsed r).pc = .aborted ↔
        checkAbortOnFail parseDuration thresholds { r with runDuration := elapsed } elapsed =
          true) ↔
      DataSuffice parseDuration thresholds elapsed { r with runDuration := elapsed } := by
  rw [evaluate_aborted_iff, checkAbortOnFail_iff, DataSuffice]
  simp only [and_or_left, exists_or]
  exact or_iff_right_iff_imp

end Decision

/-! ## Agreement -/

variable {parseDuration : String → Option ℕ} {thresholds : IndexMap String ThresholdConfig}

/-- Whenever the coordinator gets results, it stops the run exactly if `checkAbortOnFail` says so,
    if and only if the data suffice. -/
theorem aborted_iff_checkAbortOnFail_iff {m : Machine AbortState (AbortAction hdr)}
    (hspawn : spawnAbortCoordinator hdr parseDuration thresholds = some m) {s : AbortState}
    {elapsed : ℕ} (hpc : s.pc = .awaiting elapsed) (r : MetricsResult hdr) :
    ∃ s', m.step s (.results r) = some s' ∧
      (s'.pc = .aborted → s'.stopRequested = true) ∧
      ((s'.pc = .aborted ↔
          checkAbortOnFail parseDuration thresholds { r with runDuration := elapsed } elapsed =
            true) ↔
        DataSuffice parseDuration thresholds elapsed { r with runDuration := elapsed }) := by
  obtain ⟨-, hm⟩ := Option.ite_none_left_eq_some.1 hspawn
  obtain rfl := Option.some.inj hm
  refine ⟨s.evaluate parseDuration thresholds elapsed r, ?_, ?_, AbortState.evaluate_agrees_iff⟩
  · simp only [abortCoordinator, hpc]
  · rw [AbortState.evaluate]
    split <;> simp

def latencyThresholds : IndexMap String ThresholdConfig :=
  (∅ : IndexMap String ThresholdConfig).insert "latency" ⟨"http_req_duration.p95 < 500", true, none⟩

def latencyResults (durations : List ℚ) : MetricsResult Hdr.exact :=
  ((Aggregator.new 0).recordAll (durations.map fun value =>
    { metric := "http_req_duration", tags := .ofPairs [], value
      sampleType := .trend })).buildResults ⟨0, 0⟩ 0

theorem aborted_iff_latency_seen :
    ∃ m s s', spawnAbortCoordinator Hdr.exact (fun _ => none) latencyThresholds = some m ∧
      m.exec .start [.tick 0, .tick (2 * 10 ^ 9)] = some s ∧
      m.step s (.results (latencyResults [250])) = some s' ∧
      (s'.pc = .aborted ↔ checkAbortOnFail (fun _ => none) latencyThresholds
        { latencyResults [250] with runDuration := 2 * 10 ^ 9 } (2 * 10 ^ 9) = true) := by
  have hspawn : spawnAbortCoordinator Hdr.exact (fun _ => none) latencyThresholds =
      some (abortCoordinator Hdr.exact (fun _ => none) latencyThresholds) := rfl
  obtain ⟨s', hstep, -, hiff⟩ := aborted_iff_checkAbortOnFail_iff hspawn
    (s := ⟨.awaiting (2 * 10 ^ 9), false, false, false⟩) rfl (latencyResults [250])
  refine ⟨_, _, s', hspawn, rfl, hstep, hiff.2 ?_⟩
  rintro ⟨t, ht, -, hnone⟩
  obtain rfl := List.mem_singleton.1 ht
  exact absurd hnone (by decide +kernel)

theorem aborted_latency_unseen :
    (spawnAbortCoordinator Hdr.exact (fun _ => none) latencyThresholds).bind (fun m =>
        m.exec .start [.tick 0, .tick (2 * 10 ^ 9), .results (latencyResults [])]) =
      some ⟨.aborted, true, false, true⟩ ∧
    checkAbortOnFail (fun _ => none) latencyThresholds
      { latencyResults [] with runDuration := 2 * 10 ^ 9 } (2 * 10 ^ 9) = false := by
  decide +kernel

end Tropel
