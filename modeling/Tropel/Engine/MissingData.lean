import Tropel.Engine.AbortCoordinator

/-!
# Verdicts without all the data

A clause of a threshold has no outcome as long as its metric has no data.

* `evaluate_decided_iff`: when data to come cannot change a verdict.
-/

namespace Tropel

open Lib List Bool ParsedThreshold

variable {hdr : Hdr} (outcomes : List (List (Option Outcome)))

def Completion (truths : List (List Bool)) : Prop :=
  List.Forall₂ (List.Forall₂ fun o b => ∀ x, o = some x → b = x.passed) outcomes truths

def valueOf (truths : List (List Bool)) : Bool := truths.any fun g => g.all id

def Decided (verdict : Bool) : Prop :=
  ∀ truths, Completion outcomes truths → valueOf truths = verdict

def SomeGroupPasses : Prop :=
  ∃ g ∈ outcomes, ∀ c ∈ g, ∃ x, c = some x ∧ x.passed = true

def EachGroupFails : Prop :=
  ∀ g ∈ outcomes, ∃ x, some x ∈ g ∧ x.passed = false

def clauseOutcomes (e : Text) (r : MetricsResult hdr) : List (List (Option Outcome)) :=
  (ParsedThreshold.parse e).groups.map fun g => g.map (ParsedThreshold.evaluate r)

/-! ## Completions -/

section

variable {outcomes : List (List (Option Outcome))}

theorem valueOf_eq_true_iff {truths : List (List Bool)} : valueOf truths = true ↔ ∃ g ∈ truths,
    ∀ b ∈ g, b = true := by
  simp [valueOf]

def bestCase (outcomes : List (List (Option Outcome))) : List (List Bool) :=
  outcomes.map fun g => g.map fun o => o.elim true Outcome.passed

theorem completion_bestCase (outcomes : List (List (Option Outcome))) :
    Completion outcomes (bestCase outcomes) := by
  refine forall₂_map_right_iff.2 (forall₂_same.2 fun g _ => ?_)
  refine forall₂_map_right_iff.2 (forall₂_same.2 fun o _ x hx => ?_)
  rw [hx]
  rfl

theorem decided_true {g : List (Option Outcome)} (hg : g ∈ outcomes)
    (hpassed : ∀ o ∈ g, ∃ x, o = some x ∧ x.passed = true) : Decided outcomes true := by
  intro truths hc
  obtain ⟨bs, hbs, hg⟩ := exists_mem_of_forall₂ hc hg
  refine valueOf_eq_true_iff.2 ⟨bs, hbs, fun b hb => ?_⟩
  obtain ⟨o, ho, hb⟩ := exists_mem_of_forall₂ hg.flip hb
  obtain ⟨x, hx, hpass⟩ := hpassed o ho
  exact (hb x hx).trans hpass

theorem decided_false_iff : Decided outcomes false ↔ EachGroupFails outcomes := by
  constructor
  · intro h g hg
    have hbest : ¬ valueOf (bestCase outcomes) = true := by
      rw [h _ (completion_bestCase outcomes)]
      exact false_ne_true
    rw [valueOf_eq_true_iff] at hbest
    push Not at hbest
    obtain ⟨b, hb, hfalse⟩ := hbest _ (mem_map_of_mem hg)
    obtain ⟨o, ho, rfl⟩ := mem_map.1 hb
    cases o with
    | none => exact absurd rfl hfalse
    | some x => exact ⟨x, ho, eq_false_of_not_eq_true hfalse⟩
  · intro h truths hc
    refine eq_false_of_not_eq_true fun htrue => ?_
    obtain ⟨bs, hbs, hall⟩ := valueOf_eq_true_iff.1 htrue
    obtain ⟨g, hg, hgbs⟩ := exists_mem_of_forall₂ hc.flip hbs
    obtain ⟨x, hx, hfail⟩ := h g hg
    obtain ⟨b, hb, hagree⟩ := exists_mem_of_forall₂ hgbs hx
    have hb := hall b hb
    rw [hagree x rfl, hfail] at hb
    cases hb

end

/-! ## The evaluator -/

theorem ParsedThreshold.ne_nil_of_mem_groups {e : Text} {g : List ParsedThreshold}
    (hg : g ∈ (parse e).groups) : g ≠ [] := by
  rw [parse, parseFuel] at hg
  split at hg
  · obtain ⟨clauses, hclauses, rfl⟩ := mem_map.1 hg
    rw [plainGroups, tidy, mem_filter] at hclauses
    simpa using hclauses.2
  · obtain rfl := mem_singleton.1 hg
    exact cons_ne_nil _ _

theorem passed_iff_of_evaluate {e : Text} {r : MetricsResult hdr} {o : Outcome}
    (h : evaluateSingleThresholdOpt e r = some o) :
    o.passed = true ↔ SomeGroupPasses (clauseOutcomes e r) := by
  rw [evaluateSingleThresholdOpt, evaluate_eq_combine] at h
  refine ((combine_spec ?_).2 o h).1
  intro g hg
  obtain ⟨cs, hcs, rfl⟩ := mem_map.1 hg
  simpa using ne_nil_of_mem_groups hcs

/-- A verdict is decided exactly if the clauses of some group have data and pass, or every group has
    a clause with data that fails. -/
theorem evaluate_decided_iff {e : Text} {r : MetricsResult hdr} {o : Outcome}
    (h : evaluateSingleThresholdOpt e r = some o) :
    Decided (clauseOutcomes e r) o.passed ↔
      SomeGroupPasses (clauseOutcomes e r) ∨ EachGroupFails (clauseOutcomes e r) := by
  have hpassed := passed_iff_of_evaluate h
  cases hp : o.passed with
  | true =>
    obtain ⟨g, hg, hall⟩ := hpassed.1 hp
    exact iff_of_true (decided_true hg hall) (.inl ⟨g, hg, hall⟩)
  | false =>
    rw [decided_false_iff, ← hpassed, hp, or_iff_right Bool.false_ne_true]

theorem evaluate_decided_slow : ∃ o,
    evaluateSingleThresholdOpt "http_req_duration.max < 100 && stock.count > 0"
      (latencyResults [250]) =
        some o ∧ o.passed = false ∧
      Decided (clauseOutcomes "http_req_duration.max < 100 && stock.count > 0"
        (latencyResults [250]))
        o.passed := by
  have h : evaluateSingleThresholdOpt "http_req_duration.max < 100 && stock.count > 0"
      (latencyResults [250]) = some ⟨false, .num 250, .num 100⟩ := by decide +kernel
  have houtcomes :
      clauseOutcomes "http_req_duration.max < 100 && stock.count > 0" (latencyResults [250]) =
      [[some ⟨false, .num 250, .num 100⟩, none]] := by decide +kernel
  refine ⟨_, h, rfl, (evaluate_decided_iff h).2 (.inr ?_)⟩
  rw [houtcomes]
  intro g hg
  obtain rfl := mem_singleton.1 hg
  exact ⟨_, mem_cons_self, rfl⟩

def stockThresholds : IndexMap String ThresholdConfig :=
  (∅ : IndexMap String ThresholdConfig).insert "sale"
    ⟨"http_req_duration.max < 500 && stock.count > 0", true, none⟩

theorem checkAbortOnFail_undecided :
    checkAbortOnFail (fun _ => none) stockThresholds (latencyResults [250]) (2 * 10 ^ 9) = true ∧
      evaluateSingleThresholdOpt "http_req_duration.max < 500 && stock.count > 0"
        (latencyResults [250]) =
        some ⟨false, .num 250, .num 500⟩ ∧
      ¬ Decided (clauseOutcomes "http_req_duration.max < 500 && stock.count > 0"
        (latencyResults [250])) false ∧
      evaluateSingleThresholdOpt "http_req_duration.max < 500 && stock.count > 0"
        ((Aggregator.new 0 : Aggregator Hdr.exact).recordAll
          [{ metric := "http_req_duration", tags := .ofPairs [], value := 250
             sampleType := .trend },
           { metric := "stock", tags := .ofPairs [], value := 1
             sampleType := .counter }] |>.buildResults ⟨0, 0⟩ 0) =
        some ⟨true, .num 1, .num 0⟩ := by
  have houtcomes :
      clauseOutcomes "http_req_duration.max < 500 && stock.count > 0" (latencyResults [250]) =
      [[some ⟨true, .num 250, .num 500⟩, none]] := by decide +kernel
  refine ⟨by decide +kernel, by decide +kernel, ?_, by decide +kernel⟩
  intro h
  have hbest := h _ (completion_bestCase _)
  rw [houtcomes] at hbest
  cases hbest

end Tropel
