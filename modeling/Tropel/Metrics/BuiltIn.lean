import Tropel.Metrics.Series
import Tropel.Metrics.Thresholds

/-!
# Clauses on the metrics of a run

A run has metrics of its own, like `http_reqs` and `errors`, and most of them have a headline in the
results.

* `evaluateClause_eq_none_iff`: when no samples are no data;
* `metricValue_errors_iff`: when `errors` is their number.
-/

namespace Tropel

open Lib List

variable {hdr : Hdr}

/-! ## Metrics without samples -/

def headlineStats (name : Text) : List (Option String) :=
  match String.ofList name with
  | "http_reqs" | "errors" => [none, some "count", some "rate", some "avg"]
  | "checks" | "checks.total" =>
    [none, some "count", some "rate", some "pass_rate", some "passed", some "failed"]
  | "http_req_failed" => [none, some "rate", some "avg", some "value", some "last"]
  | "data_received" | "data_sent" => [none, some "count", some "sum", some "rate", some "avg"]
  | _ => []

variable {r : MetricsResult hdr} {name : Text}

theorem aggregateMatches_eq_none {tagFilters : List (Text × Text)}
    (h : matchedSeries r name tagFilters = []) (stat : Option String) :
    aggregateMatches r name tagFilters stat = none := by
  exact if_pos h

theorem unscopedValue_eq_none_iff (hmatched : matchedSeries r name [] = [])
    (hduration : String.ofList name = "http_req_duration" → r.httpReqDuration = none)
    (stat : Option String) :
    unscopedValue r name stat = none ↔ stat ∉ headlineStats name := by
  have hnone := aggregateMatches_eq_none hmatched stat
  unfold unscopedValue
  extract_lets counter
  have hcounter (total : ℚ) : counter total = none ↔
      stat ∉ [none, some "count", some "rate", some "avg"] := by
    simp only [counter]
    split <;> simp_all
  clear_value counter
  unfold headlineStats
  generalize String.ofList name = n at hduration
  split
  · exact hcounter _
  · rw [hnone]
    exact hcounter _
  · split <;> simp_all
  · split <;> simp_all
  · rw [hduration rfl]
    exact iff_of_true rfl not_mem_nil
  · split <;> simp_all
  · split
    · simp
    · simp_all
  · split
    · simp
    · simp_all
  · split
    all_goals simp_all

theorem metricValue_eq_none_iff {ref : MetricRef}
    (hmatched : ∀ tagFilters, matchedSeries r ref.name tagFilters = [])
    (hduration : String.ofList ref.name = "http_req_duration" → r.httpReqDuration = none) :
    metricValue r ref = none ↔
      ¬ (ref.tags = [] ∧ ref.stat.map String.ofList ∈ headlineStats ref.name) := by
  rw [metricValue]
  split
  next htags => rw [unscopedValue_eq_none_iff (hmatched []) hduration, and_iff_right htags]
  next htags => exact iff_of_true (aggregateMatches_eq_none (hmatched _) _) fun h => htags h.1

section

variable {a : Aggregator hdr} {xs : List Sample}

theorem matchedSeries_eq_nil {name : Text} (h : ∀ s ∈ xs, metricBaseName s.metric ≠ name)
    (globals : Globals) (now : ℕ) (tagFilters : List (Text × Text)) :
    matchedSeries ((a.capped xs).buildResults globals now) name tagFilters = [] := by
  rw [matchedSeries_buildResults, map_eq_nil_iff, filter_eq_nil_iff]
  rintro ⟨k, set⟩ he hmatch
  have hk : k ∈ admitted a.maxSeries xs := by
    rw [← keys_dataOf_admittedSamples a.histogramMaxMs]
    exact mem_map_of_mem he
  obtain ⟨s, hs, rfl⟩ := mem_map.1 (IndexMap.mem_of_mem_kept hk)
  rw [MetricKey.matches, Bool.and_eq_true, decide_eq_true_eq] at hmatch
  exact h s hs hmatch.1

/-- A clause on a metric without samples has no value exactly if it does not read a headline. -/
theorem evaluateClause_eq_none_iff (hfresh : a.Fresh) {ref : MetricRef}
    (hno : ∀ s ∈ xs, metricBaseName s.metric ≠ ref.name) {operator : Text} (hop : operator ≠ [])
    (threshold : F64) (globals : Globals) (now : ℕ) :
    ParsedThreshold.evaluateClause
      ((a.recordAll xs).buildResults globals now) operator threshold ref = none ↔
      ¬ (ref.tags = [] ∧ ref.stat.map String.ofList ∈ headlineStats ref.name) := by
  rw [ParsedThreshold.evaluateClause, if_neg hop, Option.map_eq_none_iff,
    Aggregator.recordAll_eq_capped hfresh]
  refine metricValue_eq_none_iff (matchedSeries_eq_nil hno globals now) fun hname => ?_
  have hduration : valuesOf "http_req_duration" xs = [] := by
    refine valuesOf_eq_nil_iff.2 fun s hs hmetric => hno s hs ?_
    rw [hmetric, ← String.toList_ofList (l := ref.name), hname]
    rfl
  exact Option.map_eq_none_iff.2 (headlineOf_eq_none hduration a.histogramMaxMs)

theorem evaluateClause_stock : ParsedThreshold.evaluateClause
      (((Aggregator.new 0 : Aggregator Hdr.exact).recordAll
        [plainSample "http_reqs" .counter]).buildResults ⟨0, 0⟩ 0)
      ">" (.num 0) ⟨"stock", [], some "count"⟩ = none :=
  (evaluateClause_eq_none_iff (Aggregator.fresh_new 0) (by decide +kernel) (by decide) (.num 0)
    ⟨0, 0⟩ 0).2
    (by decide +kernel)

theorem evaluate_failed_without_requests : evaluateSingleThresholdOpt "http_req_failed < 0.01"
      (((Aggregator.new 0 : Aggregator Hdr.exact).recordAll []).buildResults ⟨0, 0⟩ 0) =
      some ⟨true, .num 0, .num (1 / 100)⟩ := by
  decide +kernel

end

/-! ## Errors -/

theorem mean_summary (key : String) (tags : List (String × String)) (set : MetricSet hdr)
    (retain : Bool) :
    (summary key tags set retain).mean = set.mean := by
  rw [summary]
  cases set.metricType <;> rfl

section

variable {a : Aggregator hdr} {xs : List Sample}

theorem matchedSeries_errors
    (hname : ∀ s ∈ xs, metricBaseName s.metric = "errors" → s.metric = "errors")
    (globals : Globals) (now : ℕ) :
    matchedSeries ((a.recorded xs).buildResults globals now) "errors" [] =
      ((dataOf a.histogramMaxMs xs).entries.filter (·.1.metric = "errors")).map fun e =>
        summary e.1.toKeyString e.1.tags e.2 a.retainHistograms := by
  rw [matchedSeries_buildResults]
  refine congrArg _ (filter_congr ?_)
  rintro ⟨k, set⟩ he
  have hk : k ∈ xs.map Sample.key := by
    rw [← isSome_get_dataOf a.histogramMaxMs]
    exact Option.isSome_of_eq_some (IndexMap.get_eq_some_iff.2 he)
  obtain ⟨s, hs, rfl⟩ := mem_map.1 hk
  rw [MetricKey.matches, all_nil, Bool.and_true, decide_eq_decide]
  exact ⟨hname s hs, fun h => by rw [h]; rfl⟩

theorem mem_means_errors {m : ℚ} (maxMs : Option ℕ) :
    m ∈ ((dataOf maxMs xs : IndexMap MetricKey (MetricSet hdr)).entries.filter
      (·.1.metric = "errors")).map
        (·.2.mean) ↔
      ∃ k, k.metric = "errors" ∧ seriesValues k xs ≠ [] ∧
        (seriesValues k xs).sum / (seriesValues k xs).length = m := by
  rw [mem_map]
  constructor
  · rintro ⟨⟨k, set⟩, he, rfl⟩
    obtain ⟨he, hk⟩ := mem_filter.1 he
    have hget := IndexMap.get_eq_some_iff.2 he
    refine ⟨k, of_decide_eq_true hk, fun hnil => ?_, (mean_of_get_dataOf hget).symm⟩
    rw [seriesValues_eq_nil_iff, ← isSome_get_dataOf maxMs, hget] at hnil
    exact hnil rfl
  · rintro ⟨k, hk, hne, rfl⟩
    rw [Ne, seriesValues_eq_nil_iff, not_not, ← isSome_get_dataOf maxMs] at hne
    obtain ⟨set, hset⟩ := Option.isSome_iff_exists.1 hne
    exact ⟨(k, set), mem_filter.2 ⟨IndexMap.get_eq_some_iff.1 hset, decide_eq_true hk⟩,
      mean_of_get_dataOf hset⟩

variable {r : MetricsResult hdr} {tagFilters : List (Text × Text)} {vs : List ℚ} {name : Text}

theorem mean_le_sum (h : ∀ v ∈ vs, 0 ≤ v) : vs.sum / vs.length ≤ vs.sum := by
  cases vs with
  | nil => simp
  | cons v vs =>
    refine div_le_self (sum_nonneg h) ?_
    rw [length_cons, Nat.cast_succ]
    exact le_add_of_nonneg_left (Nat.cast_nonneg _)

theorem eq_singleton_or_eq_zero {total : ℚ} (hne : vs ≠ []) (hnonneg : 0 ≤ vs.sum)
    (hle : vs.sum ≤ total) (hmean : vs.sum / vs.length = total) : total = 0 ∨ vs = [total] := by
  rcases vs with _ | ⟨v, _ | ⟨w, vs⟩⟩
  · exact absurd rfl hne
  · right
    simpa using hmean
  · left
    -- The sum would be at least twice the total.
    have hlen : (2 : ℚ) ≤ (v :: w :: vs).length := by
      rw [length_cons, length_cons]
      push_cast
      linarith [Nat.cast_nonneg (α := ℚ) vs.length]
    rw [div_eq_iff (by linarith)] at hmean
    nlinarith

theorem value_nonneg_of_errors
    (hcounter : ∀ s ∈ xs, s.metric = "errors" → s.sampleType = .counter ∧ ∃ n : ℕ, s.value = n) :
    ∀ s ∈ xs, s.metric = "errors" → 0 ≤ s.value := by
  intro s hs hm
  obtain ⟨-, n, hn⟩ := hcounter s hs hm
  rw [hn]
  exact Nat.cast_nonneg n

theorem metricValue_errors {stat : Option Text} {v : ℚ}
    (h : aggregateMatches r "errors" [] (stat.map String.ofList) = some v) :
    metricValue r ⟨"errors", [], stat⟩ = some v := by
  rw [metricValue, if_pos rfl]
  unfold unscopedValue
  simp only [String.ofList_toList, h]

theorem aggregateMatches_bare (hne : matchedSeries r name tagFilters ≠ []) :
    aggregateMatches r name tagFilters none =
      ((matchedSeries r name tagFilters).map (·.mean)).max? := by
  unfold aggregateMatches
  rw [if_neg hne]
  rfl

theorem aggregateMatches_count (hne : matchedSeries r name tagFilters ≠ []) :
    aggregateMatches r name tagFilters (some "count") =
      some ((matchedSeries r name tagFilters).map fun m => (m.count : ℚ)).sum := by
  have hpercentile : isPercentileStat "count" = false := by decide +kernel
  have hguard : percentileGuardFails (matchedSeries r name tagFilters) (some "count") = false := by
    rw [percentileGuardFails, Option.any_some, hpercentile, Bool.false_and]
  unfold aggregateMatches
  rw [if_neg hne, if_neg (ne_true_of_eq_false hguard)]
  rfl

theorem bareErrors_iff (hnonneg : ∀ s ∈ xs, s.metric = "errors" → 0 ≤ s.value)
    (hne : ∃ s ∈ xs, s.metric = "errors") (maxMs : Option ℕ) :
    (((dataOf maxMs xs : IndexMap MetricKey (MetricSet hdr)).entries.filter
      (·.1.metric = "errors")).map
        (·.2.mean)).max? = some (valuesOf "errors" xs).sum ↔
      (valuesOf "errors" xs).sum = 0 ∨
        ∃ k, k.metric = "errors" ∧ seriesValues k xs = [(valuesOf "errors" xs).sum] := by
  have hseries (k : MetricKey) (hk : k.metric = "errors") : ∀ v ∈ seriesValues k xs, 0 ≤ v := by
    intro v hv
    obtain ⟨s, hs, rfl⟩ := mem_map.1 hv
    obtain ⟨hs, hkey⟩ := mem_filter.1 hs
    exact hnonneg s hs (hk ▸ congrArg MetricKey.metric (of_decide_eq_true hkey))
  have hle (k : MetricKey) (hk : k.metric = "errors") :
      (seriesValues k xs).sum ≤ (valuesOf "errors" xs).sum :=
    hk ▸ sum_seriesValues_le_valuesOf (hk ▸ hnonneg)
  rw [max?_eq_some_iff, mem_means_errors, and_iff_left]
  · constructor
    · rintro ⟨k, hk, hne, hmean⟩
      exact (eq_singleton_or_eq_zero hne (sum_nonneg (hseries k hk)) (hle k hk) hmean).imp_right
        fun h => ⟨k, hk, h⟩
    · rintro (hzero | ⟨k, hk, hvalues⟩)
      · obtain ⟨s, hs, hm⟩ := hne
        have hsum : (seriesValues s.key xs).sum = 0 :=
          le_antisymm (hzero ▸ hle s.key hm) (sum_nonneg (hseries s.key hm))
        refine ⟨s.key, hm, fun hnil => ?_, by rw [hsum, zero_div, hzero]⟩
        exact seriesValues_eq_nil_iff.1 hnil (mem_map_of_mem hs)
      · refine ⟨k, hk, by rw [hvalues]; exact cons_ne_nil _ _, ?_⟩
        rw [hvalues, sum_singleton, length_singleton, Nat.cast_one, div_one]
  · intro m hm
    obtain ⟨k, hk, -, rfl⟩ := (mem_means_errors maxMs).1 hm
    exact (mean_le_sum (hseries k hk)).trans (hle k hk)

theorem exists_natCast_sum (h : ∀ v ∈ vs, ∃ n : ℕ, v = n) : ∃ n : ℕ, vs.sum = n := by
  induction vs with
  | nil => exact ⟨0, by simp⟩
  | cons v vs ih =>
    obtain ⟨⟨m, hm⟩, hvs⟩ := forall_mem_cons.1 h
    obtain ⟨n, hn⟩ := ih hvs
    exact ⟨m + n, by rw [sum_cons, hm, hn, Nat.cast_add]⟩

theorem asU64_natCast {n : ℕ} (h : n < 2 ^ 64) : asU64 (n : ℚ) = n := by
  rw [asU64, Int.floor_natCast, Int.toNat_natCast]
  omega

theorem count_summary_errors
    (hcounter : ∀ s ∈ xs, s.metric = "errors" → s.sampleType = .counter ∧ ∃ n : ℕ, s.value = n)
    (hrange : (valuesOf "errors" xs).sum < 2 ^ 64) {maxMs : Option ℕ} {k : MetricKey}
    {set : MetricSet hdr} (hget : (dataOf maxMs xs).get k = some set) (hk : k.metric = "errors")
    (retain : Bool) :
    ((summary k.toKeyString k.tags set retain).count : ℚ) = (seriesValues k xs).sum := by
  have hmetric {s : Sample} (hs : s.key = k) : s.metric = "errors" :=
    hk ▸ congrArg MetricKey.metric hs
  have htype : set.metricType = .counter := by
    refine metricType_of_get_dataOf hget fun s hs hkey => ?_
    rw [(hcounter s hs (hmetric hkey)).1]
    rfl
  obtain ⟨n, hn⟩ : ∃ n : ℕ, (seriesValues k xs).sum = n := by
    refine exists_natCast_sum fun v hv => ?_
    obtain ⟨s, hs, rfl⟩ := mem_map.1 hv
    obtain ⟨hs, hkey⟩ := mem_filter.1 hs
    exact (hcounter s hs (hmetric (of_decide_eq_true hkey))).2
  have hlt : n < 2 ^ 64 := by
    have hle : (seriesValues k xs).sum ≤ (valuesOf "errors" xs).sum :=
      hk ▸ sum_seriesValues_le_valuesOf (hk ▸ value_nonneg_of_errors hcounter)
    exact_mod_cast hn ▸ hle.trans_lt hrange
  simp only [summary, htype]
  rw [sum_of_get_dataOf hget, hn, asU64_natCast hlt]

theorem sum_counts_errors
    (hcounter : ∀ s ∈ xs, s.metric = "errors" → s.sampleType = .counter ∧ ∃ n : ℕ, s.value = n)
    (hrange : (valuesOf "errors" xs).sum < 2 ^ 64) (maxMs : Option ℕ) (retain : Bool) :
    (((dataOf maxMs xs : IndexMap MetricKey (MetricSet hdr)).entries.filter
      (·.1.metric = "errors")).map fun e =>
        ((summary e.1.toKeyString e.1.tags e.2 retain).count : ℚ)).sum =
          (valuesOf "errors" xs).sum := by
  let data : IndexMap MetricKey (MetricSet hdr) := dataOf maxMs xs
  have hcount : ∀ e ∈ data.entries.filter (·.1.metric = "errors"),
      ((summary e.1.toKeyString e.1.tags e.2 retain).count : ℚ) = (seriesValues e.1 xs).sum := by
    intro e he
    obtain ⟨he, hk⟩ := mem_filter.1 he
    exact count_summary_errors hcounter hrange (IndexMap.get_eq_some_iff.2 he)
      (of_decide_eq_true hk) retain
  have hkeys :
      (data.entries.filter (·.1.metric = "errors")).map (fun e => (seriesValues e.1 xs).sum) =
      ((data.entries.map Prod.fst).filter (·.metric = "errors")).map fun k =>
        if k.metric = "errors" then (seriesValues k xs).sum else 0 := by
    rw [filter_map, List.map_map]
    refine map_congr_left fun e he => ?_
    rw [Function.comp_apply, if_pos (of_decide_eq_true (mem_filter.1 he).2)]
  rw [map_congr_left hcount, hkeys]
  refine sum_seriesValues "errors" (data.nodup.filter _) fun s hs hm => ?_
  refine mem_filter.2 ⟨IndexMap.mem_keys_iff.2 ?_, decide_eq_true hm⟩
  exact (isSome_get_dataOf maxMs).2 (mem_map_of_mem hs)

/-- A bare `errors` compares the number of errors exactly if there are none, or if all of them
    come from one sample that is alone in its series. `errors.count` always does. -/
theorem metricValue_errors_iff (hfresh : a.Fresh) (hroom : seriesCount xs ≤ a.maxSeries)
    (hcounter : ∀ s ∈ xs, s.metric = "errors" → s.sampleType = .counter ∧ ∃ n : ℕ, s.value = n)
    (hname : ∀ s ∈ xs, metricBaseName s.metric = "errors" → s.metric = "errors")
    (hne : ∃ s ∈ xs, s.metric = "errors") (globals : Globals) (now : ℕ) :
    (metricValue ((a.recordAll xs).buildResults globals now) ⟨"errors", [], none⟩ =
        some (valuesOf "errors" xs).sum ↔
      (valuesOf "errors" xs).sum = 0 ∨
        ∃ k, k.metric = "errors" ∧ seriesValues k xs = [(valuesOf "errors" xs).sum]) ∧
    ((valuesOf "errors" xs).sum < 2 ^ 64 →
      metricValue ((a.recordAll xs).buildResults globals now) ⟨"errors", [], some "count"⟩ =
        some (valuesOf "errors" xs).sum) := by
  have hmatched := matchedSeries_errors (a := a) hname globals now
  have hmatchedNe : matchedSeries ((a.recorded xs).buildResults globals now) "errors" [] ≠ [] := by
    obtain ⟨s, hs, hm⟩ := hne
    refine matchedSeries_ne_nil (ne_nil_of_mem (mem_filter.2 ⟨hs, ?_⟩)) globals now
    have hk : s.key.metric = "errors" := hm
    rw [MetricKey.matches, all_nil, Bool.and_true, hk]
    exact decide_eq_true rfl
  rw [Aggregator.recordAll_eq hfresh hroom]
  constructor
  · obtain ⟨v, hv⟩ : ∃ v,
      ((matchedSeries ((a.recorded xs).buildResults globals now) "errors" []).map
        (·.mean)).max? = some v := by
      refine Option.ne_none_iff_exists'.1 fun hnone => ?_
      rw [max?_eq_none_iff, map_eq_nil_iff] at hnone
      exact hmatchedNe hnone
    rw [metricValue_errors ((aggregateMatches_bare hmatchedNe).trans hv), ← hv, hmatched,
      List.map_map, ← bareErrors_iff (value_nonneg_of_errors hcounter) hne a.histogramMaxMs]
    refine Eq.congr_left (congrArg List.max? (map_congr_left fun e _ => ?_))
    exact mean_summary _ _ _ _
  · intro hrange
    refine metricValue_errors ?_
    rw [Option.map_some, String.ofList_toList, aggregateMatches_count hmatchedNe, hmatched,
      List.map_map]
    exact congrArg some (sum_counts_errors hcounter hrange a.histogramMaxMs a.retainHistograms)

theorem metricValue_errors_at_once :
    let xs := [{ plainSample "errors" .counter with value := 3 }]
    (valuesOf "errors" xs).sum = 3 ∧
      metricValue (((Aggregator.new 0 : Aggregator Hdr.exact).recordAll xs).buildResults ⟨0, 0⟩ 0)
        ⟨"errors", [], none⟩ = some (valuesOf "errors" xs).sum := by
  intro xs
  have hcounter : ∀ s ∈ xs, s.metric = "errors" → s.sampleType = .counter ∧ ∃ n : ℕ,
      s.value = n := by
    intro s hs _
    obtain rfl := mem_singleton.1 hs
    exact ⟨rfl, 3, rfl⟩
  refine ⟨by decide +kernel, (metricValue_errors_iff (Aggregator.fresh_new 0) (by decide +kernel)
    hcounter (by decide +kernel) (by decide +kernel) ⟨0, 0⟩ 0).1.2 (.inr ⟨⟨"errors", []⟩, rfl, ?_⟩)⟩
  decide +kernel

theorem evaluate_two_errors :
    let r := ((Aggregator.new 0 : Aggregator Hdr.exact).recordAll
      [plainSample "errors" .counter, plainSample "errors" .counter]).buildResults ⟨0, 0⟩ 0
    evaluateSingleThresholdOpt "errors < 2" r = some ⟨true, .num 1, .num 2⟩ ∧
      evaluateSingleThresholdOpt "errors.count < 2" r = some ⟨false, .num 2, .num 2⟩ := by
  decide +kernel

end

end Tropel
