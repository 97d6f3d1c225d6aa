import Tropel.Metrics.Series
import Tropel.Metrics.Thresholds

/-!
# Percentiles of a population

A percentile of several series needs their histograms, which the results have if the configuration
asks for them.

* `metricValue_percentile`: the value of a clause on one.
-/

namespace Tropel

open Lib List

variable {hdr : Hdr}

/-! ## The statistics that are percentiles -/

def percentileOf (stat : Text) : Option F64 :=
  if stat = "med" ∨ stat = "median" then some (.num 50) else parsePercentile stat

theorem parsePercentile_congr {s t : Text} (h : trim s = trim t) :
    parsePercentile s = parsePercentile t := by
  rw [parsePercentile, parsePercentile, h]

theorem parsePercentile_trim (s : Text) : parsePercentile (trim s) = parsePercentile s :=
  parsePercentile_congr (trim_trim s)

variable {stat op : Text} {g : List ParsedThreshold} {threshold : F64} {ref : MetricRef}

theorem percentileOf_eq_none {w : String}
    (hw : w ∈ ["avg", "mean", "min", "max", "count", "sum", "rate", "last"])
    (h : trim stat = w.toList) :
    percentileOf stat = none := by
  have hnone : ∀ w ∈ ["avg", "mean", "min", "max", "count", "sum", "rate", "last"],
      trim w.toList = w.toList ∧ parsePercentile w.toList = none ∧ "med" ≠ w.toList ∧
        "median" ≠ w.toList := by
    decide +kernel
  obtain ⟨htrim, hparse, hmed, hmedian⟩ := hnone w hw
  rw [percentileOf, if_neg, parsePercentile_congr (h.trans htrim.symm), hparse]
  rintro (rfl | rfl)
  · exact hmed h
  · exact hmedian h

theorem statNeedsHistogram_of_percentileOf {pct : F64} (h : percentileOf stat = some pct) :
    statNeedsHistogram stat = true := by
  have hother : ¬ (["avg", "mean", "min", "max", "count", "sum", "rate", "last"].any fun k =>
      trim stat = k.toList) = true := by
    rw [any_eq_true]
    rintro ⟨w, hw, htrim⟩
    rw [percentileOf_eq_none hw (of_decide_eq_true htrim)] at h
    cases h
  simp only [statNeedsHistogram]
  rw [if_neg hother]
  split
  · rfl
  next htracked =>
    rw [percentileOf] at h
    split at h
    next hmed =>
      refine absurd (any_eq_true.2 ?_) htracked
      rcases hmed with rfl | rfl
      · exact ⟨"med", by decide, by decide⟩
      · exact ⟨"median", by decide, by decide⟩
    next => rw [parsePercentile_trim, h, Option.isSome_some]

theorem stat_eq_none_of_plainGroups_eq_nil {e : Text} (he : plainGroups e = [])
    (hg : g ∈ (ParsedThreshold.parse e).groups)
    (hc : ParsedThreshold.clause op threshold ref ∈ g) : ref.stat = none := by
  rw [ParsedThreshold.parse, ParsedThreshold.parseFuel] at hg
  split at hg
  · rw [ParsedThreshold.groups, he] at hg
    cases hg
  next hplain =>
    obtain rfl := mem_singleton.1 hg
    rw [Bool.not_eq_true, Bool.or_eq_false_iff] at hplain
    have htrim : trim e = [] := by
      by_contra hne
      rw [plainGroups_eq 0, connectives_false_of_not_hasTwice 0 hplain.1 hplain.2] at he
      simp [tidy, tidyClauses, hne] at he
    have hwords : splitWhitespace e = [] := by
      rw [← splitWhitespace_trim, htrim]
      rfl
    rw [hwords] at hc
    obtain ⟨⟩ := mem_singleton.1 hc
    rfl

theorem configNeedsHistograms_of_clause {stats : List String}
    {thresholds : List (String × ThresholdConfig)} {t : String × ThresholdConfig}
    (ht : t ∈ thresholds) (hg : g ∈ (ParsedThreshold.parse t.2.expression.toList).groups)
    (hc : ParsedThreshold.clause op threshold ref ∈ g) (hstat : ref.stat = some stat)
    (hneeds : statNeedsHistogram stat = true) : configNeedsHistograms stats thresholds = true := by
  by_cases hne : plainGroups t.2.expression.toList = []
  · rw [stat_eq_none_of_plainGroups_eq_nil hne hg hc] at hstat
    cases hstat
  · rw [ParsedThreshold.groups_parse hne, plainReads, List.map_map] at hg
    obtain ⟨cs, hcs, rfl⟩ := mem_map.1 hg
    rw [Function.comp_apply, List.map_map] at hc
    obtain ⟨c, hcmem, hclause⟩ := mem_map.1 hc
    -- The clause is a piece of the expression, up to white space.
    have hflat : c ∈ (plainGroups t.2.expression.toList).flatten := mem_flatten.2 ⟨cs, hcs, hcmem⟩
    rw [plainGroups, flatten_tidy, tidyClauses, mem_filter] at hflat
    obtain ⟨p, hp, rfl⟩ := mem_map.1 hflat.1
    rw [configNeedsHistograms, Bool.or_eq_true]
    refine .inr (any_eq_true.2 ⟨t, ht, any_eq_true.2 ⟨p, ?_, ?_⟩⟩)
    · rwa [flatMap_def]
    · rw [Function.comp_apply, splitWhitespace_trim] at hclause
      injection hclause with _ _ href
      rw [href, hstat, Option.any_some, hneeds, Bool.and_true]
      exact hflat.2

/-! ## The percentile of series together -/

theorem seriesSupportsPercentile_of_trend {m : MetricSummary hdr} (h : m.metricType = .trend)
    (stat : String) :
    seriesSupportsPercentile m stat = true := by
  rw [seriesSupportsPercentile.eq_def]
  split <;> simp [h]

section

variable {w v : String} {pct : F64}

theorem not_percentileOf (hw : some w = some v) (hpct : percentileOf w.toList = some pct)
    (hv : v ∈ ["avg", "min", "max", "count", "value", "last", "sum", "rate"]) : False := by
  have hother : ∀ v ∈ ["avg", "min", "max", "count", "value", "last", "sum", "rate"],
      percentileOf v.toList = none := by
    decide +kernel
  rw [Option.some.inj hw, hother v hv] at hpct
  cases hpct

theorem eq_of_percentileOf (q : ℚ) (hw : some w = some v) (hpct : percentileOf w.toList = some pct)
    (hv : (v, q) ∈ [("p50", 50), ("median", 50), ("med", 50), ("p90", 90), ("p95", 95),
      ("p99", 99)]) :
    pct = .num q := by
  have htracked : ∀ e ∈ [("p50", 50), ("median", 50), ("med", 50), ("p90", 90), ("p95", 95),
      ("p99", 99)],
      percentileOf e.1.toList = some (.num e.2) := by
    decide +kernel
  rw [Option.some.inj hw, htracked _ hv] at hpct
  exact (Option.some.inj hpct).symm

theorem parsePercentile_eq (hw : some w = some v) (hpct : percentileOf w.toList = some pct)
    (hmedian : v ≠ "median") (hmed : v ≠ "med") : parsePercentile v.toList = some pct := by
  rw [Option.some.inj hw, percentileOf, if_neg] at hpct
  · exact hpct
  · rintro (h | h)
    · exact hmed (String.toList_injective h)
    · exact hmedian (String.toList_injective h)

theorem aggregateMatches_percentile {r : MetricsResult hdr} {name : Text}
    {tagFilters : List (Text × Text)} (hpct : percentileOf w.toList = some pct)
    (hne : matchedSeries r name tagFilters ≠ [])
    (htrend : ∀ m ∈ matchedSeries r name tagFilters, m.metricType = .trend) :
    aggregateMatches r name tagFilters (some w) =
      mergedPercentile (matchedSeries r name tagFilters) pct := by
  have hguard : percentileGuardFails (matchedSeries r name tagFilters) (some w) = false := by
    rw [percentileGuardFails, Option.any_some, all_eq_true.2, Bool.not_true, Bool.and_false]
    exact fun m hm => seriesSupportsPercentile_of_trend (htrend m hm) w
  unfold aggregateMatches
  rw [if_neg hne, if_neg (ne_true_of_eq_false hguard)]
  split
  case h_1 h | h_2 h | h_3 h => exact (not_percentileOf h hpct (by decide)).elim
  case h_4 h | h_5 h | h_6 h => rw [eq_of_percentileOf 50 h hpct (by decide)]
  case h_7 h => rw [eq_of_percentileOf 90 h hpct (by decide)]
  case h_8 h => rw [eq_of_percentileOf 95 h hpct (by decide)]
  case h_9 h => rw [eq_of_percentileOf 99 h hpct (by decide)]
  case h_10 hmedian hmed _ _ _ h => rw [parsePercentile_eq h hpct hmedian hmed]
  case h_11 h => cases h

theorem durationValue_percentile {d : MetricSummary hdr} {hist : LatencyHistogram hdr}
    (hhist : d.histogram = some hist) (h50 : d.p50 = LatencyHistogram.percentile hist 50)
    (h90 : d.p90 = LatencyHistogram.percentile hist 90)
    (h95 : d.p95 = LatencyHistogram.percentile hist 95)
    (h99 : d.p99 = LatencyHistogram.percentile hist 99) (hpct : percentileOf w.toList = some pct) :
    durationValue d (some w) = some (LatencyHistogram.percentile hist (percentOf pct)) := by
  unfold durationValue
  split
  case h_1 h => cases h
  case h_2 h | h_3 h | h_4 h | h_11 h | h_12 h | h_13 h | h_14 h | h_15 h =>
    exact (not_percentileOf h hpct (by decide)).elim
  case h_5 h | h_6 h | h_7 h => rw [eq_of_percentileOf 50 h hpct (by decide), h50, percentOf]
  case h_8 h => rw [eq_of_percentileOf 90 h hpct (by decide), h90, percentOf]
  case h_9 h => rw [eq_of_percentileOf 95 h hpct (by decide), h95, percentOf]
  case h_10 h => rw [eq_of_percentileOf 99 h hpct (by decide), h99, percentOf]
  case h_16 hmedian hmed _ _ _ _ _ _ _ _ h =>
    rw [parsePercentile_eq h hpct hmedian hmed, Option.map_some, percentileValue, hhist]

end

/-! ## The histograms of a run -/

theorem values_foldl_merge (l : List (LatencyHistogram hdr)) (h : LatencyHistogram hdr) :
    (l.foldl LatencyHistogram.merge h).values = h.values + (l.map (·.values)).sum := by
  induction l generalizing h with
  | nil => simp
  | cons a l ih => rw [foldl_cons, ih, LatencyHistogram.values_merge, map_cons, sum_cons, add_assoc]

def percentileOfValues (hdr : Hdr) (vs : List ℚ) (pct : F64) : ℚ :=
  hdr.valueAtQuantile (vs.map (MetricSet.bucketed hdr) : Multiset ℕ) (percentOf pct / 100) / 1000

theorem percentile_eq {hist : LatencyHistogram hdr} {vs : List ℚ}
    (h : hist.values = (vs.map (MetricSet.bucketed hdr) : Multiset ℕ)) (pct : F64) :
    LatencyHistogram.percentile hist (percentOf pct) = percentileOfValues hdr vs pct := by
  rw [LatencyHistogram.percentile, h, percentileOfValues]

theorem metricType_summary (key : String) (tags : List (String × String)) (set : MetricSet hdr)
    (retain : Bool) :
    (summary key tags set retain).metricType = set.metricType := by
  rw [summary]
  cases h : set.metricType <;> rfl

section

variable {a : Aggregator hdr} {xs : List Sample} {maxMs : Option ℕ}

theorem histogram_summary {e : MetricKey × MetricSet hdr} (he : e ∈ (dataOf maxMs xs).entries)
    (ht : e.2.metricType = .trend) (key : String) (tags : List (String × String)) :
    (summary key tags e.2 true).histogram.map (·.values) =
      some ((seriesValues e.1 xs).map (MetricSet.bucketed hdr) : Multiset ℕ) := by
  obtain ⟨hist, hhist, hvalues⟩ := exists_histogram_of_get_dataOf (IndexMap.get_eq_some_iff.2 he) ht
  have hshown : (summary key tags e.2 true).histogram = e.2.histogram := by
    simp only [summary, ht]
    rfl
  rw [hshown, hhist, Option.map_some, hvalues]

theorem sum_map_singleton_eq {α β : Type*} (f : α → β) (l : List α) :
    (l.map fun x => ({f x} : Multiset β)).sum = (l.map f : Multiset β) := by
  induction l with
  | nil => rfl
  | cons x l ih => rw [map_cons, sum_cons, ih, map_cons, Multiset.singleton_add, Multiset.cons_coe]

theorem sum_histograms (p : MetricKey → Bool)
    (htrend : ∀ e ∈ (dataOf maxMs xs : IndexMap MetricKey (MetricSet hdr)).entries.filter (p ·.1),
      e.2.metricType = .trend) :
    (((((dataOf maxMs xs : IndexMap MetricKey (MetricSet hdr)).entries.filter (p ·.1)).map fun e =>
        summary e.1.toKeyString e.1.tags e.2 true).filterMap (·.histogram)).map (·.values)).sum =
      (((xs.filter (p ·.key)).map Sample.value).map (MetricSet.bucketed hdr) : Multiset ℕ) := by
  let data : IndexMap MetricKey (MetricSet hdr) := dataOf maxMs xs
  have hvalues :
      ((((data.entries.filter (p ·.1)).map fun e =>
        summary e.1.toKeyString e.1.tags e.2 true).filterMap
      (·.histogram)).map (·.values)) =
        ((data.entries.map Prod.fst).filter p).map fun k =>
          ((seriesValues k xs).map fun v => ({MetricSet.bucketed hdr v} : Multiset ℕ)).sum := by
    rw [filterMap_map, map_filterMap, filter_map, List.map_map, ← filterMap_eq_map]
    refine filterMap_congr fun e he => ?_
    rw [Function.comp_apply, Function.comp_apply, Function.comp_apply,
      histogram_summary (mem_of_mem_filter he) (htrend e he), sum_map_singleton_eq]
  have hmem : xs.filter (·.key ∈ (data.entries.map Prod.fst).filter p) = xs.filter (p ·.key) := by
    refine filter_congr fun s hs => ?_
    have hkey : s.key ∈ data.entries.map Prod.fst :=
      IndexMap.mem_keys_iff.2 ((isSome_get_dataOf maxMs).2 (mem_map_of_mem hs))
    rw [Bool.eq_iff_iff, decide_eq_true_eq, mem_filter]
    exact and_iff_right hkey
  rw [hvalues, sum_map_seriesValues _ xs (data.nodup.filter p), hmem, sum_map_singleton_eq,
    List.map_map]
  rfl

theorem matchedSeries_recorded (hretain : a.retainHistograms = true) (globals : Globals) (now : ℕ)
    (name : Text) (tagFilters : List (Text × Text)) :
    matchedSeries ((a.recorded xs).buildResults globals now) name tagFilters =
      ((dataOf a.histogramMaxMs xs).entries.filter (·.1.matches name tagFilters)).map fun e =>
        summary e.1.toKeyString e.1.tags e.2 true := by
  have hkept : (a.recorded xs).retainHistograms = true := hretain
  rw [matchedSeries_buildResults, hkept]
  rfl

section

variable {name : Text} {tagFilters : List (Text × Text)} {globals : Globals} {now : ℕ}
  (hretain : a.retainHistograms = true)
  (htrend : ∀ m ∈ matchedSeries ((a.recorded xs).buildResults globals now) name tagFilters,
    m.metricType = .trend)

include hretain htrend

theorem metricType_of_matches :
    ∀ e ∈ (dataOf a.histogramMaxMs xs : IndexMap MetricKey (MetricSet hdr)).entries.filter
    (·.1.matches name tagFilters), e.2.metricType = .trend := by
  intro e he
  rw [← metricType_summary e.1.toKeyString e.1.tags e.2 true]
  exact htrend _ (matchedSeries_recorded hretain globals now name tagFilters ▸ mem_map_of_mem he)

theorem isSome_histogram_of_matchedSeries :
    ∀ m ∈ matchedSeries ((a.recorded xs).buildResults globals now) name tagFilters,
      m.histogram.isSome := by
  intro m hm
  rw [matchedSeries_recorded hretain] at hm
  obtain ⟨e, he, rfl⟩ := mem_map.1 hm
  rw [← Option.isSome_map (f := fun h : LatencyHistogram hdr => h.values),
    histogram_summary (mem_of_mem_filter he) (metricType_of_matches hretain htrend e he)]
  rfl

theorem mergedPercentile_matchedSeries
    (hne : matchedSeries ((a.recorded xs).buildResults globals now) name tagFilters ≠ [])
    (pct : F64) :
    mergedPercentile
      (matchedSeries ((a.recorded xs).buildResults globals now) name tagFilters) pct =
      some (percentileOfValues hdr
        ((xs.filter (·.key.matches name tagFilters)).map Sample.value) pct) := by
  rw [mergedPercentile, if_pos]
  · refine congrArg some (percentile_eq ?_ pct)
    rw [values_foldl_merge, matchedSeries_recorded hretain,
      sum_histograms (·.matches name tagFilters) (metricType_of_matches hretain htrend)]
    exact zero_add _
  · rw [Bool.and_eq_true, Bool.not_eq_true', isEmpty_eq_false_iff, all_eq_true]
    refine ⟨hne, fun m hm => ?_⟩
    rw [htrend m hm, isSome_histogram_of_matchedSeries hretain htrend m hm]
    rfl

end

theorem exists_httpReqDuration (hretain : a.retainHistograms = true)
    (hne : valuesOf "http_req_duration" xs ≠ []) (globals : Globals) (now : ℕ) :
    ∃ set hist, ((a.recorded xs).buildResults globals now).httpReqDuration =
        some (trendSummary "http_req_duration" [] set true) ∧ set.histogram = some hist ∧
      hist.values =
        ((valuesOf "http_req_duration" xs).map (MetricSet.bucketed hdr) : Multiset ℕ) := by
  have hvalues : valuesAt (Sample.headlineKey "http_req_duration") xs () =
      (valuesOf "http_req_duration" xs : Multiset ℚ) := by
    rw [valuesAt, sum_map_singleton_eq, valuesOf]
    refine congrArg (fun l : List Sample => (l.map Sample.value : Multiset ℚ))
      (filter_congr fun s _ => ?_)
    rw [decide_eq_decide, Sample.headlineKey, Option.ite_none_right_eq_some]
    exact and_iff_left rfl
  have hholds :
      Holds (headlineOf "http_req_duration" a.histogramMaxMs xs : IndexMap Unit (MetricSet hdr))
        _ _ :=
    holds_headlineOf "http_req_duration" a.histogramMaxMs xs
  cases hget :
    (headlineOf "http_req_duration" a.histogramMaxMs xs : IndexMap Unit (MetricSet hdr)).get () with
  | none =>
    refine absurd (Multiset.coe_eq_zero _ |>.1 ?_) hne
    rw [← hvalues]
    exact hholds.none () hget
  | some set =>
    obtain ⟨hzero, hset⟩ := hholds.some () set hget
    have hmap := hset.histogram
    rw [if_pos ⟨rfl, hzero⟩, hvalues, Multiset.map_coe] at hmap
    obtain ⟨hist, hhist, heq⟩ := Option.map_eq_some_iff.1 hmap
    refine ⟨set, hist, ?_, hhist, heq⟩
    have hkept : (a.recorded xs).retainHistograms = true := hretain
    change Option.map _ ((headlineOf "http_req_duration" a.histogramMaxMs xs).get ()) = _
    rw [hget, hkept]
    rfl

theorem isSome_histogram_httpReqDuration (hretain : a.retainHistograms = true) {globals : Globals}
    {now : ℕ} {d : MetricSummary hdr}
    (hd : ((a.recorded xs).buildResults globals now).httpReqDuration = some d) :
    d.histogram.isSome := by
  by_cases hvalues : valuesOf "http_req_duration" xs = []
  · have hnone : ((a.recorded xs).buildResults globals now).httpReqDuration = none :=
      Option.map_eq_none_iff.2 (headlineOf_eq_none hvalues a.histogramMaxMs)
    cases hnone.symm.trans hd
  · obtain ⟨set, hist, hheadline, hhist, -⟩ := exists_httpReqDuration hretain hvalues globals now
    rw [← Option.some.inj (hheadline.symm.trans hd)]
    exact Option.isSome_of_eq_some hhist

theorem httpReqDuration_percentile (hretain : a.retainHistograms = true)
    (hne : valuesOf "http_req_duration" xs ≠ []) {w : String} {pct : F64}
    (hpct : percentileOf w.toList = some pct) (globals : Globals) (now : ℕ) :
    ((a.recorded xs).buildResults globals now).httpReqDuration.bind (durationValue · (some w)) =
      some (percentileOfValues hdr (valuesOf "http_req_duration" xs) pct) := by
  obtain ⟨set, hist, hheadline, hhist, hvalues⟩ := exists_httpReqDuration hretain hne globals now
  have hstats : set.trendStats = LatencyHistogram.stats hist := by
    rw [MetricSet.trendStats, hhist]
    rfl
  rw [hheadline, Option.bind_some, durationValue_percentile hhist
    (congrArg HistogramStats.p50 hstats) (congrArg HistogramStats.p90 hstats)
      (congrArg HistogramStats.p95 hstats)
    (congrArg HistogramStats.p99 hstats) hpct, percentile_eq hvalues]

end

def builtIn : List String :=
  ["http_reqs", "errors", "checks", "checks.total", "http_req_failed", "data_received", "data_sent"]

def population (ref : MetricRef) (xs : List Sample) : List Sample :=
  if ref.tags = [] ∧ ref.name = "http_req_duration" then xs.filter (·.metric = "http_req_duration")
  else xs.filter (·.key.matches ref.name ref.tags)

theorem unscopedValue_eq {name : Text} (h : String.ofList name ∉ builtIn) (r : MetricsResult hdr)
    (stat : Option String) :
    unscopedValue r name stat =
      if name = "http_req_duration" then r.httpReqDuration.bind (durationValue · stat)
      else aggregateMatches r name [] stat := by
  unfold unscopedValue
  extract_lets counter
  clear_value counter
  generalize hn : String.ofList name = n at h
  split
  case h_5 =>
    have hname : name = "http_req_duration" := by rw [← hn, String.toList_ofList]
    rw [if_pos hname]
  case h_9 hduration _ _ _ =>
    rw [if_neg]
    rintro rfl
    exact hduration (hn.symm.trans String.ofList_toList)
  all_goals exact absurd (by decide) h

section

variable {a : Aggregator hdr} {xs : List Sample}

/-- A clause on a percentile compares the percentile of all samples it is about. -/
theorem metricValue_percentile (hfresh : a.Fresh) (hroom : seriesCount xs ≤ a.maxSeries)
    {stats : List String} {thresholds : IndexMap String ThresholdConfig}
    {t : String × ThresholdConfig} (ht : t ∈ thresholds.entries)
    {g : List ParsedThreshold} (hg : g ∈ (ParsedThreshold.parse t.2.expression.toList).groups)
    {op : Text} {threshold : F64} {ref : MetricRef}
    (hc : ParsedThreshold.clause op threshold ref ∈ g) {stat : Text} {pct : F64}
    (hstat : ref.stat = some stat) (hpct : percentileOf stat = some pct)
    (hname : ref.tags = [] → String.ofList ref.name ∉ builtIn) {globals : Globals} {now : ℕ}
    {r : MetricsResult hdr}
    (hr : r = ((a.setSummaryConfig stats thresholds).recordAll xs).buildResults globals now)
    (hne : population ref xs ≠ [])
    (htrend : ∀ m ∈ matchedSeries r ref.name ref.tags, m.metricType = .trend) :
    (∀ m ∈ matchedSeries r ref.name ref.tags, m.histogram.isSome) ∧
      (∀ d, r.httpReqDuration = some d → d.histogram.isSome) ∧
      metricValue r ref =
        some (percentileOfValues hdr ((population ref xs).map Sample.value) pct) := by
  have hretain : (a.setSummaryConfig stats thresholds).retainHistograms = true :=
    configNeedsHistograms_of_clause ht hg hc hstat (statNeedsHistogram_of_percentileOf hpct)
  obtain ⟨w, rfl⟩ : ∃ w : String, stat = w.toList := ⟨String.ofList stat, String.toList_ofList.symm⟩
  rw [Aggregator.recordAll_eq (hfresh.setSummaryConfig stats thresholds) hroom] at hr
  subst hr
  refine ⟨isSome_histogram_of_matchedSeries hretain htrend,
    fun d => isSome_histogram_httpReqDuration hretain, ?_⟩
  rw [metricValue, hstat, Option.map_some, String.ofList_toList]
  by_cases hduration : ref.tags = [] ∧ ref.name = "http_req_duration"
  · rw [population, if_pos hduration] at hne ⊢
    rw [if_pos hduration.1, unscopedValue_eq (hname hduration.1), if_pos hduration.2]
    exact httpReqDuration_percentile hretain (mt map_eq_nil_iff.1 hne) hpct globals now
  · rw [population, if_neg hduration] at hne ⊢
    have hmatched := matchedSeries_ne_nil (a := a.setSummaryConfig stats thresholds) hne globals now
    have hvalue :
        aggregateMatches
          (((a.setSummaryConfig stats thresholds).recorded xs).buildResults globals now)
        ref.name ref.tags (some w) = some _ :=
      (aggregateMatches_percentile hpct hmatched htrend).trans
        (mergedPercentile_matchedSeries hretain htrend hmatched pct)
    split
    next htags =>
      rw [unscopedValue_eq (hname htags), if_neg fun h => hduration ⟨htags, h⟩, ← htags]
      exact hvalue
    next => exact hvalue

def soleThreshold (expression : String) : IndexMap String ThresholdConfig :=
  (∅ : IndexMap String ThresholdConfig).insert "limit" ⟨expression, false, none⟩

def stockSamples : List Sample :=
  [1, 2, 3, 9].map fun v =>
    { plainSample "stock" .trend with
      value := v, tags := .ofPairs (if v < 3 then [] else [("shelf", "top")]) }

theorem metricValue_percentile_stock :
    metricValue (((((Aggregator.new 0 : Aggregator Hdr.exact).setSummaryConfig []
        (soleThreshold "stock.p75 < 10")).recordAll stockSamples).buildResults ⟨0, 0⟩ 0))
      ⟨"stock", [], some "p75"⟩ = some 3 := by
  have hclause : (ParsedThreshold.parse "stock.p75 < 10").groups =
      [[.clause "<" (.num 10) ⟨"stock", [], some "p75"⟩]] := by
    rw [ParsedThreshold.parse, ParsedThreshold.parseFuel_of_not_hasTwice _ (by decide) (by decide),
      ParsedThreshold.ofTokens, ParsedThreshold.groups]
    congr 3
    decide +kernel
  have hvalue : percentileOfValues Hdr.exact
      ((population ⟨"stock", [], some "p75"⟩ stockSamples).map Sample.value) (.num 75) = 3 := by
    decide +kernel
  have htrend :
      ∀ m ∈ matchedSeries (((((Aggregator.new 0 : Aggregator Hdr.exact).setSummaryConfig []
      (soleThreshold "stock.p75 < 10")).recordAll stockSamples).buildResults ⟨0, 0⟩ 0)) "stock" [],
      m.metricType = .trend := by
    decide +kernel
  rw [← hvalue]
  refine (metricValue_percentile (Aggregator.fresh_new 0) (by decide +kernel) mem_cons_self
    (hclause ▸ mem_cons_self) mem_cons_self rfl (by decide +kernel) (fun _ => by decide +kernel) rfl
    (by decide +kernel) htrend).2.2

theorem evaluate_trend_checksTotal :
    let r := ((((Aggregator.new 0 : Aggregator Hdr.exact).setSummaryConfig []
      (soleThreshold "checks.total.p95 < 500")).recordAll
        [plainSample "checks.total" .trend]).buildResults ⟨0, 0⟩ 0)
    (matchedSeries r "checks.total" []).map (·.metricType) = [.trend] ∧
      (matchedSeries r "checks.total" []).all (·.histogram.isSome) = true ∧
      metricValue r ⟨"checks.total", [], some "p95"⟩ = none ∧
      evaluateSingleThresholdOpt "checks.total.p95 < 500" r = none := by
  decide +kernel

end

end Tropel
