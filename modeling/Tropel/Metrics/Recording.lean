import Tropel.Metrics.Collector

/-!
# What an aggregator has recorded

Recording a list of samples groups it in several ways at once: by series, by metric, by URL and by
group.
-/

namespace Tropel

open Lib List Option IndexMap

variable {hdr : Hdr}

def seriesCount (samples : List Sample) : ℕ := (samples.map Sample.key).dedup.length

variable (maxMs : Option ℕ) (metric : String)

namespace Sample

def recordInto (s : Sample) (set : MetricSet hdr) : MetricSet hdr := set.record s.value

def newSet (s : Sample) : MetricSet hdr := .new s.sampleType.metricType maxMs true

def headlineKey (s : Sample) : Option Unit := if s.metric = metric then some () else none

end Sample

/-! ## The groups of a list of samples -/

variable (xs : List Sample)

def dataOf : IndexMap MetricKey (MetricSet hdr) :=
  .collectAll (fun s => some s.key) (Sample.newSet maxMs) Sample.recordInto xs

def totalsOf : IndexMap String ℚ :=
  .collectAll (fun s => some s.metric) (fun _ => 0) (fun s t => t + s.value) xs

def headlineOf (maxMs : Option ℕ) (xs : List Sample) : IndexMap Unit (MetricSet hdr) :=
  .collectAll (Sample.headlineKey metric) (fun _ => .new .trend maxMs true) Sample.recordInto xs

def perUrlOf : IndexMap String (MetricSet hdr) :=
  .collectAll Sample.durationUrl (fun _ => .new .trend maxMs true) Sample.recordInto xs

def perGroupOf : IndexMap (String × String) (MetricSet hdr) :=
  .collectAll Sample.groupKey (Sample.newSet maxMs) Sample.recordInto xs

def valuesOf (xs : List Sample) : List ℚ :=
  (xs.filter (·.metric = metric)).map Sample.value

theorem valuesOf_append (xs ys : List Sample) :
    valuesOf metric (xs ++ ys) = valuesOf metric xs ++ valuesOf metric ys := by
  rw [valuesOf, filter_append, map_append]
  rfl

theorem valuesOf_append_singleton (xs : List Sample) (s : Sample) :
    valuesOf metric (xs ++ [s]) = valuesOf metric xs ++ if s.metric = metric then [s.value]
      else [] := by
  rw [valuesOf, valuesOf, filter_append, map_append]
  by_cases h : s.metric = metric <;> simp [h]

theorem length_dataOf :
    (dataOf maxMs xs : IndexMap MetricKey (MetricSet hdr)).length = seriesCount xs := by
  rw [dataOf, length_collectAll, seriesCount, ← filterMap_eq_map]
  rfl

theorem dataOf_append_singleton (s : Sample) :
    (dataOf maxMs (xs ++ [s]) : IndexMap MetricKey (MetricSet hdr)) =
      (dataOf maxMs xs).insert s.key
        ((((dataOf maxMs xs).get s.key).getD (s.newSet maxMs)).record s.value) :=
  collectAll_append_singleton xs s

/-! ## What is admitted -/

def admitted (cap : ℕ) (xs : List Sample) : List MetricKey := IndexMap.kept cap (xs.map Sample.key)

def admittedSamples (cap : ℕ) (xs : List Sample) : List Sample :=
  xs.filter fun s => s.key ∈ admitted cap xs

section

variable {cap : ℕ} {xs : List Sample} {s : Sample}

theorem admitted_append_singleton (cap : ℕ) (xs : List Sample) (s : Sample) :
    admitted cap (xs ++ [s]) = IndexMap.keep cap (admitted cap xs) s.key := by
  rw [admitted, map_append]
  exact kept_append_singleton _ _ _

theorem admitted_eq_of_mem (h : s.key ∈ admitted cap xs) :
    admitted cap (xs ++ [s]) = admitted cap xs := by
  rw [admitted_append_singleton, keep, if_pos (.inl h)]

theorem admitted_eq_of_full (h : cap ≤ (admitted cap xs).length) :
    admitted cap (xs ++ [s]) = admitted cap xs := by
  rw [admitted_append_singleton, keep, if_pos (.inr h)]

theorem admitted_eq_of_room (h : s.key ∉ admitted cap xs) (hroom : (admitted cap xs).length < cap) :
    admitted cap (xs ++ [s]) = admitted cap xs ++ [s.key] := by
  rw [admitted_append_singleton, keep, if_neg (not_or.2 ⟨h, Nat.not_le.2 hroom⟩)]

theorem mem_admitted_append_iff {x : Sample} (hx : x ∈ xs) :
    x.key ∈ admitted cap (xs ++ [s]) ↔ x.key ∈ admitted cap xs := by
  refine ⟨fun h => ?_, fun h => ?_⟩
  · by_cases hroom : (admitted cap xs).length < cap
    · exact mem_kept_of_length_lt hroom _ (mem_map_of_mem hx)
    · rwa [admitted_eq_of_full (Nat.le_of_not_lt hroom)] at h
  · rw [admitted_append_singleton]
    exact mem_keep_of_mem h

theorem admittedSamples_append_singleton (cap : ℕ) (xs : List Sample) (s : Sample) :
    admittedSamples cap (xs ++ [s]) =
      admittedSamples cap xs ++ if s.key ∈ admitted cap (xs ++ [s]) then [s] else [] := by
  rw [admittedSamples, filter_append, admittedSamples]
  congr 1
  · exact filter_congr fun x hx => decide_eq_decide.2 (mem_admitted_append_iff hx)
  · by_cases h : s.key ∈ admitted cap (xs ++ [s]) <;> simp [h]

theorem keys_dataOf_admittedSamples (cap : ℕ) (xs : List Sample) :
    (dataOf maxMs (admittedSamples cap xs) : IndexMap MetricKey (MetricSet hdr)).entries.map
      Prod.fst =
      admitted cap xs := by
  induction xs using List.reverseRecOn with
  | nil => rfl
  | append_singleton xs s ih =>
    rw [admittedSamples_append_singleton]
    by_cases hmem : s.key ∈ admitted cap xs
    · rw [admitted_eq_of_mem hmem, if_pos hmem, dataOf_append_singleton, keys_insert, ih,
        if_pos hmem]
    · by_cases hroom : (admitted cap xs).length < cap
      · have hnew := admitted_eq_of_room hmem hroom
        rw [hnew, if_pos (mem_append_right _ mem_cons_self), dataOf_append_singleton,
          keys_insert, ih, if_neg hmem]
      · rw [admitted_eq_of_full (Nat.le_of_not_lt hroom), if_neg hmem, append_nil, ih]

theorem isSome_get_dataOf_admittedSamples {k : MetricKey} :
    ((dataOf maxMs (admittedSamples cap xs) : IndexMap MetricKey (MetricSet hdr)).get k).isSome ↔
      k ∈ admitted cap xs := by
  rw [← mem_keys_iff, keys_dataOf_admittedSamples]

theorem admittedSamples_eq_self (h : seriesCount xs ≤ cap) : admittedSamples cap xs = xs :=
  filter_eq_self.2 fun _ hx =>
    decide_eq_true (mem_kept_of_length_dedup_le h (mem_map_of_mem hx))

end

namespace Aggregator

structure Fresh (a : Aggregator hdr) : Prop where
  data : a.data = ∅
  totals : a.totals = ∅
  histogramBytesUsed : a.histogramBytesUsed = 0
  mergedHttpDur : a.mergedHttpDur = none
  mergedIterDur : a.mergedIterDur = none
  mergedPerUrl : a.mergedPerUrl = ∅
  mergedPerGroup : a.mergedPerGroup = ∅
  seriesDropped : a.seriesDropped = 0
  httpReqFailedRequests : a.httpReqFailedRequests = 0
  httpReqFailedSum : a.httpReqFailedSum = 0

theorem fresh_new (now : ℕ) : (new now : Aggregator hdr).Fresh :=
  ⟨rfl, rfl, rfl, rfl, rfl, rfl, rfl, rfl, rfl, rfl⟩

theorem Fresh.setSummaryConfig {a : Aggregator hdr} (h : a.Fresh) (stats : List String)
    (thresholds : IndexMap String ThresholdConfig) : (a.setSummaryConfig stats thresholds).Fresh :=
  ⟨h.data, h.totals, h.histogramBytesUsed, h.mergedHttpDur, h.mergedIterDur, h.mergedPerUrl,
    h.mergedPerGroup, h.seriesDropped, h.httpReqFailedRequests, h.httpReqFailedSum⟩

def recorded (a : Aggregator hdr) (xs : List Sample) : Aggregator hdr :=
  { a with
    data := dataOf a.histogramMaxMs xs
    totals := totalsOf xs
    histogramBytesUsed := 0
    mergedHttpDur := (headlineOf "http_req_duration" a.histogramMaxMs xs).get ()
    mergedIterDur := (headlineOf "iteration_duration" a.histogramMaxMs xs).get ()
    mergedPerUrl := perUrlOf a.histogramMaxMs xs
    mergedPerGroup := perGroupOf a.histogramMaxMs xs
    seriesDropped := 0
    httpReqFailedRequests := (valuesOf "http_req_failed" xs).length
    httpReqFailedSum := (valuesOf "http_req_failed" xs).sum }

def capped (a : Aggregator hdr) (xs : List Sample) : Aggregator hdr :=
  { a.recorded xs with
    data := dataOf a.histogramMaxMs (admittedSamples a.maxSeries xs)
    mergedPerUrl := perUrlOf a.histogramMaxMs (admittedSamples a.maxSeries xs)
    mergedPerGroup := perGroupOf a.histogramMaxMs (admittedSamples a.maxSeries xs)
    seriesDropped := xs.length - (admittedSamples a.maxSeries xs).length }

variable {a : Aggregator hdr} {xs : List Sample} {s : Sample}

theorem recorded_nil (h : a.Fresh) : a.recorded [] = a := by
  obtain ⟨h₁, h₂, h₃, h₄, h₅, h₆, h₇, h₈, h₉, h₁₀⟩ := h
  cases a
  subst h₁ h₂ h₃ h₄ h₅ h₆ h₇ h₈ h₉ h₁₀
  rfl

/-! ## One more sample -/

theorem headlineOf_append_singleton (maxMs : Option ℕ) (xs : List Sample) (s : Sample) :
    (headlineOf metric maxMs (xs ++ [s]) : IndexMap Unit (MetricSet hdr)).get () =
      if s.metric = metric then
        some ((((headlineOf metric maxMs xs).get ()).getD (.new .trend maxMs true)).record s.value)
      else (headlineOf metric maxMs xs).get () := by
  rw [headlineOf, collectAll_append_singleton, get_collect, Sample.headlineKey]
  by_cases h : s.metric = metric
  · rw [if_pos h, if_pos rfl, if_pos h]
    rfl
  · rw [if_neg h, if_neg nofun, if_neg h]
    rfl

theorem recordHeadlineAccumulators_eq (b : Aggregator hdr) (xs : List Sample)
    (h₁ : b.mergedHttpDur = (headlineOf "http_req_duration" b.histogramMaxMs xs).get ())
    (h₂ : b.mergedIterDur = (headlineOf "iteration_duration" b.histogramMaxMs xs).get ()) :
    b.recordHeadlineAccumulators s =
      { b with
        mergedHttpDur := (headlineOf "http_req_duration" b.histogramMaxMs (xs ++ [s])).get ()
        mergedIterDur :=
          (headlineOf "iteration_duration" b.histogramMaxMs (xs ++ [s])).get () } := by
  rw [recordHeadlineAccumulators, headlineOf_append_singleton, headlineOf_append_singleton,
    ← h₁, ← h₂]
  by_cases hm : s.metric = "http_req_duration"
  · rw [if_pos hm, if_pos hm, if_neg (by rw [hm]; decide)]
    rfl
  · rw [if_neg hm, if_neg hm]
    split
    · rfl
    · rfl

theorem recordMerged_eq (b : Aggregator hdr) (xs ys : List Sample)
    (h₁ : b.mergedHttpDur = (headlineOf "http_req_duration" b.histogramMaxMs xs).get ())
    (h₂ : b.mergedIterDur = (headlineOf "iteration_duration" b.histogramMaxMs xs).get ())
    (h₃ : b.mergedPerUrl = perUrlOf b.histogramMaxMs ys)
    (h₄ : b.mergedPerGroup = perGroupOf b.histogramMaxMs ys) :
    b.recordMerged s =
      { b with
        mergedHttpDur := (headlineOf "http_req_duration" b.histogramMaxMs (xs ++ [s])).get ()
        mergedIterDur := (headlineOf "iteration_duration" b.histogramMaxMs (xs ++ [s])).get ()
        mergedPerUrl := perUrlOf b.histogramMaxMs (ys ++ [s])
        mergedPerGroup := perGroupOf b.histogramMaxMs (ys ++ [s]) } := by
  rw [recordMerged, recordHeadlineAccumulators_eq b xs h₁ h₂, perUrlOf, perGroupOf,
    collectAll_append_singleton, collectAll_append_singleton, collect, collect,
    ← perUrlOf, ← perGroupOf, ← h₃, ← h₄]
  rcases s.durationUrl with _ | url <;> rcases s.groupKey with _ | k <;> rfl

theorem recordTotals_capped (a : Aggregator hdr) (xs : List Sample) (s : Sample) :
    (a.capped xs).recordTotals s =
      { a.capped xs with
        totals := totalsOf (xs ++ [s])
        httpReqFailedRequests := (valuesOf "http_req_failed" (xs ++ [s])).length
        httpReqFailedSum := (valuesOf "http_req_failed" (xs ++ [s])).sum } := by
  rw [recordTotals, totalsOf, IndexMap.collectAll_append_singleton, valuesOf_append_singleton,
    length_append, sum_append]
  by_cases h : s.metric = "http_req_failed" <;>
    simp [h, capped, recorded, IndexMap.collect, totalsOf]

theorem data_recordTotals_capped (a : Aggregator hdr) (xs : List Sample) (s : Sample) :
    ((a.capped xs).recordTotals s).data =
      dataOf a.histogramMaxMs (admittedSamples a.maxSeries xs) := by
  rw [recordTotals_capped]
  rfl

theorem isSome_get_recordTotals_capped :
    (((a.capped xs).recordTotals s).data.get s.key).isSome ↔ s.key ∈ admitted a.maxSeries xs := by
  rw [data_recordTotals_capped, isSome_get_dataOf_admittedSamples]

theorem maxSeries_le_length_iff :
    ((a.capped xs).recordTotals s).maxSeries ≤ ((a.capped xs).recordTotals s).data.length ↔
    a.maxSeries ≤ (admitted a.maxSeries xs).length := by
  rw [data_recordTotals_capped, IndexMap.length, ← length_map Prod.fst, keys_dataOf_admittedSamples,
    recordTotals_capped]
  rfl

theorem recordMerged_capped (h : s.key ∈ admitted a.maxSeries (xs ++ [s])) :
    ({ (a.capped xs).recordTotals s with
      data := dataOf a.histogramMaxMs (admittedSamples a.maxSeries xs ++ [s]) }).recordMerged s =
        a.capped (xs ++ [s]) := by
  have hsamples := admittedSamples_append_singleton a.maxSeries xs s
  rw [if_pos h] at hsamples
  have hdropped : xs.length - (admittedSamples a.maxSeries xs).length =
      (xs ++ [s]).length - (admittedSamples a.maxSeries xs ++ [s]).length := by
    rw [length_append, length_append, Nat.add_sub_add_right]
  rw [recordTotals_capped, recordMerged_eq _ xs (admittedSamples a.maxSeries xs) rfl rfl rfl rfl,
    capped, capped, hsamples, ← hdropped]
  rfl

theorem record_capped_of_mem (h : s.key ∈ admitted a.maxSeries xs) :
    (a.capped xs).record s = a.capped (xs ++ [s]) := by
  obtain ⟨set, hget⟩ := isSome_iff_exists.1 (isSome_get_recordTotals_capped.2 h)
  rw [← recordMerged_capped (admitted_eq_of_mem h ▸ h), dataOf_append_singleton,
    ← data_recordTotals_capped a xs s, record]
  simp only [hget, getD_some]

theorem record_capped_of_room (h : s.key ∉ admitted a.maxSeries xs)
    (hroom : (admitted a.maxSeries xs).length < a.maxSeries) :
    (a.capped xs).record s = a.capped (xs ++ [s]) := by
  have hget := not_isSome_iff_eq_none.1 (mt isSome_get_recordTotals_capped.1 h)
  have hlength := mt (maxSeries_le_length_iff (s := s)).1 (Nat.not_le.2 hroom)
  have hmem : s.key ∈ admitted a.maxSeries (xs ++ [s]) :=
    admitted_eq_of_room h hroom ▸ mem_append_right _ mem_cons_self
  have hmax : ((a.capped xs).recordTotals s).histogramMaxMs = a.histogramMaxMs := by
    rw [recordTotals_capped]
    rfl
  -- The budget of the histograms is never charged.
  have hbytes : ((a.capped xs).recordTotals s).histogramBytesUsed = 0 := by
    rw [recordTotals_capped]
    rfl
  have hbudget : decide (0 < maxHistogramBytes) = true := rfl
  rw [← recordMerged_capped hmem, dataOf_append_singleton, ← data_recordTotals_capped a xs s,
    record]
  simp only [hget, getD_none, if_neg hlength, hmax, hbytes, hbudget, Bool.not_true,
    Bool.false_eq_true, false_and, if_false, Sample.newSet]

theorem record_capped_of_full (h : s.key ∉ admitted a.maxSeries xs)
    (hfull : a.maxSeries ≤ (admitted a.maxSeries xs).length) :
    (a.capped xs).record s = a.capped (xs ++ [s]) := by
  have hget := not_isSome_iff_eq_none.1 (mt isSome_get_recordTotals_capped.1 h)
  have hsamples := admittedSamples_append_singleton a.maxSeries xs s
  rw [admitted_eq_of_full hfull, if_neg h, append_nil] at hsamples
  have hle : (admittedSamples a.maxSeries xs).length ≤ xs.length := length_filter_le _ _
  have hdropped : xs.length - (admittedSamples a.maxSeries xs).length + 1 =
      (xs ++ [s]).length - (admittedSamples a.maxSeries xs).length := by
    rw [length_append, length_singleton]
    omega
  rw [record]
  simp only [hget, if_pos (maxSeries_le_length_iff.2 hfull)]
  rw [recordTotals_capped, recordHeadlineAccumulators_eq _ xs rfl rfl, capped, capped, hsamples,
    ← hdropped]
  rfl

theorem record_capped (a : Aggregator hdr) (xs : List Sample) (s : Sample) :
    (a.capped xs).record s = a.capped (xs ++ [s]) := by
  by_cases h : s.key ∈ admitted a.maxSeries xs
  · exact record_capped_of_mem h
  · rcases Nat.lt_or_ge (admitted a.maxSeries xs).length a.maxSeries with hroom | hfull
    · exact record_capped_of_room h hroom
    · exact record_capped_of_full h hfull

theorem recordAll_eq_capped (hfresh : a.Fresh) : a.recordAll xs = a.capped xs := by
  induction xs using List.reverseRecOn with
  | nil => exact (recorded_nil hfresh).symm
  | append_singleton xs s ih =>
    rw [recordAll, foldl_append, foldl_cons, foldl_nil, ← recordAll, ih, record_capped]

theorem recordAll_eq (hfresh : a.Fresh) (hroom : seriesCount xs ≤ a.maxSeries) :
    a.recordAll xs = a.recorded xs := by
  rw [recordAll_eq_capped hfresh, capped, admittedSamples_eq_self hroom, Nat.sub_self]
  rfl

end Aggregator

end Tropel
