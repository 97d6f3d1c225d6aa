import Mathlib.Data.String.Basic
import Tropel.Core.Segment
import Tropel.Lib.IndexMap
import Tropel.Metrics.Histogram
import Tropel.Metrics.MetricRef

/-!
# The metrics aggregator

Samples are grouped into *series*, by metric and tags.
-/

namespace Tropel

open Lib Prod

/-! ## Samples and series -/

inductive MetricType
  | counter | gauge | rate | trend
  deriving DecidableEq, Repr

inductive SampleType
  | counter | point | rate | trend
  deriving DecidableEq, Repr

def SampleType.metricType : SampleType → MetricType
  | counter => .counter
  | point => .gauge
  | rate => .rate
  | trend => .trend

theorem SampleType.eq_trend_of_metricType_eq {t : SampleType} (h : t.metricType = .trend) :
    t = .trend := by
  cases t <;> first | rfl | cases h

def insertTag (k v : String) : List (String × String) → List (String × String)
  | [] => [(k, v)]
  | e :: l => if k < e.1 then (k, v) :: e :: l else if e.1 = k then (k,
      v) :: l else e :: insertTag k v l

theorem mem_insertTag {k v : String} {e : String × String} {l : List (String × String)}
    (h : e ∈ insertTag k v l) : e.1 = k ∨ e ∈ l := by
  induction l with
  | nil => exact .inl (congrArg fst (List.mem_singleton.1 h))
  | cons d l ih =>
    rw [insertTag] at h
    split_ifs at h
    · exact (List.mem_cons.1 h).imp (congrArg fst) id
    · exact (List.mem_cons.1 h).imp (congrArg fst) (List.mem_cons_of_mem _)
    · rcases List.mem_cons.1 h with rfl | h
      · exact .inr List.mem_cons_self
      · exact (ih h).imp_right (List.mem_cons_of_mem _)

theorem pairwise_insertTag {k v : String} {l : List (String × String)}
    (h : l.Pairwise fun d e => d.1 < e.1) : (insertTag k v l).Pairwise fun d e => d.1 < e.1 := by
  induction l with
  | nil => exact List.pairwise_singleton _ _
  | cons d l ih =>
    rw [List.pairwise_cons] at h
    rw [insertTag]
    split_ifs with h₁ h₂
    · refine List.pairwise_cons.2 ⟨fun e he => ?_, List.pairwise_cons.2 h⟩
      rcases List.mem_cons.1 he with rfl | he
      · exact h₁
      · exact h₁.trans (h.1 e he)
    · exact List.pairwise_cons.2 ⟨fun e he => h₂ ▸ h.1 e he, h.2⟩
    · refine List.pairwise_cons.2 ⟨fun e he => ?_, ih h.2⟩
      rcases mem_insertTag he with he | he
      · exact he ▸ lt_of_le_of_ne (not_lt.1 h₁) h₂
      · exact h.1 e he

structure TagMap where
  entries : List (String × String)
  sorted : entries.Pairwise fun d e => d.1 < e.1
  deriving DecidableEq

namespace TagMap

def insert (t : TagMap) (k v : String) : TagMap :=
  ⟨insertTag k v t.entries, pairwise_insertTag t.sorted⟩

def get (t : TagMap) (k : String) : Option String := IndexMap.find k t.entries

def ofPairs (l : List (String × String)) : TagMap :=
  l.foldl (fun t p => t.insert p.1 p.2) ⟨[], List.Pairwise.nil⟩

end TagMap

structure MetricKey where
  metric : String
  tags : List (String × String)
  deriving DecidableEq

def MetricKey.new (metric : String) (tags : TagMap) : MetricKey := ⟨metric, tags.entries⟩

def MetricKey.toKeyString (key : MetricKey) : String :=
  if key.tags = [] then key.metric
  else
    key.metric ++ "\x7b" ++ ",".intercalate (key.tags.map fun t => t.1 ++ "=" ++ t.2) ++ "\x7d"

def MetricKey.tag (key : MetricKey) (k : String) : Option String := IndexMap.find k key.tags

structure Sample where
  metric : String
  tags : TagMap
  value : ℚ
  sampleType : SampleType
  deriving DecidableEq

namespace Sample

def key (s : Sample) : MetricKey := .new s.metric s.tags

def url (s : Sample) : Option String := (s.tags.get "url").or (s.tags.get "name")

def durationUrl (s : Sample) : Option String :=
  if s.metric = "http_req_duration" then s.url else none

def groupKey (s : Sample) : Option (String × String) := (s.tags.get "group").map fun g =>
    (s.metric, g)

end Sample

/-! ## Sets -/

variable {hdr : Hdr}

structure MetricSet (hdr : Hdr) where
  metricType : MetricType
  histogram : Option (LatencyHistogram hdr)
  histogramMaxMs : Option ℕ
  histogramDisabled : Bool
  count : ℕ
  sum : ℚ
  min : ℚ
  max : ℚ
  last : ℚ

variable (set : MetricSet hdr)

namespace MetricSet

def new (metricType : MetricType) (histogramMaxMs : Option ℕ)
    (allowHistogram : Bool) : MetricSet hdr where
  metricType
  histogram := none
  histogramMaxMs
  histogramDisabled := !allowHistogram
  count := 0
  sum := 0
  min := F64.maxFinite
  max := -F64.maxFinite
  last := 0

def record (value : ℚ) : MetricSet hdr :=
  let set := { set with count := set.count + 1, sum := set.sum + value }
  match set.metricType with
  | .counter | .rate => set
  | .gauge =>
    { set with
      min := if value < set.min then value else set.min
      max := if set.max < value then value else set.max
      last := value }
  | .trend =>
    { set with
      histogram :=
        if set.histogramDisabled then set.histogram
        else
          some (LatencyHistogram.recordMs
            (set.histogram.getD (LatencyHistogram.withMax set.histogramMaxMs)) (Max.max value 0))
      min := if value < set.min then value else set.min
      max := if set.max < value then value else set.max
      last := value }

def trendStats : HistogramStats :=
  (set.histogram.map LatencyHistogram.stats).getD ⟨0, 0, 0, 0⟩

def mergeHistogram (other : Option (LatencyHistogram hdr)) : Option (LatencyHistogram hdr) :=
  match other with
  | some h => some ((set.histogram.getD (LatencyHistogram.withMax set.histogramMaxMs)).merge h)
  | none => set.histogram

def mergeFrom (set other : MetricSet hdr) : MetricSet hdr :=
  let extremes := set.metricType = .gauge ∨ set.metricType = .trend
  { set with
    count := set.count + other.count
    sum := set.sum + other.sum
    histogram := if set.metricType = .trend then set.mergeHistogram other.histogram
      else set.histogram
    min := if extremes ∧ other.min < set.min then other.min else set.min
    max := if extremes ∧ set.max < other.max then other.max else set.max
    last := if extremes then other.last else set.last }

def mean : ℚ := if 0 < set.count then set.sum / set.count else 0

end MetricSet

/-! ## The aggregator -/

def maxSeries : ℕ := 100000

def maxHistogramBytes : ℕ := 512 * 1024 * 1024

def k6DefaultTrendStats : List String := ["avg", "min", "med", "max", "p(90)", "p(95)", "p(99)"]

structure Aggregator (hdr : Hdr) where
  data : IndexMap MetricKey (MetricSet hdr)
  totals : IndexMap String ℚ
  summaryTrendStats : List String
  effectiveThresholds : IndexMap String ThresholdConfig
  histogramMaxMs : Option ℕ
  retainHistograms : Bool
  maxSeries : ℕ
  histogramBytesUsed : ℕ
  started : ℕ
  mergedHttpDur : Option (MetricSet hdr)
  mergedIterDur : Option (MetricSet hdr)
  mergedPerUrl : IndexMap String (MetricSet hdr)
  mergedPerGroup : IndexMap (String × String) (MetricSet hdr)
  seriesDropped : ℕ
  httpReqFailedRequests : ℕ
  httpReqFailedSum : ℚ

variable (a : Aggregator hdr)

namespace Aggregator

def new (now : ℕ) : Aggregator hdr where
  data := ∅
  totals := ∅
  summaryTrendStats := k6DefaultTrendStats
  effectiveThresholds := ∅
  histogramMaxMs := none
  retainHistograms := false
  maxSeries := Tropel.maxSeries
  histogramBytesUsed := 0
  started := now
  mergedHttpDur := none
  mergedIterDur := none
  mergedPerUrl := ∅
  mergedPerGroup := ∅
  seriesDropped := 0
  httpReqFailedRequests := 0
  httpReqFailedSum := 0

def setSummaryConfig (summaryTrendStats : List String)
    (effectiveThresholds : IndexMap String ThresholdConfig) : Aggregator hdr :=
  { a with
    retainHistograms := configNeedsHistograms summaryTrendStats effectiveThresholds.entries
    summaryTrendStats, effectiveThresholds }

def recordHeadline (merged : Option (MetricSet hdr)) (s : Sample) : Option (MetricSet hdr) :=
  some ((merged.getD (.new .trend a.histogramMaxMs true)).record s.value)

def recordHeadlineAccumulators (s : Sample) : Aggregator hdr :=
  if s.metric = "http_req_duration" then
    { a with mergedHttpDur := a.recordHeadline a.mergedHttpDur s }
  else if s.metric = "iteration_duration" then
    { a with mergedIterDur := a.recordHeadline a.mergedIterDur s }
  else a

def recordMerged (s : Sample) : Aggregator hdr :=
  let a := a.recordHeadlineAccumulators s
  { a with
    mergedPerUrl := match s.durationUrl with
      | some url => a.mergedPerUrl.upsert url (.new .trend a.histogramMaxMs true) (·.record s.value)
      | none => a.mergedPerUrl
    mergedPerGroup := match s.groupKey with
      | some k =>
        a.mergedPerGroup.upsert k (.new s.sampleType.metricType a.histogramMaxMs true)
          (·.record s.value)
      | none => a.mergedPerGroup }

def recordTotals (s : Sample) : Aggregator hdr :=
  { a with
    totals := a.totals.upsert s.metric 0 (· + s.value)
    httpReqFailedRequests :=
      a.httpReqFailedRequests + if s.metric = "http_req_failed" then 1 else 0
    httpReqFailedSum := a.httpReqFailedSum + if s.metric = "http_req_failed" then s.value else 0 }

def record (s : Sample) : Aggregator hdr :=
  let a := a.recordTotals s
  match a.data.get s.key with
  | some set => ({ a with data := a.data.insert s.key (set.record s.value) }).recordMerged s
  | none =>
    if a.maxSeries ≤ a.data.length then
      ({ a with seriesDropped := a.seriesDropped + 1 }).recordHeadlineAccumulators s
    else
      let allowHistogram : Bool := a.histogramBytesUsed < maxHistogramBytes
      let warned := !allowHistogram ∧ s.sampleType.metricType = .trend ∧
        a.histogramBytesUsed = maxHistogramBytes
      let set := MetricSet.new s.sampleType.metricType a.histogramMaxMs allowHistogram
      ({ a with
        data := a.data.insert s.key (set.record s.value)
        histogramBytesUsed := if warned then a.histogramBytesUsed + 1 else a.histogramBytesUsed }
        ).recordMerged s

def recordAll (samples : List Sample) : Aggregator hdr := samples.foldl record a

end Aggregator

/-! ## Results -/

structure MetricSummary (hdr : Hdr) where
  key : String
  tags : List (String × String)
  metricType : MetricType
  count : ℕ
  sum : ℚ
  mean : ℚ
  min : ℚ
  max : ℚ
  p50 : ℚ
  p90 : ℚ
  p95 : ℚ
  p99 : ℚ
  last : ℚ
  rate : ℚ
  histogram : Option (LatencyHistogram hdr)

def trendSummary (key : String) (tags : List (String × String)) (set : MetricSet hdr)
    (retainHistograms : Bool) : MetricSummary hdr where
  key
  tags
  metricType := .trend
  count := set.count
  sum := set.sum
  mean := set.mean
  min := if set.min = F64.maxFinite then 0 else set.min
  max := if set.max = -F64.maxFinite then 0 else set.max
  p50 := set.trendStats.p50
  p90 := set.trendStats.p90
  p95 := set.trendStats.p95
  p99 := set.trendStats.p99
  last := set.last
  rate := 0
  histogram := if retainHistograms then set.histogram else none

def summary (key : String) (tags : List (String × String)) (set : MetricSet hdr)
    (retainHistograms : Bool) : MetricSummary hdr :=
  let plain : MetricSummary hdr :=
    { key, tags, metricType := set.metricType, count := set.count, sum := set.sum,
      mean := set.mean, min := 0, max := 0, p50 := 0, p90 := 0, p95 := 0, p99 := 0, last := 0,
      rate := 0, histogram := none }
  match set.metricType with
  | .counter => { plain with count := asU64 set.sum }
  | .rate => { plain with rate := set.mean }
  | .gauge =>
    { plain with
      min := if set.min = F64.maxFinite then 0 else set.min
      max := if set.max = -F64.maxFinite then 0 else set.max
      last := set.last }
  | .trend => trendSummary key tags set retainHistograms

@[ext]
structure MetricsResult (hdr : Hdr) where
  metrics : List (MetricSummary hdr)
  perUrl : List (MetricSummary hdr)
  perGroup : List (MetricSummary hdr)
  checksTotal : ℕ
  checksPassed : ℕ
  checksFailed : ℕ
  vuInitFailures : ℕ
  scriptFailures : ℕ
  httpReqs : ℕ
  httpReqDuration : Option (MetricSummary hdr)
  iterationDuration : Option (MetricSummary hdr)
  dataReceived : ℚ
  dataSent : ℚ
  errors : ℕ
  seriesDropped : ℕ
  outputSamplesDropped : ℕ
  aggregatorSamplesDropped : ℕ
  droppedIterations : ℕ
  httpReqFailed : ℚ
  httpReqFailedCount : ℚ
  httpReqFailedTotal : ℚ
  iterations : ℕ
  vusMax : ℕ
  requestedVus : ℕ
  effectiveVus : ℕ
  effectiveVusReason : Option String
  runDuration : ℕ
  summaryTrendStats : List String
  effectiveThresholds : IndexMap String ThresholdConfig

namespace MetricsResult

def default : MetricsResult hdr where
  metrics := []
  perUrl := []
  perGroup := []
  checksTotal := 0
  checksPassed := 0
  checksFailed := 0
  vuInitFailures := 0
  scriptFailures := 0
  httpReqs := 0
  httpReqDuration := none
  iterationDuration := none
  dataReceived := 0
  dataSent := 0
  errors := 0
  seriesDropped := 0
  outputSamplesDropped := 0
  aggregatorSamplesDropped := 0
  droppedIterations := 0
  httpReqFailed := 0
  httpReqFailedCount := 0
  httpReqFailedTotal := 0
  iterations := 0
  vusMax := 0
  requestedVus := 0
  effectiveVus := 0
  effectiveVusReason := none
  runDuration := 0
  summaryTrendStats := k6DefaultTrendStats
  effectiveThresholds := ∅

def isUnverified (r : MetricsResult hdr) : Bool :=
  0 < r.droppedIterations || 0 < r.seriesDropped || 0 < r.outputSamplesDropped ||
    0 < r.aggregatorSamplesDropped

def runFailed (r : MetricsResult hdr) : Bool :=
  0 < r.checksFailed || 0 < r.scriptFailures || 0 < r.vuInitFailures

end MetricsResult

structure Globals where
  outputSamplesDropped : ℕ
  aggregatorSamplesDropped : ℕ
  deriving DecidableEq

namespace Aggregator

def sumOver {M : Type} [Add M] [Zero M] (a : Aggregator hdr) (metric : String)
    (f : MetricSet hdr → M) : M :=
  (a.data.entries.map fun e => if e.1.metric = metric then f e.2 else 0).sum

def total (metric : String) : ℚ := (a.totals.get metric).getD 0

def observedVus : ℕ :=
  if set.metricType = .gauge ∧ set.max ≠ -F64.maxFinite then asU64 set.max
  else asU64 (Max.max (set.count : ℚ) set.sum)

def failedChecks : ℕ := if set.sum < set.count then asU64 (set.count - set.sum) else 0

def ordered {κ σ : Type} (le : κ → κ → Prop) [DecidableRel le] (m : IndexMap κ σ) : List (κ × σ) :=
  m.entries.insertionSort fun d e => le d.1 e.1

def pairLe (a b : String × String) : Prop := a.1 < b.1 ∨ (a.1 = b.1 ∧ a.2 ≤ b.2)

instance : DecidableRel pairLe := fun _ _ => inferInstanceAs (Decidable (_ ∨ _))

def buildResults (globals : Globals) (now : ℕ) : MetricsResult hdr where
  metrics := a.data.entries.map fun e => summary e.1.toKeyString e.1.tags e.2 a.retainHistograms
  perUrl := (ordered (· ≤ ·) a.mergedPerUrl).map fun e =>
    trendSummary ("http_req_duration\x7burl=" ++ e.1 ++ "\x7d")
      [("url", e.1)] e.2 a.retainHistograms
  perGroup := (ordered pairLe a.mergedPerGroup).map fun e =>
    summary (e.1.1 ++ "\x7bgroup=" ++ e.1.2 ++ "\x7d") [("group", e.1.2)] e.2 a.retainHistograms
  checksTotal := a.sumOver "checks" (·.count)
  checksPassed := a.sumOver "checks" (asU64 ·.sum)
  checksFailed := a.sumOver "checks" failedChecks
  vuInitFailures := 0
  scriptFailures := 0
  httpReqs := Max.max (a.sumOver "http_reqs" (asU64 ·.sum)) (asU64 (a.total "http_reqs"))
  httpReqDuration := a.mergedHttpDur.map fun set =>
    trendSummary "http_req_duration" [] set a.retainHistograms
  iterationDuration := a.mergedIterDur.map fun set =>
    trendSummary "iteration_duration" [] set a.retainHistograms
  dataReceived := Max.max (a.sumOver "data_received" (·.sum)) (a.total "data_received")
  dataSent := Max.max (a.sumOver "data_sent" (·.sum)) (a.total "data_sent")
  errors := Max.max (a.sumOver "errors" (asU64 ·.sum)) (asU64 (a.total "errors"))
  seriesDropped := a.seriesDropped
  outputSamplesDropped := globals.outputSamplesDropped
  aggregatorSamplesDropped := globals.aggregatorSamplesDropped
  droppedIterations := asU64 (a.total "dropped_iterations")
  httpReqFailed :=
    if 0 < a.httpReqFailedRequests then a.httpReqFailedSum / a.httpReqFailedRequests else 0
  httpReqFailedCount := a.httpReqFailedSum
  httpReqFailedTotal := a.httpReqFailedRequests
  iterations := a.sumOver "iterations" (asU64 ·.sum)
  vusMax := (a.data.entries.map fun e => if e.1.metric =
    "vus" then observedVus e.2 else 0).foldl Max.max 0
  requestedVus := 0
  effectiveVus := 0
  effectiveVusReason := none
  runDuration := now - a.started
  summaryTrendStats := a.summaryTrendStats
  effectiveThresholds := a.effectiveThresholds

end Aggregator

end Tropel
