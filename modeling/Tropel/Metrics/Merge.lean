import Tropel.Metrics.Collector

/-!
# Joining what several aggregators have recorded

The shards of one process each own some of the metrics: their results are joined field by field
(`mergeResults`).
-/

namespace Tropel

open Lib IndexMap

variable {hdr : Hdr}

def mergeHeadline (a b : Option (MetricSummary hdr)) : Option (MetricSummary hdr) :=
  match a, b with
  | none, some b => some b
  | some a, some b => if a.count < b.count then some b else some a
  | a, none => a

def mergeStep (out r : MetricsResult hdr) : MetricsResult hdr :=
  { out with
    metrics := out.metrics ++ r.metrics
    perUrl := out.perUrl ++ r.perUrl
    perGroup := out.perGroup ++ r.perGroup
    checksTotal := out.checksTotal + r.checksTotal
    checksPassed := out.checksPassed + r.checksPassed
    checksFailed := out.checksFailed + r.checksFailed
    vuInitFailures := out.vuInitFailures + r.vuInitFailures
    scriptFailures := out.scriptFailures + r.scriptFailures
    httpReqs := out.httpReqs + r.httpReqs
    httpReqDuration := mergeHeadline out.httpReqDuration r.httpReqDuration
    iterationDuration := mergeHeadline out.iterationDuration r.iterationDuration
    dataReceived := out.dataReceived + r.dataReceived
    dataSent := out.dataSent + r.dataSent
    errors := out.errors + r.errors
    seriesDropped := out.seriesDropped + r.seriesDropped
    droppedIterations := out.droppedIterations + r.droppedIterations
    httpReqFailedCount := out.httpReqFailedCount + r.httpReqFailedCount
    httpReqFailedTotal := out.httpReqFailedTotal + r.httpReqFailedTotal
    iterations := out.iterations + r.iterations
    vusMax := max out.vusMax r.vusMax
    requestedVus := max out.requestedVus r.requestedVus
    effectiveVus := max out.effectiveVus r.effectiveVus
    effectiveVusReason := out.effectiveVusReason.or r.effectiveVusReason }

def mergeResults (globals : Globals) (shards : List (MetricsResult hdr)) : MetricsResult hdr :=
  match shards with
  | [] => .default
  | [r] => r
  | first :: _ =>
    let out := shards.foldl mergeStep
      { MetricsResult.default with
        summaryTrendStats := first.summaryTrendStats
        effectiveThresholds := first.effectiveThresholds
        runDuration := (shards.map (·.runDuration)).foldl max 0 }
    { out with
      httpReqFailed :=
        if 0 < out.httpReqFailedTotal then out.httpReqFailedCount / out.httpReqFailedTotal
        else out.httpReqFailed
      outputSamplesDropped := globals.outputSamplesDropped
      aggregatorSamplesDropped := globals.aggregatorSamplesDropped }

/-! ## Snapshots -/

structure SeriesSnapshot where
  metric : String
  tags : List (String × String)
  metricType : MetricType
  histogram : Option String
  count : ℕ
  sum : ℚ
  min : ℚ
  max : ℚ
  last : ℚ
  deriving DecidableEq

structure MetricsSnapshot where
  series : List SeriesSnapshot
  totals : IndexMap String ℚ
  summaryTrendStats : List String
  thresholds : IndexMap String ThresholdConfig

variable (wire : Wire hdr)

def seriesSnapshot (key : MetricKey) (set : MetricSet hdr) : SeriesSnapshot where
  metric := key.metric
  tags := key.tags
  metricType := set.metricType
  histogram := (set.histogram.filter (0 < ·.count)).map fun h => wire.encode (wire.toBytes h)
  count := set.count
  sum := set.sum
  min := set.min
  max := set.max
  last := set.last

def escapeDebug (c : Char) : Text :=
  if c = '"' ∨ c = '\\' then ['\\', c]
  else if c = '\n' then ['\\', 'n']
  else if c = '\r' then ['\\', 'r']
  else if c = '\t' then ['\\', 't']
  else [c]

def debugTags (tags : List (String × String)) : String :=
  let quoted (s : String) := "\"" ++ String.ofList (s.toList.flatMap escapeDebug) ++ "\""
  "[" ++ ", ".intercalate (tags.map fun t => "(" ++ quoted t.1 ++ ", " ++ quoted t.2 ++ ")") ++ "]"

def decodeHistogram (s : SeriesSnapshot) : Except TropelError (Option (LatencyHistogram hdr)) :=
  let corrupt := s!"corrupt histogram in worker snapshot for '{s.metric}' tags {debugTags s.tags}: "
  match s.histogram with
  | none => .ok none
  | some b64 => match wire.decode b64 with
    | .error e => .error (.execution (corrupt ++ s!"invalid base64: {e}"))
    | .ok raw => match wire.fromBytes raw with
      | some h => .ok (some h)
      | none => .error (.execution
          (corrupt ++ s!"{wire.len raw} bytes do not deserialize as hdr-histogram V2"))

def MetricSet.absorb (set : MetricSet hdr) (s : SeriesSnapshot)
    (histogram : Option (LatencyHistogram hdr)) : MetricSet hdr :=
  { set with
    histogram := if set.metricType = .trend then set.mergeHistogram histogram else set.histogram
    count := set.count + s.count
    sum := set.sum + s.sum
    min := if s.min < set.min then s.min else set.min
    max := if set.max < s.max then s.max else set.max
    last := s.last }

def MetricSet.ofSeries (s : SeriesSnapshot) (histogram : Option (LatencyHistogram hdr))
    (histogramMaxMs : Option ℕ) : MetricSet hdr where
  metricType := s.metricType
  histogram
  histogramMaxMs
  histogramDisabled := false
  count := s.count
  sum := s.sum
  min := s.min
  max := s.max
  last := s.last

namespace Aggregator

variable (a : Aggregator hdr)

def buildSnapshot : MetricsSnapshot where
  series := a.data.entries.map fun e => seriesSnapshot wire e.1 e.2
  totals := a.totals
  summaryTrendStats := a.summaryTrendStats
  thresholds := a.effectiveThresholds

def absorbSeries (s : SeriesSnapshot) : Except TropelError (Aggregator hdr) := do
  let key := MetricKey.new s.metric (.ofPairs s.tags)
  let histogram ← decodeHistogram wire s
  match a.data.get key with
  | some existing => return { a with data := a.data.insert key (existing.absorb s histogram) }
  | none =>
    if a.maxSeries ≤ a.data.length then return { a with seriesDropped := a.seriesDropped + 1 }
    else
      return { a with data := a.data.insert key (.ofSeries s histogram a.histogramMaxMs) }

def absorbSnapshot (snap : MetricsSnapshot) : Except TropelError (Aggregator hdr) := do
  let a ← snap.series.foldlM (absorbSeries wire) a
  return { a with
    totals := snap.totals.entries.foldl (fun m e => m.upsert e.1 0 (· + e.2)) a.totals
    summaryTrendStats :=
      if a.summaryTrendStats = [] ∧ snap.summaryTrendStats ≠ [] then snap.summaryTrendStats
      else a.summaryTrendStats
    effectiveThresholds :=
      if a.effectiveThresholds.entries.isEmpty ∧
        ¬ snap.thresholds.entries.isEmpty then snap.thresholds
      else a.effectiveThresholds }

theorem exists_absorbSnapshot {wire : Wire hdr} {a b : Aggregator hdr} (snap : MetricsSnapshot)
    (h : snap.series.foldlM (absorbSeries wire) a = .ok b) :
    ∃ a', absorbSnapshot wire a snap = .ok a' ∧ a'.data = b.data ∧
      a'.seriesDropped = b.seriesDropped ∧
      a'.maxSeries = b.maxSeries ∧
      ∀ metric, a'.total metric = b.total metric + (snap.totals.get metric).getD 0 := by
  rw [absorbSnapshot, h]
  refine ⟨_, rfl, rfl, rfl, rfl, fun metric => ?_⟩
  rw [total, getD_foldl_upsert, sum_filter_entries _ fun _ v => v]
  rcases snap.totals.get metric with _ | v <;> rfl

def seriesUrl (key : MetricKey) : Option String := (key.tag "url").or (key.tag "name")

def rebuildStep (e : MetricKey × MetricSet hdr) : Aggregator hdr :=
  let headline (merged : Option (MetricSet hdr)) :=
    some ((merged.getD (.new .trend a.histogramMaxMs true)).mergeFrom e.2)
  let a :=
    if e.1.metric = "http_req_duration" then
      { a with
        mergedHttpDur := headline a.mergedHttpDur
        mergedPerUrl := match seriesUrl e.1 with
          | some url =>
            a.mergedPerUrl.upsert url (.new .trend a.histogramMaxMs true) (·.mergeFrom e.2)
          | none => a.mergedPerUrl }
    else if e.1.metric = "iteration_duration" then
      { a with mergedIterDur := headline a.mergedIterDur }
    else if e.1.metric = "http_req_failed" then
      { a with
        httpReqFailedRequests := a.httpReqFailedRequests + e.2.count
        httpReqFailedSum := a.httpReqFailedSum + e.2.sum }
    else a
  { a with
    mergedPerGroup := match e.1.tag "group" with
      | some group =>
        a.mergedPerGroup.upsert (e.1.metric, group) (.new e.2.metricType a.histogramMaxMs true)
          (·.mergeFrom e.2)
      | none => a.mergedPerGroup }

def rebuildMerged : Aggregator hdr :=
  a.data.entries.foldl rebuildStep
    { a with
      mergedHttpDur := none
      mergedIterDur := none
      mergedPerUrl := ∅
      mergedPerGroup := ∅
      httpReqFailedRequests := 0
      httpReqFailedSum := 0 }

end Aggregator

def overlayThresholds (thresholds : IndexMap String ThresholdConfig)
    (snapshots : List MetricsSnapshot) : IndexMap String ThresholdConfig :=
  snapshots.foldl (fun m snap => snap.thresholds.entries.foldl
    (fun m e => if (m.get e.1).isSome then m else m.insert e.1 e.2) m) thresholds

def controller (mergeStart : ℕ) (thresholds : IndexMap String ThresholdConfig)
    (snapshots : List MetricsSnapshot) : Aggregator hdr :=
  let stats := (snapshots.find? fun s => s.summaryTrendStats ≠ []).elim k6DefaultTrendStats
    (·.summaryTrendStats)
  (Aggregator.new mergeStart).setSummaryConfig stats (overlayThresholds thresholds snapshots)

def mergeSnapshots (globals : Globals) (snapshots : List MetricsSnapshot)
    (thresholds : IndexMap String ThresholdConfig) (testStart mergeStart now : ℕ) :
    Except TropelError (MetricsResult hdr) := do
  let a ← snapshots.foldlM (Aggregator.absorbSnapshot wire)
    (controller mergeStart thresholds snapshots)
  return { a.rebuildMerged.buildResults globals now with runDuration := now - testStart }

end Tropel
