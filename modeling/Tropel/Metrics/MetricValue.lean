import Tropel.Metrics.Collector

/-!
# The statistic a threshold names

A threshold compares a statistic of a metric, which is looked up in the results of a run
(`metricValue`).
-/

namespace Tropel

open Lib

variable {hdr : Hdr}

def metricBaseName (key : String) : Text := key.toList.takeWhile (· ≠ '{')

variable (r : MetricsResult hdr)

def MetricsResult.secs : ℚ := r.runDuration / 10 ^ 9

def MetricsResult.perSecond (amount : ℚ) : ℚ :=
  if 0 < r.secs then amount / r.secs else 0

def percentOf : F64 → ℚ
  | .num q => q
  | .inf neg => if neg then 0 else 100
  | .nan => 0

def percentileValue (m : MetricSummary hdr) (pct : F64) : ℚ :=
  match m.histogram with
  | some h => LatencyHistogram.percentile h (percentOf pct)
  | none =>
    if pct.le (.num 50) then m.p50
    else if pct.le (.num 90) then m.p90
    else if pct.le (.num 95) then m.p95
    else m.p99

def seriesSupportsPercentile (m : MetricSummary hdr) (stat : String) : Bool :=
  match stat with
  | "min" | "max" => m.metricType = .trend || m.metricType = .gauge
  | _ => m.metricType = .trend

def isPercentileStat (stat : String) : Bool :=
  ["min", "max", "p50", "median", "med", "p90", "p95", "p99"].contains stat ||
    (parsePercentile stat.toList).isSome

variable (matched : List (MetricSummary hdr))

def percentileGuardFails (stat : Option String) : Bool :=
  stat.any fun s => isPercentileStat s && !matched.all (seriesSupportsPercentile · s)

def mergedPercentile (pct : F64) : Option ℚ :=
  if !matched.isEmpty && matched.all fun m => m.metricType = .trend && m.histogram.isSome then
    some (LatencyHistogram.percentile
      ((matched.filterMap (·.histogram)).foldl LatencyHistogram.merge LatencyHistogram.new)
      (percentOf pct))
  else (matched.map (percentileValue · pct)).max?

def overallMean : ℚ :=
  let count : ℚ := (matched.map fun m => (m.count : ℚ)).sum
  if 0 < count then (matched.map (·.sum)).sum / count else 0

def meanOrRate : ℚ :=
  if matched.all fun m => m.metricType = .counter then
    r.perSecond (matched.map fun m => (m.count : ℚ)).sum
  else overallMean matched

def matchedSeries (name : Text) (tagFilters : List (Text × Text)) : List (MetricSummary hdr) :=
  r.metrics.filter fun m => metricBaseName m.key = name &&
    tagFilters.all fun f => m.tags.any fun t => t.1.toList = f.1 && t.2.toList = f.2

def aggregateMatches (name : Text) (tagFilters : List (Text × Text))
    (stat : Option String) : Option ℚ :=
  let matched := matchedSeries r name tagFilters
  if matched = [] then none
  else if percentileGuardFails matched stat then none
  else match stat with
    | some "avg" => some (meanOrRate r matched)
    | some "min" => some ((matched.map (·.min)).foldl min F64.maxFinite)
    | some "max" => (matched.map (·.max)).max?
    | some "p50" | some "median" | some "med" => mergedPercentile matched (.num 50)
    | some "p90" => mergedPercentile matched (.num 90)
    | some "p95" => mergedPercentile matched (.num 95)
    | some "p99" => mergedPercentile matched (.num 99)
    | some s => match parsePercentile s.toList with
      | some pct => mergedPercentile matched pct
      | none => match s with
        | "count" => some (matched.map fun m => (m.count : ℚ)).sum
        | "rate" => some (meanOrRate r matched)
        | "sum" => some (matched.map (·.sum)).sum
        | "value" | "last" =>
          if matched.all fun m => m.metricType = .trend || m.metricType = .gauge then
            (matched.map (·.last)).max?
          else none
        | _ => none
    | none => (matched.map (·.mean)).max?

def durationValue (d : MetricSummary hdr) (stat : Option String) : Option ℚ :=
  match stat with
  | none | some "avg" => some d.mean
  | some "min" => some d.min
  | some "max" => some d.max
  | some "p50" | some "median" | some "med" => some d.p50
  | some "p90" => some d.p90
  | some "p95" => some d.p95
  | some "p99" => some d.p99
  | some "count" => some d.count
  | some "value" | some "last" => some d.last
  | some "sum" => some d.sum
  | some "rate" => some (if 0 < d.count then d.sum / d.count else 0)
  | some s => (parsePercentile s.toList).map (percentileValue d)

def unscopedValue (name : Text) (stat : Option String) : Option ℚ :=
  let counter (total : ℚ) := match stat with
    | some "rate" | some "avg" => some (r.perSecond total)
    | some "count" | none => some total
    | _ => none
  match String.ofList name with
  | "http_reqs" => counter r.httpReqs
  | "errors" => match aggregateMatches r name [] stat with
    | some v => some v
    | none => counter r.errors
  | "checks" | "checks.total" => match stat with
    | some "passed" => some r.checksPassed
    | some "failed" => some r.checksFailed
    | some "rate" | some "pass_rate" =>
      some (if 0 < r.checksTotal then r.checksPassed / r.checksTotal else 0)
    | none | some "count" => some r.checksTotal
    | some _ => none
  | "http_req_duration" => r.httpReqDuration.bind (durationValue · stat)
  | "http_req_failed" => match stat with
    | none | some "rate" | some "avg" | some "value" | some "last" => some r.httpReqFailed
    | _ => none
  | "data_received" => match stat with
    | some "sum" => some r.dataReceived
    | _ => counter r.dataReceived
  | "data_sent" => match stat with
    | some "sum" => some r.dataSent
    | _ => counter r.dataSent
  | _ => aggregateMatches r name [] stat

def metricValue (ref : MetricRef) : Option ℚ :=
  let stat := ref.stat.map String.ofList
  if ref.tags = [] then unscopedValue r ref.name stat
  else aggregateMatches r ref.name ref.tags stat

end Tropel
