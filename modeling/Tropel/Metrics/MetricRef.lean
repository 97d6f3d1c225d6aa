import Tropel.Lib.F64
import Tropel.Lib.Text

/-!
# References to metrics

A threshold names a statistic of a metric as `name{tag:value,tag=value}.stat` (`parseMetricRef`).
-/

namespace Tropel

open Lib

structure ThresholdConfig where
  expression : String
  abortOnFail : Bool
  delayAbortEval : Option String
  deriving DecidableEq, Repr

def rsplitDotFrom (depth : ℤ) (after : Text) : Text → Option (Text × Text)
  | [] => none
  | c :: t =>
    if c = ')' then rsplitDotFrom (depth + 1) (c :: after) t
    else if c = '(' then rsplitDotFrom (depth - 1) (c :: after) t
    else if c = '.' ∧ depth ≤ 0 then some (t.reverse, after)
    else rsplitDotFrom depth (c :: after) t

def rfindDotOutsideParens (t : Text) : Option (Text × Text) := rsplitDotFrom 0 [] t.reverse

def parseTagFilter (pair : Text) : Option (Text × Text) :=
  let pair := trim pair
  if pair = [] then none
  else
    let eq := (pair.findIdx? (· = '=')).getD (2 ^ 64 - 1)
    let colon := (pair.findIdx? (· = ':')).getD (2 ^ 64 - 1)
    let sep := if eq ≤ colon then '=' else ':'
    (splitOnce sep pair).map fun (k, v) => (trim k, trim v)

structure MetricRef where
  name : Text
  tags : List (Text × Text)
  stat : Option Text
  deriving DecidableEq

def MetricRef.ofParts (before after : Text) (tags : List (Text × Text)) : MetricRef :=
  match rfindDotOutsideParens after with
  | some (_, stat) => ⟨before, tags, some stat⟩
  | none => match rfindDotOutsideParens before with
    | some (name, stat) => ⟨name, tags, some stat⟩
    | none => ⟨before, tags, none⟩

def parseMetricRef (t : Text) : MetricRef :=
  match splitOnce '{' t with
  | none => .ofParts t [] []
  | some (before, rest) => match splitOnce '}' rest with
    | none => .ofParts before [] []
    | some (inner, after) =>
      .ofParts before after ((inner.splitOn ',').filterMap parseTagFilter)

def parsePercentile (stat : Text) : Option F64 :=
  let s := trim stat
  if "p(".toList.isPrefixOf s ∧ s.getLast? = some ')' then parseF64 (trim (s.drop 2).dropLast)
  else (stripStart "p" s).bind parseF64

def statNeedsHistogram (stat : Text) : Bool :=
  let s := trim stat
  if ["avg", "mean", "min", "max", "count", "sum", "rate", "last"].any fun k => s = k.toList then
    false
  else if ["median", "med", "p50", "p90", "p95", "p99"].any fun k => s = k.toList then true
  else (parsePercentile s).isSome

def configNeedsHistograms (trendStats : List String)
    (thresholds : List (String × ThresholdConfig)) : Bool :=
  (trendStats.any fun s => statNeedsHistogram s.toList) ||
    thresholds.any fun t =>
      ((splitTwice '|' t.2.expression.toList).flatMap (splitTwice '&')).any fun clause =>
        trim clause ≠ [] &&
          (parseMetricRef ((splitWhitespace clause).headD [])).stat.any statNeedsHistogram

end Tropel
