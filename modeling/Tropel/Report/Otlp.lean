import Mathlib.Data.Prod.Lex
import Tropel.Metrics.Collector
import Tropel.Report.OtlpMessage

/-!
# The OTLP encoders

The samples of a flush window are exported by one of two encoders, as JSON (`buildExportRequest`) or
as protocol buffers (`buildExportRequestProtobuf`).
-/

namespace Tropel

open Lib Lib.Wire

/-! ## Samples -/

structure OtlpSample where
  value : UInt64
  tags : List (String × String)
  timestamp : ℤ
  sampleType : SampleType
  deriving DecidableEq

def nanosSinceEpoch (s : OtlpSample) : UInt64 :=
  if s.timestamp < 0 then 0 else UInt64.ofNat s.timestamp.toNat

def isCounter (samples : List OtlpSample) : Bool := samples.any fun s => s.sampleType = .counter

def tagLe (a b : String × String) : Prop := toLex a ≤ toLex b

instance : DecidableRel tagLe := fun a b => inferInstanceAs (Decidable (toLex a ≤ toLex b))

def sortTags (tags : List (String × String)) : List (String × String) := tags.insertionSort tagLe

structure SortUnstable where
  sort : List (String × String) → List (String × String)
  perm : ∀ tags, (sort tags).Perm tags
  sorted : ∀ tags, (sort tags).Pairwise tagLe

/-- The orders in which an encoder finds the entries of its hash maps: of the metrics, and
    of the sums of each metric. -/
structure HashOrder where
  metrics : List (String × List OtlpSample) → List (String × List OtlpSample)
  metrics_perm : ∀ entries, (metrics entries).Perm entries
  sums : String → List (List (String × String) × UInt64 × UInt64) →
    List (List (String × String) × UInt64 × UInt64)
  sums_perm : ∀ name entries, (sums name entries).Perm entries

def HashOrder.inserted : HashOrder := ⟨id, fun _ => .rfl, fun _ => id, fun _ _ => .rfl⟩

/-! ## Counters -/

def maxTs : UInt64 := 0xffffffffffffffff

structure CounterWindow where
  earliestTs : UInt64
  perTags : IndexMap (List (String × String)) (UInt64 × UInt64)

namespace CounterWindow

def new : CounterWindow := ⟨maxTs, ∅⟩

variable (plus : UInt64 → UInt64 → UInt64) (sort : List (String × String) → List (String × String))

def record (w : CounterWindow) (s : OtlpSample) : CounterWindow :=
  let tags := sort s.tags
  let ts := nanosSinceEpoch s
  { earliestTs := if ts < w.earliestTs then ts else w.earliestTs
    perTags := match w.perTags.get tags with
      | some (sum, _) => w.perTags.insert tags (plus sum s.value, ts)
      | none => w.perTags.insert tags (s.value, ts) }

def ofSamples (samples : List OtlpSample) : CounterWindow :=
  samples.foldl (record plus sort) new

def startOf (w : CounterWindow) (ts : UInt64) : UInt64 :=
  if w.earliestTs ≠ maxTs then w.earliestTs else ts

end CounterWindow

/-! ## JSON -/

def attributeJson (kv : String × String) : JsonValue :=
  .object [("key", .string kv.1), ("value", .object [("stringValue", .string kv.2)])]

def sumPointJson (w : CounterWindow)
    (entry : List (String × String) × UInt64 × UInt64) : JsonValue :=
  let (tags, sum, ts) := entry
  .object
    [("startTimeUnixNano", .string (toString (w.startOf ts).toNat)),
      ("timeUnixNano", .string (toString ts.toNat)), ("asDouble", .double sum),
      ("attributes", .array (tags.map attributeJson))]

def gaugePointJson (s : OtlpSample) : JsonValue :=
  let tsNanos := toString (if s.timestamp < 0 then 0 else s.timestamp.toNat)
  .object
    [("timeUnixNano", .string tsNanos), ("asDouble", .double s.value),
      ("attributes", .array (s.tags.map attributeJson))]

variable (plus : UInt64 → UInt64 → UInt64)

def metricJson (order : HashOrder) (entry : String × List OtlpSample) : JsonValue :=
  let (name, samples) := entry
  let valueField :=
    if isCounter samples then
      let w := CounterWindow.ofSamples plus sortTags samples
      ("sum", .object
        [("dataPoints", .array ((order.sums name w.perTags.entries).map (sumPointJson w))),
          ("aggregationTemporality", .natural 1), ("isMonotonic", .bool true)])
    else ("gauge", .object [("dataPoints", .array (samples.map gaugePointJson))])
  .object [("name", .string name), ("description", .string ""), ("unit", .string ""), valueField]

def buildExportRequest (order : HashOrder)
    (metrics : IndexMap String (List OtlpSample)) : JsonValue :=
  .object [("resourceMetrics", .array [.object
    [("resource", .object [("attributes", .array [attributeJson ("service.name", "tropel")])]),
      ("scopeMetrics", .array [.object
        [("scope", .object [("name", .string "tropel")]),
          ("metrics", .array ((order.metrics metrics.entries).map (metricJson plus order)))]])]])]

/-! ## Protocol buffers -/

def serviceName : String := "tropel"

def scopeName : String := "tropel"

def wireVarint : ℕ := 0

def wire64bit : ℕ := 1

def wireLen : ℕ := 2

def putVarint (v : UInt64) : List UInt8 :=
  if 0x80 ≤ v then (v.toUInt8 ||| 0x80) :: putVarint (v >>> 7) else [v.toUInt8]
termination_by v.toNat
decreasing_by
  rename_i h
  have hv : 128 ≤ v.toNat := UInt64.le_iff_toNat_le.1 h
  rw [UInt64.toNat_shiftRight]
  simp only [UInt64.reduceToNat, Nat.reduceMod, Nat.shiftRight_eq_div_pow]
  omega

def varintLen (v : UInt64) : ℕ :=
  let bits := 64 - v.toBitVec.clz.toNat
  if bits = 0 then 1 else (bits + 6) / 7

def putTag (field wire : ℕ) : List UInt8 := putVarint (UInt64.ofNat (field <<< 3 ||| wire))

variable (field : ℕ)

def putStrField (s : String) : List UInt8 :=
  putTag field wireLen ++ putVarint (UInt64.ofNat s.utf8ByteSize) ++ utf8 s

def putMsgField (payload : List UInt8) : List UInt8 :=
  putTag field wireLen ++ putVarint (UInt64.ofNat payload.length) ++ payload

def putFixed64 (v : UInt64) : List UInt8 := putTag field wire64bit ++ le 8 v.toNat

def putDouble (v : UInt64) : List UInt8 := putTag field wire64bit ++ le 8 v.toNat

def putVarintField (v : UInt64) : List UInt8 := putTag field wireVarint ++ putVarint v

def tagLen : ℕ := varintLen (UInt64.ofNat (field <<< 3 ||| wireLen))

def anyLen (value : String) : ℕ :=
  1 + varintLen (UInt64.ofNat value.utf8ByteSize) + value.utf8ByteSize

def kvLen (key value : String) : ℕ :=
  1 + varintLen (UInt64.ofNat key.utf8ByteSize) + key.utf8ByteSize + 1 +
    varintLen (UInt64.ofNat (anyLen value)) + anyLen value

def attrEncodedLen (key value : String) : ℕ :=
  tagLen field + varintLen (UInt64.ofNat (kvLen key value)) + kvLen key value

def putAttr (key value : String) : List UInt8 :=
  putTag field wireLen ++ putVarint (UInt64.ofNat (kvLen key value)) ++ putStrField 1 key ++
    putTag 2 wireLen ++ putVarint (UInt64.ofNat (anyLen value)) ++ putStrField 1 value

def dpStartTime : ℕ := 2

def dpTime : ℕ := 3

def dpAsDouble : ℕ := 4

def dpAttributes : ℕ := 7

def fixed64FieldBytes : ℕ := 9

def attrsEncodedLen (attrs : List (String × String)) : ℕ :=
  (attrs.map fun kv => attrEncodedLen dpAttributes kv.1 kv.2).sum

def putDataPoint (startTime : Option UInt64) (time value : UInt64) (attrsLen : ℕ)
    (attrs : List (String × String)) : List UInt8 :=
  let len := fixed64FieldBytes * 2 + attrsLen
  let len := if startTime.isSome then len + fixed64FieldBytes else len
  putTag 1 wireLen ++ putVarint (UInt64.ofNat len) ++
    (match startTime with
      | some st => putFixed64 dpStartTime st
      | none => []) ++
    putFixed64 dpTime time ++ putDouble dpAsDouble value ++
    attrs.flatMap fun kv => putAttr dpAttributes kv.1 kv.2

def putSumPoints (w : CounterWindow)
    (sums : List (List (String × String) × UInt64 × UInt64)) : List UInt8 :=
  sums.flatMap fun (tags, sum, ts) =>
    putDataPoint (some (w.startOf ts)) ts sum (attrsEncodedLen tags) tags

def putGaugePoints (samples : List OtlpSample) : List UInt8 :=
  samples.flatMap fun s =>
    putDataPoint none (nanosSinceEpoch s) s.value (attrsEncodedLen s.tags) s.tags

variable (unstable : SortUnstable)

def putData (order : HashOrder) (entry : String × List OtlpSample) : List UInt8 :=
  let (name, samples) := entry
  if isCounter samples then
    let w := CounterWindow.ofSamples plus unstable.sort samples
    putSumPoints w (order.sums name w.perTags.entries) ++ putVarintField 2 1 ++ putVarintField 3 1
  else putGaugePoints samples

def putMetric (order : HashOrder) (entry : String × List OtlpSample) : List UInt8 :=
  let (name, samples) := entry
  let dataPayload := putData plus unstable order entry
  let metricPayload :=
    putStrField 1 name ++ putMsgField (if isCounter samples then 7 else 5) dataPayload
  putMsgField 2 metricPayload

def buildExportRequestProtobuf (order : HashOrder)
    (metrics : IndexMap String (List OtlpSample)) : List UInt8 :=
  let metricsBlob := (order.metrics metrics.entries).flatMap (putMetric plus unstable order)
  let scope := putStrField 1 scopeName
  let resource := putAttr 1 "service.name" serviceName
  let scopeFieldBytes := 1 + varintLen (UInt64.ofNat scope.length) + scope.length
  let scopeMetricsLen := scopeFieldBytes + metricsBlob.length
  let resourceFieldBytes := 1 + varintLen (UInt64.ofNat resource.length) + resource.length
  let resourceMetricsLen :=
    resourceFieldBytes + 1 + varintLen (UInt64.ofNat scopeMetricsLen) + scopeMetricsLen
  putTag 1 wireLen ++ putVarint (UInt64.ofNat resourceMetricsLen) ++ putMsgField 1 resource ++
    putTag 2 wireLen ++ putVarint (UInt64.ofNat scopeMetricsLen) ++ putMsgField 1 scope ++
    metricsBlob

end Tropel
