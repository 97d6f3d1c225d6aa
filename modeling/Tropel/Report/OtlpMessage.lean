import Tropel.Lib.IndexMap
import Tropel.Lib.Wire

/-!
# OTLP metrics

A request of the OpenTelemetry protocol: resources, with the metrics of each scope, with their data
points.
-/

namespace Tropel

open Lib Lib.Wire List

/-! ## Requests -/

structure KeyValue where
  key : String
  value : String
  deriving DecidableEq

structure NumberDataPoint where
  startTimeUnixNano : Option UInt64
  timeUnixNano : UInt64
  asDouble : UInt64
  attributes : List KeyValue
  deriving DecidableEq

inductive MetricData
  | gauge (dataPoints : List NumberDataPoint)
  | sum (dataPoints : List NumberDataPoint) (aggregationTemporality : UInt64)
      (isMonotonic : Bool)
  deriving DecidableEq

structure Metric where
  name : String
  description : String
  unit : String
  data : MetricData
  deriving DecidableEq

structure ScopeMetrics where
  scope : String
  metrics : List Metric
  deriving DecidableEq

structure ResourceMetrics where
  resource : List KeyValue
  scopeMetrics : List ScopeMetrics
  deriving DecidableEq

structure ExportRequest where
  resourceMetrics : List ResourceMetrics
  deriving DecidableEq

def delta : UInt64 := 1

def MetricData.SameUpToOrder : MetricData → MetricData → Prop
  | .gauge points, .gauge points' => points = points'
  | .sum points temporality monotonic, .sum points' temporality' monotonic' =>
    points.Perm points' ∧ temporality = temporality' ∧ monotonic = monotonic'
  | _, _ => False

structure Metric.SameUpToOrder (m m' : Metric) : Prop where
  name : m.name = m'.name
  description : m.description = m'.description
  unit : m.unit = m'.unit
  data : m.data.SameUpToOrder m'.data

structure ScopeMetrics.SameUpToOrder (s s' : ScopeMetrics) : Prop where
  scope : s.scope = s'.scope
  metrics : Relation.Comp (List.Forall₂ Metric.SameUpToOrder) List.Perm s.metrics s'.metrics

structure ResourceMetrics.SameUpToOrder (r r' : ResourceMetrics) : Prop where
  resource : r.resource = r'.resource
  scopeMetrics : List.Forall₂ ScopeMetrics.SameUpToOrder r.scopeMetrics r'.scopeMetrics

def ExportRequest.SameUpToOrder (r r' : ExportRequest) : Prop :=
  List.Forall₂ ResourceMetrics.SameUpToOrder r.resourceMetrics r'.resourceMetrics

def NumberDataPoint.Started (p : NumberDataPoint) : Prop :=
  ∃ start ∈ p.startTimeUnixNano, start ≤ p.timeUnixNano

def Metric.DeltaStarted (m : Metric) : Prop :=
  match m.data with
  | .gauge _ => True
  | .sum points temporality _ => temporality = delta → ∀ p ∈ points, p.Started

def ExportRequest.DeltaStarted (r : ExportRequest) : Prop :=
  ∀ resource ∈ r.resourceMetrics, ∀ scope ∈ resource.scopeMetrics,
    ∀ m ∈ scope.metrics, m.DeltaStarted

/-! ## Protocol buffers -/

def utf8 (s : String) : List UInt8 := s.toByteArray.data.toList

def decodeString : Payload → Option String := nested fun bytes => String.fromUTF8? ⟨bytes.toArray⟩

def decodeFixed64 : Payload → Option UInt64
  | .fixed64 n => some n
  | _ => none

def decodeVarint : Payload → Option UInt64
  | .varint n => some n
  | _ => none

def textField (n : ℕ) (s : String) : List Field :=
  if s = "" then [] else [⟨n, .len (utf8 s)⟩]

def decodeText (n : ℕ) (fields : List Field) : Option String :=
  (atMostOnce n decodeString fields).map (Option.getD · "")

namespace KeyValue

def anyValueFields (kv : KeyValue) : List Field := [⟨1, .len (utf8 kv.value)⟩]

def fields (kv : KeyValue) : List Field :=
  [⟨1, .len (utf8 kv.key)⟩, ⟨2, .len (message kv.anyValueFields)⟩]

end KeyValue

def decodeAnyValue : List UInt8 → Option String := decodeMessage [1] (once 1 decodeString)

def decodeKeyValue : List UInt8 → Option KeyValue := decodeMessage [1, 2] fun fields => do
  let key ← once 1 decodeString fields
  let value ← once 2 (nested decodeAnyValue) fields
  return ⟨key, value⟩

def attributeFields (n : ℕ) (attributes : List KeyValue) : List Field :=
  attributes.map fun kv => ⟨n, .len (message kv.fields)⟩

def NumberDataPoint.fields (p : NumberDataPoint) : List Field :=
  (p.startTimeUnixNano.map fun start => ⟨2, .fixed64 start⟩).toList ++
    [⟨3, .fixed64 p.timeUnixNano⟩, ⟨4, .fixed64 p.asDouble⟩] ++ attributeFields 7 p.attributes

def decodeNumberDataPoint : List UInt8 → Option NumberDataPoint :=
  decodeMessage [2, 3, 4, 7] fun fields => do
    let start ← atMostOnce 2 decodeFixed64 fields
    let time ← once 3 decodeFixed64 fields
    let value ← once 4 decodeFixed64 fields
    let attributes ← repeated 7 (nested decodeKeyValue) fields
    return ⟨start, time, value, attributes⟩

def pointFields (points : List NumberDataPoint) : List Field :=
  points.map fun p => ⟨1, .len (message p.fields)⟩

def MetricData.number : MetricData → ℕ
  | .gauge _ => 5
  | .sum _ _ _ => 7

def MetricData.fields : MetricData → List Field
  | .gauge points => pointFields points
  | .sum points temporality monotonic =>
    pointFields points ++ [⟨2, .varint temporality⟩, ⟨3, .varint monotonic.toUInt64⟩]

def decodeGauge : List UInt8 → Option MetricData := decodeMessage [1] fun fields => do
  let points ← repeated 1 (nested decodeNumberDataPoint) fields
  return .gauge points

def decodeSum : List UInt8 → Option MetricData := decodeMessage [1, 2, 3] fun fields => do
  let points ← repeated 1 (nested decodeNumberDataPoint) fields
  let temporality ← once 2 decodeVarint fields
  let monotonic ← once 3 decodeVarint fields
  return .sum points temporality (monotonic ≠ 0)

def Metric.fields (m : Metric) : List Field :=
  [⟨1, .len (utf8 m.name)⟩] ++ textField 2 m.description ++ textField 3 m.unit ++
    [⟨m.data.number, .len (message m.data.fields)⟩]

def decodeMetric : List UInt8 → Option Metric := decodeMessage [1, 2, 3, 5, 7] fun fields => do
  let name ← once 1 decodeString fields
  let description ← decodeText 2 fields
  let unit ← decodeText 3 fields
  let gauge ← atMostOnce 5 (nested decodeGauge) fields
  let sum ← atMostOnce 7 (nested decodeSum) fields
  match gauge, sum with
  | some data, none | none, some data => return ⟨name, description, unit, data⟩
  | _, _ => none

def scopeFields (name : String) : List Field := [⟨1, .len (utf8 name)⟩]

def decodeScope : List UInt8 → Option String := decodeMessage [1] (once 1 decodeString)

def ScopeMetrics.fields (s : ScopeMetrics) : List Field :=
  ⟨1, .len (message (scopeFields s.scope))⟩ ::
    s.metrics.map fun m => ⟨2, .len (message m.fields)⟩

def decodeScopeMetrics : List UInt8 → Option ScopeMetrics := decodeMessage [1, 2] fun fields => do
  let scope ← once 1 (nested decodeScope) fields
  let metrics ← repeated 2 (nested decodeMetric) fields
  return ⟨scope, metrics⟩

def decodeResource : List UInt8 → Option (List KeyValue) :=
  decodeMessage [1] (repeated 1 (nested decodeKeyValue))

def ResourceMetrics.fields (r : ResourceMetrics) : List Field :=
  ⟨1, .len (message (attributeFields 1 r.resource))⟩ ::
    r.scopeMetrics.map fun s => ⟨2, .len (message s.fields)⟩

def decodeResourceMetrics : List UInt8 → Option ResourceMetrics :=
  decodeMessage [1, 2] fun fields => do
    let resource ← once 1 (nested decodeResource) fields
    let scopeMetrics ← repeated 2 (nested decodeScopeMetrics) fields
    return ⟨resource, scopeMetrics⟩

def ExportRequest.fields (r : ExportRequest) : List Field :=
  r.resourceMetrics.map fun resource => ⟨1, .len (message resource.fields)⟩

def decodeExportRequest : List UInt8 → Option ExportRequest := decodeMessage [1] fun fields => do
  let resourceMetrics ← repeated 1 (nested decodeResourceMetrics) fields
  return ⟨resourceMetrics⟩

/-! ## Messages are read back -/

@[simp]
theorem decodeString_utf8 (s : String) : decodeString (.len (utf8 s)) = some s := by
  have h : (⟨(utf8 s).toArray⟩ : ByteArray) = s.toByteArray := by simp [utf8]
  rw [decodeString, nested, h, String.fromUTF8?, dif_pos s.isValidUTF8]
  rfl

variable {points : List NumberDataPoint} {kv : KeyValue}

theorem decodeAnyValue_message (h : (message kv.anyValueFields).length < 2 ^ 64) :
    decodeAnyValue (message kv.anyValueFields) = some kv.value := by
  rw [decodeAnyValue,
    decodeMessage_message (by decide) (by simp [OnlyNumbers, KeyValue.anyValueFields]) h]
  simp [KeyValue.anyValueFields, once, repeated_cons]

theorem decodeKeyValue_message (h : (message kv.fields).length < 2 ^ 64) :
    decodeKeyValue (message kv.fields) = some kv := by
  have hvalue : decodeAnyValue (message kv.anyValueFields) = some kv.value :=
    decodeAnyValue_message
      ((length_le_length_message (n := 2) (by simp [KeyValue.fields])).trans_lt h)
  rw [decodeKeyValue, decodeMessage_message (by decide) (by simp [OnlyNumbers, KeyValue.fields]) h]
  simp [KeyValue.fields, once, repeated_cons, nested, hvalue]

theorem decodeNumberDataPoint_message {p : NumberDataPoint}
    (h : (message p.fields).length < 2 ^ 64) :
    decodeNumberDataPoint (message p.fields) = some p := by
  have honly : OnlyNumbers [2, 3, 4, 7] p.fields := by
    simp [OnlyNumbers, NumberDataPoint.fields, attributeFields, or_imp, forall_and]
  have hattributes : repeated 7 (nested decodeKeyValue) (attributeFields 7 p.attributes) =
      some p.attributes :=
    repeated_nested h (fun _ => decodeKeyValue_message) fun a ha => by
      simpa [NumberDataPoint.fields, attributeFields] using ⟨a, ha, rfl⟩
  rw [decodeNumberDataPoint, decodeMessage_message (by decide) honly h]
  obtain ⟨_ | start, time, value, attributes⟩ := p <;>
    simp_all [NumberDataPoint.fields, atMostOnce, once, repeated_cons, attributeFields,
      repeated_map_of_ne, decodeFixed64]

theorem decodeGauge_message (h : (message (MetricData.gauge points).fields).length < 2 ^ 64) :
    decodeGauge (message (MetricData.gauge points).fields) = some (.gauge points) := by
  have hpoints : repeated 1 (nested decodeNumberDataPoint) (pointFields points) = some points :=
    repeated_nested h (fun _ => decodeNumberDataPoint_message) fun a ha => mem_map.2 ⟨a, ha, rfl⟩
  rw [decodeGauge, decodeMessage_message (by decide)
    (by simp [OnlyNumbers, MetricData.fields, pointFields]) h]
  simp [MetricData.fields, hpoints]

theorem decodeSum_message {temporality : UInt64} {monotonic : Bool}
    (h : (message (MetricData.sum points temporality monotonic).fields).length < 2 ^ 64) :
    decodeSum (message (MetricData.sum points temporality monotonic).fields) =
      some (.sum points temporality monotonic) := by
  have hpoints : repeated 1 (nested decodeNumberDataPoint) (pointFields points) = some points :=
    repeated_nested h (fun _ => decodeNumberDataPoint_message) fun a ha =>
      mem_append_left _ (mem_map.2 ⟨a, ha, rfl⟩)
  rw [decodeSum, decodeMessage_message (by decide)
    (by simp [OnlyNumbers, MetricData.fields, pointFields, or_imp, forall_and]) h]
  have hrest (n : ℕ) (hn : 1 ≠ n) (fields : List Field) :
      repeated n decodeVarint (pointFields points ++ fields) = repeated n decodeVarint fields := by
    simp [repeated_append, pointFields, repeated_map_of_ne hn]
  simp only [MetricData.fields, once, hrest 2 (by decide), hrest 3 (by decide)]
  rw [repeated_append, hpoints]
  have hbool : decide (monotonic.toUInt64 = 0) = !monotonic := by
    cases monotonic <;> rfl
  simp [repeated_cons, decodeVarint, hbool]

theorem decodeMetric_message {m : Metric} (h : (message m.fields).length < 2 ^ 64) :
    decodeMetric (message m.fields) = some m := by
  have hdata : (message m.data.fields).length < 2 ^ 64 :=
    (length_le_length_message (n := m.data.number) (by simp [Metric.fields])).trans_lt h
  have honly : OnlyNumbers [1, 2, 3, 5, 7] m.fields := by
    have htext (n : ℕ) (t : String) : ∀ f ∈ textField n t, f.number = n := by
      rw [textField]
      split <;> simp
    intro f hf
    simp only [Metric.fields, mem_append, mem_singleton] at hf
    obtain ((rfl | hf) | hf) | rfl := hf
    · simp
    · simp [htext 2 _ f hf]
    · simp [htext 3 _ f hf]
    · cases m.data <;> simp [MetricData.number]
  rw [decodeMetric, decodeMessage_message (by decide) honly h]
  obtain ⟨name, description, unit, points | ⟨points, temporality, monotonic⟩⟩ := m
  · have hgauge := decodeGauge_message hdata
    by_cases hd : description = "" <;> by_cases hu : unit = "" <;>
      simp [Metric.fields, once, atMostOnce, repeated_cons, textField, decodeText,
        MetricData.number, nested, hgauge, hd, hu]
  · have hsum := decodeSum_message hdata
    by_cases hd : description = "" <;> by_cases hu : unit = "" <;>
      simp [Metric.fields, once, atMostOnce, repeated_cons, textField, decodeText,
        MetricData.number, nested, hsum, hd, hu]

theorem decodeScopeMetrics_message {s : ScopeMetrics} (h : (message s.fields).length < 2 ^ 64) :
    decodeScopeMetrics (message s.fields) = some s := by
  have hscope : decodeScope (message (scopeFields s.scope)) = some s.scope := by
    have hlen : (message (scopeFields s.scope)).length < 2 ^ 64 :=
      (length_le_length_message (n := 1) (by simp [ScopeMetrics.fields])).trans_lt h
    rw [decodeScope, decodeMessage_message (by decide) (by simp [OnlyNumbers, scopeFields]) hlen]
    simp [scopeFields, once, repeated_cons]
  have hmetrics : repeated 2 (nested decodeMetric)
      (s.metrics.map fun m => ⟨2, .len (message m.fields)⟩) = some s.metrics :=
    repeated_nested h (fun _ => decodeMetric_message) fun m hm =>
      mem_cons_of_mem _ (mem_map.2 ⟨m, hm, rfl⟩)
  rw [decodeScopeMetrics, decodeMessage_message (by decide)
    (by simp [OnlyNumbers, ScopeMetrics.fields]) h]
  simp [ScopeMetrics.fields, once, repeated_cons, nested, hscope, hmetrics, repeated_map_of_ne]

theorem decodeResourceMetrics_message {r : ResourceMetrics}
    (h : (message r.fields).length < 2 ^ 64) :
    decodeResourceMetrics (message r.fields) = some r := by
  have hresource : decodeResource (message (attributeFields 1 r.resource)) = some r.resource := by
    have hlen : (message (attributeFields 1 r.resource)).length < 2 ^ 64 :=
      (length_le_length_message (n := 1) (by simp [ResourceMetrics.fields])).trans_lt h
    rw [decodeResource,
      decodeMessage_message (by decide) (by simp [OnlyNumbers, attributeFields]) hlen]
    exact repeated_nested hlen (fun _ => decodeKeyValue_message) fun a ha => mem_map.2 ⟨a, ha, rfl⟩
  have hscopes : repeated 2 (nested decodeScopeMetrics)
      (r.scopeMetrics.map fun s => ⟨2, .len (message s.fields)⟩) = some r.scopeMetrics :=
    repeated_nested h (fun _ => decodeScopeMetrics_message) fun s hs =>
      mem_cons_of_mem _ (mem_map.2 ⟨s, hs, rfl⟩)
  rw [decodeResourceMetrics, decodeMessage_message (by decide)
    (by simp [OnlyNumbers, ResourceMetrics.fields]) h]
  simp [ResourceMetrics.fields, once, repeated_cons, nested, hresource, hscopes, repeated_map_of_ne]

theorem decodeExportRequest_message {r : ExportRequest} (h : (message r.fields).length < 2 ^ 64) :
    decodeExportRequest (message r.fields) = some r := by
  have hresources : repeated 1 (nested decodeResourceMetrics) r.fields = some r.resourceMetrics :=
    repeated_nested h (fun _ => decodeResourceMetrics_message) fun a ha => mem_map.2 ⟨a, ha, rfl⟩
  rw [decodeExportRequest, decodeMessage_message (by decide)
    (by simp [OnlyNumbers, ExportRequest.fields]) h, hresources]
  rfl

/-! ## JSON -/

inductive JsonValue
  | bool (b : Bool)
  | natural (n : ℕ)
  | double (bits : UInt64)
  | string (s : String)
  | array (items : List JsonValue)
  | object (fields : List (String × JsonValue))

variable (v : JsonValue)

namespace JsonValue

def get (key : String) : JsonValue → Option JsonValue
  | object fields => IndexMap.find key fields
  | _ => none

def asBool : JsonValue → Option Bool
  | bool b => some b
  | _ => none

def asU64 : JsonValue → Option UInt64
  | natural n => if n < 2 ^ 64 then some (UInt64.ofNat n) else none
  | _ => none

def asDouble : JsonValue → Option UInt64
  | double bits => some bits
  | _ => none

def asString : JsonValue → Option String
  | string s => some s
  | _ => none

def asArray : JsonValue → Option (List JsonValue)
  | array items => some items
  | _ => none

def asNanos : Option UInt64 := do
  let s ← v.asString
  if s.toList ≠ [] ∧ s.toList.all Char.isDigit then
    let n := Nat.ofDigitChars 10 s.toList 0
    if n < 2 ^ 64 then some (UInt64.ofNat n) else none
  else none

def read {α : Type} (key : String) (reads : JsonValue → Option α) (v : JsonValue) : Option α :=
  (v.get key).bind reads

def readOptional {α : Type} (key : String) (reads : JsonValue → Option α)
    (v : JsonValue) : Option (Option α) :=
  match v.get key with
  | none => some none
  | some v => (reads v).map some

def readAll {α : Type} (key : String) (reads : JsonValue → Option α)
    (v : JsonValue) : Option (List α) :=
  (v.read key asArray).bind fun items => items.mapM reads

variable {key : String}

theorem readAll_singleton {α : Type} {reads : JsonValue → Option α}
    {v item : JsonValue} {a : α} (hv : v.get key = some (array [item])) (h : reads item = some a) :
    v.readAll key reads = some [a] := by
  rw [readAll, read, hv]
  simp [asArray, h]

theorem readAll_map {α β : Type} {reads : JsonValue → Option α} {v : JsonValue}
    {json : β → JsonValue} {f : β → α} {l : List β} (hv : v.get key = some (array (l.map json)))
    (h : ∀ b ∈ l, reads (json b) = some (f b)) : v.readAll key reads = some (l.map f) := by
  have hitems : (l.map json).mapM reads = some (l.map f) := by
    clear hv
    induction l with
    | nil => rfl
    | cons b l ih =>
      obtain ⟨hb, hl⟩ := forall_mem_cons.1 h
      rw [map_cons, mapM_cons, hb, ih hl]
      rfl
  rw [readAll, read, hv]
  exact hitems

end JsonValue

open JsonValue

def readKeyValue : Option KeyValue := do
  let key ← v.read "key" asString
  let value ← v.read "value" (read "stringValue" asString)
  return ⟨key, value⟩

def readNumberDataPoint : Option NumberDataPoint := do
  let start ← v.readOptional "startTimeUnixNano" asNanos
  let time ← v.read "timeUnixNano" asNanos
  let value ← v.read "asDouble" asDouble
  let attributes ← v.readAll "attributes" readKeyValue
  return ⟨start, time, value, attributes⟩

def readGauge : Option MetricData := do
  let points ← v.readAll "dataPoints" readNumberDataPoint
  return .gauge points

def readSum : Option MetricData := do
  let points ← v.readAll "dataPoints" readNumberDataPoint
  let temporality ← v.read "aggregationTemporality" JsonValue.asU64
  let monotonic ← v.read "isMonotonic" asBool
  return .sum points temporality monotonic

def readMetric : Option Metric := do
  let name ← v.read "name" asString
  let description ← v.readOptional "description" asString
  let unit ← v.readOptional "unit" asString
  let gauge ← v.readOptional "gauge" readGauge
  let sum ← v.readOptional "sum" readSum
  match gauge, sum with
  | some data, none | none, some data => return ⟨name, description.getD "", unit.getD "", data⟩
  | _, _ => none

def readScopeMetrics : Option ScopeMetrics := do
  let scope ← v.read "scope" (read "name" asString)
  let metrics ← v.readAll "metrics" readMetric
  return ⟨scope, metrics⟩

def readResourceMetrics : Option ResourceMetrics := do
  let resource ← v.read "resource" (readAll "attributes" readKeyValue)
  let scopeMetrics ← v.readAll "scopeMetrics" readScopeMetrics
  return ⟨resource, scopeMetrics⟩

def readExportRequest : Option ExportRequest := do
  let resourceMetrics ← v.readAll "resourceMetrics" readResourceMetrics
  return ⟨resourceMetrics⟩

theorem asNanos_toString {n : ℕ} (h : n < 2 ^ 64) :
    asNanos (.string (toString n)) = some (UInt64.ofNat n) := by
  have hdigits : ∀ c ∈ Nat.toDigits 10 n, c.isDigit = true := by
    intro c hc
    exact Nat.isDigit_of_mem_toDigits (by decide) (by decide) hc
  simpa [asNanos, JsonValue.asString, Nat.ofDigitChars_ten_toDigits] using ⟨hdigits, h⟩

end Tropel
