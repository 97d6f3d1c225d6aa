import Tropel.Report.Otlp

/-!
# The OTLP encoders agree

Both encoders send the same request, `exportRequest`, up to the orders of their hash
maps.

* `otlp_encoders_agree`: as bytes and as a tree.
-/

namespace Tropel

open Lib Lib.Wire List Option IndexMap Nat

/-! ## Numbers -/

theorem toUInt8_or (v : UInt64) : v.toUInt8 ||| 0x80 = UInt8.ofNat (v.toNat % 128 + 128) := by
  have hbits : ∀ i : Fin 256, i.val ||| 128 = i.val % 128 + 128 := by decide +kernel
  have hbyte : v.toNat % 256 ||| 128 = v.toNat % 256 % 128 + 128 :=
    hbits ⟨v.toNat % 256, mod_lt _ (by decide)⟩
  apply UInt8.toNat_inj.1
  rw [UInt8.toNat_or, UInt64.toNat_toUInt8, UInt8.toNat_ofNat']
  refine hbyte.trans ?_
  omega

theorem putVarint_eq (v : UInt64) : putVarint v = varint v.toNat := by
  fun_induction putVarint v with
  | case1 v h ih =>
    have hv : 128 ≤ v.toNat := UInt64.le_iff_toNat_le.1 h
    have hshift : (v >>> 7).toNat = v.toNat / 128 := by
      rw [UInt64.toNat_shiftRight]
      simp [shiftRight_eq_div_pow]
    rw [varint_of_le hv, ih, hshift, toUInt8_or]
  | case2 v h =>
    have hv : v.toNat < 128 := by
      rw [UInt64.le_iff_toNat_le] at h
      exact Nat.lt_of_not_le h
    rw [varint_of_lt hv]
    rfl

theorem varintLen_eq (v : UInt64) : varintLen v = (varint v.toNat).length := by
  by_cases hv : v.toBitVec = 0#64
  · obtain rfl : v = 0 := UInt64.toBitVec_inj.1 hv
    decide +kernel
  · have hpos := length_pos_iff.2 (varint_ne_nil v.toNat)
    rw [varintLen]
    generalize hbits : 64 - v.toBitVec.clz.toNat = bits
    have hlt : v.toNat < 2 ^ bits := hbits ▸ BitVec.toNat_lt_two_pow_sub_clz
    have hge : 2 ^ (bits - 1) ≤ v.toNat := by
      rw [← hbits, Nat.sub_right_comm]
      exact BitVec.two_pow_sub_clz_le_toNat_of_ne_zero (by decide) hv
    -- both widths are the least `k` with `bits ≤ 7 * k`
    have hwidth (k : ℕ) : (varint v.toNat).length ≤ k + 1 ↔ bits ≤ 7 * (k + 1) := by
      rw [length_varint_le_iff]
      constructor
      · intro h
        have := (Nat.pow_lt_pow_iff_right (by decide)).1 (hge.trans_lt h)
        omega
      · intro h
        exact hlt.trans_le (Nat.pow_le_pow_right (by decide) h)
    have hleast := hwidth ((bits + 6) / 7 - 1)
    have hreached := hwidth ((varint v.toNat).length - 1)
    split <;> omega

theorem length_putVarint (v : UInt64) : (putVarint v).length = varintLen v := by
  rw [putVarint_eq, varintLen_eq]

variable {field wire : ℕ} {entry : String × List OtlpSample}
  {metrics : IndexMap String (List OtlpSample)}
  {attrs : List (String × String)} {startTime : Option UInt64} {samples : List OtlpSample}
    {time value : UInt64}
  {w : CounterWindow}

theorem putTag_eq (hfield : field < 2 ^ 29) (hwire : wire < 8) :
    putTag field wire = varint (field * 8 + wire) := by
  have hor : field <<< 3 ||| wire = field * 8 + wire := by
    rw [← shiftLeft_add_eq_or_of_lt (by simpa using hwire), shiftLeft_eq]
  rw [putTag, putVarint_eq, hor, UInt64.toNat_ofNat_of_lt' (by rw [UInt64.size]; omega)]

/-! ## Fields -/

theorem length_utf8 (s : String) : (utf8 s).length = s.utf8ByteSize := by
  rw [utf8, Array.length_toList]
  rfl

theorem putMsgField_eq {payload : List UInt8} (hfield : field < 2 ^ 29)
    (h : payload.length < 2 ^ 64) :
    putMsgField field payload = (⟨field, .len payload⟩ : Field).bytes := by
  rw [putMsgField, putTag_eq hfield (by decide), putVarint_eq, UInt64.toNat_ofNat_of_lt' h,
    append_assoc]
  rfl

theorem putStrField_eq {s : String} (hfield : field < 2 ^ 29) (h : s.utf8ByteSize < 2 ^ 64) :
    putStrField field s = (⟨field, .len (utf8 s)⟩ : Field).bytes := by
  rw [← length_utf8] at h
  rw [← putMsgField_eq hfield h, putMsgField, length_utf8]
  rfl

theorem putFixed64_eq (hfield : field < 2 ^ 29) (v : UInt64) :
    putFixed64 field v = (⟨field, .fixed64 v⟩ : Field).bytes := by
  rw [putFixed64, putTag_eq hfield (by decide)]
  rfl

theorem putVarintField_eq (hfield : field < 2 ^ 29) (v : UInt64) :
    putVarintField field v = (⟨field, .varint v⟩ : Field).bytes := by
  rw [putVarintField, putTag_eq hfield (by decide), putVarint_eq]
  rfl

theorem length_putTag (hfield : field < 16) (hwire : wire < 8) :
    (putTag field wire).length = 1 := by
  rw [putTag_eq (by omega) hwire, varint_of_lt (by omega)]
  rfl

theorem length_putMsgField (hfield : field < 16) (payload : List UInt8) :
    (putMsgField field payload).length =
      1 + varintLen (UInt64.ofNat payload.length) + payload.length := by
  rw [putMsgField, length_append, length_append, length_putVarint,
    length_putTag hfield (by decide)]

theorem length_le_length_putMsgField (field : ℕ) (payload : List UInt8) :
    payload.length ≤ (putMsgField field payload).length := by
  rw [putMsgField, length_append]
  omega

/-! ## Attributes -/

variable (kv : String × String)

def keyValue : KeyValue := ⟨kv.1, kv.2⟩

theorem length_putStrField (s : String) : (putStrField 1 s).length = anyLen s := by
  rw [putStrField, length_append, length_append, length_putTag (by decide) (by decide),
    length_putVarint, length_utf8, anyLen]

def attrPayload : List UInt8 :=
  putStrField 1 kv.1 ++
    (putTag 2 wireLen ++ putVarint (UInt64.ofNat (anyLen kv.2)) ++ putStrField 1 kv.2)

theorem putAttr_eq_append (field : ℕ) (kv : String × String) : putAttr field kv.1 kv.2 =
      putTag field wireLen ++ putVarint (UInt64.ofNat (kvLen kv.1 kv.2)) ++ attrPayload kv := by
  simp only [putAttr, attrPayload, append_assoc]

theorem length_attrPayload : (attrPayload kv).length = kvLen kv.1 kv.2 := by
  simp only [attrPayload, length_append, length_putStrField, length_putVarint,
    length_putTag (show 2 < 16 by decide) (show wireLen < 8 by decide), kvLen, anyLen]
  omega

theorem attrEncodedLen_eq (field : ℕ) (kv : String × String) :
    attrEncodedLen field kv.1 kv.2 = (putAttr field kv.1 kv.2).length := by
  rw [putAttr_eq_append, length_append, length_append, length_attrPayload,
    length_putVarint, putTag, length_putVarint]
  rfl

theorem attrPayload_eq {kv : String × String} (h : (attrPayload kv).length < 2 ^ 64) :
    attrPayload kv = message (keyValue kv).fields := by
  have hkey : kv.1.utf8ByteSize < 2 ^ 64 := by
    simp only [attrPayload, putStrField, length_append, length_utf8] at h
    omega
  have hvalue : kv.2.utf8ByteSize < 2 ^ 64 := by
    simp only [attrPayload, putStrField, length_append, length_utf8] at h
    omega
  have hany : putStrField 1 kv.2 = message (keyValue kv).anyValueFields := by
    rw [putStrField_eq (by decide) hvalue, KeyValue.anyValueFields, message_singleton, keyValue]
  have hanyLen : (putStrField 1 kv.2).length < 2 ^ 64 := by
    simp only [attrPayload, length_append] at h
    omega
  rw [attrPayload, ← length_putStrField, ← putMsgField, putMsgField_eq (by decide) hanyLen,
    putStrField_eq (by decide) hkey, hany, KeyValue.fields, message_cons, message_singleton,
    keyValue]

theorem putAttr_eq (hfield : field < 2 ^ 29) (kv : String × String)
    (h : (putAttr field kv.1 kv.2).length < 2 ^ 64) :
    putAttr field kv.1 kv.2 = (⟨field, .len (message (keyValue kv).fields)⟩ : Field).bytes := by
  have hfits : (attrPayload kv).length < 2 ^ 64 := by
    rw [putAttr_eq_append, length_append] at h
    omega
  rw [putAttr_eq_append, ← length_attrPayload, ← putMsgField, putMsgField_eq hfield hfits,
    attrPayload_eq hfits]

/-! ## Data points -/

theorem attrsEncodedLen_eq (attrs : List (String × String)) :
    attrsEncodedLen attrs = (attrs.flatMap fun kv => putAttr dpAttributes kv.1 kv.2).length := by
  simp only [attrsEncodedLen, length_flatMap, attrEncodedLen_eq]

def dataPoint (startTime : Option UInt64) (time value : UInt64) (attrs : List (String × String)) :
    NumberDataPoint := ⟨startTime, time, value, attrs.map keyValue⟩

def pointPayload (startTime : Option UInt64) (time value : UInt64)
    (attrs : List (String × String)) : List UInt8 :=
  startTime.elim [] (putFixed64 dpStartTime) ++
    (putFixed64 dpTime time ++ putDouble dpAsDouble value) ++
    attrs.flatMap fun kv => putAttr dpAttributes kv.1 kv.2

theorem length_putFixed64 (hfield : field < 16) (v : UInt64) :
    (putFixed64 field v).length = fixed64FieldBytes := by
  rw [putFixed64, length_append, length_putTag hfield (by decide), length_le]
  rfl

theorem putDataPoint_eq_putMsgField (startTime : Option UInt64) (time value : UInt64)
    (attrs : List (String × String)) :
    putDataPoint startTime time value (attrsEncodedLen attrs) attrs =
      putMsgField 1 (pointPayload startTime time value attrs) := by
  have htime := length_putFixed64 (show dpTime < 16 by decide) time
  have hvalue : (putDouble dpAsDouble value).length = fixed64FieldBytes :=
    length_putFixed64 (show dpAsDouble < 16 by decide) value
  cases startTime with
  | none =>
    have hlen : (pointPayload none time value attrs).length =
        fixed64FieldBytes * 2 + attrsEncodedLen attrs := by
      simp only [pointPayload, length_append, Option.elim, length_nil, htime, hvalue,
        ← attrsEncodedLen_eq]
      omega
    rw [putMsgField, hlen]
    simp [putDataPoint, pointPayload]
  | some st =>
    have hstart := length_putFixed64 (show dpStartTime < 16 by decide) st
    have hlen : (pointPayload (some st) time value attrs).length =
        fixed64FieldBytes * 2 + attrsEncodedLen attrs + fixed64FieldBytes := by
      simp only [pointPayload, length_append, Option.elim, hstart, htime, hvalue,
        ← attrsEncodedLen_eq]
      omega
    rw [putMsgField, hlen]
    simp [putDataPoint, pointPayload]

theorem pointPayload_eq (h : (pointPayload startTime time value attrs).length < 2 ^ 64) :
    pointPayload startTime time value attrs =
      message (dataPoint startTime time value attrs).fields := by
  have hattrs : (attrs.flatMap fun kv => putAttr dpAttributes kv.1 kv.2) =
      message (attributeFields 7 (attrs.map keyValue)) := by
    rw [attributeFields, List.map_map]
    refine flatMap_eq_message (putAttr_eq (by decide)) (lt_of_le_of_lt ?_ h)
    simp only [pointPayload, length_append]
    omega
  have hstart : startTime.elim [] (putFixed64 dpStartTime) =
      message (startTime.map fun start => ⟨2, .fixed64 start⟩).toList := by
    cases startTime with
    | none => rfl
    | some st => exact (putFixed64_eq (by decide) st).trans (message_singleton _).symm
  have hvalues : putFixed64 dpTime time ++ putDouble dpAsDouble value =
      message [⟨3, .fixed64 time⟩, ⟨4, .fixed64 value⟩] := by
    rw [putDouble, ← putFixed64, putFixed64_eq (by decide), putFixed64_eq (by decide),
      message_cons, message_singleton, dpTime, dpAsDouble]
  rw [pointPayload, hattrs, hstart, hvalues, ← message_append, ← message_append]
  rfl

theorem putDataPoint_eq
    (h : (putDataPoint startTime time value (attrsEncodedLen attrs) attrs).length < 2 ^ 64) :
    putDataPoint startTime time value (attrsEncodedLen attrs) attrs =
      (⟨1, .len (message (dataPoint startTime time value attrs).fields)⟩ : Field).bytes := by
  rw [putDataPoint_eq_putMsgField] at h ⊢
  have hfits : (pointPayload startTime time value attrs).length < 2 ^ 64 := by
    rw [putMsgField, length_append] at h
    omega
  rw [putMsgField_eq (by decide) hfits, pointPayload_eq hfits]

/-! ## Requests -/

instance : Std.Total tagLe := ⟨fun a b => le_total (toLex a) (toLex b)⟩

instance : IsTrans (String × String) tagLe := ⟨fun _ _ _ => le_trans⟩

theorem SortUnstable.sort_eq (unstable : SortUnstable) : unstable.sort = sortTags := by
  funext tags
  refine List.Perm.eq_of_pairwise ?_ (unstable.sorted tags) (pairwise_insertionSort _ _)
    ((unstable.perm tags).trans (perm_insertionSort _ _).symm)
  intro a b _ _ hab hba
  exact toLex.injective (le_antisymm hab hba)

def SortUnstable.stable : SortUnstable where
  sort := sortTags
  perm := List.perm_insertionSort tagLe
  sorted := List.pairwise_insertionSort tagLe

def sumPoint (w : CounterWindow)
    (entry : List (String × String) × UInt64 × UInt64) : NumberDataPoint :=
  dataPoint (some (w.startOf entry.2.2)) entry.2.2 entry.2.1 entry.1

def gaugePoint (s : OtlpSample) : NumberDataPoint :=
  dataPoint none (nanosSinceEpoch s) s.value s.tags

section

variable (plus : UInt64 → UInt64 → UInt64) (order : HashOrder)

def otlpData (entry : String × List OtlpSample) : MetricData :=
  if isCounter entry.2 then
    let w := CounterWindow.ofSamples plus sortTags entry.2
    .sum ((order.sums entry.1 w.perTags.entries).map (sumPoint w)) delta true
  else .gauge (entry.2.map gaugePoint)

def otlpMetric (entry : String × List OtlpSample) : Metric :=
  ⟨entry.1, "", "", otlpData plus order entry⟩

def exportRequest (metrics : IndexMap String (List OtlpSample)) : ExportRequest :=
  ⟨[⟨[⟨"service.name", "tropel"⟩],
    [⟨"tropel", (order.metrics metrics.entries).map (otlpMetric plus order)⟩]⟩]⟩

end

variable {plus : UInt64 → UInt64 → UInt64} {unstable : SortUnstable} {order : HashOrder}

theorem putSumPoints_eq {sums : List (List (String × String) × UInt64 × UInt64)}
    (h : (putSumPoints w sums).length < 2 ^ 64) :
    putSumPoints w sums = message (pointFields (sums.map (sumPoint w))) := by
  rw [pointFields, List.map_map]
  exact flatMap_eq_message (fun _ => putDataPoint_eq) h

theorem putGaugePoints_eq (h : (putGaugePoints samples).length < 2 ^ 64) :
    putGaugePoints samples = message (pointFields (samples.map gaugePoint)) := by
  rw [pointFields, List.map_map]
  exact flatMap_eq_message (fun _ => putDataPoint_eq) h

theorem putData_eq (h : (putData plus unstable order entry).length < 2 ^ 64) :
    putData plus unstable order entry = message (otlpData plus order entry).fields := by
  simp only [putData, otlpData, unstable.sort_eq] at h ⊢
  split at h
  next hcounter =>
    rw [length_append, length_append] at h
    rw [if_pos hcounter, if_pos hcounter, putSumPoints_eq (by omega), MetricData.fields,
      message_append, message_cons, message_singleton, putVarintField_eq (by decide),
      putVarintField_eq (by decide), append_assoc]
    rfl
  next hcounter =>
    rw [if_neg hcounter, if_neg hcounter, putGaugePoints_eq h, MetricData.fields]

theorem putMetric_eq (h : (putMetric plus unstable order entry).length < 2 ^ 64) :
    putMetric plus unstable order entry =
      (⟨2, .len (message (otlpMetric plus order entry).fields)⟩ : Field).bytes := by
  obtain ⟨name, samples⟩ := entry
  simp only [putMetric] at h ⊢
  have hpayload := (length_le_length_putMsgField _ _).trans_lt h
  have hlen := hpayload
  rw [length_append] at hlen
  have hname : name.utf8ByteSize < 2 ^ 64 := by
    rw [← length_utf8]
    simp only [putStrField, length_append] at hlen
    omega
  have hdata : (putData plus unstable order (name, samples)).length < 2 ^ 64 :=
    (length_le_length_putMsgField (if isCounter samples then 7 else 5) _).trans_lt (by omega)
  have hnumber : (if isCounter samples then 7 else 5) =
      (otlpData plus order (name, samples)).number := by
    rw [otlpData]
    split <;> rfl
  have hfields : (otlpMetric plus order (name, samples)).fields =
      [⟨1, .len (utf8 name)⟩, ⟨(otlpData plus order (name, samples)).number,
        .len (message (otlpData plus order (name, samples)).fields)⟩] := by
    simp [Metric.fields, otlpMetric, textField]
  rw [putMsgField_eq (by decide) hpayload, putStrField_eq (by decide) hname,
    putMsgField_eq (by split <;> decide) hdata, putData_eq hdata, hnumber, hfields, message_cons,
    message_singleton]

theorem buildExportRequestProtobuf_eq_putMsgField (metrics : IndexMap String (List OtlpSample)) :
    buildExportRequestProtobuf plus unstable order metrics =
      putMsgField 1 (putMsgField 1 (putAttr 1 "service.name" serviceName) ++
        putMsgField 2 (putMsgField 1 (putStrField 1 scopeName) ++
          (order.metrics metrics.entries).flatMap (putMetric plus unstable order))) := by
  rw [buildExportRequestProtobuf]
  generalize (order.metrics metrics.entries).flatMap (putMetric plus unstable order) = blob
  generalize putStrField 1 scopeName = scope
  generalize putAttr 1 "service.name" serviceName = resource
  have hinner : (putMsgField 1 scope ++ blob).length =
      1 + varintLen (UInt64.ofNat scope.length) + scope.length + blob.length := by
    rw [length_append, length_putMsgField (by decide)]
  have houter (inner : List UInt8) : (putMsgField 1 resource ++ putMsgField 2 inner).length =
      1 + varintLen (UInt64.ofNat resource.length) + resource.length + 1 +
        varintLen (UInt64.ofNat inner.length) + inner.length := by
    rw [length_append, length_putMsgField (by decide), length_putMsgField (by decide)]
    omega
  have hput (field : ℕ) (payload : List UInt8) : putMsgField field payload =
      putTag field wireLen ++ (putVarint (UInt64.ofNat payload.length) ++ payload) := by
    rw [putMsgField, append_assoc]
  rw [hput 1 (putMsgField 1 resource ++ _), houter, hput 2, hinner]
  simp only [append_assoc]

theorem putScopeMetrics_eq {metrics : List (String × List OtlpSample)}
    (h : (putMsgField 1 (putStrField 1 scopeName) ++
      metrics.flatMap (putMetric plus unstable order)).length < 2 ^ 64) :
    putMsgField 1 (putStrField 1 scopeName) ++ metrics.flatMap (putMetric plus unstable order) =
      message (ScopeMetrics.mk "tropel" (metrics.map (otlpMetric plus order))).fields := by
  rw [length_append] at h
  have hscope : (putStrField 1 scopeName).length < 2 ^ 64 :=
    (length_le_length_putMsgField 1 _).trans_lt (by omega)
  have hblob : metrics.flatMap (putMetric plus unstable order) = message
      ((metrics.map (otlpMetric plus order)).map fun m => ⟨2, .len (message m.fields)⟩) := by
    rw [List.map_map]
    exact flatMap_eq_message (fun _ => putMetric_eq) ((le_add_left _ _).trans_lt h)
  rw [putMsgField_eq (by decide) hscope, putStrField_eq (by decide) (by decide +kernel), hblob,
    ScopeMetrics.fields, message_cons, scopeFields, message_singleton, scopeName]

theorem buildExportRequestProtobuf_eq
    (h : (buildExportRequestProtobuf plus unstable order metrics).length < 2 ^ 64) :
    buildExportRequestProtobuf plus unstable order metrics =
      message (exportRequest plus order metrics).fields := by
  rw [buildExportRequestProtobuf_eq_putMsgField] at h ⊢
  have houter := (length_le_length_putMsgField _ _).trans_lt h
  rw [putMsgField_eq (by decide) houter]
  rw [length_append] at houter
  have hscopes : (putMsgField 1 (putStrField 1 scopeName) ++
      (order.metrics metrics.entries).flatMap (putMetric plus unstable order)).length < 2 ^ 64 :=
    (length_le_length_putMsgField 2 _).trans_lt (by omega)
  have hresource : (putAttr 1 "service.name" serviceName).length < 2 ^ 64 :=
    (length_le_length_putMsgField 1 _).trans_lt (by omega)
  have hattr : putAttr 1 "service.name" serviceName =
      message (attributeFields 1 [⟨"service.name", serviceName⟩]) := by
    rw [attributeFields, map_singleton, message_singleton]
    exact putAttr_eq (by decide) ("service.name", serviceName) hresource
  rw [putMsgField_eq (by decide) hscopes, putScopeMetrics_eq hscopes,
    putMsgField_eq (by decide) hresource, hattr, exportRequest, ExportRequest.fields,
    map_singleton, message_singleton, ResourceMetrics.fields, map_singleton,
    message_cons, message_singleton, serviceName]

/-! ## JSON -/

open JsonValue

theorem readAttributes {v : JsonValue} (tags : List (String × String))
    (h : v.get "attributes" = some (.array (tags.map attributeJson))) :
    v.readAll "attributes" readKeyValue = some (tags.map keyValue) :=
  readAll_map h fun _ _ => rfl

theorem asNanos_toString_toNat (n : UInt64) : asNanos (.string (toString n.toNat)) = some n := by
  rw [asNanos_toString n.toNat_lt, UInt64.ofNat_toNat]

theorem readNumberDataPoint_sumPointJson (w : CounterWindow)
    (entry : List (String × String) × UInt64 × UInt64) :
    readNumberDataPoint (sumPointJson w entry) = some (sumPoint w entry) := by
  have hstart : (sumPointJson w entry).readOptional "startTimeUnixNano" asNanos =
      some (some (w.startOf entry.2.2)) := congrArg (Option.map some) (asNanos_toString_toNat _)
  have htime : (sumPointJson w entry).read "timeUnixNano" asNanos = some entry.2.2 :=
    asNanos_toString_toNat _
  rw [readNumberDataPoint, hstart, htime, readAttributes entry.1 rfl]
  rfl

theorem readNumberDataPoint_gaugePointJson {s : OtlpSample} (h : s.timestamp < 2 ^ 64) :
    readNumberDataPoint (gaugePointJson s) = some (gaugePoint s) := by
  have htime : (gaugePointJson s).read "timeUnixNano" asNanos = some (nanosSinceEpoch s) := by
    have hlt : (if s.timestamp < 0 then 0 else s.timestamp.toNat) < 2 ^ 64 := by
      split <;> omega
    refine (asNanos_toString hlt).trans (congrArg some ?_)
    rw [nanosSinceEpoch]
    split <;> rfl
  rw [readNumberDataPoint, htime, readAttributes s.tags rfl]
  rfl

theorem readSum_points (sums : List (List (String × String) × UInt64 × UInt64)) :
    readSum (.object [("dataPoints", .array (sums.map (sumPointJson w))),
      ("aggregationTemporality", .natural 1), ("isMonotonic", .bool true)]) =
      some (.sum (sums.map (sumPoint w)) delta true) := by
  rw [readSum, readAll_map rfl fun entry _ => readNumberDataPoint_sumPointJson w entry]
  rfl

theorem readGauge_points (h : ∀ s ∈ samples, s.timestamp < 2 ^ 64) :
    readGauge (.object [("dataPoints", .array (samples.map gaugePointJson))]) =
      some (.gauge (samples.map gaugePoint)) := by
  rw [readGauge, readAll_map rfl fun s hs => readNumberDataPoint_gaugePointJson (h s hs)]
  rfl

theorem readMetric_metricJson (h : ∀ s ∈ entry.2, s.timestamp < 2 ^ 64) :
    readMetric (metricJson plus order entry) = some (otlpMetric plus order entry) := by
  obtain ⟨name, samples⟩ := entry
  by_cases hcounter : isCounter samples
  · simp only [metricJson, otlpMetric, otlpData, if_pos hcounter]
    simp [readMetric, readOptional, JsonValue.read, JsonValue.get, find, JsonValue.asString,
      readSum_points]
  · simp only [metricJson, otlpMetric, otlpData, if_neg hcounter]
    simp [readMetric, readOptional, JsonValue.read, JsonValue.get, find, JsonValue.asString,
      readGauge_points h]

theorem readExportRequest_buildExportRequest
    (h : ∀ e ∈ metrics.entries, ∀ s ∈ e.2, s.timestamp < 2 ^ 64) :
    readExportRequest (buildExportRequest plus order metrics) =
      some (exportRequest plus order metrics) := by
  have hmetric : ∀ e ∈ order.metrics metrics.entries,
      readMetric (metricJson plus order e) = some (otlpMetric plus order e) := by
    intro e he
    exact readMetric_metricJson (h e ((order.metrics_perm _).mem_iff.1 he))
  have hscope : readScopeMetrics (.object [("scope", .object [("name", .string "tropel")]),
      ("metrics", .array ((order.metrics metrics.entries).map (metricJson plus order)))]) =
      some ⟨"tropel", (order.metrics metrics.entries).map (otlpMetric plus order)⟩ := by
    rw [readScopeMetrics, readAll_map rfl hmetric]
    rfl
  have hresource : readResourceMetrics (.object
      [("resource", .object [("attributes", .array [attributeJson ("service.name", "tropel")])]),
        ("scopeMetrics", .array [.object [("scope", .object [("name", .string "tropel")]),
          ("metrics", .array ((order.metrics metrics.entries).map (metricJson plus order)))]])]) =
      some ⟨[⟨"service.name", "tropel"⟩],
        [⟨"tropel", (order.metrics metrics.entries).map (otlpMetric plus order)⟩]⟩ := by
    rw [readResourceMetrics, readAll_singleton rfl hscope]
    rfl
  rw [readExportRequest, buildExportRequest, readAll_singleton rfl hresource]
  rfl

theorem otlpMetric_sameUpToOrder (order order' : HashOrder) (entry : String × List OtlpSample) :
    (otlpMetric plus order entry).SameUpToOrder (otlpMetric plus order' entry) := by
  refine ⟨rfl, rfl, rfl, ?_⟩
  simp only [otlpMetric, otlpData]
  split
  · have hperm (sums : List (List (String × String) × UInt64 × UInt64)) :
        (order.sums entry.1 sums).Perm (order'.sums entry.1 sums) :=
      (order.sums_perm entry.1 sums).trans (order'.sums_perm entry.1 sums).symm
    exact ⟨(hperm _).map _, rfl, rfl⟩
  · rfl

theorem exportRequest_sameUpToOrder (order order' : HashOrder)
    (metrics : IndexMap String (List OtlpSample)) :
    (exportRequest plus order metrics).SameUpToOrder (exportRequest plus order' metrics) := by
  refine .cons ⟨rfl, .cons ⟨rfl, ?_⟩ .nil⟩ .nil
  refine ⟨(order.metrics metrics.entries).map (otlpMetric plus order'), ?_, ?_⟩
  · exact forall₂_map_left_iff.2 (forall₂_map_right_iff.2
      (forall₂_same.2 fun entry _ => otlpMetric_sameUpToOrder order order' entry))
  · exact ((order.metrics_perm _).trans (order'.metrics_perm _).symm).map _

/-! ## Start times -/

namespace CounterWindow

def Started (w : CounterWindow) : Prop :=
  ∀ tags sum, ∀ ts, w.perTags.get tags = some (sum, ts) → w.earliestTs ≤ ts

theorem perTags_record (w : CounterWindow) (plus : UInt64 → UInt64 → UInt64)
    (sort : List (String × String) → List (String × String)) (s : OtlpSample) :
    ∃ sum, (w.record plus sort s).perTags =
      w.perTags.insert (sort s.tags) (sum, nanosSinceEpoch s) := by
  rw [record]
  dsimp only
  split
  · exact ⟨_, rfl⟩
  · exact ⟨_, rfl⟩

variable {w : CounterWindow}

theorem Started.record (h : w.Started) (sort : List (String × String) → List (String × String))
    (s : OtlpSample) :
    (w.record plus sort s).Started := by
  have hearliest : (w.record plus sort s).earliestTs =
      if nanosSinceEpoch s < w.earliestTs then nanosSinceEpoch s else w.earliestTs := rfl
  have hle : (w.record plus sort s).earliestTs ≤ w.earliestTs ∧
      (w.record plus sort s).earliestTs ≤ nanosSinceEpoch s := by
    rw [hearliest]
    split
    next hlt => exact ⟨UInt64.le_of_lt hlt, UInt64.le_refl _⟩
    next hlt => exact ⟨UInt64.le_refl _, UInt64.not_lt.1 hlt⟩
  intro tags sum ts hget
  obtain ⟨sum', hperTags⟩ := w.perTags_record plus sort s
  rw [hperTags, get_insert] at hget
  split at hget
  · obtain ⟨-, rfl⟩ := Prod.mk.inj (some.inj hget)
    exact hle.2
  · exact UInt64.le_trans hle.1 (h tags sum ts hget)

theorem started_ofSamples (sort : List (String × String) → List (String × String))
    (samples : List OtlpSample) : (ofSamples plus sort samples).Started := by
  have hrun : ∀ w : CounterWindow, w.Started → (samples.foldl (record plus sort) w).Started := by
    induction samples with
    | nil => exact fun w hw => hw
    | cons s samples ih => exact fun w hw => ih _ (hw.record sort s)
  exact hrun new fun _ _ _ hget => nomatch hget

theorem startOf_le (h : w.Started)
    {entry : List (String × String) × UInt64 × UInt64} (hentry : entry ∈ w.perTags.entries) :
    w.startOf entry.2.2 ≤ entry.2.2 := by
  rw [startOf]
  split
  · exact h entry.1 entry.2.1 entry.2.2 (get_eq_some_iff.2 hentry)
  · exact UInt64.le_refl _

end CounterWindow

theorem exportRequest_deltaStarted (order : HashOrder)
    (metrics : IndexMap String (List OtlpSample)) :
    (exportRequest plus order metrics).DeltaStarted := by
  have hmetric : ∀ entry : String × List OtlpSample,
      (otlpMetric plus order entry).DeltaStarted := by
    intro entry
    rw [Metric.DeltaStarted, otlpMetric, otlpData]
    by_cases hcounter : isCounter entry.2
    · rw [if_pos hcounter]
      intro _ p hp
      obtain ⟨sum, hsum, rfl⟩ := mem_map.1 hp
      have hmem := (order.sums_perm _ _).mem_iff.1 hsum
      exact ⟨_, rfl, CounterWindow.startOf_le (CounterWindow.started_ofSamples _ _) hmem⟩
    · rw [if_neg hcounter]
      trivial
  intro resource hresource scope hscope m hm
  obtain rfl := mem_singleton.1 hresource
  obtain rfl := mem_singleton.1 hscope
  obtain ⟨entry, -, rfl⟩ := mem_map.1 hm
  exact hmetric entry

/-- The two encoders say the same. The bytes of the one are a message, whose lengths are right and
    whose request is that of the tree of the other, up to the order of the metrics and of the points
    of the sums. Every point of delta temporality has a start time, not after its time. -/
theorem otlp_encoders_agree (plus : UInt64 → UInt64 → UInt64) (unstable : SortUnstable)
    (order order' : HashOrder) (metrics : IndexMap String (List OtlpSample))
    (htime : ∀ e ∈ metrics.entries, ∀ s ∈ e.2, s.timestamp < 2 ^ 64)
    (hlen : (buildExportRequestProtobuf plus unstable order metrics).length < 2 ^ 64) :
    ∃ sent told,
      decodeExportRequest (buildExportRequestProtobuf plus unstable order metrics) = some sent ∧
      readExportRequest (buildExportRequest plus order' metrics) = some told ∧
      sent.SameUpToOrder told ∧ sent.DeltaStarted ∧ told.DeltaStarted := by
  have hbytes := buildExportRequestProtobuf_eq hlen
  rw [hbytes] at hlen
  refine ⟨exportRequest plus order metrics, exportRequest plus order' metrics, ?_, ?_, ?_, ?_, ?_⟩
  · rw [hbytes, decodeExportRequest_message hlen]
  · exact readExportRequest_buildExportRequest htime
  · exact exportRequest_sameUpToOrder order order' metrics
  · exact exportRequest_deltaStarted order metrics
  · exact exportRequest_deltaStarted order' metrics

def twoMetrics : IndexMap String (List OtlpSample) :=
  ⟨[("http_reqs", [⟨1, [("status", "200"), ("method", "GET")], 200, .counter⟩,
      ⟨2, [("method", "GET"), ("status", "200")], 300, .counter⟩]),
    ("vus", [⟨3, [("scenario", "default")], 250, .point⟩])], by decide⟩

theorem otlp_encoders_agree_twoMetrics :
    (buildExportRequestProtobuf (· + ·) .stable .inserted twoMetrics).length < 2 ^ 64 ∧
    ∃ sent told,
      decodeExportRequest (buildExportRequestProtobuf (· + ·) .stable .inserted twoMetrics) =
        some sent ∧
      readExportRequest (buildExportRequest (· + ·) .inserted twoMetrics) = some told ∧
      sent.SameUpToOrder told ∧ sent.DeltaStarted ∧ told.DeltaStarted := by
  have hlen : (buildExportRequestProtobuf (· + ·) .stable .inserted twoMetrics).length <
      2 ^ 64 := by
    decide +kernel
  exact ⟨hlen, otlp_encoders_agree (· + ·) .stable .inserted .inserted twoMetrics
    (by decide +kernel) hlen⟩

end Tropel
