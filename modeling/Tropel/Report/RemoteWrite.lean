import Mathlib.Data.Bool.AllAny
import Tropel.Report.OtlpAgree
import Tropel.Report.TagPolicy

/-!
# Series for Prometheus

A sample belongs to a *series*: its metric and its tags, as labels.

* `wellFormed_expandSeries_iff`: when the server takes it.
-/

namespace Tropel

open Lib Lib.Wire List

/-! ## Names -/

def isNameStart (c : Char) : Bool := c.isAlpha || c == '_'

def isNameChar (c : Char) : Bool := c.isAlphanum || c == '_'

def needsFix : Text → Bool
  | [] => false
  | c :: cs => !isNameStart c || cs.any (!isNameChar ·)

def fixName : Text → Text
  | [] => []
  | c :: cs => (if isNameStart c then c else '_') :: cs.map fun d => if isNameChar d then d else '_'

def sanitizePrometheusName (s : String) : String :=
  if !needsFix s.toList && !s.toList.isEmpty then s
  else
    let out := fixName s.toList
    .ofList (if out.isEmpty then ['_'] else out)

def IsPrometheusName (s : String) : Prop :=
  match s.toList with
  | [] => False
  | c :: cs => isNameStart c ∧ ∀ d ∈ cs, isNameChar d

/-! ## Series -/

structure SeriesKey where
  metric : String
  labels : List (String × String)
  deriving DecidableEq

def nameLabel : String := "__name__"

def tagLabels (tags : TagMap) : List (String × String) :=
  (tags.entries.filter fun e => e.1 ≠ nameLabel).map fun e => (sanitizePrometheusName e.1, e.2)

def SeriesKey.fromParts (metric : String) (tags : TagMap) : SeriesKey :=
  let metricName := sanitizePrometheusName metric
  ⟨metricName, sortTags (tagLabels tags ++ [(nameLabel, metricName)])⟩

structure SeriesAgg where
  sampleType : SampleType
  count : ℕ
  sum : ℚ
  last : ℚ
  deriving DecidableEq

def setName (value : String) : List (String × String) → List (String × String)
  | [] => []
  | l :: ls => if l.1 = nameLabel then (l.1, value) :: ls else l :: setName value ls

def SeriesKey.suffixed (key : SeriesKey) (s : String) : SeriesKey :=
  ⟨key.metric ++ s, setName (key.metric ++ s) key.labels⟩

def expandSeries (key : SeriesKey) (agg : SeriesAgg) (tsMs : Int64)
    (cumulative : IndexMap SeriesKey ℚ) (maxCumulative : ℕ) :
    List (SeriesKey × List (ℚ × Int64)) × IndexMap SeriesKey ℚ :=
  match agg.sampleType with
  | .counter | .rate =>
    if cumulative.length ≥ maxCumulative ∧ (cumulative.get key).isNone then ([], cumulative)
    else
      let cumulative := cumulative.upsert key 0 (· + agg.sum)
      ([(key, [((cumulative.get key).getD 0, tsMs)])], cumulative)
  | .point => ([(key, [(agg.last, tsMs)])], cumulative)
  | .trend =>
    let countKey := key.suffixed "_count"
    let sumKey := key.suffixed "_sum"
    let countIsNew := (cumulative.get countKey).isNone
    let sumIsNew := (cumulative.get sumKey).isNone
    if cumulative.length ≥ maxCumulative ∧ (countIsNew ∨ sumIsNew) then ([], cumulative)
    else
      let counted := cumulative.upsert countKey 0 (· + (agg.count : ℚ))
      let summed := counted.upsert sumKey 0 (· + agg.sum)
      ([(countKey, [((counted.get countKey).getD 0, tsMs)]),
        (sumKey, [((summed.get sumKey).getD 0, tsMs)])], summed)

/-! ## Messages -/

def writeVarint (v : UInt64) : List UInt8 := putVarint v

def writeKey (field wireType : ℕ) : List UInt8 :=
  writeVarint (UInt64.ofNat (field <<< 3 ||| wireType))

variable (field : ℕ)

def writeBytesField (data : List UInt8) : List UInt8 :=
  writeKey field 2 ++ writeVarint (UInt64.ofNat data.length) ++ data

def writeStringField (s : String) : List UInt8 := writeBytesField field (utf8 s)

def writeDoubleField (v : UInt64) : List UInt8 := writeKey field 1 ++ le 8 v.toNat

def writeVarintField (v : UInt64) : List UInt8 := writeKey field 0 ++ writeVarint v

def encodeLabel (l : String × String) : List UInt8 :=
  writeStringField 1 l.1 ++ writeStringField 2 l.2

def encodeSample (s : UInt64 × Int64) : List UInt8 :=
  writeDoubleField 1 s.1 ++ writeVarintField 2 s.2.toUInt64

def encodeTimeSeries (labels : List (String × String))
    (samples : List (UInt64 × Int64)) : List UInt8 :=
  labels.flatMap (fun l => writeBytesField 1 (encodeLabel l)) ++
    samples.flatMap fun s => writeBytesField 2 (encodeSample s)

def encodeWriteRequest (series : List (SeriesKey × List (UInt64 × Int64))) : List UInt8 :=
  series.flatMap fun e => writeBytesField 1 (encodeTimeSeries e.1.labels e.2)

structure TimeSeries where
  labels : List (String × String)
  samples : List (UInt64 × Int64)
  deriving DecidableEq

def decodeLabel : List UInt8 → Option (String × String) := decodeMessage [1, 2] fun fields => do
  let name ← once 1 decodeString fields
  let value ← once 2 decodeString fields
  return (name, value)

def decodeSample : List UInt8 → Option (UInt64 × Int64) := decodeMessage [1, 2] fun fields => do
  let value ← once 1 decodeFixed64 fields
  let timestamp ← once 2 decodeVarint fields
  return (value, timestamp.toInt64)

def decodeTimeSeries : List UInt8 → Option TimeSeries := decodeMessage [1, 2] fun fields => do
  let labels ← repeated 1 (nested decodeLabel) fields
  let samples ← repeated 2 (nested decodeSample) fields
  return ⟨labels, samples⟩

def decodeWriteRequest : List UInt8 → Option (List TimeSeries) :=
  decodeMessage [1] (repeated 1 (nested decodeTimeSeries))

theorem IsPrometheusName.append {s t : String} (hs : IsPrometheusName s)
    (ht : ∀ c ∈ t.toList, isNameChar c) :
    IsPrometheusName (s ++ t) := by
  rw [IsPrometheusName] at hs ⊢
  rw [String.toList_append]
  cases hchars : s.toList with
  | nil =>
    rw [hchars] at hs
    exact hs.elim
  | cons c cs =>
    rw [hchars] at hs
    exact ⟨hs.1, forall_mem_append.2 ⟨hs.2, ht⟩⟩

theorem isPrometheusName_nameLabel : IsPrometheusName nameLabel := by
  have hchars : isNameStart '_' ∧ ∀ d ∈ "_name__".toList, isNameChar d :=
    ⟨by decide, all_iff_forall_prop.1 rfl⟩
  exact hchars

theorem isPrometheusName_sanitize (s : String) : IsPrometheusName (sanitizePrometheusName s) := by
  rw [sanitizePrometheusName, IsPrometheusName]
  split_ifs with h
  · cases hchars : s.toList with
    | nil => simp [hchars] at h
    | cons c cs =>
      rw [hchars] at h
      simpa [needsFix] using h
  · rw [String.toList_ofList]
    cases s.toList with
    | nil => exact ⟨rfl, forall_mem_nil _⟩
    | cons c cs =>
      refine ⟨?_, forall_mem_map.2 fun d _ => ?_⟩
      · split
        next hc => exact hc
        next => rfl
      · split
        next hd => exact hd
        next => rfl

/-! ## Labels in order -/

/-- The labels of a series are as the server demands: the names are valid and in strict
    order, and there is one `__name__`, with a valid name. -/
structure SeriesKey.WellFormed (key : SeriesKey) : Prop where
  names : ∀ l ∈ key.labels, IsPrometheusName l.1
  sorted : key.labels.Pairwise fun l l' => l.1 < l'.1
  name : ∃ value, key.labels.filter (fun l => l.1 = nameLabel) = [(nameLabel, value)] ∧
    IsPrometheusName value

def SeparateNames (tags : TagMap) : Prop := (nameLabel :: (tagLabels tags).map Prod.fst).Nodup

instance (tags : TagMap) : Decidable (SeparateNames tags) :=
  inferInstanceAs (Decidable (List.Nodup _))

theorem perm_sortTags (l : List (String × String)) : (sortTags l).Perm l := perm_insertionSort _ l

theorem pairwise_sortTags (l : List (String × String)) : (sortTags l).Pairwise tagLe :=
  pairwise_insertionSort _ l

variable {l ls : List (String × String)} {s metric : String} {key : SeriesKey} {ts : TimeSeries}
  {tags : TagMap}

theorem pairwise_lt_sortTags_iff : ((sortTags l).Pairwise fun a b => a.1 < b.1) ↔
    (l.map Prod.fst).Nodup := by
  have hnodup : (l.map Prod.fst).Nodup ↔ (sortTags l).Pairwise fun a b => a.1 ≠ b.1 := by
    rw [← ((perm_sortTags l).map Prod.fst).nodup_iff, nodup_iff_pairwise_ne, pairwise_map]
  rw [hnodup]
  refine ⟨List.Pairwise.imp ne_of_lt, fun hne => ((pairwise_sortTags l).and hne).imp ?_⟩
  rintro a b ⟨hle, hne⟩
  rcases Prod.Lex.toLex_le_toLex.1 hle with hlt | ⟨heq, -⟩
  · exact hlt
  · exact absurd heq hne

theorem filter_sortTags_eq (h : nameLabel ∉ l.map Prod.fst) (value : String) :
    (sortTags (l ++ [(nameLabel, value)])).filter (fun l => l.1 = nameLabel) =
      [(nameLabel, value)] := by
  have hnil : l.filter (fun l => l.1 = nameLabel) = [] := by
    refine filter_eq_nil_iff.2 fun e he heq => h ?_
    exact mem_map.2 ⟨e, he, of_decide_eq_true heq⟩
  have hperm := (perm_sortTags (l ++ [(nameLabel, value)])).filter fun l => l.1 = nameLabel
  rw [filter_append, hnil, nil_append, filter_cons_of_pos (by simp)] at hperm
  exact perm_singleton.1 hperm

theorem nodup_names_iff (tags : TagMap) (value : String) :
    ((tagLabels tags ++ [(nameLabel, value)]).map Prod.fst).Nodup ↔ SeparateNames tags := by
  rw [map_append, map_singleton, SeparateNames]
  exact (perm_append_singleton nameLabel _).nodup_iff

theorem wellFormed_fromParts_iff : (SeriesKey.fromParts metric tags).WellFormed ↔
    SeparateNames tags := by
  rw [← nodup_names_iff tags (sanitizePrometheusName metric), ← pairwise_lt_sortTags_iff]
  refine ⟨SeriesKey.WellFormed.sorted,
    fun h => ⟨fun l hl => ?_, h, sanitizePrometheusName metric, ?_, ?_⟩⟩
  · rw [SeriesKey.fromParts, (perm_sortTags _).mem_iff, mem_append, mem_singleton] at hl
    rcases hl with hl | rfl
    · obtain ⟨e, -, rfl⟩ := mem_map.1 hl
      exact isPrometheusName_sanitize e.1
    · exact isPrometheusName_nameLabel
  · rw [pairwise_lt_sortTags_iff, nodup_names_iff, SeparateNames, nodup_cons] at h
    exact filter_sortTags_eq h.1 _
  · exact isPrometheusName_sanitize metric

/-! ## The series of a trend -/

theorem map_fst_setName (value : String) (ls : List (String × String)) :
    (setName value ls).map Prod.fst = ls.map Prod.fst := by
  induction ls with
  | nil => rfl
  | cons l ls ih =>
    rw [setName]
    split
    · rfl
    · rw [map_cons, ih, map_cons]

theorem filter_setName {value v : String}
    (h : ls.filter (fun l => l.1 = nameLabel) = [(nameLabel, v)]) :
    (setName value ls).filter (fun l => l.1 = nameLabel) = [(nameLabel, value)] := by
  induction ls with
  | nil => cases h
  | cons l ls ih =>
    rw [setName]
    split
    next hl =>
      rw [filter_cons_of_pos (by simpa using hl), List.cons.injEq] at h
      rw [filter_cons_of_pos (by simpa using hl), h.2, hl]
    next hl =>
      rw [filter_cons_of_neg (by simpa using hl)] at h ⊢
      exact ih h

theorem forall_mem_iff_of_map_fst_eq {p : String → Prop} {ls ls' : List (String × String)}
    (h : ls.map Prod.fst = ls'.map Prod.fst) : (∀ l ∈ ls, p l.1) ↔ ∀ l ∈ ls', p l.1 := by
  rw [← forall_mem_map (P := p), h, forall_mem_map]

theorem SeriesKey.WellFormed.suffixed (h : key.WellFormed) (hmetric : IsPrometheusName key.metric)
    (hs : ∀ c ∈ s.toList, isNameChar c) : (key.suffixed s).WellFormed where
  names := (forall_mem_iff_of_map_fst_eq (map_fst_setName _ _)).2 h.names
  sorted := by
    have hsorted := h.sorted
    rw [← pairwise_map (f := Prod.fst) (R := (· < ·))] at hsorted ⊢
    rwa [SeriesKey.suffixed, map_fst_setName]
  name := by
    obtain ⟨v, hfilter, -⟩ := h.name
    exact ⟨_, filter_setName hfilter, hmetric.append hs⟩

def outputKeys (key : SeriesKey) : SampleType → List SeriesKey
  | .counter | .rate | .point => [key]
  | .trend => [key.suffixed "_count", key.suffixed "_sum"]

theorem of_mem_expandSeries {agg : SeriesAgg} {tsMs : Int64} {cumulative : IndexMap SeriesKey ℚ}
    {maxCumulative : ℕ} {e : SeriesKey × List (ℚ × Int64)}
    (he : e ∈ (expandSeries key agg tsMs cumulative maxCumulative).1) :
    e.1 ∈ outputKeys key agg.sampleType ∧ ∃ value, e.2 = [(value, tsMs)] := by
  rw [expandSeries] at he
  cases htype : agg.sampleType with
  | counter | rate =>
    simp only [htype] at he
    split at he
    · cases he
    · rw [mem_singleton.1 he]
      exact ⟨mem_singleton.2 rfl, _, rfl⟩
  | point =>
    simp only [htype] at he
    rw [mem_singleton.1 he]
    exact ⟨mem_singleton.2 rfl, _, rfl⟩
  | trend =>
    simp only [htype] at he
    split at he
    · cases he
    · rcases mem_pair.1 he with rfl | rfl
      · exact ⟨mem_cons_self, _, rfl⟩
      · exact ⟨mem_cons_of_mem _ (mem_singleton.2 rfl), _, rfl⟩

theorem wellFormed_outputKeys (h : SeparateNames tags) {t : SampleType}
    (hkey : key ∈ outputKeys (.fromParts metric tags) t) : key.WellFormed := by
  have hwf : (SeriesKey.fromParts metric tags).WellFormed := wellFormed_fromParts_iff.2 h
  have hmetric : IsPrometheusName (SeriesKey.fromParts metric tags).metric :=
    isPrometheusName_sanitize metric
  cases t with
  | counter | rate | point =>
    rw [mem_singleton.1 hkey]
    exact hwf
  | trend =>
    rcases mem_pair.1 hkey with rfl | rfl <;> exact hwf.suffixed hmetric (all_iff_forall_prop.1 rfl)

/-! ## Messages are read back -/

def labelFields (l : String × String) : List Field := [⟨1, .len (utf8 l.1)⟩, ⟨2, .len (utf8 l.2)⟩]

def sampleFields (s : UInt64 × Int64) : List Field := [⟨1, .fixed64 s.1⟩, ⟨2, .varint s.2.toUInt64⟩]

def timeSeriesFields (ts : TimeSeries) : List Field :=
  ts.labels.map (fun l => ⟨1, .len (message (labelFields l))⟩) ++
    ts.samples.map fun s => ⟨2, .len (message (sampleFields s))⟩

theorem writeBytesField_eq {field : ℕ} {data : List UInt8} (hfield : field < 2 ^ 29)
    (h : (writeBytesField field data).length < 2 ^ 64) :
    writeBytesField field data = (⟨field, .len data⟩ : Field).bytes :=
  putMsgField_eq hfield ((length_le_length_putMsgField field data).trans_lt h)

theorem length_le_length_writeBytesField (data : List UInt8) :
    data.length ≤ (writeBytesField field data).length := length_le_length_putMsgField field data

theorem encodeLabel_eq {l : String × String} (h : (encodeLabel l).length < 2 ^ 64) :
    encodeLabel l = message (labelFields l) := by
  rw [encodeLabel, length_append] at h
  rw [encodeLabel, writeStringField, writeStringField,
    writeBytesField_eq (by decide) (by rw [← writeStringField]; omega),
    writeBytesField_eq (by decide) (by rw [← writeStringField]; omega), labelFields, message_cons,
      message_singleton]

theorem encodeSample_eq (s : UInt64 × Int64) : encodeSample s = message (sampleFields s) := by
  rw [encodeSample, sampleFields, message_cons, message_singleton, ← putFixed64_eq (by decide),
    ← putVarintField_eq (by decide)]
  rfl

theorem encodeTimeSeries_eq (h : (encodeTimeSeries ts.labels ts.samples).length < 2 ^ 64) :
    encodeTimeSeries ts.labels ts.samples = message (timeSeriesFields ts) := by
  rw [encodeTimeSeries, length_append] at h
  rw [encodeTimeSeries, timeSeriesFields, message_append]
  congr 1
  · refine flatMap_eq_message (fun l hl => ?_) (Nat.lt_of_le_of_lt (Nat.le_add_right _ _) h)
    rw [writeBytesField_eq (by decide) hl,
      encodeLabel_eq ((length_le_length_writeBytesField 1 _).trans_lt hl)]
  · refine flatMap_eq_message (fun s hs => ?_) (Nat.lt_of_le_of_lt (Nat.le_add_left _ _) h)
    rw [writeBytesField_eq (by decide) hs, encodeSample_eq]

theorem decodeLabel_message {l : String × String} (h : (message (labelFields l)).length < 2 ^ 64) :
    decodeLabel (message (labelFields l)) = some l := by
  rw [decodeLabel, decodeMessage_message (by decide) (by simp [OnlyNumbers, labelFields]) h]
  simp [labelFields, once, repeated_cons]

theorem decodeSample_message {s : UInt64 × Int64} (h : (message (sampleFields s)).length < 2 ^ 64) :
    decodeSample (message (sampleFields s)) = some s := by
  rw [decodeSample, decodeMessage_message (by decide) (by simp [OnlyNumbers, sampleFields]) h]
  simp [sampleFields, once, repeated_cons, decodeFixed64, decodeVarint]

theorem decodeTimeSeries_message (h : (message (timeSeriesFields ts)).length < 2 ^ 64) :
    decodeTimeSeries (message (timeSeriesFields ts)) = some ts := by
  have honly : OnlyNumbers [1, 2] (timeSeriesFields ts) := by
    refine forall_mem_append.2 ⟨forall_mem_map.2 fun l _ => ?_, forall_mem_map.2 fun s _ => ?_⟩
    · exact mem_cons_self
    · exact mem_cons_of_mem _ mem_cons_self
  have hlabels :
      repeated 1 (nested decodeLabel) (ts.labels.map fun l => ⟨1, .len (message (labelFields l))⟩) =
      some ts.labels :=
    repeated_nested h (fun _ => decodeLabel_message) fun l hl =>
      mem_append_left _ (mem_map.2 ⟨l, hl, rfl⟩)
  have hsamples : repeated 2 (nested decodeSample)
      (ts.samples.map fun s => ⟨2, .len (message (sampleFields s))⟩) =
      some ts.samples :=
    repeated_nested h (fun _ => decodeSample_message) fun s hs =>
      mem_append_right _ (mem_map.2 ⟨s, hs, rfl⟩)
  rw [decodeTimeSeries, decodeMessage_message (by decide) honly h]
  simp [timeSeriesFields, repeated_append, repeated_map_of_ne, hlabels, hsamples]

theorem decodeWriteRequest_encodeWriteRequest {series : List (SeriesKey × List (UInt64 × Int64))}
    (h : (encodeWriteRequest series).length < 2 ^ 64) :
    decodeWriteRequest (encodeWriteRequest series) =
      some (series.map fun e => ⟨e.1.labels, e.2⟩) := by
  have hmessage : encodeWriteRequest series =
      message ((series.map fun e => (⟨e.1.labels, e.2⟩ : TimeSeries)).map
      fun ts => ⟨1, .len (message (timeSeriesFields ts))⟩) := by
    rw [List.map_map]
    refine flatMap_eq_message (fun e he => ?_) h
    rw [writeBytesField_eq (by decide) he,
      @encodeTimeSeries_eq ⟨e.1.labels, e.2⟩ ((length_le_length_writeBytesField 1 _).trans_lt he)]
    rfl
  rw [hmessage] at h ⊢
  have honly : OnlyNumbers [1] ((series.map fun e => (⟨e.1.labels, e.2⟩ : TimeSeries)).map
      fun ts => ⟨1, .len (message (timeSeriesFields ts))⟩) :=
    forall_mem_map.2 fun ts _ => mem_cons_self
  rw [decodeWriteRequest, decodeMessage_message (by decide) honly h]
  exact repeated_nested h (fun _ => decodeTimeSeries_message) fun ts hts => mem_map.2 ⟨ts, hts, rfl⟩

/-- The series of a metric with tags, and those that are sent, are as the server demands exactly if
    the names of the tags, made valid, do not clash. A request is always read back as its series. -/
theorem wellFormed_expandSeries_iff (metric : String) (tags : TagMap) :
    ((SeriesKey.fromParts metric tags).WellFormed ↔ SeparateNames tags) ∧
      ((∀ agg tsMs cumulative maxCumulative,
          ∀ e ∈ (expandSeries (.fromParts metric tags) agg tsMs cumulative maxCumulative).1,
            e.1.WellFormed) ↔
        SeparateNames tags) ∧
      ∀ series, (encodeWriteRequest series).length < 2 ^ 64 →
        decodeWriteRequest (encodeWriteRequest series) =
          some (series.map fun e => ⟨e.1.labels, e.2⟩) := by
  refine ⟨wellFormed_fromParts_iff,
    ⟨fun h => ?_, fun h agg tsMs cumulative maxCumulative e he => ?_⟩,
    fun series => decodeWriteRequest_encodeWriteRequest⟩
  · -- A point is sent as it is, whatever the totals are.
    exact wellFormed_fromParts_iff.1 (h ⟨.point, 0, 0, 0⟩ 0 ∅ 0 _ mem_cons_self)
  · exact wellFormed_outputKeys h (of_mem_expandSeries he).1

theorem fromParts_clash : (SeriesKey.fromParts "m" (.ofPairs [("a-b", "1"), ("a_b", "2")])).labels =
        [("__name__", "m"), ("a_b", "1"), ("a_b", "2")] ∧
      (SeriesKey.fromParts "m" (.ofPairs [("_-name__", "x")])).labels =
        [("__name__", "m"), ("__name__", "x")] := by
  decide

end Tropel
