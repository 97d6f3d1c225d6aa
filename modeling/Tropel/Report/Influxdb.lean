import Mathlib.Data.Bool.AllAny
import Tropel.Lib.Escapes
import Tropel.Report.Csv
import Tropel.Report.TagPolicy

/-!
# Lines for InfluxDB

A sample is a line: the metric and the tags with commas between them, a space, and the field
`value`.

* `readLine_line_iff`: when it is read back.
-/

namespace Tropel

open Lib List

inductive InfluxTarget
  | http | udp
  deriving DecidableEq

structure InfluxdbOutput where
  target : InfluxTarget
  tagPolicy : TagPolicy

namespace InfluxdbOutput

/-! ## Writing -/

def needsEscape (inQuotes : Bool) (c : Char) : Bool :=
  (!inQuotes && (c == ' ' || c == ',' || c == '=')) || (inQuotes && c == '"') || c == '\\' ||
    (c == '\n' || c == '\r' || c == '\t')

def escapeChar (inQuotes : Bool) (c : Char) : Text :=
  if (c = ' ' ∨ c = ',' ∨ c = '=') ∧ !inQuotes then ['\\', c]
  else if c = '"' ∧ inQuotes then ['\\', c]
  else if c = '\\' then ['\\', c]
  else if c = '\n' then ['\\', 'n']
  else if c = '\r' then ['\\', 'r']
  else if c = '\t' then ['\\', 't']
  else [c]

def escape (s : Text) (inQuotes : Bool) : Text :=
  if s.any (needsEscape inQuotes) then s.flatMap (escapeChar inQuotes) else s

def tagText (e : String × String) : Text :=
  escape e.1.toList false ++ '=' :: escape e.2.toList false

def tagSet (tags : TagMap) : Text :=
  if tags.entries.isEmpty then [] else ',' :: [','].intercalate (tags.entries.map tagText)

def valueText (fmt : FloatFormat) (value : ℚ) : Text :=
  let text := fmt.display value
  if '.' ∉ text ∧ 'e' ∉ text then text ++ ".0" else text

def timestampText (o : InfluxdbOutput) (timestamp : ℤ) : Option Text :=
  match o.target with
  | .http => some (Nat.toDigits 10 timestamp.toNat)
  | .udp => none

def line (o : InfluxdbOutput) (fmt : FloatFormat) (sample : Sample) (timestamp : ℤ) : Text :=
  escape sample.metric.toList false ++ tagSet (o.tagPolicy.apply sample.tags) ++
    " value=" ++ valueText fmt sample.value ++
    (o.timestampText timestamp).elim [] (' ' :: ·)

end InfluxdbOutput

/-! ## Reading -/

structure InfluxPoint where
  measurement : Text
  tags : List (Text × Text)
  fields : List (Text × Text)
  timestamp : Option Text
  deriving DecidableEq

namespace InfluxPoint

variable (decode : Char → Char)

def readPair (t : Text) : Option (Text × Text) :=
  (splitOnceUnescaped '=' t).map fun p => (unescape decode p.1, unescape decode p.2)

def readParts (head fields : Text) (timestamp : Option Text) : Option InfluxPoint :=
  match splitUnescaped ',' head with
  | [] => none
  | measurement :: tags => do
    let tags ← tags.mapM (readPair decode)
    let fields ← (splitUnescaped ',' fields).mapM (readPair decode)
    return ⟨unescape decode measurement, tags, fields, timestamp⟩

def readLine (line : Text) : Option InfluxPoint :=
  match splitUnescaped ' ' line with
  | [head, fields] => readParts decode head fields none
  | [head, fields, timestamp] => readParts decode head fields (some timestamp)
  | _ => none

def controlOf (c : Char) : Char :=
  if c = 'n' then '\n' else if c = 'r' then '\r' else if c = 't' then '\t' else c

def letterOf (c : Char) : Char :=
  if c = '\n' then 'n' else if c = '\r' then 'r' else if c = '\t' then 't' else c

end InfluxPoint

namespace InfluxdbOutput

open InfluxPoint

def pointWith (f : Char → Char) (o : InfluxdbOutput) (fmt : FloatFormat) (sample : Sample)
    (timestamp : ℤ) :
    InfluxPoint :=
  ⟨sample.metric.toList.map f,
    (o.tagPolicy.apply sample.tags).entries.map fun e => (e.1.toList.map f, e.2.toList.map f),
    [("value", valueText fmt sample.value)], o.timestampText timestamp⟩

def point (o : InfluxdbOutput) (fmt : FloatFormat) (sample : Sample)
    (timestamp : ℤ) : InfluxPoint :=
  ⟨sample.metric.toList,
    (o.tagPolicy.apply sample.tags).entries.map fun e => (e.1.toList, e.2.toList),
    [("value", valueText fmt sample.value)], o.timestampText timestamp⟩

/-! ## Escapes -/

def Separates (c : Char) : Prop := c = ' ' ∨ c = ',' ∨ c = '='

def IsControl (c : Char) : Prop := c = '\n' ∨ c = '\r' ∨ c = '\t'

variable {metric t : Text} {decode f : Char → Char} {o : InfluxdbOutput} {c : Char} {timestamp : ℤ}
  {fmt : FloatFormat} {sample : Sample} {tags : TagMap}

theorem escapeChar_of_not_needsEscape {q : Bool} (h : needsEscape q c = false) :
    escapeChar q c = [c] := by
  simp only [needsEscape, Bool.or_eq_false_iff, Bool.and_eq_false_iff, beq_eq_false_iff_ne,
    Bool.not_eq_false'] at h
  obtain ⟨⟨⟨hsep, hquote⟩, hback⟩, ⟨hn, hr⟩, ht⟩ := h
  rw [escapeChar, if_neg (by grind), if_neg (by grind), if_neg hback, if_neg hn, if_neg hr,
    if_neg ht]

theorem escape_eq (s : Text) (q : Bool) : escape s q = s.flatMap (escapeChar q) := by
  rw [escape]
  split
  next => rfl
  next h =>
    rw [any_eq_true, not_exists] at h
    refine (flatMap_singleton' s).symm.trans (flatMap_congr fun c hc => ?_)
    exact (escapeChar_of_not_needsEscape (Bool.eq_false_iff.2 fun hq => h c ⟨hc, hq⟩)).symm

theorem escapeChar_cases (c : Char) :
    (escapeChar false c = [c] ∧ c ≠ '\\' ∧ ¬ Separates c ∧ ¬ IsControl c) ∨
      (escapeChar false c = ['\\', c] ∧ (c = '\\' ∨ Separates c)) ∨
      (escapeChar false c = ['\\', letterOf c] ∧ IsControl c) := by
  by_cases hsep : Separates c
  · exact .inr (.inl ⟨if_pos ⟨hsep, rfl⟩, .inr hsep⟩)
  by_cases hctl : IsControl c
  · rcases hctl with rfl | rfl | rfl
    · exact .inr (.inr ⟨by decide, .inl rfl⟩)
    · exact .inr (.inr ⟨by decide, .inr (.inl rfl)⟩)
    · exact .inr (.inr ⟨by decide, .inr (.inr rfl)⟩)
  by_cases hback : c = '\\'
  · subst hback
    exact .inr (.inl ⟨by decide, .inl rfl⟩)
  · refine .inl ⟨escapeChar_of_not_needsEscape ?_, hback, hsep, hctl⟩
    simp only [needsEscape, Separates, IsControl] at hsep hctl ⊢
    grind

theorem guarded_escape (s : Text) : Guarded Separates (escape s false) := by
  rw [escape_eq]
  refine guarded_flatMap (fun c => ?_) s
  rcases escapeChar_cases c with ⟨heq, hback, hsep, -⟩ | ⟨heq, -⟩ | ⟨heq, -⟩
  · exact .inl ⟨heq, hback, hsep⟩
  · exact .inr ⟨c, heq⟩
  · exact .inr ⟨letterOf c, heq⟩

structure Reads (decode f : Char → Char) : Prop where
  plain : ∀ c, ¬ IsControl c → f c = c
  sep : ∀ c, c = '\\' ∨ Separates c → decode c = c
  control : ∀ c, IsControl c → decode (letterOf c) = f c

theorem unescape_escape (h : Reads decode f) (s : Text) :
    unescape decode (escape s false) = s.map f := by
  rw [escape_eq]
  refine unescape_flatMap (fun c => ?_) s
  rcases escapeChar_cases c with ⟨heq, hback, -, hctl⟩ | ⟨heq, hc⟩ | ⟨heq, hctl⟩
  · exact .inl ⟨heq, hback, h.plain c hctl⟩
  · refine .inr ⟨c, heq, (h.sep c hc).trans (h.plain c ?_).symm⟩
    rintro (rfl | rfl | rfl) <;> rcases hc with hc | hc | hc | hc <;> cases hc
  · exact .inr ⟨letterOf c, heq, h.control c hctl⟩

theorem not_isControl_of_mem_escape {s : Text} (h : c ∈ escape s false) : ¬ IsControl c := by
  rw [escape_eq, mem_flatMap] at h
  obtain ⟨d, -, hc⟩ := h
  rcases escapeChar_cases d with ⟨heq, -, -, hctl⟩ | ⟨heq, hd⟩ | ⟨heq, hd⟩
  · rw [heq, mem_singleton] at hc
    exact hc ▸ hctl
  · rw [heq, mem_pair] at hc
    rcases hc with rfl | rfl
    · unfold IsControl; decide
    · rintro (rfl | rfl | rfl) <;> rcases hd with hd | hd | hd | hd <;> cases hd
  · rw [heq, mem_pair] at hc
    rcases hc with rfl | rfl
    · unfold IsControl; decide
    · rcases hd with rfl | rfl | rfl <;> (unfold IsControl; decide)

/-! ## Reading a line back -/

theorem escape_append_tagSet (metric : Text) (tags : TagMap) :
    escape metric false ++ tagSet tags =
      [','].intercalate (escape metric false :: tags.entries.map tagText) := by
  rw [tagSet]
  cases tags.entries with
  | nil => exact (append_nil _).trans (intercalate_singleton).symm
  | cons e es =>
    rw [isEmpty_cons, if_neg Bool.false_ne_true, map_cons, intercalate_cons_cons,
      append_assoc, singleton_append]

theorem guarded_part
    (ht : t ∈ escape metric false :: tags.entries.map tagText) :
    Guarded (fun c => c = ' ' ∨ c = ',') t := by
  have hescape (s : Text) : Guarded (fun c => c = ' ' ∨ c = ',') (escape s false) :=
    (guarded_escape s).mono fun c hc => hc.imp_right .inl
  rw [mem_cons, mem_map] at ht
  rcases ht with rfl | ⟨e, -, rfl⟩
  · exact hescape _
  · exact (hescape _).append (.plain (by decide) (by decide) (hescape _))

theorem readPair_tagText (h : Reads decode f) (e : String × String) :
    readPair decode (tagText e) = some (e.1.toList.map f, e.2.toList.map f) := by
  have hkey : Guarded (· = '=') (escape e.1.toList false) :=
    (guarded_escape _).mono fun c hc => .inr (.inr hc)
  rw [readPair, tagText, splitOnceUnescaped_append (by decide) hkey, Option.map_some,
    unescape_escape h, unescape_escape h]

theorem chars_valueText (fmt : FloatFormat) (value : ℚ) :
    ∀ c ∈ valueText fmt value, c.isAlphanum ∨ c = '-' ∨ c = '.' := by
  intro c hc
  rw [valueText] at hc
  split at hc
  next =>
    rcases mem_append.1 hc with hc | hc
    · exact fmt.chars_display value c hc
    · rcases mem_pair.1 hc with rfl | rfl
      · exact .inr (.inr rfl)
      · exact .inl rfl
  next => exact fmt.chars_display value c hc

theorem chars_timestampText (h : o.timestampText timestamp = some t) :
    ∀ c ∈ t, c.isAlphanum ∨ c = '-' ∨ c = '.' := by
  intro c hc
  rw [timestampText] at h
  split at h
  next =>
    cases h
    exact .inl (CsvReporter.isAlphanum_of_mem_toDigits hc)
  next => cases h

theorem ne_of_numeric {c d : Char} (h : c.isAlphanum ∨ c = '-' ∨ c = '.')
    (hd : d = '\\' ∨ Separates d ∨ IsControl d) : c ≠ d := by
  rintro rfl
  rcases hd with rfl | (rfl | rfl | rfl) | (rfl | rfl | rfl) <;> exact absurd h (by decide)

theorem guarded_numeric {sep : Char → Prop} (hsep : ∀ c, sep c → Separates c)
    (h : ∀ c ∈ t, c.isAlphanum ∨ c = '-' ∨ c = '.') : Guarded sep t :=
  .of_forall fun c hc =>
    ⟨ne_of_numeric (h c hc) (.inl rfl),
      fun hs => ne_of_numeric (h c hc) (.inr (.inl (hsep c hs))) rfl⟩

theorem unescape_numeric (decode : Char → Char) (h : ∀ c ∈ t, c.isAlphanum ∨ c = '-' ∨ c = '.') :
    unescape decode t = t := by
  induction t with
  | nil => rfl
  | cons c t ih =>
    rw [forall_mem_cons] at h
    rw [unescape_cons (ne_of_numeric h.1 (.inl rfl)), ih h.2]

theorem readPair_value (decode : Char → Char) (fmt : FloatFormat) (value : ℚ) :
    readPair decode ("value" ++ '=' :: valueText fmt value) =
      some ("value".toList, valueText fmt value) := by
  have hname : ∀ c ∈ "value".toList, c.isAlphanum ∨ c = '-' ∨ c = '.' := all_iff_forall_prop.1 rfl
  rw [readPair,
    splitOnceUnescaped_append (by decide) (guarded_numeric (fun c hc => .inr (.inr hc)) hname),
    Option.map_some, unescape_numeric decode hname,
      unescape_numeric decode (chars_valueText fmt value)]

theorem guarded_field (fmt : FloatFormat) (value : ℚ) :
    Guarded (fun c => c = ' ' ∨ c = ',') ("value" ++ '=' :: valueText fmt value) := by
  have hsep (c : Char) (hc : c = ' ' ∨ c = ',') : Separates c := hc.imp_right .inl
  exact (guarded_numeric hsep (all_iff_forall_prop.1 rfl)).append
    (.plain (by decide) (by decide) (guarded_numeric hsep (chars_valueText fmt value)))

theorem readParts_eq (h : Reads decode f) (metric : Text) (tags : TagMap)
    (fmt : FloatFormat) (value : ℚ) (timestamp : Option Text) :
    readParts decode (escape metric false ++ tagSet tags)
      ("value" ++ '=' :: valueText fmt value) timestamp =
      some ⟨metric.map f, tags.entries.map fun e => (e.1.toList.map f, e.2.toList.map f),
        [("value", valueText fmt value)], timestamp⟩ := by
  have hcomma (c : Char) (hc : c = ',') : c = ' ' ∨ c = ',' := .inr hc
  have hhead : splitUnescaped ',' (escape metric false ++ tagSet tags) =
      escape metric false :: tags.entries.map tagText := by
    rw [escape_append_tagSet]
    exact splitUnescaped_intercalate (by decide) (cons_ne_nil _ _) fun t ht =>
      (guarded_part ht).mono hcomma
  have htags : (tags.entries.map tagText).mapM (readPair decode) =
      some (tags.entries.map fun e => (e.1.toList.map f, e.2.toList.map f)) := by
    rw [mapM_map]
    exact mapM_eq_some_map fun e _ => readPair_tagText h e
  rw [readParts, hhead]
  dsimp only
  rw [htags, splitUnescaped_eq_singleton ((guarded_field fmt value).mono hcomma), mapM_cons,
    readPair_value, unescape_escape h]
  rfl

theorem readLine_line (h : Reads decode f) (o : InfluxdbOutput) (fmt : FloatFormat)
    (sample : Sample) (timestamp : ℤ) :
    readLine decode (o.line fmt sample timestamp) = some (pointWith f o fmt sample timestamp) := by
  have hspace (c : Char) (hc : c = ' ') : c = ' ' ∨ c = ',' := .inl hc
  have hhead :
      Guarded (· = ' ')
        (escape sample.metric.toList false ++ tagSet (o.tagPolicy.apply sample.tags)) := by
    rw [escape_append_tagSet]
    exact .intercalate (.plain (by decide) (by decide) .nil) fun t ht =>
      (guarded_part ht).mono hspace
  have hfield := (guarded_field fmt sample.value).mono hspace
  have hline : o.line fmt sample timestamp =
      (escape sample.metric.toList false ++ tagSet (o.tagPolicy.apply sample.tags)) ++
        ' ' :: (("value" ++ '=' :: valueText fmt sample.value) ++
          (o.timestampText timestamp).elim [] (' ' :: ·)) := by
    simp only [line, append_assoc]
    rfl
  rw [hline, readLine, splitUnescaped_append (by decide) hhead, pointWith]
  cases hts : o.timestampText timestamp with
  | none =>
    rw [Option.elim_none, append_nil, splitUnescaped_eq_singleton hfield]
    exact readParts_eq h _ _ fmt _ none
  | some t =>
    rw [Option.elim_some, splitUnescaped_append (by decide) hfield,
      splitUnescaped_eq_singleton (guarded_numeric (fun c hc => .inl hc) (chars_timestampText hts))]
    exact readParts_eq h _ _ fmt _ (some t)

/-! ## Control characters -/

theorem not_isControl_of_mem_part
    (ht : t ∈ escape metric false :: tags.entries.map tagText) (hc : c ∈ t) : ¬ IsControl c := by
  rw [mem_cons, mem_map] at ht
  rcases ht with rfl | ⟨e, -, rfl⟩
  · exact not_isControl_of_mem_escape hc
  · rw [tagText, mem_append, mem_cons] at hc
    rcases hc with hc | rfl | hc
    · exact not_isControl_of_mem_escape hc
    · unfold IsControl; decide
    · exact not_isControl_of_mem_escape hc

theorem not_isControl_of_mem_line (h : c ∈ o.line fmt sample timestamp) : ¬ IsControl c := by
  have hnumeric (hc : c.isAlphanum ∨ c = '-' ∨ c = '.') : ¬ IsControl c :=
    fun hctl => ne_of_numeric hc (.inr (.inr hctl)) rfl
  rw [line, escape_append_tagSet, mem_append, mem_append, mem_append] at h
  rcases h with ((h | h) | h) | h
  · rcases of_mem_intercalate h with hc | ⟨t, ht, hc⟩
    · rw [mem_singleton.1 hc]
      unfold IsControl; decide
    · exact not_isControl_of_mem_part ht hc
  · have hname : ∀ c ∈ " value=".toList, ¬ (c = '\n' ∨ c = '\r' ∨ c = '\t') :=
      all_iff_forall_prop.1 rfl
    exact hname c h
  · exact hnumeric (chars_valueText fmt _ c h)
  · cases hts : o.timestampText timestamp with
    | none =>
      rw [hts] at h
      cases h
    | some t =>
      rw [hts, Option.elim_some, mem_cons] at h
      rcases h with rfl | h
      · unfold IsControl; decide
      · exact hnumeric (chars_timestampText hts c h)

theorem reads_controlOf : Reads controlOf id where
  plain _ _ := rfl
  sep := by rintro c (rfl | rfl | rfl | rfl) <;> rfl
  control := by rintro c (rfl | rfl | rfl) <;> rfl

theorem reads_id : Reads id letterOf where
  plain c hc := by
    simp only [IsControl, not_or] at hc
    rw [letterOf, if_neg hc.1, if_neg hc.2.1, if_neg hc.2.2]
  sep _ _ := rfl
  control _ _ := rfl

theorem map_letterOf_eq_iff : t.map letterOf = t ↔ ∀ c ∈ t, ¬ IsControl c := by
  have hid : t.map letterOf = t ↔ ∀ c ∈ t, letterOf c = c := by
    conv_lhs => rhs; rw [← List.map_id t]
    exact map_inj_left
  rw [hid]
  refine forall₂_congr fun c _ => ⟨?_, reads_id.plain c⟩
  rintro h (rfl | rfl | rfl) <;> cases h

def texts (o : InfluxdbOutput) (sample : Sample) : List Text :=
  sample.metric.toList ::
    (o.tagPolicy.apply sample.tags).entries.flatMap fun e => [e.1.toList, e.2.toList]

theorem pointWith_letterOf_eq_iff :
    pointWith letterOf o fmt sample timestamp = o.point fmt sample timestamp ↔
      ∀ t ∈ o.texts sample, ∀ c ∈ t, ¬ IsControl c := by
  rw [pointWith, point, InfluxPoint.mk.injEq, map_letterOf_eq_iff, map_inj_left, texts,
    forall_mem_cons, forall_mem_flatMap]
  simp only [Prod.mk.injEq, map_letterOf_eq_iff, and_true, forall_mem_cons, not_mem_nil,
    false_imp_iff, implies_true]

/-- A line is one line. A reader that knows the letters of control characters finds the metric, the
    forwarded tags and the field `value` in it. One that takes each character behind a backslash for
    itself does unless one of the texts has a line break, a carriage return or a tab. -/
theorem readLine_line_iff (o : InfluxdbOutput) (fmt : FloatFormat) (sample : Sample)
    (timestamp : ℤ) :
    '\n' ∉ o.line fmt sample timestamp ∧ '\r' ∉ o.line fmt sample timestamp ∧
      readLine controlOf (o.line fmt sample timestamp) = some (o.point fmt sample timestamp) ∧
      (readLine id (o.line fmt sample timestamp) = some (o.point fmt sample timestamp) ↔
        ∀ t ∈ o.texts sample, '\n' ∉ t ∧ '\r' ∉ t ∧ '\t' ∉ t) := by
  refine ⟨fun h => not_isControl_of_mem_line h (.inl rfl),
    fun h => not_isControl_of_mem_line h (.inr (.inl rfl)), ?_, ?_⟩
  · rw [readLine_line reads_controlOf, pointWith]
    simp only [List.map_id]
    rfl
  · rw [readLine_line reads_id, Option.some_inj, pointWith_letterOf_eq_iff]
    refine forall₂_congr fun t _ => ⟨fun h => ?_, fun h c hc hctl => ?_⟩
    · exact ⟨fun hc => h _ hc (.inl rfl), fun hc => h _ hc (.inr (.inl rfl)),
        fun hc => h _ hc (.inr (.inr rfl))⟩
    · rcases hctl with rfl | rfl | rfl
      · exact h.1 hc
      · exact h.2.1 hc
      · exact h.2.2 hc

theorem readLine_line_break :
    readLine id (line ⟨.udp, .default⟩ CsvReporter.wholeNumbers ⟨"a\nb", ⟨[], .nil⟩, 1,
      .counter⟩ 0) =
        some ⟨"anb", [], [("value", "1.0")], none⟩ ∧
      point ⟨.udp, .default⟩ CsvReporter.wholeNumbers ⟨"a\nb", ⟨[], .nil⟩, 1, .counter⟩ 0 =
        ⟨"a\nb", [], [("value", "1.0")], none⟩ := by
  have hvalue : valueText CsvReporter.wholeNumbers 1 = "1.0" := by decide +kernel
  refine ⟨(readLine_line reads_id _ _ _ 0).trans ?_, ?_⟩
  · rw [pointWith, hvalue]
    rfl
  · rw [point, hvalue]
    rfl

end InfluxdbOutput

end Tropel
