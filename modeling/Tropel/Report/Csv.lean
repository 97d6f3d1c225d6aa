import Tropel.Lib.Csv
import Tropel.Lib.Decimal
import Tropel.Metrics.Series

/-!
# The CSV report

The report has a comment line, a line of column names, and a line for every series.

* `parsesBack_iff`: when it is read back.
-/

namespace Tropel

open Lib List

variable {hdr : Hdr}

structure FloatFormat where
  display : ℚ → Text
  fixed : ℚ → Text
  chars_display : ∀ x, ∀ c ∈ display x, c.isAlphanum ∨ c = '-' ∨ c = '.'
  chars_fixed : ∀ x, ∀ c ∈ fixed x, c.isAlphanum ∨ c = '-' ∨ c = '.'

namespace CsvReporter

def comment (result : MetricsResult hdr) : Text :=
  "# unverified=".toList ++ (if result.isUnverified then "true".toList else "false".toList) ++
    ",dropped_iterations=".toList ++ Nat.toDigits 10 result.droppedIterations ++
    ",series_dropped=".toList ++ Nat.toDigits 10 result.seriesDropped ++
    ",samples_dropped=".toList ++ Nat.toDigits 10 result.outputSamplesDropped

variable (fmt : FloatFormat) (metric : MetricSummary hdr)

def numbers : List Text :=
  [Nat.toDigits 10 metric.count, fmt.display metric.sum, fmt.fixed metric.mean,
    fmt.display metric.min, fmt.display metric.max, fmt.display metric.p50, fmt.display metric.p90,
      fmt.display metric.p95,
    fmt.display metric.p99]

def row : Text :=
  [','].intercalate (metric.key.toList :: numbers fmt metric) ++ "\n".toList

def render (result : MetricsResult hdr) : Text :=
  comment result ++ "\nkey,count,sum,mean,min,max,p50,p90,p95,p99\n".toList ++
    result.metrics.flatMap (row fmt)

/-! ## Reading the report -/

def columns : List Text :=
  ["key", "count", "sum", "mean", "min", "max", "p50", "p90", "p95", "p99"].map String.toList

/-- After its first line, the report is read as the names of the columns and a record for
    each series, in order, that has a field for each column and the key for the first. -/
def ParsesBack (result : MetricsResult hdr) : Prop :=
  ∃ first body records, splitOnce '\n' (render fmt result) = some (first, body) ∧
    Csv.parse body = some (columns :: records) ∧
    List.Forall₂ (fun metric record => record.length = columns.length ∧
      record.head? = some metric.key.toList)
      result.metrics records

theorem plain_toDigits (n : ℕ) : Csv.Plain (Nat.toDigits 10 n) := by
  intro c hc hsep
  have hdigit := isDigit_of_mem_toDigits hc
  simp only [Csv.separators, mem_cons, not_mem_nil, or_false] at hsep
  rcases hsep with rfl | rfl | rfl | rfl <;> cases hdigit

theorem plain_of_chars {t : Text} (h : ∀ c ∈ t, c.isAlphanum ∨ c = '-' ∨ c = '.') :
    Csv.Plain t := by
  intro c hc hsep
  have hchar := h c hc
  simp only [Csv.separators, mem_cons, not_mem_nil, or_false] at hsep
  rcases hsep with rfl | rfl | rfl | rfl <;> exact absurd hchar (by decide)

theorem plain_numbers : ∀ f ∈ numbers fmt metric, Csv.Plain f := by
  have hdisplay (x : ℚ) := plain_of_chars (fmt.chars_display x)
  have hfixed (x : ℚ) := plain_of_chars (fmt.chars_fixed x)
  simp only [numbers, forall_mem_cons, hdisplay, hfixed, plain_toDigits, not_mem_nil, false_imp_iff,
    implies_true, and_self]

theorem not_mem_comment (result : MetricsResult hdr) : '\n' ∉ comment result := by
  have hsep : '\n' ∈ Csv.separators := by decide
  have hdigits (n : ℕ) : '\n' ∉ Nat.toDigits 10 n := by
    intro h
    exact plain_toDigits n '\n' h hsep
  have hbool (b : Bool) : '\n' ∉ (if b then "true".toList else "false".toList) := by
    cases b <;> decide
  have hunverified : '\n' ∉ "# unverified=".toList := by decide
  have hiterations : '\n' ∉ ",dropped_iterations=".toList := by decide
  have hseries : '\n' ∉ ",series_dropped=".toList := by decide
  have hsamples : '\n' ∉ ",samples_dropped=".toList := by decide
  refine not_mem_append (not_mem_append ?_ hsamples) (hdigits _)
  refine not_mem_append (not_mem_append ?_ hseries) (hdigits _)
  refine not_mem_append (not_mem_append ?_ hiterations) (hdigits _)
  exact not_mem_append hunverified (hbool _)

theorem splitOnce_render (result : MetricsResult hdr) :
    splitOnce '\n' (render fmt result) = some (comment result,
      Csv.line columns ++ result.metrics.flatMap (row fmt)) := by
  have hheader : "\nkey,count,sum,mean,min,max,p50,p90,p95,p99\n".toList =
      '\n' :: Csv.line columns := by decide
  rw [render, hheader, append_assoc, cons_append, splitOnce_append (not_mem_comment result)]

def lines (result : MetricsResult hdr) : List (Text × List Text) :=
  ("key".toList, columns.tail) :: result.metrics.map fun metric =>
    (metric.key.toList, numbers fmt metric)

theorem plain_lines (result : MetricsResult hdr) : ∀ l ∈ lines fmt result, l.2 ≠ [] ∧ ∀ f ∈ l.2,
    Csv.Plain f := by
  refine forall_mem_cons.2 ⟨⟨by decide, by decide⟩, forall_mem_map.2 fun metric _ => ⟨?_, ?_⟩⟩
  · exact cons_ne_nil _ _
  · exact plain_numbers fmt metric

theorem flatMap_lines (result : MetricsResult hdr) :
    (lines fmt result).flatMap (fun l => Csv.line (l.1 :: l.2)) =
      Csv.line columns ++ result.metrics.flatMap (row fmt) := by
  rw [lines, flatMap_cons, flatMap_map]
  rfl

theorem parsesBack_iff_plain (result : MetricsResult hdr) :
    ParsesBack fmt result ↔ ∀ metric ∈ result.metrics, Csv.Plain metric.key.toList := by
  constructor
  · rintro ⟨first, body, records, hsplit, hparse, hrecords⟩ metric hmetric
    rw [splitOnce_render, ← flatMap_lines] at hsplit
    cases hsplit
    have hheads : List.Forall₂ (fun l record => record.head? = some l.1) (lines fmt result)
        (columns :: records) :=
      .cons rfl (forall₂_map_left_iff.2 (hrecords.imp fun _ _ h => h.2))
    exact Csv.plain_of_heads (plain_lines fmt result) hparse hheads _
      (mem_cons_of_mem _ (mem_map_of_mem hmetric))
  · intro hplain
    refine ⟨_, _, result.metrics.map fun metric => metric.key.toList :: numbers fmt metric,
      splitOnce_render fmt result, ?_, ?_⟩
    · rw [show Csv.line columns ++ result.metrics.flatMap (row fmt) =
        (columns :: result.metrics.map fun metric =>
          metric.key.toList :: numbers fmt metric).flatMap Csv.line by
          rw [flatMap_cons, flatMap_map]; rfl]
      refine Csv.parse_lines (forall_mem_cons.2 ⟨⟨by decide, by decide⟩, forall_mem_map.2 ?_⟩)
      intro metric hmetric
      exact ⟨cons_ne_nil _ _, forall_mem_cons.2 ⟨hplain metric hmetric, plain_numbers fmt metric⟩⟩
    · exact forall₂_map_right_iff.2 (forall₂_same.2 fun metric _ => ⟨rfl, rfl⟩)

/-! ## Keys -/

theorem plain_tag (t : String × String) :
    Csv.Plain (t.1 ++ "=" ++ t.2).toList ↔ Csv.Plain t.1.toList ∧ Csv.Plain t.2.toList := by
  have heq : Csv.Plain "=".toList := by decide
  rw [String.toList_append, String.toList_append, Csv.plain_append, Csv.plain_append,
    and_iff_left heq]

theorem plain_toKeyString (k : MetricKey) :
    Csv.Plain k.toKeyString.toList ↔ Csv.Plain k.metric.toList ∧ k.tags.length ≤ 1 ∧
      ∀ t ∈ k.tags, Csv.Plain t.1.toList ∧ Csv.Plain t.2.toList := by
  have hopen : Csv.Plain "\x7b".toList := by decide
  have hclose : Csv.Plain "\x7d".toList := by decide
  obtain ⟨metric, tags⟩ := k
  rw [MetricKey.toKeyString]
  split
  next hnil =>
    obtain rfl : tags = [] := hnil
    simp
  next hne =>
    rw [String.toList_append, String.toList_append, String.toList_append, Csv.plain_append,
      Csv.plain_append, Csv.plain_append, and_iff_left hclose, and_iff_left hopen]
    refine and_congr_right fun _ => ?_
    rcases tags with _ | ⟨t, _ | ⟨t', ts⟩⟩
    · exact absurd rfl hne
    · rw [map_singleton, String.intercalate_singleton, plain_tag]
      simp
    · -- A comma stands between the tags.
      have hcomma : ¬ Csv.Plain ",".toList := by decide
      rw [map_cons, map_cons, String.intercalate_cons_cons, String.toList_append,
        String.toList_append, Csv.plain_append, Csv.plain_append]
      refine iff_of_false (fun h => hcomma h.1.2) fun h => ?_
      exact absurd h.1 (by simp)

/-- The report is read back exactly if every metric, tag and value of a tag is without
    commas, quotes and line breaks, and no series has two tags. -/
theorem parsesBack_iff (fmt : FloatFormat) (result : MetricsResult hdr) (keys : List MetricKey)
    (hkeys : result.metrics.map (·.key) = keys.map MetricKey.toKeyString) :
    ParsesBack fmt result ↔ ∀ k ∈ keys, Csv.Plain k.metric.toList ∧ k.tags.length ≤ 1 ∧
      ∀ t ∈ k.tags, Csv.Plain t.1.toList ∧ Csv.Plain t.2.toList := by
  have hplain : (∀ metric ∈ result.metrics, Csv.Plain metric.key.toList) ↔
      ∀ k ∈ keys, Csv.Plain k.toKeyString.toList := by
    have hmap : (∀ key ∈ result.metrics.map (·.key), Csv.Plain key.toList) ↔
        ∀ key ∈ keys.map MetricKey.toKeyString, Csv.Plain key.toList := by rw [hkeys]
    rwa [forall_mem_map, forall_mem_map] at hmap
  rw [parsesBack_iff_plain, hplain]
  exact forall₂_congr fun k _ => plain_toKeyString k

theorem isAlphanum_of_mem_toDigits {n : ℕ} {c : Char} (h : c ∈ Nat.toDigits 10 n) :
    c.isAlphanum := by
  change (c.isAlpha || c.isDigit) = true
  rw [isDigit_of_mem_toDigits h, Bool.or_true]

def wholeNumbers : FloatFormat where
  display x := Nat.toDigits 10 ⌊x⌋₊
  fixed x := Nat.toDigits 10 ⌊x⌋₊ ++ ".00".toList
  chars_display x c hc := .inl (isAlphanum_of_mem_toDigits hc)
  chars_fixed x c hc := by
    rcases List.mem_append.1 hc with hc | hc
    · exact .inl (isAlphanum_of_mem_toDigits hc)
    · replace hc : c ∈ ['.', '0', '0'] := hc
      simp only [List.mem_cons, List.not_mem_nil, or_false, or_self] at hc
      rcases hc with rfl | rfl
      · exact .inr (.inr rfl)
      · exact .inl rfl

def oneRequest (tags : List (String × String)) : MetricsResult Hdr.exact :=
  ((Aggregator.new 10).recordAll [{ plainSample "http_reqs" .counter with
    tags := .ofPairs tags }]).buildResults ⟨0, 0⟩ 0

theorem parsesBack_oneTag : ParsesBack wholeNumbers (oneRequest [("method", "GET")]) := by
  refine (parsesBack_iff wholeNumbers _ [⟨"http_reqs", [("method", "GET")]⟩] ?_).2 ?_
  · decide +kernel
  · decide

theorem not_parsesBack_twoTags :
    let r := oneRequest [("method", "GET"), ("status", "200")]
    r.metrics.map (·.key) = ["http_reqs\x7bmethod=GET,status=200\x7d"] ∧
      ((splitOnce '\n' (render wholeNumbers r)).bind fun text => Csv.parse text.2) =
        some [columns, ["http_reqs\x7bmethod=GET", "status=200\x7d", "1", "1", "1.00", "0", "0",
          "0", "0", "0", "0"].map String.toList] ∧
      ¬ ParsesBack wholeNumbers r := by
  refine ⟨by decide +kernel, by decide +kernel, ?_⟩
  rw [parsesBack_iff_plain]
  decide +kernel

end CsvReporter

end Tropel
