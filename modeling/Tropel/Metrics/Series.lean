import Mathlib.Algebra.BigOperators.Ring.Finset
import Mathlib.Algebra.Order.BigOperators.Group.List
import Tropel.Metrics.Distributed
import Tropel.Metrics.MetricValue

/-!
# The values of a series

The set of a series says all there is to say about the values of its samples
(`summarizes_of_get_dataOf`).
-/

namespace Tropel

open Lib List

variable {hdr : Hdr}

def seriesValues (k : MetricKey) (xs : List Sample) : List ℚ :=
  (xs.filter (·.key = k)).map Sample.value

variable {maxMs : Option ℕ} {xs : List Sample} {k : MetricKey}

theorem seriesValues_append_singleton (k : MetricKey) (xs : List Sample) (s : Sample) :
    seriesValues k (xs ++ [s]) = seriesValues k xs ++ if s.key = k then [s.value] else [] := by
  rw [seriesValues, seriesValues, filter_append, map_append]
  by_cases h : s.key = k <;> simp [h]

theorem seriesValues_eq_nil_iff : seriesValues k xs = [] ↔ k ∉ xs.map Sample.key := by
  rw [seriesValues, map_eq_nil_iff, filter_eq_nil_iff, mem_map, not_exists]
  exact forall_congr' fun s => by rw [decide_eq_true_eq, not_and]

theorem isSome_get_dataOf (maxMs : Option ℕ) :
    ((dataOf maxMs xs : IndexMap MetricKey (MetricSet hdr)).get k).isSome ↔
      k ∈ xs.map Sample.key := by
  rw [dataOf, IndexMap.isSome_get_collectAll, ← filterMap_eq_map]
  rfl

variable {set : MetricSet hdr} {ks : List MetricKey} {metric : String}

theorem summarizes_of_get_dataOf (h : (dataOf maxMs xs).get k = some set) :
    set.Summarizes set.metricType (seriesValues k xs : Multiset ℚ) := by
  induction xs using List.reverseRecOn generalizing set with
  | nil => cases h
  | append_singleton xs s ih =>
    rw [dataOf_append_singleton, IndexMap.get_insert] at h
    rw [seriesValues_append_singleton]
    by_cases hk : k = s.key
    · rw [if_pos hk] at h
      rw [if_pos hk.symm, ← Multiset.coe_add, Multiset.coe_singleton, add_comm,
        Multiset.singleton_add, ← Option.some.inj h]
      -- The set the value is recorded in is new, or has the values so far.
      generalize hset : ((dataOf maxMs xs).get s.key).getD (s.newSet maxMs) = before
      have hbefore : before.Summarizes before.metricType (seriesValues k xs : Multiset ℚ) := by
        rw [← hset]
        cases hget : (dataOf maxMs xs : IndexMap MetricKey (MetricSet hdr)).get s.key with
        | none =>
          have hnil : seriesValues k xs = [] := by
            rw [seriesValues_eq_nil_iff, hk, ← isSome_get_dataOf maxMs, hget]
            exact Bool.false_ne_true
          rw [hnil]
          exact MetricSet.summarizes_new s.sampleType.metricType maxMs
        | some set' => exact ih (hk ▸ hget)
      have hafter := hbefore.record s.value
      exact hafter.metricType ▸ hafter
    · rw [if_neg hk] at h
      rw [if_neg (Ne.symm hk), append_nil]
      exact ih h

theorem count_of_get_dataOf (h : (dataOf maxMs xs).get k = some set) :
    set.count = (seriesValues k xs).length :=
  (summarizes_of_get_dataOf h).count.trans (Multiset.coe_card _)

theorem sum_of_get_dataOf (h : (dataOf maxMs xs).get k = some set) :
    set.sum = (seriesValues k xs).sum :=
  (summarizes_of_get_dataOf h).sum.trans (Multiset.sum_coe _)

theorem mean_of_get_dataOf (h : (dataOf maxMs xs).get k = some set) :
    set.mean = (seriesValues k xs).sum / (seriesValues k xs).length := by
  rw [MetricSet.mean, count_of_get_dataOf h, sum_of_get_dataOf h]
  split
  · rfl
  next hlen =>
    rw [Nat.eq_zero_of_not_pos hlen, Nat.cast_zero, div_zero]

theorem metricType_of_get_dataOf (h : (dataOf maxMs xs).get k = some set) {t : MetricType}
    (ht : ∀ s ∈ xs, s.key = k → s.sampleType.metricType = t) : set.metricType = t := by
  refine IndexMap.forall_collectAll (P := fun j (set : MetricSet hdr) => j = k → set.metricType = t)
    (fun s hs j hj => ⟨fun hjk => ht s hs (hjk ▸ Option.some.inj hj), fun set hset hjk => ?_⟩) k
      set h rfl
  rw [Sample.recordInto, MetricSet.record_eq]
  exact hset hjk

theorem exists_histogram_of_get_dataOf (h : (dataOf maxMs xs).get k = some set)
    (ht : set.metricType = .trend) :
    ∃ hist, set.histogram = some hist ∧
      hist.values = ((seriesValues k xs).map (MetricSet.bucketed hdr) : Multiset ℕ) := by
  have hne : (seriesValues k xs : Multiset ℚ) ≠ 0 := by
    rw [Ne, Multiset.coe_eq_zero, seriesValues_eq_nil_iff, not_not, ← isSome_get_dataOf maxMs, h]
    rfl
  have hmap := (summarizes_of_get_dataOf h).histogram
  rw [if_pos ⟨ht, hne⟩, Multiset.map_coe] at hmap
  exact Option.map_eq_some_iff.1 hmap

theorem valuesOf_eq_nil_iff : valuesOf metric xs = [] ↔ ∀ s ∈ xs, s.metric ≠ metric := by
  rw [valuesOf, map_eq_nil_iff, filter_eq_nil_iff]
  exact forall₂_congr fun s _ => by rw [decide_eq_true_eq]

theorem headlineOf_eq_none (h : valuesOf metric xs = []) (maxMs : Option ℕ) :
    (headlineOf metric maxMs xs : IndexMap Unit (MetricSet hdr)).get () = none := by
  rw [← Option.not_isSome_iff_eq_none, headlineOf, IndexMap.isSome_get_collectAll, mem_filterMap]
  rintro ⟨s, hs, hkey⟩
  rw [Sample.headlineKey, if_neg (valuesOf_eq_nil_iff.1 h s hs)] at hkey
  cases hkey

/-! ## Several series -/

theorem sum_map_seriesValues {M : Type*} [AddCommMonoid M] (g : ℚ → M) (xs : List Sample)
    (hks : ks.Nodup) : (ks.map fun k => ((seriesValues k xs).map g).sum).sum =
      ((xs.filter (·.key ∈ ks)).map fun s => g s.value).sum := by
  rw [← sum_toFinset _ hks]
  induction xs using List.reverseRecOn with
  | nil => simp [seriesValues]
  | append_singleton xs s ih =>
    have hterm (k : MetricKey) : ((seriesValues k (xs ++ [s])).map g).sum =
        ((seriesValues k xs).map g).sum + if s.key = k then g s.value else 0 := by
      rw [seriesValues_append_singleton, map_append, sum_append]
      by_cases hk : s.key = k <;> simp [hk]
    rw [Finset.sum_congr rfl fun k _ => hterm k, Finset.sum_add_distrib, Finset.sum_ite_eq, ih,
      filter_append, map_append, sum_append]
    by_cases hmem : s.key ∈ ks <;> simp [hmem]

theorem sum_seriesValues_eq (metric : String) (xs : List Sample) (hks : ks.Nodup) :
    (ks.map fun k => if k.metric = metric then (seriesValues k xs).sum else 0).sum =
      ((xs.filter fun s => s.metric = metric ∧ s.key ∈ ks).map Sample.value).sum := by
  have hsum := sum_map_seriesValues id xs (hks.filter (·.metric = metric))
  simp only [List.map_id] at hsum
  rw [sum_map_ite, map_const', sum_replicate, nsmul_zero, add_zero, hsum]
  refine congrArg (fun l : List Sample => (l.map Sample.value).sum) (filter_congr fun s _ => ?_)
  rw [decide_eq_decide, mem_filter, decide_eq_true_eq]
  exact and_comm

theorem sum_seriesValues_le (hnonneg : ∀ s ∈ xs, 0 ≤ s.value) (metric : String) (hks : ks.Nodup) :
    (ks.map fun k => if k.metric = metric then (seriesValues k xs).sum else 0).sum ≤
      (valuesOf metric xs).sum := by
  rw [sum_seriesValues_eq metric xs hks, valuesOf]
  refine List.Sublist.sum_le_sum ((monotone_filter_right xs fun s hs => ?_).map _) fun v hv => ?_
  · exact decide_eq_true (of_decide_eq_true hs).1
  · obtain ⟨s, hs, rfl⟩ := mem_map.1 hv
    exact hnonneg s (mem_of_mem_filter hs)

theorem sum_seriesValues_le_valuesOf (hnonneg : ∀ s ∈ xs, s.metric = k.metric → 0 ≤ s.value) :
    (seriesValues k xs).sum ≤ (valuesOf k.metric xs).sum := by
  rw [seriesValues, valuesOf]
  refine List.Sublist.sum_le_sum ((monotone_filter_right xs fun s hs => ?_).map _) fun v hv => ?_
  · exact decide_eq_true (congrArg MetricKey.metric (of_decide_eq_true hs))
  · obtain ⟨s, hs, rfl⟩ := mem_map.1 hv
    exact hnonneg s (mem_of_mem_filter hs) (of_decide_eq_true (mem_filter.1 hs).2)

theorem sum_seriesValues (metric : String) (hks : ks.Nodup)
    (hall : ∀ s ∈ xs, s.metric = metric → s.key ∈ ks) :
    (ks.map fun k => if k.metric = metric then (seriesValues k xs).sum else 0).sum =
      (valuesOf metric xs).sum := by
  rw [sum_seriesValues_eq metric xs hks, valuesOf]
  refine congrArg (fun l : List Sample => (l.map Sample.value).sum) (filter_congr fun s hs => ?_)
  exact decide_eq_decide.2 (and_iff_left_of_imp (hall s hs))

/-! ## Series that match -/

theorem takeWhile_append_cons {α : Type*} [DecidableEq α] (l r : List α) (c : α) :
    (l ++ c :: r).takeWhile (· ≠ c) = l.takeWhile (· ≠ c) := by
  induction l with
  | nil => simp
  | cons a l ih => rw [cons_append, takeWhile_cons, takeWhile_cons, ih]

theorem metricBaseName_toKeyString (k : MetricKey) :
    metricBaseName k.toKeyString = metricBaseName k.metric := by
  rw [MetricKey.toKeyString]
  split
  · rfl
  · rw [metricBaseName, String.toList_append, String.toList_append, String.toList_append,
      append_assoc, append_assoc]
    exact takeWhile_append_cons _ _ '{'

theorem key_summary (key : String) (tags : List (String × String)) (set : MetricSet hdr)
    (retain : Bool) :
    (summary key tags set retain).key = key := by
  rw [summary]
  cases set.metricType <;> rfl

theorem tags_summary (key : String) (tags : List (String × String)) (set : MetricSet hdr)
    (retain : Bool) :
    (summary key tags set retain).tags = tags := by
  rw [summary]
  cases set.metricType <;> rfl

def MetricKey.matches (k : MetricKey) (name : Text) (tagFilters : List (Text × Text)) : Bool :=
  metricBaseName k.metric = name && tagFilters.all fun f => k.tags.any fun t =>
    t.1.toList = f.1 && t.2.toList = f.2

theorem matchedSeries_buildResults (a : Aggregator hdr) (globals : Globals) (now : ℕ) (name : Text)
    (tagFilters : List (Text × Text)) :
    matchedSeries (a.buildResults globals now) name tagFilters =
      (a.data.entries.filter fun e => e.1.matches name tagFilters).map fun e =>
        summary e.1.toKeyString e.1.tags e.2 a.retainHistograms := by
  rw [matchedSeries, Aggregator.buildResults, filter_map]
  refine congrArg _ (filter_congr fun e _ => ?_)
  rw [Function.comp_apply, key_summary, tags_summary, metricBaseName_toKeyString, MetricKey.matches]

theorem matchedSeries_ne_nil {a : Aggregator hdr} {name : Text} {tagFilters : List (Text × Text)}
    (hne : xs.filter (·.key.matches name tagFilters) ≠ []) (globals : Globals) (now : ℕ) :
    matchedSeries ((a.recorded xs).buildResults globals now) name tagFilters ≠ [] := by
  obtain ⟨s, hs⟩ := exists_mem_of_ne_nil _ hne
  obtain ⟨hs, hmatch⟩ := mem_filter.1 hs
  obtain ⟨set, hset⟩ : ∃ set : MetricSet hdr, (dataOf a.histogramMaxMs xs).get s.key = some set :=
    Option.isSome_iff_exists.1 ((isSome_get_dataOf a.histogramMaxMs).2 (mem_map_of_mem hs))
  rw [matchedSeries_buildResults]
  exact ne_nil_of_mem (mem_map_of_mem (mem_filter.2 ⟨IndexMap.get_eq_some_iff.1 hset, hmatch⟩))

def plainSample (metric : String) (sampleType : SampleType) : Sample where
  metric
  tags := .ofPairs []
  value := 1
  sampleType

end Tropel
