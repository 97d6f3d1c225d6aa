import Mathlib.Algebra.BigOperators.Group.Multiset.Basic
import Tropel.Metrics.Merge

/-!
# Sets as summaries of values

What a metric set holds, but for the last value, depends on the multiset of the values it has
recorded (`MetricSet.Summarizes`).
-/

namespace Tropel

open Lib Option IndexMap

variable {hdr : Hdr}

def MetricType.HasExtremes (t : MetricType) : Prop := t = .gauge ∨ t = .trend

instance (t : MetricType) : Decidable t.HasExtremes := inferInstanceAs (Decidable (_ ∨ _))

namespace MetricSet

def bucketed (hdr : Hdr) (v : ℚ) : ℕ := hdr.bucket (LatencyHistogram.microseconds (Max.max v 0))

structure Summarizes (set : MetricSet hdr) (t : MetricType) (vs : Multiset ℚ) : Prop where
  metricType : set.metricType = t
  histogramDisabled : set.histogramDisabled = false
  count : set.count = Multiset.card vs
  sum : set.sum = vs.sum
  min : set.min = if t.HasExtremes then vs.fold Min.min F64.maxFinite else F64.maxFinite
  max : set.max = if t.HasExtremes then vs.fold Max.max (-F64.maxFinite) else -F64.maxFinite
  histogram : set.histogram.map (·.values) =
    if t = .trend ∧ vs ≠ 0 then some (vs.map (bucketed hdr)) else none

theorem summarizes_new (t : MetricType) (maxMs : Option ℕ) :
    (new t maxMs true : MetricSet hdr).Summarizes t 0 where
  metricType := rfl
  histogramDisabled := rfl
  count := rfl
  sum := rfl
  min := by rw [Multiset.fold_zero, ite_self]; rfl
  max := by rw [Multiset.fold_zero, ite_self]; rfl
  histogram := by rw [if_neg fun h => h.2 rfl]; rfl

variable {set other : MetricSet hdr} {t : MetricType} {vs ws : Multiset ℚ}

theorem Summarizes.values_getD (h : set.Summarizes .trend vs) (maxMs : Option ℕ) :
    (set.histogram.getD (LatencyHistogram.withMax maxMs)).values = vs.map (bucketed hdr) := by
  have hh := h.histogram
  cases hs : set.histogram with
  | none =>
    rw [hs, map_none] at hh
    have hvs : vs = 0 := by
      by_contra hne
      rw [if_pos ⟨rfl, hne⟩] at hh
      cases hh
    rw [getD_none, LatencyHistogram.values_withMax, hvs, Multiset.map_zero]
  | some hist =>
    rw [hs, map_some, eq_comm, ite_none_right_eq_some] at hh
    exact (some.inj hh.2).symm

theorem record_eq (set : MetricSet hdr) (v : ℚ) : set.record v =
      { set with
        count := set.count + 1
        sum := set.sum + v
        min := if set.metricType.HasExtremes then Min.min set.min v else set.min
        max := if set.metricType.HasExtremes then Max.max set.max v else set.max
        last := if set.metricType.HasExtremes then v else set.last
        histogram :=
          if set.metricType = .trend ∧ set.histogramDisabled = false then
            some (LatencyHistogram.recordMs
              (set.histogram.getD (LatencyHistogram.withMax set.histogramMaxMs)) (Max.max v 0))
          else set.histogram } := by
  obtain ⟨t, hist, maxMs, disabled, count, sum, min, max, last⟩ := set
  rcases t with _ | _ | _ | _ <;>
    simp [MetricSet.record, MetricType.HasExtremes, ← min_def_lt', ← max_def_lt]
  rcases disabled with _ | _ <;> rfl

theorem Summarizes.record (h : set.Summarizes t vs) (v : ℚ) :
    (set.record v).Summarizes t (v ::ₘ vs) := by
  rw [record_eq]
  obtain rfl := h.metricType
  refine ⟨rfl, h.histogramDisabled, ?_, ?_, ?_, ?_, ?_⟩ <;> dsimp only
  · rw [h.count, Multiset.card_cons]
  · rw [h.sum, Multiset.sum_cons, add_comm]
  · rw [h.min, Multiset.fold_cons_right]
    split <;> rfl
  · rw [h.max, Multiset.fold_cons_right]
    split <;> rfl
  · by_cases ht : set.metricType = .trend
    · rw [if_pos ⟨ht, h.histogramDisabled⟩, if_pos ⟨ht, Multiset.cons_ne_zero⟩, map_some,
        LatencyHistogram.recordMs, LatencyHistogram.values_recordUs,
        Summarizes.values_getD (ht ▸ h), Multiset.map_cons]
      rfl
    · rw [if_neg fun h => ht h.1, if_neg fun h => ht h.1, h.histogram, if_neg fun h => ht h.1]

/-! ## Merging -/

theorem fold_min_add (vs ws : Multiset ℚ) : (vs + ws).fold Min.min F64.maxFinite =
      Min.min (vs.fold Min.min F64.maxFinite) (ws.fold Min.min F64.maxFinite) := by
  rw [← Multiset.fold_add Min.min, min_self]

theorem fold_max_add (vs ws : Multiset ℚ) : (vs + ws).fold Max.max (-F64.maxFinite) =
      Max.max (vs.fold Max.max (-F64.maxFinite)) (ws.fold Max.max (-F64.maxFinite)) := by
  rw [← Multiset.fold_add Max.max, max_self]

theorem add_ne_zero_right {vs ws : Multiset ℚ} (h : ws ≠ 0) : vs + ws ≠ 0 :=
  fun hadd => h (Multiset.le_zero.1 (hadd ▸ Multiset.le_add_left ws vs))

variable {hist : Option (LatencyHistogram hdr)}

theorem Summarizes.map_mergeHistogram (h : set.Summarizes t vs) (hhist : hist.map (·.values) =
      if t = .trend ∧ ws ≠ 0 then some (ws.map (bucketed hdr)) else none) :
    (if t = .trend then set.mergeHistogram hist else set.histogram).map (·.values) =
      if t = .trend ∧ vs + ws ≠ 0 then some ((vs + ws).map (bucketed hdr)) else none := by
  by_cases ht : t = .trend
  · subst ht
    rw [if_pos rfl]
    cases hist with
    | none =>
      have hws : ws = 0 := by
        by_contra hne
        rw [if_pos ⟨rfl, hne⟩] at hhist
        cases hhist
      rw [hws, add_zero]
      exact h.histogram
    | some other =>
      rw [map_some, eq_comm, ite_none_right_eq_some] at hhist
      obtain ⟨⟨-, hne⟩, hvalues⟩ := hhist
      rw [if_pos ⟨rfl, add_ne_zero_right hne⟩, mergeHistogram,
        map_some, LatencyHistogram.values_merge, h.values_getD, Multiset.map_add,
        some.inj hvalues]
  · rw [if_neg ht, h.histogram, if_neg fun h => ht h.1, if_neg fun h => ht h.1]

theorem Summarizes.mergeFrom (h : set.Summarizes t vs) (h' : other.Summarizes t ws) :
    (set.mergeFrom other).Summarizes t (vs + ws) := by
  have hhist := h.map_mergeHistogram h'.histogram
  obtain rfl := h.metricType
  rw [MetricSet.mergeFrom]
  refine ⟨rfl, h.histogramDisabled, ?_, ?_, ?_, ?_, hhist⟩ <;> dsimp only
  · rw [h.count, h'.count, Multiset.card_add]
  · rw [h.sum, h'.sum, Multiset.sum_add]
  · change (if set.metricType.HasExtremes ∧ _ then _ else _) = _
    rw [h.min, h'.min, fold_min_add]
    by_cases he : set.metricType.HasExtremes
    · simp only [he, true_and, if_true, ← min_def_lt']
    · simp only [he, false_and, if_false]
  · change (if set.metricType.HasExtremes ∧ _ then _ else _) = _
    rw [h.max, h'.max, fold_max_add]
    by_cases he : set.metricType.HasExtremes
    · simp only [he, true_and, if_true, ← max_def_lt]
    · simp only [he, false_and, if_false]

theorem exists_decodeHistogram (set : MetricSet hdr) (wire : Wire hdr) (key : MetricKey) :
    ∃ hist, decodeHistogram wire (seriesSnapshot wire key set) = .ok hist ∧
      hist.map (·.values) = (set.histogram.filter (0 < ·.count)).map (·.values) := by
  rw [decodeHistogram, seriesSnapshot]
  cases set.histogram.filter (0 < ·.count) with
  | none => exact ⟨none, rfl, rfl⟩
  | some hist =>
    obtain ⟨hist', hbytes, hvalues⟩ := wire.exists_fromBytes hist
    refine ⟨some hist', ?_, congrArg some hvalues⟩
    simp only [map_some, wire.decode_encode, hbytes]

theorem Summarizes.filter_histogram (h : set.Summarizes t vs) :
    set.histogram.filter (0 < ·.count) = set.histogram := by
  have hh := h.histogram
  cases hs : set.histogram with
  | none => rfl
  | some hist =>
    rw [hs, map_some, eq_comm, ite_none_right_eq_some] at hh
    obtain ⟨⟨-, hne⟩, hvalues⟩ := hh
    refine if_pos (decide_eq_true ?_)
    rw [LatencyHistogram.count, ← some.inj hvalues, Multiset.card_map]
    exact Multiset.card_pos.2 hne

theorem Summarizes.absorb (h : set.Summarizes t vs) (h' : other.Summarizes t ws) (wire : Wire hdr)
    (key : MetricKey) (hhist : hist.map (·.values) = other.histogram.map (·.values)) :
    (set.absorb (seriesSnapshot wire key other) hist).Summarizes t (vs + ws) := by
  have hmerge := h.map_mergeHistogram (hhist.trans h'.histogram)
  obtain rfl := h.metricType
  rw [MetricSet.absorb, seriesSnapshot]
  refine ⟨rfl, h.histogramDisabled, ?_, ?_, ?_, ?_, hmerge⟩ <;> dsimp only
  · rw [h.count, h'.count, Multiset.card_add]
  · rw [h.sum, h'.sum, Multiset.sum_add]
  · rw [h.min, h'.min, fold_min_add, ← min_def_lt']
    split
    · rfl
    · exact min_self _
  · rw [h.max, h'.max, fold_max_add, ← max_def_lt]
    split
    · rfl
    · exact max_self _

theorem Summarizes.ofSeries (h' : other.Summarizes t ws) (wire : Wire hdr) (key : MetricKey)
    (hhist : hist.map (·.values) = other.histogram.map (·.values)) (maxMs : Option ℕ) :
    (MetricSet.ofSeries (seriesSnapshot wire key other) hist maxMs).Summarizes t ws :=
  ⟨h'.metricType, rfl, h'.count, h'.sum, h'.min, h'.max, hhist.trans h'.histogram⟩

/-! ## What a set shows -/

theorem trendStats_eq (set : MetricSet hdr) : set.trendStats =
      ((set.histogram.map (·.values)).map (LatencyHistogram.statsOf hdr)).getD ⟨0, 0, 0, 0⟩ := by
  rw [trendStats, Option.map_map]
  rfl

theorem Summarizes.trendStats (h : set.Summarizes t vs) (h' : other.Summarizes t vs) :
    set.trendStats = other.trendStats := by
  rw [trendStats_eq, trendStats_eq, h.histogram, h'.histogram]

theorem Summarizes.p50_pos (h : set.Summarizes .trend vs) (hvs : vs ≠ 0) :
    0 < set.trendStats.p50 := by
  have hne : vs.map (bucketed hdr) ≠ 0 := fun h => hvs (Multiset.map_eq_zero.1 h)
  obtain ⟨v, -, hv⟩ := Multiset.mem_map.1
    (hdr.valueAtQuantile_mem hne (q := 50 / 100) (by norm_num) (by norm_num))
  have hpos : 0 < hdr.valueAtQuantile (vs.map (bucketed hdr)) (50 / 100) :=
    hv ▸ hdr.bucket_pos (LatencyHistogram.microseconds_pos _)
  rw [trendStats_eq, h.histogram, if_pos ⟨rfl, hvs⟩]
  exact div_pos (Nat.cast_pos.2 hpos) (by norm_num)

theorem Summarizes.mean (h : set.Summarizes t vs) (h' : other.Summarizes t vs) :
    set.mean = other.mean := by
  rw [MetricSet.mean, MetricSet.mean, h.count, h.sum, h'.count, h'.sum]

end MetricSet

def MetricSummary.shown (m : MetricSummary hdr) : MetricSummary hdr :=
  { m with last := 0, histogram := none }

section

variable {set set' : MetricSet hdr} {t : MetricType} {vs : Multiset ℚ}

theorem shown_trendSummary (h : set.Summarizes t vs) (h' : set'.Summarizes t vs) (key : String)
    (tags : List (String × String)) (r r' : Bool) :
    (trendSummary key tags set r).shown = (trendSummary key tags set' r').shown := by
  simp only [MetricSummary.shown, trendSummary, h.trendStats h', h.mean h', h.count, h'.count,
    h.sum, h'.sum, h.min, h'.min, h.max, h'.max]

theorem shown_summary (h : set.Summarizes t vs) (h' : set'.Summarizes t vs) (key : String)
    (tags : List (String × String)) (r r' : Bool) :
    (summary key tags set r).shown = (summary key tags set' r').shown := by
  have htrend := shown_trendSummary h h' key tags r r'
  simp only [summary, h.metricType, h'.metricType]
  rcases t with _ | _ | _ | _
  · simp only [MetricSummary.shown, h.mean h', h.sum, h'.sum]
  · simp only [MetricSummary.shown, h.mean h', h.count, h'.count, h.sum, h'.sum, h.min, h'.min,
      h.max, h'.max]
  · simp only [MetricSummary.shown, h.mean h', h.count, h'.count, h.sum, h'.sum]
  · exact htrend

end

/-! ## Maps of sets -/

section

variable {κ α : Type*} [DecidableEq κ] {m m' : IndexMap κ (MetricSet hdr)} {t : κ → MetricType}
  {V V' : κ → Multiset ℚ}

structure Holds (m : IndexMap κ (MetricSet hdr)) (t : κ → MetricType) (V : κ → Multiset ℚ) :
    Prop where
  none : ∀ k, m.get k = none → V k = 0
  some : ∀ k set, m.get k = some set → V k ≠ 0 ∧ set.Summarizes (t k) (V k)

theorem holds_empty : Holds (∅ : IndexMap κ (MetricSet hdr)) t fun _ => 0 where
  none _ _ := rfl
  some k _ h := absurd (h.symm.trans (IndexMap.get_empty k)) (Option.some_ne_none _)

variable {τ : Type*} {k : κ}

theorem Holds.insert (h : Holds m t V) {set : MetricSet hdr} {vs : Multiset ℚ} (hne : vs ≠ 0)
    (hset : set.Summarizes (t k) vs) : Holds (m.insert k set) t (Function.update V k vs) := by
  refine ⟨fun j hj => ?_, fun j s hj => ?_⟩ <;> rw [get_insert] at hj
  · by_cases hjk : j = k
    · rw [if_pos hjk] at hj
      cases hj
    · rw [if_neg hjk] at hj
      rw [Function.update_of_ne hjk]
      exact h.none j hj
  · by_cases hjk : j = k
    · subst hjk
      rw [if_pos rfl] at hj
      rw [Function.update_self]
      exact ⟨hne, some.inj hj ▸ hset⟩
    · rw [if_neg hjk] at hj
      rw [Function.update_of_ne hjk]
      exact h.some j s hj

theorem Holds.summarizes_getD (h : Holds m t V) {init : MetricSet hdr}
    (hinit : init.Summarizes (t k) 0) : ((m.get k).getD init).Summarizes (t k) (V k) := by
  cases hget : m.get k with
  | none => exact h.none k hget ▸ hinit
  | some set => exact (h.some k set hget).2

theorem holds_collectAll {key : α → Option κ} {init : α → MetricSet hdr}
    {step : α → MetricSet hdr → MetricSet hdr} (w : α → Multiset ℚ) {xs : List α}
    (h : ∀ x ∈ xs, ∀ k, key x = some k → w x ≠ 0 ∧ (init x).Summarizes (t k) 0 ∧
      ∀ set vs, set.Summarizes (t k) vs → (step x set).Summarizes (t k) (vs + w x)) :
    Holds (IndexMap.collectAll key init step xs) t
      fun k => ((xs.filter fun x => key x = some k).map w).sum := by
  induction xs using List.reverseRecOn with
  | nil => exact holds_empty
  | append_singleton xs x ih =>
    have ih := ih fun y hy => h y (List.mem_append_left _ hy)
    have hsum (k : κ) : (((xs ++ [x]).filter fun x => key x = some k).map w).sum =
        ((xs.filter fun x => key x = some k).map w).sum + if key x = some k then w x else 0 := by
      rw [List.filter_append, List.map_append, List.sum_append]
      by_cases hk : key x = some k <;> simp [hk]
    rw [collectAll_append_singleton, collect]
    simp only [hsum]
    cases hx : key x with
    | none => simpa using ih
    | some k =>
      obtain ⟨hne, hinit, hstep⟩ := h x (by simp) k hx
      have hins :=
        ih.insert (MetricSet.add_ne_zero_right hne) (hstep _ _ (ih.summarizes_getD hinit))
      convert hins using 1
      · rfl
      · funext j
        by_cases hj : j = k
        · rw [hj, Function.update_self, if_pos rfl]
        · rw [Function.update_of_ne hj, if_neg fun h => hj (some.inj h).symm, add_zero]

theorem Holds.map_get (h : Holds m t V) (h' : Holds m' t V) (g g' : κ → MetricSet hdr → τ)
    (hg : ∀ k set set', set.Summarizes (t k) (V k) → set'.Summarizes (t k) (V k) →
      g k set = g' k set')
    (k : κ) : (m.get k).map (g k) = (m'.get k).map (g' k) := by
  cases hk : m.get k with
  | none =>
    cases hk' : m'.get k with
    | none => rfl
    | some set' => exact absurd (h.none k hk) (h'.some k set' hk').1
  | some set =>
    cases hk' : m'.get k with
    | none => exact absurd (h'.none k hk') (h.some k set hk).1
    | some set' =>
      exact congrArg Option.some (hg k set set' (h.some k set hk).2 (h'.some k set' hk').2)

theorem Holds.map_perm (h : Holds m t V) (h' : Holds m' t V) (g g' : κ → MetricSet hdr → τ)
    (hg : ∀ k set set', set.Summarizes (t k) (V k) → set'.Summarizes (t k) (V k) →
      g k set = g' k set') :
    (m.entries.map fun e => g e.1 e.2).Perm (m'.entries.map fun e => g' e.1 e.2) :=
  map_entries_perm (h.map_get h' g g' hg)

end

end Tropel
