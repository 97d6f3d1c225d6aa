import Tropel.Metrics.OneNode

/-!
# The verdict on a distributed run

The results of a run are *unverified* if something was lost, and it has *failed* if a check or a
script failed, or a user did not start.

* `verdict_shown_iff`: when the controller shows it.
-/

namespace Tropel

open Lib List IndexMap

variable {hdr : Hdr}

structure AgentState (hdr : Hdr) where
  aggregator : Aggregator hdr
  globals : Globals
  scriptFailures : ℕ
  vuInitFailures : ℕ

namespace AgentState

def results (g : AgentState hdr) (now : ℕ) : MetricsResult hdr :=
  { g.aggregator.buildResults g.globals now with
    vuInitFailures := g.vuInitFailures
    scriptFailures := g.scriptFailures }

def snapshot (wire : Wire hdr) (g : AgentState hdr) : MetricsSnapshot :=
  g.aggregator.buildSnapshot wire

end AgentState

def MetricKey.shipped (k : MetricKey) : MetricKey := .new k.metric (.ofPairs k.tags)

/-! ## Counts and sums -/

section

variable {es : List (MetricKey × MetricSet hdr)} {k : MetricKey}

def sumAt {M : Type*} [AddMonoid M] (f : MetricSet hdr → M) (es : List (MetricKey × MetricSet hdr))
    (k : MetricKey) : M :=
  ((es.filter fun e => e.1.shipped = k).map fun e => f e.2).sum

theorem sumAt_append_singleton {M : Type*} [AddMonoid M] (f : MetricSet hdr → M)
    (e : MetricKey × MetricSet hdr) :
    sumAt f (es ++ [e]) k = sumAt f es k + if e.1.shipped = k then f e.2 else 0 := by
  rw [sumAt, sumAt, filter_append, map_append, sum_append]
  by_cases h : e.1.shipped = k <;> simp [h]

theorem sumAt_eq_zero {M : Type*} [AddMonoid M] (f : MetricSet hdr → M)
    (h : k ∉ es.map fun e => e.1.shipped) : sumAt f es k = 0 := by
  rw [sumAt, filter_eq_nil_iff.2, map_nil, sum_nil]
  intro e he hk
  exact h (mem_map.2 ⟨e, he, of_decide_eq_true hk⟩)

end

namespace Aggregator

structure TakenIn (es : List (MetricKey × MetricSet hdr)) (a : Aggregator hdr) : Prop where
  maxSeries : a.maxSeries = Tropel.maxSeries
  keys : a.data.entries.map Prod.fst = IndexMap.kept Tropel.maxSeries (es.map fun e => e.1.shipped)
  sets : ∀ k set, a.data.get k = some set → set.count = sumAt MetricSet.count es k ∧
    set.sum = sumAt MetricSet.sum es k
  seriesDropped : 0 < a.seriesDropped ↔
    ∃ e ∈ es, e.1.shipped ∉ IndexMap.kept Tropel.maxSeries (es.map fun e => e.1.shipped)

variable {a : Aggregator hdr} {es : List (MetricKey × MetricSet hdr)}

def keptKeys (es : List (MetricKey × MetricSet hdr)) : List MetricKey :=
  IndexMap.kept Tropel.maxSeries (es.map fun e => e.1.shipped)

theorem keptKeys_append_singleton (es : List (MetricKey × MetricSet hdr))
    (e : MetricKey × MetricSet hdr) :
    keptKeys (es ++ [e]) = IndexMap.keep Tropel.maxSeries (keptKeys es) e.1.shipped := by
  rw [keptKeys, map_append]
  exact kept_append_singleton _ _ _

theorem TakenIn.insert (h : a.TakenIn es) {e : MetricKey × MetricSet hdr} {set : MetricSet hdr}
    (hfit : e.1.shipped ∈ keptKeys es ∨ (keptKeys es).length < Tropel.maxSeries)
    (hcount : set.count = sumAt MetricSet.count es e.1.shipped + e.2.count)
    (hsum : set.sum = sumAt MetricSet.sum es e.1.shipped + e.2.sum) :
    ({ a with data := a.data.insert e.1.shipped set } : Aggregator hdr).TakenIn (es ++ [e]) := by
  have hkeep : keptKeys (es ++ [e]) = if e.1.shipped ∈ keptKeys es then keptKeys es
      else keptKeys es ++ [e.1.shipped] := by
    rw [keptKeys_append_singleton, keep]
    by_cases hmem : e.1.shipped ∈ keptKeys es
    · rw [if_pos (.inl hmem), if_pos hmem]
    · rw [if_neg (not_or.2 ⟨hmem, Nat.not_le.2 (hfit.resolve_left hmem)⟩), if_neg hmem]
  refine ⟨h.maxSeries, ?_, ?_, ?_⟩
  · rw [← keptKeys, hkeep]
    rw [keys_insert, h.keys]
    rfl
  · intro k set' hset'
    rw [get_insert] at hset'
    rw [sumAt_append_singleton, sumAt_append_singleton]
    by_cases hk : k = e.1.shipped
    · rw [if_pos hk] at hset'
      rw [if_pos hk.symm, if_pos hk.symm, ← Option.some.inj hset', hk]
      exact ⟨hcount, hsum⟩
    · rw [if_neg hk] at hset'
      rw [if_neg (Ne.symm hk), if_neg (Ne.symm hk), add_zero, add_zero]
      exact h.sets k set' hset'
  · rw [← keptKeys]
    refine h.seriesDropped.trans ⟨?_, ?_⟩
    · rintro ⟨d, hd, hnot⟩
      refine ⟨d, mem_append_left _ hd, ?_⟩
      -- If a series was dropped before, there is no room, so this one has got its key already.
      have hfull : ¬ (keptKeys es).length < Tropel.maxSeries := fun hlt =>
        hnot (mem_kept_of_length_lt hlt _ (mem_map_of_mem hd))
      rw [hkeep, if_pos (hfit.resolve_right hfull)]
      exact hnot
    · rintro ⟨d, hd, hnot⟩
      rw [keptKeys_append_singleton] at hnot
      refine ⟨d, ?_, fun hmem => hnot (mem_keep_of_mem hmem)⟩
      rcases mem_append.1 hd with hd | hd
      · exact hd
      · rw [mem_singleton.1 hd, ← keptKeys_append_singleton, hkeep] at hnot
        split at hnot
        · contradiction
        · exact absurd (mem_append_right _ mem_cons_self) hnot

theorem TakenIn.drop (h : a.TakenIn es) {e : MetricKey × MetricSet hdr}
    (hnot : e.1.shipped ∉ keptKeys es) (hfull : Tropel.maxSeries ≤ (keptKeys es).length) :
    ({ a with seriesDropped := a.seriesDropped + 1 } : Aggregator hdr).TakenIn (es ++ [e]) := by
  have hkeep : keptKeys (es ++ [e]) = keptKeys es := by
    rw [keptKeys_append_singleton, keep, if_pos (.inr hfull)]
  refine ⟨h.maxSeries, ?_, ?_, ?_⟩
  · rw [← keptKeys, hkeep]
    exact h.keys
  · intro k set hset
    have hne : e.1.shipped ≠ k := by
      rintro rfl
      refine hnot ?_
      rw [keptKeys, ← h.keys, mem_keys_iff, hset]
      rfl
    rw [sumAt_append_singleton, sumAt_append_singleton, if_neg hne, if_neg hne, add_zero, add_zero]
    exact h.sets k set hset
  · rw [← keptKeys, hkeep]
    exact ⟨fun _ => ⟨e, mem_append_right _ mem_cons_self, hnot⟩, fun _ => Nat.succ_pos _⟩

theorem TakenIn.absorbSeries (h : a.TakenIn es) (wire : Wire hdr) (e : MetricKey × MetricSet hdr) :
    ∃ a', absorbSeries wire a (seriesSnapshot wire e.1 e.2) = .ok a' ∧ a'.TakenIn (es ++ [e]) ∧
      a'.totals = a.totals := by
  obtain ⟨hist, hdecode, -⟩ := e.2.exists_decodeHistogram wire e.1
  have hkey : MetricKey.new (seriesSnapshot wire e.1 e.2).metric
      (.ofPairs (seriesSnapshot wire e.1 e.2).tags) = e.1.shipped := rfl
  have hmem : e.1.shipped ∈ keptKeys es ↔ (a.data.get e.1.shipped).isSome := by
    rw [keptKeys, ← h.keys, mem_keys_iff]
  have hlength : (keptKeys es).length = a.data.length := by
    rw [keptKeys, ← h.keys, length_map]
    rfl
  rw [Aggregator.absorbSeries, hkey, hdecode]
  cases hget : a.data.get e.1.shipped with
  | some existing =>
    obtain ⟨hcount, hsum⟩ := h.sets _ existing hget
    refine ⟨{ a with
      data := a.data.insert e.1.shipped (existing.absorb (seriesSnapshot wire e.1 e.2) hist) },
      rfl, h.insert (.inl (hmem.2 (by rw [hget]; rfl))) ?_ ?_, rfl⟩
    · rw [← hcount]
      rfl
    · rw [← hsum]
      rfl
  | none =>
    have hnot : e.1.shipped ∉ keptKeys es := by
      rw [hmem, hget]
      exact Bool.false_ne_true
    by_cases hfull : a.maxSeries ≤ a.data.length
    · refine ⟨{ a with seriesDropped := a.seriesDropped + 1 }, ?_, h.drop hnot ?_, rfl⟩
      · exact if_pos hfull
      · rwa [hlength, ← h.maxSeries]
    · have hlt : (keptKeys es).length < Tropel.maxSeries := by
        rw [hlength, ← h.maxSeries]
        exact Nat.not_le.1 hfull
      have hnew : e.1.shipped ∉ es.map fun e => e.1.shipped :=
        fun hin => hnot (mem_kept_of_length_lt hlt _ hin)
      refine ⟨{ a with
        data := a.data.insert e.1.shipped
          (.ofSeries (seriesSnapshot wire e.1 e.2) hist a.histogramMaxMs) }, ?_,
        h.insert (.inr hlt) ?_ ?_, rfl⟩
      · exact if_neg hfull
      · rw [sumAt_eq_zero _ hnew, zero_add]
        rfl
      · rw [sumAt_eq_zero _ hnew, zero_add]
        rfl

theorem TakenIn.foldlM_absorbSeries (h : a.TakenIn es) (wire : Wire hdr)
    (ds : List (MetricKey × MetricSet hdr)) :
    ∃ a', (ds.map fun e => seriesSnapshot wire e.1 e.2).foldlM (Aggregator.absorbSeries wire) a =
      .ok a' ∧
      a'.TakenIn (es ++ ds) ∧ a'.totals = a.totals := by
  induction ds generalizing a es with
  | nil => exact ⟨a, rfl, by rwa [append_nil], rfl⟩
  | cons e ds ih =>
    obtain ⟨a₁, h₁, htaken, htotals⟩ := h.absorbSeries wire e
    obtain ⟨a', h', htaken', htotals'⟩ := ih htaken
    rw [append_assoc] at htaken'
    refine ⟨a', ?_, htaken', htotals'.trans htotals⟩
    rw [map_cons, foldlM_cons, h₁]
    exact h'

theorem TakenIn.foldlM_absorbSnapshot (h : a.TakenIn es) (wire : Wire hdr)
    (agents : List (AgentState hdr)) :
    ∃ a', (agents.map (·.snapshot wire)).foldlM (absorbSnapshot wire) a = .ok a' ∧
      a'.TakenIn (es ++ agents.flatMap (·.aggregator.data.entries)) ∧
      ∀ metric, a'.total metric =
        a.total metric + (agents.map (·.aggregator.total metric)).sum := by
  induction agents generalizing a es with
  | nil => exact ⟨a, rfl, by simpa using h, fun metric => (add_zero _).symm⟩
  | cons g agents ih =>
    obtain ⟨b, hb, htaken, htotals⟩ := h.foldlM_absorbSeries wire g.aggregator.data.entries
    obtain ⟨a₁, h₁, hdata, hdropped, hmax, htotal⟩ := exists_absorbSnapshot (g.snapshot wire) hb
    have htaken₁ : a₁.TakenIn (es ++ g.aggregator.data.entries) :=
      ⟨hmax.trans htaken.maxSeries, hdata ▸ htaken.keys, hdata ▸ htaken.sets,
        hdropped ▸ htaken.seriesDropped⟩
    obtain ⟨a', h', htaken', htotal'⟩ := ih htaken₁
    rw [append_assoc] at htaken'
    refine ⟨a', ?_, htaken', fun metric => ?_⟩
    · rw [map_cons, foldlM_cons, h₁]
      exact h'
    · rw [htotal', htotal, map_cons, sum_cons, ← add_assoc, total, htotals]
      rfl

end Aggregator

/-! ## The verdict of the controller -/

section

variable (globals : Globals) (agents : List (AgentState hdr))

def shippedSeries : List (MetricKey × MetricSet hdr) := agents.flatMap (·.aggregator.data.entries)

/-- A loss that the controller knows of: the iterations that the agents dropped, series
    that it has no room for, or samples that its own process lost. -/
def LossShown : Prop :=
  1 ≤ (agents.map (·.aggregator.total "dropped_iterations")).sum ∨
    (∃ e ∈ shippedSeries agents, e.1.shipped ∉ Aggregator.keptKeys (shippedSeries agents)) ∨
    0 < globals.outputSamplesDropped ∨ 0 < globals.aggregatorSamplesDropped

/-- A failure that the controller knows of: a series of checks whose values, those of all
    agents, add up to less than their number. -/
def FailureShown : Prop :=
  ∃ k ∈ Aggregator.keptKeys (shippedSeries agents), k.metric = "checks" ∧
    sumAt MetricSet.sum (shippedSeries agents) k + 1 ≤
      sumAt MetricSet.count (shippedSeries agents) k

end

theorem asU64_pos_iff (x : ℚ) : 0 < asU64 x ↔ 1 ≤ x := by
  rw [asU64, ← Int.cast_one, ← Int.le_floor]
  omega

theorem failedChecks_pos_iff (set : MetricSet hdr) : 0 < Aggregator.failedChecks set ↔
    set.sum + 1 ≤ set.count := by
  rw [Aggregator.failedChecks]
  split
  next h => rw [asU64_pos_iff, le_sub_iff_add_le, add_comm]
  next h =>
    refine ⟨fun h => absurd h (lt_irrefl 0), fun hle => absurd ?_ h⟩
    exact lt_of_lt_of_le (lt_add_one _) hle

theorem Aggregator.takenIn_controller (mergeStart : ℕ)
    (thresholds : IndexMap String ThresholdConfig) (snapshots : List MetricsSnapshot) :
    (controller mergeStart thresholds snapshots : Aggregator hdr).TakenIn [] where
  maxSeries := rfl
  keys := rfl
  sets _ set h := absurd h (Option.some_ne_none set).symm
  seriesDropped := ⟨fun h => absurd h (Nat.lt_irrefl 0), fun ⟨_, h, _⟩ => absurd h not_mem_nil⟩

theorem Aggregator.TakenIn.checksFailed_pos_iff {a : Aggregator hdr}
    {es : List (MetricKey × MetricSet hdr)} (h : a.TakenIn es) :
    0 < a.sumOver "checks" failedChecks ↔
      ∃ k ∈ keptKeys es, k.metric = "checks" ∧
        sumAt MetricSet.sum es k + 1 ≤ sumAt MetricSet.count es k := by
  rw [sumOver, List.sum_pos_iff_exists_pos_nat, keptKeys, ← h.keys]
  constructor
  · rintro ⟨n, hn, hpos⟩
    obtain ⟨e, he, rfl⟩ := mem_map.1 hn
    split at hpos
    next hmetric =>
      obtain ⟨hcount, hsum⟩ := h.sets e.1 e.2 (get_eq_some_iff.2 he)
      rw [failedChecks_pos_iff, hcount, hsum] at hpos
      exact ⟨e.1, mem_map_of_mem he, hmetric, hpos⟩
    next => exact absurd hpos (lt_irrefl 0)
  · rintro ⟨k, hk, hmetric, hle⟩
    obtain ⟨e, he, rfl⟩ := mem_map.1 hk
    obtain ⟨hcount, hsum⟩ := h.sets e.1 e.2 (get_eq_some_iff.2 he)
    refine ⟨_, mem_map_of_mem he, ?_⟩
    rw [if_pos hmetric, failedChecks_pos_iff, hcount, hsum]
    exact hle

theorem exists_mergeSnapshots (wire : Wire hdr) (globals : Globals) (agents : List (AgentState hdr))
    (thresholds : IndexMap String ThresholdConfig) (testStart mergeStart now : ℕ) :
    ∃ r, mergeSnapshots wire globals
      (agents.map (·.snapshot wire)) thresholds testStart mergeStart now =
        .ok r ∧
      (r.isUnverified ↔ LossShown globals agents) ∧ (r.runFailed ↔ FailureShown agents) := by
  obtain ⟨a, hfold, htaken, htotal⟩ := (Aggregator.takenIn_controller mergeStart thresholds
    (agents.map (·.snapshot wire))).foldlM_absorbSnapshot wire agents
  rw [nil_append, ← shippedSeries] at htaken
  have hdropped : a.total "dropped_iterations" =
      (agents.map (·.aggregator.total "dropped_iterations")).sum := (htotal _).trans (zero_add _)
  refine ⟨{ a.rebuildMerged.buildResults globals now with runDuration := now - testStart }, ?_,
    ?_, ?_⟩
  · rw [mergeSnapshots, hfold]
    rfl
  · rw [Aggregator.rebuildMerged_eq, LossShown, ← hdropped, ← asU64_pos_iff, Aggregator.keptKeys,
      ← htaken.seriesDropped]
    simp only [MetricsResult.isUnverified, Bool.or_eq_true, decide_eq_true_eq, or_assoc]
    rfl
  · rw [Aggregator.rebuildMerged_eq, FailureShown, ← htaken.checksFailed_pos_iff]
    simp only [MetricsResult.runFailed, Bool.or_eq_true, decide_eq_true_eq]
    change ((0 < a.sumOver "checks" Aggregator.failedChecks ∨ 0 < 0) ∨ 0 < 0) ↔ _
    rw [or_iff_left (lt_irrefl 0), or_iff_left (lt_irrefl 0)]

/-- No agent with unverified results or a failed run is hidden exactly if the controller knows of a
    loss whenever there is one, and of a failed check whenever a run has failed. -/
theorem verdict_shown_iff (wire : Wire hdr) (globals : Globals) (agents : List (AgentState hdr))
    (thresholds : IndexMap String ThresholdConfig) (testStart mergeStart now now' : ℕ) :
    ∃ r, mergeSnapshots wire globals
      (agents.map (·.snapshot wire)) thresholds testStart mergeStart now =
        .ok r ∧
      ((∀ g ∈ agents, ((g.results now').isUnverified → r.isUnverified) ∧
          ((g.results now').runFailed → r.runFailed)) ↔
        ((∃ g ∈ agents, (g.results now').isUnverified) → LossShown globals agents) ∧
          ((∃ g ∈ agents, (g.results now').runFailed) → FailureShown agents)) := by
  obtain ⟨r, hr, hunverified, hfailed⟩ :=
    exists_mergeSnapshots wire globals agents thresholds testStart mergeStart now
  refine ⟨r, hr, ?_⟩
  rw [hunverified, hfailed]
  constructor
  · intro h
    refine ⟨?_, ?_⟩
    · rintro ⟨g, hg, hg'⟩
      exact (h g hg).1 hg'
    · rintro ⟨g, hg, hg'⟩
      exact (h g hg).2 hg'
  · rintro ⟨h₁, h₂⟩ g hg
    exact ⟨fun hg' => h₁ ⟨g, hg, hg'⟩, fun hg' => h₂ ⟨g, hg, hg'⟩⟩

theorem verdict_hidden :
    let g : AgentState Hdr.exact :=
      { aggregator := .new 0, globals := ⟨0, 1⟩, scriptFailures := 1, vuInitFailures := 0 }
    (g.results 0).isUnverified = true ∧ (g.results 0).runFailed = true ∧
      (mergeSnapshots (Wire.tallied Hdr.exact)
        ⟨0, 0⟩ [g.snapshot (Wire.tallied Hdr.exact)] ∅ 0 0 0).toOption.map
        (fun r => (r.isUnverified, r.runFailed)) = some (false, false) := by
  decide +kernel

end Tropel
