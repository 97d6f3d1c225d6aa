import Tropel.Metrics.Series

/-!
# The caps of an aggregator

A process has a cap on the number of series, and a budget for their histograms.

* `sameHeadlines_iff`: when a cap changes no headline;
* `histogramCost_le_iff`: when the budget is kept.
-/

namespace Tropel

open Lib List

variable {hdr : Hdr}

section

variable {cap : ℕ} {xs : List Sample} {k : MetricKey}

theorem seriesValues_admittedSamples (hk : k ∈ admitted cap xs) :
    seriesValues k (admittedSamples cap xs) = seriesValues k xs := by
  rw [seriesValues, seriesValues, admittedSamples, filter_filter]
  refine congrArg _ (filter_congr fun s _ => ?_)
  by_cases hs : s.key = k
  · simp [hs, hk]
  · simp [hs]

theorem seriesValues_ne_nil (hk : k ∈ admitted cap xs) : seriesValues k xs ≠ [] :=
  fun h => seriesValues_eq_nil_iff.1 h (IndexMap.mem_of_mem_kept hk)

end

/-! ## Headline numbers -/

structure SameHeadlines (r r' : MetricsResult hdr) : Prop where
  httpReqs : r.httpReqs = r'.httpReqs
  errors : r.errors = r'.errors
  dataReceived : r.dataReceived = r'.dataReceived
  dataSent : r.dataSent = r'.dataSent
  droppedIterations : r.droppedIterations = r'.droppedIterations
  iterations : r.iterations = r'.iterations
  checksTotal : r.checksTotal = r'.checksTotal
  checksPassed : r.checksPassed = r'.checksPassed
  checksFailed : r.checksFailed = r'.checksFailed
  httpReqFailed : r.httpReqFailed = r'.httpReqFailed
  httpReqDuration : r.httpReqDuration = r'.httpReqDuration
  iterationDuration : r.iterationDuration = r'.iterationDuration

theorem asU64_le_floor (x : ℚ) : asU64 x ≤ ⌊x⌋₊ := by
  rw [asU64, Int.floor_toNat]
  exact min_le_left _ _

theorem asU64_eq_floor {x : ℚ} (h : x < 2 ^ 64) : asU64 x = ⌊x⌋₊ := by
  have hlt : ⌊x⌋₊ < 2 ^ 64 := by
    by_cases h₀ : 0 ≤ x
    · exact (Nat.floor_lt h₀).2 (by exact_mod_cast h)
    · rw [Nat.floor_of_nonpos (le_of_not_ge h₀)]
      norm_num
  rw [asU64, Int.floor_toNat]
  omega

theorem asU64_eq_zero_iff {x : ℚ} : asU64 x = 0 ↔ x < 1 := by
  rw [asU64, Int.floor_toNat, ← Nat.floor_eq_zero]
  omega

theorem sum_asU64_le {l : List ℚ} (hl : ∀ x ∈ l, 0 ≤ x) : (l.map asU64).sum ≤ ⌊l.sum⌋₊ := by
  refine Nat.le_floor ?_
  rw [Nat.cast_list_sum, List.map_map]
  calc (l.map (Nat.cast ∘ asU64)).sum ≤ (l.map id).sum := by
        refine sum_le_sum fun x hx => ?_
        calc ((asU64 x : ℕ) : ℚ) ≤ (⌊x⌋₊ : ℚ) := by exact_mod_cast asU64_le_floor x
          _ ≤ x := Nat.floor_le (hl x hx)
    _ = l.sum := by rw [List.map_id]

namespace Aggregator

variable {a : Aggregator hdr} {xs : List Sample}

def contribution {M : Type} [Zero M] (metric : String) (g : ℕ → ℚ → M) (xs : List Sample)
    (k : MetricKey) : M :=
  if k.metric = metric then g (seriesValues k xs).length (seriesValues k xs).sum else 0

theorem sumOver_capped {M : Type} [AddMonoid M] (metric : String) {f : MetricSet hdr → M}
    {g : ℕ → ℚ → M} (hf : ∀ set, f set = g set.count set.sum) :
    (a.capped xs).sumOver metric f =
      ((admitted a.maxSeries xs).map (contribution metric g xs)).sum := by
  have hdata : (a.capped xs).data = dataOf a.histogramMaxMs (admittedSamples a.maxSeries xs) := rfl
  rw [sumOver, IndexMap.map_entries_eq _ fun (k : MetricKey) (set : MetricSet hdr) =>
    if k.metric = metric then f set else 0, hdata, keys_dataOf_admittedSamples, ← filterMap_eq_map]
  refine congrArg List.sum (filterMap_congr fun k hk => ?_)
  obtain ⟨set, hset⟩ :=
    Option.isSome_iff_exists.1 ((isSome_get_dataOf_admittedSamples a.histogramMaxMs).2 hk)
  rw [hset, Option.map_some, hf, count_of_get_dataOf hset, sum_of_get_dataOf hset,
    seriesValues_admittedSamples hk]
  rfl

theorem total_capped (metric : String) : (a.capped xs).total metric = (valuesOf metric xs).sum :=
  total_totalsOf xs metric

theorem counter_capped (hnonneg : ∀ s ∈ xs, 0 ≤ s.value) {metric : String}
    (hrange : (valuesOf metric xs).sum < 2 ^ 64) :
    Max.max ((a.capped xs).sumOver metric (asU64 ·.sum)) (asU64 ((a.capped xs).total metric)) =
      asU64 (valuesOf metric xs).sum := by
  rw [total_capped, sumOver_capped metric (g := fun _ sum => asU64 sum) fun _ => rfl, max_eq_right]
  have hseries (k : MetricKey) : contribution metric (fun _ sum => asU64 sum) xs k =
      asU64 (if k.metric = metric then (seriesValues k xs).sum else 0) := by
    rw [contribution]
    split
    · rfl
    · rw [asU64_zero]
  calc ((admitted a.maxSeries xs).map (contribution metric (fun _ sum => asU64 sum) xs)).sum
    _ = (((admitted a.maxSeries xs).map fun k =>
          if k.metric = metric then (seriesValues k xs).sum else 0).map asU64).sum := by
        rw [List.map_map]
        exact congrArg List.sum (map_congr_left fun k _ => hseries k)
    _ ≤ ⌊((admitted a.maxSeries xs).map fun k =>
          if k.metric = metric then (seriesValues k xs).sum else 0).sum⌋₊ := by
        refine sum_asU64_le fun x hx => ?_
        obtain ⟨k, -, rfl⟩ := mem_map.1 hx
        split
        · refine sum_nonneg fun v hv => ?_
          obtain ⟨s, hs, rfl⟩ := mem_map.1 hv
          exact hnonneg s (mem_of_mem_filter hs)
        · exact le_rfl
    _ ≤ ⌊(valuesOf metric xs).sum⌋₊ :=
        Nat.floor_le_floor (sum_seriesValues_le hnonneg metric (IndexMap.nodup_kept _ _))
    _ = asU64 (valuesOf metric xs).sum := (asU64_eq_floor hrange).symm

theorem amount_capped (hnonneg : ∀ s ∈ xs, 0 ≤ s.value) (metric : String) :
    Max.max ((a.capped xs).sumOver metric (·.sum)) ((a.capped xs).total metric) =
      (valuesOf metric xs).sum := by
  rw [total_capped, sumOver_capped metric (g := fun _ sum => sum) fun _ => rfl, max_eq_right]
  exact sum_seriesValues_le hnonneg metric (IndexMap.nodup_kept _ _)

end Aggregator

section

variable {a : Aggregator hdr} {xs : List Sample} {cap cap' : ℕ}

theorem exists_admitted_append (h : cap ≤ cap') (xs : List Sample) :
    ∃ extra, admitted cap' xs = admitted cap xs ++ extra ∧
      ∀ k, k ∈ extra ↔ k ∈ admitted cap' xs ∧ k ∉ admitted cap xs := by
  have hsplit : admitted cap' xs = admitted cap xs ++ (admitted cap' xs).drop cap := by
    rw [admitted, admitted, IndexMap.kept_eq_take h, take_append_drop]
  have hnodup : (admitted cap' xs).Nodup := IndexMap.nodup_kept _ _
  refine ⟨(admitted cap' xs).drop cap, hsplit, fun k => ⟨fun hk => ⟨mem_of_mem_drop hk, ?_⟩, ?_⟩⟩
  · rw [hsplit] at hnodup
    exact fun hmem => disjoint_of_nodup_append hnodup hmem hk
  · rintro ⟨hk, hnot⟩
    rw [hsplit] at hk
    exact (mem_append.1 hk).resolve_left hnot

def Aggregator.withCap (a : Aggregator hdr) (cap : ℕ) : Aggregator hdr :=
  { a with maxSeries := cap }

theorem Aggregator.Fresh.withCap (h : a.Fresh) (cap : ℕ) : (a.withCap cap).Fresh :=
  ⟨h.data, h.totals, h.histogramBytesUsed, h.mergedHttpDur, h.mergedIterDur, h.mergedPerUrl,
    h.mergedPerGroup, h.seriesDropped, h.httpReqFailedRequests, h.httpReqFailedSum⟩

theorem sumOver_withCap_eq_iff (h : cap ≤ cap') (metric : String) {f : MetricSet hdr → ℕ}
    {g : ℕ → ℚ → ℕ} (hf : ∀ set, f set = g set.count set.sum) :
    ((a.withCap cap).capped xs).sumOver metric f = ((a.withCap cap').capped xs).sumOver metric f ↔
      ∀ k ∈ admitted cap' xs, k ∉ admitted cap xs → Aggregator.contribution metric g xs k = 0 := by
  obtain ⟨extra, hsplit, hextra⟩ := exists_admitted_append h xs
  have hcap : (a.withCap cap).maxSeries = cap := rfl
  have hcap' : (a.withCap cap').maxSeries = cap' := rfl
  rw [Aggregator.sumOver_capped metric hf, Aggregator.sumOver_capped metric hf, hcap, hcap', hsplit,
    map_append, sum_append, left_eq_add, sum_eq_zero_iff, forall_mem_map, ← hsplit]
  exact forall_congr' fun k => by rw [hextra, and_imp]

theorem sameHeadlines_iff_of_le (hnonneg : ∀ s ∈ xs, 0 ≤ s.value)
    (hreqs : (valuesOf "http_reqs" xs).sum < 2 ^ 64) (herrors : (valuesOf "errors" xs).sum < 2 ^ 64)
    (h : cap ≤ cap') (globals : Globals) (now : ℕ) :
    SameHeadlines (((a.withCap cap).capped xs).buildResults globals now)
        (((a.withCap cap').capped xs).buildResults globals now) ↔
      ∀ k ∈ admitted cap' xs, k ∉ admitted cap xs →
        k.metric ≠ "checks" ∧ (k.metric = "iterations" → (seriesValues k xs).sum < 1) := by
  constructor
  · intro hsame k hk hnot
    constructor
    · intro hchecks
      have hzero := (sumOver_withCap_eq_iff h "checks" (g := fun count _ => count) fun _ => rfl).1
        hsame.checksTotal k hk hnot
      rw [Aggregator.contribution, if_pos hchecks, length_eq_zero_iff] at hzero
      exact seriesValues_ne_nil hk hzero
    · intro hiterations
      have hzero :=
        (sumOver_withCap_eq_iff h "iterations" (g := fun _ sum => asU64 sum) fun _ => rfl).1
        hsame.iterations k hk hnot
      rwa [Aggregator.contribution, if_pos hiterations, asU64_eq_zero_iff] at hzero
  · intro hextra
    have hchecks {f : MetricSet hdr → ℕ} (g : ℕ → ℚ → ℕ) (hf : ∀ set, f set = g set.count set.sum) :
        ((a.withCap cap).capped xs).sumOver "checks" f =
          ((a.withCap cap').capped xs).sumOver "checks" f :=
      (sumOver_withCap_eq_iff h "checks" hf).2 fun k hk hnot => if_neg (hextra k hk hnot).1
    refine ⟨?_, ?_, ?_, ?_, ?_, ?_, ?_, ?_, ?_, rfl, rfl, rfl⟩
    · exact (Aggregator.counter_capped hnonneg hreqs).trans
        (Aggregator.counter_capped hnonneg hreqs).symm
    · exact (Aggregator.counter_capped hnonneg herrors).trans
        (Aggregator.counter_capped hnonneg herrors).symm
    · exact (Aggregator.amount_capped hnonneg _).trans (Aggregator.amount_capped hnonneg _).symm
    · exact (Aggregator.amount_capped hnonneg _).trans (Aggregator.amount_capped hnonneg _).symm
    · exact congrArg asU64 ((Aggregator.total_capped _).trans (Aggregator.total_capped _).symm)
    · refine (sumOver_withCap_eq_iff h "iterations" (g := fun _ sum => asU64 sum) fun _ => rfl).2
        fun k hk hnot => ?_
      rw [Aggregator.contribution]
      split
      next hm => exact asU64_eq_zero_iff.2 ((hextra k hk hnot).2 hm)
      next => rfl
    · exact hchecks (fun count _ => count) fun _ => rfl
    · exact hchecks (fun _ sum => asU64 sum) fun _ => rfl
    · exact hchecks (fun count sum => if sum < count then asU64 (count - sum) else 0) fun _ => rfl

theorem SameHeadlines.symm {r r' : MetricsResult hdr} (h : SameHeadlines r r') :
    SameHeadlines r' r :=
  ⟨h.httpReqs.symm, h.errors.symm, h.dataReceived.symm, h.dataSent.symm, h.droppedIterations.symm,
    h.iterations.symm, h.checksTotal.symm, h.checksPassed.symm, h.checksFailed.symm,
      h.httpReqFailed.symm,
    h.httpReqDuration.symm, h.iterationDuration.symm⟩

/-- The headline numbers are the same under two caps exactly if no series that only one of
    them admits is one of checks, or of iterations that add up to one. -/
theorem sameHeadlines_iff (hfresh : a.Fresh) (hnonneg : ∀ s ∈ xs, 0 ≤ s.value)
    (hreqs : (valuesOf "http_reqs" xs).sum < 2 ^ 64) (herrors : (valuesOf "errors" xs).sum < 2 ^ 64)
    (cap cap' : ℕ) (globals : Globals) (now : ℕ) :
    SameHeadlines (((a.withCap cap).recordAll xs).buildResults globals now)
        (((a.withCap cap').recordAll xs).buildResults globals now) ↔
      ∀ k, (k ∈ admitted cap xs ↔ k ∈ admitted cap' xs) ∨
        (k.metric ≠ "checks" ∧ (k.metric = "iterations" → (seriesValues k xs).sum < 1)) := by
  rw [Aggregator.recordAll_eq_capped (hfresh.withCap cap),
    Aggregator.recordAll_eq_capped (hfresh.withCap cap')]
  have hordered {c c' : ℕ} (h : c ≤ c') :
      SameHeadlines (((a.withCap c).capped xs).buildResults globals now)
          (((a.withCap c').capped xs).buildResults globals now) ↔
        ∀ k, (k ∈ admitted c xs ↔ k ∈ admitted c' xs) ∨
          (k.metric ≠ "checks" ∧ (k.metric = "iterations" → (seriesValues k xs).sum < 1)) := by
    obtain ⟨extra, hsplit, -⟩ := exists_admitted_append h xs
    have hsub (k : MetricKey) (hk : k ∈ admitted c xs) : k ∈ admitted c' xs :=
      hsplit ▸ mem_append_left extra hk
    rw [sameHeadlines_iff_of_le hnonneg hreqs herrors h]
    refine forall_congr' fun k => ⟨fun hk => ?_, fun hk hmem hnot => ?_⟩
    · by_cases hmem : k ∈ admitted c' xs
      · by_cases hmem' : k ∈ admitted c xs
        · exact .inl (iff_of_true hmem' hmem)
        · exact .inr (hk hmem hmem')
      · exact .inl (iff_of_false (mt (hsub k) hmem) hmem)
    · exact hk.resolve_left fun hiff => hnot (hiff.2 hmem)
  rcases le_total cap cap' with h | h
  · exact hordered h
  · refine (⟨SameHeadlines.symm, SameHeadlines.symm⟩ : _ ↔ _).trans ((hordered h).trans ?_)
    exact forall_congr' fun k => or_congr_left iff_comm

theorem sameHeadlines_requests :
    let xs := [plainSample "http_reqs" .counter,
        { plainSample "http_reqs" .counter with tags := .ofPairs [("a", "b")] }]
    admitted 1 xs ≠ admitted 2 xs ∧
      SameHeadlines
        ((((Aggregator.new 0 : Aggregator Hdr.exact).withCap 1).recordAll xs).buildResults ⟨0, 0⟩ 0)
        ((((Aggregator.new 0 : Aggregator Hdr.exact).withCap 2).recordAll xs).buildResults
          ⟨0, 0⟩ 0) := by
  intro xs
  refine ⟨by decide +kernel, (sameHeadlines_iff (Aggregator.fresh_new 0) (by decide +kernel)
    (by decide +kernel) (by decide +kernel) 1 2 ⟨0, 0⟩ 0).2 fun k => ?_⟩
  by_cases hk : k.metric = "http_reqs"
  · exact .inr (hk ▸ ⟨by decide, fun h => absurd h (by decide)⟩)
  · -- There are no other series.
    have hnot (cap : ℕ) : k ∉ admitted cap xs := by
      intro hmem
      obtain ⟨s, hs, rfl⟩ := mem_map.1 (IndexMap.mem_of_mem_kept hmem)
      have hmetric : ∀ s ∈ xs, s.key.metric = "http_reqs" := by decide +kernel
      exact hk (hmetric s hs)
    exact .inl (iff_of_false (hnot 1) (hnot 2))

theorem headlines_under_caps :
    let xs := [plainSample "http_reqs" .counter, plainSample "checks" .rate,
        plainSample "iterations" .counter]
    let results cap :=
      (((Aggregator.new 0 : Aggregator Hdr.exact).withCap cap).recordAll xs).buildResults ⟨0, 0⟩ 0
    ((results 1).checksTotal, (results 1).iterations) = (0, 0) ∧
      ((results 3).checksTotal, (results 3).iterations) = (1, 1) ∧
        ¬ SameHeadlines (results 1) (results 3) := by
  intro xs results
  have h₁ : ((results 1).checksTotal, (results 1).iterations) = (0, 0) := by decide +kernel
  have h₃ : ((results 3).checksTotal, (results 3).iterations) = (1, 1) := by decide +kernel
  refine ⟨h₁, h₃, fun h => ?_⟩
  rw [h.checksTotal, h.iterations, h₃] at h₁
  cases h₁

end

/-! ## Histograms -/

def Aggregator.histogramCost (c : ℕ) (a : Aggregator hdr) : ℕ :=
  a.data.entries.countP (·.2.histogram.isSome) * c

section

variable {a : Aggregator hdr}

theorem histogramCost_le (hfresh : a.Fresh) (c : ℕ) (xs : List Sample) :
    (a.recordAll xs).histogramCost c ≤ a.maxSeries * c := by
  have hdata : (a.capped xs).data = dataOf a.histogramMaxMs (admittedSamples a.maxSeries xs) := rfl
  rw [Aggregator.recordAll_eq_capped hfresh, Aggregator.histogramCost]
  refine Nat.mul_le_mul_right c (countP_le_length.trans ?_)
  rw [hdata, ← length_map Prod.fst, keys_dataOf_admittedSamples]
  exact IndexMap.length_kept_le _ _

def manyTrends (n : ℕ) : List Sample :=
  (List.range n).map fun i => plainSample (String.ofList (List.replicate i 'x')) .trend

theorem seriesCount_manyTrends (n : ℕ) : seriesCount (manyTrends n) = n := by
  have hinj : Function.Injective fun i : ℕ =>
    (plainSample (String.ofList (List.replicate i 'x')) .trend).key := by
    intro i j hij
    have hmetric : String.ofList (List.replicate i 'x') = String.ofList (List.replicate j 'x') :=
      congrArg MetricKey.metric hij
    have hlength := congrArg List.length (String.ofList_injective hmetric)
    rwa [length_replicate, length_replicate] at hlength
  have hkeys : (manyTrends n).map Sample.key =
      (List.range n).map fun i : ℕ =>
        (plainSample (String.ofList (List.replicate i 'x')) .trend).key := by
    rw [manyTrends, List.map_map]
    rfl
  rw [seriesCount, hkeys, (nodup_range.map hinj).dedup, length_map, length_range]

theorem histogramCost_manyTrends (hfresh : a.Fresh) (c : ℕ) {n : ℕ} (h : n ≤ a.maxSeries) :
    (a.recordAll (manyTrends n)).histogramCost c = n * c := by
  have hcount := seriesCount_manyTrends n
  have hdata : (a.recorded (manyTrends n)).data = dataOf a.histogramMaxMs (manyTrends n) := rfl
  rw [Aggregator.recordAll_eq hfresh (hcount.trans_le h), Aggregator.histogramCost, hdata]
  have hall : ∀ e ∈ (dataOf a.histogramMaxMs (manyTrends n) : IndexMap MetricKey
      (MetricSet hdr)).entries,
      e.2.histogram.isSome := by
    rintro ⟨k, set⟩ he
    have hget := IndexMap.get_eq_some_iff.2 he
    have htrend : set.metricType = .trend := by
      refine metricType_of_get_dataOf hget fun s hs _ => ?_
      obtain ⟨i, -, rfl⟩ := mem_map.1 hs
      rfl
    obtain ⟨hist, hhist, -⟩ := exists_histogram_of_get_dataOf hget htrend
    exact Option.isSome_of_eq_some hhist
  rw [countP_eq_length.2 hall, ← IndexMap.length, length_dataOf, hcount]

/-- The budget is kept exactly under caps that are small enough for it. -/
theorem histogramCost_le_iff (hfresh : a.Fresh) (c cap : ℕ) :
    (∀ xs, ((a.withCap cap).recordAll xs).histogramCost c ≤ maxHistogramBytes + c) ↔
      cap * c ≤ maxHistogramBytes + c := by
  refine ⟨fun h => ?_, fun h xs => (histogramCost_le (hfresh.withCap cap) c xs).trans h⟩
  calc cap * c = ((a.withCap cap).recordAll (manyTrends cap)).histogramCost c :=
        (histogramCost_manyTrends (hfresh.withCap cap) c le_rfl).symm
    _ ≤ maxHistogramBytes + c := h (manyTrends cap)

theorem histogramCost_small_cap :
    (((Aggregator.new 0 : Aggregator Hdr.exact).withCap 32769).recordAll
      (manyTrends 40000)).histogramCost 16384 ≤
      maxHistogramBytes + 16384 :=
  (histogramCost_le_iff (Aggregator.fresh_new 0) 16384 32769).2 (by decide) (manyTrends 40000)

theorem histogramCost_default_cap : maxHistogramBytes + 16384 <
      ((Aggregator.new 0 : Aggregator Hdr.exact).recordAll (manyTrends 32770)).histogramCost
        16384 := by
  rw [histogramCost_manyTrends (Aggregator.fresh_new 0) 16384 (by decide)]
  decide

end

end Tropel
