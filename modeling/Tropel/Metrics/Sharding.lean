import Mathlib.Algebra.BigOperators.Fin
import Tropel.Metrics.Merge
import Tropel.Metrics.Recording

/-!
# Shards

Every metric is owned by one of the aggregators of a process, its *shards*, which gets all samples
of it in order.

* `mergeResults_shards`: together they are one aggregator.
-/

namespace Tropel

open Lib List

variable {hdr : Hdr}

namespace MetricsResult

def headlines (r : MetricsResult hdr) : MetricsResult hdr :=
  { r with metrics := [], perUrl := [], perGroup := [] }

structure SameUpToOrder (r r' : MetricsResult hdr) : Prop where
  metrics : r.metrics.Perm r'.metrics
  perUrl : r.perUrl.Perm r'.perUrl
  perGroup : r.perGroup.Perm r'.perGroup
  headlines : r.headlines = r'.headlines

end MetricsResult

/-! ## What a shard holds -/

variable (metric : String)

section

variable {n : ℕ} (assign : String → Fin n)

def shard (i : Fin n) (samples : List Sample) : List Sample :=
  samples.filter fun s => assign s.metric = i

theorem get_shard {κ σ : Type*} [DecidableEq κ] {key : Sample → Option κ} {init : Sample → σ}
    {step : Sample → σ → σ} (name : κ → String) (hname : ∀ s k, key s = some k → s.metric = name k)
    (i : Fin n) (samples : List Sample) (k : κ) :
    (IndexMap.collectAll key init step (shard assign i samples)).get k =
      if assign (name k) = i then (IndexMap.collectAll key init step samples).get k else none := by
  rw [shard, IndexMap.get_collectAll_filter (b := decide (assign (name k) = i))]
  · simp only [decide_eq_true_eq]
  · intro s hs
    rw [hname s k hs]

variable (maxMs : Option ℕ) (i : Fin n) (xs : List Sample)

theorem get_dataOf_shard (k : MetricKey) :
    (dataOf maxMs (shard assign i xs) : IndexMap MetricKey (MetricSet hdr)).get k =
      if assign k.metric = i then (dataOf maxMs xs).get k else none :=
  get_shard assign MetricKey.metric (fun s k h => by rw [← Option.some.inj h]; rfl) i xs k

theorem get_totalsOf_shard : (totalsOf (shard assign i xs)).get metric =
      if assign metric = i then (totalsOf xs).get metric else none :=
  get_shard assign id (fun _ _ h => Option.some.inj h) i xs metric

theorem get_headlineOf_shard :
    (headlineOf metric maxMs (shard assign i xs) : IndexMap Unit (MetricSet hdr)).get () =
      if assign metric = i then (headlineOf metric maxMs xs).get () else none :=
  get_shard assign (fun _ => metric)
    (fun _ _ h => (Option.ite_none_right_eq_some.1 h).1) i xs ()

theorem get_perUrlOf_shard (url : String) :
    (perUrlOf maxMs (shard assign i xs) : IndexMap String (MetricSet hdr)).get url =
      if assign "http_req_duration" = i then (perUrlOf maxMs xs).get url else none :=
  get_shard assign (fun _ => "http_req_duration")
    (fun _ _ h => (Option.ite_none_right_eq_some.1 h).1) i xs url

theorem get_perGroupOf_shard (k : String × String) :
    (perGroupOf maxMs (shard assign i xs) : IndexMap (String × String) (MetricSet hdr)).get k =
      if assign k.1 = i then (perGroupOf maxMs xs).get k else none := by
  refine get_shard assign Prod.fst (fun s k h => ?_) i xs k
  obtain ⟨g, _, rfl⟩ := Option.map_eq_some_iff.1 h
  rfl

theorem valuesOf_shard :
    valuesOf metric (shard assign i xs) = if assign metric = i then valuesOf metric xs else [] := by
  rw [valuesOf, shard, filter_filter]
  split
  next h =>
    rw [valuesOf]
    congr 1
    refine filter_congr fun s _ => ?_
    by_cases hs : s.metric = metric <;> simp [hs, h]
  next h =>
    rw [filter_eq_nil_iff.2, map_nil]
    intro s _
    by_cases hs : s.metric = metric <;> simp [hs, h]

theorem seriesCount_shard_le : seriesCount (shard assign i xs) ≤ seriesCount xs := by
  refine List.Subperm.length_le ((nodup_dedup _).subperm fun k hk => ?_)
  rw [mem_dedup] at hk ⊢
  obtain ⟨s, hs, rfl⟩ := mem_map.1 hk
  exact mem_map_of_mem (mem_of_mem_filter hs)

/-! ## Series and sums over the shards -/

variable {assign maxMs xs}

theorem flatMap_shards_perm {κ σ τ : Type*} [DecidableEq κ] {m : IndexMap κ σ}
    {part : Fin n → IndexMap κ σ} {name : κ → String}
    (h : ∀ i k, (part i).get k = if assign (name k) = i then m.get k else none) (g : κ × σ → τ) :
    ((List.finRange n).flatMap fun i => (part i).entries.map g).Perm (m.entries.map g) := by
  rw [← map_flatMap]
  exact (IndexMap.flatMap_entries_perm (nodup_finRange n) (fun _ => mem_finRange _) h).map g

theorem sum_owner {M : Type*} [AddCommMonoid M] (j : Fin n) (x : M) :
    ((List.finRange n).map fun i => if j = i then x else 0).sum = x := by
  rw [← Fin.sum_univ_def, Finset.sum_ite_eq, if_pos (Finset.mem_univ j)]

theorem foldl_max_map {ι : Type*} (f : ι → List ℕ) (l : List ι) (c : ℕ) :
    (l.map fun i => (f i).foldl max 0).foldl max c = (l.flatMap f).foldl max c := by
  induction l generalizing c with
  | nil => rfl
  | cons i l ih =>
    have hassoc : (f i).foldl max (max c 0) = max c ((f i).foldl max 0) := foldl_assoc
    rw [map_cons, foldl_cons, ih, flatMap_cons, foldl_append, ← hassoc,
      Nat.max_zero]

theorem foldl_replicate {β γ : Type*} {f : β → γ → β} {b : β} {c : γ} (h : f b c = b) (m : ℕ) :
    (List.replicate m c).foldl f b = b := by
  induction m with
  | zero => rfl
  | succ m ih => rw [replicate_succ, foldl_cons, h, ih]

theorem foldl_max_replicate (m d : ℕ) : (List.replicate (m + 1) d).foldl max 0 = d := by
  rw [replicate_succ, foldl_cons, Nat.zero_max, foldl_replicate (max_self d)]

end

namespace Aggregator

variable {n : ℕ} {assign : String → Fin n} {a : Aggregator hdr} {xs : List Sample}

theorem sumOver_eq_zero {M : Type} [AddCommMonoid M] {b : Aggregator hdr} {metric : String}
    (h : ∀ e ∈ b.data.entries, e.1.metric ≠ metric) (f : MetricSet hdr → M) :
    b.sumOver metric f = 0 := by
  refine sum_eq_zero fun x hx => ?_
  obtain ⟨e, he, rfl⟩ := mem_map.1 hx
  exact if_neg (h e he)

theorem sumOver_shard {M : Type} [AddCommMonoid M] (i : Fin n) (metric : String)
    (f : MetricSet hdr → M) :
    (a.recorded (shard assign i xs)).sumOver metric f =
      if assign metric = i then (a.recorded xs).sumOver metric f else 0 := by
  have hget (i : Fin n) (k : MetricKey) :
      (dataOf a.histogramMaxMs (shard assign i xs) : IndexMap MetricKey (MetricSet hdr)).get k =
        _ :=
    get_dataOf_shard assign a.histogramMaxMs i xs k
  have hzero (j : Fin n) (hj : assign metric ≠ j) :
      (a.recorded (shard assign j xs)).sumOver metric f = 0 := by
    refine sumOver_eq_zero (fun e he hm => hj ?_) f
    have := IndexMap.get_eq_some_iff.2 he
    rw [show (a.recorded (shard assign j xs)).data.get e.1 = _ from hget j e.1,
      Option.ite_none_right_eq_some] at this
    exact hm ▸ this.1
  split
  next hi =>
    -- All shards together sum over the series of one aggregator, and only `i` contributes.
    have hperm := (flatMap_shards_perm hget
      fun e => if e.1.metric = metric then f e.2 else 0).sum_eq
    rw [flatMap_def, sum_flatten, List.map_map, ← Fin.sum_univ_def,
      Finset.sum_eq_single i] at hperm
    · exact hperm
    · exact fun j _ hj => hzero j fun h => hj (h ▸ hi)
    · exact fun h => absurd (Finset.mem_univ i) h
  next hi => exact hzero i hi

theorem total_shard (i : Fin n) (metric : String) : (a.recorded (shard assign i xs)).total metric =
      if assign metric = i then (a.recorded xs).total metric else 0 := by
  rw [total, total]
  change ((totalsOf (shard assign i xs)).get metric).getD 0 = _
  rw [get_totalsOf_shard]
  split <;> rfl

theorem sum_max_shards {M : Type} [AddCommMonoid M] [LinearOrder M] (metric : String)
    (f : MetricSet hdr → M) {g : ℚ → M} (hg : g 0 = 0) :
    ((List.finRange n).map fun i => max ((a.recorded (shard assign i xs)).sumOver metric f)
        (g ((a.recorded (shard assign i xs)).total metric))).sum =
      max ((a.recorded xs).sumOver metric f) (g ((a.recorded xs).total metric)) := by
  rw [← sum_owner (assign metric) (max _ _)]
  congr 1
  refine map_congr_left fun i _ => ?_
  rw [sumOver_shard, total_shard]
  split
  · rfl
  · rw [hg, max_self]

theorem sum_counter_shards : ((List.finRange n).map fun i =>
        max ((a.recorded (shard assign i xs)).sumOver metric (asU64 ·.sum))
          (asU64 ((a.recorded (shard assign i xs)).total metric))).sum =
      max ((a.recorded xs).sumOver metric (asU64 ·.sum)) (asU64 ((a.recorded xs).total metric)) :=
  sum_max_shards metric _ asU64_zero

theorem sum_data_shards : ((List.finRange n).map fun i =>
        max ((a.recorded (shard assign i xs)).sumOver metric (·.sum))
          ((a.recorded (shard assign i xs)).total metric)).sum =
      max ((a.recorded xs).sumOver metric (·.sum)) ((a.recorded xs).total metric) :=
  sum_max_shards (g := id) metric _ rfl

theorem sum_sumOver_shards (f : MetricSet hdr → ℕ) :
    ((List.finRange n).map fun i => (a.recorded (shard assign i xs)).sumOver metric f).sum =
      (a.recorded xs).sumOver metric f := by
  simp only [sumOver_shard, sum_owner]

theorem sum_droppedIterations_shards : ((List.finRange n).map fun i =>
        asU64 ((a.recorded (shard assign i xs)).total "dropped_iterations")).sum =
      asU64 ((a.recorded xs).total "dropped_iterations") := by
  rw [← sum_owner (assign "dropped_iterations") (asU64 _)]
  congr 1
  refine map_congr_left fun i _ => ?_
  rw [total_shard]
  split
  · rfl
  · exact asU64_zero

theorem sum_httpReqFailedSum_shards :
    ((List.finRange n).map fun i => (a.recorded (shard assign i xs)).httpReqFailedSum).sum =
      (a.recorded xs).httpReqFailedSum := by
  rw [← sum_owner (assign "http_req_failed") (a.recorded xs).httpReqFailedSum]
  congr 1
  refine map_congr_left fun i _ => ?_
  rw [recorded, valuesOf_shard]
  split <;> rfl

theorem sum_httpReqFailedRequests_shards :
    ((List.finRange n).map fun i =>
      ((a.recorded (shard assign i xs)).httpReqFailedRequests : ℚ)).sum =
      (a.recorded xs).httpReqFailedRequests := by
  rw [← sum_owner (assign "http_req_failed") ((a.recorded xs).httpReqFailedRequests : ℚ)]
  congr 1
  refine map_congr_left fun i _ => ?_
  rw [recorded, valuesOf_shard]
  split
  · rfl
  · exact Nat.cast_zero

theorem series_shards_perm (globals : Globals) (now : ℕ) :
    let r (i : Fin n) := (a.recorded (shard assign i xs)).buildResults globals now
    let one := (a.recorded xs).buildResults globals now
    ((List.finRange n).flatMap fun i => (r i).metrics).Perm one.metrics ∧
      ((List.finRange n).flatMap fun i => (r i).perUrl).Perm one.perUrl ∧
      ((List.finRange n).flatMap fun i => (r i).perGroup).Perm one.perGroup := by
  refine ⟨?_, ?_, ?_⟩
  · exact flatMap_shards_perm (get_dataOf_shard assign a.histogramMaxMs · xs)
      fun e => summary e.1.toKeyString e.1.tags e.2 a.retainHistograms
  · refine .trans (.flatMap_left _ fun i _ => (perm_insertionSort ..).map _)
      (.trans ?_ ((perm_insertionSort ..).symm.map _))
    exact flatMap_shards_perm (get_perUrlOf_shard assign a.histogramMaxMs · xs) fun e =>
      trendSummary ("http_req_duration\x7burl=" ++ e.1 ++ "\x7d")
        [("url", e.1)] e.2 a.retainHistograms
  · refine .trans (.flatMap_left _ fun i _ => (perm_insertionSort ..).map _)
      (.trans ?_ ((perm_insertionSort ..).symm.map _))
    exact flatMap_shards_perm (get_perGroupOf_shard assign a.histogramMaxMs · xs) fun e =>
      summary (e.1.1 ++ "\x7bgroup=" ++ e.1.2 ++ "\x7d") [("group", e.1.2)] e.2 a.retainHistograms

theorem vusMax_shards :
    ((List.finRange n).map fun i => ((a.recorded (shard assign i xs)).data.entries.map
        fun e => if e.1.metric = "vus" then observedVus e.2 else 0).foldl max 0).foldl max 0 =
      ((a.recorded xs).data.entries.map
        fun e => if e.1.metric = "vus" then observedVus e.2 else 0).foldl max 0 := by
  have hperm := flatMap_shards_perm (get_dataOf_shard assign a.histogramMaxMs · xs)
    fun e : MetricKey × MetricSet hdr => if e.1.metric = "vus" then observedVus e.2 else 0
  rw [foldl_max_map]
  exact hperm.foldl_eq 0

end Aggregator

/-! ## The results of the shards, joined -/

@[simp]
theorem mergeHeadline_none (o : Option (MetricSummary hdr)) : mergeHeadline o none = o := by
  cases o <;> rfl

theorem mergeHeadline_none_left (o : Option (MetricSummary hdr)) : mergeHeadline none o = o := by
  cases o <;> rfl

theorem foldl_mergeHeadline_owner {n : ℕ} (j : Fin n) (x : Option (MetricSummary hdr)) :
    ((List.finRange n).map fun i => if j = i then x else none).foldl mergeHeadline none = x := by
  have hskip (l : List (Fin n)) (o : Option (MetricSummary hdr)) (hj : j ∉ l) :
      (l.map fun i => if j = i then x else none).foldl mergeHeadline o = o := by
    induction l with
    | nil => rfl
    | cons i l ih =>
      rw [mem_cons, not_or] at hj
      rw [map_cons, foldl_cons, if_neg hj.1, mergeHeadline_none, ih hj.2]
  obtain ⟨l₁, l₂, hl⟩ := append_of_mem (mem_finRange j)
  have hnodup := nodup_finRange n
  rw [hl, nodup_append, nodup_cons] at hnodup
  rw [hl, map_append, foldl_append, hskip l₁ none fun h => hnodup.2.2 j h j mem_cons_self rfl,
    map_cons, foldl_cons, if_pos rfl, mergeHeadline_none_left, hskip l₂ x hnodup.2.1.1]

theorem foldl_headline_shards {n : ℕ} {assign : String → Fin n} {maxMs : Option ℕ}
    {xs : List Sample} (metric : String) (g : MetricSet hdr → MetricSummary hdr) :
    ((List.finRange n).map fun i =>
      ((headlineOf metric maxMs (shard assign i xs)).get ()).map g).foldl
        mergeHeadline none =
      ((headlineOf metric maxMs xs).get ()).map g := by
  rw [← foldl_mergeHeadline_owner (assign metric) (((headlineOf metric maxMs xs).get ()).map g)]
  congr 1
  refine map_congr_left fun i _ => ?_
  rw [get_headlineOf_shard]
  split <;> rfl

theorem foldl_mergeStep (rs : List (MetricsResult hdr)) (out : MetricsResult hdr) :
    rs.foldl mergeStep out =
      { out with
        metrics := out.metrics ++ rs.flatMap (·.metrics)
        perUrl := out.perUrl ++ rs.flatMap (·.perUrl)
        perGroup := out.perGroup ++ rs.flatMap (·.perGroup)
        checksTotal := out.checksTotal + (rs.map (·.checksTotal)).sum
        checksPassed := out.checksPassed + (rs.map (·.checksPassed)).sum
        checksFailed := out.checksFailed + (rs.map (·.checksFailed)).sum
        vuInitFailures := out.vuInitFailures + (rs.map (·.vuInitFailures)).sum
        scriptFailures := out.scriptFailures + (rs.map (·.scriptFailures)).sum
        httpReqs := out.httpReqs + (rs.map (·.httpReqs)).sum
        httpReqDuration := (rs.map (·.httpReqDuration)).foldl mergeHeadline out.httpReqDuration
        iterationDuration :=
          (rs.map (·.iterationDuration)).foldl mergeHeadline out.iterationDuration
        dataReceived := out.dataReceived + (rs.map (·.dataReceived)).sum
        dataSent := out.dataSent + (rs.map (·.dataSent)).sum
        errors := out.errors + (rs.map (·.errors)).sum
        seriesDropped := out.seriesDropped + (rs.map (·.seriesDropped)).sum
        droppedIterations := out.droppedIterations + (rs.map (·.droppedIterations)).sum
        httpReqFailedCount := out.httpReqFailedCount + (rs.map (·.httpReqFailedCount)).sum
        httpReqFailedTotal := out.httpReqFailedTotal + (rs.map (·.httpReqFailedTotal)).sum
        iterations := out.iterations + (rs.map (·.iterations)).sum
        vusMax := (rs.map (·.vusMax)).foldl max out.vusMax
        requestedVus := (rs.map (·.requestedVus)).foldl max out.requestedVus
        effectiveVus := (rs.map (·.effectiveVus)).foldl max out.effectiveVus
        effectiveVusReason :=
          (rs.map (·.effectiveVusReason)).foldl Option.or out.effectiveVusReason } := by
  induction rs generalizing out with
  | nil => simp
  | cons r rs ih =>
    rw [foldl_cons, ih]
    simp [mergeStep, add_assoc]

def shardResults {n : ℕ} (a : Aggregator hdr) (assign : String → Fin n) (globals : Globals)
    (now : ℕ) (samples : List Sample) (i : Fin n) : MetricsResult hdr :=
  (a.recordAll (shard assign i samples)).buildResults globals now

theorem mergeResults_eq {globals : Globals} {rs : List (MetricsResult hdr)} (h₂ : 2 ≤ rs.length)
    (a : Aggregator hdr) (now : ℕ) (hrs : ∀ r ∈ rs, r.summaryTrendStats = a.summaryTrendStats ∧
      r.effectiveThresholds = a.effectiveThresholds ∧ r.runDuration = now - a.started) :
    mergeResults globals rs =
      let out := rs.foldl mergeStep
        { MetricsResult.default with
          summaryTrendStats := a.summaryTrendStats
          effectiveThresholds := a.effectiveThresholds
          runDuration := now - a.started }
      { out with
        httpReqFailed :=
          if 0 < out.httpReqFailedTotal then out.httpReqFailedCount / out.httpReqFailedTotal
          else out.httpReqFailed
        outputSamplesDropped := globals.outputSamplesDropped
        aggregatorSamplesDropped := globals.aggregatorSamplesDropped } := by
  have hduration : (rs.map (·.runDuration)).foldl max 0 = now - a.started := by
    rw [map_congr_left fun r hr => (hrs r hr).2.2, map_const']
    obtain ⟨m, hm⟩ := Nat.exists_eq_add_of_le' h₂
    rw [hm, foldl_max_replicate]
  rcases rs with _ | ⟨r, _ | ⟨r', rs⟩⟩
  · cases h₂
  · exact absurd h₂ (Nat.not_succ_le_self 1)
  · obtain ⟨h₁, h₂, -⟩ := hrs r mem_cons_self
    rw [mergeResults, hduration, h₁, h₂]
    simp

/-- A shard owns what one aggregator holds about its metrics, so joining the results of
    all shards gives the results of one aggregator. -/
theorem mergeResults_shards (a : Aggregator hdr) (hfresh : a.Fresh) {n : ℕ}
    (assign : String → Fin n) (samples : List Sample)
    (hroom : seriesCount samples ≤ a.maxSeries) (globals : Globals) (now : ℕ) :
    (mergeResults globals
      ((List.finRange n).map (shardResults a assign globals now samples))).SameUpToOrder
      ((a.recordAll samples).buildResults globals now) := by
  have hshard (i : Fin n) : shardResults a assign globals now samples i =
      (a.recorded (shard assign i samples)).buildResults globals now := by
    rw [shardResults, Aggregator.recordAll_eq hfresh ((seriesCount_shard_le ..).trans hroom)]
  rw [Aggregator.recordAll_eq hfresh hroom, funext hshard]
  rcases Nat.lt_or_ge n 2 with hn | hn
  · -- There is one shard, as some shard owns the metrics, and it gets all samples.
    obtain rfl : n = 1 := by have := (assign "").pos; omega
    have hall : shard assign 0 samples = samples :=
      filter_eq_self.2 fun s _ => decide_eq_true (Subsingleton.elim _ _)
    rw [show List.finRange 1 = [0] from rfl, map_singleton, hall]
    exact ⟨.refl _, .refl _, .refl _, rfl⟩
  · rw [mergeResults_eq (by simpa using hn) a now
      (by simp [Aggregator.buildResults, Aggregator.recorded]), foldl_mergeStep]
    simp only [List.map_map, flatMap_map, Function.comp_def]
    obtain ⟨h₁, h₂, h₃⟩ := Aggregator.series_shards_perm globals now
    refine ⟨h₁, h₂, h₃, ?_⟩
    simp only [MetricsResult.headlines, MetricsResult.default, Aggregator.buildResults, zero_add,
      Aggregator.sum_sumOver_shards, Aggregator.sum_counter_shards, Aggregator.sum_data_shards,
      Aggregator.sum_droppedIterations_shards, Aggregator.vusMax_shards,
      Aggregator.sum_httpReqFailedSum_shards, Aggregator.sum_httpReqFailedRequests_shards]
    simp only [Aggregator.recorded, foldl_headline_shards, map_const',
      foldl_replicate (Nat.max_self 0), foldl_replicate Option.or_none, sum_replicate, nsmul_zero,
        Nat.cast_pos]
    apply MetricsResult.ext <;> rfl

theorem mergeResults_two_shards :
    let samples : List Sample :=
      [⟨"http_req_duration", .ofPairs [("url", "/")], 250, .trend⟩,
        ⟨"checks", .ofPairs [], 1, .rate⟩,
          ⟨"http_req_duration", .ofPairs [("name", "/")], 750, .trend⟩]
    let assign : String → Fin 2 := fun metric => if metric = "checks" then 1 else 0
    seriesCount samples ≤ maxSeries ∧
      (mergeResults ⟨0, 0⟩ ((List.finRange 2).map
        (shardResults (.new 0 : Aggregator Hdr.exact) assign ⟨0, 0⟩ 9 samples))).SameUpToOrder
        (((.new 0 : Aggregator Hdr.exact).recordAll samples).buildResults ⟨0, 0⟩ 9) :=
  ⟨by decide, mergeResults_shards (.new 0) (Aggregator.fresh_new 0) _ _ (by decide) ⟨0, 0⟩ 9⟩

end Tropel
