import Tropel.Metrics.Distributed
import Tropel.Metrics.Sharding

/-!
# A distributed run and one node

With the snapshots of all agents, the controller makes the merged sets anew from the series
(`Aggregator.rebuildMerged`).

* `mergeSnapshots_agrees_iff`: when that is what one node has.
-/

namespace Tropel

open Lib List IndexMap

variable {hdr : Hdr}

/-! ## Merging series -/

namespace MetricKey

def headlineKey (metric : String) (k : MetricKey) : Option Unit :=
  if k.metric = metric then some () else none

def durationUrl (k : MetricKey) : Option String :=
  if k.metric = "http_req_duration" then Aggregator.seriesUrl k else none

def groupKey (k : MetricKey) : Option (String × String) :=
  (k.tag "group").map fun g => (k.metric, g)

end MetricKey

def mergedBy {κ : Type*} [DecidableEq κ] (f : MetricKey → Option κ)
    (init : MetricSet hdr → MetricSet hdr) (es : List (MetricKey × MetricSet hdr)) :
    IndexMap κ (MetricSet hdr) :=
  .collectAll (fun e => f e.1) (fun e => init e.2) (fun e set => set.mergeFrom e.2) es

variable {samples : List Sample} {κ : Type*}

theorem mergedBy_append_singleton [DecidableEq κ] (f : MetricKey → Option κ)
    (init : MetricSet hdr → MetricSet hdr) (es : List (MetricKey × MetricSet hdr))
    (e : MetricKey × MetricSet hdr) :
    mergedBy f init (es ++ [e]) = match f e.1 with
      | some k => (mergedBy f init es).upsert k (init e.2) (·.mergeFrom e.2) | none =>
          mergedBy f init es :=
  collectAll_append_singleton es e

theorem mergedBy_headlineKey_append_singleton (metric : String)
    (init : MetricSet hdr → MetricSet hdr) (es : List (MetricKey × MetricSet hdr))
    (e : MetricKey × MetricSet hdr) :
    (mergedBy (MetricKey.headlineKey metric) init (es ++ [e])).get () =
      if e.1.metric = metric then
        some ((((mergedBy (MetricKey.headlineKey metric) init es).get ()).getD
          (init e.2)).mergeFrom e.2)
      else (mergedBy (MetricKey.headlineKey metric) init es).get () := by
  rw [mergedBy_append_singleton, MetricKey.headlineKey]
  by_cases h : e.1.metric = metric
  · rw [if_pos h, if_pos h]
    exact get_upsert _ () () _ _
  · rw [if_neg h, if_neg h]

namespace Aggregator

variable (a : Aggregator hdr)

theorem rebuildStep_eq (e : MetricKey × MetricSet hdr) : a.rebuildStep e =
      { a with
        mergedHttpDur :=
          if e.1.metric = "http_req_duration" then
            some ((a.mergedHttpDur.getD (.new .trend a.histogramMaxMs true)).mergeFrom e.2)
          else a.mergedHttpDur
        mergedIterDur :=
          if e.1.metric = "iteration_duration" then
            some ((a.mergedIterDur.getD (.new .trend a.histogramMaxMs true)).mergeFrom e.2)
          else a.mergedIterDur
        mergedPerUrl := match e.1.durationUrl with
          | some url =>
            a.mergedPerUrl.upsert url (.new .trend a.histogramMaxMs true) (·.mergeFrom e.2)
          | none => a.mergedPerUrl
        mergedPerGroup := match e.1.groupKey with
          | some k =>
            a.mergedPerGroup.upsert k (.new e.2.metricType a.histogramMaxMs true) (·.mergeFrom e.2)
          | none => a.mergedPerGroup
        httpReqFailedRequests :=
          a.httpReqFailedRequests + if e.1.metric = "http_req_failed" then e.2.count else 0
        httpReqFailedSum :=
          a.httpReqFailedSum + if e.1.metric = "http_req_failed" then e.2.sum else 0 } := by
  rw [rebuildStep, MetricKey.groupKey, MetricKey.durationUrl]
  -- The names of the three metrics are different, so at most one of the branches is taken.
  by_cases h₁ : e.1.metric = "http_req_duration"
  · have h₂ : e.1.metric ≠ "iteration_duration" := by rw [h₁]; decide
    have h₃ : e.1.metric ≠ "http_req_failed" := by rw [h₁]; decide
    simp only [if_pos h₁, if_neg h₂, if_neg h₃, add_zero]
    rcases seriesUrl e.1 with _ | url <;> rcases e.1.tag "group" with _ | group <;> rfl
  · by_cases h₂ : e.1.metric = "iteration_duration"
    · have h₃ : e.1.metric ≠ "http_req_failed" := by rw [h₂]; decide
      simp only [if_neg h₁, if_pos h₂, if_neg h₃, add_zero]
      rcases e.1.tag "group" with _ | group <;> rfl
    · by_cases h₃ : e.1.metric = "http_req_failed"
      · simp only [if_neg h₁, if_neg h₂, if_pos h₃]
        rcases e.1.tag "group" with _ | group <;> rfl
      · simp only [if_neg h₁, if_neg h₂, if_neg h₃, add_zero]
        rcases e.1.tag "group" with _ | group <;> rfl

def rebuilt (es : List (MetricKey × MetricSet hdr)) : Aggregator hdr :=
  let trend := fun _ => MetricSet.new .trend a.histogramMaxMs true
  let failed := es.filter fun e => e.1.metric = "http_req_failed"
  { a with
    mergedHttpDur := (mergedBy (MetricKey.headlineKey "http_req_duration") trend es).get ()
    mergedIterDur := (mergedBy (MetricKey.headlineKey "iteration_duration") trend es).get ()
    mergedPerUrl := mergedBy MetricKey.durationUrl trend es
    mergedPerGroup :=
      mergedBy MetricKey.groupKey (fun set => .new set.metricType a.histogramMaxMs true) es
    httpReqFailedRequests := (failed.map (·.2.count)).sum
    httpReqFailedSum := (failed.map (·.2.sum)).sum }

theorem rebuildStep_rebuilt (es : List (MetricKey × MetricSet hdr))
    (e : MetricKey × MetricSet hdr) : (a.rebuilt es).rebuildStep e = a.rebuilt (es ++ [e]) := by
  rw [rebuildStep_eq, rebuilt, rebuilt]
  simp only [mergedBy_headlineKey_append_singleton, mergedBy_append_singleton MetricKey.durationUrl,
    mergedBy_append_singleton MetricKey.groupKey, filter_append, map_append, sum_append]
  rcases e.1.durationUrl with _ | url <;> rcases e.1.groupKey with _ | k <;>
    by_cases h : e.1.metric = "http_req_failed" <;> simp [h]

theorem rebuildMerged_eq : a.rebuildMerged = a.rebuilt a.data.entries := by
  have hfold : ∀ es : List (MetricKey × MetricSet hdr),
      es.foldl rebuildStep (a.rebuilt []) = a.rebuilt es := by
    intro es
    induction es using List.reverseRecOn with
    | nil => rfl
    | append_singleton es e ih =>
      rw [foldl_append, ih, foldl_cons, foldl_nil, rebuildStep_rebuilt]
  exact hfold a.data.entries

end Aggregator

/-! ## The values of merged series -/

theorem sum_valuesAt [DecidableEq κ] {data : IndexMap MetricKey (MetricSet hdr)}
    (f : MetricKey → Option κ) (u : κ) {xs : List Sample}
    (hxs : ∀ s ∈ xs, (data.get s.key).isSome) :
    ((data.entries.filter fun e => f e.1 = some u).map
      fun e => valuesAt (fun s => some s.key) xs e.1).sum = valuesAt (fun s => f s.key) xs u := by
  induction xs with
  | nil => simp [valuesAt]
  | cons s xs ih =>
    have hs : (((data.entries.filter fun e => f e.1 = some u).map
        fun e => if some s.key = some e.1 then ({s.value} : Multiset ℚ) else 0)).sum =
          if f s.key = some u then {s.value} else 0 := by
      obtain ⟨set, hset⟩ := Option.isSome_iff_exists.1 (hxs s mem_cons_self)
      have hone := data.sum_filter_entries
        (fun k _ => if f k = some u then ({s.value} : Multiset ℚ) else 0) s.key
      rw [hset, Option.elim_some] at hone
      rw [← hone, sum_map_ite, sum_map_ite, filter_filter, filter_filter]
      simp [eq_comm (a := s.key), Bool.and_comm]
    simp only [valuesAt_cons, sum_map_add, hs]
    rw [ih fun x hx => hxs x (mem_cons_of_mem _ hx)]

section

variable {types : String → SampleType} {xs : List Sample}
  {data : IndexMap MetricKey (MetricSet hdr)}
  (hdata : Holds data (fun k => (types k.metric).metricType) (valuesAt (fun s => some s.key) xs))

include hdata

theorem isSome_get_of_holds {s : Sample} (hs : s ∈ xs) : (data.get s.key).isSome := by
  cases hget : data.get s.key with
  | none => exact absurd (hdata.none _ hget) (valuesAt_ne_zero hs rfl)
  | some set => rfl

variable {κ : Type*} {f : MetricKey → Option κ}

theorem holds_mergedBy [DecidableEq κ] {init : MetricSet hdr → MetricSet hdr} {t : κ → MetricType}
    (ht : ∀ k u, f k = some u → (types k.metric).metricType = t u)
    (hinit : ∀ set u, set.metricType = t u → (init set).Summarizes (t u) 0) :
    Holds (mergedBy f init data.entries) t (valuesAt (fun s => f s.key) xs) := by
  have hV : valuesAt (fun s => f s.key) xs = fun u =>
      ((data.entries.filter fun e => f e.1 = some u).map
        fun e => valuesAt (fun s => some s.key) xs e.1).sum := by
    funext u
    exact (sum_valuesAt f u fun s hs => isSome_get_of_holds hdata hs).symm
  rw [hV]
  refine holds_collectAll (fun e : MetricKey × MetricSet hdr =>
    valuesAt (fun s => some s.key) xs e.1)
    fun e he u hu => ?_
  obtain ⟨hne, hset⟩ := hdata.some e.1 e.2 (get_eq_some_iff.2 he)
  rw [ht e.1 u hu] at hset
  exact ⟨hne, hinit e.2 u hset.metricType, fun set vs h => h.mergeFrom hset⟩

theorem holds_mergedBy_groupKey (maxMs : Option ℕ) :
    Holds (mergedBy MetricKey.groupKey (fun set => .new set.metricType maxMs true) data.entries)
      (fun k => (types k.1).metricType) (valuesAt Sample.groupKey xs) := by
  refine holds_mergedBy hdata (f := MetricKey.groupKey) ?_ ?_
  · intro k u hu
    obtain ⟨g, _, rfl⟩ := Option.map_eq_some_iff.1 hu
    rfl
  · intro set u hset
    exact hset ▸ MetricSet.summarizes_new set.metricType maxMs

theorem holds_mergedBy_trend [DecidableEq κ] (ht : ∀ k u, f k = some u → types k.metric = .trend)
    (maxMs : Option ℕ) :
    Holds (mergedBy f (fun _ => .new .trend maxMs true) data.entries) (fun _ => .trend)
      (valuesAt (fun s => f s.key) xs) := by
  refine holds_mergedBy hdata ?_ ?_
  · intro k u hu
    rw [ht k u hu]
    rfl
  · intro set u _
    exact MetricSet.summarizes_new .trend maxMs

theorem sum_series {M : Type*} [AddCommMonoid M] (q : Multiset ℚ →+ M) {g : MetricSet hdr → M}
    (hg : ∀ set t vs, set.Summarizes t vs → g set = q vs) (metric : String) :
    ((data.entries.filter fun e => e.1.metric = metric).map fun e => g e.2).sum =
      q (valuesOf metric xs) := by
  have hvalues : ∀ ys, valuesAt (fun s => MetricKey.headlineKey metric s.key) ys () =
      (valuesOf metric ys : Multiset ℚ) := by
    intro ys
    induction ys with
    | nil => rfl
    | cons s ys ih =>
      rw [valuesAt_cons, ih, valuesOf, valuesOf, filter_cons, MetricKey.headlineKey]
      by_cases h : s.metric = metric <;> simp [h, Sample.key, MetricKey.new]
  rw [← hvalues,
    ← sum_valuesAt (MetricKey.headlineKey metric) () fun s hs => isSome_get_of_holds hdata hs,
    map_list_sum, List.map_map]
  have hfilter : (data.entries.filter fun e => MetricKey.headlineKey metric e.1 = some ()) =
      data.entries.filter fun e => e.1.metric = metric := by
    refine filter_congr fun e _ => ?_
    simp [MetricKey.headlineKey]
  rw [hfilter]
  refine congrArg List.sum (map_congr_left fun e he => ?_)
  exact hg e.2 _ _ (hdata.some e.1 e.2 (get_eq_some_iff.2 (mem_filter.1 he).1)).2

end

/-! ## Comparing results -/

namespace MetricsResult

def totals (r : MetricsResult hdr) : MetricsResult hdr :=
  { r.headlines with
    httpReqDuration := none
    iterationDuration := none
    runDuration := 0
    summaryTrendStats := []
    effectiveThresholds := ∅ }

structure SameSeries (r r' : MetricsResult hdr) : Prop where
  metrics : (r.metrics.map (·.shown)).Perm (r'.metrics.map (·.shown))
  perGroup : (r.perGroup.map (·.shown)).Perm (r'.perGroup.map (·.shown))
  totals : r.totals = r'.totals

structure Agrees (r r' : MetricsResult hdr) : Prop extends SameSeries r r' where
  perUrl : (r.perUrl.map (·.shown)).Perm (r'.perUrl.map (·.shown))
  httpReqDuration : r.httpReqDuration.map (·.shown) = r'.httpReqDuration.map (·.shown)
  iterationDuration : r.iterationDuration.map (·.shown) = r'.iterationDuration.map (·.shown)

end MetricsResult

section

variable {a b : Aggregator hdr} {t : MetricKey → MetricType} {V : MetricKey → Multiset ℚ}

theorem map_metric_perm {M : Type*} [Zero M] {f : MetricSet hdr → M} (ha : Holds a.data t V)
    (hb : Holds b.data t V) (metric : String)
    (hf : ∀ {set set' : MetricSet hdr} {t vs}, set.Summarizes t vs → set'.Summarizes t vs →
      f set = f set') :
    (a.data.entries.map fun e => if e.1.metric = metric then f e.2 else 0).Perm
      (b.data.entries.map fun e => if e.1.metric = metric then f e.2 else 0) := by
  refine ha.map_perm hb (fun k set => if k.metric = metric then f set else 0)
    (fun k set => if k.metric = metric then f set else 0) ?_
  intro k set set' hset hset'
  rw [hf hset hset']

theorem sumOver_congr {M : Type} [AddCommMonoid M] {f : MetricSet hdr → M} (ha : Holds a.data t V)
    (hb : Holds b.data t V) (metric : String)
    (hf : ∀ {set set' : MetricSet hdr} {t vs}, set.Summarizes t vs → set'.Summarizes t vs →
      f set = f set') :
    a.sumOver metric f = b.sumOver metric f :=
  (map_metric_perm ha hb metric hf).sum_eq

theorem totals_buildResults_congr (ha : Holds a.data t V) (hb : Holds b.data t V)
    (htotal : ∀ metric, a.total metric = b.total metric)
    (hdropped : a.seriesDropped = b.seriesDropped)
    (hrequests : a.httpReqFailedRequests = b.httpReqFailedRequests)
    (hsum : a.httpReqFailedSum = b.httpReqFailedSum) (globals : Globals) (now now' : ℕ) :
    (a.buildResults globals now).totals = (b.buildResults globals now').totals := by
  have hcounts (metric : String) : a.sumOver metric (·.count) = b.sumOver metric (·.count) :=
    sumOver_congr ha hb metric fun h h' => h.count.trans h'.count.symm
  have hsums (metric : String) : a.sumOver metric (·.sum) = b.sumOver metric (·.sum) :=
    sumOver_congr ha hb metric fun h h' => h.sum.trans h'.sum.symm
  have hcasts (metric : String) : a.sumOver metric (asU64 ·.sum) = b.sumOver metric (asU64 ·.sum) :=
    sumOver_congr ha hb metric (f := fun set => asU64 set.sum) fun h h' => by rw [h.sum, h'.sum]
  have hfailed (metric : String) :
      a.sumOver metric Aggregator.failedChecks = b.sumOver metric Aggregator.failedChecks :=
    sumOver_congr ha hb metric fun h h' => by
      rw [Aggregator.failedChecks, Aggregator.failedChecks, h.count, h.sum, h'.count, h'.sum]
  have hvus := (map_metric_perm ha hb "vus" (f := Aggregator.observedVus) fun h h' => by
    rw [Aggregator.observedVus, Aggregator.observedVus, h.metricType, h.count, h.sum, h.max,
      h'.metricType, h'.count, h'.sum, h'.max]).foldl_eq (f := Max.max) 0
  simp only [MetricsResult.totals, MetricsResult.headlines, Aggregator.buildResults,
    hrequests, hsum, hcounts, hsums, hcasts, hfailed, htotal, hdropped, hvus]

end

theorem map_ordered_perm {κ σ τ : Type} (le : κ → κ → Prop) [DecidableRel le] (m : IndexMap κ σ)
    (g : κ × σ → τ) : ((Aggregator.ordered le m).map g).Perm (m.entries.map g) :=
  (perm_insertionSort _ _).map g

namespace Aggregator

variable {types : String → SampleType} {xs samples : List Sample} {a : Aggregator hdr}

theorem Absorbed.sameSeries (h : a.Absorbed types xs) (hperm : xs.Perm samples)
    (htypes : OneType types samples) (one : Aggregator hdr) (globals : Globals) (now now' : ℕ) :
    (a.rebuildMerged.buildResults globals now).SameSeries
      ((one.recorded samples).buildResults globals now') := by
  have hdata : Holds a.data (fun k => (types k.metric).metricType)
      (valuesAt (fun s => some s.key) samples) := by
    rw [← valuesAt_perm hperm]
    exact h.data
  have hdata' : Holds (one.recorded samples).data (fun k => (types k.metric).metricType)
      (valuesAt (fun s => some s.key) samples) := holds_dataOf htypes _
  have htotal : ∀ metric, a.total metric = (one.recorded samples).total metric := by
    intro metric
    rw [h.total metric]
    exact (((hperm.filter _).map _).sum_eq).trans (total_totalsOf samples metric).symm
  rw [rebuildMerged_eq]
  refine ⟨?_, ?_, ?_⟩
  · rw [buildResults, buildResults, List.map_map, List.map_map]
    exact hdata.map_perm hdata' (fun k set => (summary k.toKeyString k.tags set _).shown)
      (fun k set => (summary k.toKeyString k.tags set _).shown)
      fun k set set' hset hset' => shown_summary hset hset' _ _ _ _
  · rw [buildResults, buildResults, List.map_map, List.map_map]
    refine (map_ordered_perm _ _ _).trans (List.Perm.trans ?_ (map_ordered_perm _ _ _).symm)
    refine (holds_mergedBy_groupKey hdata a.histogramMaxMs).map_perm
      (holds_perGroupOf htypes one.histogramMaxMs)
      (fun k set => (summary (k.1 ++ "\x7bgroup=" ++ k.2 ++ "\x7d") [("group", k.2)] set _).shown)
      (fun k set =>
        (summary (k.1 ++ "\x7bgroup=" ++ k.2 ++ "\x7d") [("group", k.2)] set _).shown) ?_
    intro k set set' hset hset'
    exact shown_summary hset hset' _ _ _ _
  · have hrequests : (a.rebuilt a.data.entries).httpReqFailedRequests =
        (valuesOf "http_req_failed" samples).length :=
      sum_series hdata Multiset.cardHom (fun set t vs h => h.count) _
    have hsum : (a.rebuilt a.data.entries).httpReqFailedSum =
        (valuesOf "http_req_failed" samples).sum :=
      sum_series hdata Multiset.sumAddMonoidHom (fun set t vs h => h.sum) _
    exact totals_buildResults_congr
      (a := a.rebuilt a.data.entries) hdata hdata' htotal h.seriesDropped
      hrequests hsum globals now now'

end Aggregator

/-! ## Durations -/

section

variable {types : String → SampleType} {samples : List Sample}
  {data : IndexMap MetricKey (MetricSet hdr)}
  (hdata : Holds data (fun k => (types k.metric).metricType)
    (valuesAt (fun s => some s.key) samples))

include hdata

variable {metric : String}

theorem shown_headline (ht : types metric = .trend) (maxMs maxMs' : Option ℕ) (r r' : Bool) :
    ((mergedBy (MetricKey.headlineKey metric) (fun _ => .new .trend maxMs true) data.entries).get
      ()).map
        (fun set => (trendSummary metric [] set r).shown) =
      ((headlineOf metric maxMs' samples).get ()).map fun set =>
        (trendSummary metric [] set r').shown := by
  have htrend : ∀ k u, MetricKey.headlineKey metric k = some u → types k.metric = .trend := by
    intro k u hu
    rw [(Option.ite_none_right_eq_some.1 hu).1, ht]
  refine (holds_mergedBy_trend hdata htrend maxMs).map_get (holds_headlineOf metric maxMs' samples)
    (fun _ set => (trendSummary metric [] set r).shown)
    (fun _ set => (trendSummary metric [] set r').shown) ?_ ()
  intro _ set set' hset hset'
  exact shown_trendSummary hset hset' _ _ _ _

theorem shown_perUrl (ht : types "http_req_duration" = .trend) (maxMs maxMs' : Option ℕ)
    (g g' : String → MetricSet hdr → MetricSummary hdr) (hg : ∀ url set set' vs,
      set.Summarizes .trend vs → set'.Summarizes .trend vs →
        (g url set).shown = (g' url set').shown) :
    ((mergedBy MetricKey.durationUrl (fun _ => .new .trend maxMs true) data.entries).entries.map
        fun e => (g e.1 e.2).shown).Perm
      ((perUrlOf maxMs' samples).entries.map fun e => (g' e.1 e.2).shown) := by
  have htrend : ∀ k u, MetricKey.durationUrl k = some u → types k.metric = .trend := by
    intro k u hu
    rw [(Option.ite_none_right_eq_some.1 hu).1, ht]
  exact (holds_mergedBy_trend hdata htrend maxMs).map_perm (holds_perUrlOf maxMs' samples)
    (fun url set => (g url set).shown) (fun url set => (g' url set).shown)
    fun url set set' => hg url set set' _

theorem histogram_headline (ht : types metric ≠ .trend) (maxMs : Option ℕ)
    {set : MetricSet hdr} (hset : (mergedBy (MetricKey.headlineKey metric)
      (fun _ => .new .trend maxMs true) data.entries).get () = some set) :
        set.histogram = none := by
  refine forall_collectAll (P := fun _ set => set.histogram = none) ?_ () set hset
  intro e he k hk
  refine ⟨rfl, fun set hset => ?_⟩
  -- The series is not a trend, so it has no histogram to be merged.
  have hnone : e.2.histogram = none := by
    have hseries := (hdata.some e.1 e.2 (get_eq_some_iff.2 he)).2.histogram
    rw [(Option.ite_none_right_eq_some.1 hk).1, if_neg] at hseries
    · exact Option.map_eq_none_iff.1 hseries
    · rintro ⟨htype, -⟩
      exact ht (SampleType.eq_trend_of_metricType_eq htype)
  rw [MetricSet.mergeFrom, hnone]
  split <;> exact hset

theorem shown_headline_ne (ht : types metric ≠ .trend) {s : Sample}
    (hs : s ∈ samples) (hmetric : s.metric = metric) (maxMs maxMs' : Option ℕ) (r r' : Bool) :
    ((mergedBy (MetricKey.headlineKey metric) (fun _ => .new .trend maxMs true) data.entries).get
      ()).map
        (fun set => (trendSummary metric [] set r).shown) ≠
      ((headlineOf metric maxMs' samples).get ()).map fun set =>
        (trendSummary metric [] set r').shown := by
  intro heq
  have hheadline : Holds (headlineOf metric maxMs' samples : IndexMap Unit (MetricSet hdr)) _ _ :=
    holds_headlineOf metric maxMs' samples
  have hne : valuesAt (Sample.headlineKey metric) samples () ≠ 0 :=
    valuesAt_ne_zero hs (if_pos hmetric)
  obtain ⟨set', hset'⟩ : ∃ set',
      (headlineOf metric maxMs' samples : IndexMap Unit (MetricSet hdr)).get () =
      some set' := Option.ne_none_iff_exists'.1 fun h => hne (hheadline.none () h)
  rw [hset', Option.map_some, Option.map_eq_some_iff] at heq
  obtain ⟨set, hset, hshown⟩ := heq
  have hzero : set.trendStats.p50 = 0 := by
    rw [MetricSet.trendStats, histogram_headline hdata ht maxMs hset]
    rfl
  have hpos := (hheadline.some () set' hset').2.p50_pos hne
  have hp50 : set.trendStats.p50 = set'.trendStats.p50 := congrArg MetricSummary.p50 hshown
  exact absurd (hp50 ▸ hzero) hpos.ne'

end

def typesOf (samples : List Sample) (metric : String) : SampleType :=
  ((samples.find? (·.metric = metric)).map Sample.sampleType).getD .trend

theorem oneType_typesOf
    (h : ∀ s ∈ samples, ∀ s' ∈ samples, s.metric = s'.metric → s.sampleType = s'.sampleType) :
    OneType (typesOf samples) samples := by
  intro s hs
  obtain ⟨s', hs'⟩ := Option.isSome_iff_exists.1
    (find?_isSome (p := fun s' => decide (s'.metric = s.metric)).2 ⟨s, hs, decide_eq_true rfl⟩)
  rw [typesOf, hs', Option.map_some, Option.getD_some]
  refine h s hs s' (mem_of_find?_eq_some hs') ?_
  simpa [eq_comm] using find?_some hs'

theorem typesOf_eq_trend {metric : String}
    (h : ∀ s ∈ samples, s.metric = metric → s.sampleType = .trend) :
    typesOf samples metric = .trend := by
  rw [typesOf]
  cases hfind : samples.find? (·.metric = metric) with
  | none => rfl
  | some s =>
    refine h s (mem_of_find?_eq_some hfind) ?_
    simpa using find?_some hfind

def IsHeadline (metric : String) : Prop :=
  metric = "http_req_duration" ∨ metric = "iteration_duration"

instance (metric : String) : Decidable (IsHeadline metric) := inferInstanceAs (Decidable (_ ∨ _))

/-- The controller agrees with one node that has recorded all samples, but for the durations,
    whatever the agents have got of them and in whatever order their snapshots come; in the
    durations as well exactly if these are trends. -/
theorem mergeSnapshots_agrees_iff (wire : Wire hdr) (agents : List (Agent hdr))
    (samples : List Sample) (hsplit : (agents.flatMap (·.share)).Perm samples)
    (htypes : ∀ s ∈ samples, ∀ s' ∈ samples, s.metric = s'.metric → s.sampleType = s'.sampleType)
    (hroom : seriesCount samples ≤ maxSeries) (one : Aggregator hdr) (hfresh : one.Fresh)
    (hroom' : seriesCount samples ≤ one.maxSeries) (globals : Globals)
    (thresholds : IndexMap String ThresholdConfig) (testStart mergeStart now now' : ℕ) :
    ∃ r, mergeSnapshots wire globals
      (agents.map (·.snapshot wire)) thresholds testStart mergeStart now =
        .ok r ∧
      r.SameSeries ((one.recordAll samples).buildResults globals now') ∧
      (r.Agrees ((one.recordAll samples).buildResults globals now') ↔
        ∀ s ∈ samples, IsHeadline s.metric → s.sampleType = .trend) := by
  have htypes := oneType_typesOf htypes
  obtain ⟨a, hfold, habsorbed⟩ :=
    (Aggregator.absorbed_controller (typesOf samples) mergeStart thresholds
    (agents.map (·.snapshot wire))).foldlM wire agents
      (fun s hs => hsplit.mem_iff.1 hs) htypes hroom
  rw [nil_append] at habsorbed
  have hdata : Holds a.data (fun k => (typesOf samples k.metric).metricType)
      (valuesAt (fun s => some s.key) samples) := by
    rw [← valuesAt_perm hsplit]
    exact habsorbed.data
  have hsame := habsorbed.sameSeries hsplit htypes one globals now now'
  rw [Aggregator.recordAll_eq hfresh hroom']
  refine ⟨{ a.rebuildMerged.buildResults globals now with runDuration := now - testStart }, ?_,
    ?_, ?_⟩
  · rw [mergeSnapshots, hfold]
    rfl
  · exact ⟨hsame.metrics, hsame.perGroup, hsame.totals⟩
  rw [Aggregator.rebuildMerged_eq] at hsame ⊢
  constructor
  · rintro ⟨-, -, hhttp, hiter⟩ s hs hheadline
    by_contra hne
    rw [htypes s hs] at hne
    rw [Aggregator.buildResults, Aggregator.buildResults] at hhttp hiter
    rw [Option.map_map, Option.map_map] at hhttp hiter
    rcases hheadline with hmetric | hmetric <;> rw [hmetric] at hne
    · exact shown_headline_ne hdata hne hs hmetric _ _ _ _ hhttp
    · exact shown_headline_ne hdata hne hs hmetric _ _ _ _ hiter
  · intro htrend
    have hhttp : typesOf samples "http_req_duration" = .trend :=
      typesOf_eq_trend fun s hs h => htrend s hs (.inl h)
    have hiter : typesOf samples "iteration_duration" = .trend :=
      typesOf_eq_trend fun s hs h => htrend s hs (.inr h)
    refine ⟨⟨hsame.metrics, hsame.perGroup, hsame.totals⟩, ?_, ?_, ?_⟩
    · rw [Aggregator.buildResults, Aggregator.buildResults, List.map_map, List.map_map]
      refine (map_ordered_perm _ _ _).trans (List.Perm.trans ?_ (map_ordered_perm _ _ _).symm)
      exact shown_perUrl hdata hhttp a.histogramMaxMs one.histogramMaxMs
        (fun url set => trendSummary ("http_req_duration\x7burl=" ++ url ++ "\x7d")
          [("url", url)] set _)
        (fun url set => trendSummary ("http_req_duration\x7burl=" ++ url ++ "\x7d")
          [("url", url)] set _)
        fun _ _ _ _ hset hset' => shown_trendSummary hset hset' _ _ _ _
    · rw [Aggregator.buildResults, Aggregator.buildResults, Option.map_map, Option.map_map]
      exact shown_headline hdata hhttp _ _ _ _
    · rw [Aggregator.buildResults, Aggregator.buildResults, Option.map_map, Option.map_map]
      exact shown_headline hdata hiter _ _ _ _

def durationSample (value : ℚ) (sampleType : SampleType) : Sample where
  metric := "http_req_duration"
  tags := .ofPairs [("url", "/")]
  value
  sampleType

def Agent.single (s : Sample) : Agent Hdr.exact where
  aggregator := .new 0
  share := [s]
  fresh := Aggregator.fresh_new 0
  room := show 1 ≤ 100000 by decide

theorem mergeSnapshots_two_trends : ∃ r, mergeSnapshots (Wire.tallied Hdr.exact) ⟨0, 0⟩
        ([Agent.single (durationSample 250 .trend), Agent.single (durationSample 750 .trend)].map
          (·.snapshot (Wire.tallied Hdr.exact))) ∅ 0 0 0 = .ok r ∧
      r.Agrees (((Aggregator.new 0).recordAll
        [durationSample 250 .trend, durationSample 750 .trend]).buildResults ⟨0, 0⟩ 0) := by
  obtain ⟨r, hr, -, hagrees⟩ := mergeSnapshots_agrees_iff (Wire.tallied Hdr.exact)
    [Agent.single (durationSample 250 .trend), Agent.single (durationSample 750 .trend)]
    [durationSample 250 .trend, durationSample 750 .trend] (List.Perm.refl _) (by decide)
    (by decide) (.new 0) (Aggregator.fresh_new 0) (by decide) ⟨0, 0⟩ ∅ 0 0 0 0
  exact ⟨r, hr, hagrees.2 (by decide)⟩

theorem mergeSnapshots_point : ((mergeSnapshots (Wire.tallied Hdr.exact) ⟨0, 0⟩
        [(Agent.single (durationSample 250 .point)).snapshot (Wire.tallied Hdr.exact)] ∅ 0 0
          0).toOption.bind
          (·.httpReqDuration)).map (fun m => (m.count, m.max, m.p95)) = some (1, 250, 0) ∧
      (((Aggregator.new 0 : Aggregator Hdr.exact).recordAll
        [durationSample 250 .point]).buildResults ⟨0, 0⟩ 0).httpReqDuration.map
          (fun m => (m.count, m.max, m.p95)) = some (1, 250, 250) := by
  decide +kernel

end Tropel
