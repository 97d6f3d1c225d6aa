import Tropel.Metrics.Recording
import Tropel.Metrics.Values

/-!
# Distributed runs

The agents record some of the samples each and ship snapshots, from which the controller builds the
results.
-/

namespace Tropel

open Lib List IndexMap

variable {hdr : Hdr}

theorem insertTag_of_forall_lt {k v : String} {l : List (String × String)}
    (h : ∀ e ∈ l, e.1 < k) : insertTag k v l = l ++ [(k, v)] := by
  induction l with
  | nil => rfl
  | cons e l ih =>
    have he := h e mem_cons_self
    rw [insertTag, if_neg he.not_gt, if_neg he.ne, ih fun d hd => h d (mem_cons_of_mem _ hd),
      cons_append]

theorem entries_foldl_insert (l : List (String × String)) (t : TagMap)
    (h : (t.entries ++ l).Pairwise fun d e => d.1 < e.1) :
    (l.foldl (fun t p => t.insert p.1 p.2) t).entries = t.entries ++ l := by
  induction l generalizing t with
  | nil => exact (append_nil _).symm
  | cons p l ih =>
    have hins : (t.insert p.1 p.2).entries = t.entries ++ [p] :=
      insertTag_of_forall_lt fun e he => (pairwise_append.1 h).2.2 e he p mem_cons_self
    rw [foldl_cons, ih _ (by rwa [hins, append_assoc]), hins, append_assoc]
    rfl

theorem TagMap.ofPairs_entries (t : TagMap) : TagMap.ofPairs t.entries = t := by
  have h := entries_foldl_insert t.entries ⟨[], List.Pairwise.nil⟩ t.sorted
  rw [ofPairs, TagMap.mk.injEq]
  exact h

/-! ## The values of a list of samples -/

def valuesAt {κ : Type*} [DecidableEq κ] (key : Sample → Option κ) (xs : List Sample)
    (k : κ) : Multiset ℚ :=
  ((xs.filter fun s => key s = some k).map fun s => ({s.value} : Multiset ℚ)).sum

section

variable {κ : Type*} [DecidableEq κ] {key : Sample → Option κ}

theorem valuesAt_perm {xs ys : List Sample} (h : xs.Perm ys) :
    valuesAt key xs = valuesAt key ys := by
  funext k
  exact ((h.filter _).map _).sum_eq

theorem valuesAt_append (xs ys : List Sample) (k : κ) :
    valuesAt key (xs ++ ys) k = valuesAt key xs k + valuesAt key ys k := by
  rw [valuesAt, valuesAt, valuesAt, filter_append, map_append, sum_append]

theorem valuesAt_cons (s : Sample) (xs : List Sample) (k : κ) :
    valuesAt key (s :: xs) k = (if key s = some k then {s.value} else 0) + valuesAt key xs k := by
  rw [valuesAt, valuesAt, filter_cons]
  by_cases h : key s = some k <;> simp [h]

theorem exists_key_of_valuesAt_ne_zero {xs : List Sample} {k : κ} (h : valuesAt key xs k ≠ 0) :
    ∃ s ∈ xs, key s = some k := by
  by_contra! hno
  refine h ?_
  rw [valuesAt, filter_eq_nil_iff.2 fun s hs => by simpa using hno s hs, map_nil,
    sum_nil]

theorem valuesAt_ne_zero {xs : List Sample} {s : Sample} {k : κ} (hs : s ∈ xs)
    (hk : key s = some k) :
    valuesAt key xs k ≠ 0 := by
  obtain ⟨l₁, l₂, rfl⟩ := append_of_mem hs
  rw [valuesAt_append, valuesAt_cons, if_pos hk]
  refine MetricSet.add_ne_zero_right fun h => ?_
  have := congrArg Multiset.card h
  simp at this

end

def OneType (types : String → SampleType) (xs : List Sample) : Prop :=
  ∀ s ∈ xs, s.sampleType = types s.metric

theorem holds_record {κ : Type*} [DecidableEq κ] {key : Sample → Option κ}
    {init : Sample → MetricSet hdr} {t : κ → MetricType} {xs : List Sample}
    (hinit : ∀ s ∈ xs, ∀ k, key s = some k → (init s).Summarizes (t k) 0) :
    Holds (IndexMap.collectAll key init Sample.recordInto xs) t (valuesAt key xs) := by
  refine holds_collectAll (fun s => ({s.value} : Multiset ℚ)) fun s hs k hk =>
    ⟨?_, hinit s hs k hk, ?_⟩
  · exact Multiset.singleton_ne_zero _
  · intro set vs hset
    rw [add_comm, Multiset.singleton_add]
    exact hset.record s.value

section

variable {types : String → SampleType} {xs : List Sample} (htypes : OneType types xs)
  (maxMs : Option ℕ)

include htypes

theorem holds_dataOf : Holds (dataOf maxMs xs : IndexMap MetricKey (MetricSet hdr))
    (fun k => (types k.metric).metricType) (valuesAt (fun s => some s.key) xs) := by
  refine holds_record fun s hs k hk => ?_
  rw [← Option.some.inj hk, ← show s.sampleType = types s.key.metric from htypes s hs]
  exact MetricSet.summarizes_new _ _

theorem holds_perGroupOf : Holds (perGroupOf maxMs xs : IndexMap (String × String) (MetricSet hdr))
    (fun k => (types k.1).metricType) (valuesAt Sample.groupKey xs) := by
  refine holds_record fun s hs k hk => ?_
  obtain ⟨g, _, rfl⟩ := Option.map_eq_some_iff.1 hk
  rw [← show s.sampleType = types s.metric from htypes s hs]
  exact MetricSet.summarizes_new _ _

end

theorem holds_perUrlOf (maxMs : Option ℕ) (xs : List Sample) :
    Holds (perUrlOf maxMs xs : IndexMap String (MetricSet hdr)) (fun _ => .trend)
      (valuesAt Sample.durationUrl xs) :=
  holds_record fun _ _ _ _ => MetricSet.summarizes_new _ _

theorem holds_headlineOf (metric : String) (maxMs : Option ℕ) (xs : List Sample) :
    Holds (headlineOf metric maxMs xs : IndexMap Unit (MetricSet hdr)) (fun _ => .trend)
      (valuesAt (Sample.headlineKey metric) xs) :=
  holds_record fun _ _ _ _ => MetricSet.summarizes_new _ _

theorem total_totalsOf (xs : List Sample) (metric : String) :
    ((totalsOf xs).get metric).getD 0 = (valuesOf metric xs).sum := by
  induction xs using List.reverseRecOn with
  | nil => rfl
  | append_singleton xs s ih =>
    rw [totalsOf, collectAll_append_singleton, get_collect, ← totalsOf,
      valuesOf_append_singleton, sum_append, ← ih]
    by_cases h : s.metric = metric
    · simp [h, accumulate]
    · simp [h]

/-! ## Absorbing snapshots -/

/-- An agent of a run: an aggregator that has not seen a sample, and the samples it is
    going to record, whose series it has room for. -/
structure Agent (hdr : Hdr) where
  aggregator : Aggregator hdr
  share : List Sample
  fresh : aggregator.Fresh
  room : seriesCount share ≤ aggregator.maxSeries

variable (wire : Wire hdr)

def Agent.snapshot (g : Agent hdr) : MetricsSnapshot :=
  (g.aggregator.recordAll g.share).buildSnapshot wire

theorem Agent.snapshot_eq (g : Agent hdr) :
    g.snapshot wire = (g.aggregator.recorded g.share).buildSnapshot wire := by
  rw [snapshot, Aggregator.recordAll_eq g.fresh g.room]

def MetricKey.Proper (k : MetricKey) : Prop := ∃ tags : TagMap, k.tags = tags.entries

theorem MetricKey.Proper.new_ofPairs {k : MetricKey} (h : k.Proper) :
    MetricKey.new k.metric (.ofPairs k.tags) = k := by
  obtain ⟨tags, htags⟩ := h
  rw [htags, TagMap.ofPairs_entries, MetricKey.new, ← htags]

namespace Aggregator

variable {a : Aggregator hdr} {t : MetricKey → MetricType} {V W : MetricKey → Multiset ℚ}
  {keys : List MetricKey}

theorem absorbSeries_eq (hdata : Holds a.data t V)
    (hkeys : ∀ k, V k ≠ 0 → k ∈ keys) (hroom : keys.dedup.length ≤ a.maxSeries) {k : MetricKey}
    (hk : k ∈ keys) (hproper : k.Proper) {set : MetricSet hdr} {vs : Multiset ℚ}
    (hset : set.Summarizes (t k) vs) :
    ∃ set', absorbSeries wire a (seriesSnapshot wire k set) =
        .ok { a with data := a.data.insert k set' } ∧ set'.Summarizes (t k) (V k + vs) := by
  obtain ⟨hist, hdecode, hvalues⟩ := set.exists_decodeHistogram wire k
  rw [hset.filter_histogram] at hvalues
  have hkey : MetricKey.new (seriesSnapshot wire k set).metric
      (.ofPairs (seriesSnapshot wire k set).tags) = k := hproper.new_ofPairs
  cases hget : a.data.get k with
  | some existing =>
    refine ⟨existing.absorb (seriesSnapshot wire k set) hist, ?_,
      (hdata.some k existing hget).2.absorb hset wire k hvalues⟩
    simp only [absorbSeries, hkey, hdecode, hget]
    rfl
  | none =>
    have hlt : ¬ a.maxSeries ≤ a.data.length := by
      refine Nat.not_le.2 (lt_of_lt_of_le (length_lt_of_get_eq_none ?_ hk hget) hroom)
      intro j hj
      obtain ⟨set, hset⟩ := Option.isSome_iff_exists.1 hj
      exact hkeys j (hdata.some j set hset).1
    refine ⟨.ofSeries (seriesSnapshot wire k set) hist a.histogramMaxMs, ?_, ?_⟩
    · simp only [absorbSeries, hkey, hdecode, hget]
      change (if _ then _ else _) = _
      rw [if_neg hlt]
      rfl
    · rw [hdata.none k hget, zero_add]
      exact hset.ofSeries wire k hvalues a.histogramMaxMs

theorem foldlM_absorbSeries (hkeys : ∀ k, V k ≠ 0 → k ∈ keys)
    (hroom : keys.dedup.length ≤ a.maxSeries) (hdata : Holds a.data t V)
    (es : List (MetricKey × MetricSet hdr)) (hes : ∀ e ∈ es, e.1 ∈ keys ∧ e.1.Proper ∧
      W e.1 ≠ 0 ∧ e.2.Summarizes (t e.1) (W e.1)) :
    ∃ data, (es.map fun e => seriesSnapshot wire e.1 e.2).foldlM (absorbSeries wire) a =
        .ok { a with data } ∧
      Holds data t fun k => V k + ((es.filter fun e => e.1 = k).map fun e => W e.1).sum := by
  induction es generalizing a V with
  | nil => exact ⟨a.data, rfl, by simpa using hdata⟩
  | cons e es ih =>
    obtain ⟨hk, hproper, hne, hset⟩ := hes e mem_cons_self
    obtain ⟨set', habsorb, hset'⟩ := absorbSeries_eq wire hdata hkeys hroom hk hproper hset
    have hins := hdata.insert (MetricSet.add_ne_zero_right hne) hset'
    have hkeys' : ∀ k, Function.update V e.1 (V e.1 + W e.1) k ≠ 0 → k ∈ keys := by
      intro k hV
      by_cases hke : k = e.1
      · exact hke ▸ hk
      · rw [Function.update_of_ne hke] at hV
        exact hkeys k hV
    obtain ⟨data, hfold, hholds⟩ := ih (a := { a with data := a.data.insert e.1 set' }) hkeys' hroom
      hins fun d hd => hes d (mem_cons_of_mem _ hd)
    refine ⟨data, ?_, ?_⟩
    · rw [map_cons, foldlM_cons, habsorb]
      exact hfold
    · convert hholds using 2 with k
      by_cases hke : k = e.1
      · simp [hke, add_assoc]
      · simp [hke, Ne.symm hke]

structure Absorbed (types : String → SampleType) (xs : List Sample) (a : Aggregator hdr) :
    Prop where
  data : Holds a.data (fun k => (types k.metric).metricType) (valuesAt (fun s => some s.key) xs)
  total : ∀ metric, a.total metric = (valuesOf metric xs).sum
  seriesDropped : a.seriesDropped = 0
  maxSeries : a.maxSeries = Tropel.maxSeries

variable {types : String → SampleType} {samples xs : List Sample}

theorem Absorbed.absorbSnapshot (h : a.Absorbed types xs) (wire : Wire hdr) (g : Agent hdr)
    (hsub : ∀ s ∈ xs ++ g.share, s ∈ samples) (htypes : OneType types samples)
    (hroom : seriesCount samples ≤ Tropel.maxSeries) :
    ∃ a', absorbSnapshot wire a (g.snapshot wire) = .ok a' ∧ a'.Absorbed types (xs ++ g.share) := by
  have hagent :
      Holds (dataOf g.aggregator.histogramMaxMs g.share : IndexMap MetricKey (MetricSet hdr))
      (fun k => (types k.metric).metricType) (valuesAt (fun s => some s.key) g.share) :=
    holds_dataOf (fun s hs => htypes s (hsub s (mem_append_right _ hs))) _
  have hkeys : ∀ k, valuesAt (fun s => some s.key) xs k ≠ 0 → k ∈ samples.map Sample.key := by
    intro k hk
    obtain ⟨s, hs, hkey⟩ := exists_key_of_valuesAt_ne_zero hk
    exact Option.some.inj hkey ▸ mem_map_of_mem (hsub s (mem_append_left _ hs))
  obtain ⟨data, hfold, hdata⟩ := foldlM_absorbSeries wire hkeys (h.maxSeries ▸ hroom) h.data
    (W := valuesAt (fun s => some s.key) g.share)
    (dataOf g.aggregator.histogramMaxMs g.share).entries fun e he => by
      obtain ⟨hne, hset⟩ := hagent.some e.1 e.2 (get_eq_some_iff.2 he)
      obtain ⟨s, hs, hkey⟩ := exists_key_of_valuesAt_ne_zero hne
      rw [← Option.some.inj hkey] at hne hset ⊢
      exact ⟨mem_map_of_mem (hsub s (mem_append_right _ hs)), ⟨s.tags, rfl⟩, hne, hset⟩
  rw [Agent.snapshot_eq]
  obtain ⟨a', ha', hdata', hdropped, hmax, htotal⟩ := exists_absorbSnapshot
    ((g.aggregator.recorded g.share).buildSnapshot wire) hfold
  refine ⟨a', ha', ?_, fun metric => ?_, hdropped.trans h.seriesDropped, hmax.trans h.maxSeries⟩
  · rw [hdata']
    convert hdata using 2 with k
    rw [valuesAt_append, sum_filter_entries _ fun k _ => valuesAt (fun s => some s.key) g.share k]
    cases hget :
      (dataOf g.aggregator.histogramMaxMs g.share : IndexMap MetricKey (MetricSet hdr)).get k with
    | none => rw [hagent.none k hget, Option.elim_none]
    | some set => rw [Option.elim_some]
  · rw [htotal, valuesOf_append, sum_append, ← h.total, ← total_totalsOf g.share]
    rfl

theorem Absorbed.foldlM (h : a.Absorbed types xs) (wire : Wire hdr) (agents : List (Agent hdr))
    (hsub : ∀ s ∈ xs ++ agents.flatMap (·.share), s ∈ samples) (htypes : OneType types samples)
    (hroom : seriesCount samples ≤ Tropel.maxSeries) :
    ∃ a', (agents.map (·.snapshot wire)).foldlM (Aggregator.absorbSnapshot wire) a = .ok a' ∧
      a'.Absorbed types (xs ++ agents.flatMap (·.share)) := by
  induction agents generalizing a xs with
  | nil => exact ⟨a, rfl, by simpa using h⟩
  | cons g agents ih =>
    rw [flatMap_cons, ← append_assoc] at hsub ⊢
    obtain ⟨a₁, h₁, habsorbed⟩ := h.absorbSnapshot wire g
      (fun s hs => hsub s (mem_append_left _ hs)) htypes hroom
    obtain ⟨a', h', habsorbed'⟩ := ih habsorbed hsub
    refine ⟨a', ?_, habsorbed'⟩
    rw [map_cons, foldlM_cons, h₁]
    exact h'

theorem absorbed_controller (types : String → SampleType) (mergeStart : ℕ)
    (thresholds : IndexMap String ThresholdConfig) (snapshots : List MetricsSnapshot) :
    (controller mergeStart thresholds snapshots : Aggregator hdr).Absorbed types [] where
  data := holds_empty
  total _ := rfl
  seriesDropped := rfl
  maxSeries := rfl

end Aggregator

end Tropel
