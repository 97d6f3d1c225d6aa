import Tropel.Report.RemoteWrite

/-!
# Totals for Prometheus

Samples are aggregated by series (`buffer`).

* `flushBuffered`: the series that are sent;
* `flush_totals`: these have the totals of the run.
-/

namespace Tropel

open Lib List Option IndexMap Prod

structure PrometheusRemoteWriteOutput where
  tagPolicy : TagPolicy
  maxCumulative : ℕ

structure SeriesOrder where
  order : List (SeriesKey × SeriesAgg) → List (SeriesKey × SeriesAgg)
  perm : ∀ es, (order es).Perm es

structure RemoteWriteState where
  series : IndexMap SeriesKey SeriesAgg
  cumulative : IndexMap SeriesKey ℚ
  totalBuffered : ℕ

inductive RemoteWriteEvent
  | sample (s : Sample)
  | flush (order : SeriesOrder) (tsMs : Int64) (posted : Bool)

namespace PrometheusRemoteWriteOutput

variable (o : PrometheusRemoteWriteOutput)

def seriesKey (s : Sample) : SeriesKey := .fromParts s.metric (o.tagPolicy.apply s.tags)

variable (st : RemoteWriteState)

def buffer (s : Sample) : RemoteWriteState :=
  let key := o.seriesKey s
  match st.series.get key with
  | some agg =>
    { st with series := st.series.insert key ⟨agg.sampleType, agg.count + 1, agg.sum + s.value,
      s.value⟩ }
  | none =>
    { st with
      series := st.series.insert key ⟨s.sampleType, 1, s.value, s.value⟩
      totalBuffered := st.totalBuffered + 1 }

def expandAll (tsMs : Int64) (es : List (SeriesKey × SeriesAgg))
    (cumulative : IndexMap SeriesKey ℚ) :
    List (SeriesKey × List (ℚ × Int64)) × IndexMap SeriesKey ℚ :=
  es.foldl (fun acc e =>
    let r := expandSeries e.1 e.2 tsMs acc.2 o.maxCumulative
    (acc.1 ++ r.1, r.2)) ([], cumulative)

def flushBuffered (order : SeriesOrder) (tsMs : Int64) (posted : Bool) (st : RemoteWriteState) :
    Option (IndexMap SeriesKey (List (ℚ × Int64))) × Bool × RemoteWriteState :=
  if st.series.entries.isEmpty then (none, true, ⟨∅, st.cumulative, 0⟩)
  else
    let (expanded, cumulative) := o.expandAll tsMs (order.order st.series.entries) st.cumulative
    (some (expanded.foldl (fun m e => m.insert e.1 e.2) ∅), posted, ⟨∅, cumulative, 0⟩)

def step : RemoteWriteEvent → RemoteWriteState
  | .sample s => o.buffer st s
  | .flush order tsMs posted => (o.flushBuffered order tsMs posted st).2.2

variable (events : List RemoteWriteEvent)

def after : RemoteWriteState := events.foldl o.step ⟨∅, ∅, 0⟩

/-! ## What is to be sent -/

def record (h : List Sample × List Sample) : RemoteWriteEvent → List Sample × List Sample
  | .sample s => (h.1, h.2 ++ [s])
  | .flush _ _ _ => (h.1 ++ h.2, [])

def seen : List Sample × List Sample := events.foldl record ([], [])

def samples : List Sample := (seen events).1 ++ (seen events).2

variable (key : SeriesKey)

def valuesOf (xs : List Sample) : List ℚ :=
  (xs.filter fun s => o.seriesKey s = key).map Sample.value

def outputValues (values : List ℚ) : SampleType → List ℚ
  | .counter | .rate => [values.sum]
  | .point => [values.getLastD 0]
  | .trend => [values.length, values.sum]

def totalKeys : SampleType → List SeriesKey
  | .point => []
  | t => outputKeys key t

/-- Each series has one type, distinct series are sent as distinct series, and there is
    room for their totals. -/
structure Separate (xs : List Sample) : Prop where
  oneType : ∀ s ∈ xs, ∀ s' ∈ xs, o.seriesKey s = o.seriesKey s' → s.sampleType = s'.sampleType
  disjoint : ∀ s ∈ xs, ∀ s' ∈ xs, o.seriesKey s ≠ o.seriesKey s' →
    ∀ k ∈ outputKeys (o.seriesKey s) s.sampleType, k ∉ outputKeys (o.seriesKey s') s'.sampleType
  room : (xs.flatMap fun s => totalKeys (o.seriesKey s) s.sampleType).dedup.length ≤ o.maxCumulative

/-! ## Expansion -/

def additions (e : SeriesKey × SeriesAgg) : List (SeriesKey × ℚ) :=
  match e.2.sampleType with
  | .counter | .rate => [(e.1, e.2.sum)]
  | .point => []
  | .trend => [(e.1.suffixed "_count", e.2.count), (e.1.suffixed "_sum", e.2.sum)]

variable (cumulative : IndexMap SeriesKey ℚ)

def addAll (es : List (SeriesKey × ℚ)) : IndexMap SeriesKey ℚ :=
  es.foldl (fun m e => m.upsert e.1 0 (· + e.2)) cumulative

def sends (tsMs : Int64) (e : SeriesKey × SeriesAgg) : List (SeriesKey × List (ℚ × Int64)) :=
  match e.2.sampleType with
  | .point => [(e.1, [(e.2.last, tsMs)])]
  | t => (outputKeys e.1 t).map fun k => (k, [((cumulative.get k).getD 0, tsMs)])

variable {o} {xs window sent : List Sample} {s : Sample} {es : List (SeriesKey × SeriesAgg)}
  {e : SeriesKey × SeriesAgg} {c c' : IndexMap SeriesKey ℚ} {k : SeriesKey} {tsMs : Int64}

theorem suffixed_ne : key.suffixed "_count" ≠ key.suffixed "_sum" := by
  intro h
  have hmetric : key.metric ++ "_count" = key.metric ++ "_sum" := congrArg SeriesKey.metric h
  exact absurd ((String.append_right_inj _).1 hmetric) (by decide)

theorem nodup_outputKeys (t : SampleType) : (outputKeys key t).Nodup := by
  cases t <;> simp [outputKeys, suffixed_ne]

theorem map_fst_additions (e : SeriesKey × SeriesAgg) :
    (additions e).map Prod.fst = totalKeys e.1 e.2.sampleType := by
  rw [additions]
  cases e.2.sampleType <;> rfl

theorem totalKeys_subset (t : SampleType) : totalKeys key t ⊆ outputKeys key t := by
  cases t <;> simp [totalKeys]

theorem map_fst_sends (tsMs : Int64) (e : SeriesKey × SeriesAgg) :
    (sends cumulative tsMs e).map Prod.fst = outputKeys e.1 e.2.sampleType := by
  rw [sends]
  cases e.2.sampleType <;> rfl

theorem sends_congr (h : ∀ k ∈ totalKeys e.1 e.2.sampleType, (c.get k).getD 0 = (c'.get k).getD 0) :
    sends c tsMs e = sends c' tsMs e := by
  rw [sends, sends]
  cases ht : e.2.sampleType with
  | point => rfl
  | counter | rate | trend =>
    rw [ht] at h
    exact map_congr_left fun k hk => by rw [h k hk]

theorem getD_addAll_of_not_mem {es : List (SeriesKey × ℚ)} (h : k ∉ es.map Prod.fst) :
    ((addAll c es).get k).getD 0 = (c.get k).getD 0 := by
  rw [addAll, getD_foldl_upsert, filter_eq_nil_iff.2, map_nil, sum_nil, add_zero]
  exact fun e he heq => h (mem_map.2 ⟨e, he, of_decide_eq_true heq⟩)

theorem isSome_get_addAll {es : List (SeriesKey × ℚ)} (h : ((addAll c es).get k).isSome) :
    (c.get k).isSome ∨ k ∈ es.map Prod.fst := by
  induction es generalizing c with
  | nil => exact .inl h
  | cons e es ih =>
    rw [map_cons, mem_cons]
    rcases ih h with h | h
    · rw [get_upsert] at h
      split at h
      next hk => exact .inr (.inl hk)
      next => exact .inl h
    · exact .inr (.inr h)

theorem expandSeries_eq {key : SeriesKey} {agg : SeriesAgg} {cap : ℕ}
    (hroom : ∀ k ∈ totalKeys key agg.sampleType, c.get k = none → c.length < cap) :
    expandSeries key agg tsMs c cap =
      (sends (addAll c (additions (key, agg))) tsMs (key, agg),
        addAll c (additions (key, agg))) := by
  rw [expandSeries, sends, additions]
  cases ht : agg.sampleType with
  | point => rfl
  | counter | rate =>
    rw [ht] at hroom
    have hfull : ¬ (c.length ≥ cap ∧ (c.get key).isNone) := fun h =>
      (hroom key mem_cons_self (isNone_iff_eq_none.1 h.2)).not_ge h.1
    rw [if_neg hfull]
    rfl
  | trend =>
    rw [ht] at hroom
    have hfull : ¬ (c.length ≥ cap ∧
        ((c.get (key.suffixed "_count")).isNone ∨ (c.get (key.suffixed "_sum")).isNone)) := by
      simp only [isNone_iff_eq_none]
      rintro ⟨hle, hnone | hnone⟩
      · exact (hroom _ mem_cons_self hnone).not_ge hle
      · exact (hroom _ (mem_cons_of_mem _ mem_cons_self) hnone).not_ge hle
    rw [if_neg hfull]
    -- The sum leaves the count alone.
    simp only [outputKeys, addAll, foldl_cons, foldl_nil, map_cons, map_nil, get_upsert,
      if_true, if_neg (suffixed_ne key)]

theorem expandAll_eq {keys : List SeriesKey} (hkeys : keys.dedup.length ≤ o.maxCumulative)
    (hc : ∀ k, (c.get k).isSome → k ∈ keys) (hes : ∀ e ∈ es, totalKeys e.1 e.2.sampleType ⊆ keys)
    (hdisj : es.Pairwise fun e e' =>
      (totalKeys e.1 e.2.sampleType).Disjoint (totalKeys e'.1 e'.2.sampleType)) :
    o.expandAll tsMs es c =
      (es.flatMap (sends (addAll c (es.flatMap additions)) tsMs),
        addAll c (es.flatMap additions)) := by
  suffices hacc : ∀ acc, es.foldl (fun acc e =>
      let r := expandSeries e.1 e.2 tsMs acc.2 o.maxCumulative
      (acc.1 ++ r.1, r.2)) (acc, c) =
      (acc ++ es.flatMap (sends (addAll c (es.flatMap additions)) tsMs),
        addAll c (es.flatMap additions)) from hacc []
  induction es generalizing c with
  | nil => exact fun acc => by rw [flatMap_nil, append_nil]; rfl
  | cons e es ih =>
    intro acc
    rw [forall_mem_cons] at hes
    rw [pairwise_cons] at hdisj
    have hstep : expandSeries e.1 e.2 tsMs c o.maxCumulative =
        (sends (addAll c (additions e)) tsMs e, addAll c (additions e)) :=
      expandSeries_eq fun k hk hnone =>
        (length_lt_of_get_eq_none hc (hes.1 hk) hnone).trans_le hkeys
    have hc' (k : SeriesKey) (hk : ((addAll c (additions e)).get k).isSome) : k ∈ keys :=
      (isSome_get_addAll hk).elim (hc k) fun hmem => hes.1 (map_fst_additions e ▸ hmem)
    have hall : addAll (addAll c (additions e)) (es.flatMap additions) =
        addAll c ((e :: es).flatMap additions) := by
      rw [addAll, addAll, addAll, flatMap_cons, foldl_append]
    -- The series after this one do not touch its totals.
    have hsends : sends (addAll c (additions e)) tsMs e =
        sends (addAll c ((e :: es).flatMap additions)) tsMs e := by
      refine sends_congr fun k hk => ?_
      rw [← hall]
      refine (getD_addAll_of_not_mem ?_).symm
      rw [map_flatMap, mem_flatMap]
      rintro ⟨e', he', hk'⟩
      rw [map_fst_additions] at hk'
      exact hdisj.1 e' he' hk hk'
    rw [foldl_cons]
    rw [hstep]
    rw [ih hc' hes.2 hdisj.2, hall, hsends, append_assoc]
    rfl

/-! ## Series -/

def collected (o : PrometheusRemoteWriteOutput) (xs : List Sample) : IndexMap SeriesKey SeriesAgg :=
  IndexMap.collectAll (some ∘ o.seriesKey) (fun s => ⟨s.sampleType, 0, 0, 0⟩)
    (fun s agg => ⟨agg.sampleType, agg.count + 1, agg.sum + s.value, s.value⟩) xs

theorem buffer_series (s : Sample) (xs : List Sample) (h : st.series = o.collected xs) :
    (o.buffer st s).series = o.collected (xs ++ [s]) := by
  rw [collected, collectAll_append_singleton, ← collected, ← h, buffer]
  dsimp only [collect, Function.comp_apply]
  rw [upsert]
  cases st.series.get (o.seriesKey s) with
  | some agg => rfl
  | none => simp

theorem get_collected (xs : List Sample) (key : SeriesKey) :
    (o.collected xs).get key = match xs.filter (fun s => o.seriesKey s = key) with
      | [] => none
      | s :: _ => some ⟨s.sampleType, (o.valuesOf key xs).length, (o.valuesOf key xs).sum,
          (o.valuesOf key xs).getLastD 0⟩ := by
  have hfold (l : List Sample) (agg : SeriesAgg) : l.foldl (accumulate
      (fun s => ⟨s.sampleType, 0, 0, 0⟩)
      (fun s agg => ⟨agg.sampleType, agg.count + 1, agg.sum + s.value, s.value⟩)) (some agg) =
      some ⟨agg.sampleType, agg.count + l.length, agg.sum + (l.map Sample.value).sum,
        (l.map Sample.value).getLastD agg.last⟩ := by
    induction l generalizing agg with
    | nil => simp
    | cons s l ih =>
      rw [foldl_cons, accumulate, ih, map_cons, getLastD_cons]
      simp [Nat.add_comm 1, add_assoc]
  rw [collected, get_collectAll, valuesOf]
  simp only [Function.comp_apply, some.injEq]
  cases xs.filter (fun s => o.seriesKey s = key) with
  | nil => rfl
  | cons s l =>
    rw [foldl_cons, accumulate, hfold, map_cons, getLastD_cons]
    simp [Nat.add_comm]

theorem of_mem_collected (he : e ∈ (o.collected window).entries) :
    ∃ s ∈ window, o.seriesKey s = e.1 ∧ s.sampleType = e.2.sampleType := by
  rw [← get_eq_some_iff, get_collected] at he
  split at he
  next => cases he
  next s l hfilter =>
    have hs : s ∈ window.filter fun s => o.seriesKey s = e.1 := hfilter ▸ mem_cons_self
    rw [mem_filter] at hs
    exact ⟨s, hs.1, of_decide_eq_true hs.2, congrArg SeriesAgg.sampleType (some.inj he)⟩

theorem get_collected_of_mem (h : o.Separate xs) (hsub : window ⊆ xs) (hs : s ∈ window) :
    (o.collected window).get (o.seriesKey s) =
      let values := o.valuesOf (o.seriesKey s) window
      some ⟨s.sampleType, values.length, values.sum, values.getLastD 0⟩ := by
  have hmem : s ∈ window.filter fun s' => o.seriesKey s' = o.seriesKey s := by simpa using hs
  rw [get_collected]
  split
  next hnil =>
    rw [hnil] at hmem
    cases hmem
  next s' l hfilter =>
    have hs' : s' ∈ window.filter fun s' => o.seriesKey s' = o.seriesKey s :=
      hfilter ▸ mem_cons_self
    rw [mem_filter] at hs'
    rw [h.oneType s' (hsub hs'.1) s (hsub hs) (of_decide_eq_true hs'.2)]

theorem valuesOf_append (xs ys : List Sample) :
    o.valuesOf key (xs ++ ys) = o.valuesOf key xs ++ o.valuesOf key ys := by
  rw [valuesOf, filter_append, map_append]
  rfl

def Tallied (o : PrometheusRemoteWriteOutput) (xs sent : List Sample)
    (c : IndexMap SeriesKey ℚ) : Prop :=
  ∀ s ∈ xs, s.sampleType ≠ .point →
    (outputKeys (o.seriesKey s) s.sampleType).map (fun k => (c.get k).getD 0) =
      outputValues (o.valuesOf (o.seriesKey s) sent) s.sampleType

theorem sum_additions (h : o.Separate xs) (hsub : window ⊆ xs) (hs : s ∈ xs)
    (hes : es.Perm (o.collected window).entries)
    (hk : k ∈ outputKeys (o.seriesKey s) s.sampleType) :
    (((es.flatMap additions).filter fun e => e.1 = k).map Prod.snd).sum =
      ((o.collected window).get (o.seriesKey s)).elim 0 fun agg =>
        (((additions (o.seriesKey s, agg)).filter fun e => e.1 = k).map Prod.snd).sum := by
  have hzero : ∀ e ∈ (o.collected window).entries,
      (((additions e).filter fun e => e.1 = k).map snd).sum =
      if e.1 = o.seriesKey s then (((additions e).filter fun e => e.1 = k).map snd).sum else 0 := by
    intro e he
    split
    next => rfl
    next hne =>
      obtain ⟨s', hs', hkey, htype⟩ := of_mem_collected he
      rw [filter_eq_nil_iff.2, map_nil, sum_nil]
      intro a ha heq
      have hmem : k ∈ totalKeys e.1 e.2.sampleType :=
        map_fst_additions e ▸ mem_map.2 ⟨a, ha, of_decide_eq_true heq⟩
      rw [← hkey, ← htype] at hmem
      exact h.disjoint s' (hsub hs') s hs (hkey ▸ hne) k (totalKeys_subset _ _ hmem) hk
  rw [← sum_filter_entries (o.collected window) fun q agg =>
      (((additions (q, agg)).filter fun e => e.1 = k).map snd).sum,
    filter_flatMap, map_flatMap, flatMap_def, sum_flatten, List.map_map, (hes.map _).sum_eq]
  refine (congrArg List.sum (map_congr_left hzero)).trans ?_
  rw [sum_map_ite, sum_map_zero, add_zero]

theorem Tallied.addAll (h : o.Separate xs) (hsub : window ⊆ xs) (hc : o.Tallied xs sent c)
    (hes : es.Perm (o.collected window).entries) :
    o.Tallied xs (sent ++ window) (addAll c (es.flatMap additions)) := by
  intro s hs hpoint
  have htotals : (outputKeys (o.seriesKey s) s.sampleType).map (fun k =>
      (((es.flatMap additions).filter fun e => e.1 = k).map snd).sum) =
      outputValues (o.valuesOf (o.seriesKey s) window) s.sampleType := by
    rw [map_congr_left fun k hk => sum_additions h hsub hs hes hk]
    by_cases hmem : ∃ s' ∈ window, o.seriesKey s' = o.seriesKey s
    · obtain ⟨s', hs', hkey⟩ := hmem
      rw [← hkey, get_collected_of_mem h hsub hs', h.oneType s' (hsub hs') s hs hkey]
      dsimp only [elim_some, additions]
      cases ht : s.sampleType with
      | point => exact absurd ht hpoint
      | counter | rate => simp [outputKeys, outputValues]
      | trend => simp [outputKeys, outputValues, suffixed_ne, (suffixed_ne _).symm]
    · have hnil : window.filter (fun s' => o.seriesKey s' = o.seriesKey s) = [] :=
        filter_eq_nil_iff.2 fun s' hs' heq => hmem ⟨s', hs', of_decide_eq_true heq⟩
      rw [get_collected, valuesOf, hnil]
      cases ht : s.sampleType with
      | point => exact absurd ht hpoint
      | counter | rate | trend => simp [outputKeys, outputValues]
  have hold := hc s hs hpoint
  simp only [PrometheusRemoteWriteOutput.addAll, getD_foldl_upsert]
  rw [valuesOf_append]
  cases ht : s.sampleType with
  | point => exact absurd ht hpoint
  | counter | rate | trend =>
    rw [ht] at hold htotals
    simp only [outputKeys, outputValues, map_cons, map_nil, List.cons.injEq, and_true]
      at hold htotals ⊢
    simp [hold, htotals]

/-! ## Flushes -/

theorem pairwise_outputKeys (h : o.Separate xs) (hsub : window ⊆ xs)
    (hes : es.Perm (o.collected window).entries) :
    es.Pairwise fun e e' =>
      (outputKeys e.1 e.2.sampleType).Disjoint (outputKeys e'.1 e'.2.sampleType) := by
  have hne : es.Pairwise fun e e' => e.1 ≠ e'.1 :=
    pairwise_map.1 ((hes.map fst).nodup_iff.2 (o.collected window).nodup)
  refine hne.imp_of_mem fun {e e'} he he' hne => ?_
  obtain ⟨s, hs, hkey, htype⟩ := of_mem_collected (hes.mem_iff.1 he)
  obtain ⟨s', hs', hkey', htype'⟩ := of_mem_collected (hes.mem_iff.1 he')
  rw [← hkey, ← htype, ← hkey', ← htype']
  exact fun k => h.disjoint s (hsub hs) s' (hsub hs') (by rwa [hkey, hkey']) k

structure Knows (o : PrometheusRemoteWriteOutput) (xs : List Sample) (st : RemoteWriteState)
    (h : List Sample × List Sample) : Prop where
  series : st.series = o.collected h.2
  tallied : o.Tallied xs h.1 st.cumulative
  known : ∀ k, (st.cumulative.get k).isSome → k ∈ xs.flatMap fun s =>
    totalKeys (o.seriesKey s) s.sampleType

theorem isEmpty_collected : (o.collected xs).entries.isEmpty = true ↔ xs = [] := by
  constructor
  · intro hempty
    cases xs with
    | nil => rfl
    | cons s l =>
      have hsome : ((o.collected (s :: l)).get (o.seriesKey s)).isSome :=
        isSome_get_collectAll.2 (mem_filterMap.2 ⟨s, mem_cons_self, rfl⟩)
      rw [← mem_keys_iff, List.isEmpty_iff.1 hempty] at hsome
      cases hsome
  · rintro rfl
    rfl

theorem Knows.flush (h : o.Separate xs) {st : RemoteWriteState} {hist : List Sample × List Sample}
    (hst : o.Knows xs st hist) (hsub : hist.2 ⊆ xs) (order : SeriesOrder) (tsMs : Int64)
    (posted : Bool) :
    ∃ (es : List (SeriesKey × SeriesAgg)) (c : IndexMap SeriesKey ℚ),
      es.Perm (o.collected hist.2).entries ∧
      o.Knows xs ⟨∅, c, 0⟩ (hist.1 ++ hist.2, []) ∧
      o.flushBuffered order tsMs posted st = if hist.2 = [] then (none, true, ⟨∅, c, 0⟩)
        else (some ((es.flatMap (sends c tsMs)).foldl (fun m e => m.insert e.1 e.2) ∅), posted,
          ⟨∅, c, 0⟩) := by
  obtain ⟨series, cumulative, buffered⟩ := st
  obtain rfl : series = o.collected hist.2 := hst.series
  have hes := order.perm (o.collected hist.2).entries
  rw [flushBuffered]
  simp only [isEmpty_collected]
  by_cases hnil : hist.2 = []
  · refine ⟨_, cumulative, hes, ⟨rfl, ?_, hst.known⟩, by rw [if_pos hnil, if_pos hnil]⟩
    rw [hnil, append_nil]
    exact hst.tallied
  · generalize order.order (o.collected hist.2).entries = es at hes
    have hkeys : ∀ e ∈ es,
        totalKeys e.1 e.2.sampleType ⊆ xs.flatMap fun s =>
          totalKeys (o.seriesKey s) s.sampleType := by
      intro e he k hk
      obtain ⟨s, hs, hkey, htype⟩ := of_mem_collected (hes.mem_iff.1 he)
      exact mem_flatMap.2 ⟨s, hsub hs, by rwa [hkey, htype]⟩
    have hdisj := (pairwise_outputKeys h hsub hes).imp fun {e e'} hd =>
      disjoint_of_subset_left (totalKeys_subset e.1 _)
        (disjoint_of_subset_right (totalKeys_subset e'.1 _) hd)
    rw [expandAll_eq h.room hst.known hkeys hdisj, if_neg hnil]
    refine ⟨es, _, hes, ⟨rfl, hst.tallied.addAll h hsub hes, fun k hk => ?_⟩, (if_neg hnil).symm⟩
    rcases isSome_get_addAll hk with hk | hk
    · exact hst.known k hk
    · rw [map_flatMap, mem_flatMap] at hk
      obtain ⟨e, he, hk⟩ := hk
      exact hkeys e he (map_fst_additions e ▸ hk)

theorem samples_subset (e : RemoteWriteEvent) : samples events ⊆ samples (events ++ [e]) := by
  rw [samples, samples, show seen (events ++ [e]) = record (seen events) e from foldl_append]
  cases e with
  | sample s => exact append_subset.2 ⟨by simp [record], by simp [record]⟩
  | flush order tsMs posted => simp [record]

theorem knows_after (h : o.Separate xs) {events : List RemoteWriteEvent}
    (hsub : samples events ⊆ xs) : o.Knows xs (o.after events) (seen events) := by
  induction events using List.reverseRecOn with
  | nil =>
    refine ⟨rfl, fun s _ hpoint => ?_, fun k hk => absurd hk (by simp [after])⟩
    cases ht : s.sampleType with
    | point => exact absurd ht hpoint
    | counter | rate | trend => simp [outputKeys, outputValues, valuesOf, seen, after]
  | append_singleton events e ih =>
    have hprev := List.Subset.trans (samples_subset events e) hsub
    have ih := ih hprev
    have hwindow : (seen events).2 ⊆ xs := List.Subset.trans (subset_append_right _ _) hprev
    rw [show o.after (events ++ [e]) = o.step (o.after events) e from foldl_append,
      show seen (events ++ [e]) = record (seen events) e from foldl_append]
    cases e with
    | sample s =>
      have hcumulative : (o.buffer (o.after events) s).cumulative =
          (o.after events).cumulative := by
        rw [buffer]
        split <;> rfl
      exact ⟨buffer_series _ s _ ih.series, by rw [step, hcumulative]; exact ih.tallied,
        by rw [step, hcumulative]; exact ih.known⟩
    | flush order tsMs posted =>
      obtain ⟨es, c, -, hknows, hflush⟩ := ih.flush h hwindow order tsMs posted
      rw [step, hflush]
      split
      next => exact hknows
      next => exact hknows

/-- A flush after new samples sends one sample for each of their series, with the total of all
    samples of the run, or the last value for a point. -/
theorem flush_totals {events : List RemoteWriteEvent} (h : o.Separate (samples events))
    (order : SeriesOrder) (tsMs : Int64) (posted : Bool) :
    let window := (seen events).2
    let flush := o.flushBuffered order tsMs posted (o.after events)
    (flush.1.isSome ↔ window ≠ []) ∧ ∀ sent ∈ flush.1,
      (∀ e ∈ sent.entries, ∃ value, e.2 = [(value, tsMs)]) ∧
      (∀ k, (sent.get k).isSome ↔ ∃ s ∈ window, k ∈ outputKeys (o.seriesKey s) s.sampleType) ∧
      ∀ s ∈ window, List.Forall₂ (fun k value => sent.get k = some [(value, tsMs)])
        (outputKeys (o.seriesKey s) s.sampleType)
        (outputValues (o.valuesOf (o.seriesKey s) (samples events)) s.sampleType) := by
  have hwindow : (seen events).2 ⊆ samples events := subset_append_right _ _
  obtain ⟨es, c, hes, hknows, hflush⟩ :=
    (knows_after h (List.Subset.refl _)).flush h hwindow order tsMs posted
  rw [hflush]
  split
  next hnil =>
    exact ⟨iff_of_false Bool.false_ne_true fun hne => hne hnil, fun sent hsent => by cases hsent⟩
  next hne =>
    -- The series that are sent are distinct, so that each keeps its sample.
    have hnodup : ((es.flatMap (sends c tsMs)).map fst).Nodup := by
      rw [map_flatMap]
      simp only [map_fst_sends]
      exact nodup_flatMap.2 ⟨fun e _ => nodup_outputKeys _ _, pairwise_outputKeys h hwindow hes⟩
    have hmem (s : Sample) (hs : s ∈ (seen events).2) :=
      hes.mem_iff.2 (get_eq_some_iff.1 (get_collected_of_mem h hwindow hs))
    rw [foldl_insert_eq hnodup]
    refine ⟨iff_of_true rfl hne, ?_⟩
    rintro sent ⟨⟩
    refine ⟨fun e he => ?_, fun k => ?_, fun s hs => ?_⟩
    · obtain ⟨e', -, he⟩ := mem_flatMap.1 he
      rw [sends] at he
      split at he
      next => exact ⟨_, by rw [mem_singleton.1 he]⟩
      next =>
        obtain ⟨k, -, rfl⟩ := mem_map.1 he
        exact ⟨_, rfl⟩
    · rw [← mem_keys_iff, map_flatMap, mem_flatMap]
      simp only [map_fst_sends]
      constructor
      · rintro ⟨e, he, hk⟩
        obtain ⟨s, hs, hkey, htype⟩ := of_mem_collected (hes.mem_iff.1 he)
        exact ⟨s, hs, by rwa [hkey, htype]⟩
      · rintro ⟨s, hs, hk⟩
        exact ⟨_, hmem s hs, hk⟩
    · have hsent (e : SeriesKey × List (ℚ × Int64)) (he : e ∈ sends c tsMs _) :=
        get_eq_some_iff.2 (show (e.1, e.2) ∈ (⟨_, hnodup⟩ : IndexMap _ _).entries from
          mem_flatMap.2 ⟨_, hmem s hs, he⟩)
      have htotals := hknows.tallied s (hwindow hs)
      rw [← samples] at htotals
      cases ht : s.sampleType with
      | point =>
        rw [ht] at hsent
        have hlast : (o.valuesOf (o.seriesKey s) (samples events)).getLastD 0 =
            (o.valuesOf (o.seriesKey s) (seen events).2).getLastD 0 := by
          have hne : o.valuesOf (o.seriesKey s) (seen events).2 ≠ [] := by
            simpa [valuesOf] using ⟨s, hs, rfl⟩
          rw [samples, valuesOf_append, getLastD_eq_getLast?, getLast?_append_of_ne_nil _ hne,
            getLastD_eq_getLast?]
        exact .cons (hlast ▸ hsent _ mem_cons_self) .nil
      | counter | rate | trend =>
        rw [ht] at hsent htotals
        rw [← htotals (by decide), forall₂_map_right_iff, forall₂_same]
        exact fun k hk => hsent (k, _) (mem_map_of_mem hk)

def lostRequest : List RemoteWriteEvent :=
  [.sample ⟨"reqs", .ofPairs [], 1, .counter⟩, .flush ⟨id, fun _ => .rfl⟩ 5 false,
    .sample ⟨"reqs", .ofPairs [], 2, .counter⟩, .sample ⟨"took", .ofPairs [], 7, .trend⟩]

theorem flush_totals_lostRequest :
    ((flushBuffered ⟨.default, 3⟩
      ⟨id, fun _ => .rfl⟩ 10 true (after ⟨.default, 3⟩ lostRequest)).1.bind fun sent =>
      sent.get ⟨"reqs", [("__name__", "reqs")]⟩) = some [(1 + 2, 10)] := by
  have hseparate : Separate ⟨.default, 3⟩ (samples lostRequest) := ⟨by decide, by decide, by decide⟩
  have htotals := flush_totals hseparate ⟨id, fun _ => .rfl⟩ 10 true
  obtain ⟨sent, hsent⟩ := isSome_iff_exists.1 (htotals.1.2 (by decide))
  have hreqs := (htotals.2 sent hsent).2.2 ⟨"reqs", .ofPairs [], 2, .counter⟩ (by decide)
  have hvalues : valuesOf ⟨.default, 3⟩ (.fromParts "reqs" (.ofPairs [])) (samples lostRequest) =
      [1, 2] := by decide
  have hkey : SeriesKey.fromParts "reqs" (.ofPairs []) = ⟨"reqs", [("__name__", "reqs")]⟩ := by
    decide
  cases hreqs with
  | cons htotal _ =>
    rw [hsent, bind_some, ← hkey]
    refine htotal.trans ?_
    change some [((valuesOf ⟨.default, 3⟩ (.fromParts "reqs" (.ofPairs []))
      (samples lostRequest)).sum, 10)] = _
    rw [hvalues, sum_cons, sum_singleton]

end PrometheusRemoteWriteOutput

end Tropel
