import Tropel.Core.Striping

/-!
# The arrivals of a node

A node goes through the ticks of its stripe, and counts them to know how many iterations to release.

* `stripes_partition_ticks`: every tick is of one segment;
* `stripes_refine_one_node`: the nodes release what one would.
-/

namespace Tropel

open Lib Option Nat

namespace SegmentedIndex

variable {P : ℕ → Prop} [DecidablePred P] {L : ℕ} {idx : SegmentedIndex}

noncomputable def passed (P : ℕ → Prop) : ℕ → ℤ
  | 0 => 0
  | k + 1 => Nat.nth P k + 1

structure Follows (P : ℕ → Prop) [DecidablePred P] (L : ℕ) (idx : SegmentedIndex) : Prop where
  start : idx.start = Nat.nth P 0
  offsets : idx.offsets = (List.range (Nat.count P L)).map fun j => gap P (j + 1)
  unscaled : idx.unscaled = passed P idx.scaled

variable (hP : Function.Periodic P L) (hL : 0 < Nat.count P L)
include hP hL

theorem Follows.advance (h : idx.Follows P L) :
    ∃ idx', idx.advance = some idx' ∧ idx'.scaled = idx.scaled + 1 ∧ idx'.Follows P L := by
  cases hk : idx.scaled with
  | zero =>
    refine ⟨{ idx with scaled := 1, unscaled := idx.unscaled + (idx.start + 1) }, ?_, rfl,
      h.start, h.offsets, ?_⟩
    · rw [SegmentedIndex.advance, if_pos hk]
    · dsimp only
      rw [h.unscaled, hk, h.start, passed, passed, zero_add]
  | succ k =>
    -- The gap at the position of `k` in its cycle is the gap at `k`.
    have hmod : idx.offsets[k % idx.offsets.length]? = some (gap P (k + 1)) := by
      have hlt := mod_lt k hL
      have hgap := gap_add hP hL (k % count P L) (k / count P L)
      rw [mod_add_div] at hgap
      rw [h.offsets, List.length_map, List.length_range, List.getElem?_map,
        List.getElem?_range hlt, map_some, hgap]
    refine ⟨{ idx with scaled := k + 1 + 1, unscaled := idx.unscaled + gap P (k + 1) }, ?_, rfl,
      h.start, h.offsets, ?_⟩
    · rw [SegmentedIndex.advance, if_neg (by omega), hk, Nat.add_sub_cancel, hmod, Option.map_some]
    · dsimp only
      rw [h.unscaled, hk, passed, passed, gap]
      ring

theorem Follows.walk (h : idx.Follows P L) (n : ℕ) :
    ∃ idx', idx.walk n = some idx' ∧ idx'.scaled = idx.scaled + n ∧ idx'.Follows P L := by
  induction n with
  | zero => exact ⟨idx, rfl, rfl, h⟩
  | succ n ih =>
    obtain ⟨idx₁, hwalk, hscaled, h₁⟩ := ih
    obtain ⟨idx₂, hadv, hscaled', h₂⟩ := h₁.advance hP hL
    refine ⟨idx₂, by rw [SegmentedIndex.walk, hwalk, bind_some, hadv], ?_, h₂⟩
    rw [hscaled', hscaled, add_assoc]

theorem Follows.yields_iff (h : idx.Follows P L) (h₀ : idx.scaled = 0) (g : ℕ) :
    idx.Yields (g + 1) ↔ P g := by
  have hinf := infinite_of_periodic hP hL
  -- The `n`-th number that the walk yields is the `n`-th member.
  have hpos : ∀ n idx', idx.walk (n + 1) = some idx' → idx'.unscaled = nth P n + 1 := by
    intro n idx' hidx'
    obtain ⟨idx₁, hwalk, hscaled, h₁⟩ := h.walk hP hL (n + 1)
    obtain rfl : idx₁ = idx' := some_injective _ (hwalk.symm.trans hidx')
    rw [h₁.unscaled, hscaled, h₀, zero_add, passed]
  constructor
  · rintro ⟨n, idx', hwalk, hg⟩
    have : nth P n = g := by
      rw [hpos n idx' hwalk] at hg
      omega
    exact this ▸ nth_mem_of_infinite hinf n
  · intro hg
    obtain ⟨idx', hwalk, -, -⟩ := h.walk hP hL (count P g + 1)
    refine ⟨count P g, idx', hwalk, ?_⟩
    rw [hpos _ _ hwalk, nth_count hg]

end SegmentedIndex

/-! ## Counting the ticks of a segment -/

namespace ArrivalStripe

variable {P : ℕ → Prop} [DecidablePred P] {L : ℕ} {st : ArrivalStripe}

def dueBys (st : ArrivalStripe) : List ℕ → Option (List ℕ)
  | [] => some []
  | n :: ns => (st.dueBy n).bind fun (st, due) => (st.dueBys ns).map (due :: ·)

structure Aligned (P : ℕ → Prop) [DecidablePred P] (L : ℕ) (st : ArrivalStripe) : Prop where
  follows : st.index.Follows P L
  scaled : st.index.scaled = st.released + 1
  nextOwned : st.nextOwned = st.index.unscaled

theorem Aligned.nextOwned_eq (h : st.Aligned P L) : st.nextOwned = Nat.nth P st.released + 1 := by
  rw [h.nextOwned, h.follows.unscaled, h.scaled, SegmentedIndex.passed]

section

variable (hP : Function.Periodic P L) (hL : 0 < Nat.count P L)
include hP hL

theorem aligned_fromIndex {idx : SegmentedIndex} (h : idx.Follows P L) (h₀ : idx.scaled = 0) :
    ∃ st, fromIndex idx = some st ∧ st.released = 0 ∧ st.Aligned P L := by
  obtain ⟨idx', hadv, hscaled, h'⟩ := h.advance hP hL
  refine ⟨{ index := idx', nextOwned := idx'.unscaled, released := 0 }, ?_, rfl, h', ?_, rfl⟩
  · rw [fromIndex, hadv, map_some]
  · rw [hscaled, h₀]

theorem Aligned.dueByLoop {n fuel : ℕ} (h : st.Aligned P L) (hle : st.released ≤ Nat.count P n)
    (hfuel : Nat.count P n < st.released + fuel) :
    ∃ st', ArrivalStripe.dueByLoop n fuel st = some st' ∧ st'.released = Nat.count P n ∧
      st'.Aligned P L := by
  have hinf := infinite_of_periodic hP hL
  induction fuel generalizing st with
  | zero => omega
  | succ fuel ih =>
    -- The next member is below `n` when not all of them are released.
    have hguard : (st.nextOwned > 0 ∧ st.nextOwned ≤ n) ↔ st.released < count P n := by
      rw [h.nextOwned_eq, lt_nth_iff_count_lt hinf]
      omega
    rw [ArrivalStripe.dueByLoop]
    split
    next hnext =>
      obtain ⟨idx', hadv, hscaled, hidx'⟩ := h.follows.advance hP hL
      rw [hadv, bind_some]
      have hlt := hguard.1 hnext
      refine ih ⟨hidx', ?_, rfl⟩ hlt (by dsimp only; omega)
      rw [hscaled, h.scaled]
    next hnext =>
      exact ⟨st, rfl, hle.antisymm (not_lt.1 fun hlt => hnext (hguard.2 hlt)), h⟩

theorem Aligned.dueBy {n : ℕ} (h : st.Aligned P L) (hle : st.released ≤ Nat.count P n) :
    ∃ st', st.dueBy n = some (st', Nat.count P n) ∧ st'.released = Nat.count P n ∧
      st'.Aligned P L := by
  have hfuel : count P n < st.released + (n + 1) := by
    have := count_le P (n := n)
    omega
  obtain ⟨st', hloop, hrel, h'⟩ := h.dueByLoop hP hL hle hfuel
  exact ⟨st', by rw [ArrivalStripe.dueBy, hloop, map_some, hrel], hrel, h'⟩

theorem Aligned.dueBys {ns : List ℕ} (hns : ns.Pairwise (· ≤ ·)) (h : st.Aligned P L)
    (hle : ∀ n ∈ ns, st.released ≤ Nat.count P n) : st.dueBys ns = some (ns.map (Nat.count P)) := by
  induction ns generalizing st with
  | nil => rfl
  | cons n ns ih =>
    rw [List.pairwise_cons] at hns
    obtain ⟨st', hdue, hrel, h'⟩ := h.dueBy hP hL (hle n List.mem_cons_self)
    rw [ArrivalStripe.dueBys, hdue, bind_some]
    dsimp only
    rw [ih hns.2 h' fun m hm => hrel ▸ count_monotone P (hns.1 m hm), map_some,
      List.map_cons]

end

theorem dueBys_full : ∃ st, full = some st ∧ ∀ ns : List ℕ, ns.Pairwise (· ≤ ·) →
    st.dueBys ns = some ns := by
  have hP : Function.Periodic (fun _ : ℕ => True) 1 := fun _ => rfl
  have hL : 0 < count (fun _ => True) 1 := by rw [count_true]; exact one_pos
  have hfollows : SegmentedIndex.Follows (fun _ => True) 1
      { start := 0, lcd := 1, offsets := [1], scaled := 0, unscaled := 0 } :=
    ⟨by simp, by simp [count_true, gap], rfl⟩
  obtain ⟨st, hst, hrel, h⟩ := aligned_fromIndex hP hL hfollows rfl
  refine ⟨st, hst, fun ns hns => ?_⟩
  rw [h.dueBys hP hL hns fun n _ => hrel ▸ zero_le _, show count (fun _ => True) = id from
    funext count_true, List.map_id]

end ArrivalStripe

/-! ## The ticks of the segments -/

def ExecutionSegmentSequenceWrapper.Owns (w : ExecutionSegmentSequenceWrapper)
    (segmentIndex t : ℕ) : Prop :=
  ∃ idx, w.segmentedIndex segmentIndex = some idx ∧ idx.Yields t

noncomputable def ExecutionSegmentSequenceWrapper.owned (w : ExecutionSegmentSequenceWrapper)
    (segmentIndex n : ℕ) : ℕ :=
  {t : ℕ | 1 ≤ t ∧ t ≤ n ∧ w.Owns segmentIndex t}.ncard

namespace FullSequence

variable (seq : FullSequence)

open ExecutionSegmentSequenceWrapper

variable (i : Fin seq.size)

theorem follows_wrapper : ∃ idx, seq.wrapper.segmentedIndex i = some idx ∧
    idx.scaled = 0 ∧ idx.Follows (seq.striping.Owns i) seq.striping.cycle := by
  refine ⟨_, seq.segmentedIndex_wrapper i, rfl, rfl, ?_, rfl⟩
  rw [seq.striping.count_cycle]
  rfl

theorem owns_wrapper_iff (g : ℕ) : seq.wrapper.Owns i (g + 1) ↔ seq.striping.Owns i g := by
  obtain ⟨idx, hidx, h₀, h⟩ := seq.follows_wrapper i
  rw [← h.yields_iff (seq.striping.owns_periodic i) (seq.striping.count_cycle_pos i) h₀ g,
    ExecutionSegmentSequenceWrapper.Owns, hidx]
  simp

theorem owned_wrapper (n : ℕ) : seq.wrapper.owned i n = Nat.count (seq.striping.Owns i) n := by
  -- The cursors count the ticks from `1`, the striping from `0`.
  have hset : {t : ℕ | 1 ≤ t ∧ t ≤ n ∧ seq.wrapper.Owns i t} =
      Nat.succ '' ↑((Finset.range n).filter (seq.striping.Owns i)) := by
    ext t
    constructor
    · rintro ⟨ht, hn, hown⟩
      obtain ⟨g, rfl⟩ := Nat.exists_eq_add_of_le' ht
      refine ⟨g, ?_, rfl⟩
      rw [Finset.mem_coe, Finset.mem_filter, Finset.mem_range]
      exact ⟨hn, (seq.owns_wrapper_iff i g).1 hown⟩
    · rintro ⟨g, hg, rfl⟩
      rw [Finset.mem_coe, Finset.mem_filter, Finset.mem_range] at hg
      exact ⟨Nat.succ_pos g, hg.1, (seq.owns_wrapper_iff i g).2 hg.2⟩
  rw [ExecutionSegmentSequenceWrapper.owned, hset,
    Set.ncard_image_of_injective _ Nat.succ_injective, Set.ncard_coe_finset,
      Nat.count_eq_card_filter_range]

/-- The stripes partition the ticks: every tick is walked through by exactly one segment, which has
    its share of the ticks in every window of a cycle's length. -/
theorem stripes_partition_ticks : ∃ w, new seq.toExecutionSegmentSequence = .ok w ∧
    (∀ g : ℕ, ∃! i : Fin seq.size, w.Owns i (g + 1)) ∧
    ∀ (i : Fin seq.size) (a : ℕ),
      ({g : ℕ | a ≤ g ∧ (g : ℤ) < a + w.lcd ∧ w.Owns i (g + 1)}.ncard : ℚ) =
        (seq.segment i).fraction * w.lcd := by
  refine ⟨seq.wrapper, seq.new_eq, fun g => ?_, fun i a => ?_⟩
  · refine ⟨seq.owner g, (seq.owns_wrapper_iff _ g).2 rfl, fun i hi => ?_⟩
    exact ((seq.owns_wrapper_iff i g).1 hi).symm
  · have hset : {g : ℕ | a ≤ g ∧ (g : ℤ) < a + seq.wrapper.lcd ∧ seq.wrapper.Owns i (g + 1)} =
        ↑((Finset.Ico a (a + seq.cycle)).filter (seq.striping.Owns i)) := by
      ext g
      have hlt : (g : ℤ) < a + seq.wrapper.lcd ↔ g < a + seq.cycle := by
        rw [wrapper_lcd]
        norm_cast
      simp only [Set.mem_ofPred_eq, seq.owns_wrapper_iff, hlt, Finset.coe_filter, Finset.mem_Ico,
        and_assoc]
    have hcard : ((Finset.Ico a (a + seq.cycle)).filter (seq.striping.Owns i)).card =
        seq.weight i :=
      seq.striping.card_window i a
    rw [hset, Set.ncard_coe_finset, hcard, seq.weight_eq, wrapper_lcd, Int.cast_natCast]

theorem owned_le_ceil (n : ℕ) : (seq.wrapper.owned i n : ℤ) ≤ ⌈n * (seq.segment i).fraction⌉ := by
  have hlt := seq.striping.count_mul_lt i n
  have hcyc : (0 : ℚ) < seq.cycle := by exact_mod_cast seq.cycle_pos
  rw [owned_wrapper, Int.le_ceil_iff, sub_lt_iff_lt_add, Int.cast_natCast]
  have hlt' : (count (seq.striping.Owns i) n * seq.cycle : ℚ) <
      n * seq.weight i + seq.cycle := by exact_mod_cast hlt
  rw [seq.weight_eq] at hlt'
  refine lt_of_mul_lt_mul_right ?_ hcyc.le
  linarith

/-- The nodes of a sequence release together what one node would: whenever it is asked, a cursor
    answers with the ticks of its segment so far, no more than the segment's share, rounded up, and
    all ticks together. -/
theorem stripes_refine_one_node : ∃ w, new seq.toExecutionSegmentSequence = .ok w ∧
    (∀ i : Fin seq.size, ∃ st, w.arrivalStripe i = some st ∧
      ∀ ns : List ℕ, ns.Pairwise (· ≤ ·) → st.dueBys ns = some (ns.map (w.owned i))) ∧
    (∀ (i : Fin seq.size) (n : ℕ), (w.owned i n : ℤ) ≤ ⌈n * (seq.segment i).fraction⌉) ∧
    (∀ n : ℕ, ∑ i : Fin seq.size, w.owned i n = n) ∧
    ∃ st, ArrivalStripe.full = some st ∧ ∀ ns : List ℕ, ns.Pairwise (· ≤ ·) →
      st.dueBys ns = some ns := by
  refine ⟨seq.wrapper, seq.new_eq, fun i => ?_, seq.owned_le_ceil, fun n => ?_,
    ArrivalStripe.dueBys_full⟩
  · have hP := seq.striping.owns_periodic i
    have hL := seq.striping.count_cycle_pos i
    obtain ⟨idx, hidx, h₀, h⟩ := seq.follows_wrapper i
    obtain ⟨st, hst, hrel, haligned⟩ := ArrivalStripe.aligned_fromIndex hP hL h h₀
    refine ⟨st, by rw [arrivalStripe, hidx, bind_some, hst], fun ns hns => ?_⟩
    rw [haligned.dueBys hP hL hns fun n _ => hrel ▸ zero_le _,
      show seq.wrapper.owned i = count (seq.striping.Owns i) from funext (seq.owned_wrapper i)]
  · simp only [owned_wrapper]
    exact seq.striping.sum_count n

end FullSequence

end Tropel
