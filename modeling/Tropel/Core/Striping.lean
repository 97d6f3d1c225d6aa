import Mathlib.Algebra.BigOperators.Fin
import Mathlib.Tactic.LinearCombination
import Tropel.Core.Sequence
import Tropel.Lib.Striping

/-!
# The stripes of a sequence

The striping loop deals out the ticks (`FullSequence.striping`); the weight of a segment is its
length times the cycle.
-/

namespace Tropel

open Lib List

/-! ## Lengths and cycles -/

variable (seg : ExecutionSegment)

namespace ExecutionSegment

theorem gcd_eq (a b : ℤ) : gcd a b = Int.gcd a b := by
  induction a, b using gcd.induct with
  | case1 a => rw [gcd, if_pos rfl, Int.gcd_zero_right, Int.natCast_natAbs]
  | case2 a b hb ih => rw [gcd, if_neg hb, ih, Int.gcd_comm, Int.gcd, Int.natAbs_tmod, Int.gcd,
      ← Nat.gcd_rec, Nat.gcd_comm]

theorem lo_lt_hi : seg.lo < seg.hi := by
  have h₁ : (0 : ℚ) < seg.fromDen := by exact_mod_cast seg.fromDen_pos
  have h₂ : (0 : ℚ) < seg.toDen := by exact_mod_cast seg.toDen_pos
  rw [lo, hi, div_lt_div_iff₀ h₁ h₂]
  exact_mod_cast seg.from_lt_to

theorem fraction_pos : 0 < seg.fraction := sub_pos.2 seg.lo_lt_hi

theorem lengthRat_spec :
    0 < seg.lengthRat.2 ∧ (seg.lengthRat.1 : ℚ) = seg.fraction * seg.lengthRat.2 := by
  have h₁ := seg.fromDen_pos
  have h₂ := seg.toDen_pos
  rw [lengthRat]
  rw [gcd_eq]
  set num := seg.toNum * seg.fromDen - seg.fromNum * seg.toDen
  set den := seg.toDen * seg.fromDen
  have hden : 0 < den := mul_pos h₂ h₁
  have hp : num.tdiv (Int.gcd num den) * Int.gcd num den = num :=
    Int.tdiv_mul_cancel (Int.gcd_dvd_left num den)
  have hq : den.tdiv (Int.gcd num den) * Int.gcd num den = den :=
    Int.tdiv_mul_cancel (Int.gcd_dvd_right num den)
  refine ⟨pos_of_mul_pos_left (hq ▸ hden) (Int.natCast_nonneg _), ?_⟩
  -- The reduced fraction and the other one, multiplied crosswise.
  have hcross : num.tdiv (Int.gcd num den) * den = num * den.tdiv (Int.gcd num den) := by
    linear_combination den.tdiv (Int.gcd num den) * hp - num.tdiv (Int.gcd num den) * hq
  have hcross' : (num.tdiv (Int.gcd num den) : ℚ) * (seg.toDen * seg.fromDen) =
      (seg.toNum * seg.fromDen - seg.fromNum * seg.toDen) * den.tdiv (Int.gcd num den) := by
    exact_mod_cast hcross
  rw [fraction, hi, lo]
  field_simp
  linear_combination hcross'

end ExecutionSegment

theorem sum_length_of_tight {x : ℚ} {l : List (ℚ × ℚ)} (h : Tight (seams x l)) :
    (l.map fun s => s.2 - s.1).sum = 1 - x := by
  induction l generalizing x with
  | nil =>
    have : x = 1 := h (x, 1) (by simp [seams])
    simp [this]
  | cons s l ih =>
    have hx : x = s.1 := h (x, s.1) (by simp [seams])
    rw [map_cons, sum_cons, ih fun t ht => h t (mem_cons_of_mem _ ht), hx]
    ring

namespace ExecutionSegmentSequence

theorem lcdStep_spec {acc n : ℤ} (ha : 0 < acc) (hn : 0 < n) :
    0 < lcdStep acc n ∧ acc ∣ lcdStep acc n ∧ n ∣ lcdStep acc n := by
  rw [lcdStep]
  split
  next h =>
    refine ⟨ha, dvd_rfl, ?_⟩
    rcases h with rfl | h
    · exact dvd_rfl
    · exact Int.dvd_of_tmod_eq_zero h
  next h =>
    rw [ExecutionSegment.gcd_eq]
    have hq : n.tdiv (Int.gcd acc n) * Int.gcd acc n = n :=
      Int.tdiv_mul_cancel (Int.gcd_dvd_right acc n)
    refine ⟨mul_pos ha (pos_of_mul_pos_left (hq ▸ hn) (Int.natCast_nonneg _)),
      dvd_mul_right _ _, ?_⟩
    obtain ⟨p, hp⟩ := Int.gcd_dvd_left acc n
    refine ⟨p, ?_⟩
    linear_combination n.tdiv (Int.gcd acc n) * hp + p * hq

theorem foldl_lcdStep_spec {acc : ℤ} {l : List ℤ} (ha : 0 < acc) (hl : ∀ n ∈ l, 0 < n) :
    0 < l.foldl lcdStep acc ∧ acc ∣ l.foldl lcdStep acc ∧ ∀ n ∈ l, n ∣ l.foldl lcdStep acc := by
  induction l generalizing acc with
  | nil => exact ⟨ha, dvd_rfl, by simp⟩
  | cons n l ih =>
    obtain ⟨hpos, hacc, hn⟩ := lcdStep_spec ha (hl n mem_cons_self)
    obtain ⟨h₀, h₁, h₂⟩ := ih hpos fun m hm => hl m (mem_cons_of_mem _ hm)
    refine ⟨h₀, hacc.trans h₁, fun m hm => ?_⟩
    rcases mem_cons.1 hm with rfl | hm
    · exact hn.trans h₁
    · exact h₂ m hm

variable (seq : ExecutionSegmentSequence)

theorem lcd_spec : 0 < seq.lcd ∧ ∀ seg ∈ seq.segments, seg.lengthRat.2 ∣ seq.lcd := by
  obtain ⟨_ | ⟨seg, segs⟩⟩ := seq
  · exact ⟨one_pos, by simp⟩
  · have h := foldl_lcdStep_spec (l := segs.map fun s => s.lengthRat.2) seg.lengthRat_spec.1
      (by simpa using fun s _ => s.lengthRat_spec.1)
    exact ⟨h.1, by simpa [lcd] using h.2⟩

def ticks (seq : ExecutionSegmentSequence) (seg : ExecutionSegment) : ℤ :=
  seg.lengthRat.1 * seq.lcd.tdiv seg.lengthRat.2

theorem ticks_cast {seg : ExecutionSegment} (hseg : seg ∈ seq.segments) :
    (seq.ticks seg : ℚ) = seg.fraction * seq.lcd := by
  have hmul : (seq.lcd.tdiv seg.lengthRat.2 : ℚ) * seg.lengthRat.2 = seq.lcd := by
    exact_mod_cast Int.tdiv_mul_cancel (seq.lcd_spec.2 seg hseg)
  rw [ticks, Int.cast_mul, seg.lengthRat_spec.2, ← hmul]
  ring

end ExecutionSegmentSequence

/-! ## Dealing out a cycle -/

structure FullSequence extends ExecutionSegmentSequence where
  full : toExecutionSegmentSequence.Full

namespace FullSequence

open ExecutionSegmentSequenceWrapper

variable (seq : FullSequence)

abbrev size : ℕ := seq.segments.length

variable (i : Fin seq.size)

def segment : ExecutionSegment := seq.segments.get i

def cycle : ℕ := seq.lcd.toNat

def weight : ℕ :=
  ((seq.segment i).lengthRat.1 * seq.lcd.tdiv (seq.segment i).lengthRat.2).toNat

theorem size_pos : 0 < seq.size := by
  rw [length_pos_iff]
  intro h
  have := seq.full (0, 1) (by simp [ExecutionSegmentSequence.parts, h, seams])
  norm_num at this

instance : NeZero seq.size := ⟨seq.size_pos.ne'⟩

theorem cycle_cast : (seq.cycle : ℤ) = seq.lcd := Int.toNat_of_nonneg seq.lcd_spec.1.le

theorem cycle_pos : 0 < seq.cycle := by
  have := seq.cycle_cast
  have := seq.lcd_spec.1
  omega

theorem ticks_eq :
    (((seq.segment i).lengthRat.1 * seq.lcd.tdiv (seq.segment i).lengthRat.2 : ℤ) : ℚ) =
      (seq.segment i).fraction * seq.cycle := by
  rw [← Int.cast_natCast, seq.cycle_cast]
  exact seq.ticks_cast (get_mem _ _)

theorem ticks_pos : 0 < (seq.segment i).lengthRat.1 * seq.lcd.tdiv (seq.segment i).lengthRat.2 := by
  have h : (0 : ℚ) < (seq.segment i).fraction * seq.cycle :=
    mul_pos (seq.segment i).fraction_pos (Nat.cast_pos.2 seq.cycle_pos)
  rw [← seq.ticks_eq i] at h
  exact_mod_cast h

theorem weight_cast :
    (seq.weight i : ℤ) = (seq.segment i).lengthRat.1 * seq.lcd.tdiv (seq.segment i).lengthRat.2 :=
  Int.toNat_of_nonneg (seq.ticks_pos i).le

theorem weight_pos : 0 < seq.weight i := by
  have := seq.weight_cast i
  have := seq.ticks_pos i
  omega

theorem weight_eq : (seq.weight i : ℚ) = (seq.segment i).fraction * seq.cycle := by
  rw [← seq.ticks_eq i, ← seq.weight_cast i, Int.cast_natCast]

theorem sum_weight : ∑ i, seq.weight i = seq.cycle := by
  have hsum : ∑ i, (seq.segment i).fraction = 1 := by
    have h := sum_length_of_tight seq.full
    rw [ExecutionSegmentSequence.parts, List.map_map, sub_zero] at h
    rw [← h, ← sum_ofFn]
    congr 1
    conv_rhs => rw [← ofFn_get seq.segments, map_ofFn]
    rfl
  have : (∑ i, (seq.weight i : ℚ)) = seq.cycle := by
    simp only [weight_eq]
    rw [← Finset.sum_mul, hsum, one_mul]
  exact_mod_cast this

abbrev sorted : List (ℤ × ℕ) := items seq.toExecutionSegmentSequence

theorem mem_items {p : ℤ × ℕ} : p ∈ seq.sorted ↔ ∃ i :
    Fin seq.size, p = ((seq.weight i : ℤ), ↑i) := by
  rw [sorted, items, (perm_insertionSort _ _).mem_iff, mem_map]
  constructor
  · rintro ⟨⟨seg, i⟩, hmem, rfl⟩
    obtain ⟨hi, hseg⟩ := mem_zipIdx' hmem
    refine ⟨⟨i, hi⟩, ?_⟩
    rw [weight_cast, segment, get_eq_getElem, ← hseg]
  · rintro ⟨i, rfl⟩
    refine ⟨(seq.segment i, ↑i), ?_, by rw [weight_cast]⟩
    rw [mem_zipIdx_iff_getElem?]
    exact getElem?_eq_getElem i.2

theorem items_nodup : (seq.sorted.map Prod.snd).Nodup := by
  rw [sorted, items, ((perm_insertionSort _ _).map Prod.snd).nodup_iff, List.map_map]
  have : Prod.snd ∘ (fun p : ExecutionSegment × ℕ =>
      (p.1.lengthRat.1 * seq.lcd.tdiv p.1.lengthRat.2, p.2)) = Prod.snd := rfl
  rw [this, zipIdx_map_snd]
  exact nodup_range'

def start : StripeState :=
  { offsets := .replicate seq.size []
    prev := .replicate seq.size 0
    chosenCounts := .replicate seq.size 0 }

def run (g : ℕ) : StripeState :=
  (List.range g).foldl (stripe seq.sorted seq.lcd) seq.start

def owner (g : ℕ) : Fin seq.size :=
  let g := g % seq.cycle
  let sortedIndex := claimant seq.sorted seq.lcd g (seq.run g)
  Fin.ofNat seq.size (seq.sorted.getD (sortedIndex.getD 0) (0, 0)).2

def taken (idx g : ℕ) : ℕ := Nat.count (fun h => ↑(seq.owner h) = idx) g

theorem taken_eq_count (g : ℕ) : seq.taken i g = Nat.count (fun h => seq.owner h = i) g := by
  simp only [taken, Fin.val_inj]

theorem run_succ (g : ℕ) : seq.run (g + 1) = stripe seq.sorted seq.lcd (seq.run g) g := by
  rw [run, range_succ, foldl_append]
  rfl

theorem eligible_iff {lcd gi chosen denom : ℤ} (hlcd : 0 ≤ lcd) (hchosen : 0 ≤ chosen)
    (hdenom : 0 < denom) : eligible lcd gi chosen denom ↔ chosen * lcd ≤ gi * denom := by
  have hnum : 0 ≤ chosen * lcd := mul_nonneg hchosen hlcd
  have hdiv := Int.mul_ediv_add_emod (chosen * lcd) denom
  have hlt := Int.emod_lt_of_pos (chosen * lcd) hdenom
  have hge := Int.emod_nonneg (chosen * lcd) hdenom.ne'
  simp only [eligible, Int.tdiv_eq_ediv_of_nonneg hnum, Int.tmod_eq_emod_of_nonneg hnum,
    Bool.and_eq_true, Bool.or_eq_true, decide_eq_true_eq]
  set q := chosen * lcd / denom
  set r := chosen * lcd % denom
  constructor
  · rintro ⟨-, hgi | ⟨rfl, hr⟩⟩
    · nlinarith
    · linarith
  · intro h
    refine ⟨hdenom.ne', ?_⟩
    -- Below the quotient it is early, at it the remainder decides, and above it is not.
    rcases lt_trichotomy gi q with hlt' | rfl | hgt
    · nlinarith
    · exact .inr ⟨rfl, by linarith⟩
    · exact .inl hgt

theorem eligible_weight_iff (g : ℕ) : eligible seq.lcd g (seq.taken i g) (seq.weight i) ↔
      seq.taken i g * seq.cycle ≤ g * seq.weight i := by
  rw [eligible_iff seq.lcd_spec.1.le (Int.natCast_nonneg _) (by exact_mod_cast seq.weight_pos i),
    ← seq.cycle_cast]
  norm_cast

variable {g : ℕ} {i : Fin seq.size}

theorem claimant_eq
    (hc : (seq.run g).chosenCounts = seq.sorted.map fun p => (seq.taken p.2 g : ℤ)) :
    claimant seq.sorted seq.lcd g (seq.run g) =
      seq.sorted.findIdx? fun p => eligible seq.lcd g (seq.taken p.2 g) p.1 := by
  rw [claimant, hc, ← map_prod_right_eq_zip, findIdx?_map]
  rfl

theorem claimant_run (hg : g < seq.cycle) (hc : (seq.run g).chosenCounts =
      seq.sorted.map fun p => (seq.taken p.2 g : ℤ)) :
    ∃ j, claimant seq.sorted seq.lcd g (seq.run g) = some j ∧
      seq.sorted[j]? =
        some ((seq.weight (seq.owner g) : ℤ), ↑(seq.owner g)) ∧
      seq.taken (seq.owner g) g * seq.cycle ≤ g * seq.weight (seq.owner g) := by
  have hfind := seq.claimant_eq hc
  have hsum : ∑ i : Fin seq.size, seq.taken i g = g := by
    simp only [taken_eq_count]
    exact sum_count_owner seq.owner g
  -- Not everybody is ahead of its share, so that the search succeeds.
  obtain ⟨i, hi⟩ := exists_not_early seq.sum_weight hsum
  have hsome : (claimant seq.sorted seq.lcd g (seq.run g)).isSome := by
    rw [hfind, findIdx?_isSome, any_eq_true]
    exact ⟨_, seq.mem_items.2 ⟨i, rfl⟩, (seq.eligible_weight_iff i g).2 hi⟩
  obtain ⟨j, hj⟩ := Option.isSome_iff_exists.1 hsome
  obtain ⟨hlen, helig, -⟩ := findIdx?_eq_some_iff_getElem.1 (hfind ▸ hj)
  obtain ⟨i', hi'⟩ := seq.mem_items.1 (getElem_mem hlen)
  have howner : seq.owner g = i' := by
    rw [owner, Nat.mod_eq_of_lt hg, hj]
    simp [hlen, hi']
  rw [hi'] at helig
  exact ⟨j, hj, by rw [howner, getElem?_eq_getElem hlen, hi'],
    by rw [howner]; exact (seq.eligible_weight_iff i' g).1 helig⟩

theorem length_sorted : seq.sorted.length = seq.size := by
  rw [sorted, items, (perm_insertionSort _ _).length_eq, length_map, length_zipIdx]

theorem chosenCounts_run (hg : g ≤ seq.cycle) :
    (seq.run g).chosenCounts = seq.sorted.map fun p => (seq.taken p.2 g : ℤ) := by
  induction g with
  | zero =>
    change List.replicate _ _ = _
    simp [taken, length_sorted]
  | succ g ih =>
    have hc := ih (by omega)
    obtain ⟨j, hj, hitem, -⟩ := seq.claimant_run hg hc
    rw [run_succ, stripe, hj]
    dsimp only [claim]
    rw [hc]
    refine ext_getElem? fun k => ?_
    rw [getElem?_set, length_map, getElem?_map]
    by_cases hjk : j = k
    · subst hjk
      obtain ⟨hlen, hget⟩ := List.getElem?_eq_some_iff.1 hitem
      simp [hlen, hget, taken, Nat.count_succ]
    · -- The other segments have other indices, and take nothing.
      rw [if_neg hjk, getElem?_map]
      cases hk : seq.sorted[k]? with
      | none => rfl
      | some p =>
        have hne : ↑(seq.owner g) ≠ p.2 := by
          intro h
          obtain ⟨hlen, -⟩ := List.getElem?_eq_some_iff.1 hitem
          refine hjk ((getElem?_inj (by simpa using hlen) seq.items_nodup).1 ?_)
          rw [getElem?_map, getElem?_map, hitem, hk, Option.map_some, Option.map_some, h]
        simp [taken, Nat.count_succ, hne]

def striping : Striping (Fin seq.size) where
  cycle := seq.cycle
  weight := seq.weight
  owner := seq.owner
  weight_pos := seq.weight_pos
  sum_weight := seq.sum_weight
  periodic g := by simp only [owner, Nat.add_mod_right]
  not_early g hg := by
    obtain ⟨-, -, -, h⟩ := seq.claimant_run hg (seq.chosenCounts_run hg.le)
    rwa [taken_eq_count] at h

noncomputable def recorded (i : Fin seq.size) (c : ℕ) : List ℤ :=
  (List.range (if c = seq.weight i then c + 1 else c)).map (gap (seq.striping.Owns i))

noncomputable def lastTick (i : Fin seq.size) : ℕ → ℤ
  | 0 => 0
  | c + 1 => Nat.nth (seq.striping.Owns i) c

theorem sub_lastTick (hg : seq.owner g = i) :
    g - seq.lastTick i (Nat.count (seq.striping.Owns i) g) =
      gap (seq.striping.Owns i) (Nat.count (seq.striping.Owns i) g) := by
  have hnth : Nat.nth (seq.striping.Owns i) (Nat.count (seq.striping.Owns i) g) = g :=
    Nat.nth_count hg
  cases hc : Nat.count (seq.striping.Owns i) g with
  | zero => rw [lastTick, gap, ← hc, hnth, sub_zero]
  | succ c => rw [lastTick, gap, ← hc, hnth]

theorem count_lt_weight (hcyc : g < seq.cycle) (hg : seq.owner g = i) :
    Nat.count (seq.striping.Owns i) g < seq.weight i := by
  calc Nat.count (seq.striping.Owns i) g
    _ < Nat.count (seq.striping.Owns i) (g + 1) := by
      rw [Nat.count_succ_eq_succ_count hg]
      exact Nat.lt_succ_self _
    _ ≤ Nat.count (seq.striping.Owns i) seq.striping.cycle := Nat.count_monotone _ hcyc
    _ = seq.weight i := seq.striping.count_cycle i

theorem recorded_append (hcyc : g < seq.cycle) (hg : seq.owner g = i) :
    let c := Nat.count (seq.striping.Owns i) g
    seq.recorded i c ++ [g - seq.lastTick i c] =
      (List.range (c + 1)).map (gap (seq.striping.Owns i)) := by
  intro c
  have hlt : c < seq.weight i := seq.count_lt_weight hcyc hg
  rw [range_succ, map_append, map_singleton, ← seq.sub_lastTick hg, recorded,
    if_neg hlt.ne]

theorem recorded_succ (hcyc : g < seq.cycle) (hg : seq.owner g = i) :
    let c := Nat.count (seq.striping.Owns i) g
    let gaps := seq.recorded i c ++ [g - seq.lastTick i c]
    (if (gaps.length : ℤ) = seq.weight i then gaps ++ [gaps.headD 0 + seq.lcd - g] else gaps) =
      seq.recorded i (c + 1) := by
  intro c gaps
  have hgaps : gaps = (List.range (c + 1)).map (gap (seq.striping.Owns i)) :=
    seq.recorded_append hcyc hg
  have hlen : gaps.length = c + 1 := by rw [hgaps, length_map, length_range]
  rw [recorded, hlen]
  by_cases hw : c + 1 = seq.weight i
  · -- The first tick of the next cycle is that of this one, a cycle later.
    have hwrap : gap (seq.striping.Owns i) (c + 1) = gaps.headD 0 + seq.lcd - g := by
      have hnext := nth_add_count (seq.striping.owns_periodic i) (seq.striping.count_cycle_pos i) 0
      rw [seq.striping.count_cycle, Nat.zero_add] at hnext
      have hnth : Nat.nth (seq.striping.Owns i) c = g := Nat.nth_count hg
      have hhead : gaps.headD 0 = Nat.nth (seq.striping.Owns i) 0 := by
        rw [hgaps, range_succ_eq_map]
        rfl
      rw [gap, hnth, hhead, hw, show seq.weight i = seq.striping.weight i from rfl, hnext,
        ← seq.cycle_cast]
      push_cast
      rfl
    rw [if_pos (by exact_mod_cast hw), if_pos hw, range_succ, map_append, ← hgaps,
      map_singleton, hwrap]
  · rw [if_neg (by exact_mod_cast hw), if_neg hw, hgaps]

theorem offsets_run (hg : g ≤ seq.cycle) (i : Fin seq.size) :
    (seq.run g).offsets[i.1]? = some (seq.recorded i (Nat.count (seq.striping.Owns i) g)) ∧
      (seq.run g).prev[i.1]? = some (seq.lastTick i (Nat.count (seq.striping.Owns i) g)) := by
  induction g generalizing i with
  | zero =>
    have := (seq.weight_pos i).ne
    constructor <;> simp [run, start, recorded, lastTick, this]
  | succ g ih =>
    obtain ⟨j, hj, hitem, -⟩ := seq.claimant_run hg (seq.chosenCounts_run (by omega))
    rw [run_succ, stripe, hj]
    dsimp only [claim]
    rw [getD_eq_getElem?_getD (l := seq.sorted), hitem, Option.getD_some]
    rw [getElem?_set, getElem?_set]
    obtain ⟨hoff, hprev⟩ := ih (by omega) (seq.owner g)
    -- Only the lists of the owner of the tick change.
    by_cases howner : seq.owner g = i
    · subst howner
      have hown : seq.striping.Owns (seq.owner g) g := rfl
      rw [getD_eq_getElem?_getD, hoff, getD_eq_getElem?_getD, hprev, Option.getD_some,
        Option.getD_some, if_pos rfl, if_pos rfl, if_pos (List.getElem?_eq_some_iff.1 hoff).1,
        if_pos (List.getElem?_eq_some_iff.1 hprev).1,
        Nat.count_succ_eq_succ_count hown]
      refine ⟨congrArg some (seq.recorded_succ hg rfl), ?_⟩
      rw [lastTick, Nat.nth_count hown]
    · have hne : (seq.owner g).1 ≠ i.1 := fun h => howner (Fin.ext h)
      rw [if_neg hne, if_neg hne, Nat.count_succ_eq_count (p := seq.striping.Owns i) howner]
      exact ih (by omega) i

theorem getLast_mem_seams (x : ℚ) {l : List (ℚ × ℚ)} (hl : l ≠ []) :
    ((l.getLast hl).2, 1) ∈ seams x l := by
  induction l generalizing x with
  | nil => exact absurd rfl hl
  | cons s l ih =>
    cases l with
    | nil => simp [seams]
    | cons t l =>
      rw [getLast_cons (cons_ne_nil t l)]
      exact mem_cons_of_mem _ (ih s.2 _)

def wrapper : ExecutionSegmentSequenceWrapper :=
  { lcd := seq.lcd, offsets := (seq.run seq.cycle).offsets }

@[simp] theorem wrapper_lcd : seq.wrapper.lcd = seq.cycle := seq.cycle_cast.symm

theorem new_eq : new seq.toExecutionSegmentSequence = .ok seq.wrapper := by
  obtain ⟨first, segs, hsegs⟩ := exists_cons_of_length_pos seq.size_pos
  have hne : seq.segments ≠ [] := ne_nil_of_length_pos seq.size_pos
  set last := seq.segments.getLast hne with hlast
  have hfirst : first.fromNum = 0 := by
    have h : 0 = first.lo :=
      seq.full (0, first.lo) (by simp [ExecutionSegmentSequence.parts, hsegs, seams])
    have hden : (first.fromDen : ℚ) ≠ 0 := by exact_mod_cast first.fromDen_pos.ne'
    rw [ExecutionSegment.lo, eq_comm, div_eq_zero_iff, or_iff_left hden] at h
    exact_mod_cast h
  have hend : last.toNum = last.toDen := by
    have hparts : seq.parts ≠ [] := by simpa [ExecutionSegmentSequence.parts] using hne
    have h : last.hi = 1 := by
      have := seq.full _ (getLast_mem_seams 0 hparts)
      simpa [ExecutionSegmentSequence.parts, getLast_map] using this
    have hden : (last.toDen : ℚ) ≠ 0 := by exact_mod_cast last.toDen_pos.ne'
    rw [ExecutionSegment.hi, div_eq_one_iff_eq hden] at h
    exact_mod_cast h
  rw [new, hsegs, head?_cons, ← hsegs, getLast?_eq_some_getLast hne]
  dsimp only
  rw [if_pos ⟨hfirst, hend⟩]
  rfl

theorem segmentedIndex_wrapper (i : Fin seq.size) : seq.wrapper.segmentedIndex i = some
    { start := Nat.nth (seq.striping.Owns i) 0
      lcd := seq.lcd
      offsets := (List.range (seq.weight i)).map fun j => gap (seq.striping.Owns i) (j + 1)
      scaled := 0
      unscaled := 0 } := by
  have h := (seq.offsets_run le_rfl i).1
  have hcount : Nat.count (seq.striping.Owns i) seq.cycle = seq.weight i :=
    seq.striping.count_cycle i
  rw [hcount, recorded, if_pos rfl, range_succ_eq_map, map_cons, List.map_map] at h
  rw [segmentedIndex, getStripedOffsets, wrapper]
  simp only [h]
  rfl

end FullSequence

theorem ExecutionSegment.new_eq_ok {fromNum fromDen toNum toDen : ℤ} {seg : ExecutionSegment}
    (h : ExecutionSegment.new fromNum fromDen toNum toDen = .ok seg) :
    seg.fromNum = fromNum ∧ seg.fromDen = fromDen ∧ seg.toNum = toNum ∧ seg.toDen = toDen := by
  rw [new] at h
  split at h
  · cases h
  split at h
  · cases h
  split at h
  · cases h
  · cases h
    exact ⟨rfl, rfl, rfl, rfl⟩

theorem ExecutionSegmentSequenceWrapper.new_eq_ok {seq : ExecutionSegmentSequence}
    {w : ExecutionSegmentSequenceWrapper} (h : new seq = .ok w) :
    ∃ first last, seq.segments.head? = some first ∧ seq.segments.getLast? = some last ∧
      first.fromNum = 0 ∧ last.toNum = last.toDen := by
  rw [new] at h
  split at h
  next first last hfirst hlast =>
    split at h
    · exact ⟨first, last, hfirst, hlast, ‹_›⟩
    · cases h
  · cases h

namespace ExecutionSegmentSequence

theorem tight_of_parseFrom {prev : ℤ × ℤ} {toks : List Text} {segs : List ExecutionSegment}
    (h : parseFrom prev toks = .ok segs)
    (hend : (segs.getLast?.map ExecutionSegment.hi).getD (prev.1 / prev.2) = 1) :
    Tight (seams (prev.1 / prev.2) (segs.map fun s => (s.lo, s.hi))) := by
  induction toks generalizing prev segs with
  | nil =>
    cases h
    simpa [seams, Tight] using hend
  | cons tok toks ih =>
    simp only [parseFrom, bind_eq_ok] at h
    obtain ⟨cur, -, seg, hseg, segs', hsegs', h⟩ := h
    cases h
    obtain ⟨h₁, h₂, h₃, h₄⟩ := ExecutionSegment.new_eq_ok hseg
    have hhi : seg.hi = cur.1 / cur.2 := by rw [ExecutionSegment.hi, h₃, h₄]
    -- The next segment starts at the boundary where this one ends.
    have hrest : Tight (seams seg.hi (segs'.map fun s => (s.lo, s.hi))) := by
      rw [hhi]
      refine ih hsegs' ?_
      rw [← hend, getLast?_cons, Option.map_some, Option.getD_some, ← hhi, Option.getD_map]
    intro s hs
    rcases mem_cons.1 hs with rfl | hs
    · rw [← h₁, ← h₂]
      rfl
    · exact hrest s hs

theorem full_of_parse {sequence : String} {seq : ExecutionSegmentSequence}
    {w : ExecutionSegmentSequenceWrapper} (hseq : parse sequence = .ok seq)
    (hw : ExecutionSegmentSequenceWrapper.new seq = .ok w) : seq.Full := by
  obtain ⟨first, last, hfirst, hlast, hzero, hone⟩ := ExecutionSegmentSequenceWrapper.new_eq_ok hw
  simp only [parse, bind_eq_ok] at hseq
  obtain ⟨-, -, hseq⟩ := hseq
  split at hseq
  · cases hseq
  next tok toks htoks =>
    simp only [bind_eq_ok] at hseq
    obtain ⟨prev, -, segs, hsegs, hseq⟩ := hseq
    cases hseq
    have hden : (last.toDen : ℚ) ≠ 0 := by exact_mod_cast last.toDen_pos.ne'
    have htight := tight_of_parseFrom hsegs (by
      rw [hlast, Option.map_some, Option.getD_some, ExecutionSegment.hi, hone, div_self hden])
    -- The boundary before the segments is the lower bound of the first one, `0`.
    suffices (prev.1 / prev.2 : ℚ) = 0 by rwa [this] at htight
    cases toks with
    | nil =>
      cases hsegs
      cases hfirst
    | cons tok toks =>
      simp only [parseFrom, bind_eq_ok] at hsegs
      obtain ⟨cur, -, seg, hseg, segs', -, h⟩ := hsegs
      cases h
      cases hfirst
      rw [← (ExecutionSegment.new_eq_ok hseg).1, hzero, Int.cast_zero, zero_div]

end ExecutionSegmentSequence

end Tropel
