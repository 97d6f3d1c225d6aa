import Tropel.Core.Arrivals
import Tropel.Core.Overflow
import Tropel.Core.Sharing
import Tropel.Lib.Decimal

/-!
# The controller's split of the work

The controller sends every agent a segment of the work and its sequence (`segmentDispatch`), by
default equal parts.

* `segmentDispatch_roundRobin`: what the agents make of it.
-/

namespace Tropel

open Lib List Int Nat

def fractionText (i n : ℕ) : String := s!"{i}/{n}"

def segmentDispatch (display : ℚ → String) (executionSegmentSequence : Option String)
    (numAgents : ℕ) : Result TropelError (List String × Option String) :=
  if numAgents = 0 then configError "--agents must be >= 1"
  else match executionSegmentSequence with
  | some seq => do
    let bounds ← ExecutionSegment.parseSequence seq.toList
    -- Both are `u32`.
    if bounds.length % 2 ^ 32 ≠ (numAgents + 1) % 2 ^ 32 then
      configError (s!"execution_segment_sequence '{seq}' has {bounds.length} boundaries but " ++
        s!"--agents is {numAgents}")
    else
      let segs := (bounds.zip bounds.tail).map fun w => s!"{display w.1}:{display w.2}"
      return (segs, some seq)
  | none =>
    let seq := ",".intercalate ((List.range (numAgents + 1)).map (fractionText · numAgents))
    let segs := (List.range numAgents).map fun i =>
      s!"{fractionText i numAgents}:{fractionText (i + 1) numAgents}"
    return (segs, some seq)

/-! ## Reading the fractions -/

section

variable {n i : ℕ}

theorem toList_fractionText (i n : ℕ) :
    (fractionText i n).toList = Nat.toDigits 10 i ++ '/' :: Nat.toDigits 10 n := by
  simp [fractionText]
  rfl

theorem mem_fractionText {c : Char} (h : c ∈ (fractionText i n).toList) : c.isDigit ∨ c = '/' := by
  rw [toList_fractionText, mem_append, mem_cons] at h
  rcases h with h | h | h
  · exact .inl (isDigit_of_mem_toDigits h)
  · exact .inr h
  · exact .inl (isDigit_of_mem_toDigits h)

theorem trim_fractionText (i n : ℕ) :
    trim (fractionText i n).toList = (fractionText i n).toList := by
  refine trim_eq_self fun c hc => ?_
  rcases mem_fractionText hc with h | rfl
  · exact isWhitespace_of_isDigit h
  · rfl

def frac (n i : ℕ) : ℤ × ℤ := ((i / i.gcd n : ℕ), (n / i.gcd n : ℕ))

theorem frac_pos (hn : 0 < n) : 0 < (frac n i).2 :=
  natCast_pos.2 (div_pos (gcd_le_right i hn) (gcd_pos_of_pos_right i hn))

theorem frac_le (n i : ℕ) : (frac n i).2 ≤ n := Int.ofNat_le.2 (Nat.div_le_self n _)

theorem frac_mul (n i : ℕ) : (frac n i).1 * n = i * (frac n i).2 := by
  have hi : (i / i.gcd n : ℕ) * i.gcd n = i := Nat.div_mul_cancel (Nat.gcd_dvd_left i n)
  have hn : (n / i.gcd n : ℕ) * i.gcd n = n := Nat.div_mul_cancel (Nat.gcd_dvd_right i n)
  simp only [frac]
  norm_cast
  calc i / i.gcd n * n = i / i.gcd n * (n / i.gcd n * i.gcd n) := by rw [hn]
    _ = i / i.gcd n * i.gcd n * (n / i.gcd n) := by ring
    _ = i * (n / i.gcd n) := by rw [hi]

theorem frac_div (hn : 0 < n) : ((frac n i).1 / (frac n i).2 : ℚ) = i / n := by
  have h₁ : ((frac n i).2 : ℚ) ≠ 0 := by exact_mod_cast (frac_pos hn).ne'
  have h₂ : (n : ℚ) ≠ 0 := by exact_mod_cast hn.ne'
  rw [div_eq_div_iff h₁ h₂]
  exact_mod_cast frac_mul n i

theorem parseFraction_fractionText (hn : 0 < n) (hi : i ≤ n) (h : n < 2 ^ 63) :
    ExecutionSegment.parseFraction (fractionText i n).toList = .ok (frac n i) := by
  have hslash : '/' ∉ toDigits 10 i := fun hmem => by cases isDigit_of_mem_toDigits hmem
  have htrim : ∀ m, trim (toDigits 10 m) = toDigits 10 m := fun m =>
    trim_eq_self fun c hc => isWhitespace_of_isDigit (isDigit_of_mem_toDigits hc)
  have hpos : 0 < i.gcd n := gcd_pos_of_pos_right i hn
  rw [ExecutionSegment.parseFraction, ExecutionSegment.parseFractionIn, trim_fractionText,
    toList_fractionText]
  rw [if_neg (by simp), splitOnce_append hslash]
  refine bind_eq_ok.2 ⟨_, okOr_eq_ok.2 (by rw [htrim]; exact parseI64_toDigits (hi.trans_lt h)),
    bind_eq_ok.2 ⟨_, okOr_eq_ok.2 (by rw [htrim]; exact parseI64_toDigits h), ?_⟩⟩
  rw [if_neg (by omega)]
  have hgcd : gcd64 (E := TropelError) wrapped64 i n = .ok (i.gcd n : ℤ) := by
    rw [gcd64_of_nonneg _ (natCast_nonneg i) (natCast_nonneg n), Int.gcd_natCast_natCast]
    exact wrapped64_eq (natCast_nonneg _) (by exact_mod_cast (Nat.gcd_le_right i hn).trans_lt h)
  exact bind_eq_ok.2 ⟨_, hgcd,
    bind_eq_ok.2 ⟨_, div64_eq (natCast_pos.2 hpos),
    bind_eq_ok.2 ⟨_, div64_eq (natCast_pos.2 hpos), rfl⟩⟩⟩

/-! ## Reading the sequence -/

def sequenceText (n : ℕ) : String :=
  ",".intercalate ((List.range (n + 1)).map (fractionText · n))

theorem splitOn_sequenceText (n : ℕ) : ((sequenceText n).toList.splitOn ',').map trim =
    (List.range (n + 1)).map fun i => (fractionText i n).toList := by
  have hcomma : ∀ l ∈ (List.range (n + 1)).map fun i => (fractionText i n).toList, ',' ∉ l := by
    intro l hl hmem
    obtain ⟨i, -, rfl⟩ := mem_map.1 hl
    rcases mem_fractionText hmem with h | h
    · cases h
    · cases h
  have htext : (sequenceText n).toList =
      [','].intercalate ((List.range (n + 1)).map fun i => (fractionText i n).toList) := by
    rw [sequenceText, String.toList_intercalate, List.map_map]
    rfl
  rw [htext, splitOn_intercalate ',' hcomma (by simp), List.map_map]
  refine map_congr_left fun i _ => ?_
  rw [Function.comp_apply, trim_fractionText]

def equalBounds (n : ℕ) : List ℚ := (List.range (n + 1)).map fun i : ℕ => (i / n : ℚ)

theorem parseSequence_sequenceText (hn : 0 < n) (h : n < 2 ^ 63) :
    ExecutionSegment.parseSequence (sequenceText n).toList = .ok (equalBounds n) := by
  have hn' : (n : ℚ) ≠ 0 := by exact_mod_cast hn.ne'
  have hfractions : ((List.range (n + 1)).map fun i => (fractionText i n).toList).mapM
      ExecutionSegment.parseFraction = .ok ((List.range (n + 1)).map (frac n)) := by
    rw [mapM_map]
    refine mapM_eq_ok_map fun i hi => ?_
    have hle : i ≤ n := Nat.lt_succ_iff.1 (mem_range.1 hi)
    rw [Function.comp_apply, parseFraction_fractionText hn hle h]
  have hbounds : ((List.range (n + 1)).map (frac n)).map (fun p => (p.1 / p.2 : ℚ)) =
      equalBounds n := by
    rw [List.map_map]
    exact map_congr_left fun i _ => frac_div hn
  have hhead : (equalBounds n).headD 0 = 0 := by
    simp [equalBounds, range_succ_eq_map]
  have hlast : (equalBounds n).getLastD 0 = 1 := by
    simp [equalBounds, range_succ, hn']
  have hchain : (equalBounds n).IsChain (· < ·) := by
    refine List.Pairwise.isChain (pairwise_map.2 (pairwise_lt_range.imp fun hlt => ?_))
    exact div_lt_div_of_pos_right (by exact_mod_cast hlt) (by exact_mod_cast hn)
  rw [ExecutionSegment.parseSequence]
  dsimp only
  rw [splitOn_sequenceText, if_neg (by simpa using hn.ne')]
  refine bind_eq_ok.2 ⟨_, hfractions, ?_⟩
  rw [hbounds, hhead, hlast, if_neg (by norm_num [ExecutionSegment.tolerance]),
    if_neg (by norm_num [ExecutionSegment.tolerance]), if_neg (not_not.2 hchain)]

def IsSlice (n i : ℕ) (seg : ExecutionSegment) : Prop :=
  ExecutionSegment.new (frac n i).1 (frac n i).2 (frac n (i + 1)).1 (frac n (i + 1)).2 = .ok seg

theorem exists_slice (h : i < n) : ∃ seg, IsSlice n i seg := by
  have hn : 0 < n := by omega
  have h₁ := frac_pos (i := i) hn
  have h₂ := frac_pos (i := i + 1) hn
  have hnonneg : ∀ j, 0 ≤ (frac n j).1 := fun j => natCast_nonneg _
  have hle : ∀ j ≤ n, (frac n j).1 ≤ (frac n j).2 := fun j hj =>
    Int.ofNat_le.2 (Nat.div_le_div_right hj)
  have hlt : (frac n i).1 * (frac n (i + 1)).2 < (frac n (i + 1)).1 * (frac n i).2 := by
    have h₁' : (0 : ℚ) < (frac n i).2 := by exact_mod_cast h₁
    have h₂' : (0 : ℚ) < (frac n (i + 1)).2 := by exact_mod_cast h₂
    have hdiv : ((frac n i).1 / (frac n i).2 : ℚ) < (frac n (i + 1)).1 / (frac n (i + 1)).2 := by
      rw [frac_div hn, frac_div hn]
      exact div_lt_div_of_pos_right (by push_cast; linarith) (by exact_mod_cast hn)
    rw [div_lt_div_iff₀ h₁' h₂'] at hdiv
    exact_mod_cast hdiv
  have := hnonneg i
  have := hnonneg (i + 1)
  have := hle i h.le
  have := hle (i + 1) h
  simp only [IsSlice, ExecutionSegment.new]
  rw [dif_neg (by omega), dif_neg (by omega), dif_neg (by omega)]
  exact ⟨_, rfl⟩

namespace IsSlice

variable {seg : ExecutionSegment} (hseg : IsSlice n i seg) (hn : 0 < n)
include hseg hn

theorem lo_eq : seg.lo = i / n := by
  obtain ⟨h₁, h₂, -, -⟩ := ExecutionSegment.new_eq_ok hseg
  rw [ExecutionSegment.lo, h₁, h₂, frac_div hn]

theorem hi_eq : seg.hi = (i + 1) / n := by
  obtain ⟨-, -, h₃, h₄⟩ := ExecutionSegment.new_eq_ok hseg
  rw [ExecutionSegment.hi, h₃, h₄, frac_div hn]
  push_cast
  rfl

theorem fraction_eq : seg.fraction = 1 / n := by
  rw [ExecutionSegment.fraction, hseg.lo_eq hn, hseg.hi_eq hn]
  ring

omit hn in
theorem den_mul_le : seg.toDen * seg.fromDen ≤ n * n := by
  obtain ⟨-, h₂, -, h₄⟩ := ExecutionSegment.new_eq_ok hseg
  rw [h₂, h₄]
  exact mul_le_mul (frac_le n _) (frac_le n i) (natCast_nonneg _) (natCast_nonneg n)

theorem lengthRat_eq : seg.lengthRat = (1, (n : ℤ)) := by
  have h₁ := seg.fromDen_pos
  have h₂ := seg.toDen_pos
  have hnum : 0 < seg.toNum * seg.fromDen - seg.fromNum * seg.toDen := sub_pos.2 seg.from_lt_to
  have hfrac := hseg.fraction_eq hn
  have hden : seg.toDen * seg.fromDen =
      n * (seg.toNum * seg.fromDen - seg.fromNum * seg.toDen) := by
    rw [ExecutionSegment.fraction, ExecutionSegment.hi, ExecutionSegment.lo] at hfrac
    field_simp at hfrac
    have hfrac' : (n * (seg.toNum * seg.fromDen - seg.fromNum * seg.toDen) : ℚ) =
        seg.toDen * seg.fromDen := by linear_combination hfrac
    exact_mod_cast hfrac'.symm
  rw [ExecutionSegment.lengthRat, ExecutionSegment.gcd_eq, hden]
  set num := seg.toNum * seg.fromDen - seg.fromNum * seg.toDen
  have hgcd : (Int.gcd num (n * num) : ℤ) = num := by
    rw [Int.gcd_mul_left_right, Int.natCast_natAbs, abs_of_pos hnum]
  rw [hgcd, Int.tdiv_self hnum.ne', Int.mul_tdiv_cancel _ hnum.ne']

end IsSlice

/-! ## Finding a segment in the sequence -/

theorem abs_sub_lt_tolerance_iff (hn : 0 < n) (hlt : n < 10 ^ 9) (i j : ℕ) :
    |(j / n - i / n : ℚ)| < ExecutionSegment.tolerance ↔ j = i := by
  constructor
  · intro h
    have hn' : (0 : ℚ) < n := by exact_mod_cast hn
    have hlt' : (n : ℚ) < 10 ^ 9 := by exact_mod_cast hlt
    rw [← sub_div, abs_div, abs_of_pos hn', div_lt_iff₀ hn', ExecutionSegment.tolerance] at h
    have hone : |((j : ℤ) - i : ℤ)| < 1 := by
      have : (|((j : ℤ) - i : ℤ)| : ℚ) < 1 := by
        push_cast
        calc |(j - i : ℚ)| < 1 / 10 ^ 9 * n := h
          _ < 1 := by linarith
      exact_mod_cast this
    rw [abs_lt_one_iff] at hone
    omega
  · rintro rfl
    rw [sub_self, abs_zero, ExecutionSegment.tolerance]
    norm_num

theorem findIdx?_equalBounds (hn : 0 < n) (hlt : n < 10 ^ 9) (hi : i ≤ n) :
    ((equalBounds n).findIdx? fun b => |b - (i / n : ℚ)| < ExecutionSegment.tolerance) =
      some i := by
  rw [findIdx?_eq_some_iff_getElem]
  refine ⟨by simpa [equalBounds] using hi, ?_, fun j hj => ?_⟩
  · simpa [equalBounds] using (abs_sub_lt_tolerance_iff hn hlt i i).2 rfl
  · simpa [equalBounds] using mt (abs_sub_lt_tolerance_iff hn hlt i j).1 hj.ne

variable {seg : ExecutionSegment}

theorem parse_fractionText (display : ℚ → String) (hlt : n < 10 ^ 9) (hi : i < n)
    (hseg : IsSlice n i seg) :
    ExecutionSegment.parse display s!"{fractionText i n}:{fractionText (i + 1) n}"
      (some (sequenceText n)) = .ok seg := by
  have hn : 0 < n := by omega
  have h : n < 2 ^ 63 := hlt.trans (by norm_num)
  have hcolon : ':' ∉ (fractionText i n).toList := by
    intro hmem
    rcases mem_fractionText hmem with h | h
    · cases h
    · cases h
  have htext : (s!"{fractionText i n}:{fractionText (i + 1) n}").toList =
      (fractionText i n).toList ++ ':' :: (fractionText (i + 1) n).toList := by
    simp
    rfl
  have hlo : ((equalBounds n).findIdx? fun b => |b - seg.lo| < ExecutionSegment.tolerance) =
      some i := by
    rw [hseg.lo_eq hn]
    exact findIdx?_equalBounds hn hlt hi.le
  have hhi : ((equalBounds n).findIdx? fun b => |b - seg.hi| < ExecutionSegment.tolerance) =
      some (i + 1) := by
    rw [hseg.hi_eq hn]
    exact_mod_cast findIdx?_equalBounds hn hlt (succ_le_iff.2 hi)
  rw [ExecutionSegment.parse, htext, splitOnce_append hcolon]
  refine bind_eq_ok.2 ⟨_, parseFraction_fractionText hn hi.le h,
    bind_eq_ok.2 ⟨_, parseFraction_fractionText hn hi h,
    bind_eq_ok.2 ⟨_, hseg, bind_eq_ok.2 ⟨_, parseSequence_sequenceText hn h, ?_⟩⟩⟩⟩
  rw [hlo, hhi]
  exact if_pos rfl

structure Slices (n : ℕ) (segs : List ExecutionSegment) : Prop where
  length_eq : segs.length = n
  slice : ∀ (i : ℕ) (hi : i < segs.length), IsSlice n i segs[i]

theorem exists_parseFrom (hn : 0 < n) (h : n < 2 ^ 63) (k : ℕ) (hk : i + k ≤ n) :
    ∃ segs, ExecutionSegmentSequence.parseFrom (frac n i)
        ((List.range' (i + 1) k).map fun j => (fractionText j n).toList) = .ok segs ∧
      segs.length = k ∧ ∀ (j : ℕ) (hj : j < segs.length), IsSlice n (i + j) segs[j] := by
  induction k generalizing i with
  | zero => exact ⟨[], rfl, rfl, by simp⟩
  | succ k ih =>
    obtain ⟨seg, hseg⟩ := exists_slice (show i < n by omega)
    obtain ⟨segs, hparse, hlen, hslice⟩ := ih (i := i + 1) (by omega)
    refine ⟨seg :: segs, ?_, by rw [length_cons, hlen], fun j hj => ?_⟩
    · rw [range'_succ, map_cons]
      exact bind_eq_ok.2 ⟨_, parseFraction_fractionText hn (by omega) h,
        bind_eq_ok.2 ⟨_, hseg, bind_eq_ok.2 ⟨_, hparse, rfl⟩⟩⟩
    · cases j with
      | zero => exact hseg
      | succ j =>
        have := hslice j (by simpa using hj)
        rwa [add_assoc, add_comm 1] at this

theorem exists_parse_sequenceText (hn : 0 < n) (h : n < 2 ^ 63) :
    ∃ segs, ExecutionSegmentSequence.parse (sequenceText n) = .ok ⟨segs⟩ ∧ Slices n segs := by
  obtain ⟨segs, hparse, hlen, hslice⟩ := exists_parseFrom (i := 0) hn h n (by omega)
  refine ⟨segs, ?_, hlen, fun j hj => by simpa using hslice j hj⟩
  rw [ExecutionSegmentSequence.parse]
  refine bind_eq_ok.2 ⟨_, parseSequence_sequenceText hn h, ?_⟩
  rw [splitOn_sequenceText, range_eq_range', range'_succ, map_cons]
  exact bind_eq_ok.2 ⟨_, parseFraction_fractionText hn (zero_le n) h,
    bind_eq_ok.2 ⟨_, hparse, rfl⟩⟩

namespace Slices

variable {segs : List ExecutionSegment} (hsegs : Slices n segs) (hn : 0 < n)
include hsegs hn

theorem indexOf_eq (hlt : n < 10 ^ 9) (hi : i < n) (hseg : IsSlice n i seg) :
    (ExecutionSegmentSequence.mk segs).indexOf seg = some i := by
  rw [ExecutionSegmentSequence.indexOf, findIdx?_eq_some_iff_getElem]
  have hlo : ∀ (j : ℕ) (hj : j < segs.length), |segs[j].lo - seg.lo| < ExecutionSegment.tolerance ↔
      j = i :=
    fun j hj => by
      rw [(hsegs.slice j hj).lo_eq hn, hseg.lo_eq hn]
      exact abs_sub_lt_tolerance_iff hn hlt i j
  have hhi : ∀ (j : ℕ) (hj : j < segs.length), |segs[j].hi - seg.hi| < ExecutionSegment.tolerance ↔
      j = i :=
    fun j hj => by
      rw [(hsegs.slice j hj).hi_eq hn, hseg.hi_eq hn]
      have := abs_sub_lt_tolerance_iff hn hlt (i + 1) (j + 1)
      push_cast at this
      rw [this]
  have hi' : i < segs.length := hsegs.length_eq.symm ▸ hi
  refine ⟨hi', ?_, fun j hj => ?_⟩
  · rw [Bool.and_eq_true, decide_eq_true_iff, decide_eq_true_iff]
    exact ⟨(hlo i hi').2 rfl, (hhi i hi').2 rfl⟩
  · rw [Bool.and_eq_true, decide_eq_true_iff, hlo j (hj.trans hi')]
    exact fun h => hj.ne h.1

omit hsegs in
theorem tight_of_slice {l : List ExecutionSegment} (hlen : i + l.length = n)
    (hl : ∀ (j : ℕ) (hj : j < l.length), IsSlice n (i + j) l[j]) :
    Tight (seams (i / n) (l.map fun s => (s.lo, s.hi))) := by
  have hn' : (n : ℚ) ≠ 0 := by exact_mod_cast hn.ne'
  induction l generalizing i with
  | nil =>
    obtain rfl : i = n := by simpa using hlen
    simp [seams, Tight, hn']
  | cons seg l ih =>
    have hseg : IsSlice n i seg := hl 0 (by simp)
    have hrest : Tight (seams ((i + 1 : ℕ) / n) (l.map fun s => (s.lo, s.hi))) := by
      refine ih (by rw [length_cons] at hlen; omega) fun j hj => ?_
      have := hl (j + 1) (by simpa using hj)
      rwa [show i + (j + 1) = i + 1 + j by omega] at this
    intro s hs
    rw [map_cons, seams, mem_cons] at hs
    rcases hs with rfl | hs
    · exact (hseg.lo_eq hn).symm
    · refine hrest s ?_
      rw [hseg.hi_eq hn] at hs
      exact_mod_cast hs

theorem full : (ExecutionSegmentSequence.mk segs).Full := by
  have h := tight_of_slice (i := 0) hn (by rw [Nat.zero_add, hsegs.length_eq])
    fun j hj => by simpa using hsegs.slice j hj
  rwa [Nat.cast_zero, zero_div] at h

omit hsegs hn in
theorem foldl_lcdStep_eq {l : List ℤ} (h : ∀ m ∈ l, m = n) :
    l.foldl ExecutionSegmentSequence.lcdStep n = n := by
  induction l with
  | nil => rfl
  | cons m l ih =>
    obtain ⟨rfl, hl⟩ := forall_mem_cons.1 h
    rw [foldl_cons, ExecutionSegmentSequence.lcdStep, if_pos (.inl rfl)]
    exact ih hl

theorem lengthRat_eq (hseg : seg ∈ segs) : seg.lengthRat = (1, (n : ℤ)) := by
  obtain ⟨i, hi, rfl⟩ := getElem_of_mem hseg
  exact (hsegs.slice i hi).lengthRat_eq hn

theorem lcd_eq : (ExecutionSegmentSequence.mk segs).lcd = n := by
  obtain ⟨seg, rest, rfl⟩ := exists_cons_of_length_pos (hsegs.length_eq.symm ▸ hn)
  rw [ExecutionSegmentSequence.lcd]
  dsimp only
  rw [hsegs.lengthRat_eq hn mem_cons_self]
  refine foldl_lcdStep_eq fun m hm => ?_
  obtain ⟨s, hs, rfl⟩ := mem_map.1 hm
  rw [hsegs.lengthRat_eq hn (mem_cons_of_mem _ hs)]

theorem items_eq : ExecutionSegmentSequenceWrapper.items ⟨segs⟩ = (List.range n).map fun i =>
    (1, i) := by
  have hmap : (segs.zipIdx.map fun p => (p.1.lengthRat.1 *
      (ExecutionSegmentSequence.mk segs).lcd.tdiv p.1.lengthRat.2, p.2)) =
      (List.range n).map fun i => ((1 : ℤ), i) := by
    have hitem : ∀ p ∈ segs.zipIdx, (p.1.lengthRat.1 *
        (ExecutionSegmentSequence.mk segs).lcd.tdiv p.1.lengthRat.2, p.2) = ((1 : ℤ), p.2) := by
      intro p hp
      have hmem : p.1 ∈ segs := (mem_zipIdx' hp).2 ▸ getElem_mem _
      rw [hsegs.lcd_eq hn, hsegs.lengthRat_eq hn hmem, one_mul, Int.tdiv_self (by omega)]
    rw [map_congr_left hitem, ← hsegs.length_eq, range_eq_range',
      ← zipIdx_map_snd 0 segs, List.map_map]
    rfl
  rw [ExecutionSegmentSequenceWrapper.items]
  rw [hmap]
  exact List.Pairwise.insertionSort_eq (pairwise_map.2 (pairwise_lt_range.imp fun _ => le_rfl))

end Slices

def Slices.toFull {segs : List ExecutionSegment} (hsegs : Slices n segs)
    (hn : 0 < n) : FullSequence :=
  ⟨⟨segs⟩, hsegs.full hn⟩

/-! ## Taking turns -/

namespace Slices

variable {segs : List ExecutionSegment} (hsegs : Slices n segs) (hn : 0 < n)

theorem cycle_eq : (hsegs.toFull hn).cycle = n := by
  rw [FullSequence.cycle, show (hsegs.toFull hn).lcd = n from hsegs.lcd_eq hn, toNat_natCast]

theorem sorted_eq : (hsegs.toFull hn).sorted = (List.range n).map fun i => (1, i) :=
  hsegs.items_eq hn

theorem taken_eq {g : ℕ} (howner : ∀ h < g, ((hsegs.toFull hn).owner h : ℕ) = h) (idx : ℕ) :
    (hsegs.toFull hn).taken idx g = if idx < g then 1 else 0 := by
  induction g with
  | zero => rfl
  | succ g ih =>
    have hg := howner g (lt_succ_self g)
    rw [FullSequence.taken, count_succ, ← FullSequence.taken,
      ih fun h hh => howner h (hh.trans (lt_succ_self g)), hg]
    split_ifs <;> omega

theorem owner_eq {g : ℕ} (hg : g < n) : ((hsegs.toFull hn).owner g : ℕ) = g := by
  induction g using Nat.strong_induction_on with
  | h g ih =>
    set seq := hsegs.toFull hn with hseq
    have htaken := hsegs.taken_eq hn fun h hh => ih h hh (hh.trans hg)
    have hlcd : seq.lcd = n := hsegs.lcd_eq hn
    have heligible : ∀ idx < n, (ExecutionSegmentSequenceWrapper.eligible seq.lcd g
        (seq.taken idx g) 1 ↔ ¬ idx < g) := by
      intro idx hidx
      rw [FullSequence.eligible_iff (by omega) (natCast_nonneg _) one_pos, hlcd, htaken idx]
      split_ifs <;> omega
    have hclaim : ExecutionSegmentSequenceWrapper.claimant seq.sorted seq.lcd g (seq.run g) =
        some g := by
      rw [seq.claimant_eq (seq.chosenCounts_run (by rw [hsegs.cycle_eq hn]; exact hg.le)),
        hsegs.sorted_eq hn, findIdx?_eq_some_iff_getElem]
      refine ⟨by simpa using hg, ?_, fun j hj => ?_⟩
      · simpa using (heligible g hg).2 (lt_irrefl g)
      · simpa using mt (heligible j (hj.trans hg)).1 (not_not.2 hj)
    have hsize : seq.size = n := hsegs.length_eq
    rw [FullSequence.owner, hsegs.cycle_eq hn, mod_eq_of_lt hg, hclaim, hsegs.sorted_eq hn]
    simp [hg, hsize, mod_eq_of_lt]

theorem owner_eq_mod (g : ℕ) : ((hsegs.toFull hn).owner g : ℕ) = g % n := by
  have hmod : (hsegs.toFull hn).owner g = (hsegs.toFull hn).owner (g % n) := by
    simp only [FullSequence.owner, hsegs.cycle_eq hn, mod_mod]
  rw [hmod, hsegs.owner_eq hn (mod_lt g hn)]

theorem owns_iff {i : ℕ} (hi : i < n) (g : ℕ) : (hsegs.toFull hn).wrapper.Owns i (g + 1) ↔
    g % n = i := by
  have hi' : i < (hsegs.toFull hn).size := hsegs.length_eq.symm ▸ hi
  rw [← hsegs.owner_eq_mod hn g]
  exact ((hsegs.toFull hn).owns_wrapper_iff ⟨i, hi'⟩ g).trans Fin.ext_iff

include hsegs hn

theorem scaleVus_bounds (hseg : seg ∈ segs) {m : ℕ} (hm : m < 2 ^ 32) :
    ⌊(m / n : ℚ)⌋ ≤ seg.scaleVus m ∧ (seg.scaleVus m : ℤ) ≤ ⌊(m / n : ℚ)⌋ + 1 := by
  obtain ⟨i, hi, rfl⟩ := getElem_of_mem hseg
  have hslice := hsegs.slice i hi
  have hhi : (m * segs[i].hi : ℚ) = m * segs[i].lo + m / n := by
    rw [hslice.lo_eq hn, hslice.hi_eq hn]
    ring
  rw [ExecutionSegment.scaleVus, ExecutionSegment.scale_eq_share _ hm, share, hhi]
  have h₁ := le_floor_add (m * segs[i].lo : ℚ) (m / n)
  have h₂ := le_floor_add_floor (m * segs[i].lo : ℚ) (m / n)
  omega

end Slices

/-- With fewer than `10 ^ 9` agents, what the controller sends is parsed, every agent finds its
    segment in its place, striping does not overflow, the agents take turns, and their shares of any
    number of users add up and differ by one at most. -/
theorem segmentDispatch_roundRobin (display : ℚ → String) (hn : 1 ≤ n) (hlt : n < 10 ^ 9) :
    ∃ specs sequence seq w nodes,
      segmentDispatch display none n = .ok (specs, some sequence) ∧
      ExecutionSegmentSequence.parse sequence = .ok seq ∧
      ExecutionSegmentSequenceWrapper.newChecked seq = .ok w ∧
      ExecutionSegmentSequenceWrapper.new seq = .ok w ∧
      specs.mapM (ExecutionSegment.parse display · (some sequence)) = .ok nodes ∧ nodes.length = n ∧
      (∀ i seg, nodes[i]? = some seg →
        seq.indexOf seg = some i ∧ ∀ g, w.Owns i (g + 1) ↔ g % n = i) ∧
      ∀ m < 2 ^ 32, (nodes.map (·.scaleVus m)).sum = m ∧
        ∀ a ∈ nodes, ∀ b ∈ nodes, a.scaleVus m ≤ b.scaleVus m + 1 := by
  obtain ⟨segs, hparse, hsegs⟩ := exists_parse_sequenceText hn (hlt.trans (by norm_num))
  have hsq : n * n < 2 ^ 63 := by nlinarith
  have hden : ∀ seg ∈ segs, seg.toDen * seg.fromDen < 2 ^ 63 := by
    intro seg hseg
    obtain ⟨i, hi, rfl⟩ := getElem_of_mem hseg
    exact (hsegs.slice i hi).den_mul_le.trans_lt (by exact_mod_cast hsq)
  have hlcd : (hsegs.toFull hn).lcd * (hsegs.toFull hn).lcd < 2 ^ 63 := by
    rw [show (hsegs.toFull hn).lcd = n from hsegs.lcd_eq hn]
    exact_mod_cast hsq
  have hspecs : ((List.range n).map fun i => s!"{fractionText i n}:{fractionText (i + 1) n}").mapM
      (ExecutionSegment.parse display · (some (sequenceText n))) = .ok segs := by
    refine mapM_eq_ok_of_forall₂ (forall₂_map_left_iff.2 (forall₂_iff_get.2 ⟨?_, ?_⟩))
    · rw [length_range, hsegs.length_eq]
    · intro i hi hi'
      rw [get_eq_getElem, getElem_range, get_eq_getElem]
      exact parse_fractionText display hlt (by simpa using hi) (hsegs.slice i hi')
  refine ⟨_, sequenceText n, ⟨segs⟩, (hsegs.toFull hn).wrapper, segs, ?_, hparse,
    (hsegs.toFull hn).newChecked_eq hden hlcd, (hsegs.toFull hn).new_eq, hspecs, hsegs.length_eq,
      ?_, ?_⟩
  · rw [segmentDispatch, if_neg (by omega)]
    rfl
  · intro i seg hseg
    obtain ⟨hi, rfl⟩ := List.getElem?_eq_some_iff.1 hseg
    have hi' : i < n := hsegs.length_eq ▸ hi
    exact ⟨hsegs.indexOf_eq hn hlt hi' (hsegs.slice i hi), hsegs.owns_iff hn hi'⟩
  · intro m hm
    refine ⟨(hsegs.toFull hn).sum_scale hm, fun a ha b hb => ?_⟩
    have h₁ := hsegs.scaleVus_bounds hn ha hm
    have h₂ := hsegs.scaleVus_bounds hn hb hm
    omega

theorem segmentDispatch_roundRobin_three : ∃ nodes, ["0/3:1/3", "1/3:2/3", "2/3:3/3"].mapM
      (ExecutionSegment.parse (fun _ => "") · (some "0/3,1/3,2/3,3/3")) = .ok nodes ∧
        nodes.length = 3 ∧
      ∀ m < 2 ^ 32, (nodes.map (·.scaleVus m)).sum = m := by
  obtain ⟨specs, sequence, -, -, nodes, hdispatch, -, -, -, hnodes, hlen, -, hshares⟩ :=
    segmentDispatch_roundRobin (n := 3) (fun _ => "") (by decide) (by decide)
  have hvalue : segmentDispatch (fun _ => "") none 3 =
      .ok (["0/3:1/3", "1/3:2/3", "2/3:3/3"], some "0/3,1/3,2/3,3/3") := by decide +kernel
  rw [hvalue] at hdispatch
  cases hdispatch
  exact ⟨nodes, hnodes, hlen, fun m hm => (hshares m hm).1⟩

end

end Tropel
