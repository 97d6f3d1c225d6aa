import Tropel.Core.Striping

/-!
# Striping without overflow

The cycle and the stripes of a sequence are computed in `i64`.

* `checked_iff_inRange`: when nothing overflows.
-/

namespace Tropel

open Lib List Option Int Nat Except

/-! ## With overflow checks -/

namespace ExecutionSegment

def lengthRatChecked (seg : ExecutionSegment) : Result TropelError (ℤ × ℤ) := do
  let upper ← checked64 (seg.toNum * seg.fromDen)
  let lower ← checked64 (seg.fromNum * seg.toDen)
  let num ← checked64 (upper - lower)
  let den ← checked64 (seg.toDen * seg.fromDen)
  let g ← gcd64 checked64 num den
  return (← div64 num g, ← div64 den g)

end ExecutionSegment

namespace ExecutionSegmentSequence

def lcdStepChecked (acc n : ℤ) : Result TropelError ℤ := do
  if acc = n then return acc
  let r ← rem64 acc n
  if r = 0 then return acc
  let g ← gcd64 checked64 acc n
  let q ← div64 n g
  checked64 (acc * q)

def lcdChecked (seq : ExecutionSegmentSequence) : Result TropelError ℤ :=
  match seq.segments with
  | [] => .error .panic
  | seg :: segs => do
    let first ← seg.lengthRatChecked
    segs.foldlM (fun acc s => do
      let n ← s.lengthRatChecked
      lcdStepChecked acc n.2) first.2

end ExecutionSegmentSequence

namespace ExecutionSegmentSequenceWrapper

def itemChecked (lcd : ℤ) (p : ExecutionSegment × ℕ) : Result TropelError (ℤ × ℕ) := do
  let len ← p.1.lengthRatChecked
  let q ← div64 lcd len.2
  return (← checked64 (len.1 * q), p.2)

def claimantChecked (lcd gi : ℤ) : List (ℤ × ℤ × ℕ) → Result TropelError (Option ℕ)
  | [] => return none
  | (chosen, denom, _) :: rest => do
    let num ← checked64 (chosen * lcd)
    if denom = 0 then return (← claimantChecked lcd gi rest).map (· + 1)
    let q ← div64 num denom
    let r ← rem64 num denom
    if gi > q ∨ (gi = q ∧ r = 0) then return some 0
    return (← claimantChecked lcd gi rest).map (· + 1)

def claimChecked (items : List (ℤ × ℕ)) (lcd gi : ℤ) (st : StripeState) (sortedIndex : ℕ) :
    Result TropelError StripeState := do
  let (denom, idx) := items.getD sortedIndex (0, 0)
  let count ← checked64 (st.chosenCounts.getD sortedIndex 0 + 1)
  let gap ← checked64 (gi - st.prev.getD idx 0)
  let gaps := st.offsets.getD idx [] ++ [gap]
  let gaps ← if (gaps.length : ℤ) = denom then do
      let next ← checked64 (gaps.headD 0 + lcd)
      let wrap ← checked64 (next - gi)
      pure (gaps ++ [wrap])
    else pure gaps
  return {
    offsets := st.offsets.set idx gaps
    prev := st.prev.set idx gi
    chosenCounts := st.chosenCounts.set sortedIndex count }

def stripeChecked (items : List (ℤ × ℕ)) (lcd : ℤ) (st : StripeState)
    (gi : ℕ) : Result TropelError StripeState := do
  match ← claimantChecked lcd gi (st.chosenCounts.zip items) with
  | none => return st
  | some sortedIndex => claimChecked items lcd gi st sortedIndex

def newChecked
    (seq : ExecutionSegmentSequence) : Result TropelError ExecutionSegmentSequenceWrapper :=
  match seq.segments.head?, seq.segments.getLast? with
  | some first, some last =>
    if first.fromNum = 0 ∧ last.toNum = last.toDen then do
      let n := seq.segments.length
      let lcd ← seq.lcdChecked
      let items ← seq.segments.zipIdx.mapM (itemChecked lcd)
      let items := items.insertionSort fun a b => b.1 ≤ a.1
      let init : StripeState :=
        { offsets := .replicate n [], prev := .replicate n 0, chosenCounts := .replicate n 0 }
      let st ← (List.range lcd.toNat).foldlM (stripeChecked items lcd) init
      return { lcd, offsets := st.offsets }
    else configError "striped-offset sequence must be full (start at 0, end at 1)"
  | _, _ => configError "cannot build striped offsets from an empty segment sequence"

end ExecutionSegmentSequenceWrapper

/-! ## Lengths and cycles -/

namespace ExecutionSegment

variable {a b : ℤ}

theorem gcd64_checked (ha : 0 ≤ a) (hb : 0 < b) (hlt : b < 2 ^ 63) :
    gcd64 (E := TropelError) checked64 a b = .ok (gcd a b) := by
  rw [gcd64_of_nonneg _ ha hb.le, gcd_eq]
  exact checked64_eq (natCast_nonneg _) (gcd_lt_of_pos a hb hlt)

theorem gcd_pos (hb : 0 < b) : 0 < gcd a b := by
  rw [gcd_eq]
  exact_mod_cast gcd_pos_of_ne_zero_right a hb.ne'

theorem lengthRatChecked_eq {seg : ExecutionSegment} (h : seg.toDen * seg.fromDen < 2 ^ 63) :
    seg.lengthRatChecked = .ok seg.lengthRat := by
  have h₁ := seg.fromDen_pos
  have h₂ := seg.toDen_pos
  have h₃ := seg.from_lt_to
  have h₄ : 0 ≤ seg.fromNum * seg.toDen := mul_nonneg seg.fromNum_nonneg h₂.le
  have h₅ : seg.toNum * seg.fromDen ≤ seg.toDen * seg.fromDen :=
    mul_le_mul_of_nonneg_right seg.to_le_one h₁.le
  have hden : 0 < seg.toDen * seg.fromDen := mul_pos h₂ h₁
  have hgcd := gcd64_checked (show 0 ≤ seg.toNum * seg.fromDen - seg.fromNum * seg.toDen by omega)
    hden h
  have hpos := gcd_pos (a := seg.toNum * seg.fromDen - seg.fromNum * seg.toDen) hden
  exact bind_eq_ok.2 ⟨_, checked64_eq (by omega) (by omega),
    bind_eq_ok.2 ⟨_, checked64_eq h₄ (by omega),
    bind_eq_ok.2 ⟨_, checked64_eq (by omega) (by omega),
    bind_eq_ok.2 ⟨_, checked64_eq hden.le h,
    bind_eq_ok.2 ⟨_, hgcd,
    bind_eq_ok.2 ⟨_, div64_eq hpos,
    bind_eq_ok.2 ⟨_, div64_eq hpos, rfl⟩⟩⟩⟩⟩⟩⟩

end ExecutionSegment

namespace ExecutionSegmentSequence

theorem lcdStepChecked_eq {acc n : ℤ} (ha : 0 < acc) (ha' : acc < 2 ^ 63) (hn : 0 < n)
    (hn' : n < 2 ^ 63) (h : lcdStep acc n < 2 ^ 63) :
    lcdStepChecked acc n = .ok (lcdStep acc n) := by
  rw [lcdStepChecked]
  split
  next heq => rw [lcdStep, if_pos (.inl heq)]; rfl
  next hne =>
    refine bind_eq_ok.2 ⟨_, rem64_eq hn, ?_⟩
    split
    next hrem => rw [lcdStep, if_pos (.inr hrem)]; rfl
    next hrem =>
      have hstep : lcdStep acc n = acc * n.tdiv (ExecutionSegment.gcd acc n) := by
        rw [lcdStep, if_neg (by tauto)]
      refine bind_eq_ok.2 ⟨_, ExecutionSegment.gcd64_checked ha.le hn hn', bind_eq_ok.2
        ⟨_, div64_eq (ExecutionSegment.gcd_pos hn), ?_⟩⟩
      rw [← hstep]
      exact checked64_eq (lcdStep_spec ha hn).1.le h

theorem foldlM_lcdStepChecked {acc : ℤ} {segs : List ExecutionSegment} (ha : 0 < acc)
    (hden : ∀ seg ∈ segs, seg.toDen * seg.fromDen < 2 ^ 63 ∧ seg.lengthRat.2 < 2 ^ 63)
    (h : (segs.map fun s => s.lengthRat.2).foldl lcdStep acc < 2 ^ 63) :
    segs.foldlM (fun acc s => do
      let n ← s.lengthRatChecked
      lcdStepChecked acc n.2) acc = .ok ((segs.map fun s => s.lengthRat.2).foldl lcdStep acc) := by
  induction segs generalizing acc with
  | nil => rfl
  | cons seg segs ih =>
    obtain ⟨⟨hseg, hlen⟩, hsegs⟩ := forall_mem_cons.1 hden
    rw [map_cons, foldl_cons] at h ⊢
    obtain ⟨hpos, hacc, -⟩ := lcdStep_spec ha seg.lengthRat_spec.1
    obtain ⟨hlast, hdvd, -⟩ := foldl_lcdStep_spec (l := segs.map fun s => s.lengthRat.2) hpos
      (by simpa using fun s _ => s.lengthRat_spec.1)
    have hle : lcdStep acc seg.lengthRat.2 < 2 ^ 63 := (le_of_dvd hlast hdvd).trans_lt h
    have hle' : acc < 2 ^ 63 := (le_of_dvd hpos hacc).trans_lt hle
    rw [foldlM_cons]
    refine bind_eq_ok.2 ⟨_, bind_eq_ok.2 ⟨_, ExecutionSegment.lengthRatChecked_eq hseg,
      lcdStepChecked_eq ha hle' seg.lengthRat_spec.1 hlen hle⟩, ih hpos hsegs h⟩

end ExecutionSegmentSequence

namespace ExecutionSegment

theorem fraction_le_one (seg : ExecutionSegment) : seg.fraction ≤ 1 := by
  have h₁ : (0 : ℚ) < seg.fromDen := by exact_mod_cast seg.fromDen_pos
  have h₂ : (0 : ℚ) < seg.toDen := by exact_mod_cast seg.toDen_pos
  have hlo : 0 ≤ seg.lo := div_nonneg (by exact_mod_cast seg.fromNum_nonneg) h₁.le
  have hhi : seg.hi ≤ 1 := (div_le_one h₂).2 (by exact_mod_cast seg.to_le_one)
  rw [fraction]
  linarith

end ExecutionSegment

namespace ExecutionSegmentSequence

open ExecutionSegmentSequenceWrapper

variable (seq : ExecutionSegmentSequence)

def InRange : Prop := (∀ seg ∈ seq.segments, seg.toDen * seg.fromDen < 2 ^ 63) ∧ seq.lcd < 2 ^ 63

instance : Decidable seq.InRange := inferInstanceAs (Decidable (_ ∧ _))

variable {seg : ExecutionSegment}

theorem lengthRat_le_lcd (hseg : seg ∈ seq.segments) : seg.lengthRat.2 ≤ seq.lcd :=
  le_of_dvd seq.lcd_spec.1 (seq.lcd_spec.2 seg hseg)

theorem ticks_bounds (hseg : seg ∈ seq.segments) : 0 ≤ seq.ticks seg ∧ seq.ticks seg ≤ seq.lcd := by
  have hlcd : (0 : ℚ) < seq.lcd := by exact_mod_cast seq.lcd_spec.1
  have hcast := seq.ticks_cast hseg
  have h₀ : (0 : ℚ) ≤ seq.ticks seg := hcast ▸ mul_nonneg seg.fraction_pos.le hlcd.le
  have h₁ : (seq.ticks seg : ℚ) ≤ seq.lcd :=
    hcast ▸ mul_le_of_le_one_left hlcd.le seg.fraction_le_one
  exact ⟨by exact_mod_cast h₀, by exact_mod_cast h₁⟩

variable {seq}

theorem InRange.lcdChecked_eq (h : seq.InRange) (hne : seq.segments ≠ []) :
    seq.lcdChecked = .ok seq.lcd := by
  have hlen : ∀ seg ∈ seq.segments, seg.toDen * seg.fromDen < 2 ^ 63 ∧ seg.lengthRat.2 < 2 ^ 63 :=
    fun seg hseg => ⟨h.1 seg hseg, (seq.lengthRat_le_lcd hseg).trans_lt h.2⟩
  have hlcd := h.2
  obtain ⟨first, segs, hsegs⟩ := exists_cons_of_ne_nil hne
  rw [lcdChecked, lcd, hsegs]
  rw [lcd, hsegs] at hlcd
  rw [hsegs] at hlen
  obtain ⟨⟨hfirst, -⟩, hrest⟩ := forall_mem_cons.1 hlen
  exact bind_eq_ok.2 ⟨_, ExecutionSegment.lengthRatChecked_eq hfirst,
    foldlM_lcdStepChecked first.lengthRat_spec.1 hrest hlcd⟩

theorem InRange.itemsChecked_eq (h : seq.InRange) :
    seq.segments.zipIdx.mapM (itemChecked seq.lcd) =
      .ok (seq.segments.zipIdx.map fun p => (seq.ticks p.1, p.2)) := by
  refine mapM_eq_ok_map fun p hp => ?_
  obtain ⟨seg, i⟩ := p
  obtain ⟨hi, hget⟩ := mem_zipIdx' hp
  have hseg : seg ∈ seq.segments := hget ▸ getElem_mem hi
  obtain ⟨h₀, hle⟩ := seq.ticks_bounds hseg
  exact bind_eq_ok.2 ⟨_, ExecutionSegment.lengthRatChecked_eq (h.1 seg hseg),
    bind_eq_ok.2 ⟨_, div64_eq seg.lengthRat_spec.1,
    bind_eq_ok.2 ⟨_, checked64_eq h₀ (hle.trans_lt h.2), rfl⟩⟩⟩

end ExecutionSegmentSequence

/-! ## What must be in range -/

theorem ExecutionSegment.lengthRat_snd_le (seg : ExecutionSegment) :
    seg.lengthRat.2 ≤ seg.toDen * seg.fromDen := by
  refine Int.le_of_dvd (mul_pos seg.toDen_pos seg.fromDen_pos)
    (Dvd.intro _ (Int.tdiv_mul_cancel ?_))
  rw [gcd_eq]
  exact Int.gcd_dvd_right _ _

theorem ExecutionSegment.lengthRatChecked_eq_ok {seg : ExecutionSegment} {len : ℤ × ℤ}
    (h : seg.lengthRatChecked = .ok len) :
    seg.toDen * seg.fromDen < 2 ^ 63 ∧ len = seg.lengthRat := by
  have hden : seg.toDen * seg.fromDen < 2 ^ 63 := by
    simp only [lengthRatChecked, bind_eq_ok, checked64_eq_ok] at h
    obtain ⟨-, -, -, -, -, -, -, ⟨hrange, -⟩, -⟩ := h
    exact hrange.2
  rw [lengthRatChecked_eq hden] at h
  exact ⟨hden, (ok.inj h).symm⟩

namespace ExecutionSegmentSequence

theorem lcdStepChecked_eq_ok {acc n v : ℤ} (ha : 0 < acc) (ha' : acc < 2 ^ 63) (hn : 0 < n)
    (hn' : n < 2 ^ 63) (h : lcdStepChecked acc n = .ok v) : v = lcdStep acc n ∧ v < 2 ^ 63 := by
  by_cases hstep : lcdStep acc n < 2 ^ 63
  · rw [lcdStepChecked_eq ha ha' hn hn' hstep] at h
    obtain rfl := ok.inj h
    exact ⟨rfl, hstep⟩
  · -- The step is none that keeps `acc`, so its product is computed.
    have hkeep : ¬ (acc = n ∨ acc.tmod n = 0) := fun hkeep => hstep (by rwa [lcdStep, if_pos hkeep])
    rw [not_or] at hkeep
    rw [lcdStepChecked, if_neg hkeep.1] at h
    obtain ⟨r, hr, h⟩ := bind_eq_ok.1 h
    obtain rfl := ok.inj ((rem64_eq hn).symm.trans hr)
    rw [if_neg hkeep.2] at h
    obtain ⟨g, hg, h⟩ := bind_eq_ok.1 h
    obtain rfl := ok.inj ((ExecutionSegment.gcd64_checked ha.le hn hn').symm.trans hg)
    obtain ⟨q, hq, h⟩ := bind_eq_ok.1 h
    obtain rfl := ok.inj ((div64_eq (ExecutionSegment.gcd_pos hn)).symm.trans hq)
    rw [lcdStep, if_neg (not_or.2 hkeep)] at hstep
    exact absurd (checked64_eq_ok.1 h).1.2 hstep

variable {seq : ExecutionSegmentSequence} {acc v : ℤ}

theorem foldlM_lcdStepChecked_eq_ok {segs : List ExecutionSegment} (ha : 0 < acc)
    (ha' : acc < 2 ^ 63) (h : segs.foldlM (fun acc s => do
      let n ← s.lengthRatChecked
      lcdStepChecked acc n.2) acc = .ok v) :
    (∀ seg ∈ segs, seg.toDen * seg.fromDen < 2 ^ 63) ∧
      v = (segs.map fun s => s.lengthRat.2).foldl lcdStep acc ∧ v < 2 ^ 63 := by
  induction segs generalizing acc with
  | nil =>
    cases h
    exact ⟨forall_mem_nil _, rfl, ha'⟩
  | cons seg segs ih =>
    rw [foldlM_cons] at h
    obtain ⟨acc', hstep, h⟩ := bind_eq_ok.1 h
    obtain ⟨len, hlen, hstep⟩ := bind_eq_ok.1 hstep
    obtain ⟨hden, rfl⟩ := ExecutionSegment.lengthRatChecked_eq_ok hlen
    obtain ⟨rfl, hlt⟩ :=
      lcdStepChecked_eq_ok ha ha' seg.lengthRat_spec.1 (seg.lengthRat_snd_le.trans_lt hden) hstep
    obtain ⟨hsegs, hv⟩ := ih (lcdStep_spec ha seg.lengthRat_spec.1).1 hlt h
    exact ⟨forall_mem_cons.2 ⟨hden, hsegs⟩, hv⟩

theorem lcdChecked_eq_ok (h : seq.lcdChecked = .ok v) : seq.InRange ∧ v = seq.lcd := by
  obtain ⟨_ | ⟨seg, segs⟩⟩ := seq
  · cases h
  · obtain ⟨len, hlen, h⟩ := bind_eq_ok.1 h
    obtain ⟨hden, rfl⟩ := ExecutionSegment.lengthRatChecked_eq_ok hlen
    obtain ⟨hsegs, rfl, hv⟩ := foldlM_lcdStepChecked_eq_ok seg.lengthRat_spec.1
      (seg.lengthRat_snd_le.trans_lt hden) h
    exact ⟨⟨forall_mem_cons.2 ⟨hden, hsegs⟩, hv⟩, rfl⟩

theorem segments_ne_nil_of_parse {s : String} (h : parse s = .ok seq) : seq.segments ≠ [] := by
  simp only [parse, bind_eq_ok] at h
  obtain ⟨bounds, hbounds, h⟩ := h
  have hlength : 2 ≤ ((s.toList.splitOn ',').map trim).length := by
    simp only [ExecutionSegment.parseSequence] at hbounds
    split at hbounds
    · cases hbounds
    next hlt => exact Nat.le_of_not_lt hlt
  split at h
  · cases h
  next tok toks htoks =>
    rw [htoks] at hlength
    obtain ⟨tok', toks', rfl⟩ := exists_cons_of_length_pos (lt_of_succ_lt_succ hlength)
    simp only [bind_eq_ok, parseFrom] at h
    obtain ⟨prev, -, segs, ⟨cur, -, seg, -, segs', -, hsegs⟩, h⟩ := h
    cases hsegs
    cases h
    exact cons_ne_nil _ _

theorem sum_ticks (h : seq.Full) : (seq.segments.map seq.ticks).sum = seq.lcd := by
  have hsum : (seq.segments.map fun s => s.fraction).sum = 1 := by
    have hlengths := sum_length_of_tight h
    rwa [parts, List.map_map, sub_zero] at hlengths
  have hcast : ((seq.segments.map seq.ticks).sum : ℚ) =
      (seq.segments.map fun s => s.fraction).sum * seq.lcd := by
    rw [← sum_map_mul_right, Int.cast_list_sum, List.map_map]
    exact congrArg List.sum (map_congr_left fun seg hseg => seq.ticks_cast hseg)
  rw [hsum, one_mul] at hcast
  exact_mod_cast hcast

/-- The cycle and the ticks are computed without overflow, as the unbounded integers, exactly if the
    denominators of each segment have a product in range, and the cycle is in range. -/
theorem checked_iff_inRange {s : String} {seq : ExecutionSegmentSequence} (h : parse s = .ok seq) :
    ((∃ lcd items, seq.lcdChecked = .ok lcd ∧
        seq.segments.zipIdx.mapM (ExecutionSegmentSequenceWrapper.itemChecked lcd) = .ok items) ↔
          seq.InRange) ∧
      ∀ lcd items, seq.lcdChecked = .ok lcd →
        seq.segments.zipIdx.mapM (ExecutionSegmentSequenceWrapper.itemChecked lcd) = .ok items →
        lcd = seq.lcd ∧ items = (seq.segments.zipIdx.map fun p => (seq.ticks p.1, p.2)) ∧
          ∀ w, ExecutionSegmentSequenceWrapper.new seq = .ok w →
            (items.map Prod.fst).sum = lcd := by
  constructor
  · constructor
    · rintro ⟨lcd, items, hlcd, -⟩
      exact (lcdChecked_eq_ok hlcd).1
    · intro hrange
      exact ⟨_, _, hrange.lcdChecked_eq (segments_ne_nil_of_parse h), hrange.itemsChecked_eq⟩
  · intro lcd items hlcd hitems
    obtain ⟨hrange, rfl⟩ := lcdChecked_eq_ok hlcd
    obtain rfl := ok.inj (hrange.itemsChecked_eq.symm.trans hitems)
    refine ⟨rfl, rfl, fun w hw => ?_⟩
    rw [← sum_ticks (full_of_parse h hw), List.map_map]
    conv_rhs => rw [← zipIdx_map_fst 0 seq.segments, List.map_map]
    rfl

theorem checked_thirds : ∃ seq, parse "0,1/3,2/3,1" = .ok seq ∧ ∃ lcd items,
    seq.lcdChecked = .ok lcd ∧
    seq.segments.zipIdx.mapM (ExecutionSegmentSequenceWrapper.itemChecked lcd) = .ok items := by
  have hparse : (parse "0,1/3,2/3,1").map (fun seq => decide seq.InRange) = .ok true := by
    decide +kernel
  cases h : parse "0,1/3,2/3,1" with
  | error e =>
    rw [h] at hparse
    cases hparse
  | ok seq =>
    rw [h] at hparse
    exact ⟨seq, rfl, (checked_iff_inRange h).1.2 (of_decide_eq_true (ok.inj hparse))⟩

theorem lcdChecked_panics :
    (parse "0,1/4000000000,1/3999999999,1").map (fun seq => seq.lcdChecked) =
      .ok (.error .panic) := by
  decide +kernel

end ExecutionSegmentSequence

/-! ## The loop -/

namespace ExecutionSegmentSequenceWrapper

theorem claimantChecked_eq {lcd gi : ℤ} {l : List (ℤ × ℤ × ℕ)} (hlcd : 0 ≤ lcd)
    (h : ∀ p ∈ l, 0 ≤ p.1 ∧ p.1 * lcd < 2 ^ 63 ∧ 0 < p.2.1) :
    claimantChecked lcd gi l = .ok (l.findIdx? fun p => eligible lcd gi p.1 p.2.1) := by
  induction l with
  | nil => rfl
  | cons p l ih =>
    obtain ⟨chosen, denom, idx⟩ := p
    obtain ⟨⟨hchosen, hlt, hdenom⟩, hl⟩ := forall_mem_cons.1 h
    refine bind_eq_ok.2 ⟨_, checked64_eq (mul_nonneg hchosen hlcd) hlt, ?_⟩
    rw [if_neg hdenom.ne', findIdx?_cons]
    refine bind_eq_ok.2 ⟨_, div64_eq hdenom, bind_eq_ok.2 ⟨_, rem64_eq hdenom, ?_⟩⟩
    have heligible : eligible lcd gi chosen denom = true ↔ gi > (chosen * lcd).tdiv denom ∨
        (gi = (chosen * lcd).tdiv denom ∧ (chosen * lcd).tmod denom = 0) := by
      simp [eligible, hdenom.ne']
    split
    next hgi =>
      rw [if_pos (heligible.2 hgi)]
      rfl
    next hgi =>
      rw [if_neg (mt heligible.1 hgi), ih hl]
      rfl

def gapsAfter (gi : ℤ) (st : StripeState) (idx : ℕ) : List ℤ :=
  st.offsets.getD idx [] ++ [gi - st.prev.getD idx 0]

theorem claimChecked_eq {items : List (ℤ × ℕ)} {lcd gi denom : ℤ} {st : StripeState} {j idx : ℕ}
    (hitem : items.getD j (0, 0) = (denom, idx))
    (hcount : 0 ≤ st.chosenCounts.getD j 0 ∧ st.chosenCounts.getD j 0 + 1 < 2 ^ 63)
    (hprev : 0 ≤ st.prev.getD idx 0 ∧ st.prev.getD idx 0 ≤ gi) (hgi : gi ≤ lcd)
    (hhead : 0 ≤ (gapsAfter gi st idx).headD 0)
    (hlt : (gapsAfter gi st idx).headD 0 + lcd < 2 ^ 63) :
    claimChecked items lcd gi st j = .ok (claim items lcd gi st j) := by
  have hgap₀ : 0 ≤ gi - st.prev.getD idx 0 := sub_nonneg.2 hprev.2
  have hgap₁ : gi - st.prev.getD idx 0 < 2 ^ 63 := by omega
  have hnext₀ : 0 ≤ (gapsAfter gi st idx).headD 0 + lcd := by omega
  have hwrap₀ : 0 ≤ (gapsAfter gi st idx).headD 0 + lcd - gi := by omega
  have hwrap₁ : (gapsAfter gi st idx).headD 0 + lcd - gi < 2 ^ 63 := by omega
  simp only [claimChecked, claim, hitem]
  refine bind_eq_ok.2 ⟨_, checked64_eq (by omega) hcount.2,
    bind_eq_ok.2 ⟨_, checked64_eq hgap₀ hgap₁, ?_⟩⟩
  split
  next hlen =>
    exact bind_eq_ok.2 ⟨_, checked64_eq hnext₀ hlt,
      bind_eq_ok.2 ⟨_, checked64_eq hwrap₀ hwrap₁, rfl⟩⟩
  next => rfl

end ExecutionSegmentSequenceWrapper

namespace FullSequence

open ExecutionSegmentSequenceWrapper

variable (seq : FullSequence)

theorem lastTick_bounds (i : Fin seq.size) (g : ℕ) :
    0 ≤ seq.lastTick i (Nat.count (seq.striping.Owns i) g) ∧
      seq.lastTick i (Nat.count (seq.striping.Owns i) g) ≤ g := by
  cases hc : count (seq.striping.Owns i) g with
  | zero => simp [lastTick]
  | succ c =>
    have hlt : nth (seq.striping.Owns i) c < g := nth_lt_of_lt_count (by omega)
    rw [lastTick]
    omega

variable {g : ℕ}

theorem prev_run (hg : g ≤ seq.cycle) (i : Fin seq.size) :
    (seq.run g).prev.getD i 0 = seq.lastTick i (Nat.count (seq.striping.Owns i) g) := by
  obtain ⟨-, hprev⟩ := seq.offsets_run hg i
  rw [getD_eq_getElem?_getD, hprev, getD_some]

theorem headD_gapsAfter_run (hg : g < seq.cycle) :
    (gapsAfter g (seq.run g) (seq.owner g)).headD 0 =
      Nat.nth (seq.striping.Owns (seq.owner g)) 0 := by
  obtain ⟨hoff, -⟩ := seq.offsets_run hg.le (seq.owner g)
  have hgaps := seq.recorded_append hg rfl
  rw [gapsAfter, seq.prev_run hg.le, getD_eq_getElem?_getD, hoff, getD_some, hgaps,
    range_succ_eq_map]
  rfl

theorem nth_zero_le (g : ℕ) : Nat.nth (seq.striping.Owns (seq.owner g)) 0 ≤ g := by
  have hown : seq.striping.Owns (seq.owner g) g := rfl
  calc nth (seq.striping.Owns (seq.owner g)) 0
    _ ≤ nth (seq.striping.Owns (seq.owner g)) (count (seq.striping.Owns (seq.owner g)) g) :=
      nth_monotone (infinite_of_periodic (seq.striping.owns_periodic _)
        (seq.striping.count_cycle_pos _)) (zero_le _)
    _ = g := nth_count hown

theorem taken_le (i : ℕ) (g : ℕ) : seq.taken i g ≤ g := Nat.count_le _

theorem taken_mul_lcd_lt (hg : g < seq.cycle) (hsq : seq.lcd * seq.lcd < 2 ^ 63)
    (i : Fin seq.size) :
    (seq.taken i g : ℤ) * seq.lcd < 2 ^ 63 := by
  have hle : (seq.taken i g : ℤ) ≤ seq.lcd := by
    have := seq.taken_le i g
    have := seq.cycle_cast
    omega
  calc (seq.taken i g : ℤ) * seq.lcd ≤ seq.lcd * seq.lcd :=
        mul_le_mul_of_nonneg_right hle seq.lcd_spec.1.le
    _ < 2 ^ 63 := hsq

theorem stripeChecked_run (hg : g < seq.cycle) (hsq : seq.lcd * seq.lcd < 2 ^ 63) :
    stripeChecked seq.sorted seq.lcd (seq.run g) g = .ok (seq.run (g + 1)) := by
  have hcycle := seq.cycle_cast
  have hlcd : 2 * seq.lcd < 2 ^ 63 := by nlinarith [seq.lcd_spec.1]
  have hchosen := seq.chosenCounts_run hg.le
  obtain ⟨j, hj, hitem, -⟩ := seq.claimant_run hg hchosen
  rw [run_succ, stripe, hj]
  refine bind_eq_ok.2 ⟨some j, ?_, ?_⟩
  · rw [claimantChecked_eq seq.lcd_spec.1.le, ← hj]
    · rfl
    · intro p hp
      rw [hchosen, ← map_prod_right_eq_zip] at hp
      obtain ⟨q, hq, rfl⟩ := mem_map.1 hp
      obtain ⟨i, rfl⟩ := seq.mem_items.1 hq
      exact ⟨natCast_nonneg _, seq.taken_mul_lcd_lt hg hsq i, natCast_pos.2 (seq.weight_pos i)⟩
  · have hget : seq.sorted.getD j (0, 0) = ((seq.weight (seq.owner g) : ℤ), ↑(seq.owner g)) := by
      rw [getD_eq_getElem?_getD, hitem, getD_some]
    have hcount : (seq.run g).chosenCounts.getD j 0 = seq.taken (seq.owner g) g := by
      rw [hchosen, getD_eq_getElem?_getD, getElem?_map, hitem]
      rfl
    have hle := seq.taken_le (seq.owner g) g
    have hfirst := seq.nth_zero_le g
    refine claimChecked_eq hget ?_ ?_ (by omega) ?_ ?_
    · rw [hcount]
      omega
    · rw [seq.prev_run hg.le]
      exact seq.lastTick_bounds (seq.owner g) g
    · rw [seq.headD_gapsAfter_run hg]
      omega
    · rw [seq.headD_gapsAfter_run hg]
      omega

theorem foldlM_stripeChecked (hg : g ≤ seq.cycle) (hsq : seq.lcd * seq.lcd < 2 ^ 63) :
    (List.range g).foldlM (stripeChecked seq.sorted seq.lcd) seq.start = .ok (seq.run g) := by
  induction g with
  | zero => rfl
  | succ g ih =>
    rw [range_succ, foldlM_append]
    exact bind_eq_ok.2 ⟨_, ih (by omega), bind_eq_ok.2 ⟨_, seq.stripeChecked_run hg hsq, rfl⟩⟩

theorem newChecked_eq (hden : ∀ seg ∈ seq.segments, seg.toDen * seg.fromDen < 2 ^ 63)
    (hsq : seq.lcd * seq.lcd < 2 ^ 63) :
    newChecked seq.toExecutionSegmentSequence = .ok seq.wrapper := by
  have hrange : seq.InRange := ⟨hden, by nlinarith [seq.lcd_spec.1]⟩
  obtain ⟨first, last, hfirst, hlast, hbounds⟩ :=
    ExecutionSegmentSequenceWrapper.new_eq_ok seq.new_eq
  rw [newChecked, hfirst, hlast]
  dsimp only
  rw [if_pos hbounds]
  exact bind_eq_ok.2 ⟨_, hrange.lcdChecked_eq (ne_nil_of_length_pos seq.size_pos),
    bind_eq_ok.2 ⟨_, hrange.itemsChecked_eq,
    bind_eq_ok.2 ⟨_, seq.foldlM_stripeChecked le_rfl hsq, rfl⟩⟩⟩

end FullSequence

end Tropel
