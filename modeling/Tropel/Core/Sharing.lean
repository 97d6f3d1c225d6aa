import Tropel.Core.Config
import Tropel.Core.Striping

/-!
# Shares of the nodes

The nodes share the virtual users and the iterations: scaling a total deals it out
(`scale_eq_share`), and the shares add up (`FullSequence.sum_scale`).

* `sum_workload_eq_iff`: when the planned work adds up;
* `addsUp_iff`: when the shares of told segments do.
-/

namespace Tropel

open Lib List Int

/-! ## Scaling a total -/

theorem floor_intCast_div {n d : ℤ} (hd : 0 < d) : ⌊(n / d : ℚ)⌋ = n / d := by
  obtain ⟨k, rfl⟩ := eq_ofNat_of_zero_le hd.le
  exact_mod_cast Rat.floor_intCast_div_natCast n k

namespace ExecutionSegment

variable (seg : ExecutionSegment) {bits n : ℕ}

theorem toNum_nonneg : 0 ≤ seg.toNum := by
  have h₁ : 0 ≤ seg.fromNum * seg.toDen := mul_nonneg seg.fromNum_nonneg seg.toDen_pos.le
  exact pos_of_mul_pos_left (h₁.trans_lt seg.from_lt_to) seg.fromDen_pos.le |>.le

theorem lo_nonneg : 0 ≤ seg.lo :=
  div_nonneg (cast_nonneg seg.fromNum_nonneg) (cast_nonneg seg.fromDen_pos.le)

theorem hi_le_one : seg.hi ≤ 1 := by
  rw [hi, div_le_one (Int.cast_pos.2 seg.toDen_pos)]
  exact_mod_cast seg.to_le_one

theorem scaled_eq_share (n : ℕ) : seg.scaled n = share n seg.lo seg.hi := by
  have hto : (0 : ℤ) ≤ n * seg.toNum := mul_nonneg (natCast_nonneg n) seg.toNum_nonneg
  have hfrom : (0 : ℤ) ≤ n * seg.fromNum := mul_nonneg (natCast_nonneg n) seg.fromNum_nonneg
  rw [scaled, share, lo, hi, tdiv_eq_ediv_of_nonneg hto, tdiv_eq_ediv_of_nonneg hfrom,
    ← floor_intCast_div seg.toDen_pos, ← floor_intCast_div seg.fromDen_pos]
  push_cast
  rw [mul_div_assoc, mul_div_assoc]

theorem floor_lo_nonneg (n : ℕ) : 0 ≤ ⌊n * seg.lo⌋ :=
  floor_nonneg.2 (mul_nonneg (Nat.cast_nonneg n) seg.lo_nonneg)

theorem floor_hi_le (n : ℕ) : ⌊n * seg.hi⌋ ≤ n := by
  rw [← Int.floor_natCast (R := ℚ)]
  exact Int.floor_le_floor (mul_le_of_le_one_right (Nat.cast_nonneg n) seg.hi_le_one)

theorem share_le (n : ℕ) : share n seg.lo seg.hi ≤ n := by
  have hlo := seg.floor_lo_nonneg n
  have hhi := seg.floor_hi_le n
  rw [share]
  linarith

theorem scale_eq_share (hn : n < 2 ^ bits) : (seg.scale bits n : ℤ) = share n seg.lo seg.hi := by
  have hnonneg : 0 ≤ share n seg.lo seg.hi := share_nonneg seg.lo_lt_hi.le
  have hle := seg.share_le n
  have hlt : share n seg.lo seg.hi < 2 ^ bits := hle.trans_lt (by exact_mod_cast hn)
  rw [scale]
  split
  next h₀ =>
    subst h₀
    simp [share]
  next h₀ =>
    rw [seg.scaled_eq_share, Int.emod_eq_of_lt hnonneg hlt, Nat.cast_min,
      toNat_of_nonneg hnonneg, min_eq_left hle]

theorem scale_eq_card (hn : n < 2 ^ bits) :
    seg.scale bits n = (gridPoints n seg.lo seg.hi).card := by
  have h := seg.scale_eq_share hn
  rw [share_eq_card_sub_card, gridPoints_eq_empty seg.lo_lt_hi.le, Nat.cast_zero, sub_zero] at h
  exact_mod_cast h

theorem scale_eq_self_iff (hn : n < 2 ^ bits) :
    seg.scale bits n = n ↔ n = 0 ∨ (seg.hi = 1 ∧ n * seg.lo < 1) := by
  rcases n.eq_zero_or_pos with rfl | hpos
  · simp [scale]
  have hn₀ : (0 : ℚ) < n := Nat.cast_pos.2 hpos
  have hlo := seg.floor_lo_nonneg n
  have hhi := seg.floor_hi_le n
  have hfloor : ⌊n * seg.hi⌋ = n ↔ seg.hi = 1 := by
    rw [Int.floor_eq_iff]
    constructor
    · rintro ⟨h, -⟩
      rw [cast_natCast] at h
      exact le_antisymm seg.hi_le_one (le_of_mul_le_mul_left (by rwa [mul_one]) hn₀)
    · intro h
      rw [h, mul_one, cast_natCast]
      exact ⟨le_rfl, lt_add_one _⟩
  have hlt : ⌊n * seg.lo⌋ < 1 ↔ n * seg.lo < 1 := by rw [Int.floor_lt, Int.cast_one]
  -- Both floors are between `0` and `n`, so that their difference is `n` only at the ends.
  rw [or_iff_right hpos.ne', ← hfloor, ← hlt, ← Nat.cast_inj (R := ℤ), seg.scale_eq_share hn, share]
  omega

end ExecutionSegment

variable {bits n vus iterations : ℕ} {p : ℤ × ℤ}

theorem sum_scale_eq_sum_share (segs : List ExecutionSegment) (hn : n < 2 ^ bits) :
    ((segs.map (ExecutionSegment.scale bits · n)).sum : ℤ) =
      ((segs.map fun s => (s.lo, s.hi)).map fun p => share n p.1 p.2).sum := by
  induction segs with
  | nil => rfl
  | cons seg segs ih =>
    simp only [map_cons, sum_cons, Nat.cast_add, ih, seg.scale_eq_share hn]

theorem FullSequence.sum_scale (seq : FullSequence) (hn : n < 2 ^ bits) :
    (seq.segments.map (ExecutionSegment.scale bits · n)).sum = n := by
  have h := sum_scale_eq_sum_share seq.segments hn
  rw [show seq.segments.map (fun s => (s.lo, s.hi)) = seq.parts from rfl,
    sum_share_of_tight seq.full] at h
  exact_mod_cast h

/-! ## What a configuration plans -/

namespace ExecutionConfig

def workload : ExecutionConfig → ℕ
  | sharedIterations iterations _ vus _ _ => if 1 ≤ vus then iterations else 0
  | perVUIterations vus iterations _ _ _ => vus * iterations
  | _ => 0

def InRange : ExecutionConfig → Prop
  | sharedIterations iterations _ vus _ _ => vus < 2 ^ 32 ∧ iterations < 2 ^ 64
  | perVUIterations vus iterations _ _ _ => vus < 2 ^ 32 ∧ iterations < 2 ^ 64
  | _ => True

/-- The budget can be split over the segments. Where the iterations are shared, a
    segment with a multiple of `1 / iterations` needs a multiple of `1 / vus`, to
    have somebody to run them. Where every virtual user has its own, all of them
    must be in the last segment, the others being too short. -/
def Splittable (segs : List ExecutionSegment) : ExecutionConfig → Prop
  | sharedIterations iterations _ vus _ _ => vus = 0 ∨ ∀ seg ∈ segs,
      (gridPoints iterations seg.lo seg.hi).Nonempty → (gridPoints vus seg.lo seg.hi).Nonempty
  | perVUIterations vus iterations _ _ _ => vus = 0 ∨ iterations = 0 ∨
      ∃ seg ∈ segs, seg.hi = 1 ∧ vus * seg.lo < 1 ∧ iterations * seg.lo < 1
  | _ => True

end ExecutionConfig

theorem FullSequence.sum_guarded_scale_eq_iff (seq : FullSequence)
    (hvus : vus < 2 ^ 32) (hiter : iterations < 2 ^ 64) : (seq.segments.map fun seg =>
      if 1 ≤ seg.scaleVus vus then seg.scaleIterations iterations else 0).sum = iterations ↔
      ∀ seg ∈ seq.segments,
        (gridPoints iterations seg.lo seg.hi).Nonempty →
          (gridPoints vus seg.lo seg.hi).Nonempty := by
  have hiff := sum_guard_eq_iff (l := seq.segments) (a := (ExecutionSegment.scale 32 · vus))
    (b := (ExecutionSegment.scale 64 · iterations))
  rw [seq.sum_scale hiter] at hiff
  refine hiff.trans (forall₂_congr fun seg _ => ?_)
  rw [seg.scale_eq_card hvus, seg.scale_eq_card hiter, Finset.card_eq_zero, Finset.card_eq_zero,
    ← Finset.not_nonempty_iff_eq_empty, ← Finset.not_nonempty_iff_eq_empty, not_imp_not]

theorem FullSequence.sum_scale_mul_scale_eq_iff (seq : FullSequence) (hvus : vus < 2 ^ 32)
    (hiter : iterations < 2 ^ 64) :
    (seq.segments.map fun seg => seg.scaleVus vus * seg.scaleIterations iterations).sum =
      vus * iterations ↔ vus = 0 ∨ iterations = 0 ∨
        ∃ seg ∈ seq.segments, seg.hi = 1 ∧ vus * seg.lo < 1 ∧ iterations * seg.lo < 1 := by
  have hiff := sum_mul_eq_mul_sum_iff (l := seq.segments) (a := (ExecutionSegment.scale 32 · vus))
    (b := (ExecutionSegment.scale 64 · iterations))
  rw [seq.sum_scale hvus, seq.sum_scale hiter] at hiff
  -- A node that has all users and all iterations is the last one, by `scale_eq_self_iff`.
  refine hiff.trans ?_
  by_cases hv : vus = 0
  · simp only [hv, true_or]
  by_cases hi : iterations = 0
  · simp only [hi, true_or, or_true]
  refine or_congr_right (or_congr_right (exists_congr fun seg => and_congr_right fun _ => ?_))
  rw [seg.scale_eq_self_iff hvus, seg.scale_eq_self_iff hiter, or_iff_right hv, or_iff_right hi,
    and_and_and_comm, and_self]

/-- The nodes plan what the configuration plans exactly when its budget can be
    split over the segments. -/
theorem FullSequence.sum_workload_eq_iff (seq : FullSequence) (config : ExecutionConfig)
    (rateMode : RateSegmentation) (h : config.InRange) :
    (seq.segments.map fun seg => (seg.applyWith config rateMode).workload).sum =
      config.workload ↔ config.Splittable seq.segments := by
  cases config with
  | sharedIterations iterations _ vus _ _ =>
    rcases vus.eq_zero_or_pos with rfl | hpos
    · simp [ExecutionSegment.applyWith, ExecutionConfig.workload, ExecutionConfig.Splittable,
        ExecutionSegment.scaleVus, ExecutionSegment.scale]
    · rw [ExecutionConfig.Splittable, or_iff_right hpos.ne',
        ← seq.sum_guarded_scale_eq_iff h.1 h.2, ExecutionConfig.workload,
        if_pos (Nat.one_le_of_lt hpos)]
      rfl
  | perVUIterations vus iterations _ _ _ => exact seq.sum_scale_mul_scale_eq_iff h.1 h.2
  | _ => simp [ExecutionSegment.applyWith, ExecutionConfig.workload, ExecutionConfig.Splittable]

def halves : FullSequence where
  segments := [
    { fromNum := 0, fromDen := 1, toNum := 1, toDen := 2
      fromNum_nonneg := by decide, fromDen_pos := by decide, toDen_pos := by decide
      from_lt_to := by decide, to_le_one := by decide },
    { fromNum := 1, fromDen := 2, toNum := 1, toDen := 1
      fromNum_nonneg := by decide, fromDen_pos := by decide, toDen_pos := by decide
      from_lt_to := by decide, to_le_one := by decide }]
  full := by decide +kernel

theorem halves_sum_shared : (halves.segments.map fun seg =>
      (seg.applyWith (.sharedIterations 10 none 2 none default) .scaleRate).workload).sum = 10 :=
  (halves.sum_workload_eq_iff (.sharedIterations 10 none 2 none default) .scaleRate
    ⟨by decide, by decide⟩).2 (.inr (by decide +kernel))

theorem halves_sum_perVU :
    ExecutionSegmentSequence.parse "0,1/2,1" = .ok halves.toExecutionSegmentSequence ∧
      (halves.segments.map fun seg =>
        (seg.applyWith (.perVUIterations 2 2 none none default) .globalRate).workload).sum = 2 ∧
      (ExecutionConfig.perVUIterations 2 2 none none default).workload = 4 := by
  decide +kernel

/-! ## Nodes that are told their segments -/

theorem ExecutionSegment.reduced_inI64 {num den : ℤ} (hden : InI64 den)
    (h : reduced wrapped64 num den = .ok p) : InI64 p.2 := by
  obtain ⟨g, -, h⟩ := bind_eq_ok.1 h
  obtain ⟨n, -, h⟩ := bind_eq_ok.1 h
  obtain ⟨d, hd, h⟩ := bind_eq_ok.1 h
  cases h
  exact div64_inI64 hden hd

theorem ExecutionSegment.parseFraction_inI64 {t : Text} (h : parseFraction t = .ok p) :
    InI64 p.2 := by
  rw [parseFraction, parseFractionIn] at h
  split at h
  · cases h
  split at h
  · obtain ⟨n, -, h⟩ := bind_eq_ok.1 h
    obtain ⟨d, hd, h⟩ := bind_eq_ok.1 h
    split at h
    · cases h
    · exact reduced_inI64 (parseI64_inI64 (okOr_eq_ok.1 hd)) h
  split at h
  · obtain ⟨n, -, h⟩ := bind_eq_ok.1 h
    exact reduced_inI64 (by decide) h
  split at h
  · simp only [bind_eq_ok, wrapped64, Except.ok.injEq] at h
    obtain ⟨intNum, -, _, -, _, rfl, fracNum, -, _, -, _, -, h⟩ := h
    exact reduced_inI64 (wrap64_inI64 _) h
  · obtain ⟨n, -, h⟩ := bind_eq_ok.1 h
    cases h
    exact (by decide : InI64 1)

theorem ExecutionSegment.parse_inI64 {display : ℚ → String} {segment : String}
    {sequence : Option String} {seg : ExecutionSegment}
    (h : parse display segment sequence = .ok seg) :
    InI64 seg.fromDen ∧ InI64 seg.toDen := by
  have hnew : ∃ p q : ℤ × ℤ, InI64 p.2 ∧ InI64 q.2 ∧ new p.1 p.2 q.1 q.2 = .ok seg := by
    rw [parse] at h
    split at h
    · cases h
    next fromS toS _ =>
      obtain ⟨p, hp, h⟩ := bind_eq_ok.1 h
      obtain ⟨q, hq, h⟩ := bind_eq_ok.1 h
      obtain ⟨seg', hseg', h⟩ := bind_eq_ok.1 h
      -- The check against the sequence returns the segment as it is, or an error.
      suffices seg' = seg from
        ⟨p, q, parseFraction_inI64 hp, parseFraction_inI64 hq, this ▸ hseg'⟩
      cases sequence with
      | none => exact Except.ok.inj h
      | some seq =>
        obtain ⟨bounds, -, h⟩ := bind_eq_ok.1 h
        dsimp only at h
        split at h
        · split at h
          · exact Except.ok.inj h
          · split at h <;> cases h
        · cases h
  obtain ⟨p, q, hp, hq, hnew⟩ := hnew
  obtain ⟨-, h₁, -, h₂⟩ := new_eq_ok hnew
  exact ⟨h₁ ▸ hp, h₂ ▸ hq⟩

/-- The nodes' own segments, in the order of the sequence: each one is parsed from
    what its node is told, checked against the sequence, and found in its place. -/
structure Assigned (display : ℚ → String) (sequence : String) (seq : ExecutionSegmentSequence)
    (w : ExecutionSegmentSequenceWrapper) (specs : List String)
    (nodes : ExecutionSegmentSequence) : Prop where
  parsed : ExecutionSegmentSequence.parse sequence = .ok seq
  striped : ExecutionSegmentSequenceWrapper.new seq = .ok w
  specs_parsed : specs.mapM (ExecutionSegment.parse display · (some sequence)) = .ok nodes.segments
  indexed : nodes.segments.map seq.indexOf = (List.range seq.segments.length).map some

namespace ExecutionSegmentSequence

def AddsUp (nodes : ExecutionSegmentSequence) : Prop :=
  (∀ n < 2 ^ 32, (nodes.segments.map (ExecutionSegment.scaleVus · n)).sum = n) ∧
    ∀ n < 2 ^ 64, (nodes.segments.map (ExecutionSegment.scaleIterations · n)).sum = n

/-- For every `n`, as many multiples of `1 / n` are in the gaps between the nodes'
    bounds as in their overlaps. -/
def Balanced (nodes : ExecutionSegmentSequence) : Prop :=
  ∀ n < 2 ^ 64, lost n (seams 0 nodes.parts) = doubled n (seams 0 nodes.parts)

variable {nodes : ExecutionSegmentSequence}

theorem sum_scale_eq_iff {bits n : ℕ} (hn : n < 2 ^ bits) :
    (nodes.segments.map (ExecutionSegment.scale bits · n)).sum = n ↔
      lost n (seams 0 nodes.parts) = doubled n (seams 0 nodes.parts) := by
  rw [← sum_share_eq_iff, ← Nat.cast_inj (R := ℤ), sum_scale_eq_sum_share _ hn]
  rfl

theorem addsUp_iff_balanced : nodes.AddsUp ↔ nodes.Balanced := by
  constructor
  · intro h n hn
    exact (sum_scale_eq_iff hn).1 (h.2 n hn)
  · intro h
    refine ⟨fun n hn => (sum_scale_eq_iff hn).2 (h n (hn.trans ?_)),
      fun n hn => (sum_scale_eq_iff hn).2 (h n hn)⟩
    decide

theorem mem_bounds_of_mem_seams {x : ℚ} {l : List (ℚ × ℚ)} {s : ℚ × ℚ} (hs : s ∈ seams x l) :
    (s.1 = x ∨ ∃ p ∈ l, s.1 = p.2) ∧ (s.2 = 1 ∨ ∃ p ∈ l, s.2 = p.1) := by
  induction l generalizing x with
  | nil =>
    obtain rfl := mem_singleton.1 hs
    exact ⟨.inl rfl, .inl rfl⟩
  | cons p l ih =>
    rcases mem_cons.1 hs with rfl | hs
    · exact ⟨.inl rfl, .inr ⟨p, mem_cons_self, rfl⟩⟩
    · obtain ⟨h₁, h₂⟩ := ih hs
      refine ⟨.inr ?_, h₂.imp_right fun ⟨q, hq, h⟩ => ⟨q, mem_cons_of_mem _ hq, h⟩⟩
      rcases h₁ with h | ⟨q, hq, h⟩
      · exact ⟨p, mem_cons_self, h⟩
      · exact ⟨q, mem_cons_of_mem _ hq, h⟩

end ExecutionSegmentSequence

theorem den_lt_of_inI64 {a b : ℤ} (hb : 0 < b) (h : InI64 b) : (a / b : ℚ).den < 2 ^ 64 := by
  have hdvd : ((a / b : ℚ).den : ℤ) ∣ b := by
    rw [← Rat.divInt_eq_div]
    exact Rat.den_dvd a b
  have hle := le_of_dvd hb hdvd
  have := h.2
  omega

namespace Assigned

variable {display : ℚ → String} {sequence : String} {seq nodes : ExecutionSegmentSequence}
  {w : ExecutionSegmentSequenceWrapper} {specs : List String}

theorem den_lt (h : Assigned display sequence seq w specs nodes) {seg : ExecutionSegment}
    (hseg : seg ∈ nodes.segments) : seg.lo.den < 2 ^ 64 ∧ seg.hi.den < 2 ^ 64 := by
  obtain ⟨spec, -, hspec⟩ := exists_of_mapM_eq_ok h.specs_parsed hseg
  obtain ⟨h₁, h₂⟩ := ExecutionSegment.parse_inI64 hspec
  exact ⟨den_lt_of_inI64 seg.fromDen_pos h₁, den_lt_of_inI64 seg.toDen_pos h₂⟩

theorem full_of_balanced (h : Assigned display sequence seq w specs nodes)
    (hway : OneWay (seams 0 nodes.parts)) (hbal : nodes.Balanced) : nodes.Full := by
  by_contra hfull
  obtain ⟨s, hs, hne⟩ := exists_lost_ne_doubled hway hfull
  -- Such a denominator is that of a parsed bound (or of `0` or `1`), and thus a `u64`.
  obtain ⟨h₁, h₂⟩ := ExecutionSegmentSequence.mem_bounds_of_mem_seams hs
  rcases hne with hne | hne
  · refine hne (hbal _ ?_)
    rcases h₁ with h₁ | ⟨p, hp, h₁⟩
    · rw [h₁]
      decide
    · obtain ⟨seg, hseg, rfl⟩ := mem_map.1 hp
      exact h₁ ▸ (h.den_lt hseg).2
  · refine hne (hbal _ ?_)
    rcases h₂ with h₂ | ⟨p, hp, h₂⟩
    · rw [h₂]
      decide
    · obtain ⟨seg, hseg, rfl⟩ := mem_map.1 hp
      exact h₂ ▸ (h.den_lt hseg).1

/-- The totals add up exactly when the gaps between the nodes' bounds and their overlaps balance.
    With gaps only, or overlaps only, that is when there are none. -/
theorem addsUp_iff (h : Assigned display sequence seq w specs nodes) :
    (nodes.AddsUp ↔ nodes.Balanced) ∧
      (OneWay (seams 0 nodes.parts) → (nodes.AddsUp ↔ nodes.Full)) := by
  refine ⟨ExecutionSegmentSequence.addsUp_iff_balanced, fun hway => ?_⟩
  rw [ExecutionSegmentSequence.addsUp_iff_balanced]
  exact ⟨h.full_of_balanced hway, fun hfull n _ => lost_eq_doubled_of_tight hfull n⟩

theorem halves_addsUp :
    ∃ w, Assigned (fun _ => "") "0,1/2,1" halves.toExecutionSegmentSequence w ["0:1/2", "50%:1"]
      halves.toExecutionSegmentSequence ∧ halves.AddsUp := by
  have h : Assigned (fun _ => "") "0,1/2,1" halves.toExecutionSegmentSequence halves.wrapper
      ["0:1/2", "50%:1"] halves.toExecutionSegmentSequence :=
    ⟨by decide +kernel, halves.new_eq, by decide +kernel, by decide +kernel⟩
  exact ⟨_, h, ((addsUp_iff h).2 (.inl fun s hs => (halves.full s hs).le)).2 halves.full⟩

def nearHalves : ExecutionSegmentSequence where
  segments := [
    { fromNum := 0, fromDen := 1, toNum := 4999999999, toDen := 10000000000
      fromNum_nonneg := by decide, fromDen_pos := by decide, toDen_pos := by decide
      from_lt_to := by decide, to_le_one := by decide },
    { fromNum := 1, fromDen := 2, toNum := 1, toDen := 1
      fromNum_nonneg := by decide, fromDen_pos := by decide, toDen_pos := by decide
      from_lt_to := by decide, to_le_one := by decide }]

theorem nearHalves_lose :
    ∃ seq w, Assigned (fun _ => "") "0,1/2,1" seq w ["0:0.4999999999", "1/2:1"] nearHalves ∧
      (nearHalves.segments.map (ExecutionSegment.scaleVus · 2)).sum = 1 ∧
      (nearHalves.segments.map (ExecutionSegment.scaleIterations · 2)).sum = 1 :=
  ⟨halves.toExecutionSegmentSequence, halves.wrapper,
    ⟨by decide +kernel, halves.new_eq, by decide +kernel, by decide +kernel⟩,
    by decide +kernel, by decide +kernel⟩

end Assigned

end Tropel
