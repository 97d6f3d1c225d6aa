import Tropel.Core.Overflow
import Tropel.Lib.Decimal

/-!
# What the text of a bound denotes

The bounds of a segment are written as integers, fractions `1/3`, percentages `20%` or decimals
`0.25`, with a sign.

* `parseFraction_exact_iff`: which texts are read exactly.
-/

namespace Tropel

open Lib Option Int

inductive Denotes : Text → ℚ → Prop
  | integer {t : Text} {n : ℤ} (h : parseInt t = some n) : Denotes t n
  | ratio {a b : Text} {m n : ℤ} (ha : parseInt (trim a) = some m) (hb : parseInt (trim b) = some n)
      (hn : n ≠ 0) :
    Denotes (a ++ '/' :: b) (m / n)
  | percent {a : Text} {n : ℤ} (h : parseInt (trim a) = some n) : Denotes (a ++ ['%']) (n / 100)
  | decimal {a b : Text} {n : ℤ} (ha : parseInt a = some n) (hb : ∀ c ∈ b, c.isDigit) :
    Denotes (a ++ '.' :: b)
      (n + (if a.head? = some '-' then -1 else 1) * (Nat.ofDigitChars 10 b 0 / 10 ^ b.length))

section

variable {t a b : Text} {q : ℚ} {n : ℤ}

theorem not_mem_of_parseInt (h : parseInt t = some n) {c : Char} (hc : c ∈ ['/', '.', '%']) :
    c ∉ t := by
  intro hmem
  have hchar := isDigit_or_sign_of_parseInt h hmem
  simp only [List.mem_cons, List.not_mem_nil, or_false] at hc
  rcases hc with rfl | rfl | rfl <;> exact absurd hchar (by decide)

theorem Denotes.eq_of_decimal (h : Denotes t q) (hslash : splitOnce '/' t = none)
    (hpercent : stripSuffix '%' t = none) (hpoint : splitOnce '.' t = some (a, b))
    (hn : parseInt a = some n) : (∀ c ∈ b, c.isDigit) ∧
      q = n + (if a.head? =
        some '-' then -1 else 1) * (Nat.ofDigitChars 10 b 0 / 10 ^ b.length) := by
  cases h with
  | integer h =>
    obtain ⟨rfl, -⟩ := splitOnce_eq_some hpoint
    exact absurd (by simp) (not_mem_of_parseInt h (c := '.') (by decide))
  | ratio => exact absurd (by simp) (not_mem_of_splitOnce_eq_none hslash)
  | percent =>
    rw [stripSuffix, List.getLast?_concat, if_pos rfl] at hpercent
    cases hpercent
  | decimal ha hb =>
    rw [splitOnce_append (not_mem_of_parseInt ha (by decide))] at hpoint
    cases hpoint
    obtain rfl := some.inj (ha.symm.trans hn)
    exact ⟨hb, rfl⟩

end

namespace ExecutionSegment

/-- In a build with overflow checks. A length that is no `u32` is none of them, but inexact. -/
def parseFractionChecked : Text → Result TropelError (ℤ × ℤ) :=
  parseFractionIn checked64 fun n => if 2 ^ 32 ≤ n then .error .panic else .ok n

structure Exact (s : Text) (num den : ℤ) : Prop where
  den_ne_zero : den ≠ 0
  denotes : Denotes (trim s) (num / den)
  checked : parseFractionChecked s = .ok (num, den)

/-! ## Reduction -/

section

variable {num den : ℤ} {p : ℤ × ℤ}

theorem eq_gcd_of_wrapped {g : ℤ} (h : gcd64 (E := TropelError) wrapped64 num den = .ok g)
    (hlt : (Int.gcd num den : ℤ) < 2 ^ 63) : g = Int.gcd num den := by
  have hok := (gcd64_eq_of_ok h).symm.trans h
  rw [wrapped64_eq (natCast_nonneg _) hlt] at hok
  exact (Except.ok.inj hok).symm

theorem reduced_checked_iff (h : reduced wrapped64 num den = .ok p) :
    reduced checked64 num den = .ok p ↔ (Int.gcd num den : ℤ) < 2 ^ 63 := by
  obtain ⟨g, hg, h⟩ := bind_eq_ok.1 h
  have hchecked : gcd64 checked64 num den = _ := gcd64_eq_of_ok hg
  constructor
  · intro hp
    obtain ⟨g', hg', -⟩ := bind_eq_ok.1 hp
    exact (checked64_eq_ok.1 (hchecked.symm.trans hg')).1.2
  · intro hlt
    obtain rfl := eq_gcd_of_wrapped hg hlt
    exact bind_eq_ok.2 ⟨_, hchecked.trans (checked64_eq (Int.natCast_nonneg _) hlt), h⟩

theorem value_of_reduced (h : reduced wrapped64 num den = .ok p) (hden : den ≠ 0)
    (hlt : (Int.gcd num den : ℤ) < 2 ^ 63) :
    p.2 ≠ 0 ∧ (p.1 / p.2 : ℚ) = num / den := by
  obtain ⟨g, hg, h⟩ := bind_eq_ok.1 h
  have hwrap : g = Int.gcd num den := eq_gcd_of_wrapped hg hlt
  have hpos : 0 < g := hwrap ▸ Int.natCast_pos.2 (Int.gcd_pos_of_ne_zero_right num hden)
  rw [div64_eq hpos, div64_eq hpos] at h
  cases h
  have hnum : num.tdiv g * g = num := Int.tdiv_mul_cancel (hwrap ▸ Int.gcd_dvd_left num den)
  have hdiv : den.tdiv g * g = den := Int.tdiv_mul_cancel (hwrap ▸ Int.gcd_dvd_right num den)
  have hg₀ : (g : ℚ) ≠ 0 := by exact_mod_cast hpos.ne'
  refine ⟨fun hzero => hden (hdiv.symm.trans (mul_eq_zero_of_left hzero g)), ?_⟩
  conv_rhs => rw [← hnum, ← hdiv]
  rw [Int.cast_mul, Int.cast_mul, mul_div_mul_right _ _ hg₀]

theorem gcd_lt_iff (hnum : InI64 num) (hden : InI64 den) (hne : den ≠ 0) :
    (Int.gcd num den : ℤ) < 2 ^ 63 ↔ ¬ (den = min64 ∧ (num = 0 ∨ num = min64)) := by
  constructor
  · rintro hlt ⟨rfl, rfl | rfl⟩
    · revert hlt
      decide
    · revert hlt
      decide
  · intro hnot
    by_contra hge
    refine hnot ?_
    have hle : ∀ {x : ℤ}, x ≠ 0 → (Int.gcd num den : ℤ) ∣ x → InI64 x → x = min64 := by
      intro x hx hdvd hrange
      have hle := Int.le_of_dvd (abs_pos.2 hx) ((dvd_abs _ _).2 hdvd)
      rw [InI64] at hrange
      rw [min64]
      rcases abs_cases x with ⟨habs, _⟩ | ⟨habs, _⟩ <;> omega
    refine ⟨hle hne (Int.gcd_dvd_right num den) hden, ?_⟩
    by_cases h₀ : num = 0
    · exact .inl h₀
    · exact .inr (hle h₀ (Int.gcd_dvd_left num den) hnum)

end

/-! ## Which texts are read exactly -/

def ReadsExactly (t : Text) : Prop :=
  match splitOnce '/' t with
  | some (a, b) =>
    ¬ (parseI64 (trim b) = some min64 ∧
      (parseI64 (trim a) = some 0 ∨ parseI64 (trim a) = some min64))
  | none => match stripSuffix '%' t with
    | some _ => True
    | none => match splitOnce '.' t with
      | some (a, b) =>
        (∀ c ∈ b, c.isDigit) ∧ b.length ≤ 18 ∧ (a.head? = some '-' → Nat.ofDigitChars 10 b 0 = 0) ∧
          ∀ n ∈ parseI64 a, InI64 (n * 10 ^ b.length + Nat.ofDigitChars 10 b 0)
      | none => True

section

variable {s a b : Text} {num den : ℤ} {n f : ℤ} {k : ℕ} {t : Text}

theorem ne_nil_of_splitOnce {c : Char} {p : Text × Text} (h : splitOnce c t = some p) : t ≠ [] := by
  rintro rfl
  cases h

theorem parseInt_of_parseI64 (h : parseI64 t = some n) : parseInt t = some n := by
  rw [parseI64, filter_eq_some_iff] at h
  exact h.1

theorem exact_iff_of_slash (hs : splitOnce '/' (trim s) = some (a, b))
    (h : parseFraction s = .ok (num, den)) :
    Exact s num den ↔
      ¬ (parseI64 (trim b) = some min64 ∧
        (parseI64 (trim a) = some 0 ∨ parseI64 (trim a) = some min64)) := by
  have hne := ne_nil_of_splitOnce hs
  simp only [parseFraction, parseFractionIn, if_neg hne, hs, bind_eq_ok, okOr_eq_ok] at h
  obtain ⟨n, hn, d, hd, h⟩ := h
  split at h
  · cases h
  next hd₀ =>
    have hchecked : parseFractionChecked s = reduced checked64 n d := by
      simp only [parseFractionChecked, parseFractionIn, if_neg hne, hs, hn, hd]
      exact if_neg hd₀
    have hgcd := gcd_lt_iff (parseI64_inI64 hn) (parseI64_inI64 hd) hd₀
    rw [hn, hd, some.injEq, some.injEq, some.injEq, ← hgcd, ← reduced_checked_iff h, ← hchecked]
    refine ⟨Exact.checked, fun hok => ?_⟩
    obtain ⟨hden, hvalue⟩ := value_of_reduced h hd₀ ((reduced_checked_iff h).1 (hchecked ▸ hok))
    refine ⟨hden, ?_, hok⟩
    rw [hvalue, (splitOnce_eq_some hs).1]
    exact .ratio (parseInt_of_parseI64 hn) (parseInt_of_parseI64 hd) hd₀

theorem exact_of_percent (hslash : splitOnce '/' (trim s) = none)
    (hs : stripSuffix '%' (trim s) = some a) (h : parseFraction s = .ok (num, den)) :
    Exact s num den := by
  have hne : trim s ≠ [] := by
    intro hnil
    rw [hnil] at hs
    cases hs
  simp only [parseFraction, parseFractionIn, if_neg hne, hslash, hs, bind_eq_ok, okOr_eq_ok] at h
  obtain ⟨n, hn, h⟩ := h
  have hgcd : (Int.gcd n 100 : ℤ) < 2 ^ 63 := gcd_lt_of_pos n (by decide) (by decide)
  obtain ⟨hden, hvalue⟩ := value_of_reduced h (by decide) hgcd
  refine ⟨hden, ?_, ?_⟩
  · obtain ⟨hlast, hdrop⟩ := ite_none_right_eq_some.1 hs
    rw [hvalue, ← List.dropLast_append_getLast? '%' hlast, some.inj hdrop, cast_ofNat]
    exact .percent (parseInt_of_parseI64 hn)
  · simp only [parseFractionChecked, parseFractionIn, if_neg hne, hslash, hs, hn]
    exact (reduced_checked_iff h).2 hgcd

theorem exact_of_integer (hslash : splitOnce '/' (trim s) = none)
    (hpercent : stripSuffix '%' (trim s) = none) (hpoint : splitOnce '.' (trim s) = none)
    (h : parseFraction s = .ok (num, den)) : Exact s num den := by
  by_cases hne : trim s = []
  · rw [parseFraction, parseFractionIn, hne] at h
    cases h
  · simp only [parseFraction, parseFractionIn, if_neg hne, hslash, hpercent, hpoint, bind_eq_ok,
      okOr_eq_ok] at h
    obtain ⟨n, hn, h⟩ := h
    cases h
    refine ⟨one_ne_zero, ?_, ?_⟩
    · rw [Int.cast_one, div_one]
      exact .integer (parseInt_of_parseI64 hn)
    · simp only [parseFractionChecked, parseFractionIn, if_neg hne, hslash, hpercent, hpoint, hn]
      rfl

theorem fracNum_eq (hb : ∀ c ∈ b, c.isDigit)
    (h : (if b = [] then some 0 else parseI64 b) = some f) :
    f = Nat.ofDigitChars 10 b 0 := by
  split at h
  next hnil =>
    rw [hnil, ← some.inj h]
    rfl
  next hne => exact some.inj ((parseInt_of_parseI64 h).symm.trans (parseInt_eq hne hb))

theorem pow_lt_iff : (10 : ℤ) ^ k < 2 ^ 63 ↔ k ≤ 18 := by
  constructor
  · intro hlt
    by_contra hk
    have hle : (10 : ℤ) ^ 19 ≤ 10 ^ k := pow_le_pow_right₀ (by decide) (by omega)
    exact absurd (hle.trans_lt hlt) (by decide)
  · intro hk
    exact (pow_le_pow_right₀ (by decide) hk).trans_lt (by decide)

theorem inI64_pow (hk : k ≤ 18) : InI64 (10 ^ k) :=
  ⟨(by decide : (-2 ^ 63 : ℤ) ≤ 0).trans (by positivity), pow_lt_iff.2 hk⟩

theorem value_of_decimal {f k : ℕ} (hk : k ≤ 18)
    (h : reduced wrapped64 (n * 10 ^ k + f) (10 ^ k) = .ok (num, den)) :
    den ≠ 0 ∧ reduced checked64 (n * 10 ^ k + f) (10 ^ k) = .ok (num, den) ∧
      (num / den : ℚ) = n + (f / 10 ^ k : ℚ) := by
  have hpos : (0 : ℤ) < 10 ^ k := by positivity
  have hgcd := gcd_lt_of_pos (n * 10 ^ k + f) hpos (pow_lt_iff.2 hk)
  obtain ⟨hden, hvalue⟩ := value_of_reduced h hpos.ne' hgcd
  refine ⟨hden, (reduced_checked_iff h).2 hgcd, ?_⟩
  have hne : (10 : ℚ) ^ k ≠ 0 := by positivity
  rw [hvalue]
  push_cast
  rw [add_div, mul_div_assoc, div_self hne, mul_one]

theorem add_eq_add_sign_mul_iff {neg : Prop} [Decidable neg] {f k : ℕ} :
    (n + f / 10 ^ k : ℚ) = n + (if neg then -1 else 1) * (f / 10 ^ k) ↔ (neg → f = 0) := by
  have hne : (10 : ℚ) ^ k ≠ 0 := by positivity
  split
  next hneg =>
    rw [add_right_inj, neg_one_mul, self_eq_neg, div_eq_zero_iff, or_iff_left hne, Nat.cast_eq_zero,
      imp_iff_right hneg]
  next hneg => exact iff_of_true (by rw [one_mul]) fun h => absurd h hneg

theorem inI64_mul_pow {f k : ℕ} (hn : parseI64 a = some n) (hneg : a.head? = some '-' → f = 0)
    (hsum : InI64 (n * 10 ^ k + f)) : InI64 (n * 10 ^ k) := by
  by_cases hn₀ : 0 ≤ n
  · have hmul : 0 ≤ n * 10 ^ k := mul_nonneg hn₀ (by positivity)
    exact ⟨by omega, by have := hsum.2; omega⟩
  · rw [hneg (head?_of_parseInt_neg (parseInt_of_parseI64 hn) (not_le.1 hn₀)), Nat.cast_zero,
      add_zero] at hsum
    exact hsum

theorem parseFractionChecked_eq_ok_iff {p : ℤ × ℤ} (hslash : splitOnce '/' (trim s) = none)
    (hpercent : stripSuffix '%' (trim s) = none) (hs : splitOnce '.' (trim s) = some (a, b))
    (hn : parseI64 a = some n) (hf : (if b = [] then some 0 else parseI64 b) = some f)
    (hb : ∀ c ∈ b, c.isDigit) :
    parseFractionChecked s = .ok p ↔ b.length ≤ 18 ∧ InI64 (n * 10 ^ b.length) ∧
      InI64 (n * 10 ^ b.length + f) ∧
      reduced checked64 (n * 10 ^ b.length + f) (10 ^ b.length) = .ok p := by
  have hiff : parseFractionChecked s = .ok p ↔ ∃ k, (if 2 ^ 32 ≤ b.length then .error .panic
      else .ok b.length : Result TropelError ℕ) = .ok k ∧ InI64 (10 ^ k) ∧ InI64 (n * 10 ^ k) ∧
        InI64 (n * 10 ^ k + f) ∧ reduced checked64 (n * 10 ^ k + f) (10 ^ k) = .ok p := by
    simp only [parseFractionChecked, parseFractionIn, if_neg (ne_nil_of_splitOnce hs), hslash,
      hpercent, hs, hn, hf, byteLen_of_isDigit hb, bind_eq_ok, okOr_eq_ok, checked64_eq_ok,
      some.injEq, exists_eq_left', and_assoc, exists_and_left]
  rw [hiff]
  constructor
  · rintro ⟨k, hk, hpow, hprod, hsum, hreduced⟩
    split at hk
    · cases hk
    · cases hk
      exact ⟨pow_lt_iff.1 hpow.2, hprod, hsum, hreduced⟩
  · rintro ⟨hk, hprod, hsum, hreduced⟩
    exact ⟨b.length, if_neg (by omega), inI64_pow hk, hprod, hsum, hreduced⟩

theorem exact_iff_of_point (hslash : splitOnce '/' (trim s) = none)
    (hpercent : stripSuffix '%' (trim s) = none) (hs : splitOnce '.' (trim s) = some (a, b))
    (h : parseFraction s = .ok (num, den)) :
    Exact s num den ↔
      (∀ c ∈ b, c.isDigit) ∧ b.length ≤ 18 ∧ (a.head? = some '-' → Nat.ofDigitChars 10 b 0 = 0) ∧
        ∀ n ∈ parseI64 a, InI64 (n * 10 ^ b.length + Nat.ofDigitChars 10 b 0) := by
  simp only [parseFraction, parseFractionIn, if_neg (ne_nil_of_splitOnce hs), hslash, hpercent, hs,
    wrapped64, bind_eq_ok, okOr_eq_ok, Except.ok.injEq] at h
  obtain ⟨n, hn, _, rfl, _, rfl, f, hf, _, rfl, _, rfl, h⟩ := h
  -- Nothing wraps around when the parts of the decimal are in range.
  have hexact (hb : ∀ c ∈ b, c.isDigit) (hk : b.length ≤ 18) (hprod : InI64 (n * 10 ^ b.length))
      (hsum : InI64 (n * 10 ^ b.length + Nat.ofDigitChars 10 b 0)) :
      reduced wrapped64 (n * 10 ^ b.length + Nat.ofDigitChars 10 b 0) (10 ^ b.length) =
        .ok (num, den) := by
    obtain rfl := fracNum_eq hb hf
    rw [byteLen_of_isDigit hb, Nat.mod_eq_of_lt (by omega), wrap64_of_inI64 (inI64_pow hk),
      wrap64_of_inI64 hprod, wrap64_of_inI64 hsum] at h
    exact h
  constructor
  · intro hex
    obtain ⟨hb, hvalue⟩ := hex.denotes.eq_of_decimal hslash hpercent hs (parseInt_of_parseI64 hn)
    obtain rfl := fracNum_eq hb hf
    obtain ⟨hk, hprod, hsum, -⟩ :=
      (parseFractionChecked_eq_ok_iff hslash hpercent hs hn hf hb).1 hex.checked
    obtain ⟨-, -, hdecimal⟩ := value_of_decimal hk (hexact hb hk hprod hsum)
    refine ⟨hb, hk, add_eq_add_sign_mul_iff.1 (hdecimal.symm.trans hvalue), fun n' hn' => ?_⟩
    rwa [some.inj (hn'.symm.trans hn)]
  · rintro ⟨hb, hk, hneg, hrange⟩
    obtain rfl := fracNum_eq hb hf
    have hsum := hrange n hn
    have hprod := inI64_mul_pow hn hneg hsum
    obtain ⟨hden, hreduced, hdecimal⟩ := value_of_decimal hk (hexact hb hk hprod hsum)
    refine ⟨hden, ?_,
      (parseFractionChecked_eq_ok_iff hslash hpercent hs hn hf hb).2 ⟨hk, hprod, hsum, hreduced⟩⟩
    rw [hdecimal, add_eq_add_sign_mul_iff.2 hneg, (splitOnce_eq_some hs).1]
    exact .decimal (parseInt_of_parseI64 hn) hb

/-- A bound is read exactly if its text is one of those that are. -/
theorem parseFraction_exact_iff (h : parseFraction s = .ok (num, den)) :
    Exact s num den ↔ ReadsExactly (trim s) := by
  rw [ReadsExactly]
  cases hslash : splitOnce '/' (trim s) with
  | some p => exact exact_iff_of_slash hslash h
  | none =>
    cases hpercent : stripSuffix '%' (trim s) with
    | some a => exact iff_of_true (exact_of_percent hslash hpercent h) trivial
    | none =>
      cases hpoint : splitOnce '.' (trim s) with
      | some p => exact exact_iff_of_point hslash hpercent hpoint h
      | none => exact iff_of_true (exact_of_integer hslash hpercent hpoint h) trivial

theorem parseFraction_exact_third : Exact " 2/6" 1 3 := by
  have hparse : parseFraction " 2/6" = .ok (1, 3) := by decide +kernel
  have hplain : ¬ (parseI64 (trim "6") = some min64 ∧
      (parseI64 (trim "2") = some 0 ∨ parseI64 (trim "2") = some min64)) := by decide +kernel
  exact (parseFraction_exact_iff hparse).2 hplain

theorem parseFraction_not_exact : parseFraction "-0.5" = .ok (1, 2) ∧ Denotes "-0.5" (-1 / 2) ∧
    ¬ Exact "-0.5" 1 2 ∧
      parseFraction ("0." ++ List.replicate 63 '0' ++ ['1']) = .ok (1, 0) := by
  have hparse : parseFraction "-0.5" = .ok (1, 2) := by decide +kernel
  have hdenotes := Denotes.decimal (a := "-0") (b := "5") (n := 0) (by decide) (by simp)
  have hvalue : ((0 : ℤ) + (if "-0".toList.head? = some '-' then -1 else 1) *
      (Nat.ofDigitChars 10 "5" 0 / 10 ^ "5".toList.length) : ℚ) = -1 / 2 := by
    decide +kernel
  refine ⟨hparse, ?_, fun hexact => ?_, by decide +kernel⟩
  · rw [hvalue] at hdenotes
    exact hdenotes
  · have hpoint : splitOnce '.' (trim "-0.5".toList) = some ("-0".toList, "5".toList) := by
      decide +kernel
    obtain ⟨-, -, hneg, -⟩ :=
      (exact_iff_of_point (by decide +kernel) (by decide +kernel) hpoint hparse).1 hexact
    exact absurd (hneg (by decide)) (by decide)

end

end ExecutionSegment

end Tropel
