import Tropel.Lib.F64
import Tropel.Lib.Text

/-!
# Numbers in decimal

A number in decimal (`Nat.toDigits 10`, as `toString` does) is read back, and what separates it from
other text is not in it.
-/

namespace Lib

open List Option Bool

variable {t : Text} {c : Char} {n : ℕ}

theorem parseDigits_eq (h : ∀ c ∈ t, c.isDigit) (acc : ℕ) :
    parseDigits acc t = some (Nat.ofDigitChars 10 t acc) := by
  induction t generalizing acc with
  | nil => rfl
  | cons c t ih =>
    obtain ⟨hc, ht⟩ := forall_mem_cons.1 h
    rw [parseDigits, if_pos hc, ih ht, Nat.mul_comm]
    rfl

theorem isDigit_of_parseDigits {acc n : ℕ} (h : parseDigits acc t = some n) :
    ∀ c ∈ t, c.isDigit := by
  induction t generalizing acc with
  | nil => exact forall_mem_nil _
  | cons c t ih =>
    rw [parseDigits] at h
    obtain ⟨hc, h⟩ := ite_none_right_eq_some.1 h
    exact forall_mem_cons.2 ⟨hc, ih h⟩

theorem exists_parseDigits {f : ℤ → ℤ} {n : ℤ} (h : ((parseDigits 0 t).map fun m => f m) = some n) :
    ∃ m : ℕ, parseDigits 0 t = some m ∧ f m = n := by
  obtain ⟨w, hw, rfl⟩ := map_eq_some_iff.1 h
  obtain ⟨m, hm, hmw⟩ := bind_eq_some_iff.1 hw
  obtain rfl := some.inj hmw
  exact ⟨m, hm, rfl⟩

theorem isDigit_or_sign_of_parseInt {n : ℤ} (h : parseInt t = some n) (hc : c ∈ t) :
    c.isDigit ∨ c = '-' ∨ c = '+' := by
  match t with
  | [] => cases hc
  | [d] =>
    obtain rfl := mem_singleton.1 hc
    exact .inl (ite_none_right_eq_some.1 h).1
  | d :: d' :: t =>
    simp only [parseInt] at h
    split at h
    next hd =>
      obtain ⟨m, hm, -⟩ := exists_parseDigits h
      exact (mem_cons.1 hc).elim (fun h => .inr (.inl (h.trans hd))) fun h =>
        .inl (isDigit_of_parseDigits hm c h)
    split at h
    next hd =>
      obtain ⟨m, hm, -⟩ := exists_parseDigits h
      exact (mem_cons.1 hc).elim (fun h => .inr (.inr (h.trans hd))) fun h =>
        .inl (isDigit_of_parseDigits hm c h)
    next =>
      obtain ⟨m, hm, -⟩ := exists_parseDigits h
      exact .inl (isDigit_of_parseDigits hm c hc)

theorem head?_of_parseInt_neg {n : ℤ} (h : parseInt t = some n) (hn : n < 0) :
    t.head? = some '-' := by
  match t with
  | [] => cases h
  | [d] =>
    have hval := (ite_none_right_eq_some.1 h).2
    have := some.inj hval
    omega
  | d :: d' :: t =>
    simp only [parseInt] at h
    split at h
    next hd => rw [hd, head?_cons]
    -- Without the sign, the number is not negative.
    split at h
    all_goals
      obtain ⟨m, -, rfl⟩ := exists_parseDigits h
      omega

theorem parseInt_eq (hne : t ≠ []) (h : ∀ c ∈ t, c.isDigit) :
    parseInt t = some (Nat.ofDigitChars 10 t 0 : ℤ) := by
  obtain ⟨c, t, rfl⟩ := exists_cons_of_ne_nil hne
  have hc : c.isDigit := h c mem_cons_self
  have hminus : c ≠ '-' := by rintro rfl; cases hc
  have hplus : c ≠ '+' := by rintro rfl; cases hc
  cases t with
  | nil =>
    rw [parseInt, if_pos hc]
    simp [Nat.ofDigitChars]
  | cons d t => simp [parseInt, hminus, hplus, parseDigits_eq h]

theorem isDigit_of_mem_toDigits (h : c ∈ Nat.toDigits 10 n) : c.isDigit :=
  Nat.isDigit_of_mem_toDigits (by decide) (by decide) h

theorem toDigits_injective : Function.Injective (Nat.toDigits 10) := by
  intro n n' h
  have hvalue := congrArg (fun t => Nat.ofDigitChars 10 t 0) h
  simpa only [Nat.ofDigitChars_ten_toDigits] using hvalue

theorem parseI64_zeros (k : ℕ) (h : n < 2 ^ 63) :
    parseI64 (List.replicate k '0' ++ Nat.toDigits 10 n) = some (n : ℤ) := by
  have hdigit : ∀ c ∈ List.replicate k '0' ++ Nat.toDigits 10 n, c.isDigit := by
    intro c hc
    rcases mem_append.1 hc with hc | hc
    · rw [eq_of_mem_replicate hc]
      rfl
    · exact isDigit_of_mem_toDigits hc
  have hne : List.replicate k '0' ++ Nat.toDigits 10 n ≠ [] :=
    append_ne_nil_of_right_ne_nil _ Nat.toDigits_ne_nil
  rw [parseI64, parseInt_eq hne hdigit, Nat.ofDigitChars_append, Nat.ofDigitChars_replicate_zero,
    mul_zero, Nat.ofDigitChars_ten_toDigits, filter_some, if_pos]
  rw [decide_eq_true_eq, InI64]
  omega

theorem parseI64_toDigits (h : n < 2 ^ 63) : parseI64 (Nat.toDigits 10 n) = some (n : ℤ) :=
  parseI64_zeros 0 h

theorem toNat_of_isDigit (h : c.isDigit) : 48 ≤ c.toNat ∧ c.toNat ≤ 57 := Char.isDigit_iff_toNat.1 h

theorem byteLen_of_isDigit (h : ∀ c ∈ t, c.isDigit) : byteLen t = t.length := by
  induction t with
  | nil => rfl
  | cons c t ih =>
    obtain ⟨hc, ht⟩ := forall_mem_cons.1 h
    have hsize : c.utf8Size = 1 := by
      have hle := toNat_of_isDigit hc
      refine if_pos (c := c.val ≤ 0x7f) (UInt32.le_iff_toNat_le.2 ?_)
      change c.toNat ≤ 127
      omega
    rw [byteLen, map_cons, sum_cons, ← byteLen, ih ht, hsize, length_cons, add_comm]

theorem toNat_of_isAlphanum (h : c.isAlphanum) : 33 ≤ c.toNat ∧ c.toNat < 128 := by
  replace h : ((decide (c.val ≥ 'A'.val ∧ c.val ≤ 'Z'.val) ||
    (decide (c.val ≥ 'a'.val) && decide (c.val ≤ 'z'.val))) || c.isDigit) = true := h
  simp only [Char.isDigit, or_eq_true, and_eq_true, decide_eq_true_eq, UInt32.le_iff_toNat_le,
    ge_iff_le] at h
  change ((65 ≤ c.toNat ∧ c.toNat ≤ 90) ∨ (97 ≤ c.toNat ∧ c.toNat ≤ 122)) ∨
    (48 ≤ c.toNat ∧ c.toNat ≤ 57) at h
  omega

theorem isWhitespace_of_isAlphanum (h : c.isAlphanum) : isWhitespace c = false := by
  have hle := toNat_of_isAlphanum h
  simp only [isWhitespace, or_eq_false_iff, and_eq_false_iff, decide_eq_false_iff_not]
  omega

theorem isWhitespace_of_isDigit (h : c.isDigit) : isWhitespace c = false := by
  refine isWhitespace_of_isAlphanum ?_
  rw [Char.isAlphanum, h, Bool.or_true]

/-! ## Integers as floating-point numbers -/

end Lib
