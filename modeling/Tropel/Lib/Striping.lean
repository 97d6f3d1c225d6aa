import Mathlib.Algebra.BigOperators.Ring.Finset
import Mathlib.Data.Nat.Nth
import Mathlib.Data.Nat.Periodic
import Mathlib.Tactic.Ring

/-!
# Stripings

The ticks `0, 1, 2, …` are dealt out to finitely many members of positive weight, periodically: a
cycle is the sum of the weights.
-/

namespace Lib

open Finset Nat

/-! ## Periodic sets of ticks -/

section Periodic

variable {P : ℕ → Prop} [DecidablePred P] {L : ℕ}

noncomputable def gap (P : ℕ → Prop) : ℕ → ℤ
  | 0 => Nat.nth P 0
  | j + 1 => Nat.nth P (j + 1) - Nat.nth P j

theorem count_add_cycle (hP : Function.Periodic P L) (n : ℕ) :
    Nat.count P (n + L) = Nat.count P n + Nat.count P L := by
  have hshift : ∀ k, P (L + k) ↔ P k := fun k => by rw [add_comm, hP]
  rw [add_comm n, count_add, add_comm]
  simp only [hshift]

theorem infinite_of_periodic (hP : Function.Periodic P L) (hL : 0 < Nat.count P L) :
    (Set.ofPred P).Infinite := by
  obtain ⟨t, ht⟩ := Finset.card_pos.1 (count_eq_card_filter_range P L ▸ hL)
  obtain ⟨ht, hPt⟩ := Finset.mem_filter.1 ht
  rw [Finset.mem_range] at ht
  refine Set.infinite_of_injective_forall_mem (f := fun q => t + q * L) (fun q q' h => ?_)
    fun q => ?_
  · exact eq_of_mul_eq_mul_right (by omega) (add_left_cancel h)
  · have h := hP.nat_mul q t
    rw [cast_id] at h
    exact (eq_iff_iff.1 h).2 hPt

theorem nth_add_count (hP : Function.Periodic P L) (hL : 0 < Nat.count P L) (k : ℕ) :
    Nat.nth P (k + Nat.count P L) = Nat.nth P k + L := by
  have hinf := infinite_of_periodic hP hL
  have hk : P (nth P k + L) := by
    rw [hP]
    exact nth_mem_of_infinite hinf k
  have hc : count P (nth P k + L) = k + count P L := by
    rw [count_add_cycle hP, count_nth_of_infinite hinf]
  rw [← hc, nth_count hk]

theorem gap_add (hP : Function.Periodic P L) (hL : 0 < Nat.count P L) (j q : ℕ) :
    gap P (j + Nat.count P L * q + 1) = gap P (j + 1) := by
  induction q with
  | zero => rw [mul_zero, add_zero]
  | succ q ih =>
    rw [← ih, gap, gap, mul_succ, ← add_assoc, add_right_comm _ (count P L) 1,
      nth_add_count hP hL, nth_add_count hP hL]
    push_cast
    ring

end Periodic

/-! ## Stripings -/

section Greedy

variable {ι : Type*} [Fintype ι]

theorem exists_not_early [Nonempty ι] {L g : ℕ} {w c : ι → ℕ} (hw : ∑ i, w i = L)
    (hc : ∑ i, c i = g) : ∃ i, c i * L ≤ g * w i := by
  by_contra hne
  push Not at hne
  have hlt : ∑ i, g * w i < ∑ i, c i * L :=
    Finset.sum_lt_sum_of_nonempty Finset.univ_nonempty fun i _ => hne i
  rw [← Finset.mul_sum, ← Finset.sum_mul, hw, hc] at hlt
  exact lt_irrefl _ hlt

theorem sum_count_owner [DecidableEq ι] (owner : ℕ → ι) (n : ℕ) :
    ∑ i, Nat.count (fun g => owner g = i) n = n :=
  calc ∑ i, count (fun g => owner g = i) n
    _ = ∑ i, ((range n).filter fun g => owner g = i).card :=
      Finset.sum_congr rfl fun _ _ => count_eq_card_filter_range _ _
    _ = (range n).card := (Finset.card_eq_sum_card_fiberwise fun _ _ => mem_coe.2 (mem_univ _)).symm
    _ = n := Finset.card_range n

end Greedy

structure Striping (ι : Type*) [Fintype ι] [DecidableEq ι] where
  cycle : ℕ
  weight : ι → ℕ
  owner : ℕ → ι
  weight_pos : ∀ i, 0 < weight i
  sum_weight : ∑ i, weight i = cycle
  periodic : Function.Periodic owner cycle
  not_early : ∀ g < cycle, Nat.count (fun h => owner h = owner g) g * cycle ≤ g * weight (owner g)

namespace Striping

variable {ι : Type*} [Fintype ι] [DecidableEq ι] (s : Striping ι)

def Owns (i : ι) (g : ℕ) : Prop := s.owner g = i

instance (i : ι) : DecidablePred (s.Owns i) := fun g => inferInstanceAs (Decidable (s.owner g = i))

theorem owns_periodic (i : ι) : Function.Periodic (s.Owns i) s.cycle := fun g => by
  rw [Owns, Owns, s.periodic]

theorem cycle_pos (i : ι) : 0 < s.cycle := by
  rw [← s.sum_weight]
  exact (s.weight_pos i).trans_le (Finset.single_le_sum (fun _ _ => zero_le _) (mem_univ i))

theorem sum_count (n : ℕ) : ∑ i, Nat.count (s.Owns i) n = n := sum_count_owner s.owner n

theorem count_mul_lt_of_le {n : ℕ} (hn : n ≤ s.cycle) (i : ι) :
    Nat.count (s.Owns i) n * s.cycle < n * s.weight i + s.cycle := by
  -- Only a tick of `i` changes its count, and then it was not early.
  induction n with
  | zero => simpa using s.cycle_pos i
  | succ n ih =>
    by_cases hi : s.Owns i n
    · have h : count (s.Owns i) n * s.cycle ≤ n * s.weight i := by
        have := s.not_early n hn
        rwa [show s.owner n = i from hi] at this
      have := s.weight_pos i
      rw [count_succ_eq_succ_count hi, succ_mul, succ_mul]
      omega
    · have := ih (by omega)
      rw [count_succ_eq_count hi, succ_mul]
      omega

theorem count_cycle (i : ι) : Nat.count (s.Owns i) s.cycle = s.weight i := by
  have hle : ∀ j, count (s.Owns j) s.cycle ≤ s.weight j := fun j => by
    by_contra hlt
    push Not at hlt
    have h := s.count_mul_lt_of_le le_rfl j
    have : (s.weight j + 1) * s.cycle ≤ count (s.Owns j) s.cycle * s.cycle :=
      mul_le_mul_right _ hlt
    rw [add_mul, mul_comm (s.weight j)] at this
    omega
  have hsum : ∑ j, count (s.Owns j) s.cycle = ∑ j, s.weight j := by
    rw [s.sum_count, s.sum_weight]
  exact (Finset.sum_eq_sum_iff_of_le fun j _ => hle j).1 hsum i (Finset.mem_univ i)

theorem card_window (i : ι) (a : ℕ) :
    ((Finset.Ico a (a + s.cycle)).filter (s.Owns i)).card = s.weight i := by
  rw [filter_Ico_card_eq_of_periodic _ _ _ (s.owns_periodic i), s.count_cycle]

theorem count_cycle_pos (i : ι) : 0 < Nat.count (s.Owns i) s.cycle := by
  rw [s.count_cycle]
  exact s.weight_pos i

theorem count_add_cycle_mul (i : ι) (n q : ℕ) :
    Nat.count (s.Owns i) (n + s.cycle * q) = Nat.count (s.Owns i) n + s.weight i * q := by
  induction q with
  | zero => rw [mul_zero, mul_zero, add_zero, add_zero]
  | succ q ih =>
    rw [mul_succ, ← add_assoc, count_add_cycle (s.owns_periodic i), ih, s.count_cycle,
      mul_succ, add_assoc]

theorem count_mul_lt (i : ι) (n : ℕ) :
    Nat.count (s.Owns i) n * s.cycle < n * s.weight i + s.cycle := by
  have hlt := mod_lt n (s.cycle_pos i)
  have h := s.count_mul_lt_of_le hlt.le i
  rw [← mod_add_div n s.cycle, s.count_add_cycle_mul, add_mul, add_mul]
  have : s.weight i * (n / s.cycle) * s.cycle = s.cycle * (n / s.cycle) * s.weight i := by ring
  omega

end Striping

end Lib
