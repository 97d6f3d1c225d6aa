import Mathlib.Algebra.BigOperators.Ring.List
import Mathlib.Algebra.Order.BigOperators.Group.List
import Mathlib.Data.Int.Interval
import Mathlib.Data.Rat.Floor

/-!
# Shares of a total

A total `n` is dealt out over parts of the unit interval: the part `[a, b)` gets `⌊n b⌋ - ⌊n a⌋` of
it (`share`), the number of *grid points* `m / n` in `(a, b]`.
-/

namespace Lib

open List

variable (n : ℕ)

def share (a b : ℚ) : ℤ := ⌊n * b⌋ - ⌊n * a⌋

def gridPoints (a b : ℚ) : Finset ℤ :=
  -- The order is given, as the one found by inference may be classical.
  @Finset.Ioc ℤ instLatticeInt.toPartialOrder.toPreorder Int.instLocallyFiniteOrder ⌊n * a⌋ ⌊n * b⌋

theorem mem_gridPoints {n : ℕ} {a b : ℚ} {m : ℤ} :
    m ∈ gridPoints n a b ↔ n * a < m ∧ m ≤ n * b := by
  rw [gridPoints, Finset.mem_Ioc, Int.floor_lt, Int.le_floor]

theorem share_eq_card_sub_card (a b : ℚ) :
    share n a b = (gridPoints n a b).card - (gridPoints n b a).card := by
  rw [share, gridPoints, gridPoints, Int.card_Ioc, Int.card_Ioc]
  omega

theorem share_nonneg {n : ℕ} {a b : ℚ} (h : a ≤ b) : 0 ≤ share n a b := by
  rw [share, sub_nonneg]
  gcongr

/-! ## Seams -/

def seams (x : ℚ) : List (ℚ × ℚ) → List (ℚ × ℚ)
  | [] => [(x, 1)]
  | (a, b) :: l => (x, a) :: seams b l

variable (l : List (ℚ × ℚ))

def Tight : Prop := ∀ s ∈ l, s.1 = s.2

def OneWay : Prop := (∀ s ∈ l, s.1 ≤ s.2) ∨ ∀ s ∈ l, s.2 ≤ s.1

instance (l : List (ℚ × ℚ)) : Decidable (Tight l) := inferInstanceAs (Decidable (∀ _ ∈ l, _))

def lost : ℕ := (l.map fun s => (gridPoints n s.1 s.2).card).sum

def doubled : ℕ := (l.map fun s => (gridPoints n s.2 s.1).card).sum

theorem sum_share_add_sum_seams (x : ℚ) (l : List (ℚ × ℚ)) :
    (l.map fun s => share n s.1 s.2).sum + ((seams x l).map fun s => share n s.1 s.2).sum =
      share n x 1 := by
  induction l generalizing x with
  | nil => simp [seams]
  | cons s l ih =>
    have := ih s.2
    simp only [seams, map_cons, sum_cons, share] at this ⊢
    omega

theorem sum_share_eq_lost_sub_doubled :
    (l.map fun s => share n s.1 s.2).sum = lost n l - doubled n l := by
  induction l with
  | nil => simp [lost, doubled]
  | cons s l ih =>
    simp only [lost, doubled, map_cons, sum_cons, Nat.cast_add,
      share_eq_card_sub_card] at ih ⊢
    omega

theorem share_zero_one : share n 0 1 = n := by simp [share]

theorem sum_share_eq_iff : (l.map fun s => share n s.1 s.2).sum = n ↔
    lost n (seams 0 l) = doubled n (seams 0 l) := by
  have h := sum_share_add_sum_seams n 0 l
  rw [sum_share_eq_lost_sub_doubled n (seams 0 l), share_zero_one] at h
  omega

theorem lost_eq_doubled_of_tight {l : List (ℚ × ℚ)} (h : Tight l) (n : ℕ) :
    lost n l = doubled n l := by
  rw [lost, doubled]
  congr 1
  refine map_congr_left fun s hs => ?_
  rw [h s hs]

theorem sum_share_of_tight {l : List (ℚ × ℚ)} (h : Tight (seams 0 l)) (n : ℕ) :
    (l.map fun s => share n s.1 s.2).sum = n :=
  (sum_share_eq_iff n l).2 (lost_eq_doubled_of_tight h n)

theorem gridPoints_den_ne_empty {a b : ℚ} (h : a < b) : (gridPoints b.den a b).card ≠ 0 := by
  have hb : (b.den : ℚ) * b = b.num := by rw [mul_comm, Rat.mul_den_eq_num]
  refine Finset.card_ne_zero_of_mem (mem_gridPoints.2 ⟨?_, hb.ge⟩)
  rw [← hb]
  have : (0 : ℚ) < b.den := by exact_mod_cast b.pos
  gcongr

theorem gridPoints_eq_empty {n : ℕ} {a b : ℚ} (h : b ≤ a) : (gridPoints n a b).card = 0 := by
  rw [Finset.card_eq_zero, gridPoints, Finset.Ioc_eq_empty_iff, not_lt]
  gcongr

theorem doubled_eq_lost_swap : doubled n l = lost n (l.map Prod.swap) := by
  simp [doubled, lost, Function.comp_def]

theorem lost_ne_doubled {l : List (ℚ × ℚ)} (hl : ∀ s ∈ l, s.1 ≤ s.2) {s : ℚ × ℚ} (hs : s ∈ l)
    (hlt : s.1 < s.2) : lost s.2.den l ≠ doubled s.2.den l := by
  have h₀ : doubled s.2.den l = 0 := by
    rw [doubled, sum_eq_zero_iff]
    simp only [mem_map, forall_exists_index, and_imp, forall_apply_eq_imp_iff₂]
    exact fun s' hs' => gridPoints_eq_empty (hl s' hs')
  intro h
  rw [h₀, lost, sum_eq_zero_iff] at h
  exact gridPoints_den_ne_empty hlt (h _ (mem_map_of_mem hs))

theorem exists_lost_ne_doubled {l : List (ℚ × ℚ)} (hl : OneWay l) (ht : ¬Tight l) :
    ∃ s ∈ l, lost s.1.den l ≠ doubled s.1.den l ∨ lost s.2.den l ≠ doubled s.2.den l := by
  simp only [Tight, not_forall] at ht
  obtain ⟨s, hs, hne⟩ := ht
  refine ⟨s, hs, ?_⟩
  rcases hl with hl | hl
  · exact .inr (lost_ne_doubled hl hs (lt_of_le_of_ne (hl s hs) hne))
  · -- Overlaps are the gaps of the seams read backwards.
    have hswap : ∀ s ∈ l.map Prod.swap, s.1 ≤ s.2 := by
      simpa only [mem_map, forall_exists_index, and_imp, forall_apply_eq_imp_iff₂,
        Prod.fst_swap, Prod.snd_swap] using hl
    have h := lost_ne_doubled hswap (mem_map_of_mem hs)
      (lt_of_le_of_ne (hl s hs) (Ne.symm hne))
    rw [← doubled_eq_lost_swap, doubled_eq_lost_swap (l := l.map _), List.map_map,
      Prod.swap_swap_eq, List.map_id] at h
    exact .inl h.symm

/-! ## Sums over a list -/

variable {α : Type*} {l : List α} {a b : α → ℕ}

theorem le_sum_map {x : α} (hx : x ∈ l) : a x ≤ (l.map a).sum :=
  single_le_sum (fun _ _ => Nat.zero_le _) _ (mem_map_of_mem hx)

theorem sum_map_eq_zero : (l.map a).sum = 0 ↔ ∀ x ∈ l, a x = 0 := by
  simp [sum_eq_zero_iff]

theorem sum_guard_eq_iff : (l.map fun x => if 1 ≤ a x then b x else 0).sum = (l.map b).sum ↔
      ∀ x ∈ l, a x = 0 → b x = 0 := by
  have hsplit : (l.map b).sum = (l.map fun x => if 1 ≤ a x then b x else 0).sum +
      (l.map fun x => if a x = 0 then b x else 0).sum := by
    rw [← sum_map_add]
    congr 1
    refine map_congr_left fun x _ => ?_
    split_ifs <;> omega
  rw [hsplit, left_eq_add, sum_map_eq_zero]
  refine forall₂_congr fun x _ => ?_
  split_ifs <;> simp_all

theorem sum_mul_eq_iff_forall : (l.map fun x => a x * b x).sum = (l.map a).sum * (l.map b).sum ↔
      ∀ x ∈ l, a x = 0 ∨ b x = (l.map b).sum := by
  have hsplit : (l.map a).sum * (l.map b).sum = (l.map fun x => a x * b x).sum +
      (l.map fun x => a x * ((l.map b).sum - b x)).sum := by
    rw [← sum_map_add, ← sum_map_mul_right]
    congr 1
    refine map_congr_left fun x hx => ?_
    rw [← mul_add, Nat.add_sub_cancel' (le_sum_map hx)]
  rw [hsplit, left_eq_add, sum_map_eq_zero]
  refine forall₂_congr fun x hx => ?_
  have := le_sum_map (a := b) hx
  rw [mul_eq_zero]
  omega

theorem sum_mul_eq_mul_sum_iff : (l.map fun x => a x * b x).sum = (l.map a).sum * (l.map b).sum ↔
      (l.map a).sum = 0 ∨ (l.map b).sum = 0 ∨
        ∃ x ∈ l, a x = (l.map a).sum ∧ b x = (l.map b).sum := by
  constructor
  · intro h
    have hb := sum_mul_eq_iff_forall.1 h
    have ha := sum_mul_eq_iff_forall (a := b) (b := a).1 (by
      rw [mul_comm, ← h]
      simp only [mul_comm])
    by_cases hA : (l.map a).sum = 0
    · exact .inl hA
    by_cases hB : (l.map b).sum = 0
    · exact .inr (.inl hB)
    obtain ⟨x, hx, hax⟩ : ∃ x ∈ l, a x ≠ 0 := by
      by_contra hne
      push Not at hne
      exact hA (sum_map_eq_zero.2 hne)
    have hbx := (hb x hx).resolve_left hax
    exact .inr (.inr ⟨x, hx, (ha x hx).resolve_left (hbx ▸ hB), hbx⟩)
  · intro h
    rw [sum_mul_eq_iff_forall]
    intro y hy
    rcases h with hA | hB | ⟨x, hx, hax, hbx⟩
    · exact .inl (sum_map_eq_zero.1 hA y hy)
    · exact .inr ((sum_map_eq_zero.1 hB y hy).trans hB.symm)
    · -- The members before and after `x` have nothing left of `a`.
      obtain ⟨l₁, l₂, rfl⟩ := append_of_mem hx
      simp only [map_append, map_cons, sum_append, sum_cons] at hax
      rcases mem_append.1 hy with hy | hy
      · exact .inl (sum_map_eq_zero.1 (by omega) y hy)
      · rcases mem_cons.1 hy with rfl | hy
        · exact .inr hbx
        · exact .inl (sum_map_eq_zero.1 (by omega) y hy)

end Lib
