import Mathlib.Data.List.Basic

/-!
# Spaced instants

Instants, the latest first, are *spaced* if each is at least `d` after all earlier ones.
-/

namespace Lib

open List

def Spaced (d : ℕ) (l : List ℕ) : Prop := l.Pairwise fun later earlier => earlier + d ≤ later

namespace Spaced

variable {d : ℕ} {l : List ℕ}

theorem cons {c : ℕ} (h : Spaced d l) (hc : ∀ c' ∈ l, c' + d ≤ c) : Spaced d (c :: l) :=
  pairwise_cons.2 ⟨hc, h⟩

theorem add_length_mul_le {a c : ℕ} (h : Spaced d (c :: l)) (ha : ∀ c' ∈ c :: l, a ≤ c') :
    a + l.length * d ≤ c := by
  induction l generalizing c with
  | nil =>
    rw [length_nil, Nat.zero_mul]
    exact ha c mem_cons_self
  | cons c' l ih =>
    obtain ⟨hc, h⟩ := pairwise_cons.1 h
    have hlast := ih h fun x hx => ha x (mem_cons_of_mem _ hx)
    have hstep := hc c' mem_cons_self
    rw [length_cons, Nat.succ_mul, ← Nat.add_assoc]
    exact Nat.le_trans (Nat.add_le_add_right hlast d) hstep

theorem countP_window_le (h : Spaced d l) (hd : 0 < d) (a T : ℕ) :
    l.countP (fun c => a ≤ c ∧ c ≤ a + T) ≤ T / d + 1 := by
  rw [countP_eq_length_filter]
  have hfilter : Spaced d (l.filter fun c => a ≤ c ∧ c ≤ a + T) := List.Pairwise.filter _ h
  have hmem : ∀ c ∈ l.filter (fun c => a ≤ c ∧ c ≤ a + T), a ≤ c ∧ c ≤ a + T := by
    intro c hc
    simpa using (mem_filter.1 hc).2
  rcases hl : l.filter (fun c => a ≤ c ∧ c ≤ a + T) with _ | ⟨c, l'⟩
  · exact Nat.zero_le _
  rw [hl] at hfilter hmem
  have hlast := hfilter.add_length_mul_le fun c' hc' => (hmem c' hc').1
  have hwindow : l'.length * d ≤ T :=
    Nat.le_of_add_le_add_left (Nat.le_trans hlast (hmem c mem_cons_self).2)
  exact Nat.succ_le_succ ((Nat.le_div_iff_mul_le hd).2 hwindow)

end Spaced

/-! ## Spans of a sorted list -/

/-- Any `n + 1` instants in a row take at least `d`. -/
def Apart (n d : ℕ) (l : List ℕ) : Prop :=
  ∀ i x y, l[i]? = some x → l[i + n]? = some y → x + d ≤ y

namespace Apart

variable {n d : ℕ} {l l' : List ℕ}

theorem append_iff (hl : l.length ≤ n) : Apart n d (l ++ l') ↔
    (∀ j k x y, l[j]? = some x → l'[k]? = some y → l.length + k = j + n → x + d ≤ y) ∧
      Apart n d l' := by
  constructor
  · refine fun h => ⟨fun j k x y hx hy hk => ?_, fun i x y hx hy => ?_⟩
    · refine h j x y ?_ ?_
      · rwa [getElem?_append_left (List.getElem?_eq_some_iff.1 hx).1]
      · rwa [← hk, getElem?_append_right (Nat.le_add_right _ _), Nat.add_sub_cancel_left]
    · refine h (l.length + i) x y ?_ ?_
      · rwa [getElem?_append_right (Nat.le_add_right _ _), Nat.add_sub_cancel_left]
      · rwa [Nat.add_assoc, getElem?_append_right (Nat.le_add_right _ _), Nat.add_sub_cancel_left]
  · rintro ⟨hcross, hright⟩ i x y hx hy
    rw [getElem?_append_right (Nat.le_trans hl (Nat.le_add_left _ _))] at hy
    by_cases hi : i < l.length
    · rw [getElem?_append_left hi] at hx
      exact hcross i _ x y hx hy (by omega)
    · rw [getElem?_append_right (Nat.not_lt.1 hi)] at hx
      exact hright _ x y hx (by rwa [← Nat.sub_add_comm (Nat.not_lt.1 hi)])

theorem tail {x : ℕ} (h : Apart n d (x :: l)) : Apart n d l :=
  fun i y z hy hz => h (i + 1) y z hy (by rwa [Nat.add_right_comm])

theorem of_countP_le (hl : l.Pairwise (· ≤ ·))
    (h : ∀ a, l.countP (fun t => a ≤ t ∧ t < a + d) ≤ n) : Apart n d l := by
  induction l with
  | nil => exact fun i x y hx => by cases hx
  | cons z l ih =>
    have htail := ih (pairwise_cons.1 hl).2 fun a =>
      Nat.le_trans ((sublist_cons_self z l).countP_le) (h a)
    rintro (_ | i) x y hx hy
    · obtain rfl : z = x := Option.some.inj hx
      rw [Nat.zero_add] at hy
      by_contra hlt
      -- the entries up to `y` are all in the span that begins at `z`
      have htake : (z :: l).take (n + 1) = (z :: l).take n ++ [y] := by
        rw [take_add_one, hy, Option.toList_some]
      have hall : ∀ t ∈ (z :: l).take (n + 1), decide (z ≤ t ∧ t < z + d) = true := by
        intro t ht
        have hsorted := hl.sublist (take_sublist (n + 1) (z :: l))
        rw [htake, pairwise_append] at hsorted
        have hty : t ≤ y := by
          rw [htake, mem_append, mem_singleton] at ht
          exact ht.elim (fun ht => hsorted.2.2 t ht y (mem_singleton_self y)) Nat.le_of_eq
        have hzt : z ≤ t := by
          rcases mem_cons.1 (mem_of_mem_take ht) with rfl | ht
          · exact Nat.le_refl _
          · exact (pairwise_cons.1 hl).1 t ht
        exact decide_eq_true ⟨hzt, by omega⟩
      have hlength : ((z :: l).take (n + 1)).length = n + 1 :=
        length_take_of_le (List.getElem?_eq_some_iff.1 hy).1
      have hcount := (take_sublist (n + 1) (z :: l)).countP_le (p := fun t => z ≤ t ∧ t < z + d)
      rw [countP_eq_length.2 hall, hlength] at hcount
      exact absurd (Nat.le_trans hcount (h z)) (Nat.not_succ_le_self n)
    · exact htail i x y hx (by rwa [Nat.add_right_comm] at hy)

theorem countP_drop_eq_zero {z a : ℕ} (hl : (z :: l).Pairwise (· ≤ ·)) (h : Apart n d (z :: l))
    (ha : a ≤ z) : ((z :: l).drop n).countP (fun t => a ≤ t ∧ t < a + d) = 0 := by
  refine countP_eq_zero.2 fun t ht hspan => ?_
  replace hspan := of_decide_eq_true hspan
  obtain ⟨y, rest, hdrop⟩ := exists_cons_of_ne_nil (ne_nil_of_mem ht)
  have hy : (z :: l)[0 + n]? = some y := by
    rw [Nat.zero_add, ← head?_drop, hdrop, head?_cons]
  have hzy := h 0 z y rfl hy
  have hsorted := hl.sublist (drop_sublist n (z :: l))
  rw [hdrop] at hsorted ht
  have hyt : y ≤ t := by
    rcases mem_cons.1 ht with rfl | ht
    · exact Nat.le_refl _
    · exact (pairwise_cons.1 hsorted).1 t ht
  omega

/-- In a sorted list, no span of length `d` holds more than `n` instants just when any `n + 1` in a
    row take at least `d`. -/
theorem countP_le_iff (hl : l.Pairwise (· ≤ ·)) :
    (∀ a, l.countP (fun t => a ≤ t ∧ t < a + d) ≤ n) ↔ Apart n d l := by
  refine ⟨of_countP_le hl, fun h a => ?_⟩
  induction l with
  | nil => exact Nat.zero_le _
  | cons z l ih =>
    by_cases hz : a ≤ z
    · rw [← take_append_drop n (z :: l), countP_append, countP_drop_eq_zero hl h hz, Nat.add_zero]
      exact Nat.le_trans countP_le_length (length_take_le n _)
    · rw [countP_cons_of_neg fun hspan => hz (of_decide_eq_true hspan).1]
      exact ih (pairwise_cons.1 hl).2 h.tail

end Apart

end Lib
