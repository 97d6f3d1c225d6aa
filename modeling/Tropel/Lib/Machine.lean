import Mathlib.Algebra.GroupWithZero.Nat
import Mathlib.Algebra.Order.BigOperators.Group.List

/-!
# Machines

A *machine* says what an action does to a state, if the action is enabled there.
-/

namespace Lib

open List

structure Machine (S A : Type*) where
  step : S → A → Option S

namespace Machine

variable {S A : Type*} (m : Machine S A)

def exec (s : S) : List A → Option S
  | [] => some s
  | a :: as => (m.step s a).bind fun s' => exec s' as

def guard (G : S → A → Prop) [∀ s a, Decidable (G s a)] : Machine S A where
  step s a := if G s a then m.step s a else none

def total (w : S → A → ℕ) (s : S) : List A → ℕ
  | [] => 0
  | a :: as => w s a + ((m.step s a).elim 0 fun s' => total w s' as)

def peak (f : S → ℕ) (s : S) : List A → ℕ
  | [] => f s
  | a :: as => max (f s) ((m.step s a).elim 0 fun s' => peak f s' as)

def play (s : S) (as : ℕ → A) : ℕ → S
  | 0 => s
  | n + 1 => (m.step (play s as n) (as n)).getD (play s as n)

inductive ReachableWith (G : S → A → Prop) (s₀ : S) : S → Prop
  | refl : ReachableWith G s₀ s₀
  | step {s s' : S} {a : A} : ReachableWith G s₀ s → G s a → m.step s a = some s' →
      ReachableWith G s₀ s'

def Reachable (s₀ s : S) : Prop := m.ReachableWith (fun _ _ => True) s₀ s

variable {m} {G : S → A → Prop} {P : S → Prop} {s₀ s : S}

theorem ReachableWith.invariant (hs : m.ReachableWith G s₀ s) (h₀ : P s₀)
    (hstep : ∀ {s s' : S} {a : A}, P s → G s a → m.step s a = some s' → P s') : P s := by
  induction hs with
  | refl => exact h₀
  | step _ hG h ih => exact hstep ih hG h

theorem Reachable.invariant (hs : m.Reachable s₀ s) (h₀ : P s₀)
    (hstep : ∀ {s s' : S} {a : A}, P s → m.step s a = some s' → P s') : P s :=
  ReachableWith.invariant hs h₀ fun hP _ h => hstep hP h

theorem ReachableWith.trans {s₁ s₂ : S} (h₁ : m.ReachableWith G s₀ s₁)
    (h₂ : m.ReachableWith G s₁ s₂) : m.ReachableWith G s₀ s₂ := by
  induction h₂ with
  | refl => exact h₁
  | step _ hG h ih => exact .step ih hG h

variable {as : List A}

theorem reachableWith_of_exec {m' : Machine S A}
    (hsub : ∀ {s s' : S} {a : A}, m'.step s a = some s' → G s a ∧ m.step s a = some s')
    (h : m'.exec s₀ as = some s) : m.ReachableWith G s₀ s := by
  induction as generalizing s₀ with
  | nil =>
    rw [exec, Option.some.injEq] at h
    exact h ▸ .refl
  | cons a as ih =>
    rw [exec, Option.bind_eq_some_iff] at h
    obtain ⟨s₁, h₁, h⟩ := h
    obtain ⟨hG, h₁⟩ := hsub h₁
    exact .trans (.step .refl hG h₁) (ih h)

theorem reachable_of_exec (h : m.exec s₀ as = some s) : m.Reachable s₀ s :=
  reachableWith_of_exec (fun h => ⟨trivial, h⟩) h

theorem reachableWith_of_guard [∀ s a, Decidable (G s a)]
    (h : (m.guard G).exec s₀ as = some s) : m.ReachableWith G s₀ s :=
  reachableWith_of_exec (fun h => by simpa [guard] using h) h

theorem exec_append (s : S) (as bs : List A) : m.exec s (as ++ bs) = (m.exec s as).bind fun s' =>
    m.exec s' bs := by
  induction as generalizing s with
  | nil => rfl
  | cons a as ih =>
    rw [cons_append, exec, exec, Option.bind_assoc]
    simp only [ih]

theorem exec_append_singleton (s : S) (as : List A) (a : A) :
    m.exec s (as ++ [a]) = (m.exec s as).bind fun s' => m.step s' a := by
  rw [exec_append]
  simp only [exec, Option.bind_fun_some]

theorem exec_invariant_of {w : S → A → ℕ} {P : S → ℕ → Prop} {Q : A → Prop} {n : ℕ}
    (hQ : ∀ a ∈ as, Q a) (h : m.exec s₀ as = some s) (h₀ : P s₀ n)
    (hstep : ∀ {s s' : S} {a : A} {n : ℕ}, Q a → P s n → m.step s a = some s' → P s' (n + w s a)) :
    P s (n + m.total w s₀ as) := by
  induction as generalizing s₀ n with
  | nil =>
    rw [exec, Option.some.injEq] at h
    exact h ▸ h₀
  | cons a as ih =>
    rw [forall_mem_cons] at hQ
    rw [exec, Option.bind_eq_some_iff] at h
    obtain ⟨s₁, h₁, h⟩ := h
    rw [total, h₁, Option.elim_some, ← Nat.add_assoc]
    exact ih hQ.2 h (hstep hQ.1 h₀ h₁)

theorem exec_invariant {w : S → A → ℕ} {P : S → ℕ → Prop} {n : ℕ} (h : m.exec s₀ as = some s)
    (h₀ : P s₀ n)
    (hstep : ∀ {s s' : S} {a : A} {n : ℕ}, P s n → m.step s a = some s' → P s' (n + w s a)) :
    P s (n + m.total w s₀ as) :=
  exec_invariant_of (Q := fun _ => True) (fun _ _ => trivial) h h₀ fun _ => hstep

theorem le_peak (f : S → ℕ) (s : S) (as : List A) : f s ≤ m.peak f s as := by
  cases as with
  | nil => exact le_rfl
  | cons a as => exact le_max_left _ _

theorem exec_peak {f : S → ℕ} {P : S → ℕ → Prop} (h : m.exec s₀ as = some s) (h₀ : P s₀ (f s₀))
    (hstep : ∀ {s s' : S} {a : A} {n : ℕ}, P s n → f s ≤ n → m.step s a = some s' →
      P s' (max n (f s'))) : P s (m.peak f s₀ as) := by
  -- The sizes before `s₀` are not greater than `n`.
  suffices hsuff : ∀ (as : List A) (s₀ : S) (n : ℕ), m.exec s₀ as = some s → P s₀ n → f s₀ ≤ n →
      P s (max n (m.peak f s₀ as)) by
    have := hsuff as s₀ (f s₀) h h₀ le_rfl
    rwa [max_eq_right (le_peak f s₀ as)] at this
  intro as
  induction as with
  | nil =>
    intro s₀ n h hP hn
    rw [exec, Option.some.injEq] at h
    rw [peak, max_eq_left hn]
    exact h ▸ hP
  | cons a as ih =>
    intro s₀ n h hP hn
    rw [exec, Option.bind_eq_some_iff] at h
    obtain ⟨s₁, h₁, h⟩ := h
    have := ih s₁ _ h (hstep hP hn h₁) (le_max_right _ _)
    rw [max_assoc, max_eq_right (le_peak f s₁ as)] at this
    rwa [peak, h₁, Option.elim_some, ← max_assoc, max_eq_left hn]

end Machine

/-! ## Pools -/

variable {α : Type*} {p : α → Bool}
  {l : List α} {i : ℕ} {a b : α} {β : Type*} {f : α → Option β} {c : β}

theorem any_eq_false_iff_getElem? : l.any p = false ↔ ∀ (i : ℕ) a, l[i]? = some a →
    p a = false := by
  rw [any_eq_false]
  constructor
  · intro h i a ha
    exact Bool.eq_false_of_not_eq_true (h a (mem_of_getElem? ha))
  · intro h a ha
    obtain ⟨i, hi⟩ := getElem?_of_mem ha
    rw [h i a hi]
    exact Bool.false_ne_true

theorem getElem?_of_isPrefix {l l' : List α} (h : l <+: l') (ha : l[i]? = some a) :
    l'[i]? = some a := by
  obtain ⟨t, rfl⟩ := h
  rwa [getElem?_append_left (List.getElem?_eq_some_iff.1 ha).1]

theorem set_eq_self (h : l[i]? = some a) : l.set i a = l := by
  obtain ⟨hi, rfl⟩ := List.getElem?_eq_some_iff.1 h
  exact set_getElem_self hi

theorem eq_or_of_getElem?_set {i j : ℕ} {a b c : α} (h : l[i]? = some a)
    (hc : (l.set i b)[j]? = some c) : (j = i ∧ c = b) ∨ (j ≠ i ∧ l[j]? = some c) := by
  have hi : i < l.length := (List.getElem?_eq_some_iff.1 h).1
  by_cases hij : i = j
  · subst hij
    rw [getElem?_set_self hi, Option.some.injEq] at hc
    exact .inl ⟨rfl, hc.symm⟩
  · rw [getElem?_set_ne hij] at hc
    exact .inr ⟨Ne.symm hij, hc⟩

theorem eq_or_of_getElem?_concat (h : (l ++ [b])[i]? = some a) : l[i]? = some a ∨ a = b := by
  rcases lt_or_ge i l.length with hlt | hge
  · exact .inl (by rwa [getElem?_append_left hlt] at h)
  · rw [getElem?_append_right hge] at h
    exact .inr (mem_singleton.1 (mem_of_getElem? h))

theorem countP_set (h : l[i]? = some a) (b : α) :
    (l.set i b).countP p + (if p a then 1 else 0) = l.countP p + (if p b then 1 else 0) := by
  obtain ⟨hi, rfl⟩ := List.getElem?_eq_some_iff.1 h
  have hle := boole_getElem_le_countP (p := p) hi
  rw [List.countP_set hi]
  omega

theorem sum_map_set {f : α → ℕ} (h : l[i]? = some a) (b : α) :
    ((l.set i b).map f).sum + f a = (l.map f).sum + f b := by
  induction l generalizing i with
  | nil => cases h
  | cons c l ih =>
    cases i with
    | zero =>
      cases h
      simp only [set_cons_zero, map_cons, sum_cons]
      omega
    | succ i =>
      have := ih h
      simp only [set_cons_succ, map_cons, sum_cons]
      omega

theorem filterMap_set_perm (h : l[i]? = some a) (ha : f a = none) (hb : f b = some c) :
    ((l.set i b).filterMap f).Perm (c :: l.filterMap f) := by
  induction l generalizing i with
  | nil => cases h
  | cons x l ih =>
    rcases i with _ | i
    · obtain rfl := Option.some.inj h
      rw [set_cons_zero, filterMap_cons_some hb, filterMap_cons_none ha]
    · have hperm := ih h
      rw [set_cons_succ]
      rcases hx : f x with _ | y
      · rwa [filterMap_cons_none hx, filterMap_cons_none hx]
      · rw [filterMap_cons_some hx, filterMap_cons_some hx]
        exact (hperm.cons y).trans (.swap c y _)

theorem filterMap_perm_set (h : l[i]? = some a) (ha : f a = some c) (hb : f b = none) :
    (l.filterMap f).Perm (c :: (l.set i b).filterMap f) := by
  have hi : i < l.length := (List.getElem?_eq_some_iff.1 h).1
  have hset : (l.set i b).set i a = l := by
    rw [set_set, set_eq_self h]
  have hperm := filterMap_set_perm (getElem?_set_self hi) hb ha
  rwa [hset] at hperm

theorem filterMap_set_of_eq (h : l[i]? = some a) (hab : f b = f a) :
    (l.set i b).filterMap f = l.filterMap f := by
  induction l generalizing i with
  | nil => cases h
  | cons x l ih =>
    rcases i with _ | i
    · obtain rfl := Option.some.inj h
      rw [set_cons_zero, filterMap_cons, filterMap_cons, hab]
    · rw [set_cons_succ, filterMap_cons, filterMap_cons, ih h]

theorem countP_append_replicate (l : List α) (n : ℕ) (a : α) :
    (l ++ List.replicate n a).countP p = l.countP p + (if p a then n else 0) := by
  rw [countP_append, countP_replicate]

end Lib
