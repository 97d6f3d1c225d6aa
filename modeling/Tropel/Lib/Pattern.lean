import Mathlib.Data.List.Chain
import Tropel.Lib.Text

/-!
# Splitting at a pattern

A list is split wherever a pattern stands in it (`splitPattern`, as `str::split` does with a text).
-/

namespace Lib

open List Option Nat

variable {α : Type*}

theorem not_pair_infix_iff {x y : α} {l : List α} : ¬[x, y] <:+: l ↔ l.IsChain fun a b =>
    ¬(a = x ∧ b = y) := by
  induction l with
  | nil => simp
  | cons c l ih =>
    rw [infix_cons_iff, not_or, ih, isChain_cons]
    refine and_congr_left fun _ => ?_
    cases l with
    | nil => simp
    | cons d l => simp [cons_prefix_cons, eq_comm]

section

variable {x y : α} {d a b : List α}

theorem infix_of_infix_append (hxy : x ≠ y) (h : x :: y :: d <:+: a ++ x :: y :: b) :
    [x, y] <:+: a ∨ x :: y :: d <:+: x :: y :: b := by
  induction a with
  | nil => exact Or.inr h
  | cons c a ih =>
    rcases infix_cons_iff.1 h with h | h
    · refine Or.inl ?_
      obtain ⟨rfl, hnext⟩ := cons_prefix_cons.1 h
      cases a with
      | nil => exact absurd (cons_prefix_cons.1 hnext).1 (Ne.symm hxy)
      | cons e a =>
        obtain ⟨rfl, -⟩ := cons_prefix_cons.1 hnext
        exact (prefix_append [x, y] a).isInfix
    · exact (ih h).imp_left fun h => h.trans (suffix_cons c a).isInfix

theorem infix_cons_cons_iff (hxy : x ≠ y) : x :: y :: d <:+: x :: y :: b ↔
    d <+: b ∨ x :: y :: d <:+: b := by
  rw [infix_cons_iff, infix_cons_iff, cons_prefix_cons, cons_prefix_cons, cons_prefix_cons]
  simp [hxy]

end

section

variable [DecidableEq α] {x : α} {p a b t : List α}

theorem splitOncePattern_eq_none_iff (hp : p ≠ []) : splitOncePattern p t = none ↔ ¬p <:+: t := by
  induction t with
  | nil => simp [splitOncePattern, hp]
  | cons c t ih =>
    rw [splitOncePattern, infix_cons_iff, not_or, ← ih]
    split
    next h => simp [List.isPrefixOf_iff_prefix.1 h]
    next h => simp [mt isPrefixOf_iff_prefix.2 h]

theorem splitOncePattern_eq_some (hp : p ≠ []) (h : splitOncePattern p t = some (a, b)) :
    t = a ++ (p ++ b) ∧ ¬p <:+: a := by
  induction t generalizing a with
  | nil => cases h
  | cons c t ih =>
    rw [splitOncePattern] at h
    split at h
    next hstarts =>
      cases h
      exact ⟨(prefix_iff_eq_append.1 (List.isPrefixOf_iff_prefix.1 hstarts)).symm,
        mt infix_nil.1 hp⟩
    next hstarts =>
      obtain ⟨⟨a', b'⟩, hsplit, hab⟩ := map_eq_some_iff.1 h
      cases hab
      obtain ⟨rfl, ha'⟩ := ih hsplit
      refine ⟨rfl, fun hplace => ?_⟩
      -- a place in the first piece would be an earlier one
      rcases infix_cons_iff.1 hplace with hstart | hplace
      · refine hstarts (List.isPrefixOf_iff_prefix.2 ?_)
        exact hstart.trans (prefix_append _ (p ++ b'))
      · exact ha' hplace

theorem splitOncePattern_append_of_absent (hx : x ∉ p) (ha : ¬x :: p <:+: a) :
    splitOncePattern (x :: p) (a ++ (x :: p ++ b)) = some (a, b) := by
  induction a with
  | nil =>
    rw [nil_append, cons_append, splitOncePattern, ← cons_append, if_pos, drop_left]
    exact isPrefixOf_iff_prefix.2 (prefix_append _ _)
  | cons c a ih =>
    rw [infix_cons_iff, not_or] at ha
    rw [cons_append, splitOncePattern, if_neg, ih ha.2, map_some]
    rw [List.isPrefixOf_iff_prefix, cons_prefix_cons]
    rintro ⟨rfl, hstart⟩
    rcases prefix_or_prefix_of_prefix hstart (prefix_append a _) with hp | ⟨r, rfl⟩
    · exact ha.1 (cons_prefix_cons.2 ⟨rfl, hp⟩)
    · -- the place would reach into the next one, whose first element is not in the rest
      rw [prefix_append_right_inj] at hstart
      cases r with
      | nil =>
        rw [append_nil] at ha
        exact ha.1 prefix_rfl
      | cons e r =>
        obtain ⟨rfl, -⟩ := cons_prefix_cons.1 hstart
        exact hx (mem_append_right _ mem_cons_self)

end

/-! ## All places -/

section

variable [DecidableEq α] {x : α} {p a b t : List α}

def splitPatternUpTo (p : List α) : ℕ → List α → List (List α)
  | 0, t => [t]
  | n + 1, t =>
    match splitOncePattern p t with
    | none => [t]
    | some (a, b) => a :: splitPatternUpTo p n b

def splitPattern (p t : List α) : List (List α) := splitPatternUpTo p t.length t

theorem length_lt_of_splitOncePattern (hp : p ≠ []) (h : splitOncePattern p t = some (a, b)) :
    b.length < t.length := by
  obtain ⟨rfl, -⟩ := splitOncePattern_eq_some hp h
  have hlength := length_pos_iff.2 hp
  rw [length_append, length_append]
  omega

theorem splitPatternUpTo_eq (hp : p ≠ []) {m n : ℕ} (hm : t.length ≤ m) (hn : t.length ≤ n) :
    splitPatternUpTo p m t = splitPatternUpTo p n t := by
  -- both numbers are large enough for every place to be found
  induction m generalizing n t with
  | zero =>
    rw [length_eq_zero_iff.1 (le_zero.1 hm)]
    cases n <;> rfl
  | succ m ih =>
    cases n with
    | zero =>
      rw [length_eq_zero_iff.1 (le_zero.1 hn)]
      rfl
    | succ n =>
      rw [splitPatternUpTo, splitPatternUpTo]
      cases h : splitOncePattern p t with
      | none => rfl
      | some ab =>
        have hlt := length_lt_of_splitOncePattern hp h
        exact congrArg _ (ih (by omega) (by omega))

theorem splitPattern_of_none (h : splitOncePattern p t = none) : splitPattern p t = [t] := by
  rw [splitPattern]
  cases t with
  | nil => rfl
  | cons c t => rw [length_cons, splitPatternUpTo, h]

theorem splitPattern_of_some (hp : p ≠ []) (h : splitOncePattern p t = some (a, b)) :
    splitPattern p t = a :: splitPattern p b := by
  have hlt := length_lt_of_splitOncePattern hp h
  rw [splitPattern, splitPatternUpTo_eq hp le_rfl (le_succ _), splitPatternUpTo, h, splitPattern]
  exact congrArg _ (splitPatternUpTo_eq hp hlt.le le_rfl)

theorem splitPattern_append (hx : x ∉ p) (ha : ¬x :: p <:+: a) :
    splitPattern (x :: p) (a ++ (x :: p ++ b)) = a :: splitPattern (x :: p) b :=
  splitPattern_of_some (cons_ne_nil _ _) (splitOncePattern_append_of_absent hx ha)

theorem splitPattern_induction {motive : List α → List (List α) → Prop} (hp : p ≠ [])
    (whole : ∀ t, ¬p <:+: t → motive t [t])
    (first : ∀ a b, ¬p <:+: a → motive b (splitPattern p b) →
      motive (a ++ (p ++ b)) (a :: splitPattern p b))
    (t : List α) : motive t (splitPattern p t) := by
  induction hn : t.length using Nat.strong_induction_on generalizing t with
  | _ n ih =>
    cases h : splitOncePattern p t with
    | none =>
      rw [splitPattern_of_none h]
      exact whole t ((splitOncePattern_eq_none_iff hp).1 h)
    | some ab =>
      obtain ⟨ht, ha⟩ := splitOncePattern_eq_some hp h
      have hlt := length_lt_of_splitOncePattern hp h
      rw [splitPattern_of_some hp h]
      nth_rewrite 1 [ht]
      exact first _ _ ha (ih _ (hn ▸ hlt) _ rfl)

theorem not_infix_of_mem_splitPattern (hp : p ≠ []) : ∀ l ∈ splitPattern p t, ¬p <:+: l := by
  refine splitPattern_induction (motive := fun _ pieces => ∀ l ∈ pieces,
    ¬p <:+: l) hp (fun t ht => ?_)
    (fun a b ha ih => ?_) t
  · exact forall_mem_singleton.2 ht
  · exact forall_mem_cons.2 ⟨ha, ih⟩

theorem intercalate_splitPattern (hp : p ≠ []) (t : List α) :
    p.intercalate (splitPattern p t) = t := by
  refine (splitPattern_induction (motive := fun t pieces => pieces ≠ [] ∧
    p.intercalate pieces = t) hp (fun t _ => ?_) (fun a b _ ih => ?_) t).2
  · exact ⟨cons_ne_nil _ _, intercalate_singleton⟩
  · refine ⟨cons_ne_nil _ _, ?_⟩
    rw [intercalate_cons_of_ne_nil ih.1, ih.2, append_assoc]

end

/-! ## Replacing -/

section

variable [DecidableEq α] {x : α} {p new t : List α}

def replacePattern (p new t : List α) : List α := new.intercalate (splitPattern p t)

theorem replacePattern_of_absent (hp : p ≠ []) (h : ¬p <:+: t) : replacePattern p new t = t := by
  rw [replacePattern, splitPattern_of_none ((splitOncePattern_eq_none_iff hp).2 h),
    intercalate_singleton]

theorem splitPattern_ne_nil (p t : List α) : splitPattern p t ≠ [] := by
  rw [splitPattern]
  unfold splitPatternUpTo
  split
  · exact cons_ne_nil _ _
  · split <;> exact cons_ne_nil _ _

theorem replacePattern_append (hp : p ≠ []) (t : List α) :
    replacePattern p new (p ++ t) = new ++ replacePattern p new t := by
  have h : splitOncePattern p (p ++ t) = some ([], t) := by
    cases p with
    | nil => exact absurd rfl hp
    | cons y p =>
      rw [cons_append, splitOncePattern, ← cons_append,
        if_pos (List.isPrefixOf_iff_prefix.2 (prefix_append _ _)), drop_left]
  rw [replacePattern, splitPattern_of_some hp h,
    intercalate_cons_of_ne_nil (splitPattern_ne_nil p t)]
  rfl

theorem replacePattern_cons (hp : p ≠ []) (h : ¬p <+: x :: t) :
    replacePattern p new (x :: t) = x :: replacePattern p new t := by
  have hsplit : splitOncePattern p (x :: t) = (splitOncePattern p t).map fun q =>
    (x :: q.1, q.2) := by
    rw [splitOncePattern, if_neg (mt List.isPrefixOf_iff_prefix.1 h)]
  rw [replacePattern, replacePattern]
  cases hq : splitOncePattern p t with
  | none =>
    rw [hq, map_none] at hsplit
    rw [splitPattern_of_none hq, splitPattern_of_none hsplit, intercalate_singleton,
      intercalate_singleton]
  | some q =>
    rw [hq, map_some] at hsplit
    have hne := splitPattern_ne_nil p q.2
    rw [splitPattern_of_some hp hq, splitPattern_of_some hp hsplit, intercalate_cons_of_ne_nil hne,
      intercalate_cons_of_ne_nil hne]
    rfl

theorem replacePattern_append_cons (hp : p ≠ []) (hx : x ∉ p) (a b : List α) :
    replacePattern p new (a ++ x :: b) = replacePattern p new a ++ x :: replacePattern p new b := by
  have hsep (a : List α) (h : p <+: a ++ x :: b) : p <+: a := by
    rcases prefix_or_prefix_of_prefix h (prefix_append a _) with h' | ⟨q, rfl⟩
    · exact h'
    · cases q with
      | nil => exact (append_nil a).symm ▸ prefix_rfl
      | cons y q =>
        rw [prefix_append_right_inj] at h
        obtain ⟨rfl, -⟩ := cons_prefix_cons.1 h
        exact absurd (mem_append_right _ mem_cons_self) hx
  induction hn : a.length using Nat.strong_induction_on generalizing a with
  | _ n ih =>
    cases a with
    | nil =>
      rw [nil_append, replacePattern_cons hp fun h => hp (prefix_nil.1 (hsep [] h)),
        replacePattern_of_absent (t := []) hp (mt infix_nil.1 hp)]
      rfl
    | cons c a =>
      by_cases hstart : p <+: c :: a
      · obtain ⟨r, hr⟩ := hstart
        have hlt : r.length < n := by
          rw [← hn, ← hr, length_append]
          have := length_pos_iff.2 hp
          omega
        rw [← hr, append_assoc, replacePattern_append hp, replacePattern_append hp,
          ih r.length hlt r rfl, append_assoc]
      · have hnot : ¬p <+: c :: (a ++ x :: b) := mt (hsep (c :: a)) hstart
        rw [cons_append, replacePattern_cons hp hnot, replacePattern_cons hp hstart,
          ih a.length (by simp [← hn]) a rfl, cons_append]

/-- Each of the `n` places of the pattern changes the length by the same amount. -/
theorem exists_length_replacePattern (hp : p ≠ []) (new t : List α) : ∃ n, (n = 0 ↔ ¬p <:+: t) ∧
    (replacePattern p new t).length + n * p.length = t.length + n * new.length := by
  refine (splitPattern_induction (motive := fun t pieces => pieces ≠ [] ∧ ∃ n, (n = 0 ↔ ¬p <:+: t) ∧
    (new.intercalate pieces).length + n * p.length = t.length + n * new.length) hp (fun t ht => ?_)
    (fun a b _ ih => ?_) t).2
  · refine ⟨cons_ne_nil _ _, 0, iff_of_true rfl ht, ?_⟩
    rw [intercalate_singleton, Nat.zero_mul, Nat.zero_mul]
  · obtain ⟨hne, n, -, hlength⟩ := ih
    refine ⟨cons_ne_nil _ _, n + 1,
      iff_of_false (succ_ne_zero n) (not_not_intro ⟨a, b, append_assoc a p b⟩), ?_⟩
    rw [intercalate_cons_of_ne_nil hne, length_append, length_append, length_append, length_append,
      Nat.succ_mul, Nat.succ_mul]
    omega

theorem replacePattern_eq_self_iff (hp : p ≠ []) : replacePattern p new t = t ↔
    ¬p <:+: t ∨ new = p := by
  refine ⟨fun h => ?_, ?_⟩
  · by_contra hnot
    rw [not_or, not_not] at hnot
    obtain ⟨n, hn, hlength⟩ := exists_length_replacePattern hp new t
    have hpos : n ≠ 0 := fun h0 => hn.1 h0 hnot.1
    rw [h, Nat.add_left_cancel_iff, Nat.mul_right_inj hpos] at hlength
    -- The first place is replaced by a text of the same length.
    cases hsplit : splitOncePattern p t with
    | none => exact (splitOncePattern_eq_none_iff hp).1 hsplit hnot.1
    | some ab =>
      have ht := (splitOncePattern_eq_some hp hsplit).1
      rw [replacePattern, splitPattern_of_some hp hsplit,
        intercalate_cons_of_ne_nil (splitPattern_ne_nil p _)] at h
      rw [ht, append_assoc, append_cancel_left_eq] at h
      exact hnot.2 (append_inj_left h hlength.symm)
  · rintro (h | rfl)
    · exact replacePattern_of_absent hp h
    · exact intercalate_splitPattern hp t

end

end Lib
