import Mathlib.Data.List.MinMax
import Mathlib.Data.List.Sort

/-!
# Sorting by a key

`sortByKey` is a stable sort: the result is ordered by the key (`pairwise_sortByKey`), has the same
elements (`perm_sortByKey`), and keeps the order of those with the same key (`filter_sortByKey`).
-/

namespace Lib

open List

variable {α κ : Type*} [LinearOrder κ]

def sortByKey (key : α → κ) (l : List α) : List α := l.insertionSort fun a b => key a ≤ key b

variable (key : α → κ) (l : List α)

theorem perm_sortByKey : (sortByKey key l).Perm l := perm_insertionSort _ l

theorem pairwise_sortByKey : (sortByKey key l).Pairwise fun a b => key a ≤ key b := by
  have : Std.Total fun a b => key a ≤ key b := ⟨fun a b => le_total (key a) (key b)⟩
  have : IsTrans α fun a b => key a ≤ key b := ⟨fun _ _ _ => le_trans⟩
  exact pairwise_insertionSort _ l

theorem filter_sortByKey (k : κ) : (sortByKey key l).filter (key · = k) = l.filter (key · = k) := by
  -- Elements with the same key are in order already, so the sort keeps theirs.
  have hpairwise : (l.filter (key · = k)).Pairwise fun a b => key a ≤ key b := by
    refine pairwise_of_forall_mem_list fun a ha b hb => le_of_eq ?_
    exact (of_decide_eq_true (mem_filter.1 ha).2).trans (of_decide_eq_true (mem_filter.1 hb).2).symm
  have hsub : (l.filter (key · = k)).Sublist (sortByKey key l) :=
    sublist_insertionSort hpairwise filter_sublist
  have hfilter := hsub.filter (key · = k)
  simp only [filter_filter, Bool.and_self] at hfilter
  exact (hfilter.eq_of_length ((perm_sortByKey key l).filter _).length_eq.symm).symm

variable {key} {l}

theorem sortByKey_map {β : Type*} {key' : β → κ} {f : α → β} (h : ∀ a, key' (f a) = key a) :
    sortByKey key' (l.map f) = (sortByKey key l).map f :=
  (map_insertionSort _ _ f l fun a _ b _ => by rw [h, h]).symm

theorem sortByKey_eq_of_perm {l' : List α} (hkey : Function.Injective key) (h : l.Perm l') :
    sortByKey key l = sortByKey key l' := by
  have hperm : (sortByKey key l).Perm (sortByKey key l') :=
    ((perm_sortByKey key l).trans h).trans (perm_sortByKey key l').symm
  exact hperm.eq_of_pairwise (fun a b _ _ hab hba => hkey (le_antisymm hab hba))
    (pairwise_sortByKey key l)
    (pairwise_sortByKey key l')

open OrderDual

theorem find?_orderedInsert_of_not {p : α → Bool} {a : α} (ha : ¬ p a) (r : α → α → Prop)
    [DecidableRel r] :
    (l.orderedInsert r a).find? p = l.find? p := by
  induction l with
  | nil => rw [orderedInsert_nil, find?_cons_of_neg ha]
  | cons b l ih =>
    rw [orderedInsert_cons]
    split
    · rw [find?_cons_of_neg ha]
    · rw [find?_cons, find?_cons, ih]

theorem find?_orderedInsert {p : α → Bool} {a : α} (ha : p a)
    (h : l.Pairwise fun a b => toDual (key a) ≤ toDual (key b)) :
    (l.orderedInsert (fun a b => toDual (key a) ≤ toDual (key b)) a).find? p =
      Option.casesOn (l.find? p) (some a) fun c => if key a < key c then some c else some a := by
  induction l with
  | nil => rw [orderedInsert_nil, find?_cons_of_pos ha, find?_nil]
  | cons b l ih =>
    rw [pairwise_cons] at h
    rw [orderedInsert_cons]
    split
    next hle =>
      rw [find?_cons_of_pos ha]
      cases hfind : (b :: l).find? p with
      | none => rfl
      | some c =>
        -- the rest of the list has smaller keys still
        have hc : key c ≤ key a := by
          rcases mem_cons.1 (mem_of_find?_eq_some hfind) with rfl | hmem
          · exact toDual_le_toDual.1 hle
          · exact (toDual_le_toDual.1 (h.1 c hmem)).trans (toDual_le_toDual.1 hle)
        exact (if_neg hc.not_gt).symm
    next hlt =>
      cases hb : p b with
      | true =>
        rw [find?_cons_of_pos hb, find?_cons_of_pos hb]
        exact (if_pos (not_le.1 (mt toDual_le_toDual.2 hlt))).symm
      | false =>
        rw [find?_cons_of_neg (Bool.eq_false_iff.1 hb), find?_cons_of_neg (Bool.eq_false_iff.1 hb),
          ih h.2]

theorem find?_sortByKey_toDual (p : α → Bool) :
    (sortByKey (fun a => toDual (key a)) l).find? p = (l.filter p).argmax key := by
  induction l with
  | nil => rfl
  | cons a l ih =>
    have hsorted := pairwise_sortByKey (fun a => toDual (key a)) l
    change (List.orderedInsert _ a (sortByKey (fun a => toDual (key a)) l)).find? p = _
    by_cases ha : p a
    · rw [find?_orderedInsert ha hsorted, ih, filter_cons_of_pos ha, argmax_cons]
    · rw [find?_orderedInsert_of_not ha, ih, filter_cons_of_neg ha]

theorem argmax_eq_of_perm {l' : List α} (h : l.Perm l') (hnodup : (l.map key).Nodup) :
    l.argmax key = l'.argmax key := by
  cases hmax : l.argmax key with
  | none =>
    obtain rfl := argmax_eq_none.1 hmax
    rw [nil_perm.1 h, argmax_nil]
  | some a =>
    cases hmax' : l'.argmax key with
    | none =>
      rw [argmax_eq_none.1 hmax', perm_nil] at h
      rw [h, argmax_nil] at hmax
      exact absurd hmax.symm (Option.some_ne_none a)
    | some b =>
      have ha := argmax_mem hmax
      have hb := h.mem_iff.2 (argmax_mem hmax')
      have hkey := le_antisymm (le_of_mem_argmax (h.mem_iff.1 ha) hmax') (le_of_mem_argmax hb hmax)
      rw [inj_on_of_nodup_map hnodup ha hb hkey]

end Lib
