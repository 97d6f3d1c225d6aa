import Mathlib.Data.List.Nodup
import Mathlib.Order.Defs.LinearOrder

/-!
# Moving keys below their parents

Keys with parents are to become a forest.
-/

namespace Lib

open List

variable {K : Type*} [DecidableEq K] (parent : K → K) (keys : List K)

def movedFrom (moved : List K) : List K → List K
  | [] => moved
  | k :: ks => movedFrom (if parent k ∈ keys ∧ parent k ∉ moved then moved ++ [k] else moved) ks

def moved : List K := movedFrom parent keys [] keys

variable {parent keys} {k : K} {ks ks' A : List K}

theorem movedFrom_append : movedFrom parent keys A (ks ++ ks') =
    movedFrom parent keys (movedFrom parent keys A ks) ks' := by
  induction ks generalizing A with
  | nil => rfl
  | cons x ks ih => rw [cons_append, movedFrom, ih, movedFrom]

theorem movedFrom_sublist : (movedFrom parent keys A ks).Sublist (A ++ ks) := by
  induction ks generalizing A with
  | nil =>
    rw [append_nil]
    exact List.Sublist.refl A
  | cons x ks ih =>
    rw [movedFrom]
    refine ih.trans ?_
    split
    · rw [append_assoc, singleton_append]
    · exact (sublist_cons_self x ks).append_left A

theorem moved_sublist : (moved parent keys).Sublist keys := movedFrom_sublist

theorem mem_movedFrom_of_notMem (hk : k ∉ ks) : k ∈ movedFrom parent keys A ks ↔ k ∈ A := by
  induction ks generalizing A with
  | nil => rfl
  | cons x ks ih =>
    rw [mem_cons, not_or] at hk
    rw [movedFrom, ih hk.2]
    split
    · rw [mem_append, mem_singleton, or_iff_left hk.1]
    · rfl

variable [Preorder K]

theorem mem_moved_iff (hsorted : keys.Pairwise (· < ·)) (hparent : ∀ k ∈ keys, parent k < k) :
    k ∈ moved parent keys ↔ k ∈ keys ∧ parent k ∈ keys ∧ parent k ∉ moved parent keys := by
  by_cases hk : k ∈ keys
  · rw [and_iff_right hk]
    obtain ⟨ks, ks', hkeys⟩ := append_of_mem hk
    have hmoved :
        moved parent keys = movedFrom parent keys (movedFrom parent keys [] ks) (k :: ks') := by
      rw [← movedFrom_append, ← hkeys, moved]
    obtain ⟨-, hafter, hbefore⟩ := pairwise_append.1 (hkeys ▸ hsorted)
    have hks : k ∉ ks := fun h => lt_irrefl k (hbefore k h k mem_cons_self)
    have hks' : k ∉ ks' := fun h => lt_irrefl k (rel_of_pairwise_cons hafter h)
    -- The parent of `k` has had its turn before `k`.
    have hturn : parent k ∈ moved parent keys ↔ parent k ∈ movedFrom parent keys [] ks := by
      rw [hmoved]
      refine mem_movedFrom_of_notMem fun h => ?_
      rcases mem_cons.1 h with h | h
      · exact ne_of_lt (hparent k hk) h
      · exact lt_asymm (hparent k hk) (rel_of_pairwise_cons hafter h)
    have hnot : k ∉ movedFrom parent keys [] ks := fun h => hks (movedFrom_sublist.subset h)
    rw [hturn, hmoved, movedFrom, mem_movedFrom_of_notMem hks']
    split
    next hmove => exact iff_of_true (mem_append_right _ mem_cons_self) hmove
    next hmove => exact iff_of_false hnot hmove
  · exact iff_of_false (fun h => hk (moved_sublist.subset h)) fun h => hk h.1

theorem forall_mem_moved_iff (hsorted : keys.Pairwise (· < ·))
    (hparent : ∀ k ∈ keys, parent k < k) :
    (∀ k ∈ keys, parent k ∈ keys → k ∈ moved parent keys) ↔
      ∀ k ∈ keys, parent k ∈ keys → parent (parent k) ∉ keys := by
  constructor
  · intro h k hk hparentk hgrandparent
    obtain ⟨-, -, hnot⟩ := (mem_moved_iff hsorted hparent).1 (h k hk hparentk)
    exact hnot (h _ hparentk hgrandparent)
  · intro h k hk hparentk
    refine (mem_moved_iff hsorted hparent).2 ⟨hk, hparentk, fun hmoved => ?_⟩
    obtain ⟨-, hgrandparent, -⟩ := (mem_moved_iff hsorted hparent).1 hmoved
    exact h k hk hparentk hgrandparent

end Lib
