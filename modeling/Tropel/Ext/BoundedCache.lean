import Mathlib.Data.List.DropRight
import Tropel.Lib.IndexMap

/-!
# Bounded caches

A cache that evicts its oldest entry when it is full, and knows the age of its entries from a queue
of their keys.

* `cacheInsertBounded_exact`: what map and queue hold.
-/

namespace Tropel.BoundedCache

open Lib List

variable {κ ν : Type*} [DecidableEq κ]

structure Cache (κ ν : Type*) where
  map : IndexMap κ ν
  order : List κ

def evict (max : ℕ) (c : Cache κ ν) (key : κ) : Cache κ ν :=
  if (c.map.get key).isNone ∧ c.map.length ≥ max then
    match c.order with
    | [] => c
    | oldest :: order => ⟨c.map.erase oldest, order⟩
  else c

def cacheInsertBounded (max : ℕ) (c : Cache κ ν) (e : κ × ν) : Cache κ ν :=
  if max = 0 then c
  else
    let c := evict max c e.1
    ⟨c.map.insert e.1 e.2, if (c.map.get e.1).isNone then c.order ++ [e.1] else c.order⟩

def after (max : ℕ) (calls : List (κ × ν)) : Cache κ ν :=
  calls.foldl (cacheInsertBounded max) ⟨∅, []⟩

/-- The keys that the calls found missing, which are admitted at that time. -/
def admissions (max : ℕ) (calls : List (κ × ν)) : List κ :=
  calls.zipIdx.filterMap fun e =>
    if ((after max (calls.take e.2)).map.get e.1.1).isNone then some e.1.1 else none

structure Exact (max : ℕ) (calls : List (κ × ν)) (admitted : List κ) (c : Cache κ ν) : Prop where
  nodup : c.order.Nodup
  mem_order : ∀ k, k ∈ c.order ↔ (c.map.get k).isSome
  value : ∀ k v, c.map.get k = some v → (calls.filter (·.1 = k)).getLast? = some (k, v)
  order_eq : c.order = admitted.rtake max

variable {max m : ℕ} {calls : List (κ × ν)} {admitted : List κ} {c : Cache κ ν}

theorem Exact.length (h : Exact max calls admitted c) : c.map.length = c.order.length := by
  have hperm : (c.map.entries.map Prod.fst).Perm c.order :=
    (perm_ext_iff_of_nodup c.map.nodup h.nodup).2 fun k =>
      IndexMap.mem_keys_iff.trans (h.mem_order k).symm
  rw [IndexMap.length, ← length_map, hperm.length_eq]

theorem Exact.evict (h : Exact (m + 1) calls admitted c) {k : κ} (hmiss : (c.map.get k).isNone) :
    (evict (m + 1) c k).order = admitted.rtake m ∧
      ∀ j, (evict (m + 1) c k).map.get j = if j ∈ (evict (m + 1) c k).order then c.map.get j
        else none := by
  have habsent : ∀ j ∉ c.order, c.map.get j = none := fun j hj => by
    rwa [h.mem_order, Option.not_isSome_iff_eq_none] at hj
  have hlength := h.length
  rw [h.order_eq, rtake, length_drop] at hlength
  rw [BoundedCache.evict]
  split_ifs with hfull
  · have hdrop : admitted.rtake m = c.order.tail := by
      rw [h.order_eq, rtake, rtake, tail_drop]
      congr 1
      omega
    rw [hdrop]
    cases heq : c.order with
    | nil => simp [h.length, heq] at hfull
    | cons oldest order =>
      have hnot := (nodup_cons.1 (heq ▸ h.nodup)).1
      refine ⟨rfl, fun j => ?_⟩
      change (c.map.erase oldest).get j = if j ∈ order then c.map.get j else none
      rw [IndexMap.erase, IndexMap.get_retain]
      by_cases hj : j = oldest
      · simp [hj, hnot]
      · split_ifs with hmem
        · cases c.map.get j <;> simp [hj]
        · rw [habsent j (by simp [heq, hj, hmem]), Option.filter_none]
  · have hdrop : admitted.rtake m = admitted.rtake (m + 1) := by
      have hfew := not_and.1 hfull hmiss
      rw [rtake, rtake]
      congr 1
      omega
    refine ⟨hdrop ▸ h.order_eq, fun j => ?_⟩
    split_ifs with hj
    · rfl
    · exact habsent j hj

theorem Exact.insert (h : Exact (m + 1) calls admitted c) (e : κ × ν) :
    Exact (m + 1) (calls ++ [e]) (admitted ++ if (c.map.get e.1).isNone then [e.1] else [])
      (cacheInsertBounded (m + 1) c e) := by
  have hvalue : ∀ k v, (if k = e.1 then some e.2 else c.map.get k) = some v →
      ((calls ++ [e]).filter (·.1 = k)).getLast? = some (k, v) := by
    intro k v hv
    rw [filter_append, filter_singleton]
    split_ifs at hv with hk
    · rw [hk, decide_eq_true rfl, cond_true, getLast?_concat, ← Option.some.inj hv]
    · rw [decide_eq_false (Ne.symm hk), cond_false, append_nil]
      exact h.value k v hv
  rw [cacheInsertBounded, if_neg m.succ_ne_zero]
  cases hget : c.map.get e.1 with
  | some v =>
    have hevict : BoundedCache.evict (m + 1) c e.1 = c := if_neg fun hfull => by
      simp [hget] at hfull
    simp only [hevict, hget, Option.isNone_some, Bool.false_eq_true, if_false, append_nil]
    refine ⟨h.nodup, fun k => ?_,
      fun k v hv => hvalue k v (IndexMap.get_insert c.map e.1 k e.2 ▸ hv), h.order_eq⟩
    rw [h.mem_order, IndexMap.get_insert]
    split_ifs with hk
    · simp [hk, hget]
    · rfl
  | none =>
    obtain ⟨horder, hmap⟩ := h.evict (Option.isNone_iff_eq_none.2 hget)
    have hsub : (BoundedCache.evict (m + 1) c e.1).order.Sublist c.order := by
      rw [horder, h.order_eq]
      exact drop_sublist_drop_left _ (by omega)
    have hnot : e.1 ∉ c.order := by simp [h.mem_order, hget]
    simp only [hmap, hget, ite_self, Option.isNone_none, if_true]
    refine ⟨?_, fun k => ?_, fun k v hv => hvalue k v ?_, ?_⟩
    · rw [← concat_eq_append, nodup_concat]
      exact ⟨fun hmem => hnot (hsub.subset hmem), h.nodup.sublist hsub⟩
    · rw [mem_append, mem_singleton, IndexMap.get_insert, hmap]
      by_cases hk : k = e.1
      · simp [hk]
      · by_cases hmem : k ∈ (BoundedCache.evict (m + 1) c e.1).order
        · simp [hk, hmem, ← h.mem_order, hsub.subset hmem]
        · simp [hk, hmem]
    · rw [IndexMap.get_insert, hmap] at hv
      split_ifs at hv ⊢ <;> exact hv
    · rw [horder, rtake_concat_succ]

theorem admissions_concat (max : ℕ) (calls : List (κ × ν)) (e : κ × ν) :
    admissions max (calls ++ [e]) =
      admissions max calls ++ if ((after max calls).map.get e.1).isNone then [e.1] else [] := by
  rw [admissions, zipIdx_append, filterMap_append, zipIdx_singleton, Nat.zero_add]
  congr 1
  · refine filterMap_congr fun d hd => ?_
    rw [take_append_of_le_length (snd_lt_of_mem_zipIdx hd).le]
  · rw [filterMap_cons, take_left, filterMap_nil]
    split_ifs <;> rfl

theorem exact_after (max : ℕ) (calls : List (κ × ν)) :
    Exact max calls (admissions max calls) (after max calls) := by
  have hempty (calls : List (κ × ν)) {admitted : List κ} (h : admitted.rtake max = []) :
      Exact max calls admitted (⟨∅, []⟩ : Cache κ ν) := by
    refine ⟨nodup_nil, fun k => ?_, fun k v hv => ?_, h.symm⟩
    · simp [IndexMap.get_empty]
    · simp [IndexMap.get_empty] at hv
  cases max with
  | zero =>
    rw [after, foldl_fixed' fun _ => rfl]
    exact hempty calls (rtake_zero _)
  | succ m =>
    induction calls using reverseRecOn with
    | nil => exact hempty [] (rtake_nil _)
    | append_singleton calls e ih =>
      have hafter : after (m + 1) (calls ++ [e]) =
          cacheInsertBounded (m + 1) (after (m + 1) calls) e := foldl_concat ..
      rw [admissions_concat, hafter]
      exact ih.insert e

/-- The queue has the keys of the map, once each: of those that were admitted last as many as fit,
    in their order. The map has their last values. -/
theorem cacheInsertBounded_exact (max : ℕ) (calls : List (κ × ν)) :
    (after max calls).order.Nodup ∧
      (∀ k, k ∈ (after max calls).order ↔ ((after max calls).map.get k).isSome) ∧
      (after max calls).order = (admissions max calls).rtake max ∧
        (after max calls).map.length ≤ max ∧
      ∀ k v, (after max calls).map.get k = some v →
        (calls.filter (·.1 = k)).getLast? = some (k, v) := by
  have h := exact_after max calls
  have hlength : (after max calls).map.length ≤ max := by
    rw [h.length, h.order_eq, rtake, length_drop]
    omega
  exact ⟨h.nodup, h.mem_order, h.order_eq, hlength, h.value⟩

end Tropel.BoundedCache
