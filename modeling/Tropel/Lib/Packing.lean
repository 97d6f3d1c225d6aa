import Mathlib.Algebra.GroupWithZero.Nat
import Mathlib.Algebra.Order.Group.Nat
import Mathlib.Data.List.Flatten

/-!
# Greedy packing

Items go into *packs* one after the other, in their order.
-/

namespace Lib

open List

variable {α : Type*} (size : α → ℕ) (bound : ℕ)

def packFrom (pack : List α) : List α → List (List α)
  | [] => if pack.isEmpty then [] else [pack]
  | a :: l =>
    if !pack.isEmpty && decide ((pack.map size).sum + size a > bound) then pack :: packFrom [a] l
    else packFrom (pack ++ [a]) l

variable {size bound} {pack l : List α}

theorem flatten_packFrom : (packFrom size bound pack l).flatten = pack ++ l := by
  induction l generalizing pack with
  | nil =>
    rw [packFrom, append_nil]
    split
    next h => rw [flatten_nil, List.isEmpty_iff.1 h]
    next => exact flatten_singleton
  | cons a l ih =>
    rw [packFrom]
    split
    next => rw [flatten_cons, ih, singleton_append]
    next => rw [ih, append_assoc, singleton_append]

theorem nil_not_mem_packFrom : [] ∉ packFrom size bound pack l := by
  induction l generalizing pack with
  | nil =>
    rw [packFrom]
    split
    next => exact not_mem_nil
    next h => exact fun hmem => h (List.isEmpty_iff.2 (mem_singleton.1 hmem).symm)
  | cons a l ih =>
    rw [packFrom]
    split
    next h =>
      rw [Bool.and_eq_true] at h
      rw [mem_cons, not_or]
      refine ⟨?_, ih⟩
      rintro rfl
      cases h.1
    next => exact ih

def Packed (size : α → ℕ) (bound : ℕ) (pack : List α) : Prop :=
  (pack.map size).sum ≤ bound ∨ ∃ a, pack = [a]

theorem packed_of_mem_packFrom (hpack : pack = [] ∨ Packed size bound pack) :
    ∀ p ∈ packFrom size bound pack l, Packed size bound p := by
  induction l generalizing pack with
  | nil =>
    rw [packFrom]
    split
    next => exact forall_mem_nil _
    next h =>
      rw [forall_mem_singleton]
      exact hpack.resolve_left fun hnil => h (List.isEmpty_iff.2 hnil)
  | cons a l ih =>
    rw [packFrom]
    split
    next h =>
      rw [Bool.and_eq_true] at h
      refine forall_mem_cons.2 ⟨hpack.resolve_left ?_, ih (.inr (.inr ⟨a, rfl⟩))⟩
      rintro rfl
      cases h.1
    next h =>
      -- the item fits into the pack, or it is the first one there
      refine ih (.inr ?_)
      rw [Bool.and_eq_true, not_and, decide_eq_true_eq, Nat.not_lt] at h
      cases pack with
      | nil => exact .inr ⟨a, rfl⟩
      | cons b pack =>
        refine .inl ?_
        rw [map_append, sum_append, map_singleton, sum_singleton]
        exact h rfl

end Lib
