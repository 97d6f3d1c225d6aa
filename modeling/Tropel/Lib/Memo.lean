import Mathlib.Logic.Function.Basic

/-!
# Memoised functions

A function is memoised in a cache whose keys are computed from the arguments by `key`.
-/

namespace Lib.Memo

variable {α κ : Type*} [DecidableEq κ]
variable (key : α → κ) (kept : α → Prop) [DecidablePred kept]

def next (origin : κ → Option α) (a : α) : κ → Option α :=
  match origin (key a) with
  | some _ => origin
  | none => if kept a then Function.update origin (key a) (some a) else origin

def Own (origin : κ → Option α) (a : α) : Prop := ∀ b ∈ origin (key a), b = a

def AllOwn : (κ → Option α) → List α → Prop
  | _, [] => True
  | origin, a :: as => Own key origin a ∧ AllOwn (next key kept origin a) as

variable {key kept} {origin : κ → Option α} {a : α}

theorem next_eq_self_of_mem {a b : α} (hb : b ∈ origin (key a)) :
    next key kept origin a = origin := by
  rw [next, Option.mem_def.1 hb]

theorem next_eq_self_of_not_kept (ha : ¬ kept a) : next key kept origin a = origin := by
  rw [next]
  split
  · rfl
  · rw [if_neg ha]

theorem next_eq_update (hmiss : origin (key a) = none)
    (ha : kept a) : next key kept origin a = Function.update origin (key a) (some a) := by
  simp only [next, hmiss, if_pos ha]

theorem own_next_iff (ha : Own key origin a) (c : α) : Own key (next key kept origin a) c ↔
      Own key origin c ∧ (kept a → key a = key c → a = c) := by
  cases hget : origin (key a) with
  | some b =>
    -- the value under the key is that of `a`, so it is there for `c` already
    obtain rfl : b = a := ha b hget
    rw [next_eq_self_of_mem (Option.mem_def.2 hget), iff_self_and]
    intro hc _ hkey
    exact hc b (by rwa [← hkey])
  | none =>
    by_cases hkept : kept a
    · rw [next_eq_update hget hkept]
      by_cases hkey : key a = key c
      · simp [Own, ← hkey, hkept, hget]
      · simp [Own, Function.update_of_ne (Ne.symm hkey), hkey]
    · rw [next_eq_self_of_not_kept hkept]
      exact ⟨fun hc => ⟨hc, fun h => absurd h hkept⟩, fun hc => hc.1⟩

theorem allOwn_iff (origin : κ → Option α) (as : List α) : AllOwn key kept origin as ↔
    (∀ a ∈ as, Own key origin a) ∧
      as.Pairwise fun a c => kept a → key a = key c → a = c := by
  induction as generalizing origin with
  | nil => simp [AllOwn]
  | cons a as ih =>
    rw [AllOwn, ih, List.pairwise_cons, List.forall_mem_cons, and_assoc]
    refine and_congr_right fun ha => ?_
    simp only [own_next_iff ha]
    rw [← and_assoc]
    exact and_congr_left' forall₂_and

end Lib.Memo
