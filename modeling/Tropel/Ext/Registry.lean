import Tropel.Core.Segment
import Tropel.Lib.IndexMap
import Tropel.Lib.SortBy

/-!
# The extension registry

Input adapters and drivers are registered under names, each with a priority.

* `resolve_highest_iff`: when the highest priority wins.
-/

namespace Tropel

open Lib List

structure Registration (α : Type*) where
  id : Text
  create : α
  priority : Fin 256

variable {α ι δ : Type*}

structure ExtensionRegistry (ι δ : Type*) where
  inputAdapters : IndexMap Text (Registration ι)
  inputAdapterFactories : IndexMap Text ι
  drivers : IndexMap Text (Registration δ)

namespace ExtensionRegistry

def empty : ExtensionRegistry ι δ := ⟨∅, ∅, ∅⟩

variable (r : ExtensionRegistry ι δ)

def registerDriver (id : Text) (registration : Registration δ) : ExtensionRegistry ι δ :=
  { r with drivers := r.drivers.insert id registration }

def resolveInput (detect : ι → List UInt8 → Bool) (r : ExtensionRegistry ι δ) (bytes : List UInt8) :
    Option (Registration ι ⊕ ι) :=
  let sorted :=
    sortByKey (fun a => OrderDual.toDual a.priority) (r.inputAdapters.entries.map Prod.snd)
  match sorted.find? fun registration => detect registration.create bytes with
  | some registration => some (.inl registration)
  | none => ((r.inputAdapterFactories.entries.map Prod.snd).find? fun factory =>
      detect factory bytes).map .inr

end ExtensionRegistry

def scanDrivers (claims : Registration δ → Bool) (best : Option (Registration δ)) :
    List (Registration δ) → Option (Registration δ)
  | [] => best
  | registration :: rest =>
    if claims registration && best.all fun b => registration.priority > b.priority then
      -- taken for the highest priority
      if registration.priority = 0 then some registration
        else scanDrivers claims (some registration) rest
    else scanDrivers claims best rest

def ExtensionRegistry.resolveDriver (detect : δ → List UInt8 → Bool) (r : ExtensionRegistry ι δ)
    (bytes : List UInt8) : Option (Registration δ) :=
  scanDrivers (fun registration => detect registration.create bytes) none
    (r.drivers.entries.map Prod.snd)

def claimants (detect : α → List UInt8 → Bool) (m : IndexMap Text (Registration α))
    (bytes : List UInt8) :
    List (Registration α) :=
  (m.entries.map Prod.snd).filter fun registration => detect registration.create bytes

def highest (l : List (Registration α)) : Option (Registration α) := l.argmax Registration.priority

def Shadowed : List (Registration α) → Prop
  | [] => False
  | first :: rest => first.priority = 0 ∧ ∃ registration ∈ rest, 0 < registration.priority

theorem ExtensionRegistry.resolveInput_eq (detect : ι → List UInt8 → Bool)
    (r : ExtensionRegistry ι δ) (bytes : List UInt8) :
    r.resolveInput detect bytes = ((highest (claimants detect r.inputAdapters bytes)).map .inl).or
      (((r.inputAdapterFactories.entries.map Prod.snd).find? fun factory =>
        detect factory bytes).map .inr) := by
  rw [resolveInput, find?_sortByKey_toDual, ← claimants, ← highest]
  cases highest (claimants detect r.inputAdapters bytes) with
  | none | some registration => rfl

/-! ## Drivers -/

section

variable {claims : Registration δ → Bool}

theorem scanDrivers_some {b : Registration δ} (hb : 0 < b.priority) (l : List (Registration δ)) :
    scanDrivers claims (some b) l = highest (b :: l.filter claims) := by
  induction l generalizing b with
  | nil => rfl
  | cons r l ih =>
    rw [scanDrivers, Option.all_some]
    cases hr : claims r with
    | false =>
      rw [Bool.false_and, if_neg Bool.false_ne_true, filter_cons_of_neg (Bool.eq_false_iff.1 hr)]
      exact ih hb
    | true =>
      rw [Bool.true_and, filter_cons_of_pos hr]
      -- the maximum is a fold, which looks at `b` and `r` first
      by_cases hlt : b.priority < r.priority
      · rw [if_pos (decide_eq_true hlt), if_neg (hb.trans hlt).ne', ih (hb.trans hlt)]
        unfold highest List.argmax
        rw [foldl_cons, foldl_cons, foldl_cons]
        exact congrArg (List.foldl _ · _) (if_pos hlt).symm
      · rw [if_neg (mt of_decide_eq_true hlt), ih hb]
        unfold highest List.argmax
        rw [foldl_cons, foldl_cons, foldl_cons]
        exact congrArg (List.foldl _ · _) (if_neg hlt).symm

def firstOrHighest : List (Registration α) → Option (Registration α)
  | [] => none
  | first :: rest => if first.priority = 0 then some first else highest (first :: rest)

theorem scanDrivers_none (l : List (Registration δ)) :
    scanDrivers claims none l = firstOrHighest (l.filter claims) := by
  induction l with
  | nil => rfl
  | cons r l ih =>
    rw [scanDrivers, Option.all_none, Bool.and_true]
    cases hr : claims r with
    | false =>
      rw [if_neg Bool.false_ne_true, filter_cons_of_neg (Bool.eq_false_iff.1 hr)]
      exact ih
    | true =>
      rw [if_pos rfl, filter_cons_of_pos hr, firstOrHighest]
      split
      · rfl
      next hzero => exact scanDrivers_some (Fin.pos_iff_ne_zero.2 hzero) l

end

theorem highest_cons_eq_self_iff {r : Registration α} (hr : r.priority = 0)
    (l : List (Registration α)) :
    highest (r :: l) = some r ↔ ∀ r' ∈ l, r'.priority = 0 := by
  constructor
  · intro h r' hr'
    exact Fin.le_zero_iff.1 (hr ▸ le_of_mem_argmax (mem_cons_of_mem r hr') h)
  · intro h
    rw [highest, argmax_cons]
    cases hmax : l.argmax Registration.priority with
    | none => rfl
    | some c =>
      refine if_neg ?_
      rw [h c (argmax_mem hmax)]
      exact Fin.not_lt_zero _

theorem firstOrHighest_eq_iff (l : List (Registration α)) : firstOrHighest l = highest l ↔
    ¬ Shadowed l := by
  cases l with
  | nil => exact iff_of_true rfl id
  | cons first rest =>
    rw [firstOrHighest, Shadowed]
    split
    next hzero =>
      rw [eq_comm, highest_cons_eq_self_iff hzero]
      simp only [hzero, true_and, not_exists, not_and, Fin.not_lt, Fin.le_zero_iff]
    next hzero => exact iff_of_true rfl fun h => hzero h.1

theorem highest_eq_of_perm {detect : α → List UInt8 → Bool} {m m' : IndexMap Text (Registration α)}
    {bytes : List UInt8} (h : m.entries.Perm m'.entries)
    (hpriorities : ((claimants detect m bytes).map Registration.priority).Nodup) :
    highest (claimants detect m bytes) = highest (claimants detect m' bytes) :=
  argmax_eq_of_perm ((h.map Prod.snd).filter _) hpriorities

/-- Adapters are resolved to the claimant with the highest priority, or else to the first factory
    that claims the bytes; drivers just when the claimants are not shadowed. With different
    priorities, the order of the registrations does not matter. -/
theorem resolve_highest_iff (detectInput : ι → List UInt8 → Bool)
    (detectDriver : δ → List UInt8 → Bool) (r : ExtensionRegistry ι δ) (bytes : List UInt8) :
    r.resolveInput detectInput bytes =
      ((highest (claimants detectInput r.inputAdapters bytes)).map .inl).or
      (((r.inputAdapterFactories.entries.map Prod.snd).find? fun factory =>
        detectInput factory bytes).map .inr) ∧
    (r.resolveDriver detectDriver bytes = highest (claimants detectDriver r.drivers bytes) ↔
      ¬ Shadowed (claimants detectDriver r.drivers bytes)) ∧
    (∀ m, r.inputAdapters.entries.Perm m.entries →
      ((claimants detectInput r.inputAdapters bytes).map Registration.priority).Nodup →
      ExtensionRegistry.resolveInput detectInput { r with inputAdapters := m } bytes =
        r.resolveInput detectInput bytes) ∧
    ∀ m, r.drivers.entries.Perm m.entries →
      ((claimants detectDriver r.drivers bytes).map Registration.priority).Nodup →
      ¬ Shadowed (claimants detectDriver r.drivers bytes) →
        ¬ Shadowed (claimants detectDriver m bytes) →
      ExtensionRegistry.resolveDriver detectDriver { r with drivers := m } bytes =
        r.resolveDriver detectDriver bytes := by
  have hdriver : ∀ r : ExtensionRegistry ι δ,
      r.resolveDriver detectDriver bytes =
        firstOrHighest (claimants detectDriver r.drivers bytes) :=
    fun r => scanDrivers_none _
  refine ⟨r.resolveInput_eq detectInput bytes, ?_, ?_, ?_⟩
  · rw [hdriver]
    exact firstOrHighest_eq_iff _
  · intro m hperm hpriorities
    rw [ExtensionRegistry.resolveInput_eq, ExtensionRegistry.resolveInput_eq,
      highest_eq_of_perm hperm hpriorities]
  · intro m hperm hpriorities hr hm
    rw [hdriver, hdriver, (firstOrHighest_eq_iff _).2 hr, (firstOrHighest_eq_iff _).2 hm,
      highest_eq_of_perm hperm hpriorities]

theorem resolve_highest_iff_fallback :
    let detect : Unit → List UInt8 → Bool := fun _ _ => true
    let r : ExtensionRegistry Unit Unit := (ExtensionRegistry.empty.registerDriver "k6"
      ⟨"k6", (), 10⟩).registerDriver "fallback" ⟨"fallback", (), 0⟩
    ¬ Shadowed (claimants detect r.drivers []) ∧
      r.resolveDriver detect [] = highest (claimants detect r.drivers []) := by
  intro detect r
  have hshadowed : ¬ Shadowed (claimants detect r.drivers []) := fun h => absurd h.1 (by decide)
  exact ⟨hshadowed, (resolve_highest_iff detect detect r []).2.1.2 hshadowed⟩

theorem resolveDriver_fallback :
    let detect : Unit → List UInt8 → Bool := fun _ _ => true
    let r : ExtensionRegistry Unit Unit := (ExtensionRegistry.empty.registerDriver "fallback".toList
      ⟨"fallback".toList, (), 0⟩).registerDriver "k6".toList ⟨"k6".toList, (), 10⟩
    (r.resolveDriver detect []).map Registration.id = some "fallback".toList ∧
      (highest (claimants detect r.drivers [])).map Registration.id = some "k6".toList := by
  decide +kernel

end Tropel
