import Mathlib.Data.List.Basic
import Mathlib.Data.Option.Basic

/-!
# Layers of settings

A *layer* gives values to some settings.
-/

namespace Lib

open Option

variable {ι : Type*} {V : ι → Type*}

abbrev Layer (V : ι → Type*) := (i : ι) → Option (V i)

namespace Layer

def fill (d : (i : ι) → V i) (w : Layer V) : (i : ι) → V i := fun i => (w i).getD (d i)

def ofSection (w : Option (Layer V)) : Layer V := fun i => w.bind fun w => w i

def first (layers : List (Layer V)) : Layer V := fun i => layers.findSome? fun l => l i

/-- What a layer gives has its value in `c`, unless a layer before it gives another one. -/
def Respects (layers : List (Layer V)) (c : Layer V) : Prop :=
  ∀ i v, first layers i = some v → c i = some v

theorem first_cons (l : Layer V) (layers : List (Layer V)) (i : ι) :
    first (l :: layers) i = (l i).or (first layers i) := by
  rw [first, List.findSome?_cons]
  cases l i <;> rfl

theorem first_nil (i : ι) : first ([] : List (Layer V)) i = none := rfl

theorem first_three (l l' l'' : Layer V) (i : ι) :
    first [l, l', l''] i = (l i).or ((l' i).or (l'' i)) := by
  rw [first_cons, first_cons, first_cons, first_nil, or_none]

theorem first_two (l l' : Layer V) (i : ι) : first [l, l'] i = (l i).or (l' i) := by
  rw [first_cons, first_cons, first_nil, or_none]

/-! ## Sections -/

variable {strong weak : Option (Layer V)} {i : ι} {v : V i}

def Shadowed (strong weak : Option (Layer V)) (i : ι) (v : V i) : Prop :=
  ∃ w, strong = some w ∧ w i = none ∧ ofSection weak i = some v

theorem Shadowed.first_eq (h : Shadowed strong weak i v) :
    first [ofSection strong, ofSection weak] i = some v := by
  obtain ⟨w, rfl, hw, hv⟩ := h
  rw [first_two, hv, ofSection, bind_some, hw, none_or]

theorem exists_section (h : first [ofSection strong, ofSection weak] i = some v) :
    ∃ w, strong.or weak = some w ∧ (w i = some v ∨ w i = none ∧ Shadowed strong weak i v) := by
  rw [first_two] at h
  cases strong with
  | none =>
    obtain ⟨w, hw, hv⟩ := bind_eq_some_iff.1 h
    exact ⟨w, hw, .inl hv⟩
  | some w =>
    refine ⟨w, rfl, ?_⟩
    cases hw : w i with
    | some v' =>
      rw [ofSection, bind_some, hw, some_or] at h
      exact .inl h
    | none =>
      rw [ofSection, bind_some, hw, none_or] at h
      exact .inr ⟨rfl, w, rfl, hw, h⟩

theorem fill_eq_iff {d : (i : ι) → V i} {w : Layer V} (hw : strong.or weak = some w)
    (h : first [ofSection strong, ofSection weak] i = some v) :
    fill d w i = v ↔ (Shadowed strong weak i v → d i = v) := by
  obtain ⟨w', hw', hcases⟩ := exists_section h
  obtain rfl := some_injective _ (hw.symm.trans hw')
  rw [fill]
  rcases hcases with hv | ⟨hnone, hshadowed⟩
  · rw [hv]
    refine ⟨fun _ ⟨w'', hw'', hnone, _⟩ => ?_, fun _ => rfl⟩
    rw [hw'', some_or] at hw
    obtain rfl := some_injective _ hw
    rw [hv] at hnone
    cases hnone
  · rw [hnone]
    exact ⟨fun hd _ => hd, fun hd => hd hshadowed⟩

theorem respected_at_iff {d : (i : ι) → V i} {g : Layer V} {r : V i}
    (hflag : ∀ v, g i = some v → strong.or weak = none → r = v)
    (hfill : ∀ w, strong.or weak = some w → g i = none → r = fill d w i) :
    (∀ v, (g i).or (first [ofSection strong, ofSection weak] i) = some v → r = v) ↔
      (∀ v w, g i = some v → strong.or weak = some w → r = v) ∧
        ∀ v, g i = none → Shadowed strong weak i v → d i = v := by
  cases hg : g i with
  | some v =>
    refine ⟨fun h => ⟨fun v' _ hv' _ => h v' hv', nofun⟩, ?_⟩
    rintro ⟨h, -⟩ v' hv'
    cases hw : strong.or weak with
    | none => exact hflag v' (hg.trans hv') hw
    | some w => exact h v' w hv' hw
  | none =>
    refine ⟨fun h => ⟨nofun, fun v _ hv => ?_⟩, ?_⟩
    · obtain ⟨w, hw, -⟩ := exists_section hv.first_eq
      have hr := h v hv.first_eq
      rw [hfill w hw hg] at hr
      exact (fill_eq_iff hw hv.first_eq).1 hr hv
    · rintro ⟨-, h⟩ v hv
      rw [none_or] at hv
      obtain ⟨w, hw, -⟩ := exists_section hv
      rw [hfill w hw hg]
      exact (fill_eq_iff hw hv).2 (h v rfl)

end Layer

end Lib
