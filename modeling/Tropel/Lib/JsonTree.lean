import Tropel.Lib.IndexMap
import Tropel.Lib.Text

/-!
# JSON values

The values that JSON texts stand for, over any type of numbers.
-/

namespace Lib

open List Bool IndexMap Prod

inductive JsonTree (ν : Type*)
  | null
  | bool (b : Bool)
  | number (n : ν)
  | string (s : Text)
  | array (items : List (JsonTree ν))
  | object (entries : List (Text × JsonTree ν))

namespace JsonTree

variable {ν : Type*}

@[elab_as_elim, induction_eliminator]
theorem induct {P : JsonTree ν → Prop} (null : P .null) (bool : ∀ b, P (.bool b))
    (number : ∀ n, P (.number n)) (string : ∀ s, P (.string s))
    (array : ∀ items, (∀ v ∈ items, P v) → P (.array items))
    (object : ∀ entries, (∀ e ∈ entries, P e.2) → P (.object entries)) (v : JsonTree ν) : P v := by
  refine @JsonTree.rec ν P (fun items => ∀ v ∈ items, P v) (fun entries => ∀ e ∈ entries,
    P e.2) (fun e => P e.2)
    null bool number string array object ?_ ?_ ?_ ?_ ?_ v
  · exact forall_mem_nil _
  · exact fun v items hv hitems => forall_mem_cons.2 ⟨hv, hitems⟩
  · exact forall_mem_nil _
  · exact fun e entries he hentries => forall_mem_cons.2 ⟨he, hentries⟩
  · exact fun _ _ hv => hv

/-! ## Keys -/

mutual

def Distinct : JsonTree ν → Prop
  | .array items => DistinctItems items
  | .object entries => (entries.map Prod.fst).Nodup ∧ DistinctEntries entries
  | _ => True

def DistinctItems : List (JsonTree ν) → Prop
  | [] => True
  | v :: items => v.Distinct ∧ DistinctItems items

def DistinctEntries : List (Text × JsonTree ν) → Prop
  | [] => True
  | (_, v) :: entries => v.Distinct ∧ DistinctEntries entries

end

theorem distinct_array_iff {items : List (JsonTree ν)} : (array items).Distinct ↔ ∀ v ∈ items,
    v.Distinct := by
  rw [Distinct]
  induction items with
  | nil => exact iff_of_true trivial (forall_mem_nil _)
  | cons v items ih => rw [DistinctItems, ih, forall_mem_cons]

variable {entries entries' : List (Text × JsonTree ν)} {α β : Type*} {l' : List β} {l : List α}

theorem distinct_object_iff : (object entries).Distinct ↔ (entries.map Prod.fst).Nodup ∧
    ∀ e ∈ entries, e.2.Distinct := by
  rw [Distinct]
  refine and_congr Iff.rfl ?_
  induction entries with
  | nil => exact iff_of_true trivial (forall_mem_nil _)
  | cons e entries ih => rw [DistinctEntries, ih, forall_mem_cons]

/-! ## Equality -/

mutual

def eqWith (R : ν → ν → Bool) : JsonTree ν → JsonTree ν → Bool
  | .null, .null => true
  | .bool b, .bool b' => b == b'
  | .number n, .number n' => R n n'
  | .string s, .string s' => s == s'
  | .array items, .array items' => eqItems R items items'
  | .object entries, .object entries' =>
    entries.length == entries'.length && eqEntries R entries entries'
  | _, _ => false

def eqItems (R : ν → ν → Bool) : List (JsonTree ν) → List (JsonTree ν) → Bool
  | [], [] => true
  | v :: items, v' :: items' => v.eqWith R v' && eqItems R items items'
  | _, _ => false

def eqEntries (R : ν → ν → Bool) : List (Text × JsonTree ν) → List (Text × JsonTree ν) → Bool
  | [], _ => true
  | (key, v) :: entries, entries' =>
    (match IndexMap.find key entries' with
      | some v' => v.eqWith R v'
      | none => false) && eqEntries R entries entries'

end

variable {R S : ν → ν → Bool}

theorem eqWith_array_iff {items items' : List (JsonTree ν)} :
    (array items).eqWith R (array items') = true ↔
      List.Forall₂ (fun v v' => v.eqWith R v' = true) items items' := by
  rw [eqWith]
  induction items generalizing items' with
  | nil =>
    cases items' with
    | nil => exact iff_of_true rfl .nil
    | cons v' items' => exact iff_of_false false_ne_true fun h => by cases h
  | cons v items ih =>
    cases items' with
    | nil => exact iff_of_false false_ne_true fun h => by cases h
    | cons v' items' => rw [eqItems, and_eq_true, ih, forall₂_cons]

theorem eqWith_object_iff : (object entries).eqWith R (object entries') = true ↔
    entries.length = entries'.length ∧
      ∀ e ∈ entries, ∃ v', IndexMap.find e.1 entries' = some v' ∧ e.2.eqWith R v' = true := by
  rw [eqWith, and_eq_true, beq_iff_eq]
  refine and_congr Iff.rfl ?_
  induction entries with
  | nil => exact iff_of_true rfl (forall_mem_nil _)
  | cons e entries ih =>
    rw [eqEntries, and_eq_true, ih, forall_mem_cons]
    refine and_congr_left fun _ => ?_
    cases find e.1 entries' with
    | none => exact iff_of_false false_ne_true (by rintro ⟨_, h, _⟩; cases h)
    | some v' => simp

theorem forall₂_swap {P : α → β → Prop} {Q : β → α → Prop}
    (h : List.Forall₂ P l l') (himp : ∀ a ∈ l, ∀ b ∈ l', P a b → Q b a) : List.Forall₂ Q l' l := by
  induction h with
  | nil => exact .nil
  | cons hab _ ih =>
    refine .cons (himp _ mem_cons_self _ mem_cons_self hab) (ih fun a ha b hb => ?_)
    exact himp a (mem_cons_of_mem _ ha) b (mem_cons_of_mem _ hb)

theorem exists_find_of_length_eq (hnodup : (entries.map Prod.fst).Nodup)
    (hnodup' : (entries'.map Prod.fst).Nodup) (hlength : entries.length = entries'.length)
    (h : ∀ e ∈ entries, ∃ v', IndexMap.find e.1 entries' = some v' ∧ e.2.eqWith R v' = true)
    {e' : Text × JsonTree ν} (he' : e' ∈ entries') :
    ∃ e ∈ entries, e.1 = e'.1 ∧ e.2.eqWith R e'.2 = true := by
  have hsubset : entries.map fst ⊆ entries'.map fst := by
    intro key hkey
    obtain ⟨e, he, rfl⟩ := mem_map.1 hkey
    obtain ⟨v', hv', -⟩ := h e he
    exact mem_map.2 ⟨(e.1, v'), (find_eq_some_iff hnodup').1 hv', rfl⟩
  have hperm : (entries.map fst).Perm (entries'.map fst) := by
    refine (subperm_of_subset hnodup hsubset).perm_of_length_le ?_
    rw [length_map, length_map, hlength]
  obtain ⟨e, he, hkey⟩ := mem_map.1 (hperm.mem_iff.2 (mem_map_of_mem he'))
  obtain ⟨v', hv', heq⟩ := h e he
  have hfind : find e'.1 entries' = some e'.2 := (find_eq_some_iff hnodup').2 he'
  rw [hkey, hfind] at hv'
  exact ⟨e, he, hkey, Option.some.inj hv' ▸ heq⟩

theorem eqWith_symm (hR : ∀ n n', R n n' = true → R n' n = true) {v v' : JsonTree ν}
    (hv : v.Distinct) (hv' : v'.Distinct) (h : v.eqWith R v' = true) : v'.eqWith R v = true := by
  induction v generalizing v' with
  | null =>
    cases v' with
    | null => rfl
    | _ => cases h
  | bool b =>
    cases v' with
    | bool b' => exact beq_iff_eq.2 (beq_iff_eq.1 h).symm
    | _ => cases h
  | number n =>
    cases v' with
    | number n' => exact hR n n' h
    | _ => cases h
  | string s =>
    cases v' with
    | string s' => exact beq_iff_eq.2 (beq_iff_eq.1 h).symm
    | _ => cases h
  | array items ih =>
    cases v' with
    | array items' =>
      rw [distinct_array_iff] at hv hv'
      rw [eqWith_array_iff] at h ⊢
      exact forall₂_swap h fun v hmem v' hmem' heq => ih v hmem (hv v hmem) (hv' v' hmem') heq
    | _ => cases h
  | object entries ih =>
    cases v' with
    | object entries' =>
      rw [distinct_object_iff] at hv hv'
      rw [eqWith_object_iff] at h ⊢
      refine ⟨h.1.symm, fun e' he' => ?_⟩
      obtain ⟨e, he, hkey, heq⟩ := exists_find_of_length_eq hv.1 hv'.1 h.1 h.2 he'
      refine ⟨e.2, ?_, ih e he (hv.2 e he) (hv'.2 e' he') heq⟩
      rw [← hkey]
      exact (find_eq_some_iff hv.1).2 he
    | _ => cases h

theorem forall₂_and {P Q T : α → β → Prop} (h : ∀ a ∈ l, ∀ b, P a b ↔ Q a b ∧ T a b) :
    List.Forall₂ P l l' ↔ List.Forall₂ Q l l' ∧ List.Forall₂ T l l' := by
  induction l generalizing l' with
  | nil => simp
  | cons a l ih =>
    rw [forall_mem_cons] at h
    cases l' with
    | nil => simp
    | cons b l' =>
      rw [forall₂_cons, forall₂_cons, forall₂_cons, h.1, ih h.2]
      tauto

theorem eqWith_and (v v' : JsonTree ν) : v.eqWith (fun n n' => R n n' && S n n') v' = true ↔
    v.eqWith R v' = true ∧ v.eqWith S v' = true := by
  induction v generalizing v' with
  | null | bool b | number n | string s => cases v' <;> simp [eqWith]
  | array items ih =>
    cases v' with
    | array items' =>
      rw [eqWith_array_iff, eqWith_array_iff, eqWith_array_iff]
      exact forall₂_and fun v hv v' => ih v hv v'
    | _ => simp [eqWith]
  | object entries ih =>
    cases v' with
    | object entries' =>
      rw [eqWith_object_iff, eqWith_object_iff, eqWith_object_iff]
      constructor
      · rintro ⟨hlength, h⟩
        refine ⟨⟨hlength, fun e he => ?_⟩, hlength, fun e he => ?_⟩
        · obtain ⟨v', hfind, heq⟩ := h e he
          exact ⟨v', hfind, ((ih e he v').1 heq).1⟩
        · obtain ⟨v', hfind, heq⟩ := h e he
          exact ⟨v', hfind, ((ih e he v').1 heq).2⟩
      · rintro ⟨⟨hlength, hR⟩, -, hS⟩
        refine ⟨hlength, fun e he => ?_⟩
        obtain ⟨v', hfind, heq⟩ := hR e he
        obtain ⟨v'', hfind', heq'⟩ := hS e he
        obtain rfl := Option.some.inj (hfind.symm.trans hfind')
        exact ⟨v', hfind, (ih e he v').2 ⟨heq, heq'⟩⟩
    | _ => simp [eqWith]

end JsonTree

end Lib
