import Tropel.Lib.Encodings

/-!
# Parameters of a form

The parameters of a form are signed by OAuth 1 together with those of the query.

* `parseForm_complete_iff`: when nothing of a form is lost.
-/

namespace Tropel

open Lib List

variable (t : Text)

def plusToSpace : Text := t.map fun c => if c = '+' then ' ' else c

def percentDecodeUtf8 : Option Text := fromUtf8 (percentDecode (utf8 t))

def decodeFormValue : Text := (percentDecodeUtf8 (plusToSpace t)).getD (plusToSpace t)

def formComponents (body : Text) : List Text := (body.splitOn '&').filter fun p => p ≠ []

def formParam (pair : Text) : Option (Text × Text) :=
  (splitOnce '=' pair).map fun p => (decodeFormValue p.1, decodeFormValue p.2)

def parseForm (bytes : List UInt8) : List (Text × Text) :=
  match fromUtf8 bytes with
  | none => []
  | some body => (formComponents body).filterMap formParam

/-! ## The format -/

def isFormPlain (b : UInt8) : Bool :=
  let n := b.toNat
  n = 32 || n = 42 || n = 45 || n = 46 || (48 ≤ n && n ≤ 57) || (65 ≤ n && n ≤ 90) || n = 95 ||
    (97 ≤ n && n ≤ 122)

def formEncode : Text := (percentEncode isFormPlain (utf8 t)).map fun c =>
    if c = ' ' then '+' else c

structure FormPair where
  name : Text
  value : Text
  bare : Bool
  empty_of_bare : bare = true → value = []

namespace FormPair

def text (p : FormPair) : Text :=
  if p.bare then formEncode p.name else formEncode p.name ++ '=' :: formEncode p.value

def param (p : FormPair) : Text × Text := (p.name, p.value)

end FormPair

def formBody (pairs : List FormPair) : List UInt8 :=
  utf8 (['&'].intercalate (pairs.map FormPair.text))

/-! ## Encoded texts -/

theorem isFormPlain_toNat {b : UInt8} (hb : isFormPlain b = true) :
    b.toNat < 128 ∧ b.toNat ≠ 37 ∧ b.toNat ≠ 38 ∧ b.toNat ≠ 43 ∧ b.toNat ≠ 61 := by
  simp only [isFormPlain, Bool.or_eq_true, Bool.and_eq_true, decide_eq_true_eq] at hb
  omega

theorem keepable_isFormPlain : Keepable isFormPlain := by
  intro b hb
  refine ⟨(isFormPlain_toNat hb).1, ?_⟩
  rintro rfl
  exact (isFormPlain_toNat hb).2.1 rfl

theorem ne_of_mem_percentEncode {bytes : List UInt8} {c : Char}
    (hc : c ∈ percentEncode isFormPlain bytes) :
    c ≠ '&' ∧ c ≠ '+' ∧ c ≠ '=' := by
  refine ⟨?_, ?_, ?_⟩
  · rintro rfl
    exact not_mem_percentEncode (c := '&') (fun b hb => (isFormPlain_toNat hb).2.2.1) (by decide)
      (by decide) _ hc
  · rintro rfl
    exact not_mem_percentEncode (c := '+') (fun b hb => (isFormPlain_toNat hb).2.2.2.1) (by decide)
      (by decide) _ hc
  · rintro rfl
    exact not_mem_percentEncode (c := '=') (fun b hb => (isFormPlain_toNat hb).2.2.2.2) (by decide)
      (by decide) _ hc

theorem ne_of_mem_formEncode {t : Text} {c : Char} (hc : c ∈ formEncode t) : c ≠ '&' ∧ c ≠ '=' := by
  obtain ⟨d, hd, rfl⟩ := mem_map.1 hc
  split
  · decide
  · exact ⟨(ne_of_mem_percentEncode hd).1, (ne_of_mem_percentEncode hd).2.2⟩

theorem plusToSpace_formEncode :
    plusToSpace (formEncode t) = percentEncode isFormPlain (utf8 t) := by
  rw [plusToSpace, formEncode, List.map_map]
  refine (map_congr_left fun c hc => ?_).trans (List.map_id _)
  have hplus := (ne_of_mem_percentEncode hc).2.1
  by_cases hspace : c = ' '
  · subst hspace
    rfl
  · simp [hspace, hplus]

theorem decodeFormValue_formEncode : decodeFormValue (formEncode t) = t := by
  have hdecode := percentDecode_percentEncode keepable_isFormPlain (utf8 t) []
  rw [append_nil, percentDecode, append_nil] at hdecode
  rw [decodeFormValue, plusToSpace_formEncode, percentDecodeUtf8, hdecode, fromUtf8_utf8,
    Option.getD_some]

/-! ## Reading a form -/

theorem formParam_isSome_iff {pair : Text} : (formParam pair).isSome = true ↔ '=' ∈ pair := by
  rw [formParam, Option.isSome_map]
  constructor
  · intro h
    obtain ⟨⟨a, b⟩, hab⟩ := Option.isSome_iff_exists.1 h
    rw [(splitOnce_eq_some hab).1]
    exact mem_append_right _ mem_cons_self
  · intro h
    obtain ⟨a, b, rfl, ha⟩ := eq_append_cons_of_mem h
    rw [splitOnce_append ha]
    rfl

theorem FormPair.formParam_text (p : FormPair) :
    formParam p.text = if p.bare then none else some p.param := by
  rw [text]
  split
  · have hnot : '=' ∉ formEncode p.name := fun h => (ne_of_mem_formEncode h).2 rfl
    rw [formParam, splitOnce_eq_none hnot, Option.map_none]
  · have hnot : '=' ∉ formEncode p.name := fun h => (ne_of_mem_formEncode h).2 rfl
    rw [formParam, splitOnce_append hnot, Option.map_some, decodeFormValue_formEncode,
      decodeFormValue_formEncode, param]

theorem FormPair.not_mem_text (p : FormPair) : '&' ∉ p.text := by
  have hnot (t : Text) : '&' ∉ formEncode t := fun h => (ne_of_mem_formEncode h).1 rfl
  rw [text]
  split
  · exact hnot _
  · rw [mem_append, mem_cons, not_or, not_or]
    exact ⟨hnot _, by decide, hnot _⟩

theorem filterMap_formComponents (parts : List Text) :
    (parts.filter fun p => p ≠ []).filterMap formParam = parts.filterMap formParam := by
  rw [filterMap_filter]
  refine filterMap_congr fun part _ => ?_
  by_cases hnil : part = []
  · subst hnil
    rfl
  · simp [hnil]

theorem parseForm_utf8 (body : Text) :
    parseForm (utf8 body) = (formComponents body).filterMap formParam := by
  rw [parseForm, fromUtf8_utf8]

theorem parseForm_formBody (pairs : List FormPair) :
    parseForm (formBody pairs) = (pairs.filter fun p => !p.bare).map FormPair.param := by
  rw [formBody, parseForm_utf8, formComponents, filterMap_formComponents]
  cases pairs with
  | nil => rfl
  | cons p ps =>
    have hamp : ∀ t ∈ (p :: ps).map FormPair.text, '&' ∉ t := forall_mem_map.2 fun q _ =>
      q.not_mem_text
    rw [splitOn_intercalate _ hamp (cons_ne_nil _ _), filterMap_map, ← filterMap_eq_map,
      filterMap_filter]
    refine filterMap_congr fun q _ => ?_
    rw [Function.comp_apply, q.formParam_text]
    cases q.bare <;> rfl

/-- A form is read completely just when all of its pairs have an equals sign, and into as many
    parameters as components just when all of these have one. -/
theorem parseForm_complete_iff (pairs : List FormPair) (body : Text) :
    (parseForm (formBody pairs) = pairs.map FormPair.param ↔ ∀ p ∈ pairs, p.bare = false) ∧
    ((parseForm (utf8 body)).length = (formComponents body).length ↔
      ∀ component ∈ formComponents body, '=' ∈ component) := by
  constructor
  · rw [parseForm_formBody]
    constructor
    · intro h p hp
      have hlength := congrArg List.length h
      rw [length_map, length_map, length_filter_eq_length_iff] at hlength
      exact Bool.not_eq_true' _ ▸ hlength p hp
    · intro h
      rw [filter_eq_self.2 fun p hp => by rw [h p hp]; rfl]
  · rw [parseForm_utf8, filterMap_length_eq_length]
    exact forall₂_congr fun component _ => formParam_isSome_iff

theorem parseForm_complete_iff_written :
    let pairs : List FormPair := [⟨"a b", "1+1&é", false, fun h => Bool.noConfusion h⟩,
        ⟨"c", [], false, fun h => Bool.noConfusion h⟩]
    parseForm (formBody pairs) = pairs.map FormPair.param := by
  intro pairs
  refine (parseForm_complete_iff pairs []).1.2 ?_
  exact forall_mem_cons.2 ⟨rfl, forall_mem_singleton.2 rfl⟩

theorem parseForm_drops_bare :
    let pairs : List FormPair :=
      [⟨"c2", [], true, fun _ => rfl⟩, ⟨"a3", "2 q", false, fun h => Bool.noConfusion h⟩]
    formBody pairs = utf8 "c2&a3=2+q".toList ∧
      parseForm (formBody pairs) = [("a3".toList, "2 q".toList)] ∧
      (formComponents "c2&a3=2+q").length = 2 := by
  intro pairs
  refine ⟨?_, parseForm_formBody pairs, by decide +kernel⟩
  exact congrArg utf8 (by decide +kernel)

end Tropel
