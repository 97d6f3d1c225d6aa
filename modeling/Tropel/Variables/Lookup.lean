import Tropel.Variables.Resolver

/-!
# Three lookups of a variable

A script reads a variable with `pm.variables.get` (`variablesLookup`), and names it as `{{key}}` in
a request of its own (`resolveVars`); the runner puts its value into the requests of the collection
(`VariableScope.resolveVariable` on the scope of `buildScope`).

* `oneLookup_iff`: when they agree.
-/

namespace Tropel

open Lib Option Bool IndexMap

/-! ## Values -/

def serdeEscapeChar (c : Char) : Text :=
  if c = '"' then ['\\', '"']
  else if c = '\\' then ['\\', '\\']
  else if c = '\n' then ['\\', 'n']
  else if c = '\r' then ['\\', 'r']
  else if c = '\t' then ['\\', 't']
  else if c.toNat = 8 then ['\\', 'b']
  else if c.toNat = 12 then ['\\', 'f']
  else if c.toNat < 32 then ['\\', 'u', '0', '0', hexChar (c.toNat / 16), hexChar (c.toNat % 16)]
  else [c]

def serdeString (t : Text) : Text := '"' :: t.flatMap serdeEscapeChar ++ ['"']

def ScopeValue.toJson : ScopeValue → Text
  | .string s => '"' :: s.flatMap serdeEscapeChar ++ ['"']
  | .number text => text
  | .bool b => (if b then "true" else "false").toList
  | .null => "null"
  | .other text => text

def ScopeValue.sendText : ScopeValue → Text
  | .string s => s
  | v => v.toJson

theorem ScopeValue.sendText_eq {v : ScopeValue} (h : v ≠ .null) : v.sendText = valueToString v := by
  cases v with
  | null => exact absurd rfl h
  | _ => rfl

/-! ## The lookups -/

structure PmState where
  localVars : IndexMap Text ScopeValue
  iterationData : Option (IndexMap Text ScopeValue)
  environment : IndexMap Text Text
  collectionVars : IndexMap Text ScopeValue
  globals : IndexMap Text ScopeValue

def reference (key : Text) : Text := '{' :: '{' :: key ++ ['}', '}']

namespace PmState

variable (s : PmState)

def variablesLookup (key : Text) : Option Text :=
  match s.localVars.get key with
  | some v => some v.toJson
  | none => match s.iterationData.bind fun d => d.get key with
    | some v => some v.toJson
    | none => match s.environment.get key with
      | some v => some (ScopeValue.string v).toJson
      | none => match s.collectionVars.get key with
        | some v => some v.toJson
        | none => (s.globals.get key).map ScopeValue.toJson

def sendValue (key : Text) : Option Text :=
  ((s.localVars.get key).map ScopeValue.sendText).or <|
    (s.environment.get key).or <|
    ((s.collectionVars.get key).map ScopeValue.sendText).or <|
    (s.globals.get key).map ScopeValue.sendText

end PmState

def resolveVarsFrom (value : Text → Option Text) (url : Text) : Text :=
  match _h : splitOnceTwice '{' url with
  | none => url
  | some (before, rest) =>
    match _h' : splitOnceTwice '}' rest with
    | none => before ++ '{' :: '{' :: rest
    | some (inner, after) =>
      before ++ (value (trim inner)).getD (reference inner) ++ resolveVarsFrom value after
termination_by url.length
decreasing_by exact (length_lt_of_splitOnceTwice _h').trans (length_lt_of_splitOnceTwice _h)

namespace PmState

variable (s : PmState)

def resolveVars (url : Text) : Text :=
  if hasTwice '{' url = false then url else resolveVarsFrom s.sendValue url

def buildScope (dataRow : Option (IndexMap Text ScopeValue))
    (envVars : IndexMap Text Text) : VariableScope where
  vars := s.localVars
  data := dataRow.getD ∅
  env := s.environment.entries.foldl (fun env v => env.insert v.1 v.2) envVars
  collection := s.collectionVars
  globals := s.globals

/-! ## One lookup -/

def value (key : Text) : Option ScopeValue :=
  (s.localVars.get key).or <|
    (s.iterationData.bind fun d => d.get key).or <|
    ((s.environment.get key).map .string).or <|
    (s.collectionVars.get key).or (s.globals.get key)

/-- All lookups of a key give the value of the first scope that defines it. If there is
    none, a reference is left as it is. The row of iteration data is in the state. -/
structure OneLookup (envVars : IndexMap Text Text) (key : Text) : Prop where
  script : s.variablesLookup key = (s.value key).map ScopeValue.toJson
  runner : (s.buildScope s.iterationData envVars).resolveVariable key =
    ((s.value key).map valueToString).getD (reference key)
  sendRequest : s.resolveVars (reference key) =
    ((s.value key).map valueToString).getD (reference key)

end PmState

structure IsReferenceName (key : Text) : Prop where
  trim_eq : trim key = key
  closes : hasTwice '}' (key ++ ['}']) = false

theorem resolveVarsFrom_nil (value : Text → Option Text) : resolveVarsFrom value [] = [] := by
  rw [resolveVarsFrom]
  rfl

theorem PmState.resolveVars_reference (s : PmState) {key : Text} (hkey : IsReferenceName key) :
    s.resolveVars (reference key) = (s.sendValue key).getD (reference key) := by
  have hopen : splitOnceTwice '{' (reference key) = some ([], key ++ ['}', '}']) :=
    if_pos ⟨rfl, rfl⟩
  have hclose : splitOnceTwice '}' (key ++ ['}', '}']) = some (key, []) :=
    splitOnceTwice_append hkey.closes []
  have htwice : hasTwice '{' (reference key) = true := rfl
  rw [resolveVars, if_neg (by rw [htwice]; decide), resolveVarsFrom]
  split
  next h => cases hopen.symm.trans h
  next before rest h =>
    cases hopen.symm.trans h
    split
    next h' => cases hclose.symm.trans h'
    next inner after h' =>
      cases hclose.symm.trans h'
      rw [hkey.trim_eq, resolveVarsFrom_nil, List.append_nil, List.nil_append]

namespace PmState

variable {s : PmState} {envVars : IndexMap Text Text} {key : Text}

theorem variablesLookup_eq (s : PmState) (key : Text) :
    s.variablesLookup key = (s.value key).map ScopeValue.toJson := by
  rw [variablesLookup, value]
  cases s.localVars.get key with
  | some v => rfl
  | none =>
    cases s.iterationData.bind fun d => d.get key with
    | some v => rfl
    | none =>
      cases s.environment.get key with
      | some v => rfl
      | none => cases s.collectionVars.get key <;> rfl

theorem resolveVariable_buildScope (s : PmState) (envVars : IndexMap Text Text) (key : Text) :
    (s.buildScope s.iterationData envVars).resolveVariable key =
      (((s.localVars.get key).or <|
        (s.iterationData.bind fun d => d.get key).or <|
        (((s.environment.get key).or (envVars.get key)).map .string).or <|
        (s.collectionVars.get key).or (s.globals.get key)).map valueToString).getD
          (reference key) := by
  have hdata : (s.iterationData.getD ∅).get key = s.iterationData.bind fun d => d.get key := by
    cases s.iterationData <;> rfl
  rw [VariableScope.resolveVariable]
  simp only [buildScope, hdata, get_foldl_insert]
  cases s.localVars.get key with
  | some v => rfl
  | none =>
    cases s.iterationData.bind fun d => d.get key with
    | some v => rfl
    | none =>
      cases (s.environment.get key).or (envVars.get key) with
      | some v => rfl
      | none =>
        cases s.collectionVars.get key with
        | some v => rfl
        | none => cases s.globals.get key <;> rfl

theorem sendValue_eq (s : PmState) (key : Text) : s.sendValue key = ((s.localVars.get key).or <|
      ((s.environment.get key).map .string).or <|
      (s.collectionVars.get key).or (s.globals.get key)).map ScopeValue.sendText := by
  rw [sendValue]
  cases s.localVars.get key with
  | some v => rfl
  | none =>
    cases s.environment.get key with
    | some v => rfl
    | none => cases s.collectionVars.get key <;> rfl

end PmState

/-! ## Which scopes may define a key -/

structure Definitions where
  localVars : Bool
  iterationData : Bool
  environment : Bool
  envVars : Bool
  collectionVars : Bool
  globals : Bool
  deriving DecidableEq

variable (d : Definitions)

/-- Neither the iteration data nor the command line define the key alone, as far as the
    scopes are concerned that come first. -/
def Definitions.Consistent : Prop :=
  (d.iterationData → d.localVars) ∧ (d.envVars → d.environment ∨ d.localVars)

instance (d : Definitions) : Decidable d.Consistent := inferInstanceAs (Decidable (_ ∧ _))

namespace PmState

def definitions (s : PmState) (envVars : IndexMap Text Text) (key : Text) : Definitions where
  localVars := (s.localVars.get key).isSome
  iterationData := (s.iterationData.bind fun d => d.get key).isSome
  environment := (s.environment.get key).isSome
  envVars := (envVars.get key).isSome
  collectionVars := (s.collectionVars.get key).isSome
  globals := (s.globals.get key).isSome

variable {s : PmState} {envVars : IndexMap Text Text} {key : Text}

theorem resolveVars_of_consistent (hkey : IsReferenceName key)
    (h : (s.definitions envVars key).Consistent) :
    s.resolveVars (reference key) =
      ((s.value key).map ScopeValue.sendText).getD (reference key) := by
  have hdata := h.1
  simp only [definitions, isSome_iff_ne_none] at hdata
  rw [s.resolveVars_reference hkey, sendValue_eq, value]
  cases hlocal : s.localVars.get key with
  | some v => rfl
  | none =>
    have hnone : (s.iterationData.bind fun d => d.get key) = none := by
      simpa [hlocal] using hdata
    rw [hnone, none_or, none_or]

theorem oneLookup_of_consistent (hkey : IsReferenceName key)
    (h : (s.definitions envVars key).Consistent) (hnull : s.value key ≠ some .null) :
    s.OneLookup envVars key := by
  have henv := h.2
  simp only [definitions, isSome_iff_ne_none] at henv
  refine ⟨s.variablesLookup_eq key, ?_, ?_⟩
  · rw [resolveVariable_buildScope, value]
    cases hlocal : s.localVars.get key with
    | some v => rfl
    | none =>
      -- What the command line defines, a script has set again.
      have hor : (s.environment.get key).or (envVars.get key) = s.environment.get key := by
        cases hs : s.environment.get key with
        | some v => rfl
        | none => simpa [hlocal, hs] using henv
      rw [hor]
  · rw [resolveVars_of_consistent hkey h]
    cases hv : s.value key with
    | none => rfl
    | some v =>
      have hne : v ≠ .null := fun hnil => hnull (hnil ▸ hv)
      rw [map_some, map_some, v.sendText_eq hne]

def single {σ : Type} (defined : Bool) (key : Text) (v : σ) : IndexMap Text σ :=
  if defined then (∅ : IndexMap Text σ).insert key v else ∅

theorem get_single {σ : Type} (defined : Bool) (key : Text) (v : σ) :
    (single defined key v).get key = if defined then some v else none := by
  cases defined with
  | false => rfl
  | true => rw [single, if_pos rfl, get_insert, if_pos rfl, if_pos rfl]

def ofDefinitions (key : Text) : PmState where
  localVars := single d.localVars key (.string ['l'])
  iterationData := some (single d.iterationData key (.string ['d']))
  environment := single d.environment key ['e']
  collectionVars := single d.collectionVars key (.string ['c'])
  globals := single d.globals key (.string ['g'])

theorem definitions_ofDefinitions (key : Text) :
    (ofDefinitions d key).definitions (single d.envVars key ['x']) key = d := by
  obtain ⟨l, i, e, x, c, g⟩ := d
  simp only [definitions, ofDefinitions, bind_some, get_single]
  cases l <;> cases i <;> cases e <;> cases x <;> cases c <;> cases g <;> rfl

theorem value_ofDefinitions_ne_null (key : Text) :
    (ofDefinitions d key).value key ≠ some .null := by
  obtain ⟨l, i, e, x, c, g⟩ := d
  simp only [value, ofDefinitions, bind_some, get_single]
  intro h
  cases l <;> cases i <;> cases e <;> cases c <;> cases g <;> cases h

theorem consistent_of_oneLookup (hkey : IsReferenceName key) {d : Definitions}
    (h : (ofDefinitions d key).OneLookup (single d.envVars key ['x']) key) : d.Consistent := by
  have hrunner := h.runner
  have hsend := h.sendRequest
  rw [resolveVariable_buildScope] at hrunner
  rw [resolveVars_reference _ hkey, sendValue_eq] at hsend
  obtain ⟨l, i, e, x, c, g⟩ := d
  simp only [value, ofDefinitions, bind_some, get_single] at hrunner hsend
  refine ⟨fun hi => ?_, fun hx => ?_⟩
  · -- Otherwise, the value is that of the data, and a request of a script has another one.
    by_contra hl
    obtain rfl : l = false := eq_false_of_not_eq_true hl
    obtain rfl : i = true := hi
    cases e <;> cases c <;> cases g <;> cases hsend
  · -- Otherwise, the runner has the value of the command line.
    by_contra hel
    obtain ⟨he, hl⟩ := not_or.1 hel
    obtain rfl : l = false := eq_false_of_not_eq_true hl
    obtain rfl : e = false := eq_false_of_not_eq_true he
    obtain rfl : x = true := hx
    cases i with
    | true => cases c <;> cases g <;> cases hsend
    | false => cases c <;> cases g <;> cases hrunner

/-- The lookups of a key agree in all states where the same scopes define it, exactly if the
    iteration data do not define it without the local variables, nor the command line without the
    environment of the script or the local variables. They never agree then on a value `null`, which
    the runner substitutes as nothing, and a request of a script as `null`. -/
theorem oneLookup_iff (hkey : IsReferenceName key) (d : Definitions) :
    ((∀ s envVars, definitions s envVars key = d → s.value key ≠ some .null →
      s.OneLookup envVars key) ↔ d.Consistent) ∧
    (d.Consistent → ∀ s envVars, definitions s envVars key = d → s.value key = some .null →
      ¬ s.OneLookup envVars key) := by
  refine ⟨⟨fun h => ?_, ?_⟩, ?_⟩
  · exact consistent_of_oneLookup hkey
      (h _ _ (definitions_ofDefinitions d key) (value_ofDefinitions_ne_null d key))
  · rintro hd s envVars rfl hnull
    exact oneLookup_of_consistent hkey hd hnull
  · rintro hd s envVars rfl hnull h
    have hsend := (resolveVars_of_consistent hkey hd).symm.trans h.sendRequest
    rw [hnull] at hsend
    cases hsend

theorem isReferenceName_id : IsReferenceName "id" := ⟨by decide, by decide⟩

theorem oneLookup_iff_id : IsReferenceName "id" ∧
    (∀ s envVars, definitions s envVars "id" = ⟨false, false, true, false, true, true⟩ →
      s.value "id" ≠ some .null → s.OneLookup envVars "id") :=
  ⟨isReferenceName_id, (oneLookup_iff isReferenceName_id _).1.2 (by decide)⟩

def dataOnly : PmState := ofDefinitions ⟨false, true, false, false, false, false⟩ "id"

theorem resolveVars_dataOnly : dataOnly.variablesLookup "id".toList = some "\"d\"".toList ∧
    (dataOnly.buildScope dataOnly.iterationData ∅).resolveVariable "id".toList = "d".toList ∧
    dataOnly.resolveVars (reference "id".toList) = reference "id".toList ∧
    ¬ dataOnly.OneLookup ∅ "id".toList := by
  have hsend : dataOnly.resolveVars (reference "id".toList) = reference "id".toList := by
    rw [resolveVars_reference _ isReferenceName_id]
    rfl
  refine ⟨by decide, by decide, hsend, fun h => ?_⟩
  cases h.sendRequest.symm.trans hsend

end PmState

end Tropel
