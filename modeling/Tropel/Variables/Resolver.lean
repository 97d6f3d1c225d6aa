import Mathlib.Data.List.Infix
import Tropel.Lib.IndexMap
import Tropel.Lib.Template
import Tropel.Lib.Text

/-!
# Variables

References to variables, as `{{name}}`, are resolved in passes.
-/

namespace Tropel

open Lib Option

def braces : Brackets Char where
  isOpen c := c = '{'
  isClose c := c = '}'
  disjoint := by
    intro c hc
    rw [decide_eq_true_eq] at hc
    subst hc
    decide

/-! ## Dynamic variables -/

def maxTotalOutput : ℕ := 16 * 1024 * 1024

structure DynamicToken where
  name : Text
  arg : Option Text
  whole : Text
  rest : Text

def isIdentChar (c : Char) : Bool := c.isAlphanum || c = '_'

def dynamicTokenAt : Text → Option DynamicToken
  | '{' :: '{' :: '$' :: c :: t =>
    if c.isAlpha then
      let name := c :: t.takeWhile isIdentChar
      match t.dropWhile isIdentChar with
      | ':' :: t =>
        let arg := t.takeWhile (· ≠ '}')
        match t.dropWhile (· ≠ '}') with
        | '}' :: '}' :: rest =>
          some ⟨name, some arg, ['{', '{', '$'] ++ name ++ ':' :: arg ++ ['}', '}'], rest⟩
        | _ => none
      | '}' :: '}' :: rest => some ⟨name, none, ['{', '{', '$'] ++ name ++ ['}', '}'], rest⟩
      | _ => none
    else none
  | _ => none

theorem dynamicTokenAt_spec {t : Text} {tok : DynamicToken} (h : dynamicTokenAt t = some tok) :
    ['{', '{', '$'] <+: t ∧ tok.rest.length < t.length := by
  rw [dynamicTokenAt.eq_def] at h
  split at h
  next c t =>
    refine ⟨⟨c :: t, rfl⟩, ?_⟩
    obtain ⟨-, h⟩ := ite_none_right_eq_some.1 h
    have hname := List.length_dropWhile_le isIdentChar t
    split at h
    next t' ht' =>
      have harg := List.length_dropWhile_le (· ≠ '}') t'
      split at h
      next rest hrest =>
        obtain rfl := some.inj h
        rw [ht'] at hname
        rw [hrest] at harg
        simp only [List.length_cons] at hname harg ⊢
        omega
      next => cases h
    next rest hrest =>
      obtain rfl := some.inj h
      rw [hrest] at hname
      simp only [List.length_cons] at hname ⊢
      omega
    next => cases h
  next => cases h

abbrev Catalog := Text → Option Text → Option Text

namespace Catalog

def resolveFrom (catalog : Catalog) (size : ℕ) (t : Text) : Except String Text :=
  match _h : dynamicTokenAt t with
  | some tok =>
    match catalog tok.name tok.arg with
    | some value =>
      if maxTotalOutput < size + byteLen value then
        .error s!"dynamic variable expansion exceeded max output ({maxTotalOutput} bytes)"
      else (value ++ ·) <$> catalog.resolveFrom (size + byteLen value) tok.rest
    | none => (tok.whole ++ ·) <$> catalog.resolveFrom (size + byteLen tok.whole) tok.rest
  | none =>
    match t with
    | [] => .ok []
    | c :: t => (c :: ·) <$> catalog.resolveFrom (size + c.utf8Size) t
termination_by t.length
decreasing_by
  · exact (dynamicTokenAt_spec _h).2
  · exact (dynamicTokenAt_spec _h).2
  · exact Nat.lt_succ_self _

def resolve (catalog : Catalog) (t : Text) : Except String Text :=
  if '$' ∉ t then .ok t
  else if hasTwice '{' t = false then .ok t
  else catalog.resolveFrom 0 t

end Catalog

inductive ScopeValue
  | string (s : Text)
  | number (text : Text)
  | bool (b : Bool)
  | null
  | other (text : Text)
  deriving DecidableEq

def valueToString : ScopeValue → Text
  | .string s => s
  | .number text => text
  | .bool b => (if b then "true" else "false").toList
  | .null => []
  | .other text => text

structure VariableScope where
  vars : IndexMap Text ScopeValue
  data : IndexMap Text ScopeValue
  env : IndexMap Text Text
  collection : IndexMap Text ScopeValue
  globals : IndexMap Text ScopeValue

namespace VariableScope

def resolveVariable (scope : VariableScope) (name : Text) : Text :=
  match scope.vars.get name with
  | some v => valueToString v
  | none => match scope.data.get name with
    | some v => valueToString v
    | none => match scope.env.get name with
      | some v => v
      | none => match scope.collection.get name with
        | some v => valueToString v
        | none => match scope.globals.get name with
          | some v => valueToString v
          | none => '{' :: '{' :: name ++ ['}', '}']

end VariableScope

/-! ## Escaping -/

inductive EscapeMode
  | none
  | json
  | url
  deriving DecidableEq

def hexChar (n : ℕ) : Char := if n < 10 then Char.ofNat (48 + n) else Char.ofNat (87 + n)

def jsonEscapeChar (c : Char) : Text :=
  if c = '"' then ['\\', '"']
  else if c = '\\' then ['\\', '\\']
  else if c = '\n' then ['\\', 'n']
  else if c = '\r' then ['\\', 'r']
  else if c = '\t' then ['\\', 't']
  else if c.toNat < 32 then ['\\', 'u', '0', '0', hexChar (c.toNat / 16), hexChar (c.toNat % 16)]
  else [c]

def jsonEscape (value : Text) : Text := value.flatMap jsonEscapeChar

def quoteCount : Text → ℕ
  | '\\' :: _ :: t => quoteCount t
  | '"' :: t => quoteCount t + 1
  | _ :: t => quoteCount t
  | [] => 0

def placeholderInJsonString (before : Text) : Bool := quoteCount before % 2 = 1

/-! ## Resolution -/

namespace VariableScope

variable (catalog : Catalog) (scope : VariableScope) (mode : EscapeMode)

def replacement (before whole inner : Text) : Text :=
  let name := trim inner
  if name.head? = some '$' then whole
  else
    let value := scope.resolveVariable name
    if hasTwice '{' value then value
    else match mode with
      | .none => value
      | .json => if placeholderInJsonString before then jsonEscape value else value
      | .url => value

def resolveWith (input : Text) : Text :=
  if hasTwice '{' input = false then input
  else
    let afterDynamic := (catalog.resolve input).toOption.getD input
    Piece.fill (scope.replacement mode) [] (braces.pieces afterDynamic)

def collect (text : Text) (out : List Text) : List Text :=
  ((braces.holes text).map trim).foldl
    (fun out name => if name ∈ out then out else out ++ [name]) out

structure DeepOutcome where
  value : Text
  hitCap : Bool
  unresolved : List Text
  deriving DecidableEq

def deepLoop : ℕ → Text → List Text → Text × List Text × Bool
  | 0, result, unresolved => (result, unresolved, false)
  | maxPasses + 1, result, unresolved =>
    if hasTwice '{' result = false then (result, unresolved, true)
    else
      let unresolved := collect result unresolved
      let resolved := scope.resolveWith catalog mode result
      if resolved = result then (result, unresolved, true)
      else deepLoop maxPasses resolved unresolved

def resolveDeepReporting (input : Text) (maxPasses : ℕ) : DeepOutcome :=
  if hasTwice '{' input = false then { value := input, hitCap := false, unresolved := [] }
  else
    let (result, unresolved, settled) := scope.deepLoop catalog mode maxPasses input []
    let unresolved := collect result unresolved
    { value := result
      hitCap := !settled
      unresolved :=
        if settled then unresolved.filter fun n => '{' :: '{' :: n ++ ['}', '}'] <:+: result
        else unresolved }

end VariableScope

end Tropel
