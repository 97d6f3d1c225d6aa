import Tropel.Input.BruText
import Tropel.Lib.F64
import Tropel.Variables.Lookup

/-!
# The export of a `.bru` file

`bruTextToJson` writes the blocks of a `.bru` file as JSON, in the form of an export of a
collection.

* `losesNothing_iff`: when nothing is lost without a note.
-/

namespace Tropel

open Lib List Option IndexMap Prod Except

def assertionLiteral (value : Text) : Text :=
  let v := trim value
  if !v.isEmpty && (parseF64 v).isSome && v.all fun c => c.isDigit || c = '.' || c = '-' then v
  else if ["true", "false", "null", "undefined"].any fun w => w.toList = v then v
  else serdeString v

def splitOnceWhitespace (t : Text) : Option (Text × Text) :=
  match t.dropWhile (!isWhitespace ·) with
  | [] => none
  | _ :: rest => some (t.takeWhile (!isWhitespace ·), rest)

def assertionOperators (expr lit text list arg : Text) : List (String × Text) :=
  let includes := ".includes(".toList
  let empty :=
    "(".toList ++ expr ++ " == null || String(".toList ++ expr ++ ").length === 0)".toList
  [ ("eq", expr ++ " === ".toList ++ lit),
    ("neq", expr ++ " !== ".toList ++ lit),
    ("gt", expr ++ " > ".toList ++ lit),
    ("gte", expr ++ " >= ".toList ++ lit),
    ("lt", expr ++ " < ".toList ++ lit),
    ("lte", expr ++ " <= ".toList ++ lit),
    ("in", list ++ includes ++ expr ++ [')']),
    ("notIn", '!' :: list ++ includes ++ expr ++ [')']),
    ("contains", expr ++ includes ++ text ++ [')']),
    ("notContains", '!' :: expr ++ includes ++ text ++ [')']),
    ("startsWith", expr ++ ".startsWith(".toList ++ text ++ [')']),
    ("endsWith", expr ++ ".endsWith(".toList ++ text ++ [')']),
    ("matches", "RegExp(".toList ++ text ++ ").test(".toList ++ expr ++ [')']),
    ("minLength", expr ++ ".length >= ".toList ++ trim arg),
    ("maxLength", expr ++ ".length <= ".toList ++ trim arg),
    ("length", expr ++ ".length === ".toList ++ trim arg),
    ("isNumber", "typeof ".toList ++ expr ++ " === \"number\"".toList),
    ("isString", "typeof ".toList ++ expr ++ " === \"string\"".toList),
    ("isBoolean", "typeof ".toList ++ expr ++ " === \"boolean\"".toList),
    ("isNull", expr ++ " === null".toList),
    ("isUndefined", expr ++ " === undefined".toList),
    ("isTruthy", '!' :: '!' :: expr),
    ("isFalsy", '!' :: expr),
    ("isEmpty", empty),
    ("isNotEmpty", '!' :: empty) ]

def assertionExpression (key rawValue : Text) : Result BruError Text :=
  let expr := match stripStart "res." key with
    | some rest => "response." ++ rest
    | none => key
  let trimmed := trim rawValue
  let (op, arg) := match splitOnceWhitespace trimmed with
    | some (op, arg) => (op, trim arg)
    | none => ("eq", trimmed)
  let list := '[' :: ", ".toList.intercalate ((arg.splitOn ',').map assertionLiteral) ++ [']']
  match (assertionOperators expr (assertionLiteral arg) (serdeString arg) list arg).find? fun o =>
    o.1.toList = op with
  | some (_, text) => .ok text
  | none => .error (.err (.unknownOperator op key rawValue))

/-! ## Modes -/

inductive AuthMode
  | basic | bearer | digest | wsse | apikey
  deriving DecidableEq

inductive BodyMode
  | json | text | xml | sparql | formUrlencoded | multipartForm
  deriving DecidableEq

def AuthMode.parse (mode : Text) : Option AuthMode :=
  if mode = "basic" then some basic
  else if mode = "bearer" then some bearer
  else if mode = "digest" then some digest
  else if mode = "wsse" then some wsse
  else if mode = "apikey" then some apikey
  else none

def AuthMode.blockName : AuthMode → String
  | basic => "auth:basic"
  | bearer => "auth:bearer"
  | digest => "auth:digest"
  | wsse => "auth:wsse"
  | apikey => "auth:apikey"

def BodyMode.parse (mode : Text) : Option BodyMode :=
  if mode = "json" then some json
  else if mode = "text" then some text
  else if mode = "xml" then some xml
  else if mode = "sparql" then some sparql
  else if mode = "form-urlencoded" then some formUrlencoded
  else if mode = "multipartForm" ∨ mode = "multipart-form" then some multipartForm
  else none

def BodyMode.blockName : BodyMode → String
  | json => "body:json"
  | text => "body:text"
  | xml => "body:xml"
  | sparql => "body:sparql"
  | formUrlencoded => "body:form-urlencoded"
  | multipartForm => "body:multipart-form"

inductive BruAuth
  | basic (username password : Option Text)
  | bearer (token : Option Text)
  | digest (username password : Option Text)
  | wsse (username password : Option Text)
  | apikey (key value : Option Text) (placement : Text)
  deriving DecidableEq

inductive BruBody
  | json (text : Option Text)
  | text (text : Option Text)
  | xml (text : Option Text)
  | sparql (text : Option Text)
  | formUrlencoded (entries : List BruPair)
  | multipartForm (parts : List BruPair)
  deriving DecidableEq

def AuthMode.build (d : String → Option Text) : AuthMode → BruAuth
  | basic => .basic (d "username") (d "password")
  | bearer => .bearer (d "token")
  | digest => .digest (d "username") (d "password")
  | wsse => .wsse (d "username") (d "password")
  | apikey => .apikey (d "key") (d "value") ((d "placement").getD "header")

def BodyMode.build (block : Option BruBlock) : BodyMode → BruBody
  | json => .json (block.map BruBlock.text)
  | text => .text (block.map BruBlock.text)
  | xml => .xml (block.map BruBlock.text)
  | sparql => .sparql (block.map BruBlock.text)
  | formUrlencoded => .formUrlencoded (block.elim [] BruBlock.pairs)
  | multipartForm => .multipartForm (block.elim [] BruBlock.pairs)

inductive BruNote
  | unsupportedAuth (mode : Text)
  | unsupportedBody (mode : Text)
  | dropped (name : Text) (what : String) (block : Text)
  deriving DecidableEq

namespace BruNote

def blockName : BruNote → Text
  | unsupportedAuth mode => "auth:" ++ mode
  | unsupportedBody mode => "body:" ++ mode
  | dropped _ _ block => block

end BruNote

/-! ## The export -/

def BruBlock.Blank (b : BruBlock) : Prop := b.pairs = [] ∧ trim b.text = []

instance (b : BruBlock) : Decidable b.Blank := inferInstanceAs (Decidable (_ ∧ _))

variable (blocks : List BruBlock)

def findBlock (name : String) : Option BruBlock :=
  blocks.find? fun b => b.name = name.toList

variable (pairs : List BruPair)

def dictGet (key : String) : Option Text :=
  (pairs.reverse.find? fun p => p.key = key.toList).map BruPair.value

def methods : List String :=
  ["get", "post", "put", "delete", "patch", "options", "head", "connect", "trace"]

variable (name : Text)

def isMethod : Bool := methods.any fun m => m.toList = name

def methodBlock : Option BruBlock := blocks.find? fun b => isMethod b.name

variable (dict : String → Option Text)

def authMode : Text := (dict "auth").getD "none"

def bodyMode : Text := (dict "body").getD "none"

def buildAuth : Option BruAuth × List BruNote :=
  let mode := authMode dict
  if mode = "none" ∨ mode = "inherit" then (none, [])
  else match AuthMode.parse mode with
    | none => (none, [.unsupportedAuth mode])
    | some m => (some (m.build (dictGet ((findBlock blocks m.blockName).elim [] BruBlock.pairs))),
        [])

def buildBody : Option BruBody × List BruNote :=
  let mode := bodyMode dict
  if mode = "none" then (none, [])
  else match BodyMode.parse mode with
    | none => (none, [.unsupportedBody mode])
    | some m => (some (m.build (findBlock blocks m.blockName)), [])

def droppedWhat : Option String :=
  if name = "vars:post-response" then some "post-response variables"
  else if name = "tests" then some "the tests block"
  else none

def noteDroppedBlocks : List BruNote :=
  blocks.filterMap fun b => (droppedWhat b.name).bind fun what =>
    if b.Blank then none else some (.dropped name what b.name)

def insertSorted (key value : Text) : List (Text × Text) → List (Text × Text)
  | [] => [(key, value)]
  | e :: m =>
    if key < e.1 then (key, value) :: e :: m
    else if key = e.1 then (key, value) :: m
    else e :: insertSorted key value m

def pairsToMap : List (Text × Text) :=
  pairs.foldl (fun m p => insertSorted p.key p.value m) []

structure BruRequest where
  url : Text
  method : Text
  headers : Option (List BruPair)
  params : Option (List BruPair)
  auth : Option BruAuth
  body : Option BruBody
  vars : Option (List BruPair)
  settings : Option (List (Text × Text))
  scriptReq : Option Text
  scriptRes : Option Text

structure BruExport where
  name : Text
  request : BruRequest
  assertions : List Text

def metaName : Text :=
  ((pairs.find? fun p => p.key = "name".toList).map BruPair.value).getD "Request".toList

def blockAssertions (block : Option BruBlock) : Result BruError (List Text) :=
  ((block.elim [] BruBlock.pairs).filter BruPair.enabled).mapM fun p =>
    assertionExpression p.key p.value

def buildRequest (method : BruBlock) : BruRequest where
  url := (dictGet method.pairs "url").getD []
  method := method.name.map Char.toUpper
  headers := (findBlock blocks "headers").map BruBlock.pairs
  params := (findBlock blocks "query").map BruBlock.pairs
  auth := (buildAuth blocks (dictGet method.pairs)).1
  body := (buildBody blocks (dictGet method.pairs)).1
  vars := (findBlock blocks "vars:pre-request").map BruBlock.pairs
  settings := (findBlock blocks "settings").map fun b => pairsToMap b.pairs
  scriptReq := (findBlock blocks "script:pre-request").map BruBlock.text
  scriptRes := (findBlock blocks "script:post-response").map BruBlock.text

def exportBlocks : Result BruError (BruExport × List BruNote) := do
  let metaBlock ← okOr (findBlock blocks "meta") .noMeta
  let name := metaName metaBlock.pairs
  let method ← okOr (methodBlock blocks) (.noMethod name)
  let assertions ← blockAssertions (findBlock blocks "assert")
  let dict := dictGet method.pairs
  return (⟨name, buildRequest blocks method, assertions⟩,
    (buildAuth blocks dict).2 ++ (buildBody blocks dict).2 ++ noteDroppedBlocks blocks name)

/-! ## JSON -/

inductive ExportJson
  | null
  | bool (b : Bool)
  | string (t : Text)
  | array (items : List ExportJson)
  | object (fields : List (String × ExportJson))

namespace ExportJson

def optField (key : String) (value : Option ExportJson) : List (String × ExportJson) :=
  value.elim [] fun v => [(key, v)]

def nullable (t : Option Text) : ExportJson := t.elim null string

def ofPair (p : BruPair) : ExportJson :=
  object [("name", string p.key), ("value", string p.value), ("enabled", bool p.enabled)]

def ofPairs : ExportJson := array (pairs.map ofPair)

def ofParam (p : BruPair) : ExportJson :=
  object [("name", string p.key), ("value", string p.value), ("enabled", bool p.enabled),
    ("type", string "query")]

def ofPart (p : BruPair) : ExportJson :=
  object [("type", string "text"), ("name", string p.key), ("value", string p.value),
    ("enabled", bool p.enabled)]

def ofMap (m : List (Text × Text)) : ExportJson :=
  object (m.map fun e => (String.ofList e.1, string e.2))

def ofAuth : BruAuth → ExportJson
  | .basic username password => object [("mode", string "basic"),
      ("basic", object [("username", nullable username), ("password", nullable password)])]
  | .bearer token =>
    object [("mode", string "bearer"), ("bearer", object [("token", nullable token)])]
  | .digest username password => object [("mode", string "digest"),
      ("digest", object [("username", nullable username), ("password", nullable password)])]
  | .wsse username password => object [("mode", string "wsse"),
      ("wsse", object [("username", nullable username), ("password", nullable password)])]
  | .apikey key value placement => object [("mode", string "apikey"),
      ("apikey", object [("key", nullable key), ("value", nullable value),
        ("placement", string placement)])]

def ofBody : BruBody → ExportJson
  | .json text => object (("mode", string "json") :: optField "json" (text.map string))
  | .text text => object (("mode", string "text") :: optField "text" (text.map string))
  | .xml text => object (("mode", string "xml") :: optField "xml" (text.map string))
  | .sparql text => object (("mode", string "sparql") :: optField "sparql" (text.map string))
  | .formUrlencoded entries =>
    object [("mode", string "formUrlEncoded"), ("formUrlEncoded", ofPairs entries)]
  | .multipartForm parts => object [("mode", string "multipartForm"),
      ("multipartForm", array (parts.map ofPart))]

def ofScripts (req res : Option Text) : Option ExportJson :=
  match req, res with
  | none, none => none
  | _, _ => some (object (optField "req" (req.map string) ++ optField "res" (res.map string)))

end ExportJson

open ExportJson in
def BruRequest.toJson (r : BruRequest) : ExportJson :=
  object ([("url", string r.url), ("method", string r.method)] ++
    (optField "headers" (r.headers.map ofPairs) ++
    (optField "params" (r.params.map fun ps => array (ps.map ofParam)) ++
    (optField "auth" (r.auth.map ofAuth) ++
    (optField "body" (r.body.map ofBody) ++
    (optField "vars" (r.vars.map ofPairs) ++
    (optField "settings" (r.settings.map ofMap) ++
    optField "script" (ofScripts r.scriptReq r.scriptRes))))))))

open ExportJson in
def BruExport.toJson (e : BruExport) : ExportJson :=
  object [("version", string ['1']), ("name", string e.name),
    ("items", array [object [("type", string "http"), ("name", string e.name),
      ("request", e.request.toJson), ("assertions", array (e.assertions.map string))]])]

def bruTextToJson (text : Text) : Result BruError (ExportJson × List BruNote) := do
  let blocks ← splitBlocks text
  let (e, notes) ← exportBlocks blocks
  return (e.toJson, notes)

/-! ## Different exports are different JSON -/

namespace ExportJson

def member (key : String) : ExportJson → Option ExportJson
  | object fields => IndexMap.find key fields
  | _ => none

theorem find_optField_append (key key' : String) (value : Option ExportJson)
    (l : List (String × ExportJson)) :
    IndexMap.find key (optField key' value ++ l) =
      if key' = key then value.or (IndexMap.find key l) else IndexMap.find key l := by
  cases value with
  | none => simp [optField]
  | some v => by_cases h : key' = key <;> simp [optField, IndexMap.find, h]

theorem find_optField (key key' : String) (value : Option ExportJson) :
    IndexMap.find key (optField key' value) = if key' = key then value else none := by
  have h := find_optField_append key key' value []
  rwa [append_nil, IndexMap.find, Option.or_none] at h

theorem string_injective : Function.Injective string := fun _ _ h => string.inj h

theorem array_map_injective {α : Type} {f : α → ExportJson} (hf : Function.Injective f) :
    Function.Injective fun l : List α => array (l.map f) :=
  fun _ _ h => hf.list_map (array.inj h)

theorem ofPairs_injective : Function.Injective ofPairs := by
  refine array_map_injective ?_
  rintro ⟨k, v, e⟩ ⟨k', v', e'⟩ h
  simpa [ofPair] using h

theorem ofParams_injective : Function.Injective fun ps :
    List BruPair => array (ps.map ofParam) := by
  refine array_map_injective ?_
  rintro ⟨k, v, e⟩ ⟨k', v', e'⟩ h
  simpa [ofParam] using h

theorem ofParts_injective : Function.Injective fun ps : List BruPair => array (ps.map ofPart) := by
  refine array_map_injective ?_
  rintro ⟨k, v, e⟩ ⟨k', v', e'⟩ h
  simpa [ofPart] using h

theorem nullable_injective : Function.Injective nullable := by
  intro a b h
  cases a <;> cases b <;> simp_all [nullable]

theorem ofMap_injective : Function.Injective ofMap := by
  intro m m' h
  refine Function.Injective.list_map ?_ (object.inj h)
  rintro ⟨k, v⟩ ⟨k', v'⟩ h
  obtain ⟨hk, hv⟩ := mk.inj h
  have hk : (String.ofList k).toList = (String.ofList k').toList := congrArg String.toList hk
  rw [String.toList_ofList, String.toList_ofList] at hk
  exact congrArg₂ Prod.mk hk (string.inj hv)

theorem ofAuth_injective : Function.Injective ofAuth := by
  intro a b h
  cases a <;> cases b <;> simp_all [ofAuth, nullable_injective.eq_iff]

theorem optField_injective (key : String) : Function.Injective (optField key) := by
  intro a b h
  cases a <;> cases b <;> simp_all [optField]

theorem ofBody_injective : Function.Injective ofBody := by
  intro a b h
  cases a <;> cases b <;>
    simp_all [ofBody, (optField_injective _).eq_iff, (map_injective string_injective).eq_iff,
      ofPairs_injective.eq_iff]
  exact ofParts_injective (congrArg array h)

theorem ofScripts_injective {req res req' res' : Option Text}
    (h : ofScripts req res = ofScripts req' res') :
    req = req' ∧ res = res' := by
  have hget (key : String) : ((ofScripts req res).bind (member key)) =
      (ofScripts req' res').bind (member key) := by
    rw [h]
  have hreq (req res : Option Text) : (ofScripts req res).bind (member "req") = req.map string := by
    cases req <;> cases res <;> rfl
  have hres (req res : Option Text) : (ofScripts req res).bind (member "res") = res.map string := by
    cases req <;> cases res <;> rfl
  exact ⟨map_injective string_injective ((hreq ..).symm.trans ((hget _).trans (hreq ..))),
    map_injective string_injective ((hres ..).symm.trans ((hget _).trans (hres ..)))⟩

end ExportJson

open ExportJson in
theorem BruRequest.toJson_injective : Function.Injective BruRequest.toJson := by
  intro r r' h
  have hget (key : String) : r.toJson.member key = r'.toJson.member key := by rw [h]
  simp only [toJson, member, cons_append, nil_append, IndexMap.find, find_optField_append,
    find_optField] at hget
  have hurl : r.url = r'.url := by simpa using hget "url"
  have hmethod : r.method = r'.method := by simpa using hget "method"
  have hheaders : r.headers = r'.headers :=
    Option.map_injective ofPairs_injective (by simpa using hget "headers")
  have hparams : r.params = r'.params :=
    Option.map_injective ofParams_injective (by simpa using hget "params")
  have hauth : r.auth = r'.auth :=
    Option.map_injective ofAuth_injective (by simpa using hget "auth")
  have hbody : r.body = r'.body :=
    Option.map_injective ofBody_injective (by simpa using hget "body")
  have hvars : r.vars = r'.vars :=
    Option.map_injective ofPairs_injective (by simpa using hget "vars")
  have hsettings : r.settings = r'.settings :=
    Option.map_injective ofMap_injective (by simpa using hget "settings")
  obtain ⟨hreq, hres⟩ := ofScripts_injective (by simpa using hget "script")
  cases r
  cases r'
  exact BruRequest.mk.injEq .. ▸ ⟨hurl, hmethod, hheaders, hparams, hauth, hbody, hvars, hsettings,
    hreq, hres⟩

open ExportJson in
theorem BruExport.toJson_injective : Function.Injective BruExport.toJson := by
  rintro ⟨name, request, assertions⟩ ⟨name', request', assertions'⟩ h
  simp only [toJson, object.injEq, List.cons.injEq, Prod.mk.injEq, true_and, string.injEq, and_true,
    array.injEq, BruRequest.toJson_injective.eq_iff, string_injective.list_map.eq_iff] at h
  obtain ⟨rfl, -, rfl, rfl⟩ := h
  rfl

/-! ## The blocks that are looked up -/

def fixedNames : List String :=
  ["meta", "headers", "query", "vars:pre-request", "settings", "script:pre-request",
    "script:post-response", "assert"]

def readNames : List String :=
  fixedNames ++ (((AuthMode.parse (authMode dict)).map AuthMode.blockName).toList ++
    ((BodyMode.parse (bodyMode dict)).map BodyMode.blockName).toList)

variable {dict : String → Option Text} {blocks blocks' : List BruBlock}
  {notes notes' : List BruNote}
  {e e' : BruExport} {c : Char} {text : Text}

theorem buildAuth_of_parse {m : AuthMode} (blocks : List BruBlock)
    (h : AuthMode.parse (authMode dict) = some m) :
    buildAuth blocks dict =
      (some (m.build (dictGet ((findBlock blocks m.blockName).elim [] BruBlock.pairs))), []) := by
  rw [buildAuth, if_neg, h]
  rintro (hmode | hmode) <;> rw [hmode] at h <;> cases h

theorem buildBody_of_parse {m : BodyMode} (blocks : List BruBlock)
    (h : BodyMode.parse (bodyMode dict) = some m) :
    buildBody blocks dict = (some (m.build (findBlock blocks m.blockName)), []) := by
  rw [buildBody, if_neg, h]
  intro hmode
  rw [hmode] at h
  cases h

theorem buildAuth_congr (h : ∀ m, AuthMode.parse (authMode dict) = some m →
      findBlock blocks' m.blockName = findBlock blocks m.blockName) :
    buildAuth blocks' dict = buildAuth blocks dict := by
  rw [buildAuth, buildAuth]
  split
  · rfl
  split
  · rfl
  next m hm => rw [h m hm]

theorem buildBody_congr (h : ∀ m, BodyMode.parse (bodyMode dict) = some m →
      findBlock blocks' m.blockName = findBlock blocks m.blockName) :
    buildBody blocks' dict = buildBody blocks dict := by
  rw [buildBody, buildBody]
  split
  · rfl
  split
  · rfl
  next m hm => rw [h m hm]

theorem exportBlocks_eq_ok : exportBlocks blocks = .ok (e, notes) ↔ ∃ metaBlock method assertions,
      findBlock blocks "meta" = some metaBlock ∧ methodBlock blocks = some method ∧
      blockAssertions (findBlock blocks "assert") = .ok assertions ∧
      e = ⟨metaName metaBlock.pairs, buildRequest blocks method, assertions⟩ ∧
      notes = (buildAuth blocks (dictGet method.pairs)).2 ++
        (buildBody blocks (dictGet method.pairs)).2 ++
        noteDroppedBlocks blocks (metaName metaBlock.pairs) := by
  rw [exportBlocks]
  constructor
  · intro h
    obtain ⟨metaBlock, hmeta, h⟩ := bind_eq_ok.1 h
    obtain ⟨method, hmethod, h⟩ := bind_eq_ok.1 h
    obtain ⟨assertions, hassert, h⟩ := bind_eq_ok.1 h
    obtain ⟨rfl, rfl⟩ := mk.inj (ok.inj h)
    exact ⟨metaBlock, method, assertions, okOr_eq_ok.1 hmeta, okOr_eq_ok.1 hmethod, hassert,
      rfl, rfl⟩
  · rintro ⟨metaBlock, method, assertions, hmeta, hmethod, hassert, rfl, rfl⟩
    exact bind_eq_ok.2 ⟨_, okOr_eq_ok.2 hmeta, bind_eq_ok.2 ⟨_, okOr_eq_ok.2 hmethod,
      bind_eq_ok.2 ⟨_, hassert, rfl⟩⟩⟩

theorem export_congr (hmethod : methodBlock blocks' = methodBlock blocks)
    (hfind : ∀ method, methodBlock blocks = some method →
      ∀ n ∈ readNames (dictGet method.pairs), findBlock blocks' n = findBlock blocks n)
    (h : exportBlocks blocks = .ok (e, notes)) (h' : exportBlocks blocks' = .ok (e', notes')) :
    e' = e := by
  obtain ⟨metaBlock, method, assertions, hm, hmethod₁, ha, rfl, -⟩ := exportBlocks_eq_ok.1 h
  obtain ⟨metaBlock', method', assertions', hm', hmethod₁', ha', rfl, -⟩ := exportBlocks_eq_ok.1 h'
  obtain rfl : method' = method := some_injective _ (hmethod₁'.symm.trans (hmethod.trans hmethod₁))
  replace hfind := hfind method' hmethod₁
  have hfixed (n : String) (hn : n ∈ fixedNames) : findBlock blocks' n = findBlock blocks n :=
    hfind n (mem_append_left _ hn)
  obtain rfl : metaBlock' = metaBlock := by
    rw [hfixed "meta" (by decide), hm] at hm'
    exact (some_injective _ hm').symm
  obtain rfl : assertions' = assertions := by
    rw [hfixed "assert" (by decide), ha] at ha'
    exact (ok.inj ha').symm
  have hauth : buildAuth blocks' (dictGet method'.pairs) =
      buildAuth blocks (dictGet method'.pairs) :=
    buildAuth_congr fun m hm => hfind _ (by simp [readNames, hm])
  have hbody : buildBody blocks' (dictGet method'.pairs) =
      buildBody blocks (dictGet method'.pairs) :=
    buildBody_congr fun m hm => hfind _ (by simp [readNames, hm])
  rw [buildRequest, buildRequest, hauth, hbody, hfixed "headers" (by decide),
    hfixed "query" (by decide), hfixed "vars:pre-request" (by decide),
      hfixed "settings" (by decide),
    hfixed "script:pre-request" (by decide), hfixed "script:post-response" (by decide)]

section Replace

variable {p : BruBlock → Bool} {before rest : List BruBlock} {b b' : BruBlock}

theorem find?_of_first (hp : p b = true) (hbefore : ∀ x ∈ before, p x = false) :
    (before ++ b :: rest).find? p = some b := by
  have hnone : before.find? p = none := find?_eq_none.2 fun x hx => by simp [hbefore x hx]
  rw [find?_append, hnone, find?_cons_of_pos hp, none_or]

theorem find?_replace (hp : p b' = p b) (hbefore : p b = true → ∃ x ∈ before, p x = true) :
    (before ++ b' :: rest).find? p = (before ++ b :: rest).find? p := by
  rw [find?_append, find?_append]
  cases hb : p b with
  | false => rw [find?_cons_of_neg (by simp [hp, hb]), find?_cons_of_neg (by simp [hb])]
  | true =>
    obtain ⟨x, hx⟩ := isSome_iff_exists.1 (find?_isSome.2 (hbefore hb))
    rw [hx, some_or, some_or]

theorem find?_isSome_replace (hp : p b' = p b) (h : ((before ++ b :: rest).find? p).isSome = true) :
    ((before ++ b' :: rest).find? p).isSome = true := by
  rw [find?_isSome] at h ⊢
  obtain ⟨x, hx, hpx⟩ := h
  rcases mem_append.1 hx with hx | hx
  · exact ⟨x, mem_append_left _ hx, hpx⟩
  rcases mem_cons.1 hx with rfl | hx
  · exact ⟨b', mem_append_right _ mem_cons_self, hp.trans hpx⟩
  · exact ⟨x, mem_append_right _ (mem_cons_of_mem _ hx), hpx⟩

end Replace

/-- A block is looked up: it is the first one of a method, or the first one with a name that
    is looked up for the request. -/
def LookedUp (before : List BruBlock) (b : BruBlock) (rest : List BruBlock) : Prop :=
  (isMethod b.name = true ∧ ∀ x ∈ before, isMethod x.name = false) ∨
    ∃ method, methodBlock (before ++ b :: rest) = some method ∧
      (∃ n ∈ readNames (dictGet method.pairs), b.name = n.toList) ∧ ∀ x ∈ before, x.name ≠ b.name

theorem export_eq_of_not_read {before rest : List BruBlock} {b b' : BruBlock}
    (hname : b'.name = b.name) (hread : ¬ LookedUp before b rest)
    (h : exportBlocks (before ++ b :: rest) = .ok (e, notes))
    (h' : exportBlocks (before ++ b' :: rest) = .ok (e', notes')) : e' = e := by
  rw [LookedUp, not_or] at hread
  obtain ⟨hmethod, hread⟩ := hread
  refine export_congr (find?_replace (congrArg isMethod hname) ?_) ?_ h h'
  · intro hb
    by_contra! hbefore
    exact hmethod ⟨hb, fun x hx => Bool.eq_false_iff.2 (hbefore x hx)⟩
  · intro method hmethod n hn
    refine find?_replace (by rw [hname]) ?_
    intro hb
    by_contra! hbefore
    have hbn : b.name = n.toList := of_decide_eq_true hb
    exact hread ⟨method, hmethod, ⟨n, hn, hbn⟩,
      fun x hx hxb => hbefore x hx (decide_eq_true (hxb.trans hbn))⟩

/-! ## Other contents -/

def samplePairs (c : Char) : List BruPair :=
  ["name", "url", "username", "token", "key"].map fun key => ⟨key.toList, [c], true⟩

def sampleBlock (c : Char) : BruBlock :=
  if isTextBlock name then ⟨name, [], [c]⟩ else ⟨name, samplePairs c, []⟩

def sampleLines (isText : Bool) (c : Char) : List Text :=
  if isText then [[c]]
  else ["name: ", "url: ", "username: ", "token: ", "key: "].map fun key => key.toList ++ [c]

theorem name_sampleBlock (c : Char) : (sampleBlock name c).name = name := by
  rw [sampleBlock]
  split <;> rfl

theorem run_sampleLines_false (hc : c = 'a' ∨ c = 'b') :
    SplitState.run ⟨[], some ⟨name, [], [], false⟩, none⟩ (sampleLines false c) =
      .ok ⟨[], some ⟨name, samplePairs c, [], false⟩, none⟩ := by
  obtain rfl | rfl := hc <;> rfl

theorem run_sampleLines_true (hc : c = 'a' ∨ c = 'b') :
    SplitState.run ⟨[], some ⟨name, [], [], true⟩, none⟩ (sampleLines true c) =
      .ok ⟨[], some ⟨name, [], [[c]], true⟩, none⟩ := by
  obtain rfl | rfl := hc <;> rfl

theorem exists_sample (d : BlockAt (lines text)) (hc : c = 'a' ∨ c = 'b') :
    ∃ (text' : Text) (d' : BlockAt (lines text')), d.SameElsewhere d' ∧ d'.HasContent ∧
      d'.block = sampleBlock d.block.name c := by
  have hlines : ∀ isText, ∀ l ∈ sampleLines isText c, '\n' ∉ l := by
    obtain rfl | rfl := hc <;> decide
  have hcontent : ∀ isText, ∃ l ∈ sampleLines isText c, trim l ≠ [] := by
    obtain rfl | rfl := hc <;> decide
  rw [sampleBlock]
  split
  next htext =>
    have houtdent : outdent [[c]] = .ok [c] := by
      obtain rfl | rfl := hc <;> rfl
    obtain ⟨text', d', hd, hd', hblock⟩ := d.exists_replace (hlines true)
      (b := ⟨d.block.name, [], [[c]], true⟩)
      (by rw [OpenBlock.fresh, htext]; exact run_sampleLines_true _ hc) rfl htext.symm houtdent
    refine ⟨text', d', hd, ?_, hblock⟩
    rw [BlockAt.HasContent, hd']
    exact hcontent true
  next htext =>
    rw [Bool.not_eq_true] at htext
    obtain ⟨text', d', hd, hd', hblock⟩ := d.exists_replace (hlines false)
      (b := ⟨d.block.name, samplePairs c, [], false⟩)
      (by rw [OpenBlock.fresh, htext]; exact run_sampleLines_false _ hc) rfl htext.symm rfl
    refine ⟨text', d', hd, ?_, hblock⟩
    rw [BlockAt.HasContent, hd']
    exact hcontent false

theorem blockAssertions_sampleBlock (hc : c = 'a' ∨ c = 'b') :
    blockAssertions (some (sampleBlock "assert" c)) =
      .ok (["name", "url", "username", "token", "key"].map fun key =>
        key.toList ++ " === \"" ++ [c, '"']) := by
  obtain rfl | rfl := hc <;> decide

theorem isTextBlock_of_isMethod {name : Text} (h : isMethod name = true) :
    isTextBlock name = false := by
  obtain ⟨m, hm, hname⟩ := any_eq_true.1 h
  rw [← of_decide_eq_true hname]
  clear hname
  revert m
  decide

theorem isMethod_of_mem_readNames {n : String} (hn : n ∈ readNames dict) :
    isMethod n.toList = false := by
  rw [readNames, mem_append, mem_append] at hn
  rcases hn with hn | hn | hn
  · revert n
    decide
  · obtain ⟨m, -, rfl⟩ := map_eq_some_iff.1 (mem_toList.1 hn)
    cases m <;> decide
  · obtain ⟨m, -, rfl⟩ := map_eq_some_iff.1 (mem_toList.1 hn)
    cases m <;> decide

section Sample

variable {before rest : List BruBlock} {b : BruBlock} {c : Char}

theorem exists_export_sample (hc : c = 'a' ∨ c = 'b') {r : BruExport × List BruNote}
    (h : exportBlocks (before ++ b :: rest) = .ok r) :
    ∃ e notes, exportBlocks (before ++ sampleBlock b.name c :: rest) = .ok (e, notes) := by
  obtain ⟨metaBlock, method, assertions, hm, hmethod, ha, -, -⟩ := exportBlocks_eq_ok.1 h
  have hname := name_sampleBlock b.name c
  obtain ⟨metaBlock', hm'⟩ : ∃ b',
      findBlock (before ++ sampleBlock b.name c :: rest) "meta" = some b' :=
    isSome_iff_exists.1 (find?_isSome_replace (by rw [hname]) (isSome_iff_exists.2 ⟨_, hm⟩))
  obtain ⟨method', hmethod'⟩ : ∃ b',
      methodBlock (before ++ sampleBlock b.name c :: rest) = some b' :=
    isSome_iff_exists.1 (find?_isSome_replace (by rw [hname]) (isSome_iff_exists.2 ⟨_, hmethod⟩))
  have ha' : ∃ assertions',
      blockAssertions (findBlock (before ++ sampleBlock b.name c :: rest) "assert") =
      .ok assertions' := by
    by_cases hfirst : b.name = "assert" ∧ ∀ x ∈ before, x.name ≠ "assert"
    · have hfind : findBlock (before ++ sampleBlock b.name c :: rest) "assert" =
          some (sampleBlock "assert" c) := by
        rw [findBlock, find?_of_first (decide_eq_true (hname.trans hfirst.1)) fun x hx =>
          decide_eq_false (hfirst.2 x hx), hfirst.1]
      exact ⟨_, hfind ▸ blockAssertions_sampleBlock hc⟩
    · have hfind : findBlock (before ++ sampleBlock b.name c :: rest) "assert" =
          findBlock (before ++ b :: rest) "assert" := by
        refine find?_replace (by rw [hname]) fun hb => ?_
        by_contra! hbefore
        exact hfirst ⟨of_decide_eq_true hb, fun x hx hxn => hbefore x hx (decide_eq_true hxn)⟩
      exact ⟨assertions, hfind ▸ ha⟩
  obtain ⟨assertions', ha'⟩ := ha'
  exact ⟨_, _,
    exportBlocks_eq_ok.2 ⟨metaBlock', method', assertions', hm', hmethod', ha', rfl, rfl⟩⟩

variable {na nb : List BruNote} {ea eb : BruExport}

theorem export_sample_ne_of_find {n : String} {method : BruBlock}
    (hmethod : methodBlock (before ++ b :: rest) = some method) (hn : isMethod n.toList = false)
    (hname : b.name = n.toList) (hbefore : ∀ x ∈ before, x.name ≠ b.name)
    (ha : exportBlocks (before ++ sampleBlock b.name 'a' :: rest) = .ok (ea, na))
    (hb : exportBlocks (before ++ sampleBlock b.name 'b' :: rest) = .ok (eb, nb)) {α : Type}
    (f : BruExport → α) (g : Option BruBlock → α)
    (hg : ∀ blocks e notes, methodBlock blocks = some method →
      exportBlocks blocks = .ok (e, notes) → f e = g (findBlock blocks n))
    (hne : g (some (sampleBlock n.toList 'a')) ≠ g (some (sampleBlock n.toList 'b'))) :
    ea ≠ eb := by
  have hsame (c : Char) : methodBlock (before ++ sampleBlock b.name c :: rest) = some method := by
    rw [← hmethod]
    refine find?_replace (congrArg isMethod (name_sampleBlock ..)) fun h => ?_
    rw [hname, hn] at h
    cases h
  have hfind (c : Char) : findBlock (before ++ sampleBlock b.name c :: rest) n =
      some (sampleBlock n.toList c) := by
    rw [findBlock, find?_of_first, hname]
    · exact decide_eq_true ((name_sampleBlock ..).trans hname)
    · exact fun x hx => decide_eq_false fun h => hbefore x hx (h.trans hname.symm)
  intro heq
  refine hne ?_
  rw [← hfind 'a', ← hfind 'b', ← hg _ _ _ (hsame 'a') ha, ← hg _ _ _ (hsame 'b') hb, heq]

theorem export_sample_ne_of_method (hmethod : isMethod b.name = true)
    (hbefore : ∀ x ∈ before, isMethod x.name = false)
    (ha : exportBlocks (before ++ sampleBlock b.name 'a' :: rest) = .ok (ea, na))
    (hb : exportBlocks (before ++ sampleBlock b.name 'b' :: rest) = .ok (eb, nb)) : ea ≠ eb := by
  have hfind (c : Char) : methodBlock (before ++ sampleBlock b.name c :: rest) =
      some (sampleBlock b.name c) :=
    find?_of_first ((congrArg isMethod (name_sampleBlock ..)).trans hmethod) hbefore
  have hurl {c : Char} {e : BruExport} {notes : List BruNote}
      (h : exportBlocks (before ++ sampleBlock b.name c :: rest) = .ok (e, notes)) :
      e.request.url = (dictGet (samplePairs c) "url").getD [] := by
    obtain ⟨-, method, -, -, hm, -, rfl, -⟩ := exportBlocks_eq_ok.1 h
    obtain rfl := some_injective _ (hm.symm.trans (hfind c))
    rw [sampleBlock, if_neg (by rw [isTextBlock_of_isMethod hmethod]; decide)]
    rfl
  intro heq
  have hab := (hurl ha).symm.trans ((congrArg (fun e => e.request.url) heq).trans (hurl hb))
  exact absurd hab (by decide)

theorem export_sample_ne (hread : LookedUp before b rest)
    (ha : exportBlocks (before ++ sampleBlock b.name 'a' :: rest) = .ok (ea, na))
    (hb : exportBlocks (before ++ sampleBlock b.name 'b' :: rest) = .ok (eb, nb)) : ea ≠ eb := by
  rcases hread with ⟨hmethod, hbefore⟩ | ⟨method, hmethod, ⟨n, hn, hname⟩, hbefore⟩
  · exact export_sample_ne_of_method hmethod hbefore ha hb
  have hn' := isMethod_of_mem_readNames hn
  have hne {α : Type} := export_sample_ne_of_find (α := α) hmethod hn' hname hbefore ha hb
  -- What is made of the request.
  have hrequest {α : Type} (f : BruRequest → α) (g : Option BruBlock → α)
      (hg : ∀ blocks, f (buildRequest blocks method) = g (findBlock blocks n))
      (h : g (some (sampleBlock n.toList 'a')) ≠ g (some (sampleBlock n.toList 'b'))) :
        ea ≠ eb := by
    refine hne (fun e => f e.request) g ?_ h
    intro blocks e notes hm he
    obtain ⟨-, method', -, -, hm', -, rfl, -⟩ := exportBlocks_eq_ok.1 he
    obtain rfl := some_injective _ (hm.symm.trans hm')
    exact hg blocks
  rw [readNames, mem_append, mem_append] at hn
  rcases hn with hn | hn | hn
  · simp only [fixedNames, mem_cons, not_mem_nil, or_false] at hn
    rcases hn with rfl | rfl | rfl | rfl | rfl | rfl | rfl | rfl
    · refine hne BruExport.name (fun block => metaName (block.elim [] BruBlock.pairs)) ?_
        (by decide)
      intro blocks e notes _ he
      obtain ⟨metaBlock, -, -, hm, -, -, rfl, -⟩ := exportBlocks_eq_ok.1 he
      rw [hm]
      rfl
    · exact hrequest BruRequest.headers (Option.map BruBlock.pairs) (fun _ => rfl) (by decide)
    · exact hrequest BruRequest.params (Option.map BruBlock.pairs) (fun _ => rfl) (by decide)
    · exact hrequest BruRequest.vars (Option.map BruBlock.pairs) (fun _ => rfl) (by decide)
    · exact hrequest BruRequest.settings (Option.map fun b => pairsToMap b.pairs) (fun _ => rfl)
        (by decide)
    · exact hrequest BruRequest.scriptReq (Option.map BruBlock.text) (fun _ => rfl) (by decide)
    · exact hrequest BruRequest.scriptRes (Option.map BruBlock.text) (fun _ => rfl) (by decide)
    · refine hne (fun e => ok e.assertions) blockAssertions ?_ ?_
      · intro blocks e notes _ he
        obtain ⟨-, -, assertions, -, -, h, rfl, -⟩ := exportBlocks_eq_ok.1 he
        exact h.symm
      · rw [blockAssertions_sampleBlock (.inl rfl), blockAssertions_sampleBlock (.inr rfl)]
        decide
  · obtain ⟨m, hm, rfl⟩ := map_eq_some_iff.1 (mem_toList.1 hn)
    refine hrequest BruRequest.auth
      (fun block => some (m.build (dictGet (block.elim [] BruBlock.pairs)))) ?_ ?_
    · intro blocks
      rw [buildRequest, buildAuth_of_parse blocks hm]
    · cases m <;> decide
  · obtain ⟨m, hm, rfl⟩ := map_eq_some_iff.1 (mem_toList.1 hn)
    refine hrequest BruRequest.body (fun block => some (m.build block)) ?_ ?_
    · intro blocks
      rw [buildRequest, buildBody_of_parse blocks hm]
    · cases m <;> decide

end Sample

/-! ## What is lost -/

def Contributes (text : Text) (before : List BruBlock) (b : BruBlock) : Prop :=
  ∃ d : BlockAt (lines text), d.before = before ∧ d.block = b ∧
    ∃ (text' : Text) (d' : BlockAt (lines text')), d.SameElsewhere d' ∧ d'.HasContent ∧
      ∃ json notes json' notes', bruTextToJson text = .ok (json, notes) ∧
        bruTextToJson text' = .ok (json', notes') ∧ json' ≠ json

def Noted (blocks : List BruBlock) (name : Text) : Prop :=
  ((droppedWhat name).isSome = true ∧ ∃ b ∈ blocks, b.name = name ∧ ¬ b.Blank) ∨
    ∃ method, methodBlock blocks = some method ∧
    let auth := authMode (dictGet method.pairs)
    let body := bodyMode (dictGet method.pairs)
    (auth ≠ "none" ∧ auth ≠ "inherit" ∧ AuthMode.parse auth = none ∧ name = "auth:" ++ auth) ∨
      (body ≠ "none" ∧ BodyMode.parse body = none ∧ name = "body:" ++ body)

def LosesNothing (text : Text) : Prop :=
  ∀ d : BlockAt (lines text), d.HasContent → Contributes text d.before d.block ∨
    ∃ json notes, bruTextToJson text = .ok (json, notes) ∧ ∃ note ∈ notes,
      note.blockName = d.block.name

theorem bruTextToJson_eq_ok {json : ExportJson} : bruTextToJson text = .ok (json, notes) ↔
      ∃ blocks e, splitBlocks text = .ok blocks ∧ exportBlocks blocks = .ok (e, notes) ∧
        e.toJson = json := by
  rw [bruTextToJson, bind_eq_ok]
  constructor
  · rintro ⟨blocks, hblocks, h⟩
    obtain ⟨⟨e, notes'⟩, he, h⟩ := bind_eq_ok.1 h
    obtain ⟨hjson, rfl⟩ := mk.inj (ok.inj h)
    exact ⟨blocks, e, hblocks, he, hjson⟩
  · rintro ⟨blocks, e, hblocks, he, rfl⟩
    exact ⟨blocks, hblocks, bind_eq_ok.2 ⟨_, he, rfl⟩⟩

section Loss

variable {text : Text} {before rest : List BruBlock} {b : BruBlock} {json : ExportJson}
  {notes : List BruNote}

theorem contributes_iff (h : bruTextToJson text = .ok (json, notes))
    (hsplit : splitBlocks text = .ok (before ++ b :: rest)) : Contributes text before b ↔
      LookedUp before b rest := by
  obtain ⟨blocks, e, hblocks, he, rfl⟩ := bruTextToJson_eq_ok.1 h
  obtain rfl := ok.inj (hblocks.symm.trans hsplit)
  constructor
  · rintro ⟨d, rfl, rfl, text', d', hd, -, json₁, notes₁, json', notes', h₁, h', hne⟩
    by_contra hread
    obtain ⟨blocks', e', hblocks', he', rfl⟩ := bruTextToJson_eq_ok.1 h'
    obtain rfl := ok.inj ((hd.splitBlocks_eq hsplit).symm.trans hblocks')
    obtain ⟨rfl, -⟩ := mk.inj (ok.inj (h.symm.trans h₁))
    exact hne (congrArg _ (export_eq_of_not_read hd.name_eq hread he he'))
  · intro hread
    obtain ⟨d, rfl, rfl⟩ := exists_blockAt hsplit
    obtain ⟨ea, na, ha⟩ := exists_export_sample (.inl rfl) he
    obtain ⟨eb, nb, hb⟩ := exists_export_sample (.inr rfl) he
    have hab := export_sample_ne hread ha hb
    -- One of the samples has another export than the block.
    obtain ⟨c, hc, e', notes', he', hne⟩ : ∃ c, (c = 'a' ∨ c = 'b') ∧ ∃ e' notes',
        exportBlocks (d.before ++ sampleBlock d.block.name c :: rest) = .ok (e', notes') ∧
          e' ≠ e := by
      by_cases hea : ea = e
      · exact ⟨'b', .inr rfl, eb, nb, hb, fun heb => hab (hea.trans heb.symm)⟩
      · exact ⟨'a', .inl rfl, ea, na, ha, hea⟩
    obtain ⟨text', d', hd, hcontent, hblock⟩ := exists_sample d hc
    refine ⟨d, rfl, rfl, text', d', hd, hcontent, e.toJson, notes, e'.toJson, notes', h,
      bruTextToJson_eq_ok.2 ⟨_, e', hd.splitBlocks_eq hsplit, hblock ▸ he', rfl⟩, ?_⟩
    exact fun heq => hne (BruExport.toJson_injective heq)

variable {blocks : List BruBlock} {dict : String → Option Text} {note : BruNote}

theorem mem_buildAuth_notes :
    note ∈ (buildAuth blocks dict).2 ↔ note = .unsupportedAuth (authMode dict) ∧
      authMode dict ≠ "none" ∧
      authMode dict ≠ "inherit" ∧ AuthMode.parse (authMode dict) = none := by
  rw [buildAuth]
  split
  next h =>
    refine ⟨nofun, fun ⟨_, hnone, hinherit, _⟩ => absurd h (not_or.2 ⟨hnone, hinherit⟩)⟩
  next h =>
    obtain ⟨hnone, hinherit⟩ := not_or.1 h
    split
    next hparse =>
      rw [mem_singleton]
      exact ⟨fun hnote => ⟨hnote, hnone, hinherit, hparse⟩, And.left⟩
    next hparse => simp [hparse]

theorem mem_buildBody_notes :
    note ∈ (buildBody blocks dict).2 ↔ note = .unsupportedBody (bodyMode dict) ∧
      bodyMode dict ≠ "none" ∧
      BodyMode.parse (bodyMode dict) = none := by
  rw [buildBody]
  split
  next h => exact ⟨nofun, fun ⟨_, hnone, _⟩ => absurd h hnone⟩
  next h =>
    split
    next hparse =>
      rw [mem_singleton]
      exact ⟨fun hnote => ⟨hnote, h, hparse⟩, And.left⟩
    next hparse => simp [hparse]

theorem exists_note_iff {e : BruExport} {name : Text}
    (h : exportBlocks blocks = .ok (e, notes)) : (∃ note ∈ notes, note.blockName = name) ↔
      Noted blocks name := by
  obtain ⟨metaBlock, method, -, -, hmethod, -, -, rfl⟩ := exportBlocks_eq_ok.1 h
  simp only [mem_append, mem_buildAuth_notes, mem_buildBody_notes]
  constructor
  · rintro ⟨note, (⟨rfl, hauth⟩ | ⟨rfl, hbody⟩) | hnote, hname⟩
    · exact .inr ⟨method, hmethod, .inl ⟨hauth.1, hauth.2.1, hauth.2.2, hname.symm⟩⟩
    · exact .inr ⟨method, hmethod, .inr ⟨hbody.1, hbody.2, hname.symm⟩⟩
    · refine .inl ?_
      obtain ⟨b, hb, hb'⟩ := mem_filterMap.1 hnote
      obtain ⟨what, hwhat, hb'⟩ := bind_eq_some_iff.1 hb'
      split at hb'
      · cases hb'
      next hblank =>
        cases hb'
        rw [← hname]
        exact ⟨isSome_iff_exists.2 ⟨what, hwhat⟩, b, hb, rfl, hblank⟩
  · rintro (⟨hdropped, b, hb, rfl, hblank⟩ | ⟨method', hmethod', hmode⟩)
    · obtain ⟨what, hwhat⟩ := isSome_iff_exists.1 hdropped
      refine ⟨.dropped (metaName metaBlock.pairs) what b.name,
        .inr (mem_filterMap.2 ⟨b, hb, ?_⟩), rfl⟩
      rw [hwhat, bind_some, if_neg hblank]
    · obtain rfl := some_injective _ (hmethod.symm.trans hmethod')
      rcases hmode with ⟨hnone, hinherit, hparse, hname⟩ | ⟨hnone, hparse, hname⟩
      · exact ⟨_, .inl (.inl ⟨rfl, hnone, hinherit, hparse⟩), hname.symm⟩
      · exact ⟨_, .inl (.inr ⟨rfl, hnone, hparse⟩), hname.symm⟩

/-- An accepted file loses nothing without a note if and only if each block with content is looked
    up, or has a name that is noted. -/
theorem losesNothing_iff (h : bruTextToJson text = .ok (json, notes)) :
    LosesNothing text ↔ ∀ (d : BlockAt (lines text)) rest,
      splitBlocks text = .ok (d.before ++ d.block :: rest) →
      d.HasContent → LookedUp d.before d.block rest ∨
        Noted (d.before ++ d.block :: rest) d.block.name := by
  obtain ⟨blocks, e, hblocks, he, -⟩ := bruTextToJson_eq_ok.1 h
  have hnoted (name : Text) : (∃ json notes, bruTextToJson text = .ok (json, notes) ∧
      ∃ note ∈ notes, note.blockName = name) ↔ Noted blocks name := by
    rw [← exists_note_iff he]
    constructor
    · rintro ⟨json', notes', h', hnote⟩
      obtain ⟨-, rfl⟩ := mk.inj (ok.inj (h.symm.trans h'))
      exact hnote
    · exact fun hnote => ⟨json, notes, h, hnote⟩
  refine forall_congr' fun d => ?_
  rw [hnoted]
  constructor
  · intro hd rest hsplit hcontent
    obtain rfl := ok.inj (hblocks.symm.trans hsplit)
    rw [← contributes_iff h hsplit]
    exact hd hcontent
  · intro hd hcontent
    obtain ⟨rest, -, rfl⟩ := d.exists_rest hblocks
    rw [contributes_iff h hblocks]
    exact hd rest hblocks hcontent

theorem losesNothing_header : ∃ text json,
    lines text = ["meta \x7b", "\x7d", "get \x7b", "url: u", "\x7d", "headers \x7b", "x: y",
      "\x7d"].map String.toList ∧
      bruTextToJson text = .ok (json, []) ∧ LosesNothing text := by
  let text := "meta \x7b\n\x7d\nget \x7b\nurl: u\n\x7d\nheaders \x7b\nx: y\n\x7d\n"
  let blocks : List BruBlock := [⟨"meta", [], []⟩, ⟨"get", [⟨"url", ['u'], true⟩], []⟩,
    ⟨"headers", [⟨['x'], ['y'], true⟩], []⟩]
  -- Each of the three is looked up.
  have hread (before : List BruBlock) (b : BruBlock) (rest : List BruBlock)
      (heq : blocks = before ++ b :: rest) :
      LookedUp before b rest := by
    obtain _ | ⟨b₀, _ | ⟨b₁, _ | ⟨b₂, before⟩⟩⟩ := before <;>
      simp only [blocks, cons_append, nil_append, List.cons.injEq] at heq
    · obtain ⟨rfl, rfl⟩ := heq
      exact .inr ⟨_, rfl, by decide, by decide⟩
    · obtain ⟨rfl, rfl, rfl⟩ := heq
      exact .inl (by decide)
    · obtain ⟨rfl, rfl, rfl, rfl⟩ := heq
      exact .inr ⟨_, rfl, by decide, by decide⟩
    · simp at heq
  let e : BruExport := ⟨"Request", buildRequest blocks ⟨"get", [⟨"url", ['u'], true⟩], []⟩, []⟩
  have hsplit : splitBlocks text = .ok blocks := by decide
  have hjson : bruTextToJson text = .ok (e.toJson, []) :=
    bruTextToJson_eq_ok.2 ⟨blocks, e, hsplit, rfl, rfl⟩
  refine ⟨text, e.toJson, by decide, hjson, (losesNothing_iff hjson).2 ?_⟩
  exact fun d rest h _ => .inl (hread _ _ _ (ok.inj (hsplit.symm.trans h)))

theorem bruTextToJson_docs : ∃ (text : Text) (json : ExportJson) (d : BlockAt (lines text)),
    lines text = ["meta \x7b", "\x7d", "get \x7b", "\x7d", "docs \x7b", "x",
      "\x7d"].map String.toList ∧
      bruTextToJson text = .ok (json, []) ∧ d.block = ⟨"docs", [], ['x']⟩ ∧ d.HasContent ∧
      ¬ Contributes text d.before d.block ∧ ¬ LosesNothing text := by
  let text := "meta \x7b\n\x7d\nget \x7b\n\x7d\ndocs \x7b\nx\n\x7d\n"
  let method : BruBlock := ⟨"get", [], []⟩
  let before : List BruBlock := [⟨"meta", [], []⟩, method]
  let b : BruBlock := ⟨"docs", [], ['x']⟩
  let e : BruExport := ⟨"Request", buildRequest (before ++ [b]) method, []⟩
  have hsplit : splitBlocks text = .ok (before ++ [b]) := by decide
  have hjson : bruTextToJson text = .ok (e.toJson, []) :=
    bruTextToJson_eq_ok.2 ⟨_, e, hsplit, rfl, rfl⟩
  have hread : ¬ LookedUp before b [] := by
    rintro (⟨h, -⟩ | ⟨method', hmethod, ⟨n, hn, hname⟩, -⟩)
    · exact absurd h (by decide)
    · have heq : method = method' := some_injective _ hmethod
      subst heq
      have hdocs : ∀ n ∈ readNames (dictGet []), "docs" ≠ n.toList := by decide
      exact hdocs n hn hname
  let d : BlockAt (lines text) :=
    { pre := ["meta \x7b", "\x7d", "get \x7b", "\x7d"].map String.toList
      opener := "docs \x7b"
      content := [['x']]
      closer := "\x7d"
      post := []
      lines_eq := by decide
      before
      run_pre := by decide
      block := b
      opens := by decide
      opened := ⟨"docs", [], [['x']], true⟩
      run_content := by decide
      closes := by decide
      run_closer := by decide }
  have hcontent : d.HasContent := ⟨['x'], mem_cons_self, by decide⟩
  have hcontributes : ¬ Contributes text before b :=
    fun h => hread ((contributes_iff hjson hsplit).1 h)
  refine ⟨text, e.toJson, d, by decide, hjson, rfl, hcontent, hcontributes, ?_⟩
  intro h
  rcases h d hcontent with hc | ⟨json', notes', h', note, hnote, -⟩
  · exact hcontributes hc
  · obtain ⟨-, rfl⟩ := mk.inj (ok.inj (hjson.symm.trans h'))
    cases hnote

end Loss

end Tropel
