import Tropel.Http.Signers

/-!
# Postman collections

A collection is a tree of folders and requests.

* `flattenExecutionItems_collectionToScenario`: what is run of it.
-/

namespace Tropel

open List

inductive AttributeValue
  | null
  | bool (b : Bool)
  | number (text : String)
  | string (s : String)
  | other (text : String)
  deriving DecidableEq

structure AuthAttribute where
  key : String
  value : AttributeValue
  deriving DecidableEq

structure CollectionAuth where
  authType : String
  bearer : List AuthAttribute := []
  basic : List AuthAttribute := []
  apikey : List AuthAttribute := []
  digest : List AuthAttribute := []
  oauth1 : List AuthAttribute := []
  oauth2 : List AuthAttribute := []
  awsv4 : List AuthAttribute := []
  hawk : List AuthAttribute := []
  deriving DecidableEq

def getAuthAttr (attrs : List AuthAttribute) (key : String) : Option String :=
  (attrs.find? fun a => a.key = key).bind fun a =>
    match a.value with
    | .null => none
    | .string s => some s
    | .bool b => some (if b then "true" else "false")
    | .number text => some text
    | .other text => some text

def CollectionAuth.convert (auth : CollectionAuth) : AuthConfig :=
  let attr := fun (attrs : List AuthAttribute) (key : String) => (getAuthAttr attrs key).getD ""
  match auth.authType with
  | "noauth" => .noAuth
  | "bearer" => .bearer
      (((getAuthAttr auth.bearer "token").or (getAuthAttr auth.bearer "bearerToken")).getD "")
  | "basic" => .basic (attr auth.basic "username") (attr auth.basic "password")
  | "apikey" => .apiKey (attr auth.apikey "key") (attr auth.apikey "value")
      (if attr auth.apikey "in" = "query" then .query else .header)
  | "digest" => .digest (attr auth.digest "username") (attr auth.digest "password")
  | "oauth1" => .oAuth1 (attr auth.oauth1 "consumerKey") (attr auth.oauth1 "consumerSecret")
      (getAuthAttr auth.oauth1 "token") (getAuthAttr auth.oauth1 "tokenSecret")
      (getAuthAttr auth.oauth1 "signatureMethod")
  | "oauth2" => .oAuth2 (attr auth.oauth2 "accessToken") (getAuthAttr auth.oauth2 "tokenType")
  | "awsv4" => .awsSigV4 (attr auth.awsv4 "accessKey") (attr auth.awsv4 "secretKey")
      (getAuthAttr auth.awsv4 "region") (getAuthAttr auth.awsv4 "service")
      (getAuthAttr auth.awsv4 "sessionToken")
  | "hawk" => .hawk (attr auth.hawk "authId") (attr auth.hawk "authKey")
      (getAuthAttr auth.hawk "algorithm")
  | _ => .noAuth

def convertAuth (auth : Option CollectionAuth) : Option AuthConfig :=
  auth.map CollectionAuth.convert

def resolveAuth (requestAuth inheritedAuth : Option CollectionAuth) : Option AuthConfig :=
  match requestAuth with
  | none => convertAuth inheritedAuth
  | some a =>
    if a.authType = "inherit" then convertAuth inheritedAuth
    else if a.authType = "noauth" then some .noAuth
    else convertAuth (some a)

structure Script where
  exec : List String
  deriving DecidableEq

def Script.text (s : Script) : String := "\n".intercalate s.exec

structure Event where
  listen : String
  script : Option Script
  deriving DecidableEq

def findScripts (listen : String) (events : List Event) : List String :=
  (((events.filter fun e => e.listen = listen).filterMap Event.script).map Script.text).filter
    (· ≠ "")

def findPrerequestScript (events : List Event) : List String := findScripts "prerequest" events

def findTestScript (events : List Event) : List String := findScripts "test" events

structure RequestItem (D : Type) where
  id : Option String
  name : Option String
  detail : D
  detailAuth : Option CollectionAuth
  event : List Event
  auth : Option CollectionAuth

inductive CollectionItem (D : Type)
  | request (req : RequestItem D)
  | folder (id name : Option String) (item : List (CollectionItem D)) (event : List Event)
      (auth : Option CollectionAuth)

structure Collection (D : Type) where
  item : List (CollectionItem D)
  auth : Option CollectionAuth
  event : List Event

structure ScenarioRequest (R : Type) where
  converted : R
  auth : Option AuthConfig

structure ScenarioItem (R : Type) where
  id : Option String
  name : String
  request : Option (ScenarioRequest R)
  prerequest : List String
  test : List String
  items : List (ScenarioItem R)

/-! ## Conversion -/

variable {D R : Type} (convertDetail : D → R) (req : RequestItem D)

def convertRequest (inheritedAuth : Option CollectionAuth) : ScenarioRequest R :=
  let requestAuth := req.detailAuth.or req.auth
  ⟨convertDetail req.detail, resolveAuth requestAuth inheritedAuth⟩

def convertRequestItem (parentEvents : List Event)
    (inheritedAuth : Option CollectionAuth) : ScenarioItem R :=
  let events := parentEvents ++ req.event
  { id := req.id
    name := req.name.getD ""
    request := some (convertRequest convertDetail req inheritedAuth)
    prerequest := findPrerequestScript events
    test := findTestScript events
    items := [] }

def folderAuth (auth inheritedAuth : Option CollectionAuth) : Option CollectionAuth :=
  match auth with
  | some a => if a.authType = "inherit" then inheritedAuth else some a
  | none => inheritedAuth

mutual

def convertItem (parentEvents : List Event) (inheritedAuth : Option CollectionAuth) :
    CollectionItem D → List (ScenarioItem R)
  | .request req => [convertRequestItem convertDetail req parentEvents inheritedAuth]
  | .folder id name item event auth =>
    let children := convertItems (parentEvents ++ event) (folderAuth auth inheritedAuth) item
    if children.isEmpty then []
    else
      [{ id := id
         name := name.getD ""
         request := none
         prerequest := findPrerequestScript event
         test := findTestScript event
         items := children }]

def convertItems (parentEvents : List Event) (inheritedAuth : Option CollectionAuth) :
    List (CollectionItem D) → List (ScenarioItem R)
  | [] => []
  | item :: items =>
    convertItem parentEvents inheritedAuth item ++ convertItems parentEvents inheritedAuth items

end

def collectionToScenario (collection : Collection D) : List (ScenarioItem R) :=
  convertItems convertDetail collection.event collection.auth collection.item

mutual

def flattenItem : ScenarioItem R → List (ScenarioItem R)
  | ⟨id, name, request, prerequest, test, items⟩ =>
    if items.isEmpty then
      if request.isSome || !prerequest.isEmpty || !test.isEmpty then
        [⟨id, name, request, prerequest, test, items⟩]
      else []
    else flattenExecutionItems items

def flattenExecutionItems : List (ScenarioItem R) → List (ScenarioItem R)
  | [] => []
  | item :: items => flattenItem item ++ flattenExecutionItems items

end

/-! ## Requests and where they stand -/

structure FolderScope where
  event : List Event
  auth : Option CollectionAuth

mutual

def CollectionItem.requests : CollectionItem D → List (List FolderScope × RequestItem D)
  | .request req => [([], req)]
  | .folder _ _ item event auth =>
    (requestsOf item).map fun (path, req) => (⟨event, auth⟩ :: path, req)

def requestsOf : List (CollectionItem D) → List (List FolderScope × RequestItem D)
  | [] => []
  | item :: items => item.requests ++ requestsOf items

end

def Collection.requests (collection : Collection D) : List (List FolderScope × RequestItem D) :=
  requestsOf collection.item

def nearestAuth (declarations : List (Option CollectionAuth)) : Option CollectionAuth :=
  ((declarations.filterMap id).filter fun a => a.authType ≠ "inherit").getLast?

def RequestItem.declared : Option CollectionAuth := req.detailAuth.or req.auth

def itemToRun (events : List Event) (auth : Option CollectionAuth) (path : List FolderScope)
    (req : RequestItem D) : ScenarioItem R where
  id := req.id
  name := req.name.getD ""
  request := some ⟨convertDetail req.detail,
    convertAuth ((nearestAuth (path.map FolderScope.auth ++ [req.declared])).or auth)⟩
  prerequest := findPrerequestScript events ++
    path.flatMap (fun scope => findPrerequestScript scope.event) ++ findPrerequestScript req.event
  test := findTestScript events ++
    path.flatMap (fun scope => findTestScript scope.event) ++ findTestScript req.event
  items := []

theorem findScripts_append (listen : String) (events events' : List Event) :
    findScripts listen (events ++ events') =
      findScripts listen events ++ findScripts listen events' := by
  simp only [findScripts, filter_append, filterMap_append, map_append]

theorem nearestAuth_cons (auth : Option CollectionAuth)
    (declarations : List (Option CollectionAuth)) (inherited : Option CollectionAuth) :
    (nearestAuth (auth :: declarations)).or inherited =
      (nearestAuth declarations).or (folderAuth auth inherited) := by
  rcases auth with _ | a
  · rfl
  · by_cases ha : a.authType = "inherit"
    · simp [nearestAuth, folderAuth, ha]
    · rw [folderAuth, if_neg ha]
      simp only [nearestAuth, filterMap_cons, id, filter_cons, ne_eq, ha,
        not_false_eq_true, decide_true, if_true, getLast?_cons, Option.some_or]
      rcases List.getLast? _ with _ | b <;> rfl

theorem resolveAuth_eq (declared inherited : Option CollectionAuth) :
    resolveAuth declared inherited = convertAuth ((nearestAuth [declared]).or inherited) := by
  rw [nearestAuth_cons]
  rcases declared with _ | a
  · rfl
  · rw [resolveAuth, folderAuth]
    by_cases hinherit : a.authType = "inherit"
    · rw [if_pos hinherit, if_pos hinherit]
      rfl
    · rw [if_neg hinherit, if_neg hinherit]
      split
      next hnoauth =>
        simp [convertAuth, nearestAuth, CollectionAuth.convert, hnoauth]
      next => rfl

theorem convertRequestItem_eq (events : List Event) (auth : Option CollectionAuth) :
    convertRequestItem convertDetail req events auth =
      itemToRun convertDetail events auth [] req := by
  simp only [convertRequestItem, itemToRun, convertRequest, resolveAuth_eq, findPrerequestScript,
    findTestScript, findScripts_append, flatMap_nil, append_nil, map_nil,
    nil_append, RequestItem.declared]

theorem itemToRun_cons (events : List Event) (auth : Option CollectionAuth) (scope : FolderScope)
    (path : List FolderScope) (req : RequestItem D) :
    itemToRun convertDetail events auth (scope :: path) req =
      itemToRun convertDetail (events ++ scope.event) (folderAuth scope.auth auth) path req := by
  simp only [itemToRun, findPrerequestScript, findTestScript, findScripts_append,
    flatMap_cons, map_cons, cons_append, nearestAuth_cons, append_assoc]

theorem flattenExecutionItems_append (items items' : List (ScenarioItem R)) :
    flattenExecutionItems (items ++ items') =
      flattenExecutionItems items ++ flattenExecutionItems items' := by
  induction items with
  | nil => rfl
  | cons item items ih =>
    rw [cons_append, flattenExecutionItems, ih, flattenExecutionItems, append_assoc]

mutual

theorem flattenExecutionItems_convertItem (events : List Event) (auth : Option CollectionAuth) :
    ∀ item : CollectionItem D, flattenExecutionItems (convertItem convertDetail events auth item) =
      item.requests.map fun (path, req) => itemToRun convertDetail events auth path req
  | .request req => by
    rw [convertItem, convertRequestItem_eq]
    rfl
  | .folder id name item event folder => by
    have ih := flattenExecutionItems_convertItems (events ++ event) (folderAuth folder auth) item
    have hitems : (CollectionItem.folder id name item event folder).requests.map
        (fun (path, req) => itemToRun convertDetail events auth path req) =
        (requestsOf item).map fun (path, req) =>
          itemToRun convertDetail (events ++ event) (folderAuth folder auth) path req := by
      rw [CollectionItem.requests, List.map_map]
      exact map_congr_left fun e _ => itemToRun_cons convertDetail events auth _ e.1 e.2
    rw [hitems, ← ih, convertItem]
    -- an empty folder has nothing to run, and neither has the list of its items
    split
    next hempty =>
      rw [List.isEmpty_iff.1 hempty]
    next hempty =>
      rw [flattenExecutionItems, flattenItem, if_neg hempty, flattenExecutionItems, append_nil]

theorem flattenExecutionItems_convertItems (events : List Event) (auth : Option CollectionAuth) :
    ∀ items : List (CollectionItem D),
      flattenExecutionItems (convertItems convertDetail events auth items) =
        (requestsOf items).map fun (path, req) => itemToRun convertDetail events auth path req
  | [] => rfl
  | item :: items => by
    rw [convertItems, flattenExecutionItems_append, flattenExecutionItems_convertItem,
      flattenExecutionItems_convertItems, requestsOf, map_append]

end

/-- A collection is run as its requests, depth first, each with the scripts of the collection, of
    the folders around it and its own, in this order, and with the authentication that is declared
    nearest to it. -/
theorem flattenExecutionItems_collectionToScenario (collection : Collection D) :
    flattenExecutionItems (collectionToScenario convertDetail collection) =
      collection.requests.map fun (path, req) =>
        itemToRun convertDetail collection.event collection.auth path req :=
  flattenExecutionItems_convertItems convertDetail collection.event collection.auth
    collection.item

def inheritingCollection : Collection Unit where
  item := [.request ⟨none, some "ping", (), none, [], none⟩]
  auth := some { authType := "inherit" }
  event := []

theorem flattenExecutionItems_inheritingCollection :
    (flattenExecutionItems (collectionToScenario id inheritingCollection)).map
        (fun item => item.request.map ScenarioRequest.auth) = [some (some .noAuth)] ∧
      nearestAuth [inheritingCollection.auth, none] = none := by
  constructor
  · rfl
  · decide

end Tropel
