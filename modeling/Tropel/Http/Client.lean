import Mathlib.Data.List.Sort
import Tropel.Core.Segment
import Tropel.Lib.Machine

/-!
# The HTTP client

A request is executed in *hops*: every redirect is followed by one more request, until another
response, an error, or too many hops.
-/

namespace Tropel

open Lib

/-! ## Requests and responses -/

abbrev Bytes := List UInt8

abbrev Headers := List (String × String)

def eqIgnoreAsciiCase (a b : String) : Bool := a.toLower = b.toLower

def credentialHeaders : List String :=
  ["authorization", "cookie", "cookie2", "proxy-authorization", "www-authenticate",
    "x-amz-date", "x-amz-content-sha256", "x-amz-security-token"]

def isCredentialHeader (key : String) : Bool := credentialHeaders.contains key

def insertHeader (headers : Headers) (name value : String) : Headers :=
  headers.filter (·.1 ≠ name) ++ [(name, value)]

def toStr (value : String) : Option String :=
  if value.toList.all fun c => c = '\t' || (32 ≤ c.toNat && c.toNat < 127) then some value else none

inductive Method
  | get | post | put | patch | delete | head | options | trace | connect
  | custom (m : String)
  deriving DecidableEq, Repr

inductive BodyKind
  | json | urlEncoded | graphQL | binary | formData | raw
  deriving DecidableEq, Repr

structure Body where
  kind : BodyKind
  bytes : Bytes
  deriving DecidableEq

structure RequestCookie where
  name : String
  value : String
  replace : Bool
  deriving DecidableEq

structure Request where
  url : String
  method : Method
  headers : Headers
  queryParams : List (String × String)
  cookies : List RequestCookie
  body : Option Body
  host : Option String
  followRedirects : Bool
  discardBody : Bool
  deriving DecidableEq

structure WireRequest (U : Type) where
  method : Method
  url : U
  headers : Headers
  body : Option Bytes

structure Response where
  status : ℕ
  headers : Headers
  chunks : List Bytes
  failure : Option String

namespace Response

variable (resp : Response)

def getAll (name : String) : List String :=
  (resp.headers.filter (·.1 = name)).filterMap fun h => toStr h.2

def challenges : String := ", ".intercalate (resp.getAll "www-authenticate")

def location : Option String :=
  (resp.headers.find? (·.1 = "location")).bind fun h => toStr h.2

def isRedirect : Bool := [301, 302, 303, 307, 308].contains resp.status

end Response

structure HopRecord where
  url : String
  statusCode : ℕ
  body : Bytes
  size : ℕ
  requestBodySize : ℕ
  deriving DecidableEq

structure HttpResponse extends HopRecord where
  redirects : List HopRecord
  deriving DecidableEq

structure Origin where
  scheme : String
  host : Option String
  port : Option ℕ
  deriving DecidableEq

structure Reqwest (U J : Type) where
  parse : String → Except String U
  join : U → String → Except String U
  toString : U → String
  scheme : U → String
  hostStr : U → Option String
  portOrKnownDefault : U → Option ℕ
  query : U → List (String × String) → U
  methodFromBytes : String → Except String Unit
  buildError : WireRequest U → Option String
  isHeaderName : String → Bool
  isHeaderValue : String → Bool
  cookies : J → U → Option String
  addCookieStr : J → String → U → J
  parse_toString : ∀ {u v}, parse (toString u) = .ok v → scheme v = scheme u ∧
    hostStr v = hostStr u ∧ portOrKnownDefault v = portOrKnownDefault u
  query_origin : ∀ u q, scheme (query u q) = scheme u ∧ hostStr (query u q) = hostStr u ∧
    portOrKnownDefault (query u q) = portOrKnownDefault u

namespace Reqwest

variable {U J : Type} (lib : Reqwest U J)

def origin (u : U) : Origin :=
  { scheme := lib.scheme u, host := lib.hostStr u, port := lib.portOrKnownDefault u }

theorem origin_eq_iff {u v : U} : lib.origin u = lib.origin v ↔ lib.scheme u = lib.scheme v ∧
    lib.hostStr u = lib.hostStr v ∧ lib.portOrKnownDefault u = lib.portOrKnownDefault v := by
  rw [origin, origin, Origin.mk.injEq]

theorem origin_of_parse_toString {u v : U} (h : lib.parse (lib.toString u) = .ok v) :
    lib.origin v = lib.origin u := lib.origin_eq_iff.2 (lib.parse_toString h)

theorem origin_query (u : U) (q : List (String × String)) :
    lib.origin (lib.query u q) = lib.origin u := lib.origin_eq_iff.2 (lib.query_origin u q)

end Reqwest

structure AuthSigner {U J : Type} (lib : Reqwest U J) (σ : Type) where
  sign : σ → WireRequest U → σ × Except String (WireRequest U)
  challengeResponse : σ → String → WireRequest U → σ × Option String
  sign_origin : ∀ {s r r'}, (sign s r).2 = .ok r' → lib.origin r'.url = lib.origin r.url

structure HttpClient (U J : Type) where
  lib : Reqwest U J
  noRedirects : Bool
  maxRedirects : ℕ
  maxResponseBytes : Option ℕ
  discardBodies : Bool
  checkLiteralBlacklist : String → Except TropelError Unit
  setCookieIsAcceptable : String → String → Bool

/-! ## Building a request -/

def parseCookieHeaderValue (value : String) : List (String × String) :=
  (((value.toList.splitOn ';').map trim).filter (· ≠ [])).filterMap fun pair =>
    (splitOnce '=' pair).map fun p => (String.ofList (trim p.1), String.ofList (trim p.2))

namespace Request

variable (req : Request)

def hasHeader (name : String) : Bool := req.headers.any fun h => eqIgnoreAsciiCase h.1 name

def contentType : Option String :=
  if req.hasHeader "content-type" then none
  else req.body.map fun body => match body.kind with
    | .json => "application/json"
    | .urlEncoded => "application/x-www-form-urlencoded"
    | .graphQL => "application/json"
    | .binary => "application/octet-stream"
    | .formData => "multipart/form-data; boundary=------------------------tropel-boundary-7a2f24b9"
    | .raw => "text/plain"

def copiedHeaders (stripSensitive : Bool) : Headers :=
  req.headers.filter fun h => !(stripSensitive && isCredentialHeader h.1.toLower) &&
    !eqIgnoreAsciiCase h.1 "host"

def manualCookie : Option (String × String) :=
  req.headers.find? fun h => eqIgnoreAsciiCase h.1 "cookie"

def sortedParams : List (String × String) :=
  req.queryParams.insertionSort fun a b => a.1 < b.1 ∨ (a.1 = b.1 ∧ a.2 ≤ b.2)

def keptCookies (jarValue : String) : List String :=
  ((parseCookieHeaderValue ((toStr jarValue).getD "")).filter fun c =>
    !req.cookies.any fun r => r.replace && eqIgnoreAsciiCase r.name c.1).map fun c =>
      c.1 ++ "=" ++ c.2

end Request

def cookieHeader {U J : Type} (lib : Reqwest U J) (req : Request) (jar : J)
    (hopUrl : U) : Option String :=
  if req.cookies = [] then
    if req.hasHeader "cookie" then none else lib.cookies jar hopUrl
  else some ("; ".intercalate ((req.manualCookie.map Prod.snd).toList ++
    ((lib.cookies jar hopUrl).map req.keptCookies).getD [] ++
    req.cookies.map fun c => c.name ++ "=" ++ c.value))

/-! ## The redirect loop -/

structure Sent (U : Type) where
  request : WireRequest U
  copied : Headers
  signed : Bool
  answered : Bool

structure ClientState (U J σ : Type) where
  currentUrl : String
  currentMethod : Method
  currentBody : Option Bytes
  hopIndex : ℕ
  stripSensitive : Bool
  signedHeaders : Headers
  redirects : List HopRecord
  signer : σ
  jar : Option J
  sent : List (Sent U)
  result : Option (Except TropelError HttpResponse)

namespace ClientState

variable {U J σ : Type}

def fail (st : ClientState U J σ) (e : TropelError) : ClientState U J σ :=
  { st with result := some (.error e) }

def record (st : ClientState U J σ) (sent : Sent U) : ClientState U J σ :=
  { st with sent := st.sent ++ [sent] }

end ClientState

structure Replies where
  first : Except TropelError Response
  retry : Except TropelError Response

def readChunks (cap : Option ℕ) (body : Bytes) : List Bytes → Option Bytes
  | [] => some body
  | chunk :: chunks =>
    if cap.any (· < body.length + chunk.length) then none
    else readChunks cap (body ++ chunk) chunks

def readBody (cap : Option ℕ) (resp : Response)
    (failed exceeds : String) : Except TropelError Bytes :=
  match readChunks cap [] resp.chunks with
  | none => .error (.http s!"{exceeds} exceeds the {cap.getD 0} byte limit")
  | some body => match resp.failure with
    | some e => .error (.http s!"{failed}: {e}")
    | none => .ok body

def rewriteMethod (status : ℕ) (method : Method) (body : Option Bytes) : Method × Option Bytes :=
  if status = 303 ∧ method ≠ .head then (.get, none)
  else if (status = 301 ∨ status = 302) ∧ method = .post then (.get, none)
  else (method, body)

namespace HttpClient

variable {U J σ : Type} (client : HttpClient U J) (req : Request)
  (signer : Option (AuthSigner client.lib σ))

def manualFollow : Bool :=
  req.followRedirects && !client.noRedirects && decide (client.maxRedirects > 0)

def maxHops : ℕ := if client.manualFollow req then client.maxRedirects else 0

def checkMethod : Method → Except TropelError Unit
  | .connect => .error (.http "CONNECT method not supported")
  | .custom m => (client.lib.methodFromBytes m).mapError fun e =>
      .http s!"Invalid HTTP method '{m}': {e}"
  | _ => .ok ()

variable (st : ClientState U J σ) (hopUrl : U)

def jarCookie : Option String :=
  if st.stripSensitive then none else st.jar.bind (cookieHeader client.lib req · hopUrl)

def copied : Headers :=
  req.copiedHeaders st.stripSensitive ++
    (if !st.stripSensitive && st.jar.isSome && req.cookies ≠
      [] then req.manualCookie.toList else [])

def hopHeaders : Headers :=
  (req.contentType.map fun ct => ("content-type", ct)).toList ++
    (req.copiedHeaders st.stripSensitive).map (fun h => (h.1.toLower, h.2)) ++
    (req.host.map fun host => ("host", host)).toList ++
    ((client.jarCookie req st hopUrl).map fun value => ("cookie", value)).toList

def buildRequest : Except TropelError (U × WireRequest U) := do
  client.checkLiteralBlacklist st.currentUrl
  let hopUrl ← (client.lib.parse st.currentUrl).mapError fun e =>
    .http s!"Invalid URL '{st.currentUrl}': {e}"
  client.checkMethod st.currentMethod
  let built : WireRequest U :=
    { method := st.currentMethod
      url := if st.hopIndex = 0 ∧ req.queryParams ≠ [] then
          client.lib.query hopUrl req.sortedParams
        else hopUrl
      headers := client.hopHeaders req st hopUrl
      body := st.currentBody }
  match client.lib.buildError built with
  | some e => .error (.http s!"Failed to build request: {e}")
  | none =>
    let replayed := st.signedHeaders.filter fun h => h.1 ≠ "cookie" &&
      client.lib.isHeaderName h.1 && client.lib.isHeaderValue h.2
    if !st.stripSensitive && signer.isNone then
      return (hopUrl, { built with
        headers := replayed.foldl (fun hs h => insertHeader hs h.1 h.2) built.headers })
    else return (hopUrl, built)

def captured (headers : Headers) : Headers :=
  (headers.filter fun h => isCredentialHeader h.1).filterMap fun h =>
    let value := (toStr h.2).getD ""
    if req.headers.any fun k => eqIgnoreAsciiCase k.1 h.1 && k.2 = value then none
    else some (h.1, value)

def signRequest
    (built : WireRequest U) : ClientState U J σ × Except TropelError (WireRequest U × Bool) :=
  match signer with
  | none => (st, .ok (built, false))
  | some signer =>
    if st.stripSensitive then (st, .ok (built, false))
    else
      let (session, signed) := signer.sign st.signer built
      let st := { st with signer := session }
      match signed with
      | .error e => (st, .error (.http s!"Auth signing failed: {e}"))
      | .ok signed =>
        if st.hopIndex = 0 then
          ({ st with signedHeaders := st.signedHeaders ++ captured req signed.headers },
            .ok (signed, true))
        else (st, .ok (signed, true))

variable (resp : Response) (wire : WireRequest U)

def challengeResponse : ClientState U J σ × Option String :=
  match signer with
  | none => (st, none)
  | some signer =>
    if resp.status = 401 ∧ resp.challenges ≠ "" then
      let (session, answer) := signer.challengeResponse st.signer resp.challenges wire
      ({ st with signer := session }, answer)
    else (st, none)

def storeCookies : ClientState U J σ :=
  let host := (client.lib.hostStr hopUrl).getD ""
  let accepted := (resp.getAll "set-cookie").filter (client.setCookieIsAcceptable · host)
  let add jar := accepted.foldl (fun jar s => client.lib.addCookieStr jar s hopUrl) jar
  { st with jar := st.jar.map add }

def follow (location : String) : ClientState U J σ :=
  match readBody client.maxResponseBytes resp "Failed to read redirect body" "redirect body" with
  | .error e => st.fail e
  | .ok body =>
    let record : HopRecord :=
      { url := st.currentUrl, statusCode := resp.status, body, size := body.length
        requestBodySize := 0 }
    let st := { st with redirects := st.redirects ++ [record] }
    match client.lib.join hopUrl location with
    | .error e => st.fail (.http s!"Invalid redirect Location '{location}': {e}")
    | .ok next =>
      let sameOrigin := client.lib.scheme hopUrl = client.lib.scheme next ∧
        client.lib.hostStr hopUrl = client.lib.hostStr next ∧
        client.lib.portOrKnownDefault hopUrl = client.lib.portOrKnownDefault next
      let (method, body) := rewriteMethod resp.status st.currentMethod st.currentBody
      { st with
        stripSensitive := !decide sameOrigin
        currentMethod := method
        currentBody := body
        currentUrl := client.lib.toString next
        hopIndex := st.hopIndex + 1 }

def finish : ClientState U J σ :=
  let read := if client.discardBodies || req.discardBody then
      (readBody none resp "Failed to drain response body" "response body").map fun body =>
        (([] : Bytes), body.length)
    else
      (readBody client.maxResponseBytes resp "Failed to read response body" "response body").map
        fun body => (body, body.length)
  match read with
  | .error e => st.fail e
  | .ok (body, size) =>
    { st with result := some (.ok
        { url := st.currentUrl, statusCode := resp.status, body, size
          requestBodySize := (req.body.map fun b => b.bytes.length).getD 0
          redirects := st.redirects }) }

def respond : ClientState U J σ :=
  let st := client.storeCookies st hopUrl resp
  let n := st.redirects.length
  if client.manualFollow req && resp.isRedirect && decide (client.maxHops req ≤ n) then
    let plural := if n = 1 then "" else "s"
    st.fail (.http s!"stopped after {n} redirect{plural} (max {client.maxHops req})")
  else if client.manualFollow req && resp.isRedirect then
    match resp.location with
    | some location => client.follow st hopUrl resp location
    | none => client.finish req st resp
  else client.finish req st resp

def answerChallenge (signed : Bool) (value : String)
    (reply : Except TropelError Response) : ClientState U J σ :=
  if client.lib.isHeaderValue value then
    let retry := { wire with headers := insertHeader wire.headers "authorization" value }
    let st := st.record { request := retry, copied := copied req st, signed, answered := true }
    match reply with
    | .error e => st.fail e
    | .ok resp => client.respond req st hopUrl resp
  else st.fail (.http "Invalid digest Authorization header value")

def transmit (signed : Bool) (replies : Replies) : ClientState U J σ :=
  let st := st.record { request := wire, copied := copied req st, signed, answered := false }
  match replies.first with
  | .error e => st.fail e
  | .ok resp =>
    match client.challengeResponse signer st resp wire with
    | (st, none) => client.respond req st hopUrl resp
    | (st, some value) => client.answerChallenge req st hopUrl wire signed value replies.retry

def hop (replies : Replies) : ClientState U J σ :=
  match client.buildRequest req signer st with
  | .error e => st.fail e
  | .ok (hopUrl, built) =>
    match client.signRequest req signer st built with
    | (st, .error e) => st.fail e
    | (st, .ok (wire, signed)) => client.transmit req signer st hopUrl wire signed replies

def start (session : σ) (jar : Option J) : ClientState U J σ :=
  { currentUrl := req.url
    currentMethod := req.method
    currentBody := req.body.map Body.bytes
    hopIndex := 0
    stripSensitive := false
    signedHeaders := []
    redirects := []
    signer := session
    jar
    sent := []
    result := none }

def execution : Machine (ClientState U J σ) Replies where
  step st replies := if st.result.isSome then none else some (client.hop req signer st replies)

end HttpClient

end Tropel
