import Tropel.Lib.IndexMap
import Tropel.Lib.Memo
import Tropel.Lib.Rust

/-!
# The signers of a VU

A request is signed by the signer that `buildAuthSigner` builds from its authentication.

* `serve_isOwn_iff`: when all are signed with their own credentials.
-/

namespace Tropel

open Lib

/-! ## Configurations -/

inductive ApiKeyLocation
  | header
  | query
  deriving DecidableEq

def ApiKeyLocation.debug : ApiKeyLocation → String
  | .header => "Header"
  | .query => "Query"

inductive ExtraValue
  | null
  | bool (b : Bool)
  | u64 (n : UInt64)
  | number (text : String)
  | string (s : String)
  | array (items : List ExtraValue)
  | object (fields : String → Option ExtraValue)

namespace ExtraValue

def asStr : ExtraValue → Option String
  | string s => some s
  | _ => none

def asArray : ExtraValue → Option (List ExtraValue)
  | array items => some items
  | _ => none

def asU64 : ExtraValue → Option UInt64
  | u64 n => some n
  | _ => none

end ExtraValue

abbrev Extra := String → Option ExtraValue

def Extra.either (extra : Extra) (key other : String) : Option ExtraValue :=
  (extra key).or (extra other)

inductive AuthConfig
  | bearer (token : String)
  | basic (username password : String)
  | apiKey (key value : String) (location : ApiKeyLocation)
  | digest (username password : String)
  | noAuth
  | oAuth2 (accessToken : String) (tokenType : Option String)
  | awsSigV4 (accessKey secretKey : String) (region service sessionToken : Option String)
  | oAuth1 (consumerKey consumerSecret : String)
      (token tokenSecret signatureMethod : Option String)
  | hawk (authId authKey : String) (algorithm : Option String)
  | ntlm (username password : Option String) (extra : Extra)
  | wsse (username password : Option String) (extra : Extra)
  | jwt (token : Option String) (extra : Extra)
  | akamaiEdgeGrid (accessToken clientToken clientSecret : Option String)
      (headersToSign : List String) (maxBody : Option ℕ) (extra : Extra)

/-! ## Signers -/

structure DigestSession where
  realm : String
  nonce : String
  nc : ℕ
  qop : Option String
  algorithm : Option String
  opaqueText : Option String

abbrev DigestSessions := IndexMap String DigestSession

inductive Signer
  | bearerAuth (token : String)
  | basicAuth (username password : String)
  | apiKeyAuth (key value : String) (location : ApiKeyLocation)
  | oAuth2Auth (accessToken : String) (tokenType : Option String)
  | awsSigV4Auth (accessKey secretKey : String)
      (region service sessionToken : Option String)
  | oAuth1Auth (consumerKey consumerSecret : String)
      (token tokenSecret signatureMethod : Option String)
  | hawkAuth (authId authKey : String) (algorithm : Option String)
  | digestAuth (username password : String) (sessions : DigestSessions)
  | wsseAuth (username password : String)
  | edgeGridAuth (clientToken accessToken clientSecret : String)
      (headersToSign : List String) (maxBody : ℕ)

namespace Signer

def withSessions (sessions : DigestSessions) : Signer → Signer
  | digestAuth username password _ => digestAuth username password sessions
  | signer => signer

def fresh (signer : Signer) : Signer := signer.withSessions ∅

@[simp]
theorem fresh_withSessions (sessions : DigestSessions) (signer : Signer) :
    (signer.withSessions sessions).fresh = signer.fresh := by
  cases signer <;> rfl

end Signer

def defaultMaxBody : ℕ := 131072

def oauth1SignatureMethods : List String :=
  ["HMAC-SHA1", "HMAC-SHA256", "HMAC-SHA512", "PLAINTEXT"]

def oauth1IsSupportedSignatureMethod (method : String) : Bool :=
  oauth1SignatureMethods.any fun m => m.toLower = method.toLower

def buildOAuth1 (consumerKey consumerSecret : String)
    (token tokenSecret signatureMethod : Option String) :
    Except String (Option Signer) :=
  match signatureMethod.filter fun m => !oauth1IsSupportedSignatureMethod m with
  | some m =>
    .error ("unsupported auth scheme: oauth1 signature_method '" ++ m ++ "' — supported: " ++
      ", ".intercalate oauth1SignatureMethods ++ " (TR-409)")
  | none => .ok (some (.oAuth1Auth consumerKey consumerSecret token tokenSecret signatureMethod))

def buildWsse (username password : Option String) : Except String (Option Signer) :=
  let user := username.getD ""
  if user = "" then
    .error "unsupported auth scheme: wsse — missing username; request not sent"
  else
    .ok (some (.wsseAuth user (password.getD "")))

def buildEdgeGrid (accessToken clientToken clientSecret : Option String)
    (headersToSign : List String) (maxBody : Option ℕ) (extra : Extra) :
    Except String (Option Signer) :=
  let secret := (((clientSecret.filter (· ≠ "")).or
    ((extra.either "client_secret" "clientSecret").bind ExtraValue.asStr))).getD ""
  let headersToSign :=
    if headersToSign = [] then
      (((extra.either "headers_to_sign" "headersToSign").bind ExtraValue.asArray).map
        fun items => items.filterMap ExtraValue.asStr).getD []
    else headersToSign
  let maxBody := maxBody.or
    (((extra.either "max_body" "maxBody").bind ExtraValue.asU64).map UInt64.toNat)
  let ct := clientToken.getD ""
  let at' := accessToken.getD ""
  let missing := ([("client_token", ct), ("access_token", at'),
    ("client_secret", secret)].filter fun field => field.2 = "").map Prod.fst
  if missing ≠ [] then
    .error ("unsupported auth scheme: akamai-edgegrid — missing " ++
      ", ".intercalate missing ++ "; request not sent")
  else
    .ok (some (.edgeGridAuth ct at' secret headersToSign (maxBody.getD defaultMaxBody)))

def buildAuthSigner : AuthConfig → Except String (Option Signer)
  | .noAuth => .ok none
  | .bearer token => .ok (some (.bearerAuth token))
  | .basic username password => .ok (some (.basicAuth username password))
  | .apiKey key value location => .ok (some (.apiKeyAuth key value location))
  | .oAuth2 accessToken tokenType => .ok (some (.oAuth2Auth accessToken tokenType))
  | .awsSigV4 accessKey secretKey region service sessionToken =>
    .ok (some (.awsSigV4Auth accessKey secretKey region service sessionToken))
  | .oAuth1 consumerKey consumerSecret token tokenSecret signatureMethod =>
    buildOAuth1 consumerKey consumerSecret token tokenSecret signatureMethod
  | .hawk authId authKey algorithm => .ok (some (.hawkAuth authId authKey algorithm))
  | .digest username password => .ok (some (.digestAuth username password ∅))
  | .ntlm _ _ _ => .error
      ("unsupported auth scheme: ntlm — NTLM proxy auth is not yet implemented " ++
        "(TR-409 KP-401); request not sent")
  | .wsse username password _ => buildWsse username password
  | .jwt _ _ => .error
      ("unsupported auth scheme: jwt — JWT bearer is not yet implemented as an AuthConfig " ++
        "variant (use bearer with a pre-signed token or oauth2/jwt via core-wasm sign_jwt) " ++
        "(TR-409)")
  | .akamaiEdgeGrid accessToken clientToken clientSecret headersToSign maxBody extra =>
    buildEdgeGrid accessToken clientToken clientSecret headersToSign maxBody extra

theorem fresh_of_buildAuthSigner {auth : AuthConfig} {signer : Signer}
    (h : buildAuthSigner auth = .ok (some signer)) : signer.fresh = signer := by
  -- only a digest signer has sessions, and one arm builds it
  cases signer with
  | digestAuth username password sessions =>
    cases auth with
    | digest u p =>
      simp only [buildAuthSigner, Except.ok.injEq, Option.some.injEq, Signer.digestAuth.injEq] at h
      rw [← h.2.2]
      rfl
    | oAuth1 ck cs t ts m =>
      rw [buildAuthSigner, buildOAuth1] at h
      split at h <;> cases h
    | wsse u p extra =>
      rw [buildAuthSigner, buildWsse] at h
      split at h <;> cases h
    | akamaiEdgeGrid a c s hs mb extra =>
      rw [buildAuthSigner, buildEdgeGrid] at h
      split at h <;> cases h
    | _ => cases h
  | _ => rfl

/-! ## The cache -/

def authCacheKey : AuthConfig → String
  | .bearer token => "bearer:" ++ token
  | .basic username password => "basic:" ++ (username ++ ":" ++ password)
  | .apiKey key value location =>
    "apikey:" ++ (key ++ ":" ++ value ++ ":" ++ location.debug)
  | .digest username password => "digest:" ++ (username ++ ":" ++ password)
  | .noAuth => "noauth"
  | .oAuth2 accessToken _ => "oauth2:" ++ accessToken
  | .awsSigV4 accessKey _ _ _ _ => "sigv4:" ++ accessKey
  | .oAuth1 consumerKey _ _ _ signatureMethod =>
    "oauth1:" ++ (consumerKey ++ ":" ++ signatureMethod.getD "HMAC-SHA1")
  | .hawk authId _ _ => "hawk:" ++ authId
  | .ntlm username _ _ => "ntlm:" ++ username.getD ""
  | .wsse username _ _ => "wsse:" ++ username.getD ""
  | .jwt token _ => "jwt:" ++ token.getD ""
  | .akamaiEdgeGrid _ clientToken _ _ _ _ => "akamai:" ++ clientToken.getD ""

structure KeptSigner where
  config : AuthConfig
  signer : Signer
  built : buildAuthSigner config = .ok (some signer.fresh)

def KeptSigner.withSessions (kept : KeptSigner) (sessions : DigestSessions) : KeptSigner where
  config := kept.config
  signer := kept.signer.withSessions sessions
  built := by rw [Signer.fresh_withSessions, kept.built]

abbrev SignerCache := IndexMap String KeptSigner

variable (cache : SignerCache) (auth : AuthConfig)

namespace SignerCache

def getSignerRef : Except String (Option KeptSigner) × SignerCache :=
  let key := authCacheKey auth
  match cache.get key with
  | some kept => (.ok (some kept), cache)
  | none => match h : buildAuthSigner auth with
    | .error e => (.error e, cache)
    | .ok none => (.ok none, cache)
    | .ok (some signer) =>
      let kept := ⟨auth, signer, by rw [fresh_of_buildAuthSigner h, h]⟩
      (.ok (some kept), cache.insert key kept)

def use (sessions : DigestSessions) : SignerCache :=
  match cache.get (authCacheKey auth) with
  | some kept => cache.insert (authCacheKey auth) (kept.withSessions sessions)
  | none => cache

def serve : SignerCache → List (AuthConfig × DigestSessions) →
    List (Except String (Option KeptSigner))
  | _, [] => []
  | cache, (auth, sessions) :: requests =>
    let (answer, cache) := cache.getSignerRef auth
    answer :: serve (cache.use auth sessions) requests

end SignerCache

def AuthConfig.scheme : AuthConfig → String
  | .bearer _ => "bearer"
  | .basic _ _ => "basic"
  | .apiKey _ _ _ => "apikey"
  | .digest _ _ => "digest"
  | .noAuth => "noauth"
  | .oAuth2 _ _ => "oauth2"
  | .awsSigV4 _ _ _ _ _ => "sigv4"
  | .oAuth1 _ _ _ _ _ => "oauth1"
  | .hawk _ _ _ => "hawk"
  | .ntlm _ _ _ => "ntlm"
  | .wsse _ _ _ => "wsse"
  | .jwt _ _ => "jwt"
  | .akamaiEdgeGrid _ _ _ _ _ _ => "akamai"

theorem takeWhile_authCacheKey :
    (authCacheKey auth).toList.takeWhile (· ≠ ':') = auth.scheme.toList := by
  cases auth <;> simp [authCacheKey, AuthConfig.scheme]

/-- Two configurations that the keys do not tell apart. Of most schemes, a key has a part
    of the fields only; where it has several, they are joined by colons, which the fields
    themselves may contain. -/
inductive Confusable : AuthConfig → AuthConfig → Prop
  | bearer (token) : Confusable (.bearer token) (.bearer token)
  | basic {u p u' p'} (h : u ++ ":" ++ p = u' ++ ":" ++ p') :
      Confusable (.basic u p) (.basic u' p')
  | apiKey {k v k' v'} (location) (h : k ++ ":" ++ v = k' ++ ":" ++ v') :
      Confusable (.apiKey k v location) (.apiKey k' v' location)
  | digest {u p u' p'} (h : u ++ ":" ++ p = u' ++ ":" ++ p') :
      Confusable (.digest u p) (.digest u' p')
  | noAuth : Confusable .noAuth .noAuth
  | oAuth2 (accessToken tokenType tokenType') :
      Confusable (.oAuth2 accessToken tokenType) (.oAuth2 accessToken tokenType')
  | awsSigV4 (accessKey s r v t s' r' v' t') :
      Confusable (.awsSigV4 accessKey s r v t) (.awsSigV4 accessKey s' r' v' t')
  | oAuth1 {ck m ck' m'} (s t ts s' t' ts')
      (h : ck ++ ":" ++ m.getD "HMAC-SHA1" = ck' ++ ":" ++ m'.getD "HMAC-SHA1") :
      Confusable (.oAuth1 ck s t ts m) (.oAuth1 ck' s' t' ts' m')
  | hawk (authId k a k' a') : Confusable (.hawk authId k a) (.hawk authId k' a')
  | ntlm {u u'} (p e p' e') (h : u.getD "" = u'.getD "") :
      Confusable (.ntlm u p e) (.ntlm u' p' e')
  | wsse {u u'} (p e p' e') (h : u.getD "" = u'.getD "") :
      Confusable (.wsse u p e) (.wsse u' p' e')
  | jwt {t t'} (e e') (h : t.getD "" = t'.getD "") : Confusable (.jwt t e) (.jwt t' e')
  | akamaiEdgeGrid {c c'} (a s hs m e a' s' hs' m' e') (h : c.getD "" = c'.getD "") :
      Confusable (.akamaiEdgeGrid a c s hs m e) (.akamaiEdgeGrid a' c' s' hs' m' e')

theorem append_debug_inj {t t' : String} {l l' : ApiKeyLocation} :
    t ++ ":" ++ l.debug = t' ++ ":" ++ l'.debug ↔ t = t' ∧ l = l' := by
  constructor
  · intro h
    -- the texts of the locations end in different letters
    have hl : l = l' := by
      have hlast := congrArg (fun u : String => u.toList.getLast?) h
      cases l <;> cases l' <;> simp [ApiKeyLocation.debug] at hlast ⊢
    subst hl
    exact ⟨by simpa using h, rfl⟩
  · rintro ⟨rfl, rfl⟩
    rfl

theorem authCacheKey_eq_iff {auth auth' : AuthConfig} :
    authCacheKey auth = authCacheKey auth' ↔ Confusable auth auth' := by
  constructor
  · intro h
    have hscheme : auth.scheme = auth'.scheme := by
      rw [← String.toList_inj, ← takeWhile_authCacheKey, h, takeWhile_authCacheKey]
    cases auth <;> cases auth' <;> simp [AuthConfig.scheme] at hscheme <;>
      simp only [authCacheKey, String.append_right_inj] at h
    case noAuth.noAuth => exact .noAuth
    case bearer.bearer | oAuth2.oAuth2 | awsSigV4.awsSigV4 | hawk.hawk =>
      subst h
      constructor
    case apiKey.apiKey =>
      obtain ⟨hfields, rfl⟩ := append_debug_inj.1 h
      exact .apiKey _ hfields
    all_goals (constructor; exact h)
  · intro h
    cases h with
    | bearer | noAuth | oAuth2 | awsSigV4 | hawk => rfl
    | basic h | apiKey _ h | digest h | oAuth1 _ _ _ _ _ _ h | ntlm _ _ _ _ h
    | wsse _ _ _ _ h | jwt _ _ h | akamaiEdgeGrid _ _ _ _ _ _ _ _ _ _ h =>
      rw [authCacheKey, authCacheKey, h]

/-! ## Requests with their own credentials -/

def HasSigner : Prop := ∃ signer, buildAuthSigner auth = .ok (some signer)

instance : DecidablePred HasSigner := fun auth =>
  match h : buildAuthSigner auth with
  | .ok (some signer) => isTrue ⟨signer, h⟩
  | .ok none => isFalse fun ⟨_, hs⟩ => nomatch h.symm.trans hs
  | .error _ => isFalse fun ⟨_, hs⟩ => nomatch h.symm.trans hs

/-- The answer is what the builder makes of the configuration: its error, no signer, or
    the signer it builds from this configuration, up to the sessions. -/
def IsOwn (answer : Except String (Option KeptSigner)) : Prop :=
  answer.map (Option.map fun kept => (kept.config, kept.signer.fresh)) =
    (buildAuthSigner auth).map (Option.map fun signer => (auth, signer))

theorem isOwn_kept_iff {auth : AuthConfig} {kept : KeptSigner} : IsOwn auth (.ok (some kept)) ↔
    kept.config = auth := by
  constructor
  · intro h
    rw [IsOwn] at h
    cases hbuild : buildAuthSigner auth with
    | error e =>
      rw [hbuild] at h
      cases h
    | ok signer =>
      rw [hbuild] at h
      obtain ⟨_, -, hpair⟩ := Option.map_eq_some_iff.1 (Except.ok.inj h).symm
      exact (congrArg Prod.fst hpair).symm
  · rintro rfl
    rw [IsOwn, kept.built]
    rfl

theorem isOwn_none {auth : AuthConfig} (h : ¬ HasSigner auth) :
    IsOwn auth ((buildAuthSigner auth).map fun _ => none) := by
  rw [IsOwn]
  rcases hbuild : buildAuthSigner auth with e | _ | signer
  · rfl
  · rfl
  · exact absurd ⟨signer, hbuild⟩ h

namespace SignerCache

def origin (key : String) : Option AuthConfig :=
  (cache.get key).map KeptSigner.config

theorem origin_insert (key : String) (kept : KeptSigner) :
    origin (cache.insert key kept) = Function.update cache.origin key (some kept.config) := by
  funext k
  rw [origin, IndexMap.get_insert, Function.update_apply, apply_ite (Option.map KeptSigner.config)]
  rfl

theorem getSignerRef_cases : (∃ kept, cache.get (authCacheKey auth) = some kept ∧
      cache.getSignerRef auth = (.ok (some kept), cache)) ∨
    (cache.get (authCacheKey auth) = none ∧ ¬ HasSigner auth ∧
      cache.getSignerRef auth = ((buildAuthSigner auth).map fun _ => none, cache)) ∨
    (cache.get (authCacheKey auth) = none ∧ ∃ kept : KeptSigner, kept.config = auth ∧
      cache.getSignerRef auth = (.ok (some kept), cache.insert (authCacheKey auth) kept)) := by
  cases hget : cache.get (authCacheKey auth) with
  | some kept => exact .inl ⟨kept, rfl, by simp only [getSignerRef, hget]⟩
  | none =>
    refine .inr ?_
    rw [getSignerRef, hget]
    dsimp only
    split
    next e hbuild =>
      refine .inl ⟨rfl, ?_, by rw [hbuild]; rfl⟩
      rintro ⟨signer, h⟩
      exact nomatch hbuild.symm.trans h
    next hbuild =>
      refine .inl ⟨rfl, ?_, by rw [hbuild]; rfl⟩
      rintro ⟨signer, h⟩
      exact nomatch hbuild.symm.trans h
    next signer hbuild => exact .inr ⟨rfl, _, rfl, rfl⟩

theorem origin_getSignerRef :
    (cache.getSignerRef auth).2.origin = Memo.next authCacheKey HasSigner cache.origin auth := by
  obtain ⟨kept, hget, hcall⟩ | ⟨-, hnot, hcall⟩ | ⟨hget, kept, rfl, hcall⟩ :=
    cache.getSignerRef_cases auth <;> rw [hcall]
  · exact (Memo.next_eq_self_of_mem (a := auth) (b := kept.config) (by simp [origin, hget])).symm
  · exact (Memo.next_eq_self_of_not_kept hnot).symm
  · rw [origin_insert, Memo.next_eq_update (by simp [origin, hget]) ⟨_, kept.built⟩]

theorem isOwn_getSignerRef_iff : IsOwn auth (cache.getSignerRef auth).1 ↔
    Memo.Own authCacheKey cache.origin auth := by
  obtain ⟨kept, hget, hcall⟩ | ⟨hget, hnot, hcall⟩ | ⟨hget, kept, rfl, hcall⟩ :=
    cache.getSignerRef_cases auth <;> rw [hcall]
  · simp [isOwn_kept_iff, Memo.Own, origin, hget]
  · simp [isOwn_none hnot, Memo.Own, origin, hget]
  · simp [isOwn_kept_iff, Memo.Own, origin, hget]

theorem origin_use (sessions : DigestSessions) :
    (cache.use auth sessions).origin = cache.origin := by
  rw [use]
  split
  next kept hget =>
    rw [origin_insert]
    exact Function.update_eq_self_iff.2 (by rw [origin, hget]; rfl)
  next => rfl

theorem forall_isOwn_iff (requests : List (AuthConfig × DigestSessions)) :
    List.Forall₂ (fun request answer => IsOwn request.1 answer) requests
        (cache.serve requests) ↔
      Memo.AllOwn authCacheKey HasSigner cache.origin (requests.map Prod.fst) := by
  induction requests generalizing cache with
  | nil => exact iff_of_true .nil trivial
  | cons request requests ih =>
    rw [serve, List.forall₂_cons, isOwn_getSignerRef_iff, ih, origin_use, origin_getSignerRef]
    rfl

end SignerCache

/-- All requests of a VU are signed with their own credentials, or fail as their own configuration
    does, iff no configuration with a signer is followed by a different one it is confusable
    with. -/
theorem serve_isOwn_iff (requests : List (AuthConfig × DigestSessions)) :
    List.Forall₂ (fun request answer => IsOwn request.1 answer) requests
        (SignerCache.serve ∅ requests) ↔
      (requests.map Prod.fst).Pairwise fun earlier later =>
        HasSigner earlier → Confusable earlier later → earlier = later := by
  have hempty : ∀ auth, Memo.Own authCacheKey (SignerCache.origin ∅) auth := by
    intro auth b hb
    cases hb
  rw [SignerCache.forall_isOwn_iff, Memo.allOwn_iff, and_iff_right fun auth _ => hempty auth]
  simp only [authCacheKey_eq_iff]

def sharedAccessKey (secretKey : String) : AuthConfig :=
  .awsSigV4 "AKIA" secretKey (some "eu-west-1") (some "s3") none

theorem serve_sharedAccessKey :
    (SignerCache.serve ∅ [(sharedAccessKey "first", ∅), (sharedAccessKey "second", ∅)]).map
        (Except.map (Option.map KeptSigner.signer)) =
      [buildAuthSigner (sharedAccessKey "first"), buildAuthSigner (sharedAccessKey "first")] ∧
    buildAuthSigner (sharedAccessKey "first") ≠ buildAuthSigner (sharedAccessKey "second") := by
  refine ⟨rfl, ?_⟩
  simp [buildAuthSigner, sharedAccessKey]

end Tropel
