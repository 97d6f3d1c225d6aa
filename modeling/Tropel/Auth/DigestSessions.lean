import Tropel.Auth.Digest
import Tropel.Core.Segment
import Tropel.Http.Signers

/-!
# Sessions of a digest signer

A digest signer keeps the challenge of every host, and the number of requests it has signed for it.

* `DigestHistory.run`: the authorizations that a sequence of requests and challenges gives out;
* `counts_inOrder_iff`: when no count of a nonce is given out twice.
-/

namespace Tropel

open Lib List Option IndexMap

/-! ## The signer -/

structure DigestRequest where
  hostStr : Option String
  port : Option ℕ
  method : Text
  path : Text
  query : Option Text
  cnonce : Text

namespace DigestRequest

def digestSessionKey (r : DigestRequest) : String :=
  let host := r.hostStr.getD ""
  match r.port with
  | some p => host ++ ":" ++ toString p
  | none => host

def uri (r : DigestRequest) : Text :=
  match r.query with
  | some q => r.path ++ '?' :: q
  | none => r.path

end DigestRequest

structure DigestAuth where
  username : String
  password : String
  sessions : DigestSessions

def challengeSession (wwwAuthenticate : Text) : Option DigestSession := do
  let challenge ← findDigestChallenge wwwAuthenticate
  let realm ← challenge.get "realm"
  let nonce ← challenge.get "nonce"
  let field (key : String) := (challenge.get key.toList).map String.ofList
  return {
    realm := String.ofList realm
    nonce := String.ofList nonce
    nc := 0
    qop := field "qop"
    algorithm := field "algorithm"
    opaqueText := field "opaque" }

namespace DigestSession

def count (sess : DigestSession) : DigestSession := { sess with nc := sess.nc + 1 }

def Counted (sess : DigestSession) : Prop := qopOffersAuth (sess.qop.map String.toList) = true

instance (sess : DigestSession) : Decidable sess.Counted := inferInstanceAs (Decidable (_ = true))

def HasToken (sess : DigestSession) : Prop := ∀ a, sess.algorithm = some a → IsToken a.toList

end DigestSession

variable (auth : DigestAuth)

namespace DigestAuth

def new (username password : String) : DigestAuth := ⟨username, password, ∅⟩

def store (host : String) (sess : DigestSession) : DigestAuth :=
  { auth with sessions := auth.sessions.insert host sess }

def buildParams (sess : DigestSession) (r : DigestRequest) : DigestBuildParams where
  username := auth.username.toList
  password := auth.password.toList
  method := r.method
  uri := r.uri
  realm := sess.realm.toList
  nonce := sess.nonce.toList
  nc := sess.nc
  cnonce := r.cnonce
  qop := sess.qop.map String.toList
  algorithm := sess.algorithm.map String.toList
  opaqueText := sess.opaqueText.map String.toList

variable (hashes : DigestHashes) (isHeaderValue : Text → Bool)

def buildDigestAuthorization (auth : DigestAuth) (sess : DigestSession)
    (r : DigestRequest) : Text :=
  (digestBuildAuthorization hashes (auth.buildParams sess r)).value

def sign (auth : DigestAuth) (r : DigestRequest) : DigestAuth × Except TropelError (Option Text) :=
  let key := r.digestSessionKey
  match auth.sessions.get key with
  | some sess =>
    let header := auth.buildDigestAuthorization hashes sess.count r
    (auth.store key sess.count,
      if isHeaderValue header then .ok (some header)
      else .error (.http "'authorization' value is not a valid HTTP header value"))
  | none => (auth, .ok none)

def answering (host : String) (fresh : DigestSession) : DigestSession :=
  let sess := (auth.sessions.get host).getD fresh
  if sess.nonce ≠ fresh.nonce ∨ sess.realm ≠ fresh.realm then fresh else sess

def challengeResponse (auth : DigestAuth) (wwwAuthenticate : Text)
    (r : DigestRequest) : DigestAuth × Option Text :=
  match challengeSession wwwAuthenticate with
  | none => (auth, none)
  | some fresh =>
    let key := r.digestSessionKey
    let sess := (auth.answering key fresh).count
    (auth.store key sess, some (auth.buildDigestAuthorization hashes sess r))

end DigestAuth

/-! ## Runs -/

inductive DigestCall
  | sign (r : DigestRequest)
  | challengeResponse (wwwAuthenticate : Text) (r : DigestRequest)

namespace DigestCall

def request : DigestCall → DigestRequest
  | sign r => r
  | challengeResponse _ r => r

def host (call : DigestCall) : String := call.request.digestSessionKey

end DigestCall

structure Authorization where
  host : String
  value : Text

structure DigestHistory where
  auth : DigestAuth
  emitted : List Authorization

namespace DigestHistory

variable (hashes : DigestHashes) (isHeaderValue : Text → Bool)

def step (h : DigestHistory) (call : DigestCall) : DigestHistory :=
  match call with
  | .sign r =>
    match h.auth.sign hashes isHeaderValue r with
    | (auth, .ok (some value)) => ⟨auth, h.emitted ++ [⟨call.host, value⟩]⟩
    | (auth, .ok none) | (auth, .error _) => ⟨auth, h.emitted⟩
  | .challengeResponse wwwAuthenticate r =>
    match h.auth.challengeResponse hashes wwwAuthenticate r with
    | (auth, some value) => ⟨auth, h.emitted ++ [⟨call.host, value⟩]⟩
    | (auth, none) => ⟨auth, h.emitted⟩

def run (username password : String) (calls : List DigestCall) : DigestHistory :=
  calls.foldl (step hashes isHeaderValue) ⟨.new username password, []⟩

/-- A value that is built to sign a request with is a header value. -/
def Signs (h : DigestHistory) (call : DigestCall) : Prop :=
  ∀ r sess, call = .sign r → h.auth.sessions.get r.digestSessionKey = some sess →
    isHeaderValue (h.auth.buildDigestAuthorization hashes sess.count r) = true

end DigestHistory

def Authorization.countOf (host : String) (nonce : Text) (e : Authorization) : Option ℕ :=
  (nonceUse e.value).bind fun u => if e.host = host ∧ u.nonce = nonce then some u.nc else none

def counts (host : String) (nonce : Text) (emitted : List Authorization) : List ℕ :=
  emitted.filterMap (Authorization.countOf host nonce)

def DigestCall.session : DigestCall → Option DigestSession
  | .sign _ => none
  | .challengeResponse wwwAuthenticate _ => challengeSession wwwAuthenticate

def DigestAuth.opened (call : DigestCall) : Option DigestSession :=
  call.session.filter fun fresh =>
    match auth.sessions.get call.host with
    | some sess => sess.nonce ≠ fresh.nonce ∨ sess.realm ≠ fresh.realm
    | none => true

def DigestHistory.Returns (h : DigestHistory) (call : DigestCall) : Prop :=
  ∃ sess, h.auth.opened call = some sess ∧ sess.Counted ∧
    counts call.host sess.nonce.toList h.emitted ≠ []

/-! ## What a call does -/

def DigestAuth.Uses (call : DigestCall) (sess : DigestSession) : Prop :=
  auth.opened call = some sess ∨ auth.opened call = none ∧ auth.sessions.get call.host = some sess

variable {fresh sess : DigestSession} {call : DigestCall} {auth : DigestAuth}

theorem DigestAuth.uses_answering (auth : DigestAuth) {wwwAuthenticate : Text}
    (hfresh : challengeSession wwwAuthenticate = some fresh) {r : DigestRequest} :
    auth.Uses (.challengeResponse wwwAuthenticate r) (auth.answering r.digestSessionKey fresh) := by
  have hsession : (DigestCall.challengeResponse wwwAuthenticate r).session = some fresh := hfresh
  have hhost : (DigestCall.challengeResponse wwwAuthenticate r).host = r.digestSessionKey := rfl
  rw [Uses, opened, answering, hsession, hhost]
  cases hget : auth.sessions.get r.digestSessionKey with
  | none =>
    left
    simp only [filter_some, getD_none, ite_self, if_true]
  | some sess =>
    rw [getD_some]
    by_cases hdiff : sess.nonce ≠ fresh.nonce ∨ sess.realm ≠ fresh.realm
    · left
      simp only [filter_some, hdiff, decide_true, if_true]
    · right
      simp only [filter_some, hdiff, decide_false, Bool.false_eq_true, if_false]
      exact ⟨trivial, trivial⟩

namespace DigestHistory

def give (hashes : DigestHashes) (h : DigestHistory) (call : DigestCall)
    (sess : DigestSession) : DigestHistory :=
  ⟨h.auth.store call.host sess.count,
    h.emitted ++ [⟨call.host, h.auth.buildDigestAuthorization hashes sess.count call.request⟩]⟩

def refuse (h : DigestHistory) (call : DigestCall) (sess : DigestSession) : DigestHistory :=
  ⟨h.auth.store call.host sess.count, h.emitted⟩

variable {hashes : DigestHashes} {isHeaderValue : Text → Bool}

theorem step_cases (h : DigestHistory) (call : DigestCall) :
    (h.auth.opened call = none ∧ step hashes isHeaderValue h call = h) ∨
    ∃ sess, h.auth.Uses call sess ∧ (step hashes isHeaderValue h call = h.give hashes call sess ∨
      ¬h.Signs hashes isHeaderValue call ∧
        step hashes isHeaderValue h call = h.refuse call sess) := by
  cases call with
  | sign r =>
    cases hget : h.auth.sessions.get r.digestSessionKey with
    | none => exact .inl ⟨rfl, by simp only [step, DigestAuth.sign, hget]⟩
    | some sess =>
      refine .inr ⟨sess, .inr ⟨rfl, hget⟩, ?_⟩
      cases hvalue : isHeaderValue (h.auth.buildDigestAuthorization hashes sess.count r) with
      | true => exact .inl (by
          simp only [step, DigestAuth.sign, hget, hvalue, if_true, give, DigestCall.host,
          DigestCall.request])
      | false =>
        refine .inr ⟨fun hsigns => ?_, by
          simp only [step, DigestAuth.sign, hget, hvalue, Bool.false_eq_true, if_false, refuse,
          DigestCall.host, DigestCall.request]⟩
        rw [hsigns r sess rfl hget] at hvalue
        cases hvalue
  | challengeResponse wwwAuthenticate r =>
    cases hfresh : challengeSession wwwAuthenticate with
    | none =>
      left
      simp only [DigestAuth.opened, DigestCall.session, hfresh, filter_none, step,
        DigestAuth.challengeResponse]
      exact ⟨trivial, trivial⟩
    | some fresh =>
      refine .inr ⟨h.auth.answering r.digestSessionKey fresh, ?_, .inl ?_⟩
      · exact DigestAuth.uses_answering h.auth hfresh
      · simp only [step, DigestAuth.challengeResponse, hfresh, give, DigestCall.host,
          DigestCall.request]

end DigestHistory

/-! ## Counts -/

theorem countOf_buildDigestAuthorization (hashes : DigestHashes) (auth : DigestAuth)
    (hsess : sess.HasToken) (r : DigestRequest) (host host' : String) (nonce : Text) :
    Authorization.countOf host' nonce ⟨host, auth.buildDigestAuthorization hashes sess r⟩ =
      if sess.Counted ∧ host = host' ∧ sess.nonce.toList = nonce then some sess.nc else none := by
  have halgorithm : ∀ a, (auth.buildParams sess r).algorithm = some a → IsToken a := by
    intro a ha
    obtain ⟨b, hb, rfl⟩ := map_eq_some_iff.1 ha
    exact hsess b hb
  rw [Authorization.countOf, DigestAuth.buildDigestAuthorization,
    nonceUse_authorization hashes halgorithm]
  have hoffers : qopOffersAuth (auth.buildParams sess r).qop = true ↔ sess.Counted := Iff.rfl
  by_cases hcounted : sess.Counted
  · rw [if_pos (hoffers.2 hcounted), bind_some]
    simp only [hcounted, true_and]
    rfl
  · rw [if_neg (mt hoffers.1 hcounted), if_neg fun h => hcounted h.1, bind_none]

theorem counts_append_singleton (host : String) (nonce : Text) (emitted : List Authorization)
    (e : Authorization) :
    counts host nonce (emitted ++ [e]) =
      counts host nonce emitted ++ (e.countOf host nonce).toList := by
  rw [counts, filterMap_append, counts]
  cases h : e.countOf host nonce with
  | none => rw [filterMap_cons_none h]; rfl
  | some n => rw [filterMap_cons_some h]; rfl

theorem nc_of_session (h : call.session = some fresh) : fresh.nc = 0 := by
  cases call with
  | sign r => cases h
  | challengeResponse wwwAuthenticate r =>
    simp only [DigestCall.session, challengeSession, bind_eq_bind, bind_eq_some_iff] at h
    obtain ⟨challenge, -, realm, -, nonce, -, h⟩ := h
    cases h
    rfl

def DigestAuth.HasTokens (auth : DigestAuth) : Prop :=
  ∀ host sess, auth.sessions.get host = some sess → sess.HasToken

def DigestCall.HasToken (call : DigestCall) : Prop := ∀ sess, call.session = some sess →
    sess.HasToken

theorem DigestAuth.Uses.hasToken
    (h : auth.Uses call sess) (hauth : auth.HasTokens) (hcall : call.HasToken) : sess.HasToken := by
  rcases h with hopened | ⟨-, hget⟩
  · exact hcall sess (eq_some_of_filter_eq_some hopened)
  · exact hauth _ _ hget

theorem DigestAuth.HasTokens.store (hauth : auth.HasTokens) (host : String)
    (hsess : sess.HasToken) : (auth.store host sess).HasTokens := by
  intro host' sess' hget
  rw [DigestAuth.store, get_insert] at hget
  split at hget
  · cases hget
    exact hsess
  · exact hauth _ _ hget

namespace DigestHistory

variable {hashes : DigestHashes} {isHeaderValue : Text → Bool} {username password : String}

theorem run_append_singleton (calls : List DigestCall) (call : DigestCall) :
    run hashes isHeaderValue username password (calls ++ [call]) =
      step hashes isHeaderValue (run hashes isHeaderValue username password calls) call :=
  foldl_concat _ _ _ _

variable {h : DigestHistory} {call : DigestCall} {calls : List DigestCall} {sess : DigestSession}

theorem hasTokens_run (hcalls : ∀ call ∈ calls, call.HasToken) :
    (run hashes isHeaderValue username password calls).auth.HasTokens := by
  induction calls using List.reverseRecOn with
  | nil => exact fun host sess hget => by cases hget
  | append_singleton calls call ih =>
    rw [forall_mem_append, forall_mem_singleton] at hcalls
    have hauth := ih hcalls.1
    rw [run_append_singleton]
    rcases step_cases (run hashes isHeaderValue username password calls) call with
      ⟨-, hidle⟩ | ⟨sess, huses, hgive | ⟨-, hrefuse⟩⟩
    · rwa [hidle]
    · rw [hgive]
      exact hauth.store _ (huses.hasToken hauth hcalls.2)
    · rw [hrefuse]
      exact hauth.store _ (huses.hasToken hauth hcalls.2)

theorem step_cases_of_signs (hsigns : h.Signs hashes isHeaderValue call) :
    (h.auth.opened call = none ∧ step hashes isHeaderValue h call = h) ∨
      ∃ sess, h.auth.Uses call sess ∧
        step hashes isHeaderValue h call = h.give hashes call sess := by
  rcases h.step_cases call with hidle | ⟨sess, huses, hgive | ⟨hnot, -⟩⟩
  · exact .inl hidle
  · exact .inr ⟨sess, huses, hgive⟩
  · exact absurd hsigns hnot

structure Sound (h : DigestHistory) : Prop where
  current : ∀ host sess, h.auth.sessions.get host = some sess → sess.Counted →
    counts host sess.nonce.toList h.emitted = List.range' 1 sess.nc
  inOrder : ∀ host nonce, ∃ k, counts host nonce h.emitted = List.range' 1 k

theorem counts_give (h : DigestHistory) (call : DigestCall) (hsess : sess.HasToken)
    (host : String) (nonce : Text) : counts host nonce (h.give hashes call sess).emitted =
      if sess.Counted ∧ call.host = host ∧ sess.nonce.toList = nonce then
        counts call.host sess.nonce.toList h.emitted ++ [sess.nc + 1]
          else counts host nonce h.emitted := by
  have hcount : sess.count.HasToken := hsess
  rw [give, counts_append_singleton, countOf_buildDigestAuthorization hashes h.auth hcount]
  change _ ++ (if sess.Counted ∧ call.host = host ∧
    sess.nonce.toList = nonce then some (sess.nc + 1) else none).toList = _
  split
  next hof =>
    obtain ⟨-, rfl, rfl⟩ := hof
    rfl
  next => exact append_nil _

theorem Sound.give (hsound : Sound h)
    (huses : h.auth.Uses call sess) (hsess : sess.HasToken) (hreturns : ¬h.Returns call) :
    Sound (h.give hashes call sess) := by
  have hbefore : sess.Counted →
      counts call.host sess.nonce.toList h.emitted = List.range' 1 sess.nc := by
    intro hcounted
    rcases huses with hopened | ⟨-, hget⟩
    · rw [nc_of_session (eq_some_of_filter_eq_some hopened), range'_zero]
      exact not_not.1 fun hne => hreturns ⟨sess, hopened, hcounted, hne⟩
    · exact hsound.current _ _ hget hcounted
  have hafter : sess.Counted → counts call.host sess.nonce.toList h.emitted ++ [sess.nc + 1] =
      List.range' 1 (sess.nc + 1) := by
    intro hcounted
    rw [hbefore hcounted, range'_1_concat, Nat.add_comm 1]
  constructor
  · intro host sess' hget hcounted
    rw [counts_give h call hsess]
    rw [DigestHistory.give, DigestAuth.store, get_insert] at hget
    split at hget
    next heq =>
      cases hget
      rw [if_pos ⟨hcounted, heq.symm, rfl⟩]
      exact hafter hcounted
    next hne =>
      rw [if_neg fun hof => hne hof.2.1.symm]
      exact hsound.current _ _ hget hcounted
  · intro host nonce
    rw [counts_give h call hsess]
    split
    next hof => exact ⟨_, hafter hof.1⟩
    · exact hsound.inOrder host nonce

def NeverReturns (hashes : DigestHashes) (isHeaderValue : Text → Bool) (username password : String)
    (calls : List DigestCall) : Prop :=
  ∀ pre call, pre ++ [call] <+: calls →
    ¬(run hashes isHeaderValue username password pre).Returns call

def AlwaysSigns (hashes : DigestHashes) (isHeaderValue : Text → Bool) (username password : String)
    (calls : List DigestCall) : Prop :=
  ∀ pre call, pre ++ [call] <+: calls →
    (run hashes isHeaderValue username password pre).Signs hashes isHeaderValue call

theorem sound_run (hcalls : ∀ call ∈ calls, call.HasToken)
    (hsigns : AlwaysSigns hashes isHeaderValue username password calls)
    (hnever : NeverReturns hashes isHeaderValue username password calls) :
    Sound (run hashes isHeaderValue username password calls) := by
  induction calls using List.reverseRecOn with
  | nil =>
    constructor
    · intro host sess hget
      cases hget
    · exact fun host nonce => ⟨0, rfl⟩
  | append_singleton calls call ih =>
    rw [forall_mem_append, forall_mem_singleton] at hcalls
    have hsound := ih hcalls.1 (fun pre c hpre => hsigns pre c (hpre.trans (prefix_append _ _)))
      fun pre c hpre => hnever pre c (hpre.trans (prefix_append _ _))
    rw [run_append_singleton]
    rcases step_cases_of_signs (hsigns calls call prefix_rfl) with ⟨-, hidle⟩ | ⟨sess, huses, hgive⟩
    · rwa [hidle]
    · rw [hgive]
      exact hsound.give huses (huses.hasToken (hasTokens_run hcalls.1) hcalls.2)
        (hnever calls call prefix_rfl)

/-! ## Nonces that come back -/

theorem emitted_prefix_foldl_step (h : DigestHistory) (calls : List DigestCall) :
    h.emitted <+: (calls.foldl (step hashes isHeaderValue) h).emitted := by
  induction calls generalizing h with
  | nil => exact prefix_rfl
  | cons call calls ih =>
    refine List.IsPrefix.trans ?_ (ih _)
    rcases @step_cases hashes isHeaderValue h call with ⟨-, hidle⟩ | ⟨sess, -, hgive | ⟨-, hrefuse⟩⟩
    · simp only [hidle, prefix_rfl]
    · rw [hgive]
      exact prefix_append _ _
    · rw [hrefuse]
      exact prefix_rfl

theorem counts_of_returns (hauth : h.auth.HasTokens) (hcall : call.HasToken)
    (hsigns : h.Signs hashes isHeaderValue call) (hreturns : h.Returns call) :
    ∃ nonce, counts call.host nonce h.emitted ≠ [] ∧
      counts call.host nonce (step hashes isHeaderValue h call).emitted =
        counts call.host nonce h.emitted ++ [1] := by
  obtain ⟨fresh, hopened, hcounted, hne⟩ := hreturns
  refine ⟨fresh.nonce.toList, hne, ?_⟩
  rcases step_cases_of_signs hsigns with ⟨hnone, -⟩ | ⟨sess, huses, hgive⟩
  · rw [hopened] at hnone
    cases hnone
  · obtain rfl : sess = fresh := by
      rcases huses with h' | ⟨hnone, -⟩
      · exact some.inj (h'.symm.trans hopened)
      · rw [hopened] at hnone
        cases hnone
    rw [hgive, counts_give h call (huses.hasToken hauth hcall), if_pos ⟨hcounted, rfl, rfl⟩,
      nc_of_session (eq_some_of_filter_eq_some hopened)]

theorem not_prefix_range' {l : List ℕ} (hne : l ≠ []) (k : ℕ) : ¬l ++ [1] <+: List.range' 1 k := by
  intro hpre
  obtain ⟨n, hn⟩ := exists_mem_of_ne_nil l hne
  have hlt : n < 1 :=
    (pairwise_append.1 ((pairwise_lt_range' 1).sublist hpre.sublist)).2.2 n hn 1 mem_cons_self
  have hmem : n ∈ List.range' 1 k := hpre.subset (mem_append_left _ hn)
  exact absurd (left_le_of_mem_range' hmem) (not_le.2 hlt)

end DigestHistory

def CountsInOrder (emitted : List Authorization) : Prop :=
  ∀ host nonce, ∃ k, counts host nonce emitted = List.range' 1 k

def NoReuse (emitted : List Authorization) : Prop :=
  emitted.Pairwise fun e e' => e.host = e'.host → ∀ u, nonceUse e.value = some u →
    nonceUse e'.value ≠ some u

theorem CountsInOrder.noReuse {emitted : List Authorization} (h : CountsInOrder emitted) :
    NoReuse emitted := by
  rw [NoReuse, pairwise_iff_getElem]
  intro i j hi hj hij hhost u hu hu'
  obtain ⟨k, hk⟩ := h emitted[i].host u.nonce
  have hnodup : (counts emitted[i].host u.nonce emitted).Nodup := by
    rw [hk]
    exact nodup_range' 1
  have hcount (e : Authorization) (hhost : e.host = emitted[i].host)
      (hu : nonceUse e.value = some u) :
      e.countOf emitted[i].host u.nonce = some u.nc := by
    rw [Authorization.countOf, hu, bind_some, if_pos ⟨hhost, rfl⟩]
  rw [counts, List.Nodup, pairwise_filterMap, pairwise_iff_getElem] at hnodup
  exact hnodup i j hi hj hij _ (hcount _ rfl hu) _ (hcount _ hhost.symm hu') rfl

/-- No count of a nonce is used twice, and the counts of each nonce are given out in order, just
    when no server comes back to a nonce of an earlier session. -/
theorem counts_inOrder_iff (hashes : DigestHashes) (isHeaderValue : Text → Bool)
    (username password : String) (calls : List DigestCall) (hcalls : ∀ call ∈ calls, call.HasToken)
    (hsigns : DigestHistory.AlwaysSigns hashes isHeaderValue username password calls) :
    (NoReuse (DigestHistory.run hashes isHeaderValue username password calls).emitted ∧
      CountsInOrder (DigestHistory.run hashes isHeaderValue username password calls).emitted) ↔
    DigestHistory.NeverReturns hashes isHeaderValue username password calls := by
  constructor
  · rintro ⟨-, horder⟩ pre call ⟨post, rfl⟩ hreturns
    rw [append_assoc, forall_mem_append, singleton_append, forall_mem_cons] at hcalls
    have hrun : DigestHistory.run hashes isHeaderValue username password (pre ++ [call] ++ post) =
        post.foldl (DigestHistory.step hashes isHeaderValue)
          (DigestHistory.step hashes isHeaderValue
            (DigestHistory.run hashes isHeaderValue username password pre) call) := by
      rw [← DigestHistory.run_append_singleton]
      exact foldl_append
    rw [hrun] at horder
    have hextends := @DigestHistory.emitted_prefix_foldl_step hashes isHeaderValue
      (DigestHistory.step hashes isHeaderValue
        (DigestHistory.run hashes isHeaderValue username password pre) call)
      post
    obtain ⟨nonce, hne, hcounts⟩ :=
      DigestHistory.counts_of_returns (DigestHistory.hasTokens_run hcalls.1) hcalls.2.1
        (hsigns pre call (prefix_append _ _)) hreturns
    obtain ⟨k, hk⟩ := horder call.host nonce
    have hpre := hextends.filterMap (Authorization.countOf call.host nonce)
    change counts call.host nonce _ <+: counts call.host nonce _ at hpre
    rw [hcounts, hk] at hpre
    exact DigestHistory.not_prefix_range' hne k hpre
  · intro hnever
    have horder : CountsInOrder _ := (DigestHistory.sound_run hcalls hsigns hnever).inOrder
    exact ⟨horder.noReuse, horder⟩

def plainRequest : DigestRequest := ⟨some "h", none, "GET", "/", none, "c"⟩

def challengeWith (nonce : String) : DigestCall :=
  .challengeResponse
    ("Digest realm=\"r\", nonce=\"" ++ nonce ++ "\", qop=\"auth\"").toList plainRequest

def noHashes : DigestHashes := ⟨fun _ => [], fun _ => [], fun _ => []⟩

theorem hasToken_challengeWith {nonce : String}
    (h : (challengeWith nonce).session.map DigestSession.algorithm = some none) :
    (challengeWith nonce).HasToken := by
  intro sess hsess a ha
  rw [hsess, map_some, ha] at h
  cases h

theorem counts_inOrder_iff_challenged :
    let calls := [challengeWith "A", .sign plainRequest]
    (∀ call ∈ calls, call.HasToken) ∧
    DigestHistory.AlwaysSigns noHashes (fun _ => true) "u" "p" calls ∧
    ((NoReuse (DigestHistory.run noHashes (fun _ => true) "u" "p" calls).emitted ∧
      CountsInOrder (DigestHistory.run noHashes (fun _ => true) "u" "p" calls).emitted) ↔
      DigestHistory.NeverReturns noHashes (fun _ => true) "u" "p" calls) := by
  intro calls
  have hcalls : ∀ call ∈ calls, call.HasToken := by
    refine forall_mem_cons.2 ⟨hasToken_challengeWith (by decide), forall_mem_singleton.2 ?_⟩
    intro sess hsess
    cases hsess
  have hsigns : DigestHistory.AlwaysSigns noHashes (fun _ => true) "u" "p" calls :=
    fun _ _ _ _ _ _ _ => rfl
  exact ⟨hcalls, hsigns, counts_inOrder_iff _ _ _ _ calls hcalls hsigns⟩

theorem reuse_of_returning_nonce :
    let calls := [challengeWith "A", challengeWith "B", challengeWith "A"]
    let h := DigestHistory.run noHashes (fun _ => true) "u" "p" calls
    (∀ call ∈ calls, call.HasToken) ∧
    DigestHistory.AlwaysSigns noHashes (fun _ => true) "u" "p" calls ∧
    h.emitted.map (fun e => (e.host, nonceUse e.value)) =
      [("h", some ⟨"r", "A", 1⟩), ("h", some ⟨"r", "B", 1⟩),
        ("h", some ⟨"r", "A", 1⟩)] ∧
    ¬NoReuse h.emitted := by
  intro calls h
  have hA : (challengeWith "A").HasToken := hasToken_challengeWith (by decide)
  have hB : (challengeWith "B").HasToken := hasToken_challengeWith (by decide)
  have huses : h.emitted.map (fun e => (e.host, nonceUse e.value)) =
      [("h", some ⟨"r", "A", 1⟩), ("h", some ⟨"r", "B", 1⟩),
        ("h", some ⟨"r", "A", 1⟩)] := by decide
  refine ⟨forall_mem_cons.2 ⟨hA, forall_mem_cons.2 ⟨hB, forall_mem_singleton.2 hA⟩⟩,
    fun _ _ _ _ _ _ _ => rfl, huses, fun hreuse => ?_⟩
  have hpairs : (h.emitted.map fun e => (e.host, nonceUse e.value)).Pairwise fun e e' =>
      e.1 = e'.1 → ∀ u, e.2 = some u → e'.2 ≠ some u := pairwise_map.2 hreuse
  rw [huses, pairwise_cons] at hpairs
  exact hpairs.1 _ (mem_cons_of_mem _ mem_cons_self) rfl _ rfl rfl

end Tropel
