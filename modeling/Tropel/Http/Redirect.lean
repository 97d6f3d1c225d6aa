import Tropel.Http.Client

/-!
# Credentials on a chain of redirects

A request to another origin than the caller's URL should have no credential headers, neither the
caller's nor the signer's (`Sent.Leaks`).

* `not_leaks_of_contained`: when it has none.
-/

namespace Tropel

open Lib List Option Bool

def Sent.Leaks {U : Type} (x : Sent U) : Prop :=
  (∃ h ∈ x.copied, isCredentialHeader h.1.toLower) ∨
    ((x.signed ∨ x.answered) ∧ ∃ h ∈ x.request.headers, h.1 = "authorization")

def Response.Challenges (resp : Response) : Prop := resp.status = 401 ∧ resp.challenges ≠ ""

namespace HttpClient

variable {U J σ : Type} (client : HttpClient U J) (req : Request)
  (signer : Option (AuthSigner client.lib σ))

def RedirectsTo (hopUrl : U) (resp : Response) (next : U) : Prop :=
  resp.isRedirect ∧ ∃ location, resp.location = some location ∧
    client.lib.join hopUrl location = .ok next

def OffOrigin (u : U) : Prop :=
  ∃ v, client.lib.parse req.url = .ok v ∧ client.lib.origin u ≠ client.lib.origin v

def Contained (st : ClientState U J σ) (replies : Replies) : Prop :=
  ∀ hopUrl resp, client.lib.parse st.currentUrl = .ok hopUrl → client.OffOrigin req hopUrl →
    replies.first = .ok resp → ¬(signer.isSome ∧ resp.Challenges) ∧
      ∀ next, client.RedirectsTo hopUrl resp next →
        client.lib.origin next ≠ client.lib.origin hopUrl

variable {client req signer} {st : ClientState U J σ} {hopUrl : U}

/-! ## What a hop does -/

theorem buildRequest_eq_ok {built : WireRequest U}
    (h : client.buildRequest req signer st = .ok (hopUrl, built)) :
    client.lib.parse st.currentUrl = .ok hopUrl ∧
      client.lib.origin built.url = client.lib.origin hopUrl := by
  rw [buildRequest] at h
  obtain ⟨-, -, h⟩ := bind_eq_ok.1 h
  obtain ⟨u, hu, h⟩ := bind_eq_ok.1 h
  obtain ⟨-, -, h⟩ := bind_eq_ok.1 h
  rw [mapError_eq_ok] at hu
  -- The query is the only part of the URL that the first hop changes.
  have horigin : client.lib.origin (if st.hopIndex = 0 ∧ req.queryParams ≠ [] then
      client.lib.query u req.sortedParams else u) = client.lib.origin u := by
    split
    · exact client.lib.origin_query u _
    · rfl
  dsimp only at h
  split at h
  · cases h
  · split at h <;> cases h <;> exact ⟨hu, horigin⟩

theorem not_isCredentialHeader_of_mem_copied (hstrip : st.stripSensitive = true)
    {h : String × String} (hmem : h ∈ copied req st) : ¬isCredentialHeader h.1.toLower := by
  simp only [copied, hstrip, Request.copiedHeaders, Bool.not_true, Bool.false_and,
    Bool.false_eq_true, if_false, append_nil, mem_filter, Bool.true_and,
    Bool.and_eq_true, Bool.not_eq_true'] at hmem
  simpa using hmem.2.1

variable (client req signer st) in
theorem signRequest_spec (built : WireRequest U) :
    let st' := (client.signRequest req signer st built).1
    (st'.sent = st.sent ∧ st'.currentUrl = st.currentUrl ∧ st'.stripSensitive = st.stripSensitive ∧
      st'.jar = st.jar) ∧
    ∀ wire signed, (client.signRequest req signer st built).2 = .ok (wire, signed) →
      client.lib.origin wire.url = client.lib.origin built.url ∧
        (signed → st.stripSensitive = false) := by
  simp only [signRequest]
  cases signer with
  | none =>
    refine ⟨⟨rfl, rfl, rfl, rfl⟩, fun wire signed h => ?_⟩
    cases h
    exact ⟨rfl, nofun⟩
  | some signer =>
    dsimp only
    split
    · refine ⟨⟨rfl, rfl, rfl, rfl⟩, fun wire signed h => ?_⟩
      cases h
      exact ⟨rfl, nofun⟩
    next hstrip =>
      have hfalse : st.stripSensitive = false := by simpa using hstrip
      split
      · exact ⟨⟨rfl, rfl, rfl, rfl⟩, nofun⟩
      next wire hsign =>
        have horigin := signer.sign_origin hsign
        split
        all_goals
          refine ⟨⟨rfl, rfl, rfl, rfl⟩, fun _ _ h => ?_⟩
          cases h
          exact ⟨horigin, fun _ => hfalse⟩

variable {st' : ClientState U J σ} {replies : Replies} {resp : Response}

theorem challengeResponse_spec {wire : WireRequest U}
    {answer : Option String} (h : client.challengeResponse signer st resp wire = (st', answer)) :
    (st'.sent = st.sent ∧ st'.jar = st.jar ∧ st'.stripSensitive = st.stripSensitive) ∧
      (answer.isSome → signer.isSome ∧ resp.Challenges) := by
  simp only [challengeResponse] at h
  cases signer with
  | none =>
    cases h
    exact ⟨⟨rfl, rfl, rfl⟩, nofun⟩
  | some signer =>
    dsimp only at h
    split at h
    next hresp =>
      cases h
      exact ⟨⟨rfl, rfl, rfl⟩, fun _ => ⟨rfl, hresp⟩⟩
    · cases h
      exact ⟨⟨rfl, rfl, rfl⟩, nofun⟩

variable (client) in
def Concluded (hopUrl : U) (responses : Response → Prop) (st : ClientState U J σ) : Prop :=
  st.result.isSome ∨ ∃ resp next, responses resp ∧ client.RedirectsTo hopUrl resp next ∧
    st.currentUrl = client.lib.toString next ∧
    (st.stripSensitive = true ↔ client.lib.origin hopUrl ≠ client.lib.origin next)

theorem Concluded.mono {P Q : Response → Prop} (hPQ : ∀ resp, P resp → Q resp)
    (h : client.Concluded hopUrl P st) : client.Concluded hopUrl Q st := by
  rcases h with h | ⟨resp, next, hresp, h⟩
  · exact .inl h
  · exact .inr ⟨resp, next, hPQ resp hresp, h⟩

theorem finish_spec (resp : Response) : (client.finish req st resp).sent = st.sent ∧
    (client.finish req st resp).result.isSome := by
  unfold finish
  dsimp only
  split <;> exact ⟨rfl, rfl⟩

theorem follow_spec {location : String} (hredirect : resp.isRedirect)
    (hlocation : resp.location = some location) :
    (client.follow st hopUrl resp location).sent = st.sent ∧
      client.Concluded hopUrl (· = resp) (client.follow st hopUrl resp location) := by
  rw [follow]
  split
  · exact ⟨rfl, .inl rfl⟩
  split
  · exact ⟨rfl, .inl rfl⟩
  next next hnext =>
    refine ⟨rfl, .inr ⟨resp, next, rfl, ⟨hredirect, location, hlocation, hnext⟩, rfl, ?_⟩⟩
    rw [not_eq_true', decide_eq_false_iff_not, ne_eq, client.lib.origin_eq_iff]

variable (client req st hopUrl) in
theorem respond_spec (resp : Response) : (client.respond req st hopUrl resp).sent = st.sent ∧
    client.Concluded hopUrl (· = resp) (client.respond req st hopUrl resp) := by
  have hfinish : (client.finish req (client.storeCookies st hopUrl resp) resp).sent = st.sent ∧
      (client.finish req (client.storeCookies st hopUrl resp) resp).result.isSome :=
        finish_spec resp
  rw [respond]
  split
  · exact ⟨rfl, .inl rfl⟩
  split
  next hredirect =>
    rw [and_eq_true] at hredirect
    split
    · exact follow_spec hredirect.2 ‹_›
    · exact ⟨hfinish.1, .inl hfinish.2⟩
  · exact ⟨hfinish.1, .inl hfinish.2⟩

variable (signer) in
def Challenged (replies : Replies) : Prop :=
  signer.isSome ∧ ∃ resp, replies.first = .ok resp ∧ resp.Challenges

variable (req signer) in
structure OfHop (st : ClientState U J σ) (wire : WireRequest U) (signed : Bool) (replies : Replies)
    (x : Sent U) : Prop where
  url : x.request.url = wire.url
  copied : x.copied = HttpClient.copied req st
  signed : x.signed = signed
  answered : x.answered → Challenged signer replies

variable (client req st hopUrl) in
theorem answerChallenge_spec (wire : WireRequest U) (signed : Bool) (value : String)
    (reply : Except TropelError Response) :
    (∀ x ∈ (client.answerChallenge req st hopUrl wire signed value reply).sent, x ∈ st.sent ∨
      (x.request.url = wire.url ∧ x.copied = copied req st ∧ x.signed = signed)) ∧
    client.Concluded hopUrl (fun _ => True)
      (client.answerChallenge req st hopUrl wire signed value reply) := by
  rw [answerChallenge]
  split
  · dsimp only
    have hretry : ∀ retry : WireRequest U, retry.url = wire.url →
        ∀ x ∈ st.sent ++ [{ request := retry, copied := copied req st, signed, answered := true }],
          x ∈ st.sent ∨
            (x.request.url = wire.url ∧ x.copied = copied req st ∧ x.signed = signed) := by
      intro retry hurl x hx
      rcases mem_append.1 hx with hx | hx
      · exact .inl hx
      · obtain rfl := mem_singleton.1 hx
        exact .inr ⟨hurl, rfl, rfl⟩
    split
    · exact ⟨hretry _ rfl, .inl rfl⟩
    next resp =>
      obtain ⟨hsent, hconcl⟩ := client.respond_spec req (st.record _) hopUrl resp
      rw [hsent]
      exact ⟨hretry _ rfl, hconcl.mono fun _ _ => trivial⟩
  · exact ⟨fun x hx => .inl hx, .inl rfl⟩

variable (client req signer st hopUrl) in
theorem transmit_spec (wire : WireRequest U) (signed : Bool) (replies : Replies) :
    (∀ x ∈ (client.transmit req signer st hopUrl wire signed replies).sent,
      x ∈ st.sent ∨ OfHop req signer st wire signed replies x) ∧
    client.Concluded hopUrl (fun resp => replies.first = .ok resp ∨ Challenged signer replies)
      (client.transmit req signer st hopUrl wire signed replies) := by
  have hfirst : ∀ x ∈ st.sent ++
      [{ request := wire, copied := copied req st, signed, answered := false }],
      x ∈ st.sent ∨ OfHop req signer st wire signed replies x := by
    intro x hx
    rcases mem_append.1 hx with hx | hx
    · exact .inl hx
    · obtain rfl := mem_singleton.1 hx
      exact .inr ⟨rfl, rfl, rfl, nofun⟩
  rw [transmit]
  split
  · exact ⟨hfirst, .inl rfl⟩
  next resp hresp =>
    split
    next st₁ hst₁ =>
      obtain ⟨⟨hsent, -, -⟩, -⟩ := challengeResponse_spec hst₁
      obtain ⟨hsent', hconcl⟩ := client.respond_spec req st₁ hopUrl resp
      rw [hsent', hsent]
      refine ⟨hfirst, hconcl.mono ?_⟩
      rintro _ rfl
      exact .inl hresp
    next st₁ value hst₁ =>
      -- The answer goes to the same URL, with the same headers of the caller.
      obtain ⟨⟨hsent, hjar, hstrip⟩, hanswer⟩ := challengeResponse_spec hst₁
      have hchal : Challenged signer replies :=
        ⟨(hanswer rfl).1, resp, hresp, (hanswer rfl).2⟩
      have hcopied : copied req st₁ = copied req st := by
        rw [copied, copied, hjar, hstrip]
        rfl
      obtain ⟨hsent', hconcl⟩ :=
        client.answerChallenge_spec req st₁ hopUrl wire signed value replies.retry
      refine ⟨fun x hx => ?_, hconcl.mono fun _ _ => .inr hchal⟩
      rcases hsent' x hx with hx | ⟨hurl, hcop, hsigned⟩
      · rw [hsent] at hx
        exact hfirst x hx
      · exact .inr ⟨hurl, hcop.trans hcopied, hsigned, fun _ => hchal⟩

variable (client req signer st) in
theorem hop_spec (replies : Replies) : (∀ x ∈ (client.hop req signer st replies).sent, x ∈ st.sent ∨
      (∃ hopUrl, client.lib.parse st.currentUrl = .ok hopUrl ∧
        client.lib.origin x.request.url = client.lib.origin hopUrl) ∧ x.copied = copied req st ∧
      (x.signed → st.stripSensitive = false) ∧ (x.answered → Challenged signer replies)) ∧
    ((client.hop req signer st replies).result.isSome ∨
      ∃ hopUrl, client.lib.parse st.currentUrl = .ok hopUrl ∧ client.Concluded hopUrl
        (fun resp => replies.first = .ok resp ∨ Challenged signer replies)
          (client.hop req signer st replies)) := by
  rw [hop]
  split
  · exact ⟨fun x hx => .inl hx, .inl rfl⟩
  next hopUrl built hbuilt =>
    obtain ⟨hparse, horigin⟩ := buildRequest_eq_ok hbuilt
    obtain ⟨⟨hsent, -, hstrip, hjar⟩, hsigned⟩ := client.signRequest_spec req signer st built
    split
    next st₁ e hsign =>
      rw [hsign] at hsent
      exact ⟨fun x hx => .inl (hsent ▸ hx), .inl rfl⟩
    next st₁ wire signed hsign =>
      rw [hsign] at hsent hstrip hjar hsigned
      obtain ⟨hwire, hlatch⟩ := hsigned wire signed rfl
      have hcopied : copied req st₁ = copied req st := by rw [copied, copied, hjar, hstrip]
      obtain ⟨hsent', hconcl⟩ := client.transmit_spec req signer st₁ hopUrl wire signed replies
      refine ⟨fun x hx => ?_, .inr ⟨hopUrl, hparse, hconcl⟩⟩
      rcases hsent' x hx with hx | hx
      · exact .inl (hsent ▸ hx)
      · exact .inr ⟨⟨hopUrl, hparse, by rw [hx.url, hwire, horigin]⟩, hx.copied.trans hcopied,
          fun h => hlatch (hx.signed ▸ h), hx.answered⟩

variable (client req) in
structure Inv (st : ClientState U J σ) : Prop where
  clean : ∀ x ∈ st.sent, client.OffOrigin req x.request.url → ¬x.Leaks
  latch : ∀ hopUrl, st.result = none → client.lib.parse st.currentUrl = .ok hopUrl →
    client.OffOrigin req hopUrl → st.stripSensitive = true

theorem inv_start (session : σ) (jar : Option J) : client.Inv req (start req session jar) where
  clean := by simp [start]
  latch := by
    rintro hopUrl - hparse ⟨v, hv, hne⟩
    rw [start, hv] at hparse
    cases hparse
    exact absurd rfl hne

theorem inv_hop (hrun : st.result = none) (h : client.Inv req st)
    (hcont : client.Contained req signer st replies) :
    client.Inv req (client.hop req signer st replies) := by
  have hquiet : ∀ hopUrl, client.lib.parse st.currentUrl = .ok hopUrl →
      client.OffOrigin req hopUrl → ¬Challenged signer replies := by
    rintro hopUrl hparse hoff ⟨hsome, resp, hresp, hchal⟩
    exact (hcont hopUrl resp hparse hoff hresp).1 ⟨hsome, hchal⟩
  obtain ⟨hsent, hnext⟩ := client.hop_spec req signer st replies
  constructor
  · intro x hx hoff
    rcases hsent x hx with hx | ⟨⟨hopUrl, hparse, horigin⟩, hcopied, hsigned, hanswered⟩
    · exact h.clean x hx hoff
    · rw [OffOrigin, horigin] at hoff
      have hstrip := h.latch hopUrl hrun hparse hoff
      rintro (⟨k, hk, hcred⟩ | ⟨hsigner, -⟩)
      · exact not_isCredentialHeader_of_mem_copied hstrip (hcopied ▸ hk) hcred
      · rcases hsigner with hs | ha
        · rw [hsigned hs] at hstrip
          cases hstrip
        · exact hquiet hopUrl hparse hoff (hanswered ha)
  · intro nextUrl hrun' hparse' hoff
    rcases hnext with hres | ⟨hopUrl, hparse, hres | ⟨resp, next, hresp, hto, hurl, hlatch⟩⟩
    · rw [hrun'] at hres
      cases hres
    · rw [hrun'] at hres
      cases hres
    · rw [hurl] at hparse'
      rw [OffOrigin, client.lib.origin_of_parse_toString hparse'] at hoff
      refine hlatch.2 fun hsame => ?_
      -- The hop itself went to another origin, and was redirected within it.
      have hoff' : client.OffOrigin req hopUrl := by rwa [OffOrigin, hsame]
      rcases hresp with hresp | hchal
      · exact (hcont hopUrl resp hparse hoff' hresp).2 next hto hsame.symm
      · exact hquiet hopUrl hparse hoff' hchal

theorem execution_step : (client.execution req signer).step st replies = some st' ↔
      st.result = none ∧ client.hop req signer st replies = st' := by
  rw [execution]
  cases h : st.result <;> simp [h]

/-- In every execution in which no reply from another origin challenges the signer
    or redirects within that origin, no request to another origin has credentials. -/
theorem not_leaks_of_contained {session : σ} {jar : Option J}
    (h : (client.execution req signer).ReachableWith (client.Contained req signer)
      (start req session jar) st) :
    ∀ x ∈ st.sent, client.OffOrigin req x.request.url → ¬x.Leaks := by
  refine (h.invariant (P := client.Inv req) (inv_start session jar) ?_).clean
  intro s s' replies hinv hcont hstep
  obtain ⟨hrun, rfl⟩ := execution_step.1 hstep
  exact inv_hop hrun hinv hcont

/-! ## Examples -/

def plainHttp : Reqwest String Unit where
  parse s := if "http://".toList.isPrefixOf s.toList then .ok s
    else .error "relative URL without a base"
  join _ s := if "http://".toList.isPrefixOf s.toList then .ok s else .error "empty host"
  toString u := u
  scheme _ := "http"
  hostStr u := some (String.ofList ((u.toList.drop 7).takeWhile (· ≠ '/')))
  portOrKnownDefault _ := some 80
  query u _ := u
  methodFromBytes _ := .ok ()
  buildError _ := none
  isHeaderName _ := true
  isHeaderValue _ := true
  cookies _ _ := none
  addCookieStr jar _ _ := jar
  parse_toString h := by
    split at h
    · cases h
      exact ⟨rfl, rfl, rfl⟩
    · cases h
  query_origin _ _ := ⟨rfl, rfl, rfl⟩

def plainClient : HttpClient String Unit where
  lib := plainHttp
  noRedirects := false
  maxRedirects := 10
  maxResponseBytes := none
  discardBodies := false
  checkLiteralBlacklist _ := .ok ()
  setCookieIsAcceptable _ _ := true

def onDemand : AuthSigner plainHttp Unit where
  sign s r := (s, .ok r)
  challengeResponse s _ _ := (s, some "Bearer token")
  sign_origin h := by
    cases h
    rfl

def secretRequest : Request where
  url := "http://a/"
  method := .get
  headers := [("Authorization", "secret")]
  queryParams := []
  cookies := []
  body := none
  host := none
  followRedirects := true
  discardBody := false

def reply (status : ℕ) (headers : Headers) : Replies :=
  let resp : Except TropelError Response := .ok { status, headers, chunks := [], failure := none }
  { first := resp, retry := resp }

theorem not_leaks_redirected :
    ∃ st, (plainClient.execution secretRequest (some onDemand)).ReachableWith
      (plainClient.Contained secretRequest (some onDemand)) (start secretRequest () none) st ∧
    (st.sent.map fun x => (x.request.url, x.request.headers)) =
      [("http://a/", [("authorization", "secret")]), ("http://b/", [])] ∧
    ∀ x ∈ st.sent, plainClient.OffOrigin secretRequest x.request.url → ¬x.Leaks := by
  let st₀ : ClientState String Unit Unit := start secretRequest () none
  let st₁ := plainClient.hop secretRequest (some onDemand) st₀
      (reply 302 [("location", "http://b/")])
  let st₂ := plainClient.hop secretRequest (some onDemand) st₁ (reply 200 [])
  have h₀ : plainClient.Contained secretRequest (some onDemand) st₀
      (reply 302 [("location", "http://b/")]) := by
    rintro hopUrl resp hparse ⟨v, hv, hne⟩ -
    cases hparse.symm.trans hv
    exact absurd rfl hne
  have h₁ : plainClient.Contained secretRequest (some onDemand) st₁ (reply 200 []) := by
    rintro hopUrl resp - - hresp
    cases hresp
    exact ⟨fun h => absurd h.2.1 (by decide), fun next h => absurd h.1 (by decide)⟩
  have hrun : st₁.result = none := isNone_iff_eq_none.1 (by decide +kernel)
  have hreach : (plainClient.execution secretRequest (some onDemand)).ReachableWith
      (plainClient.Contained secretRequest (some onDemand)) st₀ st₂ :=
    .step (.step .refl h₀ (execution_step.2 ⟨rfl, rfl⟩)) h₁ (execution_step.2 ⟨hrun, rfl⟩)
  exact ⟨st₂, hreach, by decide +kernel, not_leaks_of_contained hreach⟩

theorem leaks_redirected_within :
    (∃ st, (plainClient.execution secretRequest (some onDemand)).Reachable
      (start secretRequest () none) st ∧
      ∃ x ∈ st.sent, plainClient.OffOrigin secretRequest x.request.url ∧
        ("Authorization", "secret") ∈ x.copied ∧ x.Leaks) ∧
    ∃ st, (plainClient.execution secretRequest (some onDemand)).Reachable
      (start secretRequest () none) st ∧
      ∃ x ∈ st.sent, plainClient.OffOrigin secretRequest x.request.url ∧
        ("authorization", "Bearer token") ∈ x.request.headers ∧ x.Leaks := by
  constructor
  · have h : ((plainClient.execution secretRequest (some onDemand)).exec
        (start secretRequest () none) [reply 302 [("location", "http://b/")],
          reply 302 [("location", "http://b/2")], reply 200 []]).any (fun st =>
        st.sent.any fun x => x.request.url = "http://b/2" &&
          x.copied.contains ("Authorization", "secret")) := by decide +kernel
    obtain ⟨st, hst, hx⟩ := (any_eq_true _ _).1 h
    obtain ⟨x, hmem, hx⟩ := any_eq_true.1 hx
    rw [and_eq_true, decide_eq_true_eq, contains_iff_mem] at hx
    refine ⟨st, Machine.reachable_of_exec hst, x, hmem, ⟨"http://a/", by decide +kernel, ?_⟩, hx.2,
      .inl ⟨_, hx.2, by decide +kernel⟩⟩
    rw [hx.1]
    decide +kernel
  · have h : ((plainClient.execution secretRequest (some onDemand)).exec
        (start secretRequest () none) [reply 302 [("location", "http://b/")],
          reply 401 [("www-authenticate", "Bearer")]]).any (fun st =>
        st.sent.any fun x => x.request.url = "http://b/" && x.answered &&
          x.request.headers.contains ("authorization", "Bearer token")) := by decide +kernel
    obtain ⟨st, hst, hx⟩ := (any_eq_true _ _).1 h
    obtain ⟨x, hmem, hx⟩ := any_eq_true.1 hx
    rw [and_eq_true, and_eq_true, decide_eq_true_eq, contains_iff_mem] at hx
    refine ⟨st, Machine.reachable_of_exec hst, x, hmem, ⟨"http://a/", by decide +kernel, ?_⟩, hx.2,
      .inr ⟨.inr hx.1.2, _, hx.2, rfl⟩⟩
    rw [hx.1.1]
    decide +kernel

end HttpClient

end Tropel
