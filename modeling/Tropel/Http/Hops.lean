import Mathlib.Data.List.Infix
import Tropel.Http.Redirect

/-!
# Chains of redirects

The execution of a request against a server that answers whatever it likes.

* `execution_accounted`: its end, its hops and its requests.
-/

namespace Tropel

open Lib List Bool Nat

abbrev Message := Method × Option Bytes

def afterRedirect (status : ℕ) (message : Message) : Message :=
  match status, message.1 with
  | 303, .head => message
  | 303, _ => (.get, none)
  | 301, .post => (.get, none)
  | 302, .post => (.get, none)
  | _, _ => message

theorem rewriteMethod_eq (status : ℕ) (message : Message) :
    rewriteMethod status message.1 message.2 = afterRedirect status message := by
  obtain ⟨method, body⟩ := message
  unfold afterRedirect
  dsimp only
  split
  · rfl
  next hne => exact if_pos ⟨rfl, fun h => hne h⟩
  · rfl
  · rfl
  next h303 _ h301 h302 =>
    rw [rewriteMethod, if_neg, if_neg]
    · rintro ⟨rfl | rfl, rfl⟩
      exacts [h301 rfl rfl, h302 rfl rfl]
    · rintro ⟨rfl, hne⟩
      exact h303 rfl

namespace Response

def HasLocation (resp : Response) : Prop := ∃ h ∈ resp.headers, h.1 = "location"

def Redirects (resp : Response) : Prop := resp.isRedirect = true ∧ resp.location.isSome = true

def bytes (resp : Response) : Bytes := resp.chunks.flatten

end Response

structure HopRecord.Of (r : HopRecord) (resp : Response) : Prop where
  statusCode : r.statusCode = resp.status
  body : r.body = resp.bytes
  size : r.size = resp.bytes.length

namespace Request

variable (req : Request)

def bodySize : ℕ := (req.body.map fun b => b.bytes.length).getD 0

def messageAfter (hops : List Response) : Message :=
  hops.foldl (fun message resp => afterRedirect resp.status message) (req.method,
    req.body.map Body.bytes)

theorem messageAfter_append_singleton (hops : List Response) (resp : Response) :
    req.messageAfter (hops ++ [resp]) = afterRedirect resp.status (req.messageAfter hops) :=
  foldl_concat _ _ _ _

end Request

def AuthSigner.KeepsMessage {U J σ : Type} {lib : Reqwest U J} (signer : AuthSigner lib σ) : Prop :=
  ∀ {s r r'}, (signer.sign s r).2 = .ok r' → r'.method = r.method ∧ r'.body = r.body

namespace ClientState

variable {U J σ : Type}

def message (st : ClientState U J σ) : Message := (st.currentMethod, st.currentBody)

def messages (st : ClientState U J σ) : List Message :=
  st.sent.map fun x => (x.request.method, x.request.body)

end ClientState

variable {cap : Option ℕ}

theorem readChunks_eq_some {body bytes : Bytes} {chunks : List Bytes}
    (h : readChunks cap body chunks = some bytes) : bytes = body ++ chunks.flatten := by
  induction chunks generalizing body with
  | nil =>
    rw [flatten_nil, append_nil]
    exact (Option.some.inj h).symm
  | cons chunk chunks ih =>
    rw [readChunks] at h
    split at h
    · cases h
    · rw [ih h, append_assoc, flatten_cons]

theorem readBody_eq_ok {resp : Response} {failed exceeds : String} {body : Bytes}
    (h : readBody cap resp failed exceeds = .ok body) : body = resp.bytes := by
  rw [readBody] at h
  split at h
  · cases h
  next hread =>
    split at h
    · cases h
    · cases h
      exact readChunks_eq_some hread

namespace HttpClient

variable {U J σ : Type} (client : HttpClient U J) (req : Request)
  (signer : Option (AuthSigner client.lib σ))

structure Followed (before : List HopRecord) (sent : Message) (st : ClientState U J σ)
    (resp : Response) : Prop where
  manualFollow : client.manualFollow req = true
  redirects : resp.Redirects
  room : before.length < client.maxRedirects
  recorded : ∃ record : HopRecord, record.Of resp ∧ record.requestBodySize = 0 ∧
    st.redirects = before ++ [record]
  message : st.message = afterRedirect resp.status sent
  running : st.result = none

structure Returned (before : List HopRecord) (st : ClientState U J σ) (resp : Response) : Prop where
  last : client.manualFollow req = true → ¬resp.Redirects
  result : ∃ final : HttpResponse, st.result = some (.ok final) ∧ final.statusCode = resp.status ∧
    final.size = resp.bytes.length ∧ final.redirects = before ∧ final.requestBodySize = req.bodySize

inductive Handled (before : List HopRecord) (sent : Message) (st : ClientState U J σ)
    (resp : Response) : Prop
  | failed (e : TropelError) (h : st.result = some (.error e))
  | followed (h : client.Followed req before sent st resp)
  | returned (h : client.Returned req before st resp)

variable {client req signer} {st : ClientState U J σ} {hopUrl : U}
  {rs : ℕ → Replies} {wire : WireRequest U} {hops : List Response} {resp : Response}

variable (st) in
theorem follow_handled {location : String} (hrun : st.result = none)
    (hfollow : client.manualFollow req = true) (hredirect : resp.isRedirect = true)
    (hlocation : resp.location = some location)
    (hroom : st.redirects.length < client.maxRedirects) :
    client.Handled req st.redirects st.message (client.follow st hopUrl resp location) resp := by
  rw [follow]
  split
  next e _ => exact .failed e rfl
  next body hbody =>
    obtain rfl := readBody_eq_ok hbody
    split
    next e _ => exact .failed _ rfl
    next next _ =>
      refine .followed ⟨hfollow, ⟨hredirect, ?_⟩, hroom, ⟨_, ⟨rfl, rfl, rfl⟩, rfl, rfl⟩, ?_, hrun⟩
      · rw [hlocation]
        rfl
      · exact rewriteMethod_eq resp.status st.message

variable (st) in
theorem finish_handled (resp : Response)
    (hlast : client.manualFollow req = true → ¬resp.Redirects) :
    client.Handled req st.redirects st.message (client.finish req st resp) resp := by
  rw [finish]
  split
  next e _ => exact .failed e rfl
  next body size hread =>
    have hsize : size = resp.bytes.length := by
      split at hread
      all_goals
        obtain ⟨bytes, hbytes, h⟩ := map_eq_ok.1 hread
        cases h
        rw [readBody_eq_ok hbytes]
    exact .returned ⟨hlast, _, rfl, rfl, hsize, rfl, rfl⟩

variable (client req st hopUrl) in
theorem respond_handled (hrun : st.result = none) (resp : Response) :
    client.Handled req st.redirects st.message (client.respond req st hopUrl resp) resp := by
  have hfinish (hlast : client.manualFollow req = true → ¬resp.Redirects) :
      client.Handled req st.redirects
      st.message (client.finish req (client.storeCookies st hopUrl resp) resp) resp :=
    finish_handled (client.storeCookies st hopUrl resp) resp hlast
  rw [respond]
  split
  · exact .failed _ rfl
  next hlimit =>
    split
    next hredirect =>
      obtain ⟨hfollow, hredirect⟩ := and_eq_true_iff.1 hredirect
      rw [hfollow, hredirect, Bool.and_self, Bool.true_and, decide_eq_true_eq, not_le, maxHops,
        if_pos hfollow] at hlimit
      split
      next location hlocation =>
        exact follow_handled
          (client.storeCookies st hopUrl resp) hrun hfollow hredirect hlocation hlimit
      next hnone =>
        refine hfinish fun _ h => ?_
        rw [Response.Redirects, hnone] at h
        cases h.2
    next hredirect =>
      refine hfinish fun hfollow h => hredirect ?_
      rw [hfollow, h.1]
      rfl

/-! ## What is sent -/

variable (client req signer st) in
/-- The signer answers a challenge of the first reply: it has an answer for the request it
    signed. -/
def Answers (replies : Replies) : Prop :=
  ∃ hopUrl built st₁ wire signed resp, client.buildRequest req signer st = .ok (hopUrl, built) ∧
    client.signRequest req signer st built = (st₁, .ok (wire, signed)) ∧ replies.first = .ok resp ∧
    (client.challengeResponse signer st₁ resp wire).2.isSome = true

variable (client req signer st) in
/-- What a hop does, `answers` saying whether a challenge is answered: the message is sent once, or
    twice with an answer, and a response is handled. -/
def HopCases (answers : Prop) (replies : Replies) (st' : ClientState U J σ) : Prop :=
  ∃ n ≤ 2, (¬Challenged signer replies → n ≤ 1) ∧
    st'.messages = st.messages ++ List.replicate n st.message ∧
    ((∃ e, st'.result = some (.error e)) ∨
      (answers ∧ n = 2 ∨ ¬answers ∧ n = 1) ∧ ∃ resp, (n = 1 → replies.first = .ok resp) ∧
        client.Handled req st.redirects st.message st' resp)

theorem messages_respond (resp : Response) :
    (client.respond req st hopUrl resp).messages = st.messages := by
  rw [ClientState.messages, (client.respond_spec req st hopUrl resp).1, ClientState.messages]

theorem messages_record (st : ClientState U J σ) (x : Sent U) :
    (st.record x).messages = st.messages ++ [(x.request.method, x.request.body)] := by
  rw [ClientState.messages, ClientState.record, map_append]
  rfl

theorem buildRequest_message {built : WireRequest U}
    (h : client.buildRequest req signer st = .ok (hopUrl, built)) :
    (built.method, built.body) = st.message := by
  rw [buildRequest] at h
  obtain ⟨-, -, h⟩ := bind_eq_ok.1 h
  obtain ⟨u, -, h⟩ := bind_eq_ok.1 h
  obtain ⟨-, -, h⟩ := bind_eq_ok.1 h
  dsimp only at h
  split at h
  · cases h
  · split at h <;> cases h <;> rfl

variable (req) in
theorem signRequest_message (hsign : ∀ s ∈ signer, s.KeepsMessage) (built : WireRequest U) :
    let st' := (client.signRequest req signer st built).1
    (st'.messages = st.messages ∧ st'.message = st.message ∧ st'.redirects = st.redirects ∧
      st'.result = st.result) ∧
    ∀ wire signed, (client.signRequest req signer st built).2 = .ok (wire, signed) →
      (wire.method, wire.body) = (built.method, built.body) := by
  simp only [signRequest]
  cases signer with
  | none =>
    refine ⟨⟨rfl, rfl, rfl, rfl⟩, fun wire signed h => ?_⟩
    cases h
    rfl
  | some signer =>
    dsimp only
    split
    · refine ⟨⟨rfl, rfl, rfl, rfl⟩, fun wire signed h => ?_⟩
      cases h
      rfl
    · split
      · refine ⟨⟨rfl, rfl, rfl, rfl⟩, fun wire signed h => ?_⟩
        cases h
      next wire hwire =>
        obtain ⟨hmethod, hbody⟩ := hsign signer rfl hwire
        split
        all_goals
          refine ⟨⟨rfl, rfl, rfl, rfl⟩, fun _ _ h => ?_⟩
          cases h
          rw [hmethod, hbody]

theorem challengeResponse_message {st' : ClientState U J σ}
    {answer : Option String} (h : client.challengeResponse signer st resp wire = (st', answer)) :
    st'.messages = st.messages ∧ st'.message = st.message ∧ st'.redirects = st.redirects ∧
      st'.result = st.result := by
  simp only [challengeResponse] at h
  cases signer with
  | none =>
    cases h
    exact ⟨rfl, rfl, rfl, rfl⟩
  | some signer =>
    dsimp only at h
    split at h
    all_goals
      cases h
      exact ⟨rfl, rfl, rfl, rfl⟩

variable (client signer st) in
theorem challengeResponse_record (x : Sent U) (resp : Response) (wire : WireRequest U) :
    (client.challengeResponse signer (st.record x) resp wire).2 =
      (client.challengeResponse signer st resp wire).2 := by
  cases signer with
  | none => rfl
  | some signer =>
    simp only [challengeResponse]
    split <;> rfl

variable (client req signer st hopUrl) in
theorem transmit_cases (hrun : st.result = none) (hwire : (wire.method, wire.body) = st.message)
    (signed : Bool) (replies : Replies) :
    client.HopCases req signer st
      (∃ resp, replies.first = .ok resp ∧
        (client.challengeResponse signer st resp wire).2.isSome = true)
      replies (client.transmit req signer st hopUrl wire signed replies) := by
  have hone : List.replicate 1 st.message = [(wire.method, wire.body)] := by rw [hwire]; rfl
  rw [transmit]
  split
  next e _ =>
    exact ⟨1, by decide, fun _ => le_rfl, by rw [hone]; exact messages_record _ _, .inl ⟨e, rfl⟩⟩
  next resp hresp =>
    have hanswers : (∃ resp, replies.first = .ok resp ∧
        (client.challengeResponse signer st resp wire).2.isSome = true) ↔
        (client.challengeResponse signer st resp wire).2.isSome = true := by
      refine ⟨?_, fun h => ⟨resp, hresp, h⟩⟩
      rintro ⟨resp', hresp', h⟩
      cases hresp.symm.trans hresp'
      exact h
    rw [hanswers]
    split
    next st₁ hst₁ =>
      have hanswer := challengeResponse_record client signer st
        { request := wire, copied := copied req st, signed, answered := false } resp wire
      rw [hst₁] at hanswer
      obtain ⟨hmessages, hmessage, hredirects, hresult⟩ := challengeResponse_message hst₁
      refine ⟨1, by decide, fun _ => le_rfl, ?_, .inr ⟨.inr ⟨?_, rfl⟩, resp, fun _ => hresp, ?_⟩⟩
      · rw [messages_respond, hmessages, messages_record, hone]
      · rw [← hanswer]
        exact false_ne_true
      · have h := client.respond_handled req st₁ hopUrl (hresult.trans hrun) resp
        rwa [hredirects, hmessage] at h
    next st₁ value hst₁ =>
      -- The answer to a challenge is a second request with the same message.
      have hanswer := challengeResponse_record client signer st
        { request := wire, copied := copied req st, signed, answered := false } resp wire
      rw [hst₁] at hanswer
      obtain ⟨hmessages, hmessage, hredirects, hresult⟩ := challengeResponse_message hst₁
      have hchallenges := (challengeResponse_spec hst₁).2 rfl
      have hchal : Challenged signer replies := ⟨hchallenges.1, resp, hresp, hchallenges.2⟩
      have htwo : List.replicate 2 st.message =
          [(wire.method, wire.body)] ++ [(wire.method, wire.body)] := by
        rw [hwire]
        rfl
      rw [messages_record] at hmessages
      rw [answerChallenge]
      split
      · dsimp only
        split
        next e _ =>
          refine ⟨2, le_rfl, fun h => absurd hchal h, ?_, .inl ⟨e, rfl⟩⟩
          rw [htwo, ← append_assoc, ← hmessages]
          exact messages_record _ _
        next resp' _ =>
          refine ⟨2, le_rfl, fun h => absurd hchal h, ?_,
            .inr ⟨.inl ⟨?_, rfl⟩, resp', fun h => absurd h (by decide), ?_⟩⟩
          · rw [messages_respond, messages_record, hmessages, htwo, ← append_assoc]
          · rw [← hanswer]
            rfl
          · rw [show st.redirects = st₁.redirects from hredirects.symm,
              show st.message = st₁.message from hmessage.symm]
            exact client.respond_handled req (st₁.record _) hopUrl (hresult.trans hrun) resp'
      · exact ⟨1, by decide, fun _ => le_rfl, by rw [hone]; exact hmessages, .inl ⟨_, rfl⟩⟩

variable (client req) in
theorem hop_cases (hrun : st.result = none) (hsign : ∀ s ∈ signer, s.KeepsMessage)
    (replies : Replies) :
    client.HopCases req signer st (client.Answers req signer st replies) replies
      (client.hop req signer st replies) := by
  have hnone {st' : ClientState U J σ} {e : TropelError} (hmessages : st'.messages = st.messages)
      (hfail : st'.result = some (.error e)) :
      client.HopCases req signer st (client.Answers req signer st replies) replies st' :=
    ⟨0, by decide, fun _ => by decide, by rw [hmessages, replicate_zero, append_nil],
      .inl ⟨e, hfail⟩⟩
  rw [hop]
  split
  next e _ => exact hnone rfl rfl
  next hopUrl built hbuilt =>
    obtain ⟨⟨hmessages, hmessage, hredirects, hresult⟩, hwire⟩ :=
      signRequest_message req hsign built
    split
    next st₁ e hst₁ =>
      rw [hst₁] at hmessages
      exact hnone hmessages rfl
    next st₁ wire signed hst₁ =>
      have hanswers : client.Answers req signer st replies ↔ ∃ resp, replies.first = .ok resp ∧
          (client.challengeResponse signer st₁ resp wire).2.isSome = true := by
        constructor
        · rintro ⟨_, _, _, _, _, resp, hbuilt', hst₁', h⟩
          cases hbuilt.symm.trans hbuilt'
          cases hst₁.symm.trans hst₁'
          exact ⟨resp, h⟩
        · rintro ⟨resp, h⟩
          exact ⟨hopUrl, built, st₁, wire, signed, resp, hbuilt, hst₁, h⟩
      rw [hst₁] at hmessages hmessage hredirects hresult hwire
      have h := client.transmit_cases req signer st₁ hopUrl (hresult.trans hrun)
        ((hwire wire signed rfl).trans ((buildRequest_message hbuilt).trans hmessage.symm)) signed
          replies
      rwa [HopCases, hmessages, hmessage, hredirects, ← hanswers] at h

/-! ## Chains -/

variable (client) in
structure Chain (rs : ℕ → Replies) (records : List HopRecord) (hops : List Response) : Prop where
  received : hops.map Except.ok = (List.range hops.length).map fun i => (rs i).first
  redirects : ∀ resp ∈ hops, resp.Redirects
  recorded : List.Forall₂ HopRecord.Of records hops
  room : hops.length ≤ client.maxRedirects

theorem Chain.nil (rs : ℕ → Replies) : client.Chain rs [] [] := ⟨rfl, nofun, .nil, Nat.zero_le _⟩

theorem Chain.append {records : List HopRecord} {record : HopRecord}
    (h : client.Chain rs records hops) (hresp : (rs hops.length).first = .ok resp)
    (hredirects : resp.Redirects) (hrecord : record.Of resp)
    (hroom : records.length < client.maxRedirects) :
    client.Chain rs (records ++ [record]) (hops ++ [resp]) where
  received := by
    rw [map_append, h.received, length_append, length_singleton, range_succ, map_append,
      map_singleton, map_singleton, hresp]
  redirects r hr := by
    rcases mem_append.1 hr with hr | hr
    · exact h.redirects r hr
    · obtain rfl := mem_singleton.1 hr
      exact hredirects
  recorded := rel_append h.recorded (.cons hrecord .nil)
  room := by
    rw [length_append, ← h.recorded.length_eq]
    exact hroom

variable (client req) in
structure Running (rs : ℕ → Replies) (st : ClientState U J σ) (hops : List Response) : Prop where
  chain : client.Chain rs st.redirects hops
  running : st.result = none
  message : st.message = req.messageAfter hops
  messages : st.messages ++ [st.message] = hops.inits.map req.messageAfter

variable (client req) in
structure Finished (rs : ℕ → Replies) (st : ClientState U J σ) (final : HttpResponse)
    (hops : List Response)
    (last : Response) : Prop where
  chain : client.Chain rs final.redirects hops
  received : (rs hops.length).first = .ok last
  statusCode : final.statusCode = last.status
  size : final.size = last.bytes.length
  ends : ¬last.Redirects
  messages : st.messages = hops.inits.map req.messageAfter

variable (client req) in
inductive Accounted (rs : ℕ → Replies) (n : ℕ) (st : ClientState U J σ) : Prop
  | running (hops : List Response) (hn : hops.length = n) (h : client.Running req rs st hops)
  | failed (e : TropelError) (hres : st.result = some (.error e))
      (hsent : st.messages.length ≤ client.maxRedirects + 1)
  | finished (final : HttpResponse) (hops : List Response) (last : Response)
      (hres : st.result = some (.ok final))
      (h : client.Finished req rs st final hops last)

theorem Running.length_messages (h : client.Running req rs st hops) :
    st.messages.length = hops.length := by
  have hlen := congrArg List.length h.messages
  rw [length_append, length_singleton, length_map, length_inits] at hlen
  exact succ.inj hlen

theorem length_sent {n : ℕ} (h : client.Accounted req rs n st) :
    st.sent.length ≤ client.maxRedirects + 1 := by
  have hsent : st.sent.length = st.messages.length := length_map _ |>.symm
  rw [hsent]
  rcases h with ⟨hops, -, h⟩ | ⟨e, -, hsent⟩ | ⟨final, hops, last, -, h⟩
  · rw [h.length_messages]
    exact h.chain.room.trans (le_succ _)
  · exact hsent
  · rw [h.messages, length_map, length_inits]
    exact succ_le_succ h.chain.room

theorem Running.hop (h : client.Running req rs st hops)
    (hfollow : client.manualFollow req = true) (hsign : ∀ s ∈ signer, s.KeepsMessage)
    (hquiet : ¬Challenged signer (rs hops.length)) :
    client.Accounted req rs (hops.length + 1) (client.hop req signer st (rs hops.length)) := by
  obtain ⟨n, -, hn, hmessages, hcases⟩ := client.hop_cases req h.running hsign (rs hops.length)
  have hn := hn hquiet
  rcases hcases with ⟨e, he⟩ | ⟨hpos, resp, hresp, hcases⟩
  · refine .failed e he ?_
    rw [hmessages, length_append, length_replicate, h.length_messages]
    exact Nat.add_le_add h.chain.room hn
  · -- The message was sent once, and its response is the first one.
    obtain rfl : n = 1 := by omega
    rw [replicate_one, h.messages] at hmessages
    have hresp := hresp rfl
    rcases hcases with ⟨e, he⟩ | hf | hr
    · refine .failed e he ?_
      rw [hmessages, length_map, length_inits]
      exact succ_le_succ h.chain.room
    · obtain ⟨record, hrecord, -, hrecords⟩ := hf.recorded
      have hmessage : (client.hop req signer st (rs hops.length)).message =
          req.messageAfter (hops ++ [resp]) := by
        rw [hf.message, h.message, req.messageAfter_append_singleton]
      refine .running (hops ++ [resp]) length_append ⟨?_, hf.running, hmessage, ?_⟩
      · rw [hrecords]
        exact h.chain.append hresp hf.redirects hrecord hf.room
      · rw [hmessages, hmessage, inits_append, map_append]
        rfl
    · obtain ⟨final, hfinal, hstatus, hsize, hredirects, -⟩ := hr.result
      exact .finished final hops resp hfinal
        ⟨hredirects ▸ h.chain, hresp, hstatus, hsize, hr.last hfollow, hmessages⟩

theorem execution_play_succ (session : σ) (jar : Option J) (rs : ℕ → Replies) (n : ℕ) :
    (client.execution req signer).play (start req session jar) rs (n + 1) =
      let st := (client.execution req signer).play (start req session jar) rs n
      if st.result.isSome then st else client.hop req signer st (rs n) := by
  rw [Machine.play, execution]
  dsimp only
  split <;> rfl

theorem accounted_play (hfollow : client.manualFollow req = true)
    (hsign : ∀ s ∈ signer, s.KeepsMessage) (hquiet : ∀ i, ¬Challenged signer (rs i)) (session : σ)
    (jar : Option J) (n : ℕ) :
    client.Accounted req rs n
      ((client.execution req signer).play (start req session jar) rs n) := by
  induction n with
  | zero => exact .running [] rfl ⟨.nil rs, rfl, rfl, rfl⟩
  | succ n ih =>
    rw [execution_play_succ]
    rcases ih with ⟨hops, rfl, h⟩ | ⟨e, hres, hsent⟩ | ⟨final, hops, last, hres, h⟩
    · rw [if_neg (by rw [h.running]; exact false_ne_true)]
      exact h.hop hfollow hsign (hquiet _)
    · rw [if_pos (by rw [hres]; rfl)]
      exact .failed e hres hsent
    · rw [if_pos (by rw [hres]; rfl)]
      exact .finished final hops last hres h

variable (client req signer) in
/-- Redirects are followed to an end: after `maxRedirects + 1` hops the execution has returned, with
    no more requests. A response is no redirect itself, the hops are the redirects before it, and
    every request had the message that the redirects before it leave. The locations of the redirects
    must be text. -/
theorem execution_accounted (hfollow : client.manualFollow req = true)
    (hsign : ∀ s ∈ signer, s.KeepsMessage) {rs : ℕ → Replies}
    (hquiet : ∀ i, ¬Challenged signer (rs i))
    (hlocation : ∀ i resp, (rs i).first = .ok resp → resp.isRedirect = true → resp.HasLocation →
      resp.location.isSome = true) (session : σ) (jar : Option J) :
    let st n := (client.execution req signer).play (start req session jar) rs n
    (st (client.maxRedirects + 1)).result.isSome = true ∧
    ∀ n, (st n).sent.length ≤ client.maxRedirects + 1 ∧
      ∀ final, (st n).result = some (.ok final) → ∃ hops last,
        client.Chain rs final.redirects hops ∧
        (rs hops.length).first = .ok last ∧ final.statusCode = last.status ∧
          final.size = last.bytes.length ∧
        ¬(last.isRedirect = true ∧ last.HasLocation) ∧
          (st n).messages = hops.inits.map req.messageAfter := by
  intro st
  have hacc n : client.Accounted req rs n (st n) :=
    accounted_play hfollow hsign hquiet session jar n
  refine ⟨?_, fun n => ⟨length_sent (hacc n), fun final hfinal => ?_⟩⟩
  · rcases hacc (client.maxRedirects + 1) with ⟨hops, hn, h⟩ | ⟨e, hres, -⟩ |
      ⟨final, hops, last, hres, -⟩
    · exact absurd h.chain.room (by omega)
    · rw [hres]
      rfl
    · rw [hres]
      rfl
  · rcases hacc n with ⟨hops, -, h⟩ | ⟨e, hres, -⟩ | ⟨final', hops, last, hres, h⟩
    · cases h.running.symm.trans hfinal
    · cases hres.symm.trans hfinal
    · cases hres.symm.trans hfinal
      exact ⟨hops, last, h.chain, h.received, h.statusCode, h.size,
        fun hl => h.ends ⟨hl.1, hlocation _ last h.received hl.1 hl.2⟩, h.messages⟩

theorem exists_final {r : Option (Except TropelError HttpResponse)} {p : HttpResponse → Bool}
    (h : (r.any fun r => r.toOption.any p) = true) :
    ∃ final, r = some (.ok final) ∧ p final = true := by
  obtain ⟨r, rfl, h⟩ := (Option.any_eq_true _ _).1 h
  cases r with
  | error e => cases h
  | ok final => exact ⟨final, rfl, h⟩

theorem onDemand_keepsMessage : ∀ s ∈ some onDemand, s.KeepsMessage := by
  rintro _ ⟨⟩ s r r' h
  cases h
  exact ⟨rfl, rfl⟩

def postRequest : Request := { secretRequest with method := .post, body := some ⟨.raw, [1, 2]⟩ }

def redirectOnce (status : ℕ) : ℕ → Replies
  | 0 => reply status [("location", "http://b/")]
  | _ => reply 200 []

theorem execution_accounted_post :
    ∃ st, st = (plainClient.execution postRequest (some onDemand)).play (start postRequest () none)
        (redirectOnce 302) 2 ∧ st.messages = [(.post, some [1, 2]), (.get, none)] ∧
          st.sent.length ≤ 11 ∧
      ∃ final, st.result = some (.ok final) ∧ final.statusCode = 200 ∧
        ∃ hops last, plainClient.Chain (redirectOnce 302) final.redirects hops ∧ hops.length = 1 ∧
          (redirectOnce 302 hops.length).first = .ok last ∧
            ¬(last.isRedirect = true ∧ last.HasLocation) := by
  have hquiet i resp (hresp : (redirectOnce 302 i).first = .ok resp) : ¬resp.Challenges := by
    intro h
    cases i <;> cases hresp <;> exact absurd h.1 (by decide)
  have hlocation i resp (hresp : (redirectOnce 302 i).first = .ok resp)
      (hredirect : resp.isRedirect = true)
      (_ : resp.HasLocation) : resp.location.isSome = true := by
    cases i <;> cases hresp
    · decide
    · cases hredirect
  obtain ⟨-, h⟩ :=
    plainClient.execution_accounted postRequest (some onDemand) rfl onDemand_keepsMessage
    (fun i ⟨_, resp, hresp, h⟩ => hquiet i resp hresp h) hlocation () none
  obtain ⟨hsent, hfinal⟩ := h 2
  have hresult :
      (((plainClient.execution postRequest (some onDemand)).play (start postRequest () none)
      (redirectOnce 302) 2).result.any fun r => r.toOption.any fun final =>
        final.statusCode = 200 &&
        final.redirects.length = 1) = true := by decide
  obtain ⟨final, hr, hvalues⟩ := exists_final hresult
  rw [and_eq_true, decide_eq_true_eq, decide_eq_true_eq] at hvalues
  obtain ⟨hops, last, hchain, hlast, -, -, hends, -⟩ := hfinal final hr
  exact ⟨_, rfl, by decide, hsent, final, hr, hvalues.1, hops, last, hchain,
    hchain.recorded.length_eq.symm.trans hvalues.2, hlast, hends⟩

theorem execution_returns_redirect : ∃ resp st final,
    (reply 302 [("location", "http://b/é")]).first = .ok resp ∧ resp.isRedirect = true ∧
      resp.HasLocation ∧
    st = (plainClient.execution secretRequest (some onDemand)).play (start secretRequest () none)
      (fun _ => reply 302 [("location", "http://b/é")]) 1 ∧
    st.result = some (.ok final) ∧ final.statusCode = 302 ∧ final.redirects = [] := by
  have h : (((plainClient.execution secretRequest (some onDemand)).play
      (start secretRequest () none) (fun _ => reply 302 [("location", "http://b/é")]) 1).result.any
        fun r => r.toOption.any fun final =>
        final.statusCode = 302 && final.redirects = []) = true := by decide
  obtain ⟨final, hr, hvalues⟩ := exists_final h
  rw [and_eq_true, decide_eq_true_eq, decide_eq_true_eq] at hvalues
  exact ⟨_, _, final, rfl, by decide, ⟨_, mem_singleton_self _, rfl⟩, rfl, hr, hvalues⟩

end HttpClient

end Tropel
