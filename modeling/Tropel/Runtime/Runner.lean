import Mathlib.Algebra.BigOperators.Ring.Finset
import Tropel.Http.Hops
import Tropel.Metrics.Recording

/-!
# The samples of a request

The runner executes the request of an item, and reports samples for every redirect and the response,
or those of a failed request.

* `Runner.samples`: the samples of an execution;
* `dataSent_eq_bytesSent_iff`: when the reported sizes are those of the bodies that were sent.
-/

namespace Tropel

open Lib List

/-! ## Samples -/

structure Timings where
  blocked : ℚ
  dns : ℚ
  connecting : ℚ
  tlsHandshaking : ℚ
  sending : ℚ
  waiting : ℚ
  receiving : ℚ

structure Measured where
  responseTime : ℚ
  timings : Option Timings

structure RunnerItem where
  name : String
  body : Option Body

def RunnerItem.wireSize (item : RunnerItem) : ℕ := (item.body.map fun b => b.bytes.length).getD 0

structure Runner where
  scenarioTags : List (String × String)
  statusIsExpected : ℕ → Bool
  methodToString : Method → String
  errorToString : TropelError → String

namespace Runner

variable (runner : Runner) (req : Request)

def responseTags (resp : HopRecord) : TagMap :=
  runner.scenarioTags.foldl (fun tags p => tags.insert p.1 p.2)
    (.ofPairs [("url", resp.url), ("method", runner.methodToString req.method),
      ("status", toString resp.statusCode), ("name", resp.url), ("group", "http")])

def subTimings (t : Timings) : List (String × ℚ) :=
  [("http_req_blocked", t.blocked), ("http_req_dns", t.dns), ("http_req_connecting", t.connecting),
    ("http_req_tls_handshaking", t.tlsHandshaking), ("http_req_sending", t.sending),
    ("http_req_waiting", t.waiting), ("http_req_receiving", t.receiving)]

def duration (m : Measured) : ℚ :=
  match m.timings with
  | some t => (t.sending + t.waiting + t.receiving) * 1000
  | none => m.responseTime * 1000

def responseSamples (resp : HopRecord) (m : Measured) : List Sample :=
  let tags := runner.responseTags req resp
  let isFailed := !runner.statusIsExpected resp.statusCode
  [⟨"http_req_duration", tags, duration m, .trend⟩,
    ⟨"http_reqs", tags, 1, .counter⟩,
    ⟨"http_req_failed", tags, if isFailed then 1 else 0, .rate⟩,
    ⟨"data_received", tags, resp.size, .counter⟩,
    ⟨"data_sent", tags, resp.requestBodySize, .counter⟩] ++
  ((m.timings.map subTimings).getD []).map fun (name, dur) => ⟨name, tags, dur * 1000, .trend⟩

def failureSamples (item : RunnerItem) (e : TropelError) (elapsed : ℚ) : List Sample :=
  let tags := TagMap.ofPairs [("url", req.url), ("method", runner.methodToString req.method),
    ("name", item.name), ("error", runner.errorToString e)]
  [⟨"http_reqs", tags, 1, .counter⟩,
    ⟨"errors", tags, 1, .counter⟩,
    ⟨"http_req_failed", tags, 1, .rate⟩,
    ⟨"http_req_duration", tags, 0, .trend⟩,
    ⟨"http_req_time_to_failure", tags, elapsed * 1000, .trend⟩] ++
  ["http_req_blocked", "http_req_dns", "http_req_connecting", "http_req_tls_handshaking",
    "http_req_sending", "http_req_waiting",
      "http_req_receiving"].map (fun name => ⟨name, tags, 0, .trend⟩) ++
  [⟨"data_sent", tags, item.wireSize, .counter⟩]

def samples (item : RunnerItem) (measured : ℕ → Measured)
    (elapsed : ℚ) : Except TropelError HttpResponse → List Sample
  | .ok final => (final.redirects ++ [final.toHopRecord]).zipIdx.flatMap fun (resp, i) =>
      runner.responseSamples req resp (measured i)
  | .error e => runner.failureSamples req item e elapsed

end Runner

/-! ## What is reported -/

theorem valuesOf_flatMap {α : Type} (metric : String) (f : α → List Sample) (l : List α) :
    valuesOf metric (l.flatMap f) = l.flatMap fun a => valuesOf metric (f a) := by
  rw [valuesOf, filter_flatMap, map_flatMap]
  rfl

namespace HttpResponse

def reportedSize (final : HttpResponse) : ℕ :=
  (final.redirects.map HopRecord.requestBodySize).sum + final.requestBodySize

end HttpResponse

namespace Runner

variable (runner : Runner) (req : Request)

theorem valuesOf_subTimings (tags : TagMap) (t : Option Timings) : valuesOf "data_sent"
    (((t.map subTimings).getD []).map fun (name, dur) => ⟨name, tags, dur * 1000, .trend⟩) =
      [] := by
  cases t <;> rfl

theorem valuesOf_responseSamples (resp : HopRecord) (m : Measured) :
    valuesOf "data_sent" (runner.responseSamples req resp m) = [(resp.requestBodySize : ℚ)] := by
  rw [responseSamples, valuesOf_append, valuesOf_subTimings, append_nil]
  rfl

theorem valuesOf_failureSamples (item : RunnerItem) (e : TropelError) (elapsed : ℚ) :
    valuesOf "data_sent" (runner.failureSamples req item e elapsed) = [(item.wireSize : ℚ)] := rfl

theorem sum_dataSent (item : RunnerItem) (measured : ℕ → Measured) (elapsed : ℚ)
    (r : Except TropelError HttpResponse) :
    (valuesOf "data_sent" (runner.samples req item measured elapsed r)).sum =
      ((match r with
        | .ok final => final.reportedSize
        | .error _ => item.wireSize : ℕ) : ℚ) := by
  cases r with
  | ok final =>
    have hvalues : valuesOf "data_sent" (runner.samples req item measured elapsed (.ok final)) =
        (final.redirects ++ [final.toHopRecord]).map fun resp => (resp.requestBodySize : ℚ) := by
      simp only [samples, valuesOf_flatMap, valuesOf_responseSamples]
      rw [← map_eq_flatMap, ← zipIdx_map_fst 0 (final.redirects ++ [final.toHopRecord]),
        List.map_map, zipIdx_map_fst]
      rfl
    dsimp only
    rw [hvalues, map_append, sum_append, HttpResponse.reportedSize, Nat.cast_add, Nat.cast_list_sum,
      List.map_map]
    exact congrArg _ (sum_singleton)
  | error e => rw [samples, valuesOf_failureSamples, sum_singleton]

end Runner

/-! ## What is sent -/

def Message.bodySize (message : Message) : ℕ := (message.2.map List.length).getD 0

def Request.Carries (req : Request) (message : Message) : Prop :=
  message.2 = none ∨ message.2 = req.body.map Body.bytes

variable {req : Request} {U J σ : Type} {st : ClientState U J σ} {message : Message}

theorem Request.Carries.afterRedirect (h : req.Carries message) (status : ℕ) :
    req.Carries (afterRedirect status message) := by
  unfold Tropel.afterRedirect
  split
  all_goals first | exact h | exact .inl rfl

theorem Request.Carries.bodySize (h : req.Carries message) :
    message.bodySize = if message.2.isSome then req.bodySize else 0 := by
  rw [Message.bodySize, Request.bodySize]
  rcases h with h | h <;> rw [h]
  · rfl
  · cases req.body <;> rfl

namespace ClientState

variable {U J σ : Type}

def bytesSent (st : ClientState U J σ) : ℕ := (st.messages.map Message.bodySize).sum

def bodiesSent (st : ClientState U J σ) : ℕ := st.messages.countP fun message => message.2.isSome

end ClientState

theorem sum_bodySize {messages : List Message} (h : ∀ message ∈ messages, req.Carries message) :
    (messages.map Message.bodySize).sum = req.bodySize * messages.countP fun message =>
      message.2.isSome := by
  induction messages with
  | nil => rfl
  | cons message messages ih =>
    obtain ⟨hmessage, hmessages⟩ := forall_mem_cons.1 h
    rw [map_cons, sum_cons, ih hmessages, hmessage.bodySize, countP_cons, Nat.mul_add, Nat.add_comm]
    split <;> simp

namespace HttpClient

variable {U J σ : Type} {client : HttpClient U J} {req : Request}
  {signer : Option (AuthSigner client.lib σ)}
  {st : ClientState U J σ}

variable (req st) in
structure SizesKept : Prop where
  messages : ∀ message ∈ st.messages, req.Carries message
  running : st.result = none → req.Carries st.message ∧ ∀ hop ∈ st.redirects,
    hop.requestBodySize = 0
  final : ∀ final, st.result = some (.ok final) → final.requestBodySize = req.bodySize ∧
    ∀ hop ∈ final.redirects, hop.requestBodySize = 0

theorem SizesKept.hop (h : SizesKept req st) (hrun : st.result = none)
    (hsign : ∀ s ∈ signer, s.KeepsMessage) (replies : Replies) :
    SizesKept req (client.hop req signer st replies) := by
  obtain ⟨hcarries, hhops⟩ := h.running hrun
  obtain ⟨n, -, -, hmessages, hcases⟩ := client.hop_cases req hrun hsign replies
  have hsent : ∀ message ∈ (client.hop req signer st replies).messages, req.Carries message := by
    intro message hmem
    rw [hmessages] at hmem
    rcases mem_append.1 hmem with hmem | hmem
    · exact h.messages message hmem
    · obtain rfl := eq_of_mem_replicate hmem
      exact hcarries
  have hfailed {e : TropelError} (he : (client.hop req signer st replies).result =
      some (.error e)) :
      SizesKept req (client.hop req signer st replies) := by
    refine ⟨hsent, fun hnone => ?_, fun final hfinal => ?_⟩
    · cases he.symm.trans hnone
    · cases he.symm.trans hfinal
  rcases hcases with ⟨e, he⟩ | ⟨-, resp, -, ⟨e, he⟩ | hf | hr⟩
  · exact hfailed he
  · exact hfailed he
  · refine ⟨hsent, fun _ => ⟨?_, ?_⟩, fun final hfinal => ?_⟩
    · rw [hf.message]
      exact hcarries.afterRedirect resp.status
    · obtain ⟨record, -, hsize, hrecords⟩ := hf.recorded
      rw [hrecords]
      intro hop hmem
      rcases mem_append.1 hmem with hmem | hmem
      · exact hhops hop hmem
      · obtain rfl := mem_singleton.1 hmem
        exact hsize
    · cases hf.running.symm.trans hfinal
  · obtain ⟨final', hres, -, -, hredirects, hsize⟩ := hr.result
    refine ⟨hsent, fun hnone => ?_, fun final hfinal => ?_⟩
    · cases hres.symm.trans hnone
    · cases hres.symm.trans hfinal
      exact ⟨hsize, hredirects ▸ hhops⟩

theorem sizesKept {session : σ} {jar : Option J} (hsign : ∀ s ∈ signer, s.KeepsMessage)
    (hst : (client.execution req signer).Reachable (start req session jar) st) :
    SizesKept req st := by
  refine hst.invariant ⟨nofun, fun _ => ⟨.inr rfl, nofun⟩, nofun⟩ fun h hstep => ?_
  obtain ⟨hrun, rfl⟩ := execution_step.1 hstep
  exact h.hop hrun hsign _

end HttpClient

theorem ClientState.bytesSent_eq
    (h : HttpClient.SizesKept req st) : st.bytesSent = req.bodySize * st.bodiesSent :=
      sum_bodySize h.messages

theorem reportedSize_eq {final : HttpResponse}
    (h : HttpClient.SizesKept req st) (hfinal : st.result = some (.ok final)) :
    final.reportedSize = req.bodySize := by
  obtain ⟨hsize, hhops⟩ := h.final final hfinal
  have hzero : (final.redirects.map HopRecord.requestBodySize).sum = 0 := by
    refine sum_eq_zero fun n hn => ?_
    obtain ⟨hop, hmem, rfl⟩ := mem_map.1 hn
    exact hhops hop hmem
  rw [HttpResponse.reportedSize, hzero, Nat.zero_add, hsize]

/-! ## How many requests carry the body -/

namespace HttpClient

variable {st' : ClientState U J σ} {client : HttpClient U J}
  {signer : Option (AuthSigner client.lib σ)}
  {session : σ} {jar : Option J} {first : Replies} {rest : List Replies}

variable (client req signer) in
/-- The body is not sent again after the first request: no challenge to it is answered, and a
    redirect that is followed drops the body. -/
def SentOnce (session : σ) (jar : Option J) (first : Replies) : Prop :=
  ¬client.Answers req signer (start req session jar) first ∧
    ∀ resp, first.first = .ok resp → client.manualFollow req = true → resp.Redirects →
      (req.messageAfter [resp]).2 = none

theorem eq_of_exec_of_result (hres : st.result.isSome = true)
    (hexec : (client.execution req signer).exec st rest = some st') : st' = st := by
  cases rest with
  | nil => exact (Option.some.inj hexec).symm
  | cons replies rest =>
    obtain ⟨s, hstep, -⟩ := Option.bind_eq_some_iff.1 hexec
    rw [(execution_step.1 hstep).1] at hres
    cases hres

theorem bodiesSent_append {n : ℕ} (h : st'.messages = st.messages ++ List.replicate n message) :
    st'.bodiesSent = st.bodiesSent + if message.2.isSome = true then n else 0 := by
  rw [ClientState.bodiesSent, h, countP_append, countP_replicate, ClientState.bodiesSent]

theorem bodiesSent_le (hsign : ∀ s ∈ signer, s.KeepsMessage)
    (hexec : (client.execution req signer).exec st rest = some st') :
    st.bodiesSent ≤ st'.bodiesSent := by
  refine (Machine.reachable_of_exec hexec).invariant
    (P := fun s => st.bodiesSent ≤ s.bodiesSent) le_rfl
    fun h hstep => h.trans ?_
  obtain ⟨hrun, rfl⟩ := execution_step.1 hstep
  obtain ⟨n, -, -, hmessages, -⟩ := client.hop_cases req hrun hsign _
  rw [bodiesSent_append hmessages]
  exact Nat.le_add_right _ _

/-- Once the body is dropped, no later request carries one. -/
theorem bodiesSent_eq_of_dropped (hsign : ∀ s ∈ signer, s.KeepsMessage)
    (hbody : st.message.2 = none) (hexec : (client.execution req signer).exec st rest = some st') :
    st'.bodiesSent = st.bodiesSent := by
  refine ((Machine.reachable_of_exec hexec).invariant
    (P := fun s => s.bodiesSent = st.bodiesSent ∧ (s.result = none → s.message.2 = none))
    ⟨rfl, fun _ => hbody⟩ fun {s s' replies} h hstep => ?_).1
  obtain ⟨hrun, rfl⟩ := execution_step.1 hstep
  have hnone := h.2 hrun
  obtain ⟨n, -, -, hmessages, hcases⟩ := client.hop_cases req hrun hsign replies
  refine ⟨?_, fun hrun' => ?_⟩
  · rw [bodiesSent_append hmessages, hnone, h.1]
    rfl
  · rcases hcases with ⟨e, he⟩ | ⟨-, resp, -, ⟨e, he⟩ | hf | hr⟩
    · cases he.symm.trans hrun'
    · cases he.symm.trans hrun'
    · rw [hf.message]
      unfold afterRedirect
      split
      all_goals first | exact hnone | rfl
    · obtain ⟨final, hres, -⟩ := hr.result
      cases hres.symm.trans hrun'

/-- A message that is still to be sent is sent in an execution that returns a response. -/
theorem lt_bodiesSent (hsign : ∀ s ∈ signer, s.KeepsMessage) (hrun : st.result = none)
    (hbody : st.message.2.isSome = true) {final : HttpResponse}
    (hexec : (client.execution req signer).exec st rest = some st')
    (hfinal : st'.result = some (.ok final)) : st.bodiesSent < st'.bodiesSent := by
  cases rest with
  | nil =>
    cases Option.some.inj hexec
    cases hrun.symm.trans hfinal
  | cons replies rest =>
    obtain ⟨s, hstep, hexec⟩ := Option.bind_eq_some_iff.1 hexec
    obtain ⟨-, rfl⟩ := execution_step.1 hstep
    obtain ⟨n, -, -, hmessages, ⟨e, he⟩ | ⟨hn, -⟩⟩ := client.hop_cases req hrun hsign replies
    · rw [eq_of_exec_of_result (by rw [he]; rfl) hexec, he] at hfinal
      cases hfinal
    · have hle := bodiesSent_le hsign hexec
      rw [bodiesSent_append hmessages, if_pos hbody] at hle
      omega

theorem bodiesSent_eq_one_iff (hsign : ∀ s ∈ signer, s.KeepsMessage)
    (hbody : req.body.isSome = true) {final : HttpResponse}
    (hexec : (client.execution req signer).exec (start req session jar)
      (first :: rest) = some st) (hfinal : st.result = some (.ok final)) :
    st.bodiesSent = 1 ↔ client.SentOnce req signer session jar first := by
  obtain ⟨st₁, hstep, hexec⟩ := Option.bind_eq_some_iff.1 hexec
  obtain ⟨hrun, rfl⟩ := execution_step.1 hstep
  have hbody : (start req session jar : ClientState U J σ).message.2.isSome = true := by
    rw [← hbody]
    exact Option.isSome_map
  have hne {e : TropelError}
      (he : (client.hop req signer (start req session jar) first).result = some (.error e)) :
        False := by
    rw [eq_of_exec_of_result (by rw [he]; rfl) hexec, he] at hfinal
    cases hfinal
  have hle := bodiesSent_le hsign hexec
  obtain ⟨n, -, -, hmessages, hcases⟩ := client.hop_cases req hrun hsign first
  have hcount := bodiesSent_append hmessages
  rw [if_pos hbody, show (start req session jar : ClientState U J σ).bodiesSent = 0 from rfl,
    Nat.zero_add] at hcount
  rcases hcases with ⟨e, he⟩ | ⟨⟨hanswers, rfl⟩ | ⟨hanswers, rfl⟩, resp, hresp, hcases⟩
  · exact (hne he).elim
  · exact iff_of_false (by omega) fun h => h.1 hanswers
  have hresp := hresp rfl
  rcases hcases with ⟨e, he⟩ | hf | hr
  · exact (hne he).elim
  · -- The first response is a redirect that is followed.
    have hmessage : (client.hop req signer (start req session jar) first).message =
        req.messageAfter [resp] := hf.message
    have honce : client.SentOnce req signer session jar first ↔
        (req.messageAfter [resp]).2 = none := by
      refine ⟨fun h => h.2 resp hresp hf.manualFollow hf.redirects, fun h => ⟨hanswers, ?_⟩⟩
      intro resp' hresp' _ _
      cases hresp.symm.trans hresp'
      exact h
    rw [honce]
    cases hkept : (req.messageAfter [resp]).2 with
    | none =>
      have heq := bodiesSent_eq_of_dropped hsign (hmessage ▸ hkept) hexec
      exact iff_of_true (heq.trans hcount) rfl
    | some body =>
      have hlt := lt_bodiesSent hsign hf.running (by rw [hmessage, hkept]; rfl) hexec hfinal
      exact iff_of_false (by omega) nofun
  · obtain ⟨final', hres, -⟩ := hr.result
    rw [eq_of_exec_of_result (by rw [hres]; rfl) hexec]
    refine iff_of_true hcount ⟨hanswers, fun resp' hresp' hfollow hredirects => ?_⟩
    cases hresp.symm.trans hresp'
    exact absurd hredirects (hr.last hfollow)

end HttpClient

section Example

open HttpClient

def plainRunner : Runner where
  scenarioTags := []
  statusIsExpected status := status < 400
  methodToString _ := "POST"
  errorToString _ := "HTTP error"

def postItem : RunnerItem := ⟨"post", postRequest.body⟩

theorem reportedOnce {rs : List Replies}
    (h : ((plainClient.execution postRequest (some onDemand)).exec
      (start postRequest () none) rs).any (fun st => st.bytesSent = 4 &&
        st.result.any fun r => r.toOption.any fun final => final.reportedSize = 2) = true) :
          ∃ st final,
    (plainClient.execution postRequest (some onDemand)).exec (start postRequest () none) rs =
      some st ∧
    st.result = some (.ok final) ∧ st.bytesSent = 4 ∧ final.reportedSize = 2 ∧
    (valuesOf "data_sent"
      (plainRunner.samples postRequest postItem (fun _ => ⟨0, none⟩) 0 (.ok final))).sum = 2 := by
  obtain ⟨st, hst, hvalues⟩ := (Option.any_eq_true _ _).1 h
  rw [Bool.and_eq_true, decide_eq_true_eq] at hvalues
  obtain ⟨final, hfinal, hsize⟩ := exists_final hvalues.2
  rw [decide_eq_true_eq] at hsize
  refine ⟨st, final, hst, hfinal, hvalues.1, hsize, ?_⟩
  rw [Runner.sum_dataSent]
  exact congrArg _ hsize

end Example

end Tropel
