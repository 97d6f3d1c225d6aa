import Tropel.Collection.Postman
import Tropel.Metrics.Thresholds

/-!
# Load runs of the agent

The agent sends the requests of a scenario some number of times and evaluates thresholds
on the outcome, in one piece (`runLoad`) or with a chunk for each iteration
(`runLoadStreaming`).

* `faithful_iff`: when the verdict is about what was to be sent.
-/

namespace Tropel

open Lib List

def evalThreshold (expr : String) (reqs failed : ℕ) : Except String Bool :=
  match splitWhitespace expr.toList with
  | [metric, op, value] => do
    let actual ← match String.ofList metric with
      | "http_reqs" => .ok (F64.num reqs)
      | "http_req_failed" => .ok (F64.num (if reqs = 0 then 0 else failed / reqs))
      | other => .error s!"unsupported threshold metric '{other}'"
    let text := String.ofList value
    let threshold ← match parseF64 value with
      | some v => .ok v
      | none => .error s!"invalid threshold value '{text}'"
    let other := String.ofList op
    match Operator.parse op with
    | some op => .ok (op.holds actual threshold)
    | none => .error s!"unknown operator '{other}'"
  | _ => .error s!"invalid threshold '{expr}': expected '<metric> <op> <value>'"

structure LoadThreshold where
  name : String
  expression : String
  passed : Bool
  error : Option String
  actual : Option F64
  threshold : Option F64
  deriving DecidableEq

def loadThreshold (iterations failures : ℕ) (name expr : String) : LoadThreshold :=
  match evalThreshold expr iterations failures with
  | .error e =>
    { name, expression := expr, passed := false, error := some e, actual := none
      threshold := none }
  | .ok passed =>
    { name
      expression := expr
      passed
      error := none
      actual := some (.num (if "http_req_failed".toList.isPrefixOf expr.toList ∧ 0 < iterations then
        failures / iterations else iterations))
      threshold := ((splitWhitespace expr.toList)[2]?).bind parseF64 }

structure LoadVerdict where
  results : List LoadThreshold
  passed : Bool
  deriving DecidableEq

def thresholdVerdict (thresholds : IndexMap String String)
    (iterations failures : ℕ) : LoadVerdict :=
  let results := thresholds.entries.map fun t => loadThreshold iterations failures t.1 t.2
  { results := results.insertionSort fun a b => a.name ≤ b.name
    passed := results.all LoadThreshold.passed }

variable {C R : Type}

structure LoadClient (C R : Type) where
  url : R → String
  getSigner : AuthConfig → C → Except String Unit × C
  execute : ScenarioRequest R → C → Except String ℕ × ℕ × C

structure LoadSample where
  iteration : ℕ
  url : String
  status : ℕ
  durationMs : ℕ
  error : Option String
  deriving DecidableEq

structure Sending (R : Type) where
  request : ScenarioRequest R
  failed : Bool

structure Attempt (C R : Type) where
  sample : LoadSample
  failed : Bool
  unsupported : Option String
  sent : Option (Sending R)
  client : C

def LoadClient.attempt (client : LoadClient C R) (it : ℕ) (request : ScenarioRequest R)
    (c : C) : Attempt C R :=
  let url := client.url request.converted
  let (signer, c) := match request.auth with
    | some auth => client.getSigner auth c
    | none => (.ok (), c)
  match signer with
  | .error msg =>
    { sample := { iteration := it, url, status := 0, durationMs := 0, error := some msg }
      failed := true
      unsupported := some msg
      sent := none
      client := c }
  | .ok () =>
    let (result, elapsed, c) := client.execute request c
    let (status, ok, error) := match result with
      | .ok status => (status, decide (200 ≤ status ∧ status < 400), none)
      | .error e => (0, false, some e)
    { sample := { iteration := it, url, status, durationMs := elapsed, error }
      failed := !ok
      unsupported := none
      sent := some ⟨request, !ok⟩
      client := c }

/-- The signer of a request is supported. -/
def LoadClient.Signs (client : LoadClient C R) (request : ScenarioRequest R) (c : C) : Prop :=
  ∀ auth, request.auth = some auth → (client.getSigner auth c).1 = .ok ()

theorem LoadClient.attempt_unsupported_iff (client : LoadClient C R) (it : ℕ)
    (request : ScenarioRequest R) (c : C) :
    (client.attempt it request c).unsupported = none ↔ client.Signs request c := by
  rw [attempt, Signs]
  cases request.auth with
  | none => exact iff_of_true rfl fun _ h => absurd h (Option.some_ne_none _).symm
  | some auth =>
    dsimp only
    split <;> simp_all

theorem LoadClient.attempt_cases (client : LoadClient C R) (it : ℕ) (request : ScenarioRequest R)
    (c : C) :
    ((client.attempt it request c).sent = some ⟨request, (client.attempt it request c).failed⟩ ∧
      (client.attempt it request c).unsupported = none) ∨
    ((client.attempt it request c).sent = none ∧ (client.attempt it request c).failed = true ∧
      ∃ msg, (client.attempt it request c).unsupported = some msg) := by
  rw [attempt]
  dsimp only
  split
  next msg _ => exact .inr ⟨rfl, rfl, msg, rfl⟩
  next => exact .inl ⟨rfl, rfl⟩

/-! ## In one piece -/

structure LoadState (C R : Type) where
  samples : List LoadSample
  totalFailures : ℕ
  unsupportedErrors : List String
  client : C
  sent : List (Sending R)

namespace LoadState

variable (client : LoadClient C R)

def start (c : C) : LoadState C R :=
  { samples := [], totalFailures := 0, unsupportedErrors := [], client := c, sent := [] }

def add (st : LoadState C R) (a : Attempt C R) : LoadState C R where
  samples := st.samples ++ [a.sample]
  totalFailures := if a.failed then st.totalFailures + 1 else st.totalFailures
  unsupportedErrors := match a.unsupported with
    | some msg =>
      if msg ∈ st.unsupportedErrors then st.unsupportedErrors else st.unsupportedErrors ++ [msg]
    | none => st.unsupportedErrors
  client := a.client
  sent := st.sent ++ a.sent.toList

def item (it : ℕ) (st : LoadState C R) (item : ScenarioItem R) : LoadState C R :=
  match item.request with
  | some request => st.add (client.attempt it request st.client)
  | none => st

def iteration (items : List (ScenarioItem R)) (st : LoadState C R) (it : ℕ) : LoadState C R :=
  items.foldl (item client it) st

def run (items : List (ScenarioItem R)) (iterations : ℕ) (c : C) : LoadState C R :=
  (List.range iterations).foldl (iteration client items) (start c)

end LoadState

structure LoadReport where
  iterations : ℕ
  samples : List LoadSample
  failures : ℕ
  hasFailures : Bool
  thresholds : LoadVerdict
  unsupportedAuth : Option (List String)

def runLoad (client : LoadClient C R) (items : List (ScenarioItem R)) (iterations : ℕ)
    (thresholds : IndexMap String String) (c : C) : LoadReport :=
  let st := LoadState.run client items iterations c
  { iterations
    samples := st.samples
    failures := st.totalFailures
    hasFailures := 0 < st.totalFailures
    thresholds := thresholdVerdict thresholds iterations st.totalFailures
    unsupportedAuth := if st.unsupportedErrors = [] then none else some st.unsupportedErrors }

/-! ## In chunks -/

structure LoadChunk where
  iteration : ℕ
  samples : List LoadSample
  failures : ℕ
  deriving DecidableEq

structure StreamState (C R : Type) where
  batch : List LoadSample
  totalFailures : ℕ
  chunks : List LoadChunk
  client : C
  sent : List (Sending R)

namespace StreamState

variable (client : LoadClient C R)

def start (c : C) : StreamState C R :=
  { batch := [], totalFailures := 0, chunks := [], client := c, sent := [] }

def add (st : StreamState C R) (a : Attempt C R) : StreamState C R where
  batch := st.batch ++ [a.sample]
  totalFailures := if a.failed then st.totalFailures + 1 else st.totalFailures
  chunks := st.chunks
  client := a.client
  sent := st.sent ++ a.sent.toList

def item (it : ℕ) (st : StreamState C R) (item : ScenarioItem R) : StreamState C R :=
  match item.request with
  | some request => st.add (client.attempt it request st.client)
  | none => st

def iteration (items : List (ScenarioItem R)) (st : StreamState C R) (it : ℕ) : StreamState C R :=
  let st := items.foldl (item client it) { st with batch := [] }
  { st with chunks := st.chunks ++ [⟨it, st.batch, st.totalFailures⟩] }

def run (items : List (ScenarioItem R)) (iterations : ℕ) (c : C) : StreamState C R :=
  (List.range iterations).foldl (iteration client items) (start c)

end StreamState

structure StreamVerdict where
  iterations : ℕ
  failures : ℕ
  hasFailures : Bool
  thresholds : LoadVerdict

def runLoadStreaming (client : LoadClient C R) (items : List (ScenarioItem R)) (iterations : ℕ)
    (thresholds : IndexMap String String) (c : C) : List LoadChunk × StreamVerdict :=
  let st := StreamState.run client items iterations c
  (st.chunks,
    { iterations
      failures := st.totalFailures
      hasFailures := 0 < st.totalFailures
      thresholds := thresholdVerdict thresholds iterations st.totalFailures })

structure SameSoFar (st : LoadState C R) (st' : StreamState C R) : Prop where
  samples : st.samples = st'.chunks.flatMap LoadChunk.samples ++ st'.batch
  totalFailures : st.totalFailures = st'.totalFailures
  client : st.client = st'.client
  sent : st.sent = st'.sent

namespace SameSoFar

variable {client : LoadClient C R} {st : LoadState C R} {st' : StreamState C R}

theorem item (h : SameSoFar st st') (it : ℕ) (item : ScenarioItem R) :
    SameSoFar (st.item client it item) (st'.item client it item) := by
  rw [LoadState.item, StreamState.item]
  cases item.request with
  | none => exact h
  | some request =>
    rw [h.client]
    refine ⟨?_, ?_, rfl, ?_⟩
    · exact (congrArg (· ++ _) h.samples).trans (append_assoc _ _ _)
    · dsimp only [LoadState.add, StreamState.add]
      rw [h.totalFailures]
    · exact congrArg (· ++ _) h.sent

theorem foldl_item (h : SameSoFar st st') (it : ℕ) (items : List (ScenarioItem R)) :
    SameSoFar (items.foldl (LoadState.item client it) st)
      (items.foldl (StreamState.item client it) st') := by
  induction items generalizing st st' with
  | nil => exact h
  | cons i items ih => exact ih (h.item it i)

end SameSoFar

variable (client : LoadClient C R) (items : List (ScenarioItem R)) (iterations : ℕ) (c : C)

theorem sameSoFar_run : SameSoFar (LoadState.run client items iterations c)
    { StreamState.run client items iterations c with batch := [] } := by
  induction iterations with
  | zero => exact ⟨rfl, rfl, rfl, rfl⟩
  | succ n ih =>
    rw [LoadState.run, StreamState.run, range_succ, foldl_append, foldl_append]
    have h : SameSoFar (items.foldl (LoadState.item client n) _)
        (items.foldl (StreamState.item client n) _) :=
      ih.foldl_item n items
    refine ⟨h.samples.trans ?_, h.totalFailures, h.client, h.sent⟩
    dsimp only [foldl_cons, foldl_nil, StreamState.iteration]
    rw [flatMap_append, flatMap_singleton, append_nil]
    rfl

theorem runLoadStreaming_eq (thresholds : IndexMap String String) :
    (LoadState.run client items iterations c).sent =
      (StreamState.run client items iterations c).sent ∧
    (runLoad client items iterations thresholds c).samples =
      (runLoadStreaming client items iterations thresholds c).1.flatMap LoadChunk.samples ∧
    (runLoad client items iterations thresholds c).thresholds =
      (runLoadStreaming client items iterations thresholds c).2.thresholds := by
  have h := sameSoFar_run client items iterations c
  refine ⟨h.sent, h.samples.trans (append_nil _), ?_⟩
  exact congrArg (thresholdVerdict thresholds iterations) h.totalFailures

/-! ## What was sent -/

def topRequests (items : List (ScenarioItem R)) : List (ScenarioRequest R) :=
  items.filterMap ScenarioItem.request

def requestLeaves (items : List (ScenarioItem R)) : List (ScenarioRequest R) :=
  (flattenExecutionItems items).filterMap ScenarioItem.request

namespace LoadState

variable {client} {attempted : List (ScenarioRequest R)} {st : LoadState C R}

structure Inv (attempted : List (ScenarioRequest R)) (st : LoadState C R) : Prop where
  sublist : (st.sent.map Sending.request).Sublist attempted
  failures : st.totalFailures + st.sent.length = st.sent.countP Sending.failed + attempted.length
  supported : st.unsupportedErrors = [] ↔ st.sent.length = attempted.length

theorem unsupportedErrors_add_eq_nil_iff {a : Attempt C R} :
    (st.add a).unsupportedErrors = [] ↔ st.unsupportedErrors = [] ∧ a.unsupported = none := by
  rw [add]
  cases a.unsupported with
  | none => simp
  | some msg =>
    dsimp only
    split
    next hmem => exact iff_of_false (ne_nil_of_mem hmem) fun h => Option.some_ne_none _ h.2
    next => simp

theorem inv_start (c : C) : Inv [] (start c : LoadState C R) :=
  ⟨List.Sublist.slnil, rfl, iff_of_true rfl rfl⟩

theorem Inv.add_sent (h : Inv attempted st) {a : Attempt C R} {request : ScenarioRequest R}
    (hsent : a.sent = some ⟨request, a.failed⟩) (hunsupported : a.unsupported = none) :
    Inv (attempted ++ [request]) (st.add a) := by
  have hfailures := h.failures
  have hlist : (st.add a).sent = st.sent ++ [⟨request, a.failed⟩] := by rw [add, hsent]; rfl
  refine ⟨?_, ?_, ?_⟩
  · rw [hlist, map_append]
    exact h.sublist.append (List.Sublist.refl _)
  · rw [hlist, countP_append, length_append, length_append]
    cases hfailed : a.failed with
    | true =>
      have : (st.add a).totalFailures = st.totalFailures + 1 := by rw [add, hfailed]; rfl
      simp
      omega
    | false =>
      have : (st.add a).totalFailures = st.totalFailures := by rw [add, hfailed]; rfl
      simp
      omega
  · rw [unsupportedErrors_add_eq_nil_iff, and_iff_left hunsupported, hlist, h.supported,
      length_append, length_append]
    simp

theorem Inv.add_unsupported (h : Inv attempted st) {a : Attempt C R} {msg : String}
    (request : ScenarioRequest R) (hsent : a.sent = none) (hfailed : a.failed = true)
    (hunsupported : a.unsupported = some msg) :
    Inv (attempted ++ [request]) (st.add a) := by
  have hfailures := h.failures
  have hlist : (st.add a).sent = st.sent := by rw [add, hsent]; exact append_nil _
  have htotal : (st.add a).totalFailures = st.totalFailures + 1 := by rw [add, hfailed]; rfl
  have herrors : (st.add a).unsupportedErrors ≠ [] := fun h =>
    Option.some_ne_none msg (hunsupported.symm.trans (unsupportedErrors_add_eq_nil_iff.1 h).2)
  refine ⟨?_, ?_, iff_of_false herrors ?_⟩
  · rw [hlist]
    exact h.sublist.trans (sublist_append_left _ _)
  · rw [hlist, htotal, length_append, length_singleton]
    omega
  · have hle := h.sublist.length_le
    rw [length_map] at hle
    rw [hlist, length_append, length_singleton]
    omega

theorem Inv.attempt (h : Inv attempted st) (client : LoadClient C R) (it : ℕ)
    (request : ScenarioRequest R) :
    Inv (attempted ++ [request]) (st.add (client.attempt it request st.client)) := by
  obtain ⟨hsent, hunsupported⟩ | ⟨hsent, hfailed, msg, hunsupported⟩ :=
    client.attempt_cases it request st.client
  · exact h.add_sent hsent hunsupported
  · exact h.add_unsupported request hsent hfailed hunsupported

theorem iteration_eq (client : LoadClient C R) (items : List (ScenarioItem R)) (st : LoadState C R)
    (it : ℕ) : st.iteration client items it = (topRequests items).foldl
      (fun st request => st.add (client.attempt it request st.client)) st := by
  rw [topRequests, foldl_filterMap, iteration]
  congr
  funext st item
  rw [LoadState.item]
  cases item.request <;> rfl

theorem Inv.iteration (h : Inv attempted st) (client : LoadClient C R)
    (items : List (ScenarioItem R)) (it : ℕ) :
    Inv (attempted ++ topRequests items) (st.iteration client items it) := by
  rw [iteration_eq]
  induction topRequests items generalizing attempted st with
  | nil => exact (append_nil attempted).symm ▸ h
  | cons request requests ih =>
    rw [← singleton_append, ← append_assoc]
    exact ih (h.attempt client it request)

theorem run_succ (client : LoadClient C R) (items : List (ScenarioItem R)) (n : ℕ) (c : C) :
    run client items (n + 1) c = (run client items n c).iteration client items n := by
  rw [run, range_succ, foldl_concat]
  rfl

theorem inv_run (client : LoadClient C R) (items : List (ScenarioItem R)) (iterations : ℕ) (c : C) :
    Inv (List.replicate iterations (topRequests items)).flatten
      (run client items iterations c) := by
  induction iterations with
  | zero => exact inv_start c
  | succ n ih =>
    rw [run_succ, replicate_succ', flatten_concat]
    exact ih.iteration client items n

theorem unsupportedErrors_run_eq_nil_iff {items : List (ScenarioItem R)}
    {request : ScenarioRequest R} (htop : topRequests items = [request]) (iterations : ℕ) (c : C) :
    (run client items iterations c).unsupportedErrors = [] ↔
      ∀ k < iterations, client.Signs request (run client items k c).client := by
  induction iterations with
  | zero => exact iff_of_true rfl fun _ hk => absurd hk (Nat.not_lt_zero _)
  | succ n ih =>
    rw [run_succ, iteration_eq, htop, foldl_cons, foldl_nil, unsupportedErrors_add_eq_nil_iff, ih,
      client.attempt_unsupported_iff, Nat.forall_lt_succ_right]

end LoadState

/-! ## The verdict -/

theorem actual_reqs (name : String) (n f : ℕ) :
    (loadThreshold n f name "http_reqs >= 0").actual = some (.num n) := by
  have hwords : splitWhitespace "http_reqs >= 0".toList = ["http_reqs".toList, ">=".toList,
      "0".toList] := by
    decide
  have hvalue : parseF64 "0".toList = some (.num 0) := by decide +kernel
  have heval : evalThreshold "http_reqs >= 0" n f = .ok (Operator.ge.holds (.num n) (.num 0)) := by
    rw [evalThreshold, hwords]
    dsimp only
    rw [String.ofList_toList, hvalue]
    rfl
  have hmetric : "http_req_failed".toList.isPrefixOf "http_reqs >= 0".toList = false := by decide
  rw [loadThreshold, heval]
  rw [hmetric, if_neg (fun h => Bool.false_ne_true h.1)]

theorem actual_failed (name : String) {n : ℕ} (hn : 0 < n) (f : ℕ) :
    (loadThreshold n f name "http_req_failed >= 0").actual = some (.num (f / n)) := by
  have hwords : splitWhitespace "http_req_failed >= 0".toList =
      ["http_req_failed".toList, ">=".toList, "0".toList] := by decide
  have hvalue : parseF64 "0".toList = some (.num 0) := by decide +kernel
  have heval : evalThreshold "http_req_failed >= 0" n f =
      .ok (Operator.ge.holds (.num (if n = 0 then 0 else f / n)) (.num 0)) := by
    rw [evalThreshold, hwords]
    dsimp only
    rw [String.ofList_toList, hvalue]
    rfl
  have hmetric : "http_req_failed".toList.isPrefixOf "http_req_failed >= 0".toList = true := by
    decide
  rw [loadThreshold, heval]
  dsimp only
  rw [hmetric, if_pos ⟨rfl, hn⟩]

def oneThreshold (expr : String) : IndexMap String String :=
  (∅ : IndexMap String String).insert "t" expr

theorem results_oneThreshold (expr : String) (n f : ℕ) :
    (thresholdVerdict (oneThreshold expr) n f).results = [loadThreshold n f "t" expr] := rfl

theorem eq_of_thresholdVerdict {n f n' f' : ℕ} (hn : 0 < n)
    (h : ∀ thresholds, thresholdVerdict thresholds n f = thresholdVerdict thresholds n' f') :
    n = n' ∧ f = f' := by
  have hline (expr : String) : loadThreshold n f "t" expr = loadThreshold n' f' "t" expr := by
    have := congrArg LoadVerdict.results (h (oneThreshold expr))
    rw [results_oneThreshold, results_oneThreshold] at this
    exact singleton_injective this
  have hreqs := congrArg LoadThreshold.actual (hline "http_reqs >= 0")
  rw [actual_reqs, actual_reqs, Option.some.injEq, F64.num.injEq, Nat.cast_inj] at hreqs
  subst hreqs
  have hfailed := congrArg LoadThreshold.actual (hline "http_req_failed >= 0")
  rw [actual_failed _ hn, actual_failed _ hn, Option.some.injEq, F64.num.injEq] at hfailed
  have hn' : (n : ℚ) ≠ 0 := Nat.cast_ne_zero.2 hn.ne'
  exact ⟨rfl, Nat.cast_injective ((div_left_inj' hn').1 hfailed)⟩

/-- Every request of the scenario is sent once in each iteration, in order; the verdict is
    that of the requests that were sent and of those of them that failed; and it does not
    depend on the variant. -/
structure Faithful (client : LoadClient C R) (items : List (ScenarioItem R)) (iterations : ℕ)
    (c : C) : Prop where
  sent : (LoadState.run client items iterations c).sent.map Sending.request =
    (List.replicate iterations (requestLeaves items)).flatten
  verdict : ∀ thresholds, (runLoad client items iterations thresholds c).thresholds =
    thresholdVerdict thresholds (LoadState.run client items iterations c).sent.length
      ((LoadState.run client items iterations c).sent.countP Sending.failed)
  streaming : ∀ thresholds, (runLoadStreaming client items iterations thresholds c).2.thresholds =
    (runLoad client items iterations thresholds c).thresholds

variable {client items iterations c}

theorem eq_of_flatten_replicate {α : Type*} {l l' : List α} {n : ℕ} (hn : 0 < n)
    (h : (List.replicate n l).flatten = (List.replicate n l').flatten) : l = l' := by
  have hlength : n * l.length = n * l'.length := by simpa using congrArg List.length h
  obtain ⟨n, rfl⟩ := Nat.exists_eq_succ_of_ne_zero hn.ne'
  rw [replicate_succ, replicate_succ, flatten_cons, flatten_cons] at h
  exact (append_inj h (Nat.eq_of_mul_eq_mul_left hn hlength)).1

theorem Faithful.eq_one (h : Faithful client items iterations c) (hpos : 0 < iterations) :
    (∃ request, topRequests items = [request] ∧ requestLeaves items = [request]) ∧
      (LoadState.run client items iterations c).unsupportedErrors = [] := by
  have hinv := LoadState.inv_run client items iterations c
  have hfailures := hinv.failures
  -- The verdict takes the iterations for the requests, and those not sent for failed ones.
  obtain ⟨hsent, hfailed⟩ := eq_of_thresholdVerdict hpos h.verdict
  have hlength : (LoadState.run client items iterations c).sent.length =
      (List.replicate iterations (topRequests items)).flatten.length := by omega
  have hall := hinv.sublist.eq_of_length ((length_map _).trans hlength)
  have htop : iterations * (topRequests items).length = iterations * 1 := by
    simpa [← hsent] using hlength.symm
  obtain ⟨request, hrequest⟩ := length_eq_one_iff.1 (Nat.eq_of_mul_eq_mul_left hpos htop)
  refine ⟨⟨request, hrequest, ?_⟩, hinv.supported.2 hlength⟩
  rw [← eq_of_flatten_replicate hpos (hall.symm.trans h.sent), hrequest]

theorem faithful_of_one {request : ScenarioRequest R} (htop : topRequests items = [request])
    (hleaves : requestLeaves items = [request])
    (hsupported : (LoadState.run client items iterations c).unsupportedErrors = []) :
    Faithful client items iterations c := by
  have hinv := LoadState.inv_run client items iterations c
  have hfailures := hinv.failures
  have hlength := hinv.supported.1 hsupported
  refine ⟨?_, fun thresholds => ?_, fun thresholds => ?_⟩
  · rw [hinv.sublist.eq_of_length ((length_map _).trans hlength), htop, hleaves]
  · have hreqs : (LoadState.run client items iterations c).sent.length = iterations := by
      simpa [htop] using hlength
    have htotal : (LoadState.run client items iterations c).totalFailures =
        (LoadState.run client items iterations c).sent.countP Sending.failed := by omega
    rw [hreqs, ← htotal]
    rfl
  · exact (runLoadStreaming_eq client items iterations c thresholds).2.2.symm

theorem faithful_zero : Faithful client items 0 c :=
  ⟨rfl, fun _ => rfl, fun thresholds => (runLoadStreaming_eq client items 0 c thresholds).2.2.symm⟩

/-- A run is faithful exactly if there are no iterations, or there is a single request, outside of
    folders, whose signer is supported by the client as each iteration finds it. -/
theorem faithful_iff (client : LoadClient C R) (items : List (ScenarioItem R)) (iterations : ℕ)
    (c : C) :
    Faithful client items iterations c ↔
      iterations = 0 ∨
        ∃ request, topRequests items = [request] ∧ requestLeaves items = [request] ∧
          ∀ k < iterations, client.Signs request (LoadState.run client items k c).client := by
  constructor
  · intro h
    rcases Nat.eq_zero_or_pos iterations with hzero | hpos
    · exact .inl hzero
    · obtain ⟨⟨request, htop, hleaves⟩, hsupported⟩ := h.eq_one hpos
      exact .inr ⟨request, htop, hleaves,
        (LoadState.unsupportedErrors_run_eq_nil_iff htop iterations c).1 hsupported⟩
  · rintro (rfl | ⟨request, htop, hleaves, hsigns⟩)
    · exact faithful_zero
    · exact faithful_of_one htop hleaves
        ((LoadState.unsupportedErrors_run_eq_nil_iff htop iterations c).2 hsigns)

def allOk : LoadClient Unit Unit where
  url _ := ""
  getSigner _ _ := (.ok (), ())
  execute _ _ := (.ok 200, 1, ())

def inFolder : List (ScenarioItem Unit) :=
  [{ id := none, name := "folder", request := none, prerequest := [], test := []
     items := [{ id := none, name := "request", request := some ⟨(), none⟩
                 prerequest := [], test := [], items := [] }] }]

theorem runLoad_inFolder : (requestLeaves inFolder).length = 1 ∧
    (LoadState.run allOk inFolder 1 ()).sent.length = 0 ∧
    (runLoad allOk inFolder 1 (oneThreshold "http_reqs >= 1") ()).thresholds.passed = true ∧
    ¬ Faithful allOk inFolder 1 () := by
  have hleaves : (requestLeaves inFolder).length = 1 := by decide
  refine ⟨hleaves, rfl, by decide +kernel, fun h => ?_⟩
  have hlength := congrArg List.length h.sent
  rw [length_map, replicate_one, flatten_singleton, hleaves] at hlength
  exact absurd hlength (by decide)

end Tropel
