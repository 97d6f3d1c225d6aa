import Tropel.Lib.IndexMap
import Tropel.Lib.Layers
import Tropel.Metrics.MetricRef
import Tropel.Scheduler.Validation

/-!
# The configuration of a run

A run is configured by flags, by a file, and by environment variables `K6_*`.

* `respects_iff`: when their order is respected.
-/

namespace Tropel

open Lib Option IndexMap

/-! ## Sections -/

inductive OutputField
  | reporters | outputFile | prometheusRemoteWriteUrl | otlpEndpoint | summaryExport | jsonStream
  | statsdAddr | influxdbAddr | summary | trends
  deriving DecidableEq

inductive HttpField
  | expectedStatuses | maxIdleConnections | keepAlive | idleConnectionTimeout | requestTimeout
  | http2 | http2Connections | userAgent | decompress | discardResponseBodies | maxRedirects
  | noRedirects | histogramMaxMs | dnsTtl | dnsSelect | dnsPolicy | noConnectionReuse
  | noVuConnectionReuse | rps | hosts | blacklistIps | maxResponseBytes | proxy | httpDebug
  | httpDebugFull
  deriving DecidableEq

inductive TlsField
  | insecureSkipVerify | minVersion | maxVersion | clientCert | clientKey | clientPassphrase
  | allowedCiphers | rootCertPaths | keepSystemRoots
  deriving DecidableEq

def OutputField.Value : OutputField → Type
  | reporters => List String
  | summary | trends => Bool
  | _ => Option String

def TlsField.Value : TlsField → Type
  | insecureSkipVerify | keepSystemRoots => Bool
  | allowedCiphers | rootCertPaths => List String
  | _ => Option String

abbrev OutputConfig := (f : OutputField) → f.Value

abbrev TlsConfig := (f : TlsField) → f.Value

structure Host where
  Json : Type
  ScenarioConfig : Type
  ExpectedStatus : Type
  ProxyConfig : Type
  range : String → ExpectedStatus
  proxy : ProxyConfig
  output : OutputConfig
  fromMode : String → Option ℕ → Option String → Option ℕ → Option String → ExecutionConfig
  loadDataFile : String → Option (List (IndexMap String Json))
  parseDuration : String → Result TropelError ℕ

def HttpField.Value (E : Host) : HttpField → Type
  | expectedStatuses => List E.ExpectedStatus
  | maxIdleConnections | http2Connections | maxRedirects => ℕ
  | keepAlive | idleConnectionTimeout | requestTimeout | dnsTtl | dnsSelect | dnsPolicy =>
    Option String
  | http2 | decompress | discardResponseBodies | noRedirects | noConnectionReuse
  | noVuConnectionReuse | httpDebug | httpDebugFull => Bool
  | userAgent => String
  | histogramMaxMs | maxResponseBytes => Option ℕ
  | rps => Option ℚ
  | hosts => IndexMap String String
  | blacklistIps => List String
  | proxy => E.ProxyConfig

abbrev HttpConfig (E : Host) := (f : HttpField) → f.Value E

def TlsConfig.default : TlsConfig
  | .insecureSkipVerify => false
  | .keepSystemRoots => true
  | .allowedCiphers | .rootCertPaths => ([] : List String)
  | .minVersion | .maxVersion | .clientCert | .clientKey | .clientPassphrase =>
    (none : Option String)

variable (E : Host)

def HttpConfig.default : HttpConfig E
  | .expectedStatuses => [E.range "200-399"]
  | .maxIdleConnections => (2 ^ 64 - 1 : ℕ)
  | .keepAlive | .idleConnectionTimeout => some "30s"
  | .requestTimeout | .dnsTtl | .dnsSelect | .dnsPolicy => (none : Option String)
  | .http2 | .decompress => true
  | .http2Connections => (1 : ℕ)
  | .userAgent => "Tropel/0.1.0"
  | .maxRedirects => (10 : ℕ)
  | .discardResponseBodies | .noRedirects | .noConnectionReuse | .noVuConnectionReuse | .httpDebug
  | .httpDebugFull => false
  | .histogramMaxMs | .maxResponseBytes => (none : Option ℕ)
  | .rps => (none : Option ℚ)
  | .hosts => (∅ : IndexMap String String)
  | .blacklistIps => ([] : List String)
  | .proxy => E.proxy

abbrev Row := IndexMap String E.Json

structure PartialConfigOf (O H T : Type) where
  inputType : Option String
  execution : Option ExecutionConfig
  scenarios : Option (IndexMap String E.ScenarioConfig)
  env : IndexMap String String
  globals : IndexMap String E.Json
  collectionVars : IndexMap String E.Json
  dataFile : Option String
  iterationData : List (Row E)
  thresholds : IndexMap String ThresholdConfig
  output : Option O
  http : Option H
  tls : Option T
  extensions : IndexMap String E.Json
  executionSegment : Option String
  executionSegmentSequence : Option String
  controlPort : Option ℕ

abbrev PartialConfig := PartialConfigOf E OutputConfig (HttpConfig E) TlsConfig

abbrev WrittenConfig := PartialConfigOf E (Layer OutputField.Value) (Layer (HttpField.Value E))
    (Layer TlsField.Value)

structure JobConfig where
  input : String
  inputType : Option String
  execution : ExecutionConfig
  scenarios : IndexMap String E.ScenarioConfig
  env : IndexMap String String
  globals : IndexMap String E.Json
  collectionVars : IndexMap String E.Json
  dataFile : Option String
  iterationData : List (Row E)
  thresholds : IndexMap String ThresholdConfig
  noThresholds : Bool
  output : OutputConfig
  http : HttpConfig E
  tls : TlsConfig
  extensions : IndexMap String E.Json
  executionExplicit : Bool
  executionSegment : Option String
  executionSegmentSequence : Option String
  distributedWorker : Bool
  controlPort : Option ℕ

structure CliArgs where
  input : String
  format : Option String
  vus : Option ℕ
  duration : Option String
  env : List String
  envFile : List (String × String)
  dataFile : Option String
  reporter : Option (List String)
  output : Option String
  prometheusUrl : Option String
  otlpEndpoint : Option String
  summaryExport : Option String
  jsonStream : Option String
  statsdAddr : Option String
  influxdbAddr : Option String
  executionSegment : Option String
  executionSegmentSequence : Option String
  threshold : List String
  controlPort : Option ℕ
  insecure : Bool
  httpDebug : Option String
  noRedirects : Bool
  noThresholds : Bool
  mode : Option String
  stages : Option String
  iterations : Option ℕ

/-! ## Flags -/

def Host.rows (path : String) : List (Row E) := (E.loadDataFile path).getD []

namespace CliArgs

variable (a : CliArgs)

def envMap : IndexMap String String :=
  a.envFile.foldl (fun m e => m.insert e.1 e.2) <|
    a.env.foldl (fun m e => match splitOnce '=' e.toList with
      | some (key, value) => m.insert (String.ofList key) (String.ofList value)
      | none => m) ∅

def thresholdMap : IndexMap String ThresholdConfig :=
  if a.noThresholds then ∅
  else a.threshold.foldl (fun m t => m.insert ("threshold_" ++ toString m.length)
    ⟨t, false, none⟩) ∅

def loadProfileExplicit : Bool :=
  a.vus.isSome || a.duration.isSome || a.mode.isSome || a.stages.isSome || a.iterations.isSome

def execution : ExecutionConfig :=
  E.fromMode (a.mode.getD "constant-vus") a.vus a.duration a.iterations a.stages

def reporters : List String := a.reporter.getD ["stdout"]

def httpDebugFull (mode : String) : Bool := mode.toList.map Char.toLower = "full"

def outputConfig : OutputConfig
  | .reporters => a.reporters
  | .outputFile => a.output
  | .prometheusRemoteWriteUrl => a.prometheusUrl
  | .otlpEndpoint => a.otlpEndpoint
  | .summaryExport => a.summaryExport
  | .jsonStream => a.jsonStream
  | .statsdAddr => a.statsdAddr
  | .influxdbAddr => a.influxdbAddr
  | .summary => E.output .summary
  | .trends => E.output .trends

def httpConfig : HttpConfig E
  | .httpDebug => a.httpDebug.isSome
  | .httpDebugFull => (a.httpDebug.map httpDebugFull).getD false
  | .noRedirects => a.noRedirects
  | f => HttpConfig.default E f

def tlsConfig : TlsConfig
  | .insecureSkipVerify => a.insecure
  | f => TlsConfig.default f

def jobConfig : JobConfig E where
  input := a.input
  inputType := a.format
  execution := a.execution E
  scenarios := ∅
  env := a.envMap
  globals := ∅
  collectionVars := ∅
  dataFile := none
  iterationData := (a.dataFile.map E.rows).getD []
  thresholds := a.thresholdMap
  noThresholds := a.noThresholds
  output := a.outputConfig E
  http := a.httpConfig E
  tls := a.tlsConfig
  extensions := ∅
  executionExplicit := a.loadProfileExplicit
  executionSegment := a.executionSegment
  executionSegmentSequence := a.executionSegmentSequence
  distributedWorker := false
  controlPort := a.controlPort

end CliArgs

/-! ## The overlay -/

section Maps

variable {κ σ : Type} [DecidableEq κ]

def extendMap (m other : IndexMap κ σ) : IndexMap κ σ :=
  other.entries.foldl (fun m e => m.insert e.1 e.2) m

def fillMap (m other : IndexMap κ σ) : IndexMap κ σ :=
  other.entries.foldl (fun m e => if (m.get e.1).isSome then m else m.insert e.1 e.2) m

end Maps

variable {E}

def mergePartial {O H T : Type}
    (base file : PartialConfigOf E O H T) : PartialConfigOf E O H T where
  inputType := file.inputType.or base.inputType
  execution := file.execution.or base.execution
  scenarios := file.scenarios.or base.scenarios
  env := extendMap base.env file.env
  globals := extendMap base.globals file.globals
  collectionVars := extendMap base.collectionVars file.collectionVars
  dataFile := file.dataFile.or base.dataFile
  iterationData := if file.iterationData = [] then base.iterationData else file.iterationData
  thresholds := extendMap base.thresholds file.thresholds
  output := file.output.or base.output
  http := file.http.or base.http
  tls := file.tls.or base.tls
  extensions := extendMap base.extensions file.extensions
  executionSegment := file.executionSegment.or base.executionSegment
  executionSegmentSequence := file.executionSegmentSequence.or base.executionSegmentSequence
  controlPort := file.controlPort.or base.controlPort

def overlayOutput (cliReporters : List String) (config out : OutputConfig) : OutputConfig
  | .reporters =>
    let reporters : List String := out .reporters
    if cliReporters = ["stdout"] ∧ reporters ≠ [] then reporters else config .reporters
  | .outputFile => Option.or (config .outputFile) (out .outputFile)
  | .prometheusRemoteWriteUrl =>
    Option.or (config .prometheusRemoteWriteUrl) (out .prometheusRemoteWriteUrl)
  | .otlpEndpoint => Option.or (config .otlpEndpoint) (out .otlpEndpoint)
  | .summaryExport => Option.or (config .summaryExport) (out .summaryExport)
  | .jsonStream => Option.or (config .jsonStream) (out .jsonStream)
  | .statsdAddr => Option.or (config .statsdAddr) (out .statsdAddr)
  | .influxdbAddr => Option.or (config .influxdbAddr) (out .influxdbAddr)
  | .summary => out .summary
  | .trends => out .trends

def overlayTls (cliInsecure : Bool) (tls : TlsConfig) : TlsConfig
  | .insecureSkipVerify => if cliInsecure then true else tls .insecureSkipVerify
  | f => tls f

def overlayData (iterationData : List (Row E)) (overlay : PartialConfig E)
    (iterationDataIsEmpty : Bool) :
    List (Row E) :=
  let loaded :=
    if overlay.dataFile.isSome ∧ overlay.iterationData ≠ [] then iterationData
    else if iterationDataIsEmpty then
      match overlay.dataFile with
      | some path => (E.loadDataFile path).getD iterationData
      | none => iterationData
    else iterationData
  if overlay.iterationData ≠ [] then overlay.iterationData else loaded

def applyOverlay (config : JobConfig E) (overlay : PartialConfig E) (cliReporters : List String)
    (cliInsecure cliLoadProfileExplicit iterationDataIsEmpty : Bool) : JobConfig E :=
  let execution := if cliLoadProfileExplicit then none else overlay.execution
  { config with
    inputType := config.inputType.or overlay.inputType
    execution := execution.getD config.execution
    executionExplicit := config.executionExplicit || execution.isSome
    executionSegment := config.executionSegment.or overlay.executionSegment
    executionSegmentSequence := config.executionSegmentSequence.or overlay.executionSegmentSequence
    controlPort := config.controlPort.or overlay.controlPort
    env := fillMap config.env overlay.env
    thresholds := fillMap config.thresholds overlay.thresholds
    output := overlay.output.elim config.output (overlayOutput cliReporters config.output)
    scenarios := (overlay.scenarios.filter fun m => m.entries ≠ []).getD config.scenarios
    http := overlay.http.getD config.http
    tls := overlay.tls.elim config.tls (overlayTls cliInsecure)
    globals := if overlay.globals.entries = [] then config.globals
      else extendMap config.globals overlay.globals
    collectionVars :=
      if overlay.collectionVars.entries = [] then config.collectionVars
      else extendMap config.collectionVars overlay.collectionVars
    iterationData := overlayData config.iterationData overlay iterationDataIsEmpty
    extensions :=
      if overlay.extensions.entries = [] then config.extensions
      else extendMap config.extensions overlay.extensions }

variable (a : CliArgs)

def runCommand (env : PartialConfig E)
    (file : Option (PartialConfig E)) : Result TropelError (JobConfig E) := do
  let overlay := file.elim env (mergePartial env)
  let config := a.jobConfig E
  let config := applyOverlay config overlay a.reporters a.insecure a.loadProfileExplicit
    config.iterationData.isEmpty
  validateExecutionConfig E.parseDuration config.execution
  return config

/-! ## Settings -/

inductive Setting
  | inputType
  | execution
  | scenarios
  | env (key : String)
  | globalVar (key : String)
  | collectionVar (key : String)
  | iterationData
  | threshold (key : String)
  | noThresholds
  | output (f : OutputField)
  | http (f : HttpField)
  | tls (f : TlsField)
  | extension (key : String)
  | executionSegment
  | executionSegmentSequence
  | controlPort
  deriving DecidableEq

variable (E) in
def Setting.Value : Setting → Type
  | inputType | env _ | executionSegment | executionSegmentSequence => String
  | execution => ExecutionConfig
  | scenarios => IndexMap String E.ScenarioConfig
  | globalVar _ | collectionVar _ | extension _ => E.Json
  | iterationData => List (Row E)
  | threshold _ => ThresholdConfig
  | noThresholds => Bool
  | output f => f.Value
  | http f => f.Value E
  | tls f => f.Value
  | controlPort => ℕ

def JobConfig.get (c : JobConfig E) : Layer (Setting.Value E)
  | .inputType => c.inputType
  | .execution => some c.execution
  | .scenarios => some c.scenarios
  | .env key => c.env.get key
  | .globalVar key => c.globals.get key
  | .collectionVar key => c.collectionVars.get key
  | .iterationData => some c.iterationData
  | .threshold key => c.thresholds.get key
  | .noThresholds => some c.noThresholds
  | .output f => some (c.output f)
  | .http f => some (c.http f)
  | .tls f => some (c.tls f)
  | .extension key => c.extensions.get key
  | .executionSegment => c.executionSegment
  | .executionSegmentSequence => c.executionSegmentSequence
  | .controlPort => c.controlPort

namespace WrittenConfig

def empty : WrittenConfig E :=
  ⟨none, none, none, ∅, ∅, ∅, none, [], ∅, none, none, none, ∅, none, none, none⟩

def toPartial (w : WrittenConfig E) : PartialConfig E where
  inputType := w.inputType
  execution := w.execution
  scenarios := w.scenarios
  env := w.env
  globals := w.globals
  collectionVars := w.collectionVars
  dataFile := w.dataFile
  iterationData := w.iterationData
  thresholds := w.thresholds
  output := w.output.map (Layer.fill E.output)
  http := w.http.map (Layer.fill (HttpConfig.default E))
  tls := w.tls.map (Layer.fill TlsConfig.default)
  extensions := w.extensions
  executionSegment := w.executionSegment
  executionSegmentSequence := w.executionSegmentSequence
  controlPort := w.controlPort

def data (w : WrittenConfig E) : Option (List (Row E)) :=
  if w.iterationData ≠ [] then some w.iterationData else w.dataFile.map E.rows

def gives (w : WrittenConfig E) : Layer (Setting.Value E)
  | .inputType => w.inputType
  | .execution => w.execution
  | .scenarios => w.scenarios
  | .env key => w.env.get key
  | .globalVar key => w.globals.get key
  | .collectionVar key => w.collectionVars.get key
  | .iterationData => w.data
  | .threshold key => w.thresholds.get key
  | .noThresholds => none
  | .output f => Layer.ofSection w.output f
  | .http f => Layer.ofSection w.http f
  | .tls f => Layer.ofSection w.tls f
  | .extension key => w.extensions.get key
  | .executionSegment => w.executionSegment
  | .executionSegmentSequence => w.executionSegmentSequence
  | .controlPort => w.controlPort

theorem toPartial_mergePartial (base file : WrittenConfig E) :
    mergePartial base.toPartial file.toPartial = toPartial (mergePartial base file) := by
  rw [mergePartial, mergePartial, toPartial, toPartial, toPartial]
  simp only [map_or]

theorem mergePartial_empty (base : WrittenConfig E) : mergePartial base empty = base := by
  rw [mergePartial]
  rfl

end WrittenConfig

def CliArgs.givesOutput : Layer OutputField.Value
  | .reporters => a.reporter
  | .outputFile => a.output.map some
  | .prometheusRemoteWriteUrl => a.prometheusUrl.map some
  | .otlpEndpoint => a.otlpEndpoint.map some
  | .summaryExport => a.summaryExport.map some
  | .jsonStream => a.jsonStream.map some
  | .statsdAddr => a.statsdAddr.map some
  | .influxdbAddr => a.influxdbAddr.map some
  | .summary | .trends => (none : Option Bool)

variable (E) in
def CliArgs.givesHttp : Layer (HttpField.Value E)
  | .httpDebug => a.httpDebug.map fun _ => true
  | .httpDebugFull => a.httpDebug.map httpDebugFull
  | .noRedirects => if a.noRedirects then some true else none
  | _ => none

def CliArgs.givesTls : Layer TlsField.Value
  | .insecureSkipVerify => if a.insecure then some true else none
  | _ => none

def CliArgs.gives : Layer (Setting.Value E)
  | .inputType => a.format
  | .execution => if a.loadProfileExplicit then some (a.execution E) else none
  | .env key => a.envMap.get key
  | .iterationData => a.dataFile.map E.rows
  | .threshold key => a.thresholdMap.get key
  | .noThresholds => if a.noThresholds then some true else none
  | .output f => a.givesOutput f
  | .http f => a.givesHttp E f
  | .tls f => a.givesTls f
  | .executionSegment => a.executionSegment
  | .executionSegmentSequence => a.executionSegmentSequence
  | .controlPort => a.controlPort
  | .scenarios | .globalVar _ | .collectionVar _ | .extension _ => none

/-! ## What the engine gets -/

section Maps

variable {κ σ : Type} [DecidableEq κ]

theorem get_extendMap (m other : IndexMap κ σ) (k : κ) :
    (extendMap m other).get k = (other.get k).or (m.get k) :=
  get_foldl_insert other m k

theorem get_fillMap (m other : IndexMap κ σ) (k : κ) :
    (fillMap m other).get k = (m.get k).or (other.get k) := by
  suffices hsuff : ∀ (l : List (κ × σ)) (m : IndexMap κ σ),
      (l.foldl (fun m e => if (m.get e.1).isSome then m else m.insert e.1 e.2) m).get k =
        (m.get k).or (find k l) from hsuff other.entries m
  intro l
  induction l with
  | nil => intro m; exact (or_none).symm
  | cons e l ih =>
    intro m
    rw [List.foldl_cons, ih, find]
    by_cases he : e.1 = k
    · subst he
      cases hm : m.get e.1 with
      | none => simp [get_insert]
      | some v => simp [hm]
    · rw [if_neg he]
      split
      · rfl
      · rw [get_insert, if_neg (Ne.symm he)]

theorem get_extendMap_empty (m : IndexMap κ σ) (k : κ) :
    (if m.entries = [] then ∅ else extendMap ∅ m).get k = m.get k := by
  split
  next h => rw [IndexMap.get_empty, IndexMap.get, h, IndexMap.find]
  next => rw [get_extendMap, get_empty, or_none]

omit [DecidableEq κ] in
theorem getD_filter_entries {m : Option (IndexMap κ σ)} {v : IndexMap κ σ} (h : m = some v) :
    (m.filter fun m => m.entries ≠ []).getD ∅ = v := by
  rw [h, filter_some]
  split
  · rfl
  next hv =>
    obtain ⟨entries, hnodup⟩ := v
    obtain rfl : entries = [] := by simpa using hv
    rfl

end Maps

def handed (file env : WrittenConfig E) : JobConfig E :=
  applyOverlay (a.jobConfig E)
    (WrittenConfig.toPartial (mergePartial env file)) a.reporters a.insecure
    a.loadProfileExplicit (a.jobConfig E).iterationData.isEmpty

theorem eq_handed_of_runCommand {a : CliArgs} {env : WrittenConfig E}
    {file : Option (WrittenConfig E)} {config : JobConfig E}
    (h : runCommand a env.toPartial (file.map WrittenConfig.toPartial) = .ok config) :
    config = handed a (file.getD WrittenConfig.empty) env := by
  obtain ⟨-, -, h⟩ := bind_eq_ok.1 h
  obtain rfl := Except.ok.inj h
  cases file with
  | none =>
    rw [getD_none, handed, WrittenConfig.mergePartial_empty]
    rfl
  | some w =>
    rw [getD_some, handed, ← WrittenConfig.toPartial_mergePartial]
    rfl

section Handed

variable {a : CliArgs} {file env : WrittenConfig E}

def layers (a : CliArgs) (file env : WrittenConfig E) : List (Layer (Setting.Value E)) :=
  [a.gives, file.gives, env.gives]

theorem first_layers (s : Setting) :
    Layer.first (layers a file env) s = (a.gives s).or ((file.gives s).or (env.gives s)) :=
  Layer.first_three ..

theorem get_handed_of_first {s : Setting} (hdata : s ≠ .iterationData)
    (houtput : ∀ f, s ≠ .output f) (hhttp : ∀ f, s ≠ .http f) (htls : ∀ f, s ≠ .tls f)
    {v : s.Value E} (h : Layer.first (layers a file env) s = some v) :
    (handed a file env).get s = some v := by
  rw [first_layers] at h
  cases s with
  | iterationData => exact absurd rfl hdata
  | output f => exact absurd rfl (houtput f)
  | http f => exact absurd rfl (hhttp f)
  | tls f => exact absurd rfl (htls f)
  | inputType | executionSegment | executionSegmentSequence | controlPort => exact h
  | env key | threshold key =>
    refine Eq.trans (get_fillMap ..) ?_
    refine Eq.trans (congrArg _ (get_extendMap ..)) h
  | execution =>
    refine congrArg some ?_
    change getD (if a.loadProfileExplicit then none else file.execution.or env.execution)
      (a.execution E) = v
    change (if a.loadProfileExplicit then some (a.execution E) else none).or
      (file.execution.or env.execution) =
      some v at h
    split at h
    next hexplicit =>
      rw [if_pos hexplicit]
      exact some_injective _ h
    next hexplicit =>
      rw [none_or] at h
      rw [if_neg hexplicit, h]
      rfl
  | scenarios =>
    exact congrArg some (getD_filter_entries h)
  | noThresholds =>
    refine congrArg some ?_
    change (if a.noThresholds then some true else none).or none = some v at h
    change a.noThresholds = v
    split at h
    next hno =>
      rw [hno]
      exact some_injective _ h
    next => cases h
  | globalVar key | collectionVar key
  | extension key => exact (get_extendMap_empty ..).trans ((get_extendMap ..).trans h)

theorem iterationData_handed : (handed a file env).iterationData =
    if (mergePartial env file).iterationData ≠ [] then (mergePartial env file).iterationData
    else if (a.dataFile.map E.rows).getD [] = []
      then ((mergePartial env file).dataFile.map E.rows).getD []
    else (a.dataFile.map E.rows).getD [] := by
  change overlayData _ _ _ = _
  rw [overlayData]
  change (if (mergePartial env file).iterationData ≠ [] then _ else _) = _
  split
  · rfl
  next hrows =>
    rw [if_neg fun h => hrows h.2]
    change (if ((a.dataFile.map E.rows).getD []).isEmpty = true then _ else _) = _
    by_cases hempty : (a.dataFile.map E.rows).getD [] = []
    · rw [if_pos (List.isEmpty_iff.2 hempty), if_pos hempty]
      change (match (mergePartial env file).dataFile with
        | some path => (E.loadDataFile path).getD ((a.dataFile.map E.rows).getD [])
        | none => (a.dataFile.map E.rows).getD []) = _
      rw [hempty]
      cases (mergePartial env file).dataFile <;> rfl
    · rw [if_neg (mt List.isEmpty_iff.1 hempty), if_neg hempty]
      rfl

theorem data_eq_flag_iff {path : String} (hdata : a.dataFile = some path) :
    (handed a file env).iterationData = E.rows path ↔
      ((mergePartial env file).iterationData ≠ [] →
        (mergePartial env file).iterationData = E.rows path) ∧
      (E.rows path = [] → (mergePartial env file).iterationData = [] →
        ((mergePartial env file).dataFile.map E.rows).getD [] = []) := by
  rw [iterationData_handed, hdata, map_some, getD_some]
  constructor
  · refine fun h => ⟨fun hne => ?_, fun hpath hnone => ?_⟩
    · rwa [if_pos hne] at h
    · rwa [if_neg (not_not_intro hnone), if_pos hpath, hpath] at h
  · rintro ⟨hrows, hempty⟩
    split
    next hne => exact hrows hne
    next hnone =>
      split
      next hpath => rw [hempty hpath (not_not.1 hnone), hpath]
      next => rfl

theorem data_respected_iff_of_no_flag (hdata : a.dataFile = none) :
    (∀ v, file.data.or env.data = some v → (handed a file env).iterationData = v) ↔
      (file.iterationData = [] → env.iterationData ≠ [] →
        ∀ path, file.dataFile = some path → env.iterationData = E.rows path) := by
  have hmerge : (mergePartial env file).iterationData =
      if file.iterationData = [] then env.iterationData else file.iterationData := rfl
  have hpath : (mergePartial env file).dataFile = file.dataFile.or env.dataFile := rfl
  simp only [iterationData_handed, hdata, map_none, getD_none, if_true, hmerge, hpath]
  rw [WrittenConfig.data]
  by_cases hfile : file.iterationData = []
  · rw [if_neg (not_not_intro hfile)]
    simp only [hfile, if_true, true_imp_iff]
    rcases hfilePath : file.dataFile with _ | path
    · refine iff_of_true (fun v h => ?_) nofun
      rw [map_none, none_or, WrittenConfig.data] at h
      rw [none_or]
      split at h
      next hne =>
        rw [if_pos hne]
        exact some.inj h
      next hnone => rw [if_neg hnone, h, getD_some]
    · simp only [map_some, some_or, getD_some, some.injEq, forall_eq']
      refine ⟨fun h hne => by rwa [if_pos hne] at h, fun h => ?_⟩
      split
      next hne => exact h hne
      next => rfl
  · rw [if_pos hfile, some_or]
    refine iff_of_true (fun v h => ?_) fun h => absurd h hfile
    rw [if_neg hfile, if_pos hfile]
    exact some.inj h

theorem data_respected_iff : (∀ v, Layer.first (layers a file env) .iterationData = some v →
      (handed a file env).get .iterationData = some v) ↔
      (∀ rows, a.dataFile.map E.rows = some rows → (mergePartial env file).iterationData ≠ [] →
        (mergePartial env file).iterationData = rows) ∧
      (a.dataFile.map E.rows = some [] → (mergePartial env file).iterationData = [] →
        ((mergePartial env file).dataFile.map E.rows).getD [] = []) ∧
      (a.dataFile = none → file.iterationData = [] → env.iterationData ≠ [] →
        ∀ path, file.dataFile = some path → env.iterationData = E.rows path) := by
  have hget (v : List (Row E)) : (handed a file env).get .iterationData = some v ↔
      (handed a file env).iterationData = v := some_inj
  simp only [first_layers]
  refine (forall₂_congr fun v _ => hget v).trans ?_
  change (∀ v, (a.dataFile.map E.rows).or (file.data.or env.data) = some v → _) ↔ _
  rcases hdata : a.dataFile with _ | path
  · simp only [map_none, none_or, reduceCtorEq, false_imp_iff, implies_true, true_and, true_imp_iff]
    exact data_respected_iff_of_no_flag hdata
  · simp only [map_some, some_or, some.injEq, forall_eq', reduceCtorEq, false_imp_iff, and_true]
    exact data_eq_flag_iff hdata

/-! ### Sections -/

theorem first_http (f : HttpField) : Layer.first (layers a file env) (.http f) =
    (a.givesHttp E f).or (Layer.first [Layer.ofSection file.http, Layer.ofSection env.http] f) := by
  rw [first_layers, Layer.first_two]
  rfl

theorem first_tls (f : TlsField) : Layer.first (layers a file env) (.tls f) =
    (a.givesTls f).or (Layer.first [Layer.ofSection file.tls, Layer.ofSection env.tls] f) := by
  rw [first_layers, Layer.first_two]
  rfl

theorem first_output (f : OutputField) : Layer.first (layers a file env) (.output f) =
    (a.givesOutput f).or
      (Layer.first [Layer.ofSection file.output, Layer.ofSection env.output] f) := by
  rw [first_layers, Layer.first_two]
  rfl

theorem httpConfig_of_gives {f : HttpField} {v : f.Value E} (h : a.givesHttp E f = some v) :
    a.httpConfig E f = v := by
  cases f with
  | httpDebug =>
    obtain ⟨mode, hmode, rfl⟩ := map_eq_some_iff.1 h
    exact congrArg isSome hmode
  | httpDebugFull =>
    change a.httpDebug.map CliArgs.httpDebugFull = some v at h
    change (a.httpDebug.map CliArgs.httpDebugFull).getD false = v
    rw [h]
    rfl
  | noRedirects =>
    change (if a.noRedirects then some true else none) = some v at h
    split at h
    next hno =>
      cases h
      exact hno
    next => cases h
  | _ => cases h

theorem insecure_of_gives {f : TlsField} {v : f.Value} (h : a.givesTls f = some v)
    (tls : TlsConfig) :
    a.tlsConfig f = v ∧ overlayTls a.insecure tls f = v := by
  cases f with
  | insecureSkipVerify =>
    change (if a.insecure then some true else none) = some v at h
    split at h
    next hinsecure =>
      cases h
      exact ⟨hinsecure, if_pos hinsecure⟩
    next => cases h
  | _ => cases h

theorem overlayTls_of_not_gives {f : TlsField} (h : a.givesTls f = none) (tls : TlsConfig) :
    overlayTls a.insecure tls f = tls f := by
  cases f with
  | insecureSkipVerify =>
    change (if a.insecure then some true else none) = none at h
    split at h
    next => cases h
    next hinsecure => exact if_neg hinsecure
  | _ => rfl

variable {w : Layer OutputField.Value} {f : OutputField}

theorem overlayOutput_of_gives (hf : f ≠ .reporters) {v : f.Value} (h : a.givesOutput f = some v)
    (out : OutputConfig) :
    a.outputConfig E f = v ∧ overlayOutput a.reporters (a.outputConfig E) out f = v := by
  cases f with
  | reporters => exact absurd rfl hf
  | summary | trends => cases h
  | _ =>
    obtain ⟨path, hpath, rfl⟩ := Option.map_eq_some_iff.1 h
    exact ⟨hpath, congrArg (Option.or · _) hpath⟩

theorem overlayOutput_of_not_gives (hf : f ≠ .reporters) (h : a.givesOutput f = none)
    (out : OutputConfig) : overlayOutput a.reporters (a.outputConfig E) out f = out f := by
  cases f with
  | reporters => exact absurd rfl hf
  | summary | trends => rfl
  | _ => exact congrArg (Option.or · _) (Option.map_eq_none_iff.1 h)

theorem http_handed_of_some {w : Layer (HttpField.Value E)} (h : file.http.or env.http = some w) :
    (handed a file env).http = w.fill (HttpConfig.default E) := by
  change ((file.http.or env.http).map _).getD _ = _
  rw [h]
  rfl

theorem tls_handed_of_some {w : Layer TlsField.Value} (h : file.tls.or env.tls = some w) :
    (handed a file env).tls = overlayTls a.insecure (w.fill TlsConfig.default) := by
  change ((file.tls.or env.tls).map _).elim _ _ = _
  rw [h]
  rfl

theorem output_handed_of_some (h : file.output.or env.output = some w) :
    (handed a file env).output =
      overlayOutput a.reporters (a.outputConfig E) (w.fill E.output) := by
  change ((file.output.or env.output).map _).elim _ _ = _
  rw [h]
  rfl

theorem http_respected_iff (f : HttpField) :
    (∀ v, Layer.first (layers a file env) (.http f) = some v →
      (handed a file env).get (.http f) = some v) ↔
      (∀ v w, a.givesHttp E f = some v → file.http.or env.http = some w →
        w.fill (HttpConfig.default E) f = v) ∧
      ∀ v, a.givesHttp E f = none → Layer.Shadowed file.http env.http f v →
        HttpConfig.default E f = v := by
  have hget (v : f.Value E) :
      (handed a file env).get (.http f) = some v ↔ (handed a file env).http f = v := some_inj
  have hflag (v : f.Value E) (hv : a.givesHttp E f = some v) (hw : file.http.or env.http = none) :
      (handed a file env).http f = v := by
    change ((file.http.or env.http).map _).getD (a.httpConfig E) f = v
    rw [hw]
    exact httpConfig_of_gives hv
  have hfill (w : Layer (HttpField.Value E)) (hw : file.http.or env.http = some w) :
      (handed a file env).http f = w.fill (HttpConfig.default E) f :=
        congrFun (http_handed_of_some hw) f
  have hiff := Layer.respected_at_iff hflag fun w hw _ => hfill w hw
  simp only [first_http]
  refine (forall₂_congr fun v _ => hget v).trans (hiff.trans (and_congr_left' ?_))
  refine forall₄_congr fun v w _ hw => ?_
  rw [hfill w hw]

theorem tls_respected_iff (f : TlsField) :
    (∀ v, Layer.first (layers a file env) (.tls f) = some v →
      (handed a file env).get (.tls f) = some v) ↔
      ∀ v, a.givesTls f = none → Layer.Shadowed file.tls env.tls f v → TlsConfig.default f = v := by
  have hget (v : f.Value) :
      (handed a file env).get (.tls f) = some v ↔ (handed a file env).tls f = v := some_inj
  have hflag (v : f.Value) (hv : a.givesTls f = some v) (hw : file.tls.or env.tls = none) :
      (handed a file env).tls f = v := by
    change ((file.tls.or env.tls).map _).elim a.tlsConfig _ f = v
    rw [hw]
    exact (insecure_of_gives hv TlsConfig.default).1
  have hfill (w : Layer TlsField.Value) (hw : file.tls.or env.tls = some w)
      (hf : a.givesTls f = none) :
      (handed a file env).tls f = w.fill TlsConfig.default f := by
    rw [tls_handed_of_some hw, overlayTls_of_not_gives hf]
  have hiff := Layer.respected_at_iff hflag hfill
  simp only [first_tls]
  refine (forall₂_congr fun v _ => hget v).trans (hiff.trans (and_iff_right ?_))
  intro v w hv hw
  rw [tls_handed_of_some hw]
  exact (insecure_of_gives hv _).2

theorem output_respected_iff (hf : f ≠ .reporters) :
    (∀ v, Layer.first (layers a file env) (.output f) = some v →
      (handed a file env).get (.output f) = some v) ↔
      ∀ v, a.givesOutput f = none → Layer.Shadowed file.output env.output f v → E.output f = v := by
  have hget (v : f.Value) :
      (handed a file env).get (.output f) = some v ↔ (handed a file env).output f = v := some_inj
  have hflag (v : f.Value) (hv : a.givesOutput f = some v) (hw : file.output.or env.output = none) :
      (handed a file env).output f = v := by
    change ((file.output.or env.output).map _).elim (a.outputConfig E) _ f = v
    rw [hw]
    exact (overlayOutput_of_gives hf hv E.output).1
  have hfill (w : Layer OutputField.Value) (hw : file.output.or env.output = some w)
      (hnone : a.givesOutput f = none) :
      (handed a file env).output f = w.fill E.output f := by
    rw [output_handed_of_some hw, overlayOutput_of_not_gives hf hnone]
  have hiff := Layer.respected_at_iff hflag hfill
  simp only [first_output]
  refine (forall₂_congr fun v _ => hget v).trans (hiff.trans (and_iff_right ?_))
  intro v w hv hw
  rw [output_handed_of_some hw]
  exact (overlayOutput_of_gives hf hv _).2

theorem reporters_handed (hw : file.output.or env.output = some w) {out : List String}
    (hout : w.fill E.output .reporters = out) :
    (handed a file env).output .reporters = if a.reporters = ["stdout"] ∧
      out ≠ [] then out else a.reporters := by
  subst hout
  rw [output_handed_of_some hw]
  rfl

variable (E) in
def defaultReporters : List String :=
  let reporters : List String := E.output .reporters
  if reporters ≠ [] then reporters else ["stdout"]

theorem reporters_eq_flag_iff {r : List String} (hreporter : a.reporter = some r) :
    (handed a file env).output .reporters = r ↔ ∀ w (out : List String), r = ["stdout"] →
      file.output.or env.output = some w → w.fill E.output .reporters = out →
        out = [] ∨ out = ["stdout"] := by
  have hreporters : a.reporters = r := by rw [CliArgs.reporters, hreporter, getD_some]
  constructor
  · rintro h w out rfl hw hout
    rw [reporters_handed hw hout, hreporters] at h
    by_cases hempty : out = []
    · exact .inl hempty
    · rw [if_pos ⟨rfl, hempty⟩] at h
      exact .inr h
  · intro h
    rcases hw : file.output.or env.output with _ | w
    · change ((file.output.or env.output).map _).elim (a.outputConfig E) _ .reporters = r
      rw [hw]
      exact hreporters
    · obtain ⟨out, hout⟩ : ∃ out : List String, w.fill E.output .reporters = out := ⟨_, rfl⟩
      rw [reporters_handed hw hout, hreporters]
      split
      next hr =>
        obtain ⟨rfl, hne⟩ := hr
        exact (h w out rfl hw hout).resolve_left hne
      next => rfl

section

variable {w : Layer OutputField.Value} (hreporter : a.reporter = none)
  (hw : file.output.or env.output = some w)
include hreporter hw

theorem reporters_handed_of_no_flag {out : List String} (hout : w.fill E.output .reporters = out) :
    (handed a file env).output .reporters = if out ≠ [] then out else ["stdout"] := by
  have hreporters : a.reporters = ["stdout"] := by rw [CliArgs.reporters, hreporter, getD_none]
  rw [reporters_handed hw hout, hreporters]
  simp only [true_and]
  rfl

theorem reporters_handed_of_none (hnone : w .reporters = none) :
    (handed a file env).output .reporters = defaultReporters E := by
  have hfill : w.fill E.output .reporters = E.output .reporters := by rw [Layer.fill, hnone]; rfl
  rw [reporters_handed_of_no_flag hreporter hw hfill]
  rfl

end

theorem reporters_respected_iff_of_no_flag (hreporter : a.reporter = none) :
    (∀ v : List String,
      Layer.first [Layer.ofSection file.output, Layer.ofSection env.output] .reporters = some v →
        (handed a file env).output .reporters = v) ↔
      (∀ v : List String,
        Layer.first [Layer.ofSection file.output, Layer.ofSection env.output] .reporters = some v →
          v ≠ []) ∧
      ∀ v : List String, Layer.Shadowed file.output env.output .reporters v →
        defaultReporters E = v := by
  constructor
  · refine fun h => ⟨fun v hv hempty => ?_, fun v hv => ?_⟩
    · obtain ⟨w, hw, -⟩ := Layer.exists_section hv
      obtain ⟨out, hout⟩ : ∃ out : List String, w.fill E.output .reporters = out := ⟨_, rfl⟩
      have hr := h v hv
      rw [reporters_handed_of_no_flag hreporter hw hout, hempty] at hr
      split at hr
      next hne => exact hne hr
      next => cases hr
    · obtain ⟨w, hstrong, hnone, -⟩ := id hv
      have hw : file.output.or env.output = some w := by rw [hstrong, some_or]
      rw [← reporters_handed_of_none hreporter hw hnone]
      exact h v hv.first_eq
  · rintro ⟨hne, hshadowed⟩ v hv
    obtain ⟨w, hw, hgiven | ⟨hnone, hv'⟩⟩ := Layer.exists_section hv
    · have hfill : w.fill E.output .reporters = v := by rw [Layer.fill, hgiven]; rfl
      rw [reporters_handed_of_no_flag hreporter hw hfill, if_pos (hne v hv)]
    · rw [reporters_handed_of_none hreporter hw hnone]
      exact hshadowed v hv'

theorem reporters_respected_iff :
    (∀ v, Layer.first (layers a file env) (.output .reporters) = some v →
        (handed a file env).get (.output .reporters) = some v) ↔
      (∀ w (out : List String), a.reporter = some ["stdout"] → file.output.or env.output = some w →
        w.fill E.output .reporters = out → out = [] ∨ out = ["stdout"]) ∧
      (∀ v : List String, a.reporter = none →
        Layer.first [Layer.ofSection file.output, Layer.ofSection env.output] .reporters = some v →
          v ≠ []) ∧
      ∀ v : List String, a.reporter = none → Layer.Shadowed file.output env.output .reporters v →
        defaultReporters E = v := by
  have hget (v : List String) : (handed a file env).get (.output .reporters) = some v ↔
      (handed a file env).output .reporters = v := some_inj
  have hflag : a.givesOutput .reporters = a.reporter := rfl
  simp only [first_output, hflag]
  refine (forall₂_congr fun v _ => hget v).trans ?_
  rcases hreporter : a.reporter with _ | r
  · simp only [reduceCtorEq, false_imp_iff, implies_true, forall_const, true_and]
    exact reporters_respected_iff_of_no_flag hreporter
  · simp only [reduceCtorEq, false_imp_iff, implies_true, and_true, some.injEq]
    refine Iff.trans ⟨fun h => h r rfl, fun h v hv => ?_⟩ (reporters_eq_flag_iff hreporter)
    have hr : some r = some v := hv
    exact h.trans (some.inj hr)

end Handed

/-! ## Precedence -/

structure NoClash (a : CliArgs) (file env : WrittenConfig E) : Prop where
  cliData : ∀ rows, a.dataFile.map E.rows = some rows → (mergePartial env file).iterationData ≠ [] →
    (mergePartial env file).iterationData = rows
  noRows : a.dataFile.map E.rows = some [] → (mergePartial env file).iterationData = [] →
    ((mergePartial env file).dataFile.map E.rows).getD [] = []
  fileData : a.dataFile = none → file.iterationData = [] → env.iterationData ≠ [] →
    ∀ path, file.dataFile = some path → env.iterationData = E.rows path
  httpFlags : ∀ f v w, a.givesHttp E f = some v → file.http.or env.http = some w →
    w.fill (HttpConfig.default E) f = v
  http : ∀ f v, a.givesHttp E f = none → Layer.Shadowed file.http env.http f v →
    HttpConfig.default E f = v
  tls : ∀ f v, a.givesTls f = none → Layer.Shadowed file.tls env.tls f v → TlsConfig.default f = v
  output : ∀ f v, f ≠ .reporters → a.givesOutput f = none →
    Layer.Shadowed file.output env.output f v →
    E.output f = v
  reporters : ∀ v : List String, a.reporter = none →
    Layer.Shadowed file.output env.output .reporters v →
    defaultReporters E = v
  someReporter : ∀ v : List String, a.reporter = none →
    Layer.first [Layer.ofSection file.output, Layer.ofSection env.output] .reporters = some v →
      v ≠ []
  stdout : ∀ w (out : List String), a.reporter = some ["stdout"] →
    file.output.or env.output = some w →
    w.fill E.output .reporters = out → out = [] ∨ out = ["stdout"]

/-- The flags, the file and the environment have their settings in this order if and only if they
    do not clash. -/
theorem respects_iff {a : CliArgs} {env : WrittenConfig E} {file : Option (WrittenConfig E)}
    {config : JobConfig E}
    (h : runCommand a env.toPartial (file.map WrittenConfig.toPartial) = .ok config) :
    Layer.Respects [a.gives, (file.getD WrittenConfig.empty).gives, env.gives] config.get ↔
      NoClash a (file.getD WrittenConfig.empty) env := by
  obtain rfl := eq_handed_of_runCommand h
  constructor
  · intro hrespects
    obtain ⟨cliData, noRows, fileData⟩ := data_respected_iff.1 fun v => hrespects .iterationData v
    obtain ⟨stdout, someReporter, reporters⟩ := reporters_respected_iff.1 fun v =>
      hrespects (.output .reporters) v
    exact
      { cliData, noRows, fileData, stdout, someReporter, reporters
        httpFlags := fun f => ((http_respected_iff f).1 fun v => hrespects (.http f) v).1
        http := fun f => ((http_respected_iff f).1 fun v => hrespects (.http f) v).2
        tls := fun f => (tls_respected_iff f).1 fun v => hrespects (.tls f) v
        output := fun f v hf => (output_respected_iff hf).1 (fun v => hrespects (.output f) v) v }
  · intro hclash s v hv
    by_cases hs : s = .iterationData
    · subst hs
      exact data_respected_iff.2 ⟨hclash.cliData, hclash.noRows, hclash.fileData⟩ v hv
    cases s with
    | output f =>
      by_cases hf : f = .reporters
      · subst hf
        exact reporters_respected_iff.2 ⟨hclash.stdout, hclash.someReporter, hclash.reporters⟩ v hv
      · exact (output_respected_iff hf).2 (fun v => hclash.output f v hf) v hv
    | http f => exact (http_respected_iff f).2 ⟨hclash.httpFlags f, hclash.http f⟩ v hv
    | tls f => exact (tls_respected_iff f).2 (hclash.tls f) v hv
    | _ => exact get_handed_of_first hs nofun nofun nofun hv

def Host.sample : Host where
  Json := Unit
  ScenarioConfig := Unit
  ExpectedStatus := String
  ProxyConfig := Unit
  range := id
  proxy := ()
  output
    | .reporters => ([] : List String)
    | .summary | .trends => false
    | .outputFile | .prometheusRemoteWriteUrl | .otlpEndpoint | .summaryExport | .jsonStream
    | .statsdAddr | .influxdbAddr => (none : Option String)
  fromMode _ vus duration _ _ :=
    .constantVus (vus.getD 1) (duration.getD "30s") (some "30s") default
  loadDataFile _ := none
  parseDuration := parseSeconds

def CliArgs.withoutRedirects : CliArgs where
  input := "test.js"
  format := none
  vus := none
  duration := none
  env := []
  envFile := []
  dataFile := none
  reporter := none
  output := none
  prometheusUrl := none
  otlpEndpoint := none
  summaryExport := none
  jsonStream := none
  statsdAddr := none
  influxdbAddr := none
  executionSegment := none
  executionSegmentSequence := none
  threshold := []
  controlPort := none
  insecure := false
  httpDebug := none
  noRedirects := true
  noThresholds := false
  mode := none
  stages := none
  iterations := none

def WrittenConfig.minVersion : WrittenConfig Host.sample :=
  { WrittenConfig.empty with tls := some fun
      | .minVersion => some (some "1.2")
      | _ => none }

theorem respects_outputFile : ∃ (env : WrittenConfig Host.sample) (config : JobConfig Host.sample),
    runCommand .withoutRedirects env.toPartial (some WrittenConfig.minVersion.toPartial) =
      .ok config ∧
      (config.http .noRedirects : Bool) = true ∧
        (config.output .outputFile : Option String) = some "out.json" ∧
      Layer.Respects [CliArgs.withoutRedirects.gives, WrittenConfig.minVersion.gives,
        env.gives] config.get := by
  let env : WrittenConfig Host.sample :=
    { WrittenConfig.empty with output := some fun
        | .outputFile => some (some "out.json")
        | _ => none }
  let config := handed .withoutRedirects WrittenConfig.minVersion env
  have hrun : runCommand .withoutRedirects env.toPartial
      ((some WrittenConfig.minVersion).map WrittenConfig.toPartial) =
      .ok config := rfl
  refine ⟨env, config, hrun, rfl, rfl, (respects_iff hrun).2 ?_⟩
  exact
    { cliData := nofun
      noRows := nofun
      fileData := fun _ _ h => absurd rfl h
      httpFlags := fun _ _ _ _ h => nomatch h
      http := fun _ _ _ ⟨_, h, _⟩ => nomatch h
      tls := fun _ _ _ ⟨_, _, _, h⟩ => nomatch h
      output := fun _ _ _ _ ⟨_, h, _⟩ => nomatch h
      reporters := fun _ _ ⟨_, h, _⟩ => nomatch h
      someReporter := fun _ _ h => nomatch h
      stdout := fun _ _ h => nomatch h }

theorem runCommand_clash :
    ∃ (file env : WrittenConfig Host.sample) (config : JobConfig Host.sample),
    runCommand .withoutRedirects env.toPartial (some file.toPartial) = .ok config ∧
      CliArgs.withoutRedirects.noRedirects = true ∧ (config.http .noRedirects : Bool) = false ∧
      file.gives (.tls .insecureSkipVerify) = none ∧
        env.gives (.tls .insecureSkipVerify) = some true ∧
      (config.tls .insecureSkipVerify : Bool) = false ∧
      ¬ Layer.Respects [CliArgs.withoutRedirects.gives, file.gives, env.gives] config.get := by
  let file : WrittenConfig Host.sample :=
    { WrittenConfig.minVersion with http := some fun
        | .userAgent => some "test"
        | _ => none }
  let env : WrittenConfig Host.sample :=
    { WrittenConfig.empty with tls := some fun
        | .insecureSkipVerify => some true
        | _ => none }
  refine ⟨file, env, handed .withoutRedirects file env, rfl, rfl, rfl, rfl, rfl, rfl, fun h => ?_⟩
  have hhttp : some false = some true := h (.http .noRedirects) true rfl
  cases hhttp

end Tropel
