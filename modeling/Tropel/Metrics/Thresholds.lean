import Tropel.Metrics.MetricValue
import Tropel.Metrics.ThresholdSyntax

/-!
# Thresholds

The thresholds of a run are validated before it starts (`validateThresholds`) and evaluated against
its results (`evaluateThresholds`).

* `evaluateThresholds_decides`: when the two agree.
-/

namespace Tropel

open Lib List Bool

variable {hdr : Hdr}

inductive Operator
  | lt | le | gt | ge | eq | ne
  deriving DecidableEq, Repr

namespace Operator

def parse (token : Text) : Option Operator :=
  match String.ofList token with
  | "<" => some lt
  | "<=" => some le
  | ">" => some gt
  | ">=" => some ge
  | "==" | "===" => some eq
  | "!=" => some ne
  | _ => none

def holds (op : Operator) (actual threshold : F64) : Bool :=
  match op with
  | lt => actual.lt threshold
  | le => actual.le threshold
  | gt => threshold.lt actual
  | ge => threshold.le actual
  | eq => (actual.dist threshold).lt (.num F64.epsilon)
  | ne => (F64.num F64.epsilon).lt (actual.dist threshold)

end Operator

def isKnownStat (stat : Text) : Bool :=
  ["avg", "min", "max", "p50", "median", "med", "p90", "p95", "p99", "count", "rate", "sum", "last",
    "value", "passed", "failed", "pass_rate"].contains (String.ofList stat) ||
    (parsePercentile stat).isSome

def validateClause (name : String) (expr clause : Text) : Except String Unit :=
  let e := String.ofList expr
  let c := String.ofList clause
  match braceAwareSplit clause with
  | [ref, op, value] =>
    let o := String.ofList op
    let v := String.ofList value
    if (Operator.parse op).isNone then
      .error s!"threshold '{name}': unknown operator '{o}' in clause '{c}' of '{e}'"
    else if (parseF64 value).isNone then .error s!"threshold '{name}': value '{v}' is not a number"
    else match (parseMetricRef ref).stat with
      | none => .ok ()
      | some stat =>
        let s := String.ofList stat
        if isKnownStat stat = false then
          .error s!"threshold '{name}': unknown statistic '{s}' in clause '{c}' of '{e}'"
        else match parsePercentile stat with
          | none => .ok ()
          | some pct =>
            if (F64.num 0).le pct && pct.le (.num 100) then .ok ()
            else .error (s!"threshold '{name}': percentile {s} is out of range (must be 0-100) " ++
              s!"in clause '{c}' of '{e}'")
  | parts =>
    let n := parts.length
    .error (s!"threshold '{name}': clause '{c}' in '{e}' — expected '<metric> <op> <value>' " ++
      s!"(3 tokens), got {n}")

def validateThresholds (thresholds : IndexMap String ThresholdConfig) : Except String Unit :=
  thresholds.entries.forM fun t =>
    let expr := trim t.2.expression.toList
    (compoundClauses expr).forM (validateClause t.1 expr)

/-! ## Evaluation -/

structure Outcome where
  passed : Bool
  actual : F64
  threshold : F64
  deriving DecidableEq

inductive ParsedThreshold
  | clause (operator : Text) (threshold : F64) (ref : MetricRef)
  | compound (groups : List (List ParsedThreshold))

namespace ParsedThreshold

def ofTokens (parts : List Text) : ParsedThreshold :=
  .clause (parts[1]?.getD []) ((parts[2]?.bind parseF64).getD (.num 0))
    (parseMetricRef (parts.headD []))

def parseFuel : ℕ → Text → ParsedThreshold
  | 0, e => ofTokens (splitWhitespace e)
  | fuel + 1, e =>
    if hasTwice '&' e || hasTwice '|' e then
      .compound ((plainGroups e).map fun g => g.map (parseFuel fuel))
    else ofTokens (splitWhitespace e)

def parse (e : Text) : ParsedThreshold := parseFuel (e.length + 1) e

def evaluateClause (r : MetricsResult hdr) (operator : Text) (threshold : F64)
    (ref : MetricRef) : Option Outcome :=
  if operator = [] then some ⟨false, .num 0, .num 0⟩
  else (metricValue r ref).map fun actual =>
    match Operator.parse operator with
    | some op => ⟨op.holds (.num actual) threshold, .num actual, threshold⟩
    | none => ⟨false, .num 0, threshold⟩

structure GroupState where
  passed : Bool
  hadData : Bool
  pair : F64 × F64

def GroupState.step (s : GroupState) : Option Outcome → GroupState
  | some o => ⟨s.passed && o.passed, true, (o.actual, o.threshold)⟩
  | none => { s with passed := false }

def groupState (outcomes : List (Option Outcome)) : GroupState :=
  outcomes.foldl GroupState.step ⟨true, false, (.num 0, .num 0)⟩

def GroupState.join (s g : GroupState) : GroupState where
  passed := s.passed || g.passed
  hadData := s.hadData || g.hadData
  pair := if s.passed then s.pair else if g.passed || g.hadData then g.pair else s.pair

def combine (groups : List (List (Option Outcome))) : Option Outcome :=
  let s := (groups.map groupState).foldl GroupState.join ⟨false, false, (.num 0, .num 0)⟩
  if s.hadData then some ⟨s.passed, s.pair.1, s.pair.2⟩ else none

mutual

def evaluate (r : MetricsResult hdr) : ParsedThreshold → Option Outcome
  | .clause operator threshold ref => evaluateClause r operator threshold ref
  | .compound groups => combine (evaluateGroups r groups)

def evaluateGroups (r : MetricsResult hdr) : List (List ParsedThreshold) →
    List (List (Option Outcome))
  | [] => []
  | g :: gs => evaluateGroup r g :: evaluateGroups r gs

def evaluateGroup (r : MetricsResult hdr) : List ParsedThreshold → List (Option Outcome)
  | [] => []
  | c :: cs => evaluate r c :: evaluateGroup r cs

end

end ParsedThreshold

def evaluateSingleThresholdOpt (e : Text) (r : MetricsResult hdr) : Option Outcome :=
  (ParsedThreshold.parse e).evaluate r

structure ThresholdResult where
  name : String
  expression : String
  passed : Bool
  noData : Bool
  actual : F64
  threshold : F64
  abortOnFail : Bool
  delayAbortEval : Option ℕ
  deriving DecidableEq

def thresholdResult (parseDuration : String → Option ℕ) (name : String) (config : ThresholdConfig)
    (outcome : Option Outcome) : ThresholdResult where
  name
  expression := config.expression
  passed := (outcome.map (·.passed)).getD false
  noData := outcome.isNone
  actual := (outcome.map (·.actual)).getD (.num 0)
  threshold := (outcome.map (·.threshold)).getD (.num 0)
  abortOnFail := config.abortOnFail
  delayAbortEval := config.delayAbortEval.bind parseDuration

def evaluateThresholds (parseDuration : String → Option ℕ)
    (thresholds : IndexMap String ThresholdConfig) (r : MetricsResult hdr) : List ThresholdResult :=
  (thresholds.entries.map fun t => thresholdResult parseDuration t.1 t.2
    (evaluateSingleThresholdOpt t.2.expression.toList r)).insertionSort fun a b => a.name ≤ b.name

/-! ## How an expression is evaluated -/

namespace ParsedThreshold

variable (r : MetricsResult hdr)

theorem evaluateGroup_eq (cs : List ParsedThreshold) :
    evaluateGroup r cs = cs.map (evaluate r) := by
  induction cs with
  | nil => rfl
  | cons c cs ih => rw [evaluateGroup, ih, map_cons]

theorem evaluateGroups_eq (gs : List (List ParsedThreshold)) :
    evaluateGroups r gs = gs.map fun g => g.map (evaluate r) := by
  induction gs with
  | nil => rfl
  | cons g gs ih => rw [evaluateGroups, evaluateGroup_eq, ih, map_cons]

variable {gs : List (List (Option Outcome))} {e : Text}

theorem parseFuel_of_not_hasTwice (fuel : ℕ) (h₁ : hasTwice '&' e = false)
    (h₂ : hasTwice '|' e = false) : parseFuel fuel e = ofTokens (splitWhitespace e) := by
  cases fuel with
  | zero => rfl
  | succ fuel =>
    rw [parseFuel, h₁, h₂]
    rfl

theorem combine_singleton (o : Option Outcome) : combine [[o]] = o := by
  rcases o with _ | ⟨_ | _, a, t⟩ <;> rfl

def groups : ParsedThreshold → List (List ParsedThreshold)
  | .clause operator threshold ref => [[.clause operator threshold ref]]
  | .compound groups => groups

theorem evaluate_eq_combine (p : ParsedThreshold) :
    p.evaluate r = combine (p.groups.map fun g => g.map (evaluate r)) := by
  cases p with
  | clause operator threshold ref => exact (combine_singleton _).symm
  | compound groups => rw [evaluate, evaluateGroups_eq, ParsedThreshold.groups]

theorem groups_parse (hne : plainGroups e ≠ []) : (parse e).groups = (plainReads e).map fun g =>
    g.map ofTokens := by
  rw [parse, parseFuel]
  split
  next h =>
    rw [groups, plainReads, List.map_map]
    refine map_congr_left fun g hg => ?_
    rw [Function.comp_apply, List.map_map]
    refine map_congr_left fun c hc => ?_
    -- The clauses have no connectives left in them.
    have hmem : c ∈ (plainGroups e).flatten := mem_flatten.2 ⟨g, hg, hc⟩
    rw [plainGroups_eq 0, flatten_tidy, tidyClauses, mem_filter] at hmem
    obtain ⟨p, hp, rfl⟩ := mem_map.1 hmem.1
    obtain ⟨h₁, h₂⟩ := not_hasTwice_connectives 0 e p hp
    rw [Function.comp_apply, parseFuel_of_not_hasTwice]
    · rw [hasTwice_trim rfl, h₁]
    · rw [hasTwice_trim rfl, h₂]
  next h =>
    rw [not_eq_true, or_eq_false_iff] at h
    have hgroups : plainGroups e = [[trim e]] := by
      rw [plainGroups_eq 0, connectives_false_of_not_hasTwice 0 h.1 h.2] at hne ⊢
      by_cases htrim : trim e = []
      · simp [tidy, tidyClauses, htrim] at hne
      · simp [tidy, tidyClauses, htrim]
    rw [plainReads, hgroups, map_singleton, map_singleton, map_singleton,
      map_singleton, splitWhitespace_trim]
    rfl

theorem evaluate_parse (hne : plainGroups e ≠ []) : evaluateSingleThresholdOpt e r =
      combine ((plainReads e).map fun g => g.map fun parts => (ofTokens parts).evaluate r) := by
  rw [evaluateSingleThresholdOpt, evaluate_eq_combine, groups_parse hne, List.map_map]
  congr 1
  refine map_congr_left fun g _ => ?_
  rw [Function.comp_apply, List.map_map]
  rfl

structure GroupState.Tells (s : GroupState) (os : List (Option Outcome)) : Prop where
  passed : s.passed = true ↔ ∀ o ∈ os, ∃ x, o = some x ∧ x.passed = true
  hadData : s.hadData = true ↔ ∃ x, some x ∈ os
  pair : s.hadData = true → ∃ x, some x ∈ os ∧ s.pair = (x.actual, x.threshold)

theorem tells_groupState (os : List (Option Outcome)) : (groupState os).Tells os := by
  rw [groupState]
  induction os using List.reverseRecOn with
  | nil => exact ⟨by simp, by simp, nofun⟩
  | append_singleton os o ih =>
    rw [foldl_append, foldl_cons, foldl_nil]
    cases o with
    | none =>
      refine ⟨?_, ?_, ?_⟩
      · simp [GroupState.step]
      · rw [GroupState.step, ih.hadData]
        simp
      · intro h
        obtain ⟨x, hx, hpair⟩ := ih.pair h
        exact ⟨x, mem_append_left _ hx, hpair⟩
    | some x =>
      refine ⟨?_, ?_, ?_⟩
      · rw [GroupState.step, and_eq_true, ih.passed]
        simp [or_imp, forall_and]
      · simp [GroupState.step]
      · exact fun _ => ⟨x, by simp, rfl⟩

structure GroupState.TellsAll (s : GroupState) (gs : List (List (Option Outcome))) : Prop where
  passed : s.passed = true ↔ ∃ g ∈ gs, ∀ o ∈ g, ∃ x, o = some x ∧ x.passed = true
  hadData : s.hadData = true ↔ ∃ g ∈ gs, ∃ x, some x ∈ g
  pair : s.hadData = true → ∃ g ∈ gs, ∃ x, some x ∈ g ∧ s.pair = (x.actual, x.threshold)
  hadData_of_passed : s.passed = true → s.hadData = true

theorem GroupState.TellsAll.join {s : GroupState} (h : s.TellsAll gs)
    {g : List (Option Outcome)} (hg : g ≠ []) : (s.join (groupState g)).TellsAll (gs ++ [g]) := by
  have ht := tells_groupState g
  have hdata : (groupState g).passed = true → (groupState g).hadData = true := by
    intro hp
    obtain ⟨o, os, rfl⟩ := exists_cons_of_ne_nil hg
    obtain ⟨x, rfl, -⟩ := ht.passed.1 hp o mem_cons_self
    exact ht.hadData.2 ⟨x, mem_cons_self⟩
  have hold : s.hadData = true → ∃ g' ∈ gs ++ [g], ∃ x, some x ∈ g' ∧
      s.pair = (x.actual, x.threshold) := by
    intro hd
    obtain ⟨g', hg', hx⟩ := h.pair hd
    exact ⟨g', mem_append_left _ hg', hx⟩
  refine ⟨?_, ?_, ?_, ?_⟩
  · rw [GroupState.join, or_eq_true, h.passed, ht.passed]
    simp [or_and_right, exists_or]
  · rw [GroupState.join, or_eq_true, h.hadData, ht.hadData]
    simp [or_and_right, exists_or]
  · intro hd
    rw [GroupState.join] at hd ⊢
    split
    next hs => exact hold (h.hadData_of_passed hs)
    next =>
      split
      next hnew =>
        have hnew : (groupState g).hadData = true := (or_eq_true_iff.1 hnew).elim hdata id
        obtain ⟨x, hx⟩ := ht.pair hnew
        exact ⟨g, by simp, x, hx⟩
      next hnone =>
        rw [not_eq_true, or_eq_false_iff] at hnone
        rw [hnone.2, Bool.or_false] at hd
        exact hold hd
  · intro hp
    rw [GroupState.join, or_eq_true] at hp ⊢
    exact hp.imp h.hadData_of_passed hdata

theorem combine_spec (hgs : ∀ g ∈ gs, g ≠ []) : (combine gs = none ↔ ∀ g ∈ gs, ∀ o ∈ g, o = none) ∧
      ∀ x, combine gs = some x →
        (x.passed = true ↔ ∃ g ∈ gs, ∀ o ∈ g, ∃ y, o = some y ∧ y.passed = true) ∧
        ∃ g ∈ gs, ∃ y, some y ∈ g ∧ x.actual = y.actual ∧ x.threshold = y.threshold := by
  have htells :
      ((gs.map groupState).foldl GroupState.join ⟨false, false, (.num 0, .num 0)⟩).TellsAll gs := by
    induction gs using List.reverseRecOn with
    | nil => exact ⟨by simp, by simp, nofun, nofun⟩
    | append_singleton gs g ih =>
      rw [map_append, foldl_append]
      exact (ih fun g hg => hgs g (mem_append_left _ hg)).join (hgs g (by simp))
  rw [combine]
  generalize (gs.map groupState).foldl GroupState.join ⟨false, false, (.num 0, .num 0)⟩ =
    s at htells
  constructor
  · have hnone :
      (if s.hadData = true then some (⟨s.passed, s.pair.1, s.pair.2⟩ : Outcome) else none) = none ↔
        ¬ s.hadData = true := by
      by_cases h : s.hadData = true <;> simp [h]
    rw [hnone, htells.hadData]
    push Not
    refine forall₂_congr fun g _ => ⟨fun h o ho => ?_, fun h x hx => ?_⟩
    · exact Option.eq_none_iff_forall_ne_some.2 fun x hx => h x (hx ▸ ho)
    · cases h _ hx
  · intro x hx
    obtain ⟨hdata, hx⟩ := Option.ite_none_right_eq_some.1 hx
    obtain rfl := Option.some.inj hx
    obtain ⟨g, hg, y, hy, hpair⟩ := htells.pair hdata
    exact ⟨htells.passed, g, hg, y, hy, congrArg Prod.fst hpair, congrArg Prod.snd hpair⟩

end ParsedThreshold

/-! ## What an accepted expression spells -/

structure Comparison where
  ref : MetricRef
  op : Operator
  number : F64
  deriving DecidableEq

namespace Comparison

def Holds (c : Comparison) (r : MetricsResult hdr) : Prop :=
  ∃ v, metricValue r c.ref = some v ∧ c.op.holds (.num v) c.number = true

def outcome (c : Comparison) (r : MetricsResult hdr) : Option Outcome :=
  (metricValue r c.ref).map fun v => ⟨c.op.holds (.num v) c.number, .num v, c.number⟩

def ofTokens : List Text → Option Comparison
  | [ref, op, value] =>
    (Operator.parse op).bind fun op => (parseF64 value).map fun number =>
      ⟨parseMetricRef ref, op, number⟩
  | _ => none

theorem evaluate_ofTokens {parts : List Text} {c : Comparison} (h : ofTokens parts = some c)
    (r : MetricsResult hdr) : (ParsedThreshold.ofTokens parts).evaluate r = c.outcome r := by
  rw [ofTokens.eq_def] at h
  split at h
  next ref op value =>
    obtain ⟨o, ho, h⟩ := Option.bind_eq_some_iff.1 h
    obtain ⟨v, hv, rfl⟩ := Option.map_eq_some_iff.1 h
    have hop : op ≠ [] := by
      rintro rfl
      cases ho
    rw [ParsedThreshold.ofTokens, ParsedThreshold.evaluate, ParsedThreshold.evaluateClause]
    simp only [getElem?_cons_succ, getElem?_cons_zero, Option.getD_some, Option.bind_some,
      headD_cons, if_neg hop, ho, hv, outcome]
  next => cases h

end Comparison

def Spells (e : Text) (groups : List (List Comparison)) : Prop :=
  (braceReads e).map (fun g => g.map Comparison.ofTokens) = groups.map fun g => g.map some

structure Decides (groups : List (List Comparison)) (r : MetricsResult hdr)
    (outcome : Option Outcome) : Prop where
  none_iff : outcome = none ↔ ∀ g ∈ groups, ∀ c ∈ g, metricValue r c.ref = none
  passed_iff : ∀ o, outcome = some o → (o.passed = true ↔ ∃ g ∈ groups, ∀ c ∈ g, c.Holds r)
  numbers : ∀ o, outcome = some o → ∃ g ∈ groups, ∃ c ∈ g, ∃ v, metricValue r c.ref = some v ∧
    o.actual = .num v ∧ o.threshold = c.number

theorem exists_mem_of_parse {op : Text} {o : Operator} (h : Operator.parse op = some o) :
    ∃ c ∈ op, c ≠ '&' ∧ c ≠ '|' ∧ isWhitespace c = false := by
  rw [Operator.parse] at h
  have hlist : op = (String.ofList op).toList := String.toList_ofList.symm
  split at h <;> cases h
  all_goals
    rename_i heq
    rw [hlist, heq]
    exact ⟨_, mem_cons_self, by decide⟩

variable {groups : List (List Comparison)} {e : Text} {name : String}

theorem exists_ofTokens_of_validateClause {expr clause : Text}
    (h : validateClause name expr clause = .ok ()) :
    (∃ c, Comparison.ofTokens (braceAwareSplit clause) = some c) ∧
      ∃ c ∈ clause, c ≠ '&' ∧ c ≠ '|' ∧ isWhitespace c = false := by
  rw [validateClause] at h
  split at h
  next ref op value hsplit =>
    cases hop : Operator.parse op with
    | none =>
      rw [hop] at h
      cases h
    | some o =>
      cases hvalue : parseF64 value with
      | none =>
        rw [hop, hvalue] at h
        cases h
      | some v =>
        rw [hsplit, Comparison.ofTokens, hop, hvalue]
        refine ⟨⟨_, rfl⟩, ?_⟩
        obtain ⟨c, hc, hne⟩ := exists_mem_of_parse hop
        have hmem : op ∈ braceAwareSplitFrom 0 [] clause := by
          rw [← braceAwareSplit, hsplit]
          simp
        exact ⟨c, mem_of_mem_braceAwareSplitFrom hmem hc, hne⟩
  next => cases h

theorem exists_spells
    (h : ∀ clause ∈ compoundClauses (trim e), validateClause name (trim e) clause = .ok ()) :
    (braceGroups (trim e)).flatten ≠ [] ∧ ∃ groups, Spells e groups := by
  have hne : (braceGroups (trim e)).flatten ≠ [] := by
    intro hnil
    -- Without clauses, the validator has accepted the whole expression as one.
    have hwhole : trim e ∈ compoundClauses (trim e) := by
      rw [compoundClauses_eq (trim_trim e), if_pos hnil]
      exact mem_cons_self
    obtain ⟨c, hc, hand, hor, hblank⟩ := (exists_ofTokens_of_validateClause (h _ hwhole)).2
    exact flatten_braceGroups_ne_nil hc hand hor hblank hnil
  refine ⟨hne, ?_⟩
  rw [compoundClauses_eq (trim_trim e), if_neg hne] at h
  have hsome : ∀ g ∈ (braceReads e).map (fun g => g.map Comparison.ofTokens), ∀ c ∈ g,
      c.isSome := by
    simp only [braceReads, List.map_map, mem_map, Function.comp_apply]
    rintro _ ⟨g, hg, rfl⟩ _ hc
    obtain ⟨clause, hclause, rfl⟩ := mem_map.1 hc
    rw [Option.isSome_iff_exists]
    exact (exists_ofTokens_of_validateClause (h clause (mem_flatten.2 ⟨g, hg, hclause⟩))).1
  have hrange : (braceReads e).map (fun g => g.map Comparison.ofTokens) ∈
      Set.range (List.map (List.map (@some Comparison))) := by
    rw [Set.range_list_map]
    intro g hg
    rw [Set.range_list_map]
    intro c hc
    obtain ⟨x, hx⟩ := Option.isSome_iff_exists.1 (hsome g hg c hc)
    exact ⟨x, hx.symm⟩
  obtain ⟨groups, hgroups⟩ := hrange
  exact ⟨groups, hgroups.symm⟩

theorem Spells.map_evaluate (h : Spells e groups) (r : MetricsResult hdr) :
    (braceReads e).map (fun g => g.map fun parts => (ParsedThreshold.ofTokens parts).evaluate r) =
      groups.map fun g => g.map fun c => c.outcome r := by
  rw [Spells, ← forall₂_eq_eq_eq, forall₂_map_left_iff, forall₂_map_right_iff] at h
  rw [← forall₂_eq_eq_eq, forall₂_map_left_iff, forall₂_map_right_iff]
  refine h.imp fun parts cs hg => ?_
  rw [← forall₂_eq_eq_eq, forall₂_map_left_iff, forall₂_map_right_iff] at hg ⊢
  exact hg.imp fun ps c hc => Comparison.evaluate_ofTokens hc r

theorem Spells.ne_nil (h : Spells e groups) : ∀ g ∈ groups, g ≠ [] := by
  rintro _ hg rfl
  have hmem : [] ∈ groups.map fun g => g.map some := mem_map.2 ⟨[], hg, rfl⟩
  rw [Spells] at h
  rw [← h, braceReads, List.map_map] at hmem
  obtain ⟨g, hg, hnil⟩ := mem_map.1 hmem
  simp only [Function.comp_apply, map_eq_nil_iff] at hnil
  simp [braceGroups, tidy, hnil] at hg

theorem decides_combine (hne : ∀ g ∈ groups, g ≠ []) (r : MetricsResult hdr) :
    Decides groups r
      (ParsedThreshold.combine (groups.map fun g => g.map fun c => c.outcome r)) := by
  have hmap : ∀ g ∈ groups.map fun g => g.map fun c => c.outcome r, g ≠ [] := by
    simpa using hne
  obtain ⟨hnone, hsome⟩ := ParsedThreshold.combine_spec hmap
  refine ⟨?_, ?_, ?_⟩
  · rw [hnone]
    simp [Comparison.outcome]
  · intro o ho
    rw [(hsome o ho).1]
    simp [Comparison.Holds, Comparison.outcome]
  · intro o ho
    obtain ⟨_, hmem, y, hy, hactual, hthreshold⟩ := (hsome o ho).2
    obtain ⟨g, hg, rfl⟩ := mem_map.1 hmem
    obtain ⟨c, hc, hy⟩ := mem_map.1 hy
    obtain ⟨v, hv, rfl⟩ := Option.map_eq_some_iff.1 hy
    exact ⟨g, hg, c, hc, v, hv, hactual, hthreshold⟩

def PlainTokens (e : Text) : Prop :=
  ∀ clause ∈ compoundClauses (trim e), ∀ w ∈ braceAwareSplit clause, IsPlain w

theorem validateClause_of_validateThresholds {thresholds : IndexMap String ThresholdConfig}
    (h : validateThresholds thresholds = .ok ()) {t : String × ThresholdConfig}
    (ht : t ∈ thresholds.entries) :
    ∀ clause ∈ compoundClauses (trim t.2.expression.toList),
      validateClause t.1 (trim t.2.expression.toList) clause = .ok () :=
  eq_ok_of_forM_eq_ok (eq_ok_of_forM_eq_ok h t ht)

/-- The validator and the evaluator agree on the grammar of an accepted expression exactly if it has
    plain tokens. It is then decided by the comparisons that the validator has read. -/
theorem evaluateThresholds_decides (parseDuration : String → Option ℕ)
    (thresholds : IndexMap String ThresholdConfig)
    (hvalid : validateThresholds thresholds = .ok ()) :
    ∀ t ∈ thresholds.entries,
      (plainReads t.2.expression.toList = braceReads t.2.expression.toList ↔
        PlainTokens t.2.expression.toList) ∧
      (PlainTokens t.2.expression.toList →
        ∃ groups, Spells t.2.expression.toList groups ∧
          ∀ (hdr : Hdr) (r : MetricsResult hdr), ∃ outcome, Decides groups r outcome ∧
            thresholdResult parseDuration t.1 t.2 outcome ∈
              evaluateThresholds parseDuration thresholds r) := by
  intro t ht
  obtain ⟨hne, groups, hgroups⟩ := exists_spells (validateClause_of_validateThresholds hvalid ht)
  have hreads : plainReads t.2.expression.toList = braceReads t.2.expression.toList ↔
      PlainTokens t.2.expression.toList := by
    rw [plainReads_eq_iff, PlainTokens, compoundClauses_eq (trim_trim _), if_neg hne]
  refine ⟨hreads, fun hplain => ⟨groups, hgroups, fun hdr r => ?_⟩⟩
  refine ⟨_, decides_combine hgroups.ne_nil r, ?_⟩
  have hplain := hreads.2 hplain
  have hnonempty : plainGroups t.2.expression.toList ≠ [] := by
    intro hnil
    rw [plainReads, hnil, braceReads] at hplain
    rw [map_eq_nil_iff.1 hplain.symm] at hne
    exact hne rfl
  rw [← hgroups.map_evaluate, ← hplain, ← ParsedThreshold.evaluate_parse r hnonempty,
    evaluateThresholds, mem_insertionSort]
  exact mem_map_of_mem ht

def plainThresholds : IndexMap String ThresholdConfig :=
  (∅ : IndexMap String ThresholdConfig).insert "load"
    ⟨"http_reqs > 100 && checks.rate > 0.9 || errors < 1", false, none⟩

theorem evaluateThresholds_plainThresholds : validateThresholds plainThresholds = .ok () ∧
    ∃ groups, Spells "http_reqs > 100 && checks.rate > 0.9 || errors < 1" groups ∧
      ∀ (hdr : Hdr) (r : MetricsResult hdr), ∃ outcome, Decides groups r outcome ∧
        thresholdResult (fun _ => none) "load"
            ⟨"http_reqs > 100 && checks.rate > 0.9 || errors < 1", false, none⟩ outcome ∈
          evaluateThresholds (fun _ => none) plainThresholds r := by
  have hvalid : validateThresholds plainThresholds = .ok () := by decide +kernel
  refine ⟨hvalid, (evaluateThresholds_decides (fun _ => none) plainThresholds hvalid
    ("load", ⟨"http_reqs > 100 && checks.rate > 0.9 || errors < 1", false, none⟩)
    mem_cons_self).2 ?_⟩
  rw [PlainTokens]
  decide +kernel

def spacedThresholds : IndexMap String ThresholdConfig :=
  (∅ : IndexMap String ThresholdConfig).insert "ok"
    ⟨"checks\x7bcheck:status is 200\x7d > 0.9", false, none⟩

def spacedResults : MetricsResult Hdr.exact :=
  ((Aggregator.new 0).recordAll
    [{ metric := "checks", tags := .ofPairs [("check", "status is 200")], value := 1
       sampleType := .rate }]).buildResults ⟨0, 0⟩ 0

theorem evaluateThresholds_spacedThresholds : validateThresholds spacedThresholds = .ok () ∧
      metricValue spacedResults (parseMetricRef "checks\x7bcheck:status is 200\x7d") = some 1 ∧
      (evaluateThresholds (fun _ => none) spacedThresholds spacedResults).map
        (fun t => (t.passed, t.noData, t.actual, t.threshold)) =
          [(false, false, .num 0, .num 0)] := by
  decide +kernel

end Tropel
