import Tropel.Core.Config
import Tropel.Lib.Machine

/-!
# The loop of a virtual user

Every virtual user runs the same loop (`Vu.step`): it looks whether the run stops, claims a slot of
a ramp-down, waits while the run is paused, claims an iteration of the shared budget, waits for a
token of an arrival rate, and runs an iteration.

* `withinBudget_iff`: when a budget is kept;
* `run_accounts`: no iteration is lost or counted twice.
-/

namespace Tropel

open Lib List

def u64Max : ℕ := 2 ^ 64 - 1

def maxIterations : ℕ := 10000000000

structure VuRunShared where
  totalIterations : ℕ
  isPerVUIterations : Bool
  isArrivalRate : Bool
  deriving DecidableEq, Repr

namespace ExecutionConfig

def iterations : ExecutionConfig → ℕ
  | .sharedIterations iterations .. => iterations
  | .perVUIterations _ iterations .. => iterations
  | _ => u64Max

def isPerVUIterations : ExecutionConfig → Bool
  | .perVUIterations .. => true
  | _ => false

def isArrivalRate : ExecutionConfig → Bool
  | .constantArrivalRate .. => true
  | .rampingArrivalRate .. => true
  | _ => false

def vuRunShared (exec : ExecutionConfig) : VuRunShared where
  totalIterations := if exec.iterations > maxIterations then maxIterations else exec.iterations
  isPerVUIterations := exec.isPerVUIterations
  isArrivalRate := exec.isArrivalRate

end ExecutionConfig

inductive LoopPc
  | top
  | rampDown
  | pauseGate
  | resumed
  | preClaim
  | tokenWait
  | tokenTake
  | iterate
  | running
  | budget
  | exited
  deriving DecidableEq, Repr

structure Vu where
  pc : LoopPc
  iterationIndex : ℕ
  iterations : ℕ
  deriving DecidableEq, Repr

structure LoopScheduler where
  claimedIterations : ℕ
  totalIterations : ℕ
  arrivalTokens : ℕ
  paused : Bool
  stopRequested : Bool
  deriving DecidableEq, Repr

inductive VuStep
  | next
  | claimRampDown
  | complete (abort : Bool)
  | die
  deriving DecidableEq, Repr

variable (shared : VuRunShared)

namespace Vu

def fresh : Vu := { pc := .top, iterationIndex := 0, iterations := 0 }

def next (sched : LoopScheduler) (vu : Vu) : Option (LoopScheduler × Vu) :=
  match vu.pc with
  | .top => some (sched, { vu with pc := if sched.stopRequested then .exited else .rampDown })
  | .rampDown => some (sched, { vu with pc := .pauseGate })
  | .pauseGate =>
    some (sched,
      { vu with pc := if sched.paused && !sched.stopRequested then .pauseGate else .resumed })
  | .resumed => some (sched, { vu with pc := if sched.stopRequested then .exited else .preClaim })
  | .preClaim =>
    let claimed : Vu := { vu with pc := if shared.isArrivalRate then .tokenWait else .iterate }
    if !shared.isPerVUIterations && shared.totalIterations ≠ u64Max then
      -- `try_claim_shared_iteration`
      if sched.claimedIterations ≥ shared.totalIterations
        then some (sched, { vu with pc := .exited })
      else some ({ sched with claimedIterations := sched.claimedIterations + 1 }, claimed)
    else some (sched, claimed)
  | .tokenWait =>
    some (sched, { vu with pc := if sched.stopRequested then .exited else .tokenTake })
  | .tokenTake =>
    if sched.arrivalTokens > 0 then
      some ({ sched with arrivalTokens := sched.arrivalTokens - 1 }, { vu with pc := .iterate })
    else some (sched, { vu with pc := .tokenWait })
  | .iterate => some (sched, { vu with pc := .running, iterations := vu.iterations + 1 })
  | .running => none
  | .budget =>
    some (sched, { vu with
      pc := if shared.totalIterations ≠ u64Max && shared.isPerVUIterations &&
          vu.iterationIndex ≥ shared.totalIterations then .exited else .top })
  | .exited => none

def step (sched : LoopScheduler) (vu : Vu) : VuStep → Option (LoopScheduler × Vu)
  | .next => vu.next shared sched
  | .claimRampDown => if vu.pc = .rampDown then some (sched, { vu with pc := .exited }) else none
  | .complete abort =>
    if vu.pc = .running then
      some ({ sched with
          totalIterations := sched.totalIterations + 1
          stopRequested := sched.stopRequested || abort },
        { vu with pc := .budget, iterationIndex := vu.iterationIndex + 1 })
    else none
  | .die => if vu.pc = .exited then none else some (sched, { vu with pc := .exited })

end Vu

structure RunState extends LoopScheduler where
  vus : List Vu
  deriving DecidableEq, Repr

inductive RunAction
  | vu (i : ℕ) (a : VuStep)
  | respawn (i : ℕ)
  | addTokens (n : ℕ)
  | setPaused (paused : Bool)
  | requestStop
  deriving DecidableEq, Repr

def RunState.start (vus : ℕ) : RunState :=
  { claimedIterations := 0, totalIterations := 0, arrivalTokens := 0, paused := false
    stopRequested := false, vus := List.replicate vus .fresh }

def vuLoop : Machine RunState RunAction where
  step s
    | .vu i a =>
      (s.vus[i]?).bind fun vu => (vu.step shared s.toLoopScheduler a).map fun (sched, vu) =>
        { toLoopScheduler := sched, vus := s.vus.set i vu }
    | .respawn i =>
      if (s.vus[i]?).any (·.pc = .exited) then some { s with vus := s.vus ++ [.fresh] } else none
    | .addTokens n => some { s with arrivalTokens := s.arrivalTokens + n }
    | .setPaused paused => some { s with paused }
    | .requestStop => some { s with stopRequested := true }

namespace Vu

variable {shared : VuRunShared} {sched sched' : LoopScheduler} {vu vu' : Vu} {a : VuStep}

theorem step_cases (h : vu.step shared sched a = some (sched', vu')) :
    vu.next shared sched = some (sched', vu') ∨
      sched'.claimedIterations = sched.claimedIterations ∧ (vu' = { vu with pc := .exited } ∨
        vu.pc = .running ∧
          vu' = { vu with pc := .budget, iterationIndex := vu.iterationIndex + 1 }) := by
  cases a with
  | next => exact .inl h
  | claimRampDown =>
    obtain ⟨-, h⟩ := Option.ite_none_right_eq_some.1 h
    cases h
    exact .inr ⟨rfl, .inl rfl⟩
  | complete abort =>
    obtain ⟨hpc, h⟩ := Option.ite_none_right_eq_some.1 h
    cases h
    exact .inr ⟨rfl, .inr ⟨hpc, rfl⟩⟩
  | die =>
    obtain ⟨-, h⟩ := Option.ite_none_left_eq_some.1 h
    cases h
    exact .inr ⟨rfl, .inl rfl⟩

end Vu

/-! ## Shared budgets -/

def LoopPc.reserved : LoopPc → ℕ
  | .tokenWait | .tokenTake | .iterate => 1
  | _ => 0

namespace Vu

variable {shared : VuRunShared} {sched sched' : LoopScheduler} {vu vu' : Vu} {a : VuStep}

def claims (vu : Vu) : ℕ := vu.iterations + vu.pc.reserved

theorem claims_le (hiter : vu'.iterations = vu.iterations)
    (hpc : vu'.pc.reserved ≤ vu.pc.reserved) : vu'.claims ≤ vu.claims := by
  rw [claims, claims, hiter]
  exact Nat.add_le_add_left hpc _

section

variable (hbudget : shared.totalIterations ≠ u64Max) (hshared : shared.isPerVUIterations = false)
include hbudget hshared

theorem claims_next (h : vu.next shared sched = some (sched', vu')) :
    sched'.claimedIterations = sched.claimedIterations ∧ vu'.claims ≤ vu.claims ∨
      sched.claimedIterations < shared.totalIterations ∧
        sched'.claimedIterations = sched.claimedIterations + 1 ∧ vu'.claims = vu.claims + 1 := by
  rw [next] at h
  cases hpc : vu.pc <;> rw [hpc] at h
  case preClaim =>
    dsimp only at h
    rw [if_pos (by simp [hshared, hbudget])] at h
    split at h
    · cases h
      exact .inl ⟨rfl, claims_le rfl (Nat.zero_le _)⟩
    next hlt =>
      -- The only step that claims an iteration.
      cases h
      refine .inr ⟨Nat.not_le.1 hlt, rfl, ?_⟩
      rw [claims, claims, hpc]
      split <;> rfl
  case iterate =>
    -- The iteration that was claimed is started.
    cases h
    refine .inl ⟨rfl, ?_⟩
    rw [claims, claims, hpc]
    exact Nat.le_refl _
  case tokenTake =>
    dsimp only at h
    split at h <;> cases h <;> exact .inl ⟨rfl, claims_le rfl (by rw [hpc]; exact Nat.le_refl 1)⟩
  case tokenWait =>
    cases h
    refine .inl ⟨rfl, claims_le rfl ?_⟩
    rw [hpc]
    dsimp only
    split <;> decide
  case running | exited => cases h
  all_goals
    cases h
    refine .inl ⟨rfl, claims_le rfl ?_⟩
    first | exact Nat.zero_le _ | (dsimp only; split <;> exact Nat.zero_le _)

theorem claims_step (h : vu.step shared sched a = some (sched', vu')) :
    sched'.claimedIterations = sched.claimedIterations ∧ vu'.claims ≤ vu.claims ∨
      sched.claimedIterations < shared.totalIterations ∧
        sched'.claimedIterations = sched.claimedIterations + 1 ∧ vu'.claims = vu.claims + 1 := by
  rcases step_cases h with h | ⟨heq, rfl | ⟨-, rfl⟩⟩
  · exact claims_next hbudget hshared h
  · exact .inl ⟨heq, claims_le rfl (Nat.zero_le _)⟩
  · exact .inl ⟨heq, claims_le rfl (Nat.zero_le _)⟩

end

/-! ## Budgets per user -/

def Within (n : ℕ) (vu : Vu) : Prop :=
  match vu.pc with
  | .running => vu.iterations = vu.iterationIndex + 1 ∧ vu.iterationIndex < n
  | .budget => vu.iterations = vu.iterationIndex ∧ vu.iterationIndex ≤ n
  | .exited => vu.iterations ≤ n
  | _ => vu.iterations = vu.iterationIndex ∧ vu.iterationIndex < n

theorem Within.iterations_le {n : ℕ} (h : vu.Within n) : vu.iterations ≤ n := by
  rw [Within] at h
  split at h <;> omega

theorem within_fresh {n : ℕ} (hn : 0 < n) : fresh.Within n := ⟨rfl, hn⟩

theorem Within.exit {n : ℕ} (h : vu.Within n) : Within n { vu with pc := .exited } :=
  h.iterations_le

variable (hbudget : shared.totalIterations ≠ u64Max) (hper : shared.isPerVUIterations = true)
  (hw : vu.Within shared.totalIterations)
include hbudget hper hw

theorem Within.next (h : vu.next shared sched = some (sched', vu')) :
    vu'.Within shared.totalIterations := by
  have hexit := hw.exit
  rw [Vu.next] at h
  rw [Within] at hw
  cases hpc : vu.pc <;> rw [hpc] at h hw
  case preClaim =>
    dsimp only at h
    rw [if_neg (by simp [hper])] at h
    cases h
    split <;> exact hw
  case iterate =>
    cases h
    exact ⟨congrArg (· + 1) hw.1, hw.2⟩
  case tokenTake =>
    dsimp only at h
    split at h <;> cases h <;> exact hw
  case budget =>
    cases h
    split
    · exact hexit
    next hlt =>
      -- The user only goes round again with an iteration left.
      refine ⟨hw.1, ?_⟩
      simpa [hbudget, hper] using hlt
  case running | exited => cases h
  -- Until it runs the iteration, the user goes on or exits.
  all_goals
    cases h
    first | exact hw | (split <;> first | exact hw | exact hexit)

theorem Within.step (h : vu.step shared sched a = some (sched', vu')) :
    vu'.Within shared.totalIterations := by
  rcases step_cases h with h | ⟨-, rfl | ⟨hpc, rfl⟩⟩
  · exact hw.next hbudget hper h
  · exact hw.exit
  · rw [Within, hpc] at hw
    exact ⟨hw.1, hw.2⟩

end Vu

/-! ## Runs -/

namespace RunState

variable {shared : VuRunShared} {s s' : RunState} {a : RunAction}

theorem step_cases (h : (vuLoop shared).step s a = some s') :
    (∃ i vu vu' b, s.vus[i]? = some vu ∧ s'.vus = s.vus.set i vu' ∧
        vu.step shared s.toLoopScheduler b = some (s'.toLoopScheduler, vu')) ∨
      s'.claimedIterations = s.claimedIterations ∧
        (s'.vus = s.vus ∨ s.vus ≠ [] ∧ s'.vus = s.vus ++ [.fresh]) := by
  cases a with
  | vu i b =>
    obtain ⟨vu, hvu, h⟩ := Option.bind_eq_some_iff.1 h
    obtain ⟨⟨sched, vu'⟩, hstep, rfl⟩ := Option.map_eq_some_iff.1 h
    exact .inl ⟨i, vu, vu', b, hvu, rfl, hstep⟩
  | respawn i =>
    obtain ⟨hdead, h⟩ := Option.ite_none_right_eq_some.1 h
    cases h
    refine .inr ⟨rfl, .inr ⟨fun hnil => ?_, rfl⟩⟩
    rw [hnil] at hdead
    cases hdead
  | addTokens n | setPaused paused | requestStop =>
    cases h
    exact .inr ⟨rfl, .inl rfl⟩

structure ClaimInv (shared : VuRunShared) (s : RunState) : Prop where
  claims : (s.vus.map Vu.claims).sum ≤ s.claimedIterations
  claimed : s.claimedIterations ≤ shared.totalIterations

theorem claimInv_start (shared : VuRunShared) (vus : ℕ) : (start vus).ClaimInv shared := by
  refine ⟨?_, Nat.zero_le _⟩
  rw [start, map_replicate, sum_replicate]
  exact Nat.le_refl 0

section

variable (hbudget : shared.totalIterations ≠ u64Max) (hshared : shared.isPerVUIterations = false)
include hbudget hshared

theorem ClaimInv.step (h : s.ClaimInv shared) (hstep : (vuLoop shared).step s a = some s') :
    s'.ClaimInv shared := by
  obtain ⟨hclaims, hclaimed⟩ := h
  rcases step_cases hstep with ⟨i, vu, vu', b, hvu, hvus, hstep⟩ | ⟨heq, hvus⟩
  · -- The claims of one user change by as much as the claims of all.
    have hsum := sum_map_set (f := Vu.claims) hvu vu'
    rw [← hvus] at hsum
    rcases Vu.claims_step hbudget hshared hstep with ⟨heq, hle⟩ | ⟨hlt, heq, hle⟩
    · exact ⟨by omega, by omega⟩
    · exact ⟨by omega, by omega⟩
  · refine ⟨?_, heq ▸ hclaimed⟩
    rcases hvus with hvus | ⟨-, hvus⟩
    · rwa [hvus, heq]
    · rw [hvus, heq, map_append, sum_append]
      exact hclaims

theorem sum_iterations_le {vus : ℕ} (h : (vuLoop shared).Reachable (start vus) s) :
    (s.vus.map Vu.iterations).sum ≤ shared.totalIterations := by
  have hinv : s.ClaimInv shared :=
    h.invariant (claimInv_start shared vus) fun h hstep => h.step hbudget hshared hstep
  calc (s.vus.map Vu.iterations).sum
    _ ≤ (s.vus.map Vu.claims).sum :=
      sum_le_sum fun _ _ => Nat.le_add_right _ _
    _ ≤ s.claimedIterations := hinv.claims
    _ ≤ shared.totalIterations := hinv.claimed

end

theorem iterations_le {vus : ℕ} (hbudget : shared.totalIterations ≠ u64Max)
    (hper : shared.isPerVUIterations = true) (hpos : 0 < shared.totalIterations)
    (h : (vuLoop shared).Reachable (start vus) s) :
    ∀ vu ∈ s.vus, vu.iterations ≤ shared.totalIterations := by
  have hinv : ∀ vu ∈ s.vus, vu.Within shared.totalIterations := by
    refine h.invariant (P := fun s => ∀ vu ∈ s.vus, vu.Within shared.totalIterations) ?_ ?_
    · intro vu hvu
      rw [eq_of_mem_replicate hvu]
      exact Vu.within_fresh hpos
    · intro s s' a hinv hstep vu hvu
      rcases step_cases hstep with ⟨i, vu₁, vu₂, b, hvu₁, hvus, hstep⟩ | ⟨-, hvus | ⟨-, hvus⟩⟩
      · rcases mem_or_eq_of_mem_set (hvus ▸ hvu) with hvu | rfl
        · exact hinv vu hvu
        · exact (hinv vu₁ (mem_of_getElem? hvu₁)).step hbudget hper hstep
      · exact hinv vu (hvus ▸ hvu)
      · rcases mem_append.1 (hvus ▸ hvu) with hvu | hvu
        · exact hinv vu hvu
        · rw [mem_singleton.1 hvu]
          exact Vu.within_fresh hpos
  exact fun vu hvu => (hinv vu hvu).iterations_le

theorem vus_eq_nil (h : (vuLoop shared).Reachable (start 0) s) : s.vus = [] := by
  refine h.invariant (P := fun s => s.vus = []) rfl fun {s s' a} hnil hstep => ?_
  rcases step_cases hstep with ⟨i, vu, vu', b, hvu, -, -⟩ | ⟨-, hvus | ⟨hne, -⟩⟩
  · rw [hnil] at hvu
    cases hvu
  · exact hvus.trans hnil
  · exact absurd hnil hne

end RunState

namespace ExecutionConfig

variable (exec : ExecutionConfig)

theorem totalIterations_vuRunShared :
    exec.vuRunShared.totalIterations = min exec.iterations maxIterations := by
  rw [vuRunShared, min_def]
  split <;> split <;> first | rfl | omega

theorem totalIterations_ne : exec.vuRunShared.totalIterations ≠ u64Max := by
  rw [totalIterations_vuRunShared]
  exact ((min_le_right _ _).trans_lt (by decide)).ne

def WithinBudget (s : RunState) : Prop :=
  match exec with
  | .sharedIterations iterations .. => (s.vus.map Vu.iterations).sum ≤ iterations
  | .perVUIterations _ iterations .. => ∀ vu ∈ s.vus, vu.iterations ≤ iterations
  | _ => True

theorem exists_iteration (shared : VuRunShared) (hper : shared.isPerVUIterations = true)
    (harrival : shared.isArrivalRate = false) (vus : ℕ) :
    ∃ s, (vuLoop shared).Reachable (.start (vus + 1)) s ∧ ∃ vu ∈ s.vus, vu.iterations = 1 := by
  obtain ⟨totalIterations, isPerVUIterations, isArrivalRate⟩ := shared
  obtain rfl : isPerVUIterations = true := hper
  obtain rfl : isArrivalRate = false := harrival
  have h : (vuLoop ⟨totalIterations, true, false⟩).exec (.start (vus + 1))
      (List.replicate 6 (.vu 0 .next)) = some { RunState.start (vus + 1) with
        vus := { pc := .running, iterationIndex := 0, iterations := 1 } ::
          List.replicate vus .fresh } := rfl
  exact ⟨_, Machine.reachable_of_exec h, _, mem_cons_self, rfl⟩

/-- A run of `vus` users keeps within its budget, unless that is a budget of `0` for
    each of them. -/
theorem withinBudget_iff (vus : ℕ) :
    (∀ s, (vuLoop exec.vuRunShared).Reachable (.start vus) s → exec.WithinBudget s) ↔
      (exec.isPerVUIterations → exec.iterations ≠ 0 ∨ vus = 0) := by
  have hbudget := exec.totalIterations_ne
  have hmin := exec.totalIterations_vuRunShared
  cases exec with
  | sharedIterations iterations =>
    refine ⟨fun _ => nofun, fun _ s hs => ?_⟩
    exact (RunState.sum_iterations_le hbudget rfl hs).trans (hmin.trans_le (min_le_left _ _))
  | perVUIterations configVus iterations maxDuration gracefulStop thinkTime =>
    constructor
    · intro h _
      by_contra hne
      push Not at hne
      obtain ⟨hzero, hvus⟩ := hne
      obtain ⟨n, rfl⟩ := Nat.exists_eq_succ_of_ne_zero hvus
      obtain ⟨s, hs, vu, hvu, hone⟩ := exists_iteration
        (vuRunShared (.perVUIterations configVus iterations maxDuration gracefulStop thinkTime))
        rfl rfl n
      have hle : vu.iterations ≤ iterations := h s hs vu hvu
      have hzero : iterations = 0 := hzero
      omega
    · intro h s hs vu hvu
      rcases h rfl with hne | rfl
      · have hpos : 0 < min iterations maxIterations :=
          lt_min (Nat.pos_of_ne_zero hne) (by decide)
        exact (RunState.iterations_le hbudget rfl (hmin ▸ hpos) hs vu hvu).trans
          (hmin.trans_le (min_le_left _ _))
      · rw [RunState.vus_eq_nil hs] at hvu
        cases hvu
  | _ => exact ⟨fun _ => nofun, fun _ _ _ => trivial⟩

theorem half_exceeds_budget :
    ∃ seg exec, ExecutionSegment.parse (fun _ => "") "0:1/2" none = .ok seg ∧
    seg.applyWith (.perVUIterations 2 1 none none default) .scaleRate = exec ∧
    exec = .perVUIterations 1 0 none none default ∧
    ∃ s, (vuLoop exec.vuRunShared).Reachable (.start 1) s ∧ ¬exec.WithinBudget s := by
  obtain ⟨s, hs, vu, hvu, hone⟩ := exists_iteration
    (vuRunShared (.perVUIterations 1 0 none none default)) rfl rfl 0
  refine ⟨⟨0, 1, 1, 2, by decide, by decide, by decide, by decide, by decide⟩, _,
    by decide +kernel, by decide +kernel, rfl, s, hs, fun h => ?_⟩
  have hle : vu.iterations ≤ 0 := h vu hvu
  omega

end ExecutionConfig

/-! ## Accounts -/

def Vu.tokens (vu : Vu) : ℕ := vu.iterations + if vu.pc = .iterate then 1 else 0

theorem Vu.accounts_step {sched sched' : LoopScheduler} {vu vu' : Vu} {shared : VuRunShared}
    {a : VuStep} (h : vu.step shared sched a = some (sched', vu')) :
    sched'.totalIterations + vu.iterationIndex = sched.totalIterations + vu'.iterationIndex ∧
      (shared.isArrivalRate →
        sched'.arrivalTokens + vu'.tokens ≤ sched.arrivalTokens + vu.tokens) := by
  cases a with
  | next =>
    rw [step, next] at h
    grind [tokens]
  | claimRampDown | complete | die =>
    rw [step] at h
    grind [tokens]

namespace RunState

def added (_ : RunState) : RunAction → ℕ
  | .addTokens n => n
  | _ => 0

variable {shared : VuRunShared} {s s' : RunState} {a : RunAction}

structure Accounts (shared : VuRunShared) (s : RunState) (added : ℕ) : Prop where
  completed : s.totalIterations = (s.vus.map Vu.iterationIndex).sum
  tokens : shared.isArrivalRate → s.arrivalTokens + (s.vus.map Vu.tokens).sum ≤ added

theorem Accounts.step {n : ℕ} (h : s.Accounts shared n)
    (hstep : (vuLoop shared).step s a = some s') :
    s'.Accounts shared (n + s.added a) := by
  obtain ⟨hcompleted, htokens⟩ := h
  cases a with
  | vu i b =>
    obtain ⟨vu, hvu, hstep⟩ := Option.bind_eq_some_iff.1 hstep
    obtain ⟨⟨sched, vu'⟩, hvustep, rfl⟩ := Option.map_eq_some_iff.1 hstep
    have hindex := sum_map_set (f := Vu.iterationIndex) hvu vu'
    have hsum := sum_map_set (f := Vu.tokens) hvu vu'
    have haccounts := Vu.accounts_step hvustep
    constructor <;> grind [added]
  | respawn i =>
    obtain ⟨-, hstep⟩ := Option.ite_none_right_eq_some.1 hstep
    cases hstep
    constructor <;> simpa [Vu.fresh, Vu.tokens, added]
  | addTokens n | setPaused paused | requestStop =>
    cases hstep
    constructor <;> grind [added]

/-- However the users interleave, no completed iteration is lost or counted twice, and with an
    arrival rate, no iteration starts without a token. -/
theorem run_accounts {vus : ℕ} {as : List RunAction}
    (h : (vuLoop shared).exec (start vus) as = some s) :
    s.totalIterations = (s.vus.map Vu.iterationIndex).sum ∧ (shared.isArrivalRate →
      s.arrivalTokens + (s.vus.map Vu.iterations).sum ≤
        (vuLoop shared).total added (start vus) as) := by
  have hstart : (start vus).Accounts shared 0 := by
    constructor <;> simp [start, Vu.fresh, Vu.tokens]
  obtain ⟨hcompleted, htokens⟩ := Machine.exec_invariant h hstart fun h hstep => h.step hstep
  rw [Nat.zero_add] at htokens
  refine ⟨hcompleted, fun harrival => (Nat.add_le_add_left ?_ _).trans (htokens harrival)⟩
  exact sum_le_sum fun _ _ => Nat.le_add_right _ _

theorem run_accounts_one : ∃ s, (vuLoop ⟨1, false, true⟩).exec (start 1)
      (.addTokens 2 :: replicate 8 (.vu 0 .next) ++ [.vu 0 (.complete false)]) = some s ∧
    s.totalIterations = 1 ∧ s.arrivalTokens + (s.vus.map Vu.iterations).sum ≤ 2 :=
  ⟨_, rfl, rfl, (@run_accounts ⟨1, false, true⟩ _ 1 (.addTokens 2 :: replicate 8 (.vu 0 .next) ++
    [.vu 0 (.complete false)]) rfl).2 rfl⟩

end RunState

end Tropel
