import Tropel.Scheduler.ArrivalTokens
import Tropel.Scheduler.Pool
import Tropel.Scheduler.Validation

/-!
# The pool of an arrival rate

The arrival-rate executors start with some virtual users, one at least.

* `live_le_maxVus_iff`: when `maxVus` is kept.
-/

namespace Tropel

open Lib Option

/-! ## The executor -/

def maxSpawnPerTick : ℕ := 32

def growBy (maxVus currentVus queued idle : ℕ) : ℕ :=
  if queued = 0 ∨ queued ≤ idle ∨ currentVus ≥ maxVus then 0
  else
    let needed := (queued - idle) % 2 ^ 32
    let growCap := min (maxVus - currentVus) needed
    min growCap maxSpawnPerTick

inductive ArrivalPc
  | preSpawn (left : ℕ)
  | top
  | readQueued
  | readIdle (queued : ℕ)
  | growing (left growBy : ℕ)
  | reap
  | done
  deriving DecidableEq

structure ArrivalPoolState extends Scheduler, ArrivalState where
  currentVus : ℕ
  pc : ArrivalPc
  stopRequested : Bool
  deriving DecidableEq

inductive ArrivalPoolAction
  | vu (i : ℕ) (a : VuAction)
  | tick (globalArrivals : ℕ)
  | advance
  | idle (idle : ℕ)
  | reap
  | endRun
  | acquire
  | takeDropped
  | requestStop
  deriving DecidableEq

variable (parseDuration : String → Result TropelError ℕ)

namespace ExecutionConfig

def arrivalVus : ExecutionConfig → Option (ℕ × ℕ)
  | .constantArrivalRate _ _ _ preAllocVus maxVus _ _ => some (preAllocVus, maxVus)
  | .rampingArrivalRate _ _ _ preAllocVus maxVus _ _ => some (preAllocVus, maxVus)
  | _ => none

def nothingToRun : ExecutionConfig → Bool
  | .rampingArrivalRate _ stages _ _ _ _ _ =>
    (stages.map fun s => (parseDuration s.duration).toOption.getD 0).sum = 0
  | _ => false

end ExecutionConfig

namespace ArrivalPoolState

def start (config : ExecutionConfig) (stripe : ArrivalStripe) : ArrivalPoolState :=
  let idle : ArrivalPoolState :=
    { ArrivalState.start stripe with
      vus := [], rampDownTarget := none, rampDownRemaining := 0, controlSpawned := 0
      currentVus := 0, pc := .done, stopRequested := false }
  match config.arrivalVus with
  | some (preAllocVus, _) =>
    if config.nothingToRun parseDuration then idle
    else { idle with currentVus := max preAllocVus 1, pc := .preSpawn (max preAllocVus 1) }
  | none => idle

variable (s : ArrivalPoolState)

def spawnOne (pc : ArrivalPc) : ArrivalPoolState :=
  { s with toScheduler := s.spawn 1, pc }

def advance : Option ArrivalPoolState :=
  match s.pc with
  | .preSpawn 0 => some { s with pc := .top }
  | .preSpawn (left + 1) => some (s.spawnOne (.preSpawn left))
  | .readQueued => some { s with pc := .readIdle s.arrivalTokens }
  | .growing 0 growBy => some { s with currentVus := s.currentVus + growBy, pc := .reap }
  | .growing (left + 1) growBy => some (s.spawnOne (.growing left growBy))
  | .reap => some { s with pc := .top }
  | _ => none

def grow (maxVus : ℕ) (s : ArrivalPoolState) (idle : ℕ) : Option ArrivalPoolState :=
  match s.pc with
  | .readIdle queued =>
    let n := growBy maxVus s.currentVus queued idle
    some { s with pc := .growing n n }
  | _ => none

def reap : ArrivalPoolState :=
  if s.stopRequested ∨ s.rampDownTarget.isSome then s
  else { s with toScheduler := s.reapAndRespawn }

end ArrivalPoolState

def arrivalPool (maxVus : ℕ) : Machine ArrivalPoolState ArrivalPoolAction where
  step s
    | .vu i a => (s.vuStep i a).map fun sched => { s with toScheduler := sched }
    | .tick globalArrivals =>
      if s.pc = .top ∧ s.stopRequested = false then
        (s.tick maxVus globalArrivals).map fun st =>
          { s with toArrivalState := st, pc := .readQueued }
      else none
    | .advance => s.advance
    | .idle idle => s.grow maxVus idle
    | .reap => if s.pc = .reap then some { s.reap with pc := .top } else none
    | .endRun => if s.pc = .top then some { s with pc := .done, stopRequested := true } else none
    | .acquire => some { s with toArrivalState := s.tryAcquireArrivalToken }
    | .takeDropped => some { s with toArrivalState := s.takeDroppedIterations }
    | .requestStop => some { s with stopRequested := true }

/-! ## The size of the pool -/

theorem growBy_le (maxVus currentVus queued idle : ℕ) :
    growBy maxVus currentVus queued idle ≤ maxVus - currentVus := by
  rw [growBy]
  split
  · exact Nat.zero_le _
  · exact (min_le_left _ _).trans (min_le_left _ _)

namespace ArrivalPoolState

variable {s s' : ArrivalPoolState} {bound maxVus : ℕ}

def pending (s : ArrivalPoolState) : ℕ :=
  match s.pc with
  | .preSpawn left => left
  | .growing left _ => left
  | _ => 0

def planned (s : ArrivalPoolState) : ℕ :=
  match s.pc with
  | .growing _ growBy => s.currentVus + growBy
  | _ => s.currentVus

structure PoolInv (bound : ℕ) (s : ArrivalPoolState) : Prop where
  handles : s.handles + s.pending = s.planned
  planned_le : s.planned ≤ bound

theorem poolInv_start {parseDuration : String → Result TropelError ℕ} {config : ExecutionConfig}
    {preAllocVus : ℕ} {stripe : ArrivalStripe}
    (hvus : config.arrivalVus = some (preAllocVus, maxVus))
    (h : config.nothingToRun parseDuration = false → max preAllocVus 1 ≤ bound) :
    PoolInv bound (start parseDuration config stripe) := by
  simp only [start, hvus]
  split
  next => exact ⟨rfl, Nat.zero_le _⟩
  next hrun => exact ⟨Nat.zero_add _, h (Bool.eq_false_of_not_eq_true hrun)⟩

theorem PoolInv.of_eq (h : PoolInv bound s) (hhandles : s'.handles = s.handles)
    (hpc : s'.pc = s.pc) (hcur : s'.currentVus = s.currentVus) : PoolInv bound s' := by
  have hpending : s'.pending = s.pending := by rw [pending, pending, hpc]
  have hplanned : s'.planned = s.planned := by rw [planned, planned, hpc, hcur]
  exact ⟨by rw [hhandles, hpending, hplanned, h.handles], hplanned ▸ h.planned_le⟩

theorem PoolInv.move (h : PoolInv bound s) (hhandles : s'.handles = s.handles)
    (hcur : s'.currentVus = s.currentVus) (hs : s.pending = 0 ∧ s.planned = s.currentVus)
    (hs' : s'.pending = 0 ∧ s'.planned = s'.currentVus) : PoolInv bound s' := by
  obtain ⟨hsum, hle⟩ := h
  rw [hs.1, hs.2] at hsum
  rw [hs.2] at hle
  exact ⟨by rw [hhandles, hs'.1, hs'.2, hcur, hsum], by rwa [hs'.2, hcur]⟩

theorem PoolInv.spawnOne {pc : ArrivalPc} (h : PoolInv bound s)
    (hpending : s.pending = (s.spawnOne pc).pending + 1)
    (hplanned : (s.spawnOne pc).planned = s.planned) : PoolInv bound (s.spawnOne pc) := by
  have hhandles : (s.spawnOne pc).handles = s.handles + 1 := Scheduler.handles_spawn _ 1
  have hsum := h.handles
  exact ⟨by omega, hplanned ▸ h.planned_le⟩

theorem PoolInv.advance (h : PoolInv bound s) (hstep : s.advance = some s') : PoolInv bound s' := by
  rw [ArrivalPoolState.advance] at hstep
  split at hstep
  next hpc =>
    cases hstep
    exact h.move rfl rfl (by simp [pending, planned, hpc]) ⟨rfl, rfl⟩
  next left hpc =>
    cases hstep
    exact h.spawnOne (by simp [pending, ArrivalPoolState.spawnOne, hpc])
      (by simp [planned, ArrivalPoolState.spawnOne, hpc])
  next hpc =>
    cases hstep
    exact h.move rfl rfl (by simp [pending, planned, hpc]) ⟨rfl, rfl⟩
  next n hpc =>
    -- All of them are spawned, and are counted now.
    cases hstep
    obtain ⟨hsum, hle⟩ := h
    rw [pending, planned, hpc] at hsum
    rw [planned, hpc] at hle
    exact ⟨hsum, hle⟩
  next left n hpc =>
    cases hstep
    exact h.spawnOne (by simp [pending, ArrivalPoolState.spawnOne, hpc])
      (by simp [planned, ArrivalPoolState.spawnOne, hpc])
  next hpc =>
    cases hstep
    exact h.move rfl rfl (by simp [pending, planned, hpc]) ⟨rfl, rfl⟩
  next => cases hstep

theorem PoolInv.grow {idle : ℕ} (h : PoolInv bound s) (hmax : maxVus ≤ bound)
    (hstep : s.grow maxVus idle = some s') : PoolInv bound s' := by
  rw [ArrivalPoolState.grow] at hstep
  split at hstep
  next queued hpc =>
    cases hstep
    obtain ⟨hsum, hle⟩ := h
    rw [pending, planned, hpc] at hsum
    rw [planned, hpc] at hle
    have hgrow := growBy_le maxVus s.currentVus queued idle
    refine ⟨?_, ?_⟩
    · exact congrArg (· + growBy maxVus s.currentVus queued idle) hsum
    · change s.currentVus + growBy maxVus s.currentVus queued idle ≤ bound
      dsimp only at hle
      omega
  next => cases hstep

theorem handles_reap (s : ArrivalPoolState) : s.reap.handles = s.handles := by
  rw [reap]
  split
  · rfl
  · exact Scheduler.handles_reapAndRespawn _

theorem currentVus_reap (s : ArrivalPoolState) : s.reap.currentVus = s.currentVus := by
  rw [reap]
  split <;> rfl

theorem PoolInv.step {a : ArrivalPoolAction} (h : PoolInv bound s) (hmax : maxVus ≤ bound)
    (hstep : (arrivalPool maxVus).step s a = some s') : PoolInv bound s' := by
  cases a with
  | vu i a =>
    obtain ⟨sched, hsched, rfl⟩ := map_eq_some_iff.1 hstep
    exact h.of_eq (Scheduler.handles_vuStep hsched) rfl rfl
  | tick globalArrivals =>
    obtain ⟨⟨hpc, -⟩, hstep⟩ := ite_none_right_eq_some.1 hstep
    obtain ⟨st, -, rfl⟩ := map_eq_some_iff.1 hstep
    exact h.move rfl rfl (by simp [pending, planned, hpc]) ⟨rfl, rfl⟩
  | advance => exact h.advance hstep
  | idle idle => exact h.grow hmax hstep
  | reap =>
    obtain ⟨hpc, hstep⟩ := ite_none_right_eq_some.1 hstep
    cases hstep
    exact h.move (handles_reap s) (currentVus_reap s) (by simp [pending, planned, hpc]) ⟨rfl, rfl⟩
  | endRun =>
    obtain ⟨hpc, hstep⟩ := ite_none_right_eq_some.1 hstep
    cases hstep
    exact h.move rfl rfl (by simp [pending, planned, hpc]) ⟨rfl, rfl⟩
  | acquire | takeDropped | requestStop => exact some_injective _ hstep ▸ h.of_eq rfl rfl rfl

theorem PoolInv.live_le {s₀ : ArrivalPoolState} (h : PoolInv bound s₀) (hmax : maxVus ≤ bound)
    (hs : (arrivalPool maxVus).Reachable s₀ s) : s.live ≤ bound := by
  have hinv : PoolInv bound s := hs.invariant h fun hs hstep => hs.step hmax hstep
  have hlive : s.live ≤ s.handles := Scheduler.live_le_handles _
  have hsum := hinv.handles
  have hle := hinv.planned_le
  omega

theorem exists_reachable_live {left : ℕ} (hpc : s.pc = .preSpawn left) :
    ∃ s', (arrivalPool maxVus).Reachable s s' ∧ s'.live = s.live + left := by
  induction left generalizing s with
  | zero => exact ⟨s, .refl, rfl⟩
  | succ left ih =>
    obtain ⟨s', hs', hlive⟩ := ih (s := s.spawnOne (.preSpawn left)) rfl
    have hstep : (arrivalPool maxVus).step s .advance = some (s.spawnOne (.preSpawn left)) := by
      change s.advance = _
      rw [ArrivalPoolState.advance, hpc]
    refine ⟨s', .trans (.step .refl trivial hstep) hs', ?_⟩
    rw [hlive, show (s.spawnOne (.preSpawn left)).live = s.live + 1 from Scheduler.live_spawn _ 1]
    omega

/-- With an arrival rate and a maximum of one user at least, the users that have not exited are
    within the maximum in all runs if and only if those at the start are, or there is nothing to
    run. -/
theorem live_le_maxVus_iff {parseDuration : String → Result TropelError ℕ}
    {config : ExecutionConfig} {preAllocVus maxVus : ℕ}
    (hvus : config.arrivalVus = some (preAllocVus, maxVus)) (hmax : 1 ≤ maxVus) :
    (∀ stripe s, (arrivalPool maxVus).Reachable (start parseDuration config stripe) s →
      s.live ≤ maxVus) ↔
      preAllocVus ≤ maxVus ∨ config.nothingToRun parseDuration := by
  constructor
  · intro h
    by_contra hnot
    push Not at hnot
    obtain ⟨hlt, hrun⟩ := hnot
    let stripe : ArrivalStripe := ⟨⟨0, 0, [], 0, 0⟩, 0, 0⟩
    have hpc : (start parseDuration config stripe).pc = .preSpawn (max preAllocVus 1) := by
      simp only [start, hvus, if_neg hrun]
    obtain ⟨s, hs, hlive⟩ := exists_reachable_live hpc
    have hle := h stripe s hs
    omega
  · intro h stripe s hs
    refine (poolInv_start hvus fun hrun => ?_).live_le le_rfl hs
    rcases h with h | h
    · exact max_le h hmax
    · rw [hrun] at h
      cases h

def tenPerSecond (preAllocVus maxVus : ℕ) : ExecutionConfig :=
  .constantArrivalRate 10 "1s" "10s" preAllocVus maxVus none default

theorem live_le_maxVus_tenPerSecond : (tenPerSecond 1 5).arrivalVus = some (1, 5) ∧
    ∀ stripe s, (arrivalPool 5).Reachable (start parseSeconds (tenPerSecond 1 5) stripe) s →
      s.live ≤ 5 :=
  ⟨rfl, (live_le_maxVus_iff rfl (by decide)).2 (.inl (by decide))⟩

theorem maxVus_lt_live : validateExecutionConfig parseSeconds (tenPerSecond 2 1) = .ok () ∧
      ∀ stripe, ((arrivalPool 1).exec (start parseSeconds (tenPerSecond 2 1) stripe)
        [.advance, .advance]).map (·.live) = some 2 :=
  ⟨by decide +kernel, fun _ => rfl⟩

end ArrivalPoolState

end Tropel
