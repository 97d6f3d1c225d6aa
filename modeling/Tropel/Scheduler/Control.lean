import Tropel.Scheduler.Pool

/-!
# Externally controlled virtual users

The executor spawns the initial users, and then keeps comparing the target that the control API has
set with its count of the spawned users, `controlSpawned`.

* `controlSpawned_eq_iff`: when the count is exact;
* `unclaimed_le_maxVus`: the maximum is kept.
-/

namespace Tropel

open Lib Option Nat

inductive ControlPc
  | seed (vus maxVus : ℕ)
  | readInitial
  | spawnInitial (n initial : ℕ)
  | storeSpawned (initial : ℕ)
  | register (initial : ℕ)
  | loop
  | check
  | readTarget
  | readSpawned (target : ℕ)
  | clearTarget (target spawned : ℕ)
  | clearRemaining (target spawned : ℕ)
  | spawning (n target spawned : ℕ)
  | addSpawned (target spawned : ℕ)
  | readRemaining (target spawned : ℕ)
  | armTarget (target spawned : ℕ)
  | armRemaining (target spawned : ℕ)
  | readActive (target : ℕ)
  | resetTarget
  | resetRemaining
  | done
  deriving DecidableEq, Repr

structure ControlState extends Scheduler where
  controlHardMax : ℕ
  controlMaxVus : ℕ
  controlTargetVus : ℕ
  controlPaused : Bool
  stopRequested : Bool
  pc : ControlPc
  deriving DecidableEq, Repr

inductive ControlAction
  | vu (i : ℕ) (a : VuAction)
  | advance
  | expire
  | elapse
  | setControlTarget (vus maxVus : ℕ)
  | setPaused (paused : Bool)
  | requestStop
  deriving DecidableEq, Repr

namespace ControlState

def start (vus maxVus : ℕ) : ControlState :=
  { vus := [], rampDownTarget := none, rampDownRemaining := 0, controlSpawned := 0
    controlHardMax := 2 ^ 32 - 1, controlMaxVus := 0, controlTargetVus := 0
    controlPaused := false, stopRequested := false, pc := .seed vus maxVus }

def advance (s : ControlState) : Option ControlState :=
  match s.pc with
  | .seed vus maxVus =>
    some { s with
      controlHardMax := maxVus
      controlMaxVus := maxVus
      controlTargetVus := min vus maxVus
      pc := .readInitial }
  | .readInitial => some { s with pc := .spawnInitial 0 s.controlTargetVus }
  | .spawnInitial n initial =>
    if n < initial then some { s with
      toScheduler := s.spawn 1, pc := .spawnInitial (n + 1) initial }
    else some { s with pc := .storeSpawned initial }
  | .storeSpawned initial => some { s with controlSpawned := initial, pc := .register initial }
  | .register initial => some (if s.active < initial then s else { s with pc := .loop })
  | .loop => some { s with toScheduler := s.toScheduler.retain, pc := .check }
  | .check =>
    if s.stopRequested then some { s with pc := .done }
    else some { s with pc := if s.controlPaused then .loop else .readTarget }
  | .readTarget => some { s with pc := .readSpawned (min s.controlTargetVus s.controlMaxVus) }
  | .readSpawned target =>
    some { s with
      pc := if target > s.controlSpawned then .clearTarget target s.controlSpawned
        else if target < s.controlSpawned then .readRemaining target s.controlSpawned
        else .loop }
  | .clearTarget target spawned =>
    some { s with rampDownTarget := none, pc := .clearRemaining target spawned }
  | .clearRemaining target spawned =>
    some { s with rampDownRemaining := 0, pc := .spawning spawned target spawned }
  | .spawning n target spawned =>
    if n < target then
      some { s with toScheduler := s.spawn 1, pc := .spawning (n + 1) target spawned }
    else some { s with pc := .addSpawned target spawned }
  | .addSpawned target spawned =>
    some { s with controlSpawned := s.controlSpawned + (target - spawned), pc := .loop }
  | .readRemaining target spawned =>
    some { s with
      pc := if s.rampDownRemaining = 0 then .armTarget target spawned else .readActive target }
  | .armTarget target spawned =>
    some { s with rampDownTarget := some target, pc := .armRemaining target spawned }
  | .armRemaining target spawned =>
    some { s with rampDownRemaining := spawned - target, pc := .loop }
  | .readActive target => some { s with pc := if s.active ≤ target then .resetTarget else .loop }
  | .resetTarget => some { s with rampDownTarget := none, pc := .resetRemaining }
  | .resetRemaining => some { s with rampDownRemaining := 0, pc := .loop }
  | .done => none

def setControlTarget (s : ControlState) (vus maxVus : ℕ) : ControlState :=
  let max := min maxVus s.controlHardMax
  { s with controlMaxVus := max, controlTargetVus := min vus max }

end ControlState

def controlled : Machine ControlState ControlAction where
  step s
    | .vu i a => (s.vuStep i a).map fun sched => { s with toScheduler := sched }
    | .advance => s.advance
    | .expire => match s.pc with
      | .register _ => some { s with pc := .loop }
      | _ => none
    | .elapse => if s.pc = .check then some { s with pc := .done, stopRequested := true } else none
    | .setControlTarget vus maxVus => some (s.setControlTarget vus maxVus)
    | .setPaused paused => some { s with controlPaused := paused }
    | .requestStop => some { s with stopRequested := true }

namespace ControlPc

def pending : ControlPc → ℕ
  | spawnInitial n _ => n
  | storeSpawned initial => initial
  | spawning n _ spawned => n - spawned
  | addSpawned target spawned => target - spawned
  | _ => 0

def Ready (controlSpawned : ℕ) : ControlPc → Prop
  | seed _ _ | readInitial | storeSpawned _ => controlSpawned = 0
  | spawnInitial n initial => controlSpawned = 0 ∧ n ≤ initial
  | clearTarget target spawned | clearRemaining target spawned => spawned ≤ target
  | spawning n target spawned => spawned ≤ n ∧ n ≤ target
  | _ => True

theorem Ready.mono {m n : ℕ} {pc : ControlPc} (h : pc.Ready n) (hle : m ≤ n) : pc.Ready m := by
  cases pc with
  | seed | readInitial | storeSpawned => exact le_zero.1 (h ▸ hle)
  | spawnInitial => exact ⟨le_zero.1 (h.1 ▸ hle), h.2⟩
  | _ => exact h

end ControlPc

namespace ControlState

variable {s s' : ControlState}

/-- The users that a step leaves on the count for ever: the one that exits when the
    count is `0`. -/
def miscounted (s : ControlState) : ControlAction → ℕ
  | .vu i a => if s.exits i a ∧ s.controlSpawned = 0 then 1 else 0
  | _ => 0

structure CountInv (s : ControlState) (lost : ℕ) : Prop where
  count : s.controlSpawned + s.pc.pending = s.unclaimed + lost
  ready : s.pc.Ready s.controlSpawned

theorem countInv_start (vus maxVus : ℕ) : (start vus maxVus).CountInv 0 := ⟨rfl, rfl⟩

theorem CountInv.vuStep {lost i : ℕ} {a : VuAction} {sched : Scheduler} (h : s.CountInv lost)
    (hstep : s.vuStep i a = some sched) :
    CountInv { s with toScheduler := sched } (lost + s.miscounted (.vu i a)) := by
  -- A user only lowers the count, so that what is `0` stays so.
  refine ⟨?_, h.ready.mono (Scheduler.controlSpawned_le_of_vuStep hstep)⟩
  have hcount := h.count
  have hstep := Scheduler.controlSpawned_vuStep hstep
  rw [miscounted]
  dsimp only
  omega

theorem CountInv.advance {lost : ℕ} (h : s.CountInv lost) (hstep : s.advance = some s') :
    s'.CountInv lost := by
  obtain ⟨hcount, hready⟩ := h
  rw [ControlState.advance] at hstep
  cases hpc : s.pc <;> rw [hpc] at hcount hready hstep
  case seed => cases hstep; exact ⟨hcount, hready⟩
  case readInitial => cases hstep; exact ⟨hcount, hready, zero_le _⟩
  case spawnInitial n initial =>
    dsimp only at hstep
    split at hstep <;> cases hstep
    next hlt =>
      refine ⟨?_, hready.1, hlt⟩
      change s.controlSpawned + n = s.unclaimed + lost at hcount
      change s.controlSpawned + (n + 1) = (s.spawn 1).unclaimed + lost
      rw [Scheduler.unclaimed_spawn]
      omega
    next hlt =>
      obtain rfl : n = initial := le_antisymm hready.2 (not_lt.1 hlt)
      exact ⟨hcount, hready.1⟩
  case storeSpawned initial =>
    cases hstep
    -- The store overwrites the count, which is `0`.
    exact ⟨(add_comm initial 0).trans (hready ▸ hcount), trivial⟩
  case register =>
    cases hstep
    split
    · exact ⟨by rw [hpc]; exact hcount, by rw [hpc]; exact hready⟩
    · exact ⟨hcount, trivial⟩
  case loop =>
    cases hstep
    refine ⟨?_, trivial⟩
    rw [Scheduler.unclaimed_retain]
    exact hcount
  case check =>
    dsimp only at hstep
    split at hstep <;> cases hstep
    · exact ⟨hcount, trivial⟩
    · split <;> exact ⟨hcount, trivial⟩
  case readSpawned target =>
    cases hstep
    split
    next hlt => exact ⟨hcount, le_of_lt hlt⟩
    · split <;> exact ⟨hcount, trivial⟩
  case clearTarget => cases hstep; exact ⟨hcount, hready⟩
  case clearRemaining target spawned =>
    cases hstep
    exact ⟨(congrArg _ (Nat.sub_self spawned)).trans hcount, Nat.le_refl _, hready⟩
  case spawning n target spawned =>
    dsimp only at hstep
    split at hstep <;> cases hstep
    next hlt =>
      refine ⟨?_, le_succ_of_le hready.1, hlt⟩
      have hle := hready.1
      change s.controlSpawned + (n - spawned) = s.unclaimed + lost at hcount
      change s.controlSpawned + (n + 1 - spawned) = (s.spawn 1).unclaimed + lost
      rw [Scheduler.unclaimed_spawn]
      omega
    next hlt =>
      obtain rfl : n = target := le_antisymm hready.2 (not_lt.1 hlt)
      exact ⟨hcount, trivial⟩
  case addSpawned target spawned =>
    cases hstep
    exact ⟨hcount, trivial⟩
  case readRemaining | readActive =>
    cases hstep
    split <;> exact ⟨hcount, trivial⟩
  case done => cases hstep
  -- The other steps do not touch the count.
  case readTarget | armTarget | armRemaining | resetTarget | resetRemaining =>
    cases hstep
    exact ⟨hcount, trivial⟩

theorem CountInv.step {lost : ℕ} {a : ControlAction} (h : s.CountInv lost)
    (hstep : controlled.step s a = some s') : s'.CountInv (lost + s.miscounted a) := by
  cases a with
  | vu i a =>
    obtain ⟨sched, hsched, rfl⟩ := map_eq_some_iff.1 hstep
    exact h.vuStep hsched
  | advance => exact h.advance hstep
  | expire =>
    obtain ⟨hcount, -⟩ := h
    cases hpc : s.pc <;> simp only [controlled, hpc] at hstep <;> cases hstep
    rw [hpc] at hcount
    exact ⟨hcount, trivial⟩
  | elapse =>
    obtain ⟨hpc, hstep⟩ := ite_none_right_eq_some.1 hstep
    cases hstep
    have hcount := h.count
    rw [hpc] at hcount
    exact ⟨hcount, trivial⟩
  | setControlTarget vus maxVus | setPaused paused | requestStop =>
    cases hstep
    exact ⟨h.count, h.ready⟩

/-- Between two iterations of the control loop, the count is exact if and only if no
    user has exited while it was `0`. -/
theorem controlSpawned_eq_iff {vus maxVus : ℕ} {as : List ControlAction}
    (h : controlled.exec (start vus maxVus) as = some s) (hpc : s.pc = .loop) :
    s.controlSpawned = s.unclaimed ↔ controlled.total miscounted (start vus maxVus) as = 0 := by
  have hinv := Machine.exec_invariant (w := miscounted) (P := CountInv) h
    (countInv_start vus maxVus) fun h hstep => h.step hstep
  have hcount := hinv.count
  have hpending : s.pc.pending = 0 := by rw [hpc]; rfl
  omega

theorem controlSpawned_eq_one : ∃ s,
    controlled.exec (start 2 3) [.advance, .advance, .advance, .advance, .advance, .advance,
      .vu 0 .acquire, .vu 1 .acquire, .advance, .vu 0 .leave] = some s ∧ s.unclaimed = 1 ∧
      s.controlSpawned = s.unclaimed := by
  have h : (controlled.exec (start 2 3) [.advance, .advance, .advance, .advance, .advance, .advance,
      .vu 0 .acquire, .vu 1 .acquire, .advance, .vu 0 .leave]).any fun s =>
      s.pc = .loop ∧ s.unclaimed = 1 := by decide
  obtain ⟨s, hs, hx⟩ := (any_eq_true _ _).1 h
  rw [decide_eq_true_eq] at hx
  exact ⟨s, hs, hx.2, (controlSpawned_eq_iff hs hx.1).2 (by decide)⟩

theorem controlSpawned_ne_unclaimed : ∃ s, controlled.Reachable (start 1 1) s ∧ s.pc = .loop ∧
    s.controlSpawned = 1 ∧ s.unclaimed = 0 := by
  have h : (controlled.exec (start 1 1) [.advance, .advance, .advance, .vu 0 .acquire,
      .vu 0 .leave, .advance, .advance, .expire]).any fun s =>
      s.pc = .loop ∧ s.controlSpawned = 1 ∧ s.unclaimed = 0 := by decide
  obtain ⟨s, hs, hx⟩ := (any_eq_true _ _).1 h
  exact ⟨s, Machine.reachable_of_exec hs, of_decide_eq_true hx⟩

end ControlState

/-! ## The largest number of users -/

def ControlPc.Capped (max controlSpawned : ℕ) : ControlPc → Prop
  | seed _ maxVus => maxVus = max
  | spawnInitial _ target | storeSpawned target | readSpawned target => target ≤ max
  | clearTarget target spawned | clearRemaining target spawned | spawning _ target spawned
  | addSpawned target spawned => target ≤ max ∧ controlSpawned ≤ spawned
  | _ => True

namespace ControlState

variable {max : ℕ} {s s' : ControlState} {a : ControlAction}

structure CapInv (max : ℕ) (s : ControlState) : Prop where
  capped : s.pc.Capped max s.controlSpawned
  spawned : s.controlSpawned ≤ max
  limits : (∀ vus maxVus, s.pc ≠ .seed vus maxVus) →
    s.controlHardMax = max ∧ s.controlMaxVus ≤ max ∧ s.controlTargetVus ≤ max

theorem CapInv.advance (h : s.CapInv max) (hstep : s.advance = some s') : s'.CapInv max := by
  obtain ⟨hcapped, hspawned, hlimits⟩ := h
  rw [ControlState.advance] at hstep
  -- What is spawned is counted up to the target, which was read within the limits.
  cases hpc : s.pc <;> rw [hpc] at hcapped hlimits hstep <;>
    constructor <;> grind [ControlPc.Capped, Scheduler.spawn, Scheduler.retain]

theorem CapInv.step (h : s.CapInv max) (hstep : controlled.step s a = some s') : s'.CapInv max := by
  cases a with
  | vu i a =>
    obtain ⟨sched, hsched, rfl⟩ := map_eq_some_iff.1 hstep
    have hle := Scheduler.controlSpawned_le_of_vuStep hsched
    obtain ⟨hcapped, hspawned, hlimits⟩ := h
    refine ⟨?_, hle.trans hspawned, hlimits⟩
    revert hcapped
    cases s.pc <;> grind [ControlPc.Capped]
  | advance => exact h.advance hstep
  | expire | elapse | setControlTarget | setPaused | requestStop =>
    obtain ⟨hcapped, hspawned, hlimits⟩ := h
    simp only [controlled] at hstep
    constructor <;> grind [ControlPc.Capped, setControlTarget]

/-- Whatever targets are set and however the users interleave, no more than `maxVus` of them have
    not begun to exit. -/
theorem unclaimed_le_maxVus {vus maxVus : ℕ} {as : List ControlAction}
    (h : controlled.exec (start vus maxVus) as = some s) : s.unclaimed ≤ maxVus := by
  obtain ⟨hcount, hready⟩ := Machine.exec_invariant h (countInv_start vus maxVus) fun h hstep =>
    h.step hstep
  have hcap : s.CapInv maxVus := (Machine.reachable_of_exec h).invariant
    ⟨rfl, Nat.zero_le _, fun h => absurd rfl (h vus maxVus)⟩ fun h hstep => h.step hstep
  obtain ⟨hcapped, hspawned, -⟩ := hcap
  cases hpc : s.pc <;> rw [hpc] at hcount hready hcapped <;>
    grind [ControlPc.Capped, ControlPc.pending, ControlPc.Ready]

theorem unclaimed_le_one :
    ∃ s, controlled.exec (start 2 1) [.advance, .advance, .advance, .setControlTarget 5 5] =
    some s ∧ s.unclaimed = 1 ∧ s.unclaimed ≤ 1 :=
  ⟨_, rfl, rfl,
    @unclaimed_le_maxVus _ 2 1 [.advance, .advance, .advance, .setControlTarget 5 5] rfl⟩

end ControlState

end Tropel
