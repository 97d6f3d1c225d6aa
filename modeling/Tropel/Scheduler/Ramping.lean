import Tropel.Scheduler.Pool

/-!
# Ramping virtual users

The ramping executor goes through stages, each with a target for the number of virtual users.

* `currentTarget_le_unclaimed`: not too many are removed;
* `live_le_stageTarget_iff`: when a hold keeps its target.
-/

namespace Tropel

open Lib Option Nat

inductive RampingPc
  | nextStage
  | clearTarget (growing : Bool)
  | clearRemaining (growing : Bool)
  | spawning
  | armTarget (newTarget : ℕ)
  | armRemaining (newTarget : ℕ)
  | readReal
  | storeTarget (real : ℕ)
  | storeRemaining (real : ℕ)
  | drain
  | adopt
  | retain
  | hold
  | done
  deriving DecidableEq, Repr

structure RampingState extends Scheduler where
  currentVus : ℕ
  stageTarget : ℕ
  stages : List ℕ
  pc : RampingPc
  stopRequested : Bool
  deriving DecidableEq, Repr

inductive RampingAction
  | vu (i : ℕ) (a : VuAction)
  | advance
  | expire
  | reap
  | endHold
  | requestStop
  deriving DecidableEq, Repr

namespace RampingState

def start (startVus : ℕ) (stages : List ℕ) : RampingState :=
  { vus := List.replicate startVus .spawned, rampDownTarget := none, rampDownRemaining := 0
    controlSpawned := 0, currentVus := startVus, stageTarget := startVus, stages, pc := .nextStage
    stopRequested := false }

def beginStage (s : RampingState) : RampingState :=
  match s.stages with
  | [] => { s with pc := .done, stopRequested := true }
  | target :: stages =>
    { s with
      stageTarget := target
      stages
      pc := if target > s.currentVus then .clearTarget true
        else if target < s.currentVus then .armTarget (s.currentVus - 1)
        else .hold }

def advance (s : RampingState) : Option RampingState :=
  match s.pc with
  | .nextStage => some s.beginStage
  | .clearTarget growing => some { s with rampDownTarget := none, pc := .clearRemaining growing }
  | .clearRemaining true => some { s with rampDownRemaining := 0, pc := .spawning }
  | .clearRemaining false =>
    some { s with rampDownRemaining := 0, currentVus := s.stageTarget, pc := .retain }
  | .spawning =>
    if s.currentVus < s.stageTarget then
      some { s with toScheduler := s.spawn 1, currentVus := s.currentVus + 1 }
    else some { s with pc := .nextStage }
  | .armTarget newTarget =>
    some { s with rampDownTarget := some newTarget, pc := .armRemaining newTarget }
  | .armRemaining newTarget =>
    some { s with
      rampDownRemaining := s.rampDownRemaining + 1
      pc := if newTarget ≤ s.stageTarget then .readReal else .armTarget (newTarget - 1) }
  | .readReal => some { s with pc := .storeTarget s.active }
  | .storeTarget real =>
    some { s with rampDownTarget := some s.stageTarget, pc := .storeRemaining real }
  | .storeRemaining real =>
    some { s with rampDownRemaining := real - s.stageTarget, pc := .drain }
  | .drain => some (if s.active ≤ s.stageTarget then { s with pc := .clearTarget false } else s)
  | .adopt => some { s with currentVus := s.active, pc := .retain }
  | .retain => some { s with toScheduler := s.toScheduler.retain, pc := .nextStage }
  | .hold => none
  | .done => none

def reap (s : RampingState) : RampingState :=
  if s.stopRequested ∨ s.rampDownTarget.isSome then s
  else { s with toScheduler := s.reapAndRespawn }

end RampingState

def ramping : Machine RampingState RampingAction where
  step s
    | .vu i a => (s.vuStep i a).map fun sched => { s with toScheduler := sched }
    | .advance => s.advance
    | .expire => if s.pc = .drain then some { s with pc := .adopt } else none
    | .reap =>
      if s.pc = .hold ∨ (s.pc = .spawning ∧ s.currentVus < s.stageTarget) then some s.reap else none
    | .endHold => if s.pc = .hold then some { s with pc := .nextStage } else none
    | .requestStop => some { s with stopRequested := true }

namespace RampingState

variable {s s' s₀ : RampingState}

/-! ## Ramping down -/

def currentTarget (s : RampingState) : Option ℕ :=
  match s.pc with
  | .armTarget newTarget => some (newTarget + 1)
  | .armRemaining newTarget => some newTarget
  | .readReal | .storeTarget _ | .storeRemaining _ | .drain | .clearTarget false
  | .clearRemaining false | .adopt | .retain => some s.stageTarget
  | _ => none

def reserved (s : RampingState) : Option ℕ :=
  match s.pc with
  | .armTarget newTarget | .armRemaining newTarget => some (newTarget + 1)
  | .readReal | .storeTarget _ | .storeRemaining _ | .drain | .clearTarget false
  | .clearRemaining false | .adopt | .retain => some s.stageTarget
  | _ => none

theorem exists_reserved {target : ℕ} (h : s.currentTarget = some target) :
    ∃ k, s.reserved = some k ∧ target ≤ k := by
  rw [currentTarget] at h
  rw [reserved]
  cases hpc : s.pc with
  | armTarget n | armRemaining n => simp_all
  | clearTarget growing | clearRemaining growing => cases growing <;> simp_all
  | _ => simp_all

/-- A step of a ramp-down that removes no more users than asked. Nobody leaves
    without a slot. The stage starts with all users it counts on, and without slots
    from an earlier one. And the number of leases from which the slots are armed
    again is not more than that of the users that have not claimed one, or than the
    target. -/
def Orderly (s : RampingState) : RampingAction → Prop
  | .vu _ a => a ≠ .leave
  | .advance => match s.pc with
    | .nextStage => ∀ target ∈ s.stages.head?, target < s.currentVus →
        s.rampDownRemaining = 0 ∧ s.currentVus ≤ s.unclaimed
    | .storeRemaining real => real ≤ s.unclaimed ∨ real ≤ s.stageTarget
    | _ => True
  | _ => True

instance (s : RampingState) (a : RampingAction) : Decidable (s.Orderly a) := by
  simp only [Orderly]
  split <;> (try split) <;> infer_instance

structure SlotsInv (s : RampingState) : Prop where
  slots : ∀ k, s.reserved = some k → k + s.rampDownRemaining ≤ s.unclaimed
  steps : ∀ n, s.pc = .armTarget n ∨ s.pc = .armRemaining n → s.stageTarget ≤ n

theorem slotsInv_start (startVus : ℕ) (stages : List ℕ) : (start startVus stages).SlotsInv :=
  ⟨nofun, by rintro n (h | h) <;> cases h⟩

theorem slotsInv_of_reserved (h : s.reserved = none) : s.SlotsInv := by
  refine ⟨fun k hk => absurd (h.symm.trans hk) nofun, ?_⟩
  rintro n (hn | hn) <;> rw [reserved, hn] at h <;> cases h

theorem SlotsInv.beginStage (hpc : s.pc = .nextStage) (hord : s.Orderly .advance) :
    s.beginStage.SlotsInv := by
  rw [Orderly, hpc] at hord
  rw [RampingState.beginStage]
  split
  · exact slotsInv_of_reserved rfl
  next target stages hstages =>
    split
    · exact slotsInv_of_reserved rfl
    split
    next hlt =>
      -- A ramp-down: all users it counts on are there, and no slots are left over.
      obtain ⟨hrem, hcur⟩ := hord target (by rw [hstages]; rfl) hlt
      refine ⟨fun k hk => ?_, fun n hn => ?_⟩
      · cases hk
        change s.currentVus - 1 + 1 + s.rampDownRemaining ≤ s.unclaimed
        omega
      · rcases hn with hn | hn
        · cases hn
          change target ≤ s.currentVus - 1
          omega
        · cases hn
    · exact slotsInv_of_reserved rfl

theorem slotsInv_tail (hres : s.reserved = some s.stageTarget)
    (hpc : ∀ n, s.pc ≠ .armTarget n ∧ s.pc ≠ .armRemaining n)
    (hle : s.stageTarget + s.rampDownRemaining ≤ s.unclaimed) : s.SlotsInv := by
  refine ⟨fun k hk => ?_, fun n hn => ?_⟩
  · obtain rfl := some.inj (hres.symm.trans hk)
    exact hle
  · rcases hn with hn | hn
    · exact absurd hn (hpc n).1
    · exact absurd hn (hpc n).2

theorem SlotsInv.armTarget {n : ℕ} (h : s.SlotsInv) (hpc : s.pc = .armTarget n) :
    SlotsInv { s with rampDownTarget := some n, pc := .armRemaining n } := by
  have hslots := h.slots (n + 1) (by rw [reserved, hpc])
  refine ⟨fun k hk => ?_, fun m hm => ?_⟩
  · cases hk
    exact hslots
  · rcases hm with hm | hm <;> cases hm
    exact h.steps n (.inl hpc)

theorem SlotsInv.armRemaining {n : ℕ} (h : s.SlotsInv) (hpc : s.pc = .armRemaining n) :
    SlotsInv { s with
      rampDownRemaining := s.rampDownRemaining + 1
      pc := if n ≤ s.stageTarget then .readReal else .armTarget (n - 1) } := by
  have hslots := h.slots (n + 1) (by rw [reserved, hpc])
  have hsteps := h.steps n (.inr hpc)
  split
  next hle =>
    -- The last step, at the target of the stage.
    refine slotsInv_tail rfl (by simp) ?_
    change s.stageTarget + (s.rampDownRemaining + 1) ≤ s.unclaimed
    omega
  next hlt =>
    refine ⟨fun k hk => ?_, fun m hm => ?_⟩
    · cases hk
      change n - 1 + 1 + (s.rampDownRemaining + 1) ≤ s.unclaimed
      omega
    · rcases hm with hm | hm <;> cases hm
      change s.stageTarget ≤ n - 1
      omega

theorem SlotsInv.advance (h : s.SlotsInv) (hord : s.Orderly .advance)
    (hstep : s.advance = some s') : s'.SlotsInv := by
  have htail : s.reserved = some s.stageTarget →
      s.stageTarget + s.rampDownRemaining ≤ s.unclaimed := h.slots _
  rw [RampingState.advance] at hstep
  rw [reserved] at htail
  cases hpc : s.pc with
  | nextStage =>
    rw [hpc] at hstep
    cases hstep
    exact .beginStage hpc hord
  | clearTarget growing =>
    rw [hpc] at hstep htail
    cases hstep
    cases growing with
    | true => exact slotsInv_of_reserved rfl
    | false => exact slotsInv_tail rfl (by simp) (htail rfl)
  | clearRemaining growing =>
    rw [hpc] at hstep htail
    cases growing with
    | true =>
      cases hstep
      exact slotsInv_of_reserved rfl
    | false =>
      cases hstep
      exact slotsInv_tail rfl (by simp) (le_of_add_right_le (htail rfl))
  | spawning =>
    rw [hpc] at hstep
    dsimp only at hstep
    split at hstep <;> cases hstep
    · exact slotsInv_of_reserved rfl
    · exact slotsInv_of_reserved rfl
  | armTarget n =>
    rw [hpc] at hstep
    cases hstep
    exact h.armTarget hpc
  | armRemaining n =>
    rw [hpc] at hstep
    cases hstep
    exact h.armRemaining hpc
  | readReal | storeTarget real | adopt =>
    rw [hpc] at hstep htail
    cases hstep
    exact slotsInv_tail rfl (by simp) (htail rfl)
  | storeRemaining real =>
    rw [hpc] at hstep htail
    rw [Orderly, hpc] at hord
    cases hstep
    -- Here the leases of users that have claimed would count once more.
    refine slotsInv_tail rfl (by simp) ?_
    have := htail rfl
    change s.stageTarget + (real - s.stageTarget) ≤ s.unclaimed
    rcases hord with hord | hord <;> omega
  | drain =>
    rw [hpc] at hstep htail
    cases hstep
    split
    · exact slotsInv_tail rfl (by simp) (htail rfl)
    · exact h
  | retain =>
    rw [hpc] at hstep
    cases hstep
    exact slotsInv_of_reserved rfl
  | hold | done => rw [hpc] at hstep; cases hstep

theorem SlotsInv.vuStep {sched : Scheduler} {i : ℕ} {a : VuAction} (h : s.SlotsInv)
    (ha : a ≠ .leave) (hstep : s.vuStep i a = some sched) :
    SlotsInv { s with toScheduler := sched } := by
  refine ⟨fun k hk => ?_, h.steps⟩
  have hslots := h.slots k hk
  have hcount := Scheduler.unclaimed_vuStep ha hstep
  dsimp only
  omega

theorem SlotsInv.step {a : RampingAction} (h : s.SlotsInv) (hord : s.Orderly a)
    (hstep : ramping.step s a = some s') : s'.SlotsInv := by
  cases a with
  | vu i a =>
    obtain ⟨sched, hsched, rfl⟩ := map_eq_some_iff.1 hstep
    exact h.vuStep hord hsched
  | advance => exact h.advance hord hstep
  | expire =>
    obtain ⟨hpc, hstep⟩ := ite_none_right_eq_some.1 hstep
    cases hstep
    exact slotsInv_tail rfl (by simp) (h.slots _ (by rw [reserved, hpc]))
  | reap =>
    obtain ⟨hpc, hstep⟩ := ite_none_right_eq_some.1 hstep
    cases hstep
    refine slotsInv_of_reserved ?_
    rw [reserved, show s.reap.pc = s.pc by rw [RampingState.reap]; split <;> rfl]
    rcases hpc with hpc | ⟨hpc, -⟩ <;> rw [hpc]
  | endHold =>
    obtain ⟨-, hstep⟩ := ite_none_right_eq_some.1 hstep
    cases hstep
    exact slotsInv_of_reserved rfl
  | requestStop =>
    cases hstep
    exact ⟨h.slots, h.steps⟩

/-- A ramp-down whose steps are all orderly removes no more users than asked. -/
theorem currentTarget_le_unclaimed {startVus target : ℕ} {stages : List ℕ}
    (h : ramping.ReachableWith Orderly (start startVus stages) s)
    (htarget : s.currentTarget = some target) : target ≤ s.unclaimed := by
  have hinv : s.SlotsInv := h.invariant (slotsInv_start _ _) fun h hord hstep => h.step hord hstep
  obtain ⟨k, hk, hle⟩ := exists_reserved htarget
  have := hinv.slots k hk
  omega

theorem currentTarget_le_unclaimed_one : ∃ s,
    ramping.ReachableWith Orderly (start 2 [1]) s ∧ s.currentTarget = some 1 ∧ s.unclaimed = 1 ∧
      1 ≤ s.unclaimed := by
  have h : ((ramping.guard Orderly).exec (start 2 [1])
      [.vu 0 .acquire, .vu 1 .acquire, .advance, .advance, .advance, .vu 0 .readActive,
        .vu 0 .compare, .vu 0 .claim, .vu 0 .release, .advance, .advance, .advance]).any
      fun s => s.currentTarget = some 1 ∧ s.unclaimed = 1 := by decide
  obtain ⟨s, hs, hx⟩ := (any_eq_true _ _).1 h
  rw [decide_eq_true_eq] at hx
  have hreach := Machine.reachableWith_of_guard hs
  exact ⟨s, hreach, hx.1, hx.2, currentTarget_le_unclaimed hreach hx.1⟩

theorem unclaimed_lt_currentTarget : ∃ s, ramping.Reachable (start 2 [1]) s ∧
    s.currentTarget = some 1 ∧ s.unclaimed = 0 := by
  have h : (ramping.exec (start 2 [1])
      [.vu 0 .acquire, .vu 1 .acquire, .advance, .advance, .advance, .vu 0 .readActive,
        .vu 0 .compare, .vu 0 .claim, .advance, .advance, .advance, .vu 1 .readActive,
        .vu 1 .compare, .vu 1 .claim]).any
      fun s => s.currentTarget = some 1 ∧ s.unclaimed = 0 := by decide
  obtain ⟨s, hs, hx⟩ := (any_eq_true _ _).1 h
  rw [decide_eq_true_eq] at hx
  exact ⟨s, Machine.reachable_of_exec hs, hx⟩

/-! ## Holding -/

def Holding (s : RampingState) (_ : RampingAction) : Prop := s.pc = .hold

instance (s : RampingState) (a : RampingAction) : Decidable (s.Holding a) :=
  inferInstanceAs (Decidable (s.pc = .hold))

structure HoldInv (t : ℕ) (s : RampingState) : Prop where
  live : s.live ≤ t
  replaced : s.stopRequested ∨ s.rampDownTarget.isSome ∨ s.handles ≤ t

theorem HoldInv.reap {t : ℕ} (h : s.HoldInv t) : s.reap.HoldInv t := by
  rw [RampingState.reap]
  split
  · exact h
  next hcond =>
    push Not at hcond
    -- A replacement takes over the handle of the user that it replaces.
    have hle : s.handles ≤ t := (h.replaced.resolve_left hcond.1).resolve_left hcond.2
    have hle' : s.reapAndRespawn.handles ≤ t := by rwa [Scheduler.handles_reapAndRespawn]
    exact ⟨le_trans (Scheduler.live_le_handles _) hle', .inr (.inr hle')⟩

theorem HoldInv.step {t : ℕ} {a : RampingAction} (h : s.HoldInv t) (hpc : s.Holding a)
    (hstep : ramping.step s a = some s') : s'.HoldInv t := by
  rw [Holding] at hpc
  cases a with
  | vu i a =>
    obtain ⟨sched, hsched, rfl⟩ := map_eq_some_iff.1 hstep
    refine ⟨le_trans (Scheduler.live_vuStep hsched) h.live, ?_⟩
    rw [Scheduler.rampDownTarget_vuStep hsched, Scheduler.handles_vuStep hsched]
    exact h.replaced
  | advance =>
    change s.advance = some s' at hstep
    rw [RampingState.advance, hpc] at hstep
    cases hstep
  | expire =>
    obtain ⟨hpc', -⟩ := ite_none_right_eq_some.1 hstep
    exact absurd (hpc.symm.trans hpc') nofun
  | reap =>
    obtain ⟨-, hstep⟩ := ite_none_right_eq_some.1 hstep
    cases hstep
    exact h.reap
  | endHold =>
    obtain ⟨-, hstep⟩ := ite_none_right_eq_some.1 hstep
    cases hstep
    exact ⟨h.live, h.replaced⟩
  | requestStop =>
    cases hstep
    exact ⟨h.live, .inl rfl⟩

theorem exists_reachable_finished (hpc : s.pc = .hold) :
    ∃ sched, ramping.ReachableWith Holding s { s with toScheduler := sched } ∧
      sched.rampDownTarget = s.rampDownTarget ∧ sched.handles = s.handles ∧
      sched.vus.count .exited = 0 := by
  -- By induction on the number of tasks that have not ended, which ends one by one.
  induction hn : s.vus.count .exited generalizing s with
  | zero => exact ⟨s.toScheduler, .refl, rfl, rfl, hn⟩
  | succ n ih =>
    have hmem : .exited ∈ s.vus := List.count_pos_iff.1 (hn ▸ succ_pos n)
    obtain ⟨i, hi⟩ := List.mem_iff_getElem?.1 hmem
    have hstep : s.vuStep i .finish = some (s.move i .finished) := by
      rw [Scheduler.vuStep]
      rw [hi]
    have hn' : (s.move i .finished).vus.count .exited = n := by
      have hcount := countP_set (p := (· == VuPhase.exited)) hi .finished
      exact succ.inj (hcount.trans hn)
    obtain ⟨sched, hreach, htarget, hhandles, hexited⟩ :=
      ih (s := { s with toScheduler := s.move i .finished }) hpc hn'
    refine ⟨sched, .trans (.step .refl hpc (a := .vu i .finish) ?_) hreach, htarget, ?_, hexited⟩
    · change (s.vuStep i .finish).map _ = _
      rw [hstep]
      rfl
    · exact hhandles.trans (Scheduler.handles_vuStep hstep)

/-- A hold that starts with no more users than its target never runs more, if and only
    if it does not replace anybody or the executor has no more handles than that. -/
theorem live_le_stageTarget_iff (hpc : s₀.pc = .hold) (hlive : s₀.live ≤ s₀.stageTarget) :
    (∀ s, ramping.ReachableWith Holding s₀ s → s.live ≤ s₀.stageTarget) ↔
      s₀.stopRequested ∨ s₀.rampDownTarget.isSome ∨ s₀.handles ≤ s₀.stageTarget := by
  constructor
  · intro h
    by_contra hcond
    push Not at hcond
    -- All tasks that can end do, and the executor replaces them.
    obtain ⟨sched, hreach, htarget, hhandles, hexited⟩ := exists_reachable_finished hpc
    have hreap : RampingState.reap { s₀ with toScheduler := sched } =
        { s₀ with toScheduler := sched.reapAndRespawn } := by
      rw [RampingState.reap, if_neg]
      simp_all
    have hle := h { s₀ with toScheduler := sched.reapAndRespawn }
      (.step hreach hpc (a := .reap) ((if_pos (.inl hpc)).trans (congrArg some hreap)))
    have heq := sched.handles_eq
    rw [Scheduler.live_reapAndRespawn] at hle
    omega
  · intro hcond s h
    exact (h.invariant (P := HoldInv s₀.stageTarget) ⟨hlive, hcond⟩
      fun h hpc hstep => h.step hpc hstep).live

theorem live_le_stageTarget_one : (start 1 [1]).beginStage.pc = .hold ∧
    (start 1 [1]).beginStage.live = 1 ∧
    ∀ s, ramping.ReachableWith Holding (start 1 [1]).beginStage s → s.live ≤ 1 :=
  ⟨rfl, rfl, (live_le_stageTarget_iff rfl (by decide)).2 (by decide)⟩

theorem stageTarget_lt_live : ∃ s₀ s, ramping.Reachable (start 2 [1, 1]) s₀ ∧ s₀.pc = .hold ∧
    s₀.stageTarget = 1 ∧ s₀.live = 1 ∧ ramping.ReachableWith Holding s₀ s ∧ s.live = 2 := by
  have h : ((ramping.exec (start 2 [1, 1])
      [.vu 0 .acquire, .vu 1 .acquire, .advance, .advance, .advance, .vu 0 .readActive,
        .vu 0 .compare, .vu 0 .claim, .vu 0 .release, .advance, .advance, .advance, .advance,
        .advance, .advance, .advance, .advance]).any fun s₀ =>
      s₀.pc = .hold ∧ s₀.stageTarget = 1 ∧ s₀.live = 1 ∧
        ((ramping.guard Holding).exec s₀ [.vu 0 .finish, .reap]).any fun s => s.live = 2) := by
    decide
  obtain ⟨s₀, hs₀, hx⟩ := (any_eq_true _ _).1 h
  rw [decide_eq_true_eq] at hx
  obtain ⟨hpc, htarget, hlive, hx⟩ := hx
  obtain ⟨s, hs, hx⟩ := (any_eq_true _ _).1 hx
  exact ⟨s₀, s, Machine.reachable_of_exec hs₀, hpc, htarget, hlive,
    Machine.reachableWith_of_guard hs, of_decide_eq_true hx⟩

end RampingState

end Tropel
