import Tropel.Lib.Machine

/-!
# The pool of virtual users

A virtual user is a task.
-/

namespace Tropel

open Lib List

inductive VuPhase
  | spawned
  | running
  | checking (active : ℕ)
  | claiming
  | claimed
  | leaving
  | exited
  | finished
  | reaped
  deriving DecidableEq, Repr

namespace VuPhase

def leased : VuPhase → Bool
  | running | checking _ | claiming | claimed | leaving => true
  | _ => false

def started : VuPhase → Bool
  | spawned | running | checking _ | claiming | claimed | leaving => true
  | _ => false

def unclaimed : VuPhase → Bool
  | spawned | running | checking _ | claiming => true
  | _ => false

def kept : VuPhase → Bool
  | reaped => false
  | _ => true

def retain : VuPhase → VuPhase
  | finished => reaped
  | p => p

theorem kept_of_started {p : VuPhase} (h : p.started) : p.kept := by
  cases p <;> first | rfl | cases h

@[simp] theorem started_retain (p : VuPhase) : p.retain.started = p.started := by cases p <;> rfl

@[simp] theorem unclaimed_retain (p : VuPhase) : p.retain.unclaimed = p.unclaimed := by
  cases p <;> rfl

end VuPhase

structure Scheduler where
  vus : List VuPhase
  rampDownTarget : Option ℕ
  rampDownRemaining : ℕ
  controlSpawned : ℕ
  deriving DecidableEq, Repr

inductive VuAction
  | acquire
  | readActive
  | compare
  | claim
  | leave
  | release
  | finish
  deriving DecidableEq, Repr

namespace Scheduler

variable (s : Scheduler)

def active : ℕ := s.vus.countP VuPhase.leased

def live : ℕ := s.vus.countP VuPhase.started

def unclaimed : ℕ := s.vus.countP VuPhase.unclaimed

def handles : ℕ := s.vus.countP VuPhase.kept

def move (i : ℕ) (p : VuPhase) : Scheduler := { s with vus := s.vus.set i p }

def tryClaim (i : ℕ) : Scheduler :=
  if s.rampDownRemaining > 0 then
    { s.move i .claimed with
      rampDownRemaining := s.rampDownRemaining - 1
      controlSpawned := s.controlSpawned - 1 }
  else s.move i .running

def vuStep (i : ℕ) (a : VuAction) : Option Scheduler :=
  match s.vus[i]?, a with
  | some .spawned, .acquire => some (s.move i .running)
  | some .running, .readActive => some (s.move i (.checking s.active))
  | some (.checking active), .compare =>
    match s.rampDownTarget with
    | none => some (s.move i .running)
    | some target => some (s.move i (if active ≤ target then .running else .claiming))
  | some .claiming, .claim => some (s.tryClaim i)
  | some .running, .leave => some { s.move i .leaving with controlSpawned := s.controlSpawned - 1 }
  | some .claimed, .release => some (s.move i .exited)
  | some .leaving, .release => some (s.move i .exited)
  | some .exited, .finish => some (s.move i .finished)
  | _, _ => none

def exits (i : ℕ) (a : VuAction) : Bool :=
  (s.vus[i]?).any fun
    | .claiming => a = .claim && 0 < s.rampDownRemaining
    | .running => a = .leave
    | _ => false

def spawn (n : ℕ) : Scheduler := { s with vus := s.vus ++ List.replicate n .spawned }

def retain : Scheduler := { s with vus := s.vus.map VuPhase.retain }

def reapAndRespawn : Scheduler := s.retain.spawn (s.vus.count .finished)

/-! ## What the steps do -/

variable {s} {s' : Scheduler} {i : ℕ} {a : VuAction}

inductive Moves (s s' : Scheduler) (i : ℕ) (a : VuAction) : VuPhase → VuPhase → Prop
  | claim : s.exits i a → s'.rampDownRemaining + 1 = s.rampDownRemaining →
      s'.controlSpawned = s.controlSpawned - 1 → Moves s s' i a .claiming .claimed
  | leave : a = .leave → s.exits i a → s'.rampDownRemaining = s.rampDownRemaining →
      s'.controlSpawned = s.controlSpawned - 1 → Moves s s' i a .running .leaving
  | other {p p' : VuPhase} : s.exits i a = false → p'.unclaimed = p.unclaimed →
      (p'.started → p.started) → p'.kept = p.kept →
      s'.rampDownRemaining = s.rampDownRemaining →
      s'.controlSpawned = s.controlSpawned → Moves s s' i a p p'

theorem vuStep_cases (h : s.vuStep i a = some s') :
    ∃ p p', s.vus[i]? = some p ∧ s'.vus = s.vus.set i p' ∧
      s'.rampDownTarget = s.rampDownTarget ∧ Moves s s' i a p p' := by
  simp only [vuStep] at h
  split at h
  next hp => cases h; exact ⟨_, _, hp, rfl, rfl, .other (by simp [exits, hp]) rfl id rfl rfl rfl⟩
  next hp => cases h; exact ⟨_, _, hp, rfl, rfl, .other (by simp [exits, hp]) rfl id rfl rfl rfl⟩
  next active hp =>
    split at h
    · cases h
      exact ⟨_, _, hp, rfl, rfl, .other (by simp [exits, hp]) rfl id rfl rfl rfl⟩
    · cases h
      refine ⟨_, _, hp, rfl, rfl, ?_⟩
      split <;> exact .other (by simp [exits, hp]) rfl id rfl rfl rfl
  next hp =>
    cases h
    rw [tryClaim]
    -- Without a slot, the user goes on.
    split
    next hpos =>
      exact ⟨_, _, hp, rfl, rfl,
        .claim (by simp [exits, hp, hpos]) (Nat.sub_add_cancel hpos) rfl⟩
    next hpos =>
      exact ⟨_, _, hp, rfl, rfl,
        .other (by simp [exits, hp, hpos]) rfl id rfl rfl rfl⟩
  next hp => cases h; exact ⟨_, _, hp, rfl, rfl, .leave rfl (by simp [exits, hp]) rfl rfl⟩
  next hp => cases h; exact ⟨_, _, hp, rfl, rfl, .other (by simp [exits, hp]) rfl nofun rfl rfl rfl⟩
  next hp => cases h; exact ⟨_, _, hp, rfl, rfl, .other (by simp [exits, hp]) rfl nofun rfl rfl rfl⟩
  next hp => cases h; exact ⟨_, _, hp, rfl, rfl, .other (by simp [exits, hp]) rfl nofun rfl rfl rfl⟩
  · cases h

theorem unclaimed_vuStep (ha : a ≠ .leave) (h : s.vuStep i a = some s') :
    s'.unclaimed + s.rampDownRemaining = s.unclaimed + s'.rampDownRemaining := by
  obtain ⟨p, p', hp, hvus, -, hmoves⟩ := vuStep_cases h
  have hcount := countP_set (p := VuPhase.unclaimed) hp p'
  rw [unclaimed, unclaimed, hvus]
  cases hmoves with
  | claim _ hrem _ =>
    simp only [VuPhase.unclaimed, if_true, Bool.false_eq_true, if_false] at hcount
    omega
  | leave hleave => exact absurd hleave ha
  | other _ hun _ _ hrem _ =>
    rw [hun] at hcount
    omega

theorem controlSpawned_vuStep (h : s.vuStep i a = some s') :
    s'.controlSpawned + s.unclaimed = s.controlSpawned + s'.unclaimed +
      (if s.exits i a ∧ s.controlSpawned = 0 then 1 else 0) := by
  obtain ⟨p, p', hp, hvus, -, hmoves⟩ := vuStep_cases h
  have hcount := countP_set (p := VuPhase.unclaimed) hp p'
  rw [unclaimed, unclaimed, hvus]
  cases hmoves with
  | claim hexits _ hspawned | leave _ hexits _ hspawned =>
    simp only [VuPhase.unclaimed, if_true, Bool.false_eq_true, if_false] at hcount
    simp only [hexits, true_and]
    split <;> omega
  | other hexits hun _ _ _ hspawned =>
    -- Neither number changes.
    rw [hun] at hcount
    simp only [hexits, Bool.false_eq_true, false_and, if_false]
    omega

theorem controlSpawned_le_of_vuStep (h : s.vuStep i a = some s') :
    s'.controlSpawned ≤ s.controlSpawned := by
  obtain ⟨p, p', -, -, -, hmoves⟩ := vuStep_cases h
  cases hmoves with
  | claim _ _ hspawned | leave _ _ _ hspawned => exact hspawned ▸ Nat.sub_le _ _
  | other _ _ _ _ _ hspawned => exact Nat.le_of_eq hspawned

theorem live_vuStep (h : s.vuStep i a = some s') : s'.live ≤ s.live := by
  obtain ⟨p, p', hp, hvus, -, hmoves⟩ := vuStep_cases h
  have hstarted : p'.started → p.started := by
    cases hmoves with
    | claim | leave => exact id
    | other _ _ hst => exact hst
  have hcount := countP_set (p := VuPhase.started) hp p'
  rw [live, live, hvus]
  split at hcount <;> split at hcount <;> first | omega | simp_all

theorem handles_vuStep (h : s.vuStep i a = some s') : s'.handles = s.handles := by
  obtain ⟨p, p', hp, hvus, -, hmoves⟩ := vuStep_cases h
  have hkept : p'.kept = p.kept := by
    cases hmoves with
    | claim | leave => rfl
    | other _ _ _ hk => exact hk
  have hcount := countP_set (p := VuPhase.kept) hp p'
  rw [handles, handles, hvus]
  rw [hkept] at hcount
  omega

theorem rampDownTarget_vuStep (h : s.vuStep i a = some s') :
    s'.rampDownTarget = s.rampDownTarget := by
  obtain ⟨-, -, -, -, htarget, -⟩ := vuStep_cases h
  exact htarget

theorem live_le_handles (s : Scheduler) : s.live ≤ s.handles :=
  countP_mono_left fun _ _ => VuPhase.kept_of_started

@[simp] theorem unclaimed_retain (s : Scheduler) : s.retain.unclaimed = s.unclaimed := by
  simp only [unclaimed, retain, countP_map, Function.comp_def, VuPhase.unclaimed_retain]

@[simp] theorem live_retain (s : Scheduler) : s.retain.live = s.live := by
  simp only [live, retain, countP_map, Function.comp_def, VuPhase.started_retain]

@[simp] theorem unclaimed_spawn (s : Scheduler) (n : ℕ) : (s.spawn n).unclaimed = s.unclaimed + n :=
  countP_append_replicate _ _ _

@[simp] theorem live_spawn (s : Scheduler) (n : ℕ) : (s.spawn n).live = s.live + n :=
  countP_append_replicate _ _ _

@[simp] theorem handles_spawn (s : Scheduler) (n : ℕ) : (s.spawn n).handles = s.handles + n :=
  countP_append_replicate _ _ _

theorem handles_eq (s : Scheduler) :
    s.handles = s.live + s.vus.count .exited + s.vus.count .finished := by
  rw [handles, live]
  induction s.vus with
  | nil => rfl
  | cons p l ih =>
    rw [countP_cons, countP_cons, count_cons, count_cons]
    cases p <;> simp [VuPhase.kept, VuPhase.started] <;> omega

theorem handles_retain (s : Scheduler) : s.retain.handles + s.vus.count .finished = s.handles := by
  rw [handles, handles, retain, countP_map]
  induction s.vus with
  | nil => rfl
  | cons p l ih =>
    rw [countP_cons, countP_cons, count_cons]
    cases p <;> simp [VuPhase.retain, VuPhase.kept] <;> omega

@[simp] theorem handles_reapAndRespawn (s : Scheduler) : s.reapAndRespawn.handles = s.handles := by
  rw [reapAndRespawn, handles_spawn, handles_retain]

@[simp] theorem live_reapAndRespawn (s : Scheduler) :
    s.reapAndRespawn.live = s.live + s.vus.count .finished := by
  rw [reapAndRespawn, live_spawn, live_retain]

end Scheduler

end Tropel
