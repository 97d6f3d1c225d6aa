import Mathlib.Data.List.Sort
import Tropel.Lib.F64
import Tropel.Lib.Machine
import Tropel.Lib.Spacing

/-!
# The limiter of the request rate

All virtual users share a limiter that spaces their requests.

* `acquires_spaced`: how many are granted in a window.
-/

namespace Tropel

open Lib List Option Nat

structure RpsLimiter where
  interval : ℕ
  interval_lt : interval < 2 ^ 64

inductive AcquirePc
  | start
  | load (nowNs : ℕ)
  | exchange (nowNs slot : ℕ)
  | sleeping (claim wake : ℕ)
  | returned (claim instant : ℕ)
  deriving DecidableEq, Repr

structure AcquireTask where
  calledAt : ℕ
  pc : AcquirePc
  deriving DecidableEq, Repr

def AcquireTask.granted (t : AcquireTask) : Option ℕ :=
  match t.pc with
  | .sleeping claim _ => some claim
  | .returned claim _ => some claim
  | _ => none

structure RpsState where
  clock : ℕ
  nextSlotNs : ℕ
  tasks : List AcquireTask
  deriving DecidableEq, Repr

inductive RpsAction
  | call
  | step (i : ℕ)
  | spurious (i : ℕ)
  | tick (ns : ℕ)
  deriving DecidableEq, Repr

namespace RpsState

def start : RpsState where
  clock := 0
  nextSlotNs := 0
  tasks := []

def granted (s : RpsState) : List ℕ := s.tasks.filterMap AcquireTask.granted

def move (s : RpsState) (i : ℕ) (t : AcquireTask) (pc : AcquirePc) : RpsState :=
  { s with tasks := s.tasks.set i { t with pc } }

end RpsState

namespace RpsLimiter

variable (limiter : RpsLimiter)

def next (s : RpsState) (i : ℕ) (t : AcquireTask) : Option RpsState :=
  match t.pc with
  | .start => some (s.move i t (.load (s.clock % 2 ^ 64)))
  | .load nowNs => some (s.move i t (.exchange nowNs s.nextSlotNs))
  | .exchange nowNs slot =>
    let claim := max slot nowNs
    if s.nextSlotNs = slot then
      -- `saturating_add`
      some ({ s with nextSlotNs := min (claim + limiter.interval) (2 ^ 64 - 1) }.move i t
        (.sleeping claim (s.clock + (claim - nowNs))))
    else some (s.move i t .start)
  | .sleeping claim wake =>
    if wake ≤ s.clock then some (s.move i t (.returned claim s.clock)) else none
  | .returned _ _ => none

def acquires : Machine RpsState RpsAction where
  step s
    | .call =>
      let pc := if limiter.interval = 0 then .returned s.clock s.clock else .start
      some { s with tasks := s.tasks ++ [{ calledAt := s.clock, pc }] }
    | .step i => (s.tasks[i]?).bind fun t => limiter.next s i t
    | .spurious i => (s.tasks[i]?).bind fun t =>
      match t.pc with
      | .exchange _ _ => some (s.move i t .start)
      | _ => none
    | .tick ns => some { s with clock := s.clock + ns }

def below (s : RpsState) : RpsAction → Bool
  | .step i => (s.tasks[i]?).all fun t =>
    match t.pc with
    | .start => s.clock < 2 ^ 64
    | .exchange nowNs slot => max slot nowNs + limiter.interval < 2 ^ 64
    | _ => true
  | _ => true

end RpsLimiter

def AcquireTask.Ordered (clock : ℕ) (t : AcquireTask) : Prop :=
  match t.pc with
  | .start => t.calledAt ≤ clock
  | .load nowNs => t.calledAt ≤ nowNs ∧ nowNs ≤ clock
  | .exchange nowNs _ => t.calledAt ≤ nowNs ∧ nowNs ≤ clock
  | .sleeping claim wake => t.calledAt ≤ claim ∧ claim ≤ wake
  | .returned claim instant => t.calledAt ≤ claim ∧ claim ≤ instant

theorem AcquireTask.Ordered.mono {clock clock' : ℕ} {t : AcquireTask} (h : t.Ordered clock)
    (hle : clock ≤ clock') : t.Ordered clock' := by
  rcases t with ⟨calledAt, _ | nowNs | ⟨nowNs, slot⟩ | ⟨claim, wake⟩ | ⟨claim, instant⟩⟩
  · exact h.trans hle
  · exact ⟨h.1, h.2.trans hle⟩
  · exact ⟨h.1, h.2.trans hle⟩
  · exact h
  · exact h

namespace RpsLimiter

variable {limiter : RpsLimiter} {s s' : RpsState} {a : RpsAction}

theorem acquires_step_cases (hbelow : limiter.below s a = true)
    (h : limiter.acquires.step s a = some s') :
    (∃ t : AcquireTask, t.Ordered s.clock ∧ (0 < limiter.interval → t.granted = none) ∧
        s' = { s with tasks := s.tasks ++ [t] }) ∨
      (∃ ns, s' = { s with clock := s.clock + ns }) ∨
      (∃ i t pc, s.tasks[i]? = some t ∧ AcquireTask.granted { t with pc } = t.granted ∧
        (t.Ordered s.clock → AcquireTask.Ordered s.clock { t with pc }) ∧ s' = s.move i t pc) ∨
      ∃ i t nowNs, s.tasks[i]? = some t ∧ t.pc = .exchange nowNs s.nextSlotNs ∧
        s' = { s with nextSlotNs := max s.nextSlotNs nowNs + limiter.interval }.move i t
          (.sleeping (max s.nextSlotNs nowNs) (s.clock + (max s.nextSlotNs nowNs - nowNs))) := by
  rcases a with _ | i | i | ns
  · left
    obtain rfl := some.inj h
    by_cases hzero : limiter.interval = 0
    · refine ⟨_, ?_, fun hpos => absurd hzero hpos.ne', rfl⟩
      rw [if_pos hzero]
      exact ⟨le_rfl, le_rfl⟩
    · refine ⟨_, ?_, fun _ => ?_, rfl⟩
      · rw [if_neg hzero]
        exact le_rfl
      · rw [if_neg hzero]
        rfl
  · right; right
    obtain ⟨⟨calledAt, pc⟩, ht, h⟩ := bind_eq_some_iff.1 h
    simp only [below, ht, all_some] at hbelow
    rcases pc with _ | nowNs | ⟨nowNs, slot⟩ | ⟨claim, wake⟩ | ⟨claim, instant⟩
    · left
      obtain rfl := some.inj h
      refine ⟨i, _, .load (s.clock % 2 ^ 64), ht, rfl, fun hordered => ?_, rfl⟩
      rw [mod_eq_of_lt (of_decide_eq_true hbelow)]
      exact ⟨hordered, le_rfl⟩
    · left
      obtain rfl := some.inj h
      exact ⟨i, _, .exchange nowNs s.nextSlotNs, ht, rfl, id, rfl⟩
    · have hlt : max slot nowNs + limiter.interval < 2 ^ 64 := of_decide_eq_true hbelow
      simp only [next] at h
      split at h
      next hslot =>
        right
        obtain rfl := some.inj h
        subst hslot
        refine ⟨i, _, nowNs, ht, rfl, ?_⟩
        rw [min_eq_left (le_sub_one_of_lt hlt)]
      next =>
        left
        obtain rfl := some.inj h
        exact ⟨i, _, .start, ht, rfl, fun hordered => hordered.1.trans hordered.2, rfl⟩
    · left
      obtain ⟨hwake, h⟩ := ite_none_right_eq_some.1 h
      obtain rfl := some.inj h
      exact ⟨i, _, .returned claim s.clock, ht, rfl,
        fun hordered => ⟨hordered.1, hordered.2.trans hwake⟩, rfl⟩
    · cases h
  · right; right; left
    obtain ⟨⟨calledAt, pc⟩, ht, h⟩ := bind_eq_some_iff.1 h
    rcases pc with _ | nowNs | ⟨nowNs, slot⟩ | ⟨claim, wake⟩ | ⟨claim, instant⟩ <;> cases h
    exact ⟨i, _, .start, ht, rfl, fun hordered => hordered.1.trans hordered.2, rfl⟩
  · exact .inr (.inl ⟨ns, (some.inj h).symm⟩)

/-! ## Runs -/

structure SpacingInv (limiter : RpsLimiter) (s : RpsState) : Prop where
  ordered : ∀ t ∈ s.tasks, t.Ordered s.clock
  spaced : 0 < limiter.interval → ∃ l, l.Perm s.granted ∧ Spaced limiter.interval l ∧
    ∀ c ∈ l, c + limiter.interval ≤ s.nextSlotNs

theorem spacingInv_start : SpacingInv limiter .start :=
  ⟨nofun, fun _ => ⟨[], .refl _, List.Pairwise.nil, nofun⟩⟩

theorem SpacingInv.ordered_move {i : ℕ} {t : AcquireTask} {pc : AcquirePc}
    (h : SpacingInv limiter s) (hpc : AcquireTask.Ordered s.clock { t with pc }) :
    ∀ t' ∈ (s.move i t pc).tasks, t'.Ordered s.clock := by
  intro t' ht'
  rcases mem_or_eq_of_mem_set ht' with ht' | rfl
  · exact h.ordered t' ht'
  · exact hpc

theorem SpacingInv.step (h : SpacingInv limiter s) (hbelow : limiter.below s a = true)
    (hstep : limiter.acquires.step s a = some s') : SpacingInv limiter s' := by
  rcases acquires_step_cases hbelow hstep with ⟨t, ht, hgranted, rfl⟩ | ⟨ns, rfl⟩ |
    ⟨i, t, pc, ht, hgranted, hordered, rfl⟩ | ⟨i, t, nowNs, ht, hpc, rfl⟩
  · refine ⟨forall_mem_append.2 ⟨h.ordered, forall_mem_singleton.2 ht⟩, fun hpos => ?_⟩
    obtain ⟨l, hl⟩ := h.spaced hpos
    refine ⟨l, ?_⟩
    rw [RpsState.granted, filterMap_append, filterMap_cons_none (hgranted hpos),
      filterMap_nil, append_nil]
    exact hl
  · exact ⟨fun t ht => AcquireTask.Ordered.mono (h.ordered t ht) (le_add_right _ _), h.spaced⟩
  · refine ⟨h.ordered_move (hordered (h.ordered t (mem_of_getElem? ht))), fun hpos => ?_⟩
    obtain ⟨l, hl⟩ := h.spaced hpos
    refine ⟨l, ?_⟩
    rw [RpsState.granted, RpsState.move, filterMap_set_of_eq ht hgranted]
    exact hl
  · have hnow : t.calledAt ≤ nowNs ∧ nowNs ≤ s.clock := by
      have hordered := h.ordered t (mem_of_getElem? ht)
      rw [AcquireTask.Ordered, hpc] at hordered
      exact hordered
    have hnone : t.granted = none := by rw [AcquireTask.granted, hpc]
    refine ⟨h.ordered_move ⟨hnow.1.trans (le_max_right _ _), ?_⟩, fun hpos => ?_⟩
    · omega
    · obtain ⟨l, hperm, hspaced, hslot⟩ := h.spaced hpos
      -- The claimed instant is not before the slot, which is after all others.
      refine ⟨max s.nextSlotNs nowNs :: l, ?_, hspaced.cons fun c hc => ?_, ?_⟩
      · exact (hperm.cons _).trans (filterMap_set_perm ht hnone rfl).symm
      · exact (hslot c hc).trans (le_max_left _ _)
      · refine forall_mem_cons.2 ⟨le_rfl, fun c hc => ?_⟩
        exact (hslot c hc).trans ((le_max_left _ _).trans (le_add_right _ _))

/-- While instants stay below `2 ^ 64`, the granted instants of a run can be ordered so that they
    are spaced by the interval, a window of length `T` has at most `T / interval + 1` of them, and
    no task is granted one before its call. -/
theorem acquires_spaced (limiter : RpsLimiter) {s : RpsState}
    (hs : limiter.acquires.ReachableWith (fun s a => limiter.below s a = true) .start s) :
    (∃ l, l.Perm s.granted ∧ Spaced limiter.interval l) ∧
      (0 < limiter.interval → ∀ b T : ℕ,
        s.granted.countP (fun c => b ≤ c ∧ c ≤ b + T) ≤ T / limiter.interval + 1) ∧
      ∀ t ∈ s.tasks, ∀ c, t.granted = some c → t.calledAt ≤ c := by
  have hinv : SpacingInv limiter s := hs.invariant spacingInv_start fun h hbelow hstep =>
    h.step hbelow hstep
  refine ⟨?_, ?_, ?_⟩
  · by_cases hpos : 0 < limiter.interval
    · obtain ⟨l, hperm, hspaced, -⟩ := hinv.spaced hpos
      exact ⟨l, hperm, hspaced⟩
    · -- Without an interval, any order from late to early will do.
      refine ⟨s.granted.insertionSort (· ≥ ·), perm_insertionSort _ _, ?_⟩
      rw [Spaced, Nat.eq_zero_of_not_pos hpos]
      exact pairwise_insertionSort _ _
  · intro hpos b T
    obtain ⟨l, hperm, hspaced, -⟩ := hinv.spaced hpos
    rw [← hperm.countP_eq]
    exact hspaced.countP_window_le hpos b T
  · intro t ht c hc
    have hordered := hinv.ordered t ht
    rcases t with ⟨calledAt, _ | nowNs | ⟨nowNs, slot⟩ | ⟨claim, wake⟩ | ⟨claim, instant⟩⟩ <;>
      cases hc
    · exact hordered.1
    · exact hordered.1

def fifty : RpsLimiter := ⟨20000000, by decide⟩

theorem acquires_two_spaced :
    ∃ s, (fifty.acquires.guard fun s a => fifty.below s a = true).exec .start
      [.call, .call, .step 0, .step 1, .step 0, .step 1, .step 0, .step 1, .tick 5, .step 1,
        .step 1, .step 1] =
        some s ∧
      s.granted = [0, 20000000] ∧ (∃ l, l.Perm s.granted ∧ Spaced fifty.interval l) ∧
      ∀ t ∈ s.tasks, ∀ c, t.granted = some c → t.calledAt ≤ c := by
  have hexec : (fifty.acquires.guard fun s a => fifty.below s a = true).exec .start
      [.call, .call, .step 0, .step 1, .step 0, .step 1, .step 0, .step 1, .tick 5, .step 1,
        .step 1, .step 1] =
        some ⟨5, 40000000, [⟨0, .sleeping 0 0⟩, ⟨0, .sleeping 20000000 20000000⟩]⟩ := by decide
  obtain ⟨hspaced, -, hcalled⟩ := acquires_spaced fifty (Machine.reachableWith_of_guard hexec)
  exact ⟨_, hexec, by decide, hspaced, hcalled⟩

end RpsLimiter

end Tropel
