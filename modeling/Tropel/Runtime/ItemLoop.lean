import Mathlib.Data.List.Chain
import Mathlib.Data.List.ReduceOption
import Tropel.Core.Segment

/-!
# The items of an iteration

An iteration walks through the items of the scenario.

* `itemLoop_visits`: what it visits, with jumps.
-/

namespace Tropel

open Lib List Option Nat

def maxSetNextRequestJumps : ℕ := 10000

inductive LoopEnd
  | finished
  | outOfRange
  | forceStopped
  | loopLimit
  deriving DecidableEq

def LoopEnd.scriptFailures : LoopEnd → List Text
  | .loopLimit => ["setNextRequest (loop limit exceeded)"]
  | _ => []

structure Visit (σ : Type*) where
  index : ℕ
  world : σ

structure Walk (σ : Type*) where
  visits : List (Visit σ)
  ending : LoopEnd

def Walk.cons {σ : Type*} (v : Visit σ) (walk : Walk σ) : Walk σ :=
  { walk with visits := v :: walk.visits }

variable {σ : Type*} (itemCount : ℕ)
  /- What running the item at an index does to the world, and the target it leaves. -/
  (runItem : ℕ → σ → σ × Option ℕ) (forceStop : σ → Bool)

def itemLoop (currentIndex jumps : ℕ) (world : σ) : Walk σ :=
  if currentIndex < itemCount then
    if forceStop world then ⟨[], .forceStopped⟩
    else
      match (runItem currentIndex world).2 with
      | some next =>
        if next < itemCount then
          if jumps + 1 > maxSetNextRequestJumps then ⟨[⟨currentIndex, world⟩], .loopLimit⟩
          -- the target is walked from, without going on to the next item
          else (itemLoop next (jumps + 1) (runItem currentIndex world).1).cons ⟨currentIndex, world⟩
        else ⟨[⟨currentIndex, world⟩], .outOfRange⟩
      | none => (itemLoop (currentIndex + 1) jumps
          (runItem currentIndex world).1).cons ⟨currentIndex, world⟩
  else ⟨[], .finished⟩
  termination_by (maxSetNextRequestJumps - jumps, itemCount - currentIndex)
  decreasing_by
  · exact Prod.Lex.left _ _ (by omega)
  · exact Prod.Lex.right _ (by omega)

def Visit.request (v : Visit σ) : Option ℕ := (runItem v.index v.world).2

def Visit.next (v : Visit σ) : ℕ := (v.request runItem).getD (v.index + 1)

def requestedJumps (visits : List (Visit σ)) : ℕ :=
  ((visits.map (Visit.request runItem)).reduceOption.takeWhile fun target =>
    decide (target < itemCount)).length

def leadsTo (start : ℕ) (visits : List (Visit σ)) : ℕ :=
  visits.foldl (fun _ v => v.next runItem) start

variable {itemCount runItem forceStop} {currentIndex jumps : ℕ} {world : σ}

theorem requestedJumps_nil : requestedJumps itemCount runItem [] = 0 := rfl

theorem requestedJumps_cons_none (h : (runItem currentIndex world).2 = none)
    (visits : List (Visit σ)) :
    requestedJumps itemCount runItem (⟨currentIndex, world⟩ :: visits) =
      requestedJumps itemCount runItem visits := by
  rw [requestedJumps, map_cons, Visit.request, h, reduceOption_cons_of_none, requestedJumps]

theorem requestedJumps_cons_some {target : ℕ} (h : (runItem currentIndex world).2 = some target)
    (visits : List (Visit σ)) :
    requestedJumps itemCount runItem (⟨currentIndex, world⟩ :: visits) =
      if target < itemCount then requestedJumps itemCount runItem visits + 1 else 0 := by
  rw [requestedJumps, map_cons, Visit.request, h, reduceOption_cons_of_some, takeWhile_cons]
  split
  next hlt => rw [if_pos (of_decide_eq_true hlt), length_cons, requestedJumps]
  next hlt => rw [if_neg (mt decide_eq_true hlt), length_nil]

/-! ## What a walk does -/

theorem length_visits_le (hjumps : jumps ≤ maxSetNextRequestJumps) :
    (itemLoop itemCount runItem forceStop currentIndex jumps world).visits.length ≤
      (maxSetNextRequestJumps - jumps) * itemCount + (itemCount - currentIndex) := by
  fun_induction itemLoop itemCount runItem forceStop currentIndex jumps world with
  | case1 | case6 => exact zero_le _
  | case2 | case4 => exact le_add_left (by rw [length_singleton]; omega)
  | case3 index jumps world hindex _ next _ hnext hlimit ih =>
    have hrest := ih (by omega)
    -- a jump gives back at most as many items as there are
    have hjump : (maxSetNextRequestJumps - (jumps + 1)) * itemCount + itemCount =
        (maxSetNextRequestJumps - jumps) * itemCount := by
      rw [← succ_mul]
      congr 1
      omega
    rw [Walk.cons, length_cons]
    omega
  | case5 index jumps world hindex _ _ ih =>
    rw [Walk.cons, length_cons]
    omega

theorem ending_eq_loopLimit_iff (hjumps : jumps ≤ maxSetNextRequestJumps)
    (hstop : (itemLoop itemCount runItem forceStop currentIndex jumps world).ending ≠
      .forceStopped) :
    (itemLoop itemCount runItem forceStop currentIndex jumps world).ending = .loopLimit ↔
      maxSetNextRequestJumps < jumps + requestedJumps itemCount runItem
        (itemLoop itemCount runItem forceStop currentIndex jumps world).visits := by
  fun_induction itemLoop itemCount runItem forceStop currentIndex jumps world with
  | case1 => exact absurd rfl hstop
  | case2 index jumps world hindex _ next hrequest hnext hlimit =>
    rw [requestedJumps_cons_some hrequest, if_pos hnext, requestedJumps_nil]
    exact iff_of_true rfl hlimit
  | case3 index jumps world hindex _ next hrequest hnext hlimit ih =>
    rw [Walk.cons, requestedJumps_cons_some hrequest, if_pos hnext, ih (by omega) hstop, add_assoc,
      add_comm 1]
  | case4 index jumps world hindex _ next hrequest hnext =>
    rw [requestedJumps_cons_some hrequest, if_neg hnext]
    exact iff_of_false (fun h => LoopEnd.noConfusion h) hjumps.not_gt
  | case5 index jumps world hindex _ hrequest ih =>
    rw [Walk.cons, requestedJumps_cons_none hrequest, ih hjumps hstop]
  | case6 => exact iff_of_false (fun h => LoopEnd.noConfusion h) hjumps.not_gt

theorem index_lt : ∀ v ∈ (itemLoop itemCount runItem forceStop currentIndex jumps world).visits,
    v.index < itemCount := by
  fun_induction itemLoop itemCount runItem forceStop currentIndex jumps world with
  | case1 | case6 => exact forall_mem_nil _
  | case2 index jumps world hindex | case4 index jumps world hindex =>
    exact forall_mem_singleton.2 hindex
  | case3 index jumps world hindex _ _ _ _ _ ih
  | case5 index jumps world hindex _ _ ih => exact forall_mem_cons.2 ⟨hindex, ih⟩

theorem head?_visits :
    ∀ v ∈ (itemLoop itemCount runItem forceStop currentIndex jumps world).visits.head?,
    v.index = currentIndex ∧ v.world = world := by
  intro v hv
  rw [itemLoop] at hv
  split at hv
  · split at hv
    · cases hv
    · split at hv
      · split at hv
        · split at hv
          all_goals
            cases hv
            exact ⟨rfl, rfl⟩
        · cases hv
          exact ⟨rfl, rfl⟩
      · cases hv
        exact ⟨rfl, rfl⟩
  · cases hv

theorem isChain_visits :
    (itemLoop itemCount runItem forceStop currentIndex jumps world).visits.IsChain
    fun v v' => v'.index = v.next runItem ∧ v'.world = (runItem v.index v.world).1 := by
  fun_induction itemLoop itemCount runItem forceStop currentIndex jumps world with
  | case1 | case6 => exact .nil
  | case2 | case4 => exact .singleton _
  | case3 index jumps world hindex _ next hrequest hnext hlimit ih =>
    refine isChain_cons.2 ⟨fun v' hv' => ?_, ih⟩
    rw [Visit.next, Visit.request, hrequest, getD_some]
    exact head?_visits v' hv'
  | case5 index jumps world hindex _ hrequest ih =>
    refine isChain_cons.2 ⟨fun v' hv' => ?_, ih⟩
    rw [Visit.next, Visit.request, hrequest, getD_none]
    exact head?_visits v' hv'

theorem le_leadsTo
    (hstop : (itemLoop itemCount runItem forceStop currentIndex jumps world).ending ≠ .forceStopped)
    (hlimit : (itemLoop itemCount runItem forceStop currentIndex jumps world).ending ≠ .loopLimit) :
    itemCount ≤ leadsTo runItem currentIndex
      (itemLoop itemCount runItem forceStop currentIndex jumps world).visits := by
  fun_induction itemLoop itemCount runItem forceStop currentIndex jumps world with
  | case1 => exact absurd rfl hstop
  | case2 => exact absurd rfl hlimit
  | case3 index jumps world hindex _ next hrequest hnext _ ih =>
    rw [Walk.cons, leadsTo, foldl_cons, Visit.next, Visit.request, hrequest, getD_some]
    exact ih hstop hlimit
  | case4 index jumps world hindex _ next hrequest hnext =>
    rw [leadsTo, foldl_cons, Visit.next, Visit.request, hrequest, getD_some]
    exact not_lt.1 hnext
  | case5 index jumps world hindex _ hrequest ih =>
    rw [Walk.cons, leadsTo, foldl_cons, Visit.next, Visit.request, hrequest, getD_none]
    exact ih hstop hlimit
  | case6 index jumps world hindex => exact not_lt.1 hindex

theorem LoopEnd.scriptFailures_eq_nil_iff (ending : LoopEnd) : ending.scriptFailures = [] ↔
    ending ≠ .loopLimit := by
  cases ending with
  | loopLimit => exact iff_of_false (cons_ne_nil _ _) (fun h => h rfl)
  | finished | outOfRange | forceStopped => exact iff_of_true rfl fun h => LoopEnd.noConfusion h

theorem LoopEnd.scriptFailures_eq_limit_iff (ending : LoopEnd) :
    ending.scriptFailures = ["setNextRequest (loop limit exceeded)".toList] ↔
      ending = .loopLimit := by
  cases ending with
  | loopLimit => exact iff_of_true rfl rfl
  | finished | outOfRange | forceStopped =>
    exact iff_of_false (cons_ne_nil _ _).symm fun h => LoopEnd.noConfusion h

theorem exists_forceStop_of_ending
    (h : (itemLoop itemCount runItem forceStop currentIndex jumps world).ending = .forceStopped) :
    forceStop world = true ∨
      ∃ v ∈ (itemLoop itemCount runItem forceStop currentIndex jumps world).visits,
        forceStop (runItem v.index v.world).1 = true := by
  fun_induction itemLoop itemCount runItem forceStop currentIndex jumps world with
  | case1 index jumps world _ hstop => exact .inl hstop
  | case2 | case4 | case6 => cases h
  | case3 index jumps world _ _ _ _ _ _ ih | case5 index jumps world _ _ _ ih =>
    -- the world in which the rest of the walk starts is the one that this item leaves
    refine .inr ((ih h).elim (fun hstop => ⟨_, mem_cons_self, hstop⟩) fun ⟨v, hv, hstop⟩ => ?_)
    exact ⟨v, mem_cons_of_mem _ hv, hstop⟩

/-- The walk of an iteration, for any scripts, visits at most as many items as there are for every
    jump and for the start, each followed by its target or the next one. If no world that it comes
    to asks for a forced stop, it records the failure just when there are more than 10000 jumps
    before a target that is no item, and otherwise goes on to the end. -/
theorem itemLoop_visits (itemCount : ℕ) (runItem : ℕ → σ → σ × Option ℕ) (forceStop : σ → Bool)
    (world : σ) :
    let walk := itemLoop itemCount runItem forceStop 0 0 world
    walk.visits.length ≤ (maxSetNextRequestJumps + 1) * itemCount ∧
    (∀ v ∈ walk.visits, v.index < itemCount) ∧
    (∀ v ∈ walk.visits.head?, v.index = 0 ∧ v.world = world) ∧
    walk.visits.IsChain
      (fun v v' => v'.index = v.next runItem ∧ v'.world = (runItem v.index v.world).1) ∧
    (forceStop world = false →
      (∀ v ∈ walk.visits, forceStop (runItem v.index v.world).1 = false) →
      (walk.ending.scriptFailures = ["setNextRequest (loop limit exceeded)".toList] ↔
        maxSetNextRequestJumps < requestedJumps itemCount runItem walk.visits) ∧
      (walk.ending.scriptFailures = [] → itemCount ≤ leadsTo runItem 0 walk.visits)) := by
  intro walk
  have hlength : walk.visits.length ≤ (maxSetNextRequestJumps - 0) * itemCount + (itemCount - 0) :=
    length_visits_le (zero_le _)
  refine ⟨by rwa [succ_mul], index_lt, head?_visits, isChain_visits, fun hworld hworlds => ?_⟩
  have hstop : walk.ending ≠ .forceStopped := by
    intro h
    obtain hstop | ⟨v, hv, hstop⟩ := exists_forceStop_of_ending h
    · exact Bool.false_ne_true (hworld.symm.trans hstop)
    · exact Bool.false_ne_true ((hworlds v hv).symm.trans hstop)
  refine ⟨?_, fun hfailures => ?_⟩
  · rw [LoopEnd.scriptFailures_eq_limit_iff, ending_eq_loopLimit_iff (zero_le _) hstop, zero_add]
  · exact le_leadsTo hstop ((LoopEnd.scriptFailures_eq_nil_iff _).1 hfailures)

/-- Two items, of which the second asks for the first as long as the world is below `3`. -/
def pollTwice (index world : ℕ) : ℕ × Option ℕ :=
  (world + 1, if index = 1 ∧ world < 3 then some 0 else none)

theorem itemLoop_visits_poll :
    (itemLoop 2 pollTwice (fun _ => false) 0 0 0).visits.map Visit.index = [0, 1, 0, 1] ∧
    2 ≤ leadsTo pollTwice 0 (itemLoop 2 pollTwice (fun _ => false) 0 0 0).visits := by
  obtain ⟨-, -, -, -, h⟩ := itemLoop_visits 2 pollTwice (fun _ => false) 0
  obtain ⟨-, hend⟩ := h rfl fun _ _ => rfl
  have hwalk : itemLoop 2 pollTwice (fun _ => false) 0 0 0 =
      ⟨[⟨0, 0⟩, ⟨1, 1⟩, ⟨0, 2⟩, ⟨1, 3⟩], .finished⟩ := by
    simp [itemLoop, pollTwice, maxSetNextRequestJumps, Walk.cons]
  rw [hwalk] at hend ⊢
  exact ⟨rfl, hend rfl⟩

end Tropel
