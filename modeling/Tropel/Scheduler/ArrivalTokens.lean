import Tropel.Core.Sequence
import Tropel.Lib.Machine

/-!
# Arrival tokens

The arrival-rate executors release iterations as *tokens*.

* `tokens_conserved`: where they go.
-/

namespace Tropel

open Lib Option

structure ArrivalState where
  stripe : ArrivalStripe
  lastTarget : ℕ
  arrivalTokens : ℕ
  arrivalDropped : ℕ
  acquired : ℕ
  taken : ℕ
  deriving DecidableEq

inductive ArrivalAction
  | tick (globalArrivals : ℕ)
  | acquire
  | takeDropped
  deriving DecidableEq

namespace ArrivalState

def start (stripe : ArrivalStripe) : ArrivalState :=
  { stripe, lastTarget := 0, arrivalTokens := 0, arrivalDropped := 0, acquired := 0, taken := 0 }

def refill (maxTokens : ℕ) (st : ArrivalState) (target : ℕ) : ArrivalState :=
  if target > st.lastTarget then
    let toAdd := target - st.lastTarget
    let capacity := maxTokens - st.arrivalTokens
    { st with
      arrivalTokens := st.arrivalTokens + min toAdd capacity
      arrivalDropped := st.arrivalDropped + (toAdd - capacity) }
  else st

def tick (maxTokens : ℕ) (st : ArrivalState) (globalArrivals : ℕ) : Option ArrivalState :=
  (st.stripe.dueBy globalArrivals).map fun (stripe, target) =>
    { st.refill maxTokens target with stripe, lastTarget := target }

def tryAcquireArrivalToken (st : ArrivalState) : ArrivalState :=
  if st.arrivalTokens > 0 then
    { st with arrivalTokens := st.arrivalTokens - 1, acquired := st.acquired + 1 }
  else st

def takeDroppedIterations (st : ArrivalState) : ArrivalState :=
  { st with arrivalDropped := 0, taken := st.taken + st.arrivalDropped }

end ArrivalState

def arrivals (maxVus : ℕ) : Machine ArrivalState ArrivalAction where
  step st
    | .tick globalArrivals => st.tick maxVus globalArrivals
    | .acquire => some st.tryAcquireArrivalToken
    | .takeDropped => some st.takeDroppedIterations

/-! ## Conservation -/

theorem ArrivalStripe.released_le_of_dueByLoop {n fuel : ℕ} {st st' : ArrivalStripe}
    (h : dueByLoop n fuel st = some st') : st.released ≤ st'.released := by
  induction fuel generalizing st with
  | zero => cases h
  | succ fuel ih =>
    rw [dueByLoop] at h
    split at h
    · obtain ⟨index, -, h⟩ := bind_eq_some_iff.1 h
      exact (Nat.le_succ _).trans (ih h)
    · cases h
      exact le_rfl

theorem ArrivalStripe.dueBy_eq_some {n due : ℕ} {st st' : ArrivalStripe}
    (h : st.dueBy n = some (st', due)) : st.released ≤ due ∧ st'.released = due := by
  obtain ⟨st₁, hloop, h⟩ := map_eq_some_iff.1 h
  cases h
  exact ⟨released_le_of_dueByLoop hloop, rfl⟩

namespace ArrivalState

variable {maxVus : ℕ} {st st' : ArrivalState}

structure Inv (maxVus : ℕ) (st : ArrivalState) : Prop where
  lastTarget : st.lastTarget = st.stripe.released
  conserved : st.acquired + st.arrivalTokens + st.taken + st.arrivalDropped = st.lastTarget
  capacity : st.arrivalTokens ≤ maxVus

theorem inv_start {stripe : ArrivalStripe} (h : stripe.released = 0) : Inv maxVus (start stripe) :=
  ⟨h.symm, rfl, Nat.zero_le _⟩

theorem refill_spec {target : ℕ} (hcap : st.arrivalTokens ≤ maxVus)
    (htarget : st.lastTarget ≤ target) :
    (st.refill maxVus target).acquired = st.acquired ∧ (st.refill maxVus target).taken = st.taken ∧
      (st.refill maxVus target).arrivalTokens + (st.refill maxVus target).arrivalDropped =
        st.arrivalTokens + st.arrivalDropped + (target - st.lastTarget) ∧
      (st.refill maxVus target).arrivalTokens ≤ maxVus := by
  rw [refill]
  split
  · refine ⟨rfl, rfl, ?_, ?_⟩ <;> dsimp only <;> omega
  · refine ⟨rfl, rfl, ?_, hcap⟩
    omega

theorem Inv.tick (h : Inv maxVus st) {globalArrivals : ℕ}
    (htick : st.tick maxVus globalArrivals = some st') : Inv maxVus st' := by
  obtain ⟨⟨stripe, target⟩, hdue, rfl⟩ := map_eq_some_iff.1 htick
  obtain ⟨hle, hrel⟩ := ArrivalStripe.dueBy_eq_some hdue
  rw [← h.lastTarget] at hle
  obtain ⟨hacq, htaken, hsum, hcap⟩ := refill_spec h.capacity hle
  refine ⟨hrel.symm, ?_, hcap⟩
  have := h.conserved
  dsimp only
  omega

theorem Inv.acquire (h : Inv maxVus st) : Inv maxVus st.tryAcquireArrivalToken := by
  rw [tryAcquireArrivalToken]
  split
  · have := h.conserved
    have := h.capacity
    exact ⟨h.lastTarget, by dsimp only; omega, by dsimp only; omega⟩
  · exact h

theorem Inv.takeDropped (h : Inv maxVus st) : Inv maxVus st.takeDroppedIterations := by
  have := h.conserved
  exact ⟨h.lastTarget, by dsimp only [takeDroppedIterations]; omega, h.capacity⟩

/-- Whatever the arrivals, the stripe and the interleaving, every iteration due at the last tick is
    acquired, in the bucket, or dropped, and the bucket holds at most `maxVus` tokens. -/
theorem tokens_conserved {stripe : ArrivalStripe} (hstripe : stripe.released = 0)
    (h : (arrivals maxVus).Reachable (start stripe) st) :
    st.acquired + st.arrivalTokens + st.taken + st.arrivalDropped = st.stripe.released ∧
      st.arrivalTokens ≤ maxVus := by
  have hinv : Inv maxVus st := by
    refine h.invariant (inv_start hstripe) ?_
    intro s s' a hs hstep
    cases a with
    | tick globalArrivals => exact hs.tick hstep
    | acquire => exact some_injective _ hstep ▸ hs.acquire
    | takeDropped => exact some_injective _ hstep ▸ hs.takeDropped
  exact ⟨hinv.conserved.trans hinv.lastTarget, hinv.capacity⟩

theorem tokens_conserved_full : ∃ stripe st, ArrivalStripe.full = some stripe ∧
    (arrivals 3).exec (start stripe) [.tick 5, .acquire, .takeDropped, .tick 7] = some st ∧
    (st.acquired, st.arrivalTokens, st.taken, st.arrivalDropped) = (1, 3, 2, 1) ∧
    st.acquired + st.arrivalTokens + st.taken + st.arrivalDropped = st.stripe.released ∧
    st.arrivalTokens ≤ 3 := by
  let index (k : ℕ) : SegmentedIndex :=
    { start := 0, lcd := 1, offsets := [1], scaled := k, unscaled := k }
  let stripe : ArrivalStripe := { index := index 1, nextOwned := 1, released := 0 }
  let st : ArrivalState :=
    { stripe := { index := index 8, nextOwned := 8, released := 7 }, lastTarget := 7
      arrivalTokens := 3, arrivalDropped := 1, acquired := 1, taken := 2 }
  have hexec : (arrivals 3).exec (start stripe) [.tick 5, .acquire, .takeDropped, .tick 7] =
      some st := by decide
  exact ⟨stripe, st, by decide, hexec, rfl, tokens_conserved rfl (Machine.reachable_of_exec hexec)⟩

end ArrivalState

end Tropel
