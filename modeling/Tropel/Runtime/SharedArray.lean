import Tropel.Lib.Machine

/-!
# Shared arrays

The VUs construct views of the array that is stored under a name. The first of them runs its factory
and stores it.

* `views_agree`: all views are of one array.
-/

namespace Tropel.SharedArray

open Lib

structure JsonArrays (ν : Type*) where
  Json : Type
  stringify : List ν → Json
  parse : Json → Option (List ν)
  parse_stringify : ∀ data, parse (stringify data) = some data

inductive Pc (ν : Type*)
  | readLen
  | runFactory
  | set (data : List ν)
  | view (length : ℤ)
  deriving DecidableEq

structure State (ν : Type*) where
  cache : Option (List ν)
  vus : List (List ν × Pc ν)

variable {ν : Type*}

def asI32 (n : ℕ) : ℤ := Int.bmod n (2 ^ 32)

variable (cache : Option (List ν))

def nativeLen : ℤ := cache.elim (-1) fun v => asI32 v.length

def nativeGet (i : ℤ) : Option ν :=
  cache.bind fun v => if 0 ≤ i ∧ i.toNat < v.length then v[i.toNat]? else none

def viewGet (length i : ℤ) : Option ν :=
  if i < 0 ∨ i ≥ length then none else nativeGet cache (0 + i)

def forEach (length : ℤ) : List (Option ν) :=
  (List.range length.toNat).map fun i : ℕ => viewGet cache length i

variable (json : JsonArrays ν)

namespace State

def start (factories : List (List ν)) : State ν := ⟨none, factories.map (·, .readLen)⟩

def goto (s : State ν) (i : ℕ) (pc : Pc ν) : State ν :=
  { s with vus := s.vus.modify i fun vu => (vu.1, pc) }

def nativeSet (s : State ν) (text : json.Json) : State ν :=
  { s with cache := s.cache.or (json.parse text) }

end State

def step (s : State ν) (i : ℕ) : Option (State ν) :=
  s.vus[i]?.bind fun vu => match vu.2 with
    | .readLen =>
      some (s.goto i (if nativeLen s.cache < 0 then .runFactory else .view (nativeLen s.cache)))
    | .runFactory => some (s.goto i (.set vu.1))
    | .set data => some ((s.nativeSet json (json.stringify data)).goto i (.view data.length))
    | .view _ => none

def machine : Machine (State ν) ℕ := ⟨step json⟩

structure Coherent (n : ℕ) (s : State ν) : Prop where
  cache : ∀ v ∈ s.cache, v.length = n
  factory : ∀ vu ∈ s.vus, vu.1.length = n
  set : ∀ vu ∈ s.vus, ∀ data, vu.2 = .set data → data.length = n
  view : ∀ vu ∈ s.vus, ∀ length, vu.2 = .view length → s.cache.isSome ∧ length = n

variable {json : JsonArrays ν} {n : ℕ} {s s' : State ν} {i : ℕ}

theorem Coherent.goto (h : Coherent n s) {pc : Pc ν}
    (hset : ∀ data, pc = .set data → data.length = n)
    (hview : ∀ length, pc = .view length → s.cache.isSome ∧ length = n) :
    Coherent n (s.goto i pc) := by
  have hvus : ∀ vu ∈ (s.goto i pc).vus, vu ∈ s.vus ∨ vu.1.length = n ∧ vu.2 = pc := by
    intro vu hvu
    obtain ⟨j, hj⟩ := List.mem_iff_getElem?.1 hvu
    rw [State.goto, List.getElem?_modify] at hj
    obtain ⟨old, hold, rfl⟩ := Option.map_eq_some_iff.1 hj
    have hmem := List.mem_of_getElem? hold
    split
    · exact .inr ⟨h.factory old hmem, rfl⟩
    · exact .inl hmem
  refine ⟨h.cache, fun vu hvu => ?_, fun vu hvu => ?_, fun vu hvu => ?_⟩ <;>
    rcases hvus vu hvu with hvu | ⟨hlen, rfl⟩
  · exact h.factory vu hvu
  · exact hlen
  · exact h.set vu hvu
  · exact hset
  · exact h.view vu hvu
  · exact hview

theorem Coherent.step (hn : n < 2 ^ 31) (h : Coherent n s) (hstep : step json s i = some s') :
    Coherent n s' := by
  obtain ⟨⟨factory, pc⟩, hi, hstep⟩ := Option.bind_eq_some_iff.1 hstep
  have hmem := List.mem_of_getElem? hi
  cases pc with
  | readLen =>
    cases hstep
    cases hcache : s.cache with
    | none => exact h.goto (by simp [nativeLen]) (by simp [nativeLen])
    | some v =>
      have hlen : nativeLen (some v) = n := by
        rw [nativeLen, Option.elim_some, h.cache v hcache]
        exact Int.bmod_eq_of_le (by omega) (by omega)
      rw [hlen, if_neg (by omega)]
      refine h.goto nofun fun length hlength => ?_
      cases hlength
      exact ⟨by rw [hcache]; rfl, rfl⟩
  | runFactory =>
    cases hstep
    refine h.goto (fun data hdata => ?_) nofun
    cases hdata
    exact h.factory _ hmem
  | set data =>
    cases hstep
    have hdata := h.set _ hmem data rfl
    have hset : Coherent n (s.nativeSet json (json.stringify data)) := by
      rw [State.nativeSet, json.parse_stringify]
      refine ⟨fun v hv => ?_, h.factory, h.set,
        fun vu hvu length hlength => ⟨by simp, (h.view vu hvu length hlength).2⟩⟩
      -- An array that is there already stays.
      rcases Option.or_eq_some_iff.1 hv with hv | ⟨-, hv⟩
      · exact h.cache v hv
      · cases hv
        exact hdata
    refine hset.goto nofun fun length hlength => ?_
    cases hlength
    exact ⟨by simp [State.nativeSet, json.parse_stringify], congrArg _ hdata⟩
  | view length => cases hstep

/-- If all factories return arrays of one length, all views have the length and the elements of the
    stored one. -/
theorem views_agree (json : JsonArrays ν) {factories : List (List ν)} (hn : n < 2 ^ 31)
    (hlength : ∀ data ∈ factories, data.length = n)
    (hs : (machine json).Reachable (.start factories) s) :
    ∀ vu ∈ s.vus, ∀ length, vu.2 = .view length → ∃ v, s.cache = some v ∧ length = v.length ∧
      (∀ (i : ℕ) (hi : i < v.length), viewGet s.cache length i = some v[i]) ∧
        forEach s.cache length = v.map some := by
  intro vu hvu length hview
  have hstart : Coherent n (.start factories) := by
    refine ⟨nofun, List.forall_mem_map.2 hlength, ?_, ?_⟩ <;>
      exact List.forall_mem_map.2 fun data _ => nofun
  have h := hs.invariant hstart fun h hstep => h.step hn hstep
  obtain ⟨hsome, rfl⟩ := h.view vu hvu length hview
  obtain ⟨v, hv⟩ := Option.isSome_iff_exists.1 hsome
  have hlen := h.cache v hv
  have hget : ∀ (i : ℕ) (hi : i < v.length), viewGet s.cache n i = some v[i] := by
    intro i hi
    rw [viewGet, if_neg (by omega), nativeGet, hv, Option.bind_some]
    simp [hi]
  refine ⟨v, hv, congrArg _ hlen.symm, hget, ?_⟩
  refine List.ext_getElem (by simp [forEach, hlen]) fun i hi hi' => ?_
  simp only [forEach, List.getElem_map, List.getElem_range]
  exact hget i _

def plainJson : JsonArrays ℕ := ⟨List ℕ, id, some, fun _ => rfl⟩

theorem views_agree_two : ∃ s, (machine plainJson).Reachable (.start [[1, 2], [3, 4]]) s ∧
    ([3, 4], .view 2) ∈ s.vus ∧ forEach s.cache 2 = [some 1, some 2] := by
  have hexec : (machine plainJson).exec (.start [[1, 2], [3, 4]]) [0, 1, 0, 1, 0, 1] =
      some ⟨some [1, 2], [([1, 2], .view 2), ([3, 4], .view 2)]⟩ := rfl
  have hrun := Machine.reachable_of_exec hexec
  obtain ⟨v, hv, -, -, heach⟩ :=
    views_agree plainJson (n := 2) (by omega) (by simp) hrun ([3, 4], .view 2) (by simp) 2 rfl
  cases hv
  exact ⟨_, hrun, by simp, heach⟩

theorem views_differ :
    ((machine plainJson).exec (.start [[1], [2, 3]]) [0, 1, 0, 1, 0, 1]).map
      (fun s => (s.cache, s.vus)) =
    some (some [1], [([1], .view 1), ([2, 3], .view 2)]) := by
  decide

end Tropel.SharedArray
