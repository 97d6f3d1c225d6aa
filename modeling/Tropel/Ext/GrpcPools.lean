import Tropel.Lib.IndexMap
import Tropel.Lib.Machine

/-!
# Compiled protos

The requests of a scenario share the pools that are compiled from their protos.

* `ownPool_iff`: when every request gets its own.
-/

namespace Tropel

open Lib Option IndexMap

abbrev PoolKey := String × Option String

inductive GrpcPc (Pool E : Type)
  | memoRead
  | storeKey
  | storeHash
  | lookup (hash : UInt64)
  | done (result : Except E Pool)
  deriving DecidableEq

structure GrpcState (Pool E : Type) where
  pools : IndexMap UInt64 (PoolKey × Pool)
  poolOrder : List UInt64
  lastKey : Option PoolKey
  lastHash : UInt64
  requests : List (PoolKey × GrpcPc Pool E)

def maxCachedPools : ℕ := 64

variable {Pool E : Type}

namespace GrpcState

def start (keys : List PoolKey) : GrpcState Pool E := ⟨∅, [], none, 0, keys.map (·, .memoRead)⟩

def goto (s : GrpcState Pool E) (i : ℕ) (pc : GrpcPc Pool E) : GrpcState Pool E :=
  { s with requests := s.requests.modify i fun r => (r.1, pc) }

def evict (s : GrpcState Pool E) (hash : UInt64) : GrpcState Pool E :=
  if (s.pools.get hash).isNone ∧ s.pools.length ≥ maxCachedPools then
    match s.poolOrder with
    | [] => s
    | oldest :: order => { s with pools := s.pools.erase oldest, poolOrder := order }
  else s

def insertPool (s : GrpcState Pool E) (hash : UInt64) (key : PoolKey)
    (pool : Pool) : GrpcState Pool E :=
  { s with
    pools := s.pools.insert hash (key, pool)
    poolOrder := if (s.pools.get hash).isNone then s.poolOrder ++ [hash] else s.poolOrder }

end GrpcState

variable (compileProto : PoolKey → Except E Pool) (hash : PoolKey → UInt64)

def grpcStep (s : GrpcState Pool E) (i : ℕ) : Option (GrpcState Pool E) :=
  s.requests[i]?.bind fun r => match r.2 with
    | .memoRead =>
      some (if s.lastKey = some r.1 then s.goto i (.lookup s.lastHash) else s.goto i .storeKey)
    | .storeKey => some ({ s with lastKey := some r.1 }.goto i .storeHash)
    | .storeHash => some ({ s with lastHash := hash r.1 }.goto i (.lookup (hash r.1)))
    | .lookup h =>
      match s.pools.get h with
      | some (_, pool) => some (s.goto i (.done (.ok pool)))
      | none =>
        match compileProto r.1 with
        | .error e => some (s.goto i (.done (.error e)))
        | .ok pool => some (((s.evict h).insertPool h r.1 pool).goto i (.done (.ok pool)))
    | .done _ => none

def grpcMachine : Machine (GrpcState Pool E) ℕ := ⟨grpcStep compileProto hash⟩

namespace GrpcState

structure Sound (keys : Set PoolKey) (s : GrpcState Pool E) : Prop where
  pools : ∀ e ∈ s.pools.entries, e.2.1 ∈ keys ∧ compileProto e.2.1 = .ok e.2.2
  requests : ∀ r ∈ s.requests, r.1 ∈ keys ∧ ∀ result, r.2 = .done result → result = compileProto r.1

variable {compileProto hash} {keys : Set PoolKey} {s s' : GrpcState Pool E} {i : ℕ}

theorem Sound.goto (h : s.Sound compileProto keys) {key : PoolKey} {pc pc' : GrpcPc Pool E}
    (hi : s.requests[i]? = some (key, pc))
    (hpc : ∀ result, pc' = .done result → result = compileProto key) :
    (s.goto i pc').Sound compileProto keys := by
  refine ⟨h.pools, fun r hr => ?_⟩
  obtain ⟨j, hj⟩ := List.mem_iff_getElem?.1 hr
  rw [GrpcState.goto, List.getElem?_modify] at hj
  obtain ⟨r', hr', rfl⟩ := map_eq_some_iff.1 hj
  split
  next hij =>
    obtain rfl : (key, pc) = r' := some.inj (hi.symm.trans (hij ▸ hr'))
    exact ⟨(h.requests _ (List.mem_of_getElem? hi)).1, hpc⟩
  next => exact h.requests r' (List.mem_of_getElem? hr')

theorem requests_evict (s : GrpcState Pool E) (hash : UInt64) :
    (s.evict hash).requests = s.requests := by
  rw [evict]
  split_ifs
  · split <;> rfl
  · rfl

theorem Sound.insertPool (h : s.Sound compileProto keys) {key : PoolKey} (hkey : key ∈ keys)
    {pool : Pool} (hpool : compileProto key = .ok pool) (hash : UInt64) :
    ((s.evict hash).insertPool hash key pool).Sound compileProto keys := by
  have hevict : ∀ e ∈ (s.evict hash).pools.entries, e ∈ s.pools.entries := by
    rw [evict]
    split_ifs
    · split
      · exact fun e he => he
      · exact fun e he => (List.mem_filter.1 he).1
    · exact fun e he => he
  refine ⟨fun e he => ?_, fun r hr => h.requests r (requests_evict s hash ▸ hr)⟩
  rw [GrpcState.insertPool, ← get_eq_some_iff (k := e.1) (s := e.2), get_insert] at he
  split at he
  next =>
    rw [← some.inj he]
    exact ⟨hkey, hpool⟩
  next => exact h.pools e (hevict e (get_eq_some_iff.1 he))

theorem Sound.step (hsame : ∀ k ∈ keys, ∀ k' ∈ keys, ∀ pool, compileProto k = .ok pool →
    compileProto k' = .ok pool)
    (h : s.Sound compileProto keys) (hstep : grpcStep compileProto hash s i = some s') :
    s'.Sound compileProto keys := by
  obtain ⟨⟨key, pc⟩, hi, hstep⟩ := bind_eq_some_iff.1 hstep
  have hkey := (h.requests _ (List.mem_of_getElem? hi)).1
  cases pc with
  | memoRead =>
    cases hstep
    split <;> exact h.goto hi fun result hdone => by cases hdone
  | storeKey | storeHash =>
    cases hstep
    refine ⟨h.pools, (h.goto hi ?_).requests⟩
    intro result hdone
    cases hdone
  | done result => cases hstep
  | lookup hash =>
    dsimp only at hstep
    split at hstep
    next k pool hget =>
      -- The pool of any pair of the set is that of the request.
      cases hstep
      refine h.goto hi fun result hdone => ?_
      cases hdone
      obtain ⟨hk, hpool⟩ := h.pools _ (get_eq_some_iff.1 hget)
      exact (hsame k hk key hkey pool hpool).symm
    next =>
      split at hstep
      next e hcompile =>
        cases hstep
        refine h.goto hi fun result hdone => ?_
        cases hdone
        exact hcompile.symm
      next pool hcompile =>
        cases hstep
        refine (h.insertPool hkey hcompile hash).goto (requests_evict s hash ▸ hi)
          fun result hdone => ?_
        cases hdone
        exact hcompile.symm

end GrpcState

/-- Requests with pairs of a set always use their own pools, whatever the hash is, exactly if those
    that compile are the same and all compile if one does. -/
theorem ownPool_iff (compileProto : PoolKey → Except E Pool) (hash : PoolKey → UInt64)
    (keys : Set PoolKey) :
    (∀ requested : List PoolKey, (∀ key ∈ requested, key ∈ keys) →
      ∀ s, (grpcMachine compileProto hash).Reachable (.start requested) s →
        ∀ key result, (key, .done result) ∈ s.requests → result = compileProto key) ↔
      ∀ k ∈ keys, ∀ k' ∈ keys, ∀ pool, compileProto k = .ok pool → compileProto k' = .ok pool := by
  constructor
  · intro hown k hk k' hk' pool hpool
    by_contra hne
    have hkeys : k ≠ k' := fun heq => hne (heq ▸ hpool)
    -- A request for `k` is served. Another for `k'` stores its pair, but not its hash, when
    -- a third, for the same, reads them.
    have hrun : ∃ s, (grpcMachine compileProto hash).exec (.start [k, k', k'])
        [0, 0, 0, 0, 1, 1, 2, 2] = some s ∧
        (k', .done (.ok pool)) ∈ s.requests := by
      simp [Machine.exec, grpcMachine, grpcStep, GrpcState.start, GrpcState.goto, GrpcState.evict,
        GrpcState.insertPool, get_insert, hpool, hkeys, List.modify, maxCachedPools, length]
    obtain ⟨s, hexec, hmem⟩ := hrun
    exact hne
      (hown [k, k', k'] (by simp [hk, hk']) s (Machine.reachable_of_exec hexec) _ _ hmem).symm
  · intro hsame requested hrequested s hs key result hmem
    have hstart : (GrpcState.start requested : GrpcState Pool E).Sound compileProto keys := by
      refine ⟨fun e he => (List.not_mem_nil he).elim,
        List.forall_mem_map.2 fun k hk => ⟨hrequested k hk, ?_⟩⟩
      intro result hdone
      cases hdone
    exact ((hs.invariant hstart fun h hstep => h.step hsame hstep).requests _ hmem).2 result rfl

theorem pool_of_other :
    ((grpcMachine (E := Empty) (fun key => .ok key.1) fun key => if key.1 = "a" then 1 else 2).exec
      (.start [("a", none), ("b", none), ("b", none)]) [0, 0, 0, 0, 1, 1, 2, 2]).map
        (fun s => s.requests[2]?) = some (some (("b", none), .done (.ok "a"))) := by
  decide

end Tropel
