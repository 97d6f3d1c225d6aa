import Mathlib.Data.List.Nodup
import Tropel.Lib.Machine

/-!
# The pool of worker threads

Every virtual user runs on a worker of its own.

* `workers_isolated`: no worker has two users;
* `busy_accounted`: no worker is lost.
-/

namespace Tropel

open Lib List Option Bool Prod

/-! ## The pool -/

def maxWorkers : ℕ := 10000

inductive WorkerId
  | initial (i : ℕ)
  | grownBy (call : ℕ)
  deriving DecidableEq, Repr

inductive SpawnPhase
  | called
  | scanning (j : ℕ)
  | full
  | built (current : ℕ)
  | pushed (idx : ℕ)
  | acquired (idx : ℕ) (flag : WorkerId)
  | wrapped (idx : ℕ)
  | live (worker : WorkerId) (flag : Option WorkerId)
  | ended
  deriving DecidableEq, Repr

namespace SpawnPhase

def isScanning : SpawnPhase → Bool
  | scanning _ => true
  | _ => false

def isPushed : SpawnPhase → Bool
  | pushed _ => true
  | _ => false

def inProgress : SpawnPhase → Bool
  | live _ _ | ended => false
  | _ => true

def isLive : SpawnPhase → Bool
  | live _ _ => true
  | _ => false

def growing : SpawnPhase → Bool
  | full | built _ | pushed _ => true
  | _ => false

def flag? : SpawnPhase → Option WorkerId
  | acquired _ flag => some flag
  | live _ flag => flag
  | _ => none

end SpawnPhase

structure WorkerPool where
  workers : List WorkerId
  busy : List (WorkerId × Bool)
  spawns : List SpawnPhase
  deriving DecidableEq

namespace WorkerPool

variable (s : WorkerPool)

def new (count : ℕ) : WorkerPool where
  workers := (List.range count).map .initial
  busy := (List.range count).map fun i => (.initial i, false)
  spawns := []

def busyLocked : Bool := s.spawns.any SpawnPhase.isScanning

def workersLocked : Bool := s.spawns.any SpawnPhase.isPushed

def move (i : ℕ) (p : SpawnPhase) : WorkerPool := { s with spawns := s.spawns.set i p }

def release (flag : WorkerId) : List (WorkerId × Bool) :=
  s.busy.map fun f => if f.1 = flag then (flag, false) else f

def advance (vuId : ℕ → ℕ) (i : ℕ) : Option WorkerPool :=
  match s.spawns[i]? with
  | some .called => if s.busyLocked then none else some (s.move i (.scanning 0))
  | some (.scanning j) =>
    match s.busy[j]? with
    | some (flag, false) =>
      some { s with spawns := s.spawns.set i (.acquired j flag), busy := s.busy.set j (flag, true) }
    | some (_, true) => some (s.move i (.scanning (j + 1)))
    | none => some (s.move i .full)
  | some .full =>
    if s.workersLocked then none
    else if s.workers.length ≥ maxWorkers
      then some (s.move i (.wrapped (vuId i % s.workers.length)))
    else some (s.move i (.built s.workers.length))
  | some (.built current) =>
    if s.workersLocked then none
    else if s.workers.length = current then
      some { s with
        spawns := s.spawns.set i (.pushed current), workers := s.workers ++ [.grownBy i] }
    else some (s.move i .full)
  | some (.pushed idx) =>
    if s.busyLocked then none
    else some { s with
      spawns := s.spawns.set i (.acquired idx (.grownBy i)), busy :=
        s.busy ++ [(.grownBy i, true)] }
  | some (.acquired idx flag) =>
    if s.workersLocked then none
    else (s.workers[idx]?).map fun w => s.move i (.live w (some flag))
  | some (.wrapped idx) =>
    if s.workersLocked then none
    else (s.workers[idx]?).map fun w => s.move i (.live w none)
  | some (.live _ (some flag)) =>
    some { s with spawns := s.spawns.set i .ended, busy := s.release flag }
  | some (.live _ none) => some (s.move i .ended)
  | some .ended | none => none

def live : ℕ := s.spawns.countP SpawnPhase.isLive

def inProgress : ℕ := s.spawns.countP SpawnPhase.inProgress

def load : ℕ := s.live + s.inProgress

end WorkerPool

inductive PoolAction
  | call
  | advance (i : ℕ)
  deriving DecidableEq, Repr

def vuWorkerPool (vuId : ℕ → ℕ) : Machine WorkerPool PoolAction where
  step s
    | .call => some { s with spawns := s.spawns ++ [.called] }
    | .advance i => s.advance vuId i

def FewWorkers (s : WorkerPool) (_ : PoolAction) : Prop := s.workers.length < maxWorkers

instance (s : WorkerPool) (a : PoolAction) : Decidable (FewWorkers s a) :=
  inferInstanceAs (Decidable (_ < _))

namespace WorkerPool

variable {s s' : WorkerPool} {i : ℕ} {p p' : SpawnPhase}

inductive Advances (s : WorkerPool) (i : ℕ) : SpawnPhase → WorkerPool → Prop
  | scan : s.busyLocked = false → Advances s i .called (s.move i (.scanning 0))
  | claim {j : ℕ} {flag : WorkerId} : s.busy[j]? = some (flag, false) →
      Advances s i (.scanning j) { s with
        spawns := s.spawns.set i (.acquired j flag), busy := s.busy.set j (flag, true) }
  | skip {j : ℕ} {flag : WorkerId} : s.busy[j]? = some (flag, true) →
      Advances s i (.scanning j) (s.move i (.scanning (j + 1)))
  | none {j : ℕ} : s.busy.length ≤ j → Advances s i (.scanning j) (s.move i .full)
  | build : Advances s i .full (s.move i (.built s.workers.length))
  | grow : s.workersLocked = false → Advances s i (.built s.workers.length)
      { s with spawns := s.spawns.set i (.pushed s.workers.length), workers := s.workers ++
        [.grownBy i] }
  | retry {current : ℕ} : Advances s i (.built current) (s.move i .full)
  | commit {idx : ℕ} : s.busyLocked = false → Advances s i (.pushed idx)
      { s with spawns := s.spawns.set i (.acquired idx (.grownBy i)), busy := s.busy ++
        [(.grownBy i, true)] }
  | start {idx : ℕ} {flag w : WorkerId} : s.workers[idx]? = some w →
      Advances s i (.acquired idx flag) (s.move i (.live w (some flag)))
  | startWrapped {idx : ℕ} {w : WorkerId} : Advances s i (.wrapped idx) (s.move i (.live w .none))
  | finish {w flag : WorkerId} :
      Advances s i (.live w (some flag)) { s with
        spawns := s.spawns.set i .ended, busy := s.release flag }
  | finishWrapped {w : WorkerId} : Advances s i (.live w .none) (s.move i .ended)

theorem advance_cases {vuId : ℕ → ℕ} (hfew : s.workers.length < maxWorkers)
    (h : s.advance vuId i = some s') : ∃ p, s.spawns[i]? = some p ∧ Advances s i p s' := by
  rw [advance] at h
  split at h
  next hp =>
    split at h
    · cases h
    next hlock => cases h; exact ⟨_, hp, .scan (eq_false_of_not_eq_true hlock)⟩
  next j hp =>
    split at h
    next flag hj => cases h; exact ⟨_, hp, .claim hj⟩
    next flag hj => cases h; exact ⟨_, hp, .skip hj⟩
    next hj => cases h; exact ⟨_, hp, .none (List.getElem?_eq_none_iff.1 hj)⟩
  next hp =>
    split at h
    · cases h
    rw [if_neg (Nat.not_le.2 hfew)] at h
    cases h
    exact ⟨_, hp, .build⟩
  next current hp =>
    split at h
    · cases h
    next hlock =>
      split at h
      next heq =>
        subst heq
        cases h
        exact ⟨_, hp, .grow (eq_false_of_not_eq_true hlock)⟩
      next => cases h; exact ⟨_, hp, .retry⟩
  next idx hp =>
    split at h
    · cases h
    next hlock => cases h; exact ⟨_, hp, .commit (eq_false_of_not_eq_true hlock)⟩
  next idx flag hp =>
    split at h
    · cases h
    obtain ⟨w, hw, rfl⟩ := map_eq_some_iff.1 h
    exact ⟨_, hp, .start hw⟩
  next idx hp =>
    split at h
    · cases h
    obtain ⟨w, -, rfl⟩ := map_eq_some_iff.1 h
    exact ⟨_, hp, .startWrapped⟩
  next w flag hp => cases h; exact ⟨_, hp, .finish⟩
  next w hp => cases h; exact ⟨_, hp, .finishWrapped⟩
  · cases h
  · cases h

end WorkerPool

/-! ## Flags and workers -/

namespace SpawnPhase

def mayHaveGrown : SpawnPhase → Bool
  | pushed _ | acquired _ _ | live _ _ | ended => true
  | _ => false

def Fits (busy : List (WorkerId × Bool)) : SpawnPhase → Prop
  | acquired idx flag => (busy[idx]?).map Prod.fst = some flag
  | live w flag => flag = some w
  | wrapped _ => False
  | _ => True

theorem Fits.mono {busy busy' : List (WorkerId × Bool)} {p : SpawnPhase} (h : p.Fits busy)
    (hbusy : busy.map Prod.fst <+: busy'.map Prod.fst) : p.Fits busy' := by
  cases p with
  | acquired idx flag =>
    change (busy[idx]?).map fst = some flag at h
    change (busy'[idx]?).map fst = some flag
    rw [← getElem?_map] at h ⊢
    exact getElem?_of_isPrefix hbusy h
  | _ => exact h

end SpawnPhase

def setFlag (f : WorkerId × Bool) : Option WorkerId := if f.2 then some f.1 else none

theorem eq_of_mem_setFlag {f : WorkerId × Bool} {w : WorkerId} (h : w ∈ setFlag f) : w = f.1 := by
  rw [setFlag] at h
  split at h
  · exact (some.inj h).symm
  · cases h

namespace WorkerPool

variable {s s' : WorkerPool} {i : ℕ} {p p' : SpawnPhase}

structure Inv (s : WorkerPool) : Prop where
  pushed : ∀ (i idx : ℕ), s.spawns[i]? = some (.pushed idx) →
    s.workers = s.busy.map Prod.fst ++ [.grownBy i] ∧ idx = s.busy.length
  unlocked : s.workersLocked = false → s.workers = s.busy.map Prod.fst
  nodup : s.workers.Nodup
  grown : ∀ c : ℕ, .grownBy c ∈ s.workers → ∃ p, s.spawns[c]? = some p ∧ p.mayHaveGrown
  held : (s.spawns.filterMap SpawnPhase.flag?).Perm (s.busy.filterMap setFlag)
  fits : ∀ (i : ℕ) (p : SpawnPhase), s.spawns[i]? = some p → p.Fits s.busy

theorem Inv.flags_prefix (h : Inv s) : s.busy.map Prod.fst <+: s.workers := by
  cases hlock : s.workersLocked with
  | false => exact h.unlocked hlock ▸ prefix_rfl
  | true =>
    obtain ⟨q, hq, hpushed⟩ := any_eq_true.1 hlock
    obtain ⟨i, hi⟩ := getElem?_of_mem hq
    cases q with
    | pushed idx => rw [(h.pushed i idx hi).1]; exact prefix_append _ _
    | _ => cases hpushed

theorem Inv.flags_nodup (h : Inv s) : (s.busy.map Prod.fst).Nodup :=
  h.nodup.sublist h.flags_prefix.sublist

theorem Inv.flag_ne (h : Inv s) {i j : ℕ} {p q : SpawnPhase} (hij : i ≠ j)
    (hi : s.spawns[i]? = some p) (hj : s.spawns[j]? = some q) {flag flag' : WorkerId}
    (hp : p.flag? = some flag) (hq : q.flag? = some flag') : flag ≠ flag' := by
  have hset : (s.busy.filterMap setFlag).Nodup := by
    refine (pairwise_map.1 h.flags_nodup).filterMap setFlag fun f f' hne w hw w' hw' => ?_
    rw [eq_of_mem_setFlag hw, eq_of_mem_setFlag hw']
    exact hne
  have hheld : s.spawns.Pairwise _ := pairwise_filterMap.1 (h.held.nodup_iff.2 hset)
  obtain ⟨hilt, rfl⟩ := List.getElem?_eq_some_iff.1 hi
  obtain ⟨hjlt, rfl⟩ := List.getElem?_eq_some_iff.1 hj
  rw [pairwise_iff_getElem] at hheld
  rcases lt_or_gt_of_ne hij with hlt | hgt
  · exact hheld i j hilt hjlt hlt _ hp _ hq
  · exact (hheld j i hjlt hilt hgt _ hq _ hp).symm

theorem Inv.grown_set (h : Inv s) (hp : s.spawns[i]? = some p)
    (hmay : p.mayHaveGrown → p'.mayHaveGrown) {c : ℕ} (hc : .grownBy c ∈ s.workers) :
    ∃ q, (s.spawns.set i p')[c]? = some q ∧ q.mayHaveGrown := by
  obtain ⟨q, hq, hq'⟩ := h.grown c hc
  by_cases hci : c = i
  · subst hci
    rw [hp, some.injEq] at hq
    subst hq
    exact ⟨p', getElem?_set_self (List.getElem?_eq_some_iff.1 hp).1, hmay hq'⟩
  · exact ⟨q, (getElem?_set_ne (Ne.symm hci)).trans hq, hq'⟩

theorem Inv.step (h : Inv s) (hp : s.spawns[i]? = some p) (hspawns : s'.spawns = s.spawns.set i p')
    (hworkers : s'.workers = s.workers) (hbusy : s'.busy.map Prod.fst = s.busy.map Prod.fst)
    (hpushed : p.isPushed = false) (hpushed' : p'.isPushed = false)
    (hgrown : p.mayHaveGrown → p'.mayHaveGrown) (hfits : p'.Fits s'.busy)
    (hheld : (s'.spawns.filterMap SpawnPhase.flag?).Perm (s'.busy.filterMap setFlag)) : Inv s' := by
  have hlen : s'.busy.length = s.busy.length := by simpa using congrArg List.length hbusy
  refine ⟨fun j idx hj => ?_, fun hlock => ?_, ?_, fun c hc => ?_, hheld, fun j q hj => ?_⟩
  · rw [hspawns] at hj
    obtain ⟨-, rfl⟩ | ⟨-, hj⟩ := eq_or_of_getElem?_set hp hj
    · cases hpushed'
    · rw [hworkers, hbusy, hlen]
      exact h.pushed j idx hj
  · rw [hworkers, hbusy]
    refine h.unlocked (any_eq_false_iff_getElem?.2 fun j q hq => ?_)
    by_cases hji : j = i
    · subst hji
      rw [hp, some.injEq] at hq
      exact hq ▸ hpushed
    · refine any_eq_false_iff_getElem?.1 hlock j q ?_
      rw [hspawns, getElem?_set_ne (Ne.symm hji)]
      exact hq
  · rw [hworkers]
    exact h.nodup
  · rw [hworkers] at hc
    rw [hspawns]
    exact h.grown_set hp hgrown hc
  · rw [hspawns] at hj
    obtain ⟨-, rfl⟩ | ⟨-, hj⟩ := eq_or_of_getElem?_set hp hj
    · exact hfits
    · exact (h.fits j q hj).mono (hbusy ▸ prefix_rfl)

theorem Inv.move (h : Inv s) (hp : s.spawns[i]? = some p) (hflag : p'.flag? = p.flag?)
    (hpushed : p.isPushed = false) (hpushed' : p'.isPushed = false)
    (hgrown : p.mayHaveGrown → p'.mayHaveGrown) (hfits : p'.Fits s.busy) : Inv (s.move i p') := by
  refine h.step hp rfl rfl rfl hpushed hpushed' hgrown hfits ?_
  change ((s.spawns.set i p').filterMap SpawnPhase.flag?).Perm _
  rw [filterMap_set_of_eq hp hflag]
  exact h.held

variable {flag : WorkerId} {j idx : ℕ}

theorem map_fst_set {b : Bool} (h : s.busy[j]? = some (flag, b)) (b' : Bool) :
    (s.busy.set j (flag, b')).map Prod.fst = s.busy.map Prod.fst := by
  rw [map_set]
  refine set_eq_self ?_
  rw [getElem?_map, h]
  rfl

theorem Inv.claim (h : Inv s) (hp : s.spawns[i]? = some (.scanning j))
    (hj : s.busy[j]? = some (flag, false)) :
    Inv { s with
      spawns := s.spawns.set i (.acquired j flag), busy := s.busy.set j (flag, true) } := by
  have hlt : j < s.busy.length := (List.getElem?_eq_some_iff.1 hj).1
  refine h.step hp rfl rfl (map_fst_set hj true) rfl rfl nofun ?_ ?_
  · change ((s.busy.set j (flag, true))[j]?).map fst = some flag
    rw [getElem?_set_self hlt]
    rfl
  · calc ((s.spawns.set i (.acquired j flag)).filterMap SpawnPhase.flag?)
      _ |>.Perm (flag :: s.spawns.filterMap SpawnPhase.flag?) := filterMap_set_perm hp rfl rfl
      _ |>.Perm (flag :: s.busy.filterMap setFlag) := h.held.cons flag
      _ |>.Perm ((s.busy.set j (flag, true)).filterMap setFlag) :=
        (filterMap_set_perm (f := setFlag) hj rfl rfl).symm

theorem release_eq_set {b : Bool} {k : ℕ} (hnodup : (s.busy.map Prod.fst).Nodup)
    (hk : s.busy[k]? = some (flag, b)) : s.release flag = s.busy.set k (flag, false) := by
  have hlt : k < s.busy.length := (List.getElem?_eq_some_iff.1 hk).1
  refine ext_getElem? fun j => ?_
  rw [release, getElem?_map]
  by_cases hkj : k = j
  · subst hkj
    rw [getElem?_set_self hlt, hk, map_some, if_pos rfl]
  · rw [getElem?_set_ne hkj]
    cases hj : s.busy[j]? with
    | none => rfl
    | some f =>
      -- Another flag has another name.
      have hne : f.1 ≠ flag := by
        intro hf
        refine hkj ((getElem?_inj (by simpa using hlt) hnodup).1 ?_)
        rw [getElem?_map, getElem?_map, hk, hj, map_some, map_some, hf]
      rw [map_some, if_neg hne]

theorem Inv.exists_set (h : Inv s) (hp : s.spawns[i]? = some p)
    (hflag : p.flag? = some flag) : ∃ k : ℕ, s.busy[k]? = some (flag, true) := by
  have hmem : flag ∈ s.busy.filterMap setFlag :=
    h.held.mem_iff.1 (mem_filterMap.2 ⟨p, mem_of_getElem? hp, hflag⟩)
  obtain ⟨⟨f, b⟩, hf, hset⟩ := mem_filterMap.1 hmem
  cases b with
  | false => cases hset
  | true =>
    obtain rfl : f = flag := some.inj hset
    exact getElem?_of_mem hf

theorem Inv.finish {w flag : WorkerId} (h : Inv s)
    (hp : s.spawns[i]? = some (.live w (some flag))) :
    Inv { s with spawns := s.spawns.set i .ended, busy := s.release flag } := by
  obtain ⟨k, hk⟩ := h.exists_set hp rfl
  rw [release_eq_set h.flags_nodup hk]
  refine h.step hp rfl rfl (map_fst_set hk false) rfl rfl id trivial ?_
  refine List.Perm.cons_inv (a := flag) ?_
  calc (flag :: (s.spawns.set i .ended).filterMap SpawnPhase.flag?)
    _ |>.Perm (s.spawns.filterMap SpawnPhase.flag?) :=
      (filterMap_perm_set (f := SpawnPhase.flag?) hp rfl rfl).symm
    _ |>.Perm (s.busy.filterMap setFlag) := h.held
    _ |>.Perm (flag :: (s.busy.set k (flag, false)).filterMap setFlag) :=
      filterMap_perm_set (f := setFlag) hk rfl rfl

theorem Inv.grow (h : Inv s) (hp : s.spawns[i]? = some (.built s.workers.length))
    (hlock : s.workersLocked = false) :
    Inv { s with
      spawns := s.spawns.set i (.pushed s.workers.length), workers :=
        s.workers ++ [.grownBy i] } := by
  have hworkers := h.unlocked hlock
  have hnotin : .grownBy i ∉ s.workers := by
    intro hmem
    obtain ⟨q, hq, hmay⟩ := h.grown i hmem
    rw [hp, some.injEq] at hq
    subst hq
    cases hmay
  have hi : i < s.spawns.length := (List.getElem?_eq_some_iff.1 hp).1
  refine ⟨fun j idx hj => ?_, fun hunlock => ?_, ?_, fun c hc => ?_, ?_, fun j q hj => ?_⟩
  · obtain ⟨rfl, hidx⟩ | ⟨-, hj⟩ := eq_or_of_getElem?_set hp hj
    · cases hidx
      exact ⟨by rw [← hworkers], by rw [hworkers, length_map]⟩
    · exact absurd (any_eq_false_iff_getElem?.1 hlock j _ hj) nofun
  · exact absurd (any_eq_false_iff_getElem?.1 hunlock i _ (getElem?_set_self hi)) nofun
  · exact (perm_append_singleton _ _).nodup_iff.2 (nodup_cons.2 ⟨hnotin, h.nodup⟩)
  · rcases mem_append.1 hc with hc | hc
    · exact h.grown_set hp (fun _ => rfl) hc
    · cases mem_singleton.1 hc
      exact ⟨_, getElem?_set_self hi, rfl⟩
  · rw [filterMap_set_of_eq (b := .pushed s.workers.length) hp rfl]
    exact h.held
  · obtain ⟨-, rfl⟩ | ⟨-, hj⟩ := eq_or_of_getElem?_set hp hj
    · trivial
    · exact h.fits j q hj

theorem Inv.commit (h : Inv s) (hp : s.spawns[i]? = some (.pushed idx)) :
    Inv { s with
      spawns := s.spawns.set i (.acquired idx (.grownBy i)), busy :=
        s.busy ++ [(.grownBy i, true)] } := by
  obtain ⟨hworkers, rfl⟩ := h.pushed i idx hp
  have hnames : (s.busy ++ [(WorkerId.grownBy i, true)]).map fst = s.workers := by
    rw [hworkers, map_append]
    rfl
  refine ⟨fun j idx hj => ?_, fun _ => hnames.symm, h.nodup, fun c hc => ?_, ?_, fun j q hj => ?_⟩
  · obtain ⟨-, hidx⟩ | ⟨hji, hj⟩ := eq_or_of_getElem?_set hp hj
    · cases hidx
    · -- Only one call adds a worker at a time.
      have hsame := (h.pushed j idx hj).1.symm.trans hworkers
      have : WorkerId.grownBy j = .grownBy i := by simpa using hsame
      cases this
      exact absurd rfl hji
  · exact h.grown_set hp (fun _ => rfl) hc
  · change ((s.spawns.set i (.acquired s.busy.length (.grownBy i))).filterMap SpawnPhase.flag?).Perm
      ((s.busy ++ [(WorkerId.grownBy i, true)]).filterMap setFlag)
    rw [filterMap_append]
    calc ((s.spawns.set i (.acquired s.busy.length (.grownBy i))).filterMap SpawnPhase.flag?)
      _ |>.Perm (.grownBy i :: s.spawns.filterMap SpawnPhase.flag?) :=
        filterMap_set_perm (f := SpawnPhase.flag?) hp rfl rfl
      _ |>.Perm (.grownBy i :: s.busy.filterMap setFlag) := h.held.cons _
      _ |>.Perm (s.busy.filterMap setFlag ++ [.grownBy i]) := (perm_append_singleton _ _).symm
  · obtain ⟨-, rfl⟩ | ⟨-, hj⟩ := eq_or_of_getElem?_set hp hj
    · change ((s.busy ++ [(WorkerId.grownBy i, true)])[s.busy.length]?).map fst = _
      rw [getElem?_concat_length]
      rfl
    · refine (h.fits j q hj).mono ?_
      rw [map_append]
      exact prefix_append _ _

theorem Inv.call (h : Inv s) : Inv { s with spawns := s.spawns ++ [.called] } := by
  refine ⟨fun j idx hj => ?_, fun hlock => ?_, h.nodup, fun c hc => ?_, ?_, fun j q hj => ?_⟩
  · rcases eq_or_of_getElem?_concat hj with hj | hj
    · exact h.pushed j idx hj
    · cases hj
  · refine h.unlocked ?_
    rw [workersLocked, any_append, or_eq_false_iff] at hlock
    exact hlock.1
  · obtain ⟨q, hq, hmay⟩ := h.grown c hc
    exact ⟨q, by rw [getElem?_append_left (List.getElem?_eq_some_iff.1 hq).1]; exact hq, hmay⟩
  · have hnone : [SpawnPhase.called].filterMap SpawnPhase.flag? = [] := rfl
    rw [filterMap_append, hnone, append_nil]
    exact h.held
  · rcases eq_or_of_getElem?_concat hj with hj | rfl
    · exact h.fits j q hj
    · trivial

theorem Inv.advances (h : Inv s) (hp : s.spawns[i]? = some p) (hadv : Advances s i p s') :
    Inv s' := by
  cases hadv with
  | scan | skip | none | build | retry => exact h.move hp rfl rfl rfl nofun trivial
  | claim hj => exact h.claim hp hj
  | grow hlock => exact h.grow hp hlock
  | commit => exact h.commit hp
  | start hw =>
    -- The slot is that of the flag, so that the worker is the flag's.
    have hfits := h.fits i _ hp
    refine h.move hp rfl rfl rfl id ?_
    rw [SpawnPhase.Fits, ← getElem?_map] at hfits
    have hget := getElem?_of_isPrefix h.flags_prefix hfits
    exact hget.symm.trans hw
  | startWrapped => exact absurd (h.fits i _ hp) id
  | finish => exact h.finish hp
  | finishWrapped => exact absurd (h.fits i _ hp) nofun

/-! ## The size of the pool -/

def growing (s : WorkerPool) : ℕ := s.spawns.countP SpawnPhase.growing

theorem Inv.countP_busy (h : Inv s) : s.busy.countP Prod.snd = s.spawns.countP fun p =>
    p.flag?.isSome := by
  have hlen := h.held.length_eq
  rw [length_filterMap_eq_countP, length_filterMap_eq_countP] at hlen
  rw [hlen]
  congr 1
  funext f
  rcases f with ⟨flag, _ | _⟩ <;> rfl

theorem countP_add_le_load (s : WorkerPool) :
    (s.spawns.countP fun p => p.flag?.isSome) + s.growing + s.spawns.count .called ≤ s.load := by
  have hphase (p : SpawnPhase) : (if p.flag?.isSome then 1 else 0) + (if p.growing then 1 else 0) +
      (if p = .called then 1 else 0) ≤
        (if p.isLive then 1 else 0) + (if p.inProgress then 1 else 0) := by
    rcases p with _ | _ | _ | _ | _ | _ | _ | ⟨w, _ | flag⟩ | _ <;>
      simp [SpawnPhase.flag?, SpawnPhase.growing, SpawnPhase.isLive, SpawnPhase.inProgress]
  rw [growing, load, live, inProgress]
  induction s.spawns with
  | nil => exact le_rfl
  | cons p l ih =>
    have := hphase p
    simp only [countP_cons, count_cons, beq_iff_eq]
    omega

structure PeakInv (count n : ℕ) (s : WorkerPool) : Prop where
  workers_le : s.workers.length ≤ max count n
  growing_le : 0 < s.growing → s.busy.length + s.growing ≤ n
  scan_le : ∀ i j : ℕ, s.spawns[i]? = some (.scanning j) →
    j + (s.busy.drop j).countP Prod.snd + s.growing < n
  one_scan : ∀ i j k l : ℕ, s.spawns[i]? = some (.scanning j) →
    s.spawns[k]? = some (.scanning l) → i = k

variable {count n : ℕ}

theorem PeakInv.mono (h : PeakInv count n s) {n' : ℕ} (hn : n ≤ n') : PeakInv count n' s :=
  ⟨h.workers_le.trans (max_le_max_left _ hn), fun hpos => (h.growing_le hpos).trans hn,
    fun i j hi => (h.scan_le i j hi).trans_le hn, h.one_scan⟩

variable (s') in
theorem growing_set (hp : s.spawns[i]? = some p) (hspawns : s'.spawns = s.spawns.set i p') :
    s'.growing + (if p.growing then 1 else 0) = s.growing + (if p'.growing then 1 else 0) := by
  rw [growing, growing, hspawns]
  exact countP_set hp p'

theorem PeakInv.step (h : PeakInv count n s) (hp : s.spawns[i]? = some p)
    (hspawns : s'.spawns = s.spawns.set i p') (hworkers : s'.workers.length ≤ max count n)
    (hlen : s'.busy.length = s.busy.length)
    (hbusy : p.isScanning ∨ ∀ j, (s'.busy.drop j).countP Prod.snd ≤ (s.busy.drop j).countP Prod.snd)
    (hgrowing : p'.growing = p.growing) (hscan : p'.isScanning = false) : PeakInv count n s' := by
  have hgrowing' : s'.growing = s.growing := by
    have := growing_set s' hp hspawns
    rw [hgrowing] at this
    omega
  have hold : ∀ {k j : ℕ}, s'.spawns[k]? = some (.scanning j) →
      k ≠ i ∧ s.spawns[k]? = some (.scanning j) := by
    intro k j hk
    rw [hspawns] at hk
    obtain ⟨-, rfl⟩ | hk := eq_or_of_getElem?_set hp hk
    · cases hscan
    · exact hk
  refine ⟨hworkers, ?_, fun k j hk => ?_,
    fun k j k' l hk hk' => h.one_scan k j k' l (hold hk).2 (hold hk').2⟩
  · rw [hgrowing', hlen]
    exact h.growing_le
  · obtain ⟨hki, hk⟩ := hold hk
    have hle := h.scan_le k j hk
    rcases hbusy with hp' | hbusy
    · -- There are not two scans.
      cases p with
      | scanning l => exact absurd (h.one_scan k j i l hk hp) hki
      | _ => cases hp'
    · have := hbusy j
      omega

/-- A call moves on in its scan, or begins it, when nobody else scans. -/
theorem PeakInv.moveScanning (h : PeakInv count n s) (hp : s.spawns[i]? = some p)
    (hgrowing : p.growing = false) (hothers : ∀ k l : ℕ, k ≠ i → s.spawns[k]? ≠ some (.scanning l))
    (hle : j + (s.busy.drop j).countP Prod.snd + s.growing < n) :
    PeakInv count n (s.move i (.scanning j)) := by
  have hsame : (s.move i (.scanning j)).growing = s.growing := by
    have hset := growing_set (s.move i (.scanning j)) hp rfl
    rw [hgrowing] at hset
    exact hset
  have honly : ∀ {k l : ℕ}, (s.move i (.scanning j)).spawns[k]? = some (.scanning l) →
      k = i ∧ l = j := by
    intro k l hk
    obtain ⟨rfl, hl⟩ | ⟨hki, hk⟩ := eq_or_of_getElem?_set hp hk
    · cases hl
      exact ⟨rfl, rfl⟩
    · exact absurd hk (hothers k l hki)
  refine ⟨h.workers_le, ?_, fun k l hk => ?_,
    fun k l k' l' hk hk' => (honly hk).1.trans (honly hk').1.symm⟩
  · rw [hsame]
    exact h.growing_le
  · obtain ⟨-, rfl⟩ := honly hk
    rw [hsame]
    exact hle

theorem PeakInv.scan (h : PeakInv count n s) (hinv : Inv s) (hload : s.load ≤ n)
    (hp : s.spawns[i]? = some .called) (hlock : s.busyLocked = false) :
    PeakInv count n (s.move i (.scanning 0)) := by
  -- As many flags as are set are held, and the call that scans is one more.
  have hcalled : 0 < s.spawns.count .called := count_pos_iff.2 (mem_of_getElem? hp)
  have hle := s.countP_add_le_load
  rw [← hinv.countP_busy] at hle
  refine h.moveScanning hp rfl (fun k l _ hk => ?_) ?_
  · exact absurd (any_eq_false_iff_getElem?.1 hlock k _ hk) nofun
  · rw [drop_zero]
    omega

theorem PeakInv.skip (h : PeakInv count n s)
    (hp : s.spawns[i]? = some (.scanning j)) (hj : s.busy[j]? = some (flag, true)) :
    PeakInv count n (s.move i (.scanning (j + 1))) := by
  have hdrop : (s.busy.drop j).countP snd = (s.busy.drop (j + 1)).countP snd + 1 := by
    obtain ⟨hlt, hget⟩ := List.getElem?_eq_some_iff.1 hj
    rw [drop_eq_getElem_cons hlt, hget, countP_cons]
    rfl
  have hle := h.scan_le i j hp
  exact h.moveScanning hp rfl (fun k l hki hk => hki (h.one_scan k l i j hk hp)) (by omega)

theorem PeakInv.full (h : PeakInv count n s) (hp : s.spawns[i]? = some (.scanning j))
    (hj : s.busy.length ≤ j) : PeakInv count n (s.move i .full) := by
  have hgrowing : (s.move i .full).growing = s.growing + 1 :=
    growing_set (s.move i .full) hp rfl
  have hle := h.scan_le i j hp
  have hnone : ∀ {k l : ℕ}, (s.move i .full).spawns[k]? ≠ some (.scanning l) := by
    intro k l hk
    obtain ⟨-, hl⟩ | ⟨hki, hk⟩ := eq_or_of_getElem?_set hp hk
    · cases hl
    · exact hki (h.one_scan k l i j hk hp)
  refine ⟨h.workers_le, fun _ => ?_, fun k l hk => absurd hk hnone,
    fun k l k' l' hk => absurd hk hnone⟩
  rw [hgrowing]
  change s.busy.length + (s.growing + 1) ≤ n
  omega

theorem PeakInv.commit (h : PeakInv count n s) (hp : s.spawns[i]? = some (.pushed idx))
    (hlock : s.busyLocked = false) : PeakInv count n
      { s with spawns := s.spawns.set i (.acquired idx (.grownBy i)), busy := s.busy ++
        [(.grownBy i, true)] } := by
  have hgrowing := growing_set { s with
    spawns := s.spawns.set i (.acquired idx (.grownBy i)), busy :=
      s.busy ++ [(.grownBy i, true)] } hp rfl
  simp only [SpawnPhase.growing, if_true, false_eq_true, if_false] at hgrowing
  have hnone : ∀ {k l : ℕ},
      (s.spawns.set i (.acquired idx (.grownBy i)))[k]? ≠ some (.scanning l) := by
    intro k l hk
    obtain ⟨-, hl⟩ | ⟨-, hk⟩ := eq_or_of_getElem?_set hp hk
    · cases hl
    · exact absurd (any_eq_false_iff_getElem?.1 hlock k _ hk) nofun
  refine ⟨h.workers_le, fun _ => ?_, fun k l hk => absurd hk hnone,
    fun k l k' l' hk => absurd hk hnone⟩
  have hle := h.growing_le (by omega)
  rw [length_append, length_singleton]
  omega

theorem countP_drop_release (s : WorkerPool) (flag : WorkerId) (j : ℕ) :
    ((s.release flag).drop j).countP Prod.snd ≤ (s.busy.drop j).countP Prod.snd := by
  rw [release, ← map_drop, countP_map]
  refine countP_mono_left fun f _ hf => ?_
  rw [Function.comp_apply] at hf
  split at hf
  · cases hf
  · exact hf

theorem PeakInv.advances (h : PeakInv count n s) (hinv : Inv s) (hload : s.load ≤ n)
    (hp : s.spawns[i]? = some p) (hadv : Advances s i p s') : PeakInv count n s' := by
  cases hadv with
  | scan hlock => exact h.scan hinv hload hp hlock
  | claim hj => exact h.step hp rfl h.workers_le length_set (.inl rfl) rfl rfl
  | skip hj => exact h.skip hp hj
  | none hj => exact h.full hp hj
  | build | retry | start | startWrapped
  | finishWrapped => exact h.step hp rfl h.workers_le rfl (.inr fun _ => le_rfl) rfl rfl
  | grow hlock =>
    -- The call itself is about to grow the pool.
    have hpos : 0 < s.growing := countP_pos_iff.2 ⟨_, mem_of_getElem? hp, rfl⟩
    have hle := h.growing_le hpos
    refine h.step hp rfl (le_max_of_le_right ?_) rfl (.inr fun _ => le_rfl) rfl rfl
    rw [length_append, length_singleton, hinv.unlocked hlock, length_map]
    omega
  | commit hlock => exact h.commit hp hlock
  | finish =>
    exact h.step hp rfl h.workers_le (length_map _) (.inr (countP_drop_release s _)) rfl rfl

theorem PeakInv.call (h : PeakInv count n s) :
    PeakInv count n { s with spawns := s.spawns ++ [.called] } := by
  have hold : ∀ {k j : ℕ}, (s.spawns ++ [SpawnPhase.called])[k]? = some (.scanning j) →
      s.spawns[k]? = some (.scanning j) := by
    intro k j hk
    exact (eq_or_of_getElem?_concat hk).resolve_right nofun
  have hgrowing : growing { s with spawns := s.spawns ++ [.called] } = s.growing := by
    rw [growing, countP_append]
    rfl
  refine ⟨h.workers_le, ?_, fun k j hk => ?_,
    fun k j k' l hk hk' => h.one_scan k j k' l (hold hk) (hold hk')⟩
  · rw [hgrowing]
    exact h.growing_le
  · rw [hgrowing]
    exact h.scan_le k j (hold hk)

/-! ## All runs -/

def machine (vuId : ℕ → ℕ) : Machine WorkerPool PoolAction := (vuWorkerPool vuId).guard FewWorkers

theorem inv_new (count : ℕ) : Inv (new count) := by
  have hnames : (new count).busy.map fst = (new count).workers := by
    rw [new, List.map_map]
    rfl
  have hnone : (new count).busy.filterMap setFlag = [] := by
    refine filterMap_eq_nil_iff.2 fun f hf => ?_
    obtain ⟨i, -, rfl⟩ := mem_map.1 hf
    rfl
  refine ⟨nofun, fun _ => hnames.symm, ?_, fun c hc => ?_, ?_, nofun⟩
  · exact List.Nodup.map (fun i j => WorkerId.initial.inj) nodup_range
  · obtain ⟨i, -, hi⟩ := mem_map.1 hc
    cases hi
  · rw [hnone]
    exact List.Perm.nil

theorem peakInv_new (count n : ℕ) : PeakInv count n (new count) := by
  refine ⟨le_max_of_le_left ?_, fun hpos => absurd hpos (lt_irrefl 0), nofun, nofun⟩
  rw [new, length_map, length_range]

theorem inv_exec {vuId : ℕ → ℕ} {count : ℕ} {as : List PoolAction}
    (h : (machine vuId).exec (new count) as = some s) :
    Inv s ∧ PeakInv count ((machine vuId).peak load (new count) as) s := by
  refine Machine.exec_peak (P := fun s n => Inv s ∧ PeakInv count n s) h
    ⟨inv_new count, peakInv_new count _⟩ ?_
  rintro s s' a n ⟨hinv, hpeak⟩ hload hstep
  obtain ⟨hfew, hstep⟩ := ite_none_right_eq_some.1 hstep
  cases a with
  | call =>
    cases hstep
    exact ⟨hinv.call, hpeak.call.mono (le_max_left _ _)⟩
  | advance i =>
    obtain ⟨p, hp, hadv⟩ := advance_cases hfew hstep
    exact ⟨hinv.advances hp hadv, (hpeak.advances hinv hload hp hadv).mono (le_max_left _ _)⟩

/-- With few workers, in every run no two users are on one worker, the `i`-th flag belongs to the
    `i`-th worker, and there are not more workers than at the start or than users and calls in
    progress at the peak. -/
theorem workers_isolated {vuId : ℕ → ℕ} {count : ℕ} {as : List PoolAction}
    (h : (machine vuId).exec (new count) as = some s) :
    (∀ (i j : ℕ) w flag w' flag', i ≠ j → s.spawns[i]? = some (.live w flag) →
      s.spawns[j]? = some (.live w' flag') → w ≠ w') ∧
    (∀ (i : ℕ) f, s.busy[i]? = some f → s.workers[i]? = some f.1) ∧
    s.workers.length ≤ max count ((machine vuId).peak load (new count) as) := by
  obtain ⟨hinv, hpeak⟩ := inv_exec h
  refine ⟨fun i j w flag w' flag' hij hi hj => ?_, fun i f hf => ?_, hpeak.workers_le⟩
  · obtain rfl : flag = some w := hinv.fits i _ hi
    obtain rfl : flag' = some w' := hinv.fits j _ hj
    exact hinv.flag_ne hij hi hj rfl rfl
  · refine getElem?_of_isPrefix hinv.flags_prefix ?_
    rw [getElem?_map, hf]
    rfl

theorem workers_isolated_two : ∃ as s, (machine fun i => i).exec (new 0) as = some s ∧
    s.spawns = [.ended, .live (.grownBy 1) (some (.grownBy 1)),
      .live (.grownBy 0) (some (.grownBy 0))] ∧
    (∀ (i j : ℕ) w flag w' flag', i ≠ j → s.spawns[i]? = some (.live w flag) →
      s.spawns[j]? = some (.live w' flag') → w ≠ w') ∧
    (∀ (i : ℕ) f, s.busy[i]? = some f → s.workers[i]? = some f.1) ∧
    s.workers.length ≤ max 0 ((machine fun i => i).peak load (new 0) as) ∧
    s.workers.length = 2 ∧ (machine fun i => i).peak load (new 0) as = 2 := by
  let as : List PoolAction := [.call, .call, .advance 0, .advance 0, .advance 1, .advance 1,
    .advance 0, .advance 1, .advance 0, .advance 0, .advance 1, .advance 1, .advance 1, .advance 1,
    .advance 0, .advance 1, .advance 0, .call, .advance 2, .advance 2, .advance 2]
  let s : WorkerPool :=
    { workers := [.grownBy 0, .grownBy 1], busy := [(.grownBy 0, true), (.grownBy 1, true)]
      spawns := [.ended, .live (.grownBy 1) (some (.grownBy 1)),
        .live (.grownBy 0) (some (.grownBy 0))] }
  have hexec : (machine fun i => i).exec (new 0) as = some s := by decide
  obtain ⟨hisolated, hflags, hsize⟩ := workers_isolated hexec
  exact ⟨as, s, hexec, rfl, hisolated, hflags, hsize, rfl, by decide⟩

/-- As many flags are set as calls hold one, so that no worker is lost: without users, all of them
    are free. -/
theorem busy_accounted {vuId : ℕ → ℕ} {count : ℕ} {as : List PoolAction}
    (h : (machine vuId).exec (new count) as = some s) :
    s.busy.countP Prod.snd = s.spawns.countP (fun p => p.flag?.isSome) ∧
      s.busy.countP Prod.snd ≤ s.load := by
  have hcount := (inv_exec h).1.countP_busy
  have hload := countP_add_le_load s
  omega

theorem busy_accounted_one :
    ∃ s, (machine id).exec (new 1) [.call, .advance 0, .advance 0] = some s ∧
    s.busy.countP Prod.snd = 1 ∧ s.busy.countP Prod.snd ≤ s.load := by
  have hexec : (machine id).exec (new 1) [.call, .advance 0, .advance 0] =
      some ⟨[.initial 0], [(.initial 0, true)], [.acquired 0 (.initial 0)]⟩ := by decide
  exact ⟨_, hexec, rfl, (busy_accounted hexec).2⟩

end WorkerPool

end Tropel
