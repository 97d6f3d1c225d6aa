import Mathlib.Data.List.Nodup
import Tropel.Lib.Machine

/-!
# Timers

Timers are kept in a table.

* `timers_fire_once`: when a timeout fires.
-/

namespace Tropel.Timers

open Lib List Option

structure Timer (T : Type) where
  id : ℕ
  due : T
  interval : Bool
  ms : T

structure TimerState (T : Type) where
  seq : ℕ
  timers : List (Timer T)
  ids : List ℕ
  now : T

inductive TimerOp (T : Type)
  | set (interval : Bool) (now ms : T)
  | clear (id : ℕ)
  | pump (now : T)
  | visit
  | reset (now : T)

variable {T : Type} [LinearOrder T] [Add T]

namespace TimerState

variable (s : TimerState T)

def arm (interval : Bool) (now ms : T) : TimerState T :=
  { s with seq := s.seq + 1, timers := s.timers ++ [⟨s.seq + 1, now + ms, interval, ms⟩] }

def fired : TimerOp T → Option (Timer T)
  | .visit => s.ids.head?.bind fun id => (s.timers.find? fun t => t.id = id).filter fun t =>
      t.due ≤ s.now
  | _ => none

def rearm (id : ℕ) (t : Timer T) : Timer T :=
  if t.id = id then { t with due := s.now + t.ms } else t

def visited (id : ℕ) : TimerState T where
  seq := s.seq
  timers := match s.fired .visit with
    | none => s.timers
    | some t => if t.interval then s.timers.map (s.rearm id) else s.timers.filter fun t => t.id ≠ id
  ids := s.ids.tail
  now := s.now

def step : TimerOp T → Option (TimerState T)
  | .set interval now ms => some (s.arm interval now ms)
  | .clear id => some { s with timers := s.timers.filter fun t => t.id ≠ id }
  | .pump now => if s.ids = [] then some { s with ids := s.timers.map Timer.id, now } else none
  | .visit => s.ids.head?.map s.visited
  | .reset now =>
    if s.ids = [] then some { s with timers := s.timers.filter fun t => t.interval || now < t.due }
      else none

end TimerState

def machine : Machine (TimerState T) (TimerOp T) := ⟨TimerState.step⟩

def start (now : T) : TimerState T := ⟨0, [], [], now⟩

def fires (i : ℕ) (s : TimerState T) (a : TimerOp T) : ℕ :=
  if (s.fired a).map Timer.id = some i then 1 else 0

structure Valid (s : TimerState T) : Prop where
  nodup : (s.timers.map Timer.id).Nodup
  le_seq : ∀ t ∈ s.timers, t.id ≤ s.seq
  ids_le : ∀ i ∈ s.ids, i ≤ s.seq

variable {s s' : TimerState T} {a : TimerOp T} {i n : ℕ} {t : Timer T}

omit [LinearOrder T] in
theorem map_id_rearm (id : ℕ) (l : List (Timer T)) :
    (l.map (s.rearm id)).map Timer.id = l.map Timer.id := by
  rw [List.map_map]
  refine map_congr_left fun t _ => ?_
  rw [Function.comp_apply, TimerState.rearm]
  split <;> rfl

theorem step_timers (h : s.step a = some s') :
    (s'.seq = s.seq ∧ s'.timers.map Timer.id <+ s.timers.map Timer.id) ∨
      ∃ interval now ms, s' = s.arm interval now ms := by
  cases a with
  | set interval now ms => exact .inr ⟨interval, now, ms, (some.inj h).symm⟩
  | clear id =>
    cases h
    exact .inl ⟨rfl, filter_sublist.map _⟩
  | pump now =>
    obtain ⟨-, ⟨⟩⟩ := ite_none_right_eq_some.1 h
    exact .inl ⟨rfl, Sublist.refl _⟩
  | reset now =>
    obtain ⟨-, ⟨⟩⟩ := ite_none_right_eq_some.1 h
    exact .inl ⟨rfl, filter_sublist.map _⟩
  | visit =>
    obtain ⟨id, -, rfl⟩ := map_eq_some_iff.1 h
    refine .inl ⟨rfl, ?_⟩
    dsimp only [TimerState.visited]
    split
    · exact Sublist.refl _
    · split
      · rw [map_id_rearm]
      · exact filter_sublist.map _

theorem step_ids (h : s.step a = some s') :
    (∃ now, a = .pump now ∧ s.ids = [] ∧ s'.ids = s.timers.map Timer.id ∧
      s'.now = now) ∨ s'.now = s.now ∧ (s'.ids = s.ids ∨ a = .visit ∧ s'.ids = s.ids.tail) := by
  cases a with
  | set | clear =>
    cases h
    exact .inr ⟨rfl, .inl rfl⟩
  | pump now =>
    obtain ⟨hids, ⟨⟩⟩ := ite_none_right_eq_some.1 h
    exact .inl ⟨now, rfl, hids, rfl, rfl⟩
  | reset now =>
    obtain ⟨-, ⟨⟩⟩ := ite_none_right_eq_some.1 h
    exact .inr ⟨rfl, .inl rfl⟩
  | visit =>
    obtain ⟨id, -, rfl⟩ := map_eq_some_iff.1 h
    exact .inr ⟨rfl, .inr ⟨rfl, rfl⟩⟩

theorem Valid.step (hs : Valid s) (h : s.step a = some s') : Valid s' := by
  obtain ⟨hnodup, hseq, hids⟩ := hs
  have hids' : ∀ i ∈ s'.ids, i ≤ s.seq := by
    obtain ⟨now, -, -, heq, -⟩ | ⟨-, heq | ⟨-, heq⟩⟩ := step_ids h
    · rw [heq, List.forall_mem_map]
      exact hseq
    · rwa [heq]
    · exact fun i hi => hids i (mem_of_mem_tail (heq ▸ hi))
  obtain ⟨hsame, hsub⟩ | ⟨interval, now, ms, rfl⟩ := step_timers h
  · refine ⟨hnodup.sublist hsub, fun t ht => ?_, hsame ▸ hids'⟩
    obtain ⟨u, hu, hid⟩ := mem_map.1 (hsub.subset (mem_map_of_mem ht))
    rw [hsame, ← hid]
    exact hseq u hu
  · refine ⟨?_, ?_, fun i hi => (hids' i hi).trans (Nat.le_succ _)⟩
    · rw [TimerState.arm, map_append, nodup_append]
      refine ⟨hnodup, nodup_singleton _, fun i hi j hj hij => ?_⟩
      obtain ⟨t, ht, rfl⟩ := mem_map.1 hi
      have hle := hseq t ht
      rw [hij, mem_singleton.1 hj] at hle
      exact absurd hle (Nat.not_succ_le_self _)
    · dsimp only [TimerState.arm]
      rw [forall_mem_append, forall_mem_singleton]
      exact ⟨fun t ht => (hseq t ht).trans (Nat.le_succ _), le_rfl⟩

/-! ## Timers that cannot fire any more -/

def Stopped (i : ℕ) (s : TimerState T) : Prop := i ≤ s.seq ∧ i ∉ s.timers.map Timer.id

omit [Add T] in
theorem of_fired (h : s.fired a = some t) : t ∈ s.timers ∧ t.due ≤ s.now ∧ a = .visit ∧
    s.ids.head? = some t.id := by
  cases a with
  | visit =>
    obtain ⟨id, hid, h⟩ := bind_eq_some_iff.1 h
    obtain ⟨hfind, hdue⟩ := filter_eq_some_iff.1 h
    have heq : t.id = id := by simpa using find?_some hfind
    exact ⟨mem_of_find?_eq_some hfind, of_decide_eq_true hdue, rfl, heq ▸ hid⟩
  | _ => cases h

omit [Add T] in
theorem Stopped.fires_eq (hs : Stopped i s) (a : TimerOp T) : fires i s a = 0 := by
  refine if_neg fun h => ?_
  obtain ⟨t, ht, rfl⟩ := map_eq_some_iff.1 h
  exact hs.2 (mem_map_of_mem (of_fired ht).1)

theorem Stopped.step (hs : Stopped i s) (h : s.step a = some s') : Stopped i s' := by
  obtain ⟨hseq, hsub⟩ | ⟨interval, now, ms, rfl⟩ := step_timers h
  · exact ⟨hseq ▸ hs.1, fun hi => hs.2 (hsub.subset hi)⟩
  · refine ⟨hs.1.trans (Nat.le_succ _), ?_⟩
    rw [TimerState.arm, map_append, mem_append, not_or]
    exact ⟨hs.2, fun hi => Nat.not_succ_le_self _ (mem_singleton.1 hi ▸ hs.1)⟩

theorem Stopped.total_eq {as : List (TimerOp T)} (hs : Stopped i s)
    (h : machine.exec s as = some s') :
    machine.total (fires i) s as = 0 := by
  have hrun :=
    Machine.exec_invariant (w := fires i) (P := fun s n => Stopped i s ∧ n = 0) h ⟨hs, rfl⟩
    fun ⟨hs, hn⟩ h => ⟨hs.step h, by rw [hn, hs.fires_eq]⟩
  rw [zero_add] at hrun
  exact hrun.2

/-! ## Timers that wait -/

/-- An operation does not remove a timer that has not been fired. -/
def Spares (t : Timer T) : TimerOp T → Prop
  | .clear id => id ≠ t.id
  | .reset now => now < t.due
  | _ => True

omit [Add T] in
theorem Valid.fired_eq (hs : Valid s) (ht : t ∈ s.timers) (hhead : s.ids.head? = some t.id)
    (hdue : t.due ≤ s.now) :
    s.fired .visit = some t := by
  have hfind : s.timers.find? (fun u => u.id = t.id) = some t := by
    obtain ⟨u, hu⟩ := isSome_iff_exists.1
      (find?_isSome.2 ⟨t, ht, decide_eq_true rfl⟩ : (s.timers.find? fun u => u.id = t.id).isSome)
    have hid : u.id = t.id := by simpa using find?_some hu
    rw [hu, inj_on_of_nodup_map hs.nodup (mem_of_find?_eq_some hu) ht hid]
  rw [TimerState.fired, hhead, bind_some, hfind]
  exact filter_eq_some_iff.2 ⟨rfl, decide_eq_true hdue⟩

theorem Valid.mem_step (hs : Valid s) (ht : t ∈ s.timers) (hspare : Spares t a)
    (hvisit : s.fired a ≠ some t) (h : s.step a = some s') :
    t ∈ s'.timers ∧ fires t.id s a = 0 := by
  have hother (u) (hu : s.fired a = some u) : u.id ≠ t.id := by
    intro hid
    exact hvisit (hu.trans (congrArg _ (inj_on_of_nodup_map hs.nodup (of_fired hu).1 ht hid)))
  refine ⟨?_, if_neg fun h => ?_⟩
  · cases a with
    | set =>
      cases h
      exact mem_append_left _ ht
    | clear id =>
      cases h
      exact mem_filter.2 ⟨ht, decide_eq_true hspare.symm⟩
    | pump now =>
      obtain ⟨-, ⟨⟩⟩ := ite_none_right_eq_some.1 h
      exact ht
    | reset now =>
      obtain ⟨-, ⟨⟩⟩ := ite_none_right_eq_some.1 h
      exact mem_filter.2 ⟨ht, by simp [show now < t.due from hspare]⟩
    | visit =>
      obtain ⟨id, hhead, rfl⟩ := map_eq_some_iff.1 h
      dsimp only [TimerState.visited]
      split
      · exact ht
      next u hu =>
        have hid : t.id ≠ id := by
          rw [← some.inj ((of_fired hu).2.2.2.symm.trans hhead)]
          exact (hother u hu).symm
        split
        · exact mem_map.2 ⟨t, ht, if_neg hid⟩
        · exact mem_filter.2 ⟨ht, decide_eq_true hid⟩
  · obtain ⟨u, hu, hid⟩ := map_eq_some_iff.1 h
    exact hother u hu hid

theorem Valid.stopped_of_fired (hs : Valid s) (hshot : t.interval = false)
    (hfired : s.fired a = some t) (h : s.step a = some s') : Stopped t.id s' := by
  obtain ⟨ht, -, rfl, hhead⟩ := of_fired hfired
  obtain ⟨id, hid, rfl⟩ := map_eq_some_iff.1 h
  obtain rfl := some.inj (hhead.symm.trans hid)
  refine ⟨hs.le_seq t ht, fun hmem => ?_⟩
  rw [TimerState.visited, hfired] at hmem
  dsimp only at hmem
  rw [hshot, if_neg Bool.false_ne_true] at hmem
  obtain ⟨u, hu, hid⟩ := mem_map.1 hmem
  exact of_decide_eq_true (mem_filter.1 hu).2 hid

variable {now₀ now ms : T} {early during : List (TimerOp T)} {s₀ s₁ s₂ : TimerState T}

theorem Valid.total_waiting (hs : Valid s) (ht : t ∈ s.timers) (hids : t.id ∈ s.ids → s.now < t.due)
    (hearly : ∀ a ∈ early, Spares t a ∧ ∀ now, a = .pump now → now < t.due)
    (h : machine.exec s early = some s') :
    (Valid s' ∧ t ∈ s'.timers) ∧ machine.total (fires t.id) s early = 0 := by
  have hrun := Machine.exec_invariant_of (w := fires t.id)
    (P := fun s n => ((Valid s ∧ t ∈ s.timers) ∧ (t.id ∈ s.ids → s.now < t.due)) ∧ n = 0) hearly h
    ⟨⟨⟨hs, ht⟩, hids⟩, rfl⟩ ?_
  · rw [zero_add] at hrun
    exact ⟨hrun.1.1, hrun.2⟩
  · rintro s s' a n ⟨hspare, hpump⟩ ⟨⟨⟨hs, ht⟩, hids⟩, rfl⟩ h
    have hmem := hs.mem_step ht hspare (fun hfired => ?_) h
    · refine ⟨⟨⟨hs.step h, hmem.1⟩, ?_⟩, (zero_add _).trans hmem.2⟩
      obtain ⟨now, ha, -, -, hnow⟩ | ⟨hnow, heq | ⟨-, heq⟩⟩ := step_ids h
      · exact fun _ => hnow ▸ hpump now ha
      · rwa [heq, hnow]
      · exact fun hi => hnow ▸ hids (mem_of_mem_tail (heq ▸ hi))
    · obtain ⟨-, hdue, -, hhead⟩ := of_fired hfired
      exact absurd hdue (not_le.2 (hids (mem_of_mem_head? hhead)))

theorem Valid.total_pump (hs : Valid s) (ht : t ∈ s.timers) (hshot : t.interval = false)
    (hids : t.id ∈ s.ids) (hdue : t.due ≤ s.now) (hduring : ∀ a ∈ during, Spares t a)
    (h : machine.exec s during = some s') (hend : s'.ids = []) :
    Stopped t.id s' ∧ machine.total (fires t.id) s during = 1 := by
  have hrun := Machine.exec_invariant_of (w := fires t.id) (n := 0)
    (P := fun s n => (Valid s ∧ t ∈ s.timers ∧ t.id ∈ s.ids ∧ t.due ≤ s.now ∧ n = 0) ∨
      Stopped t.id s ∧ n = 1) hduring h
    (.inl ⟨hs, ht, hids, hdue, rfl⟩) ?_
  · rw [zero_add] at hrun
    rcases hrun with ⟨-, -, hmem, -⟩ | hrun
    · rw [hend] at hmem
      cases hmem
    · exact hrun
  · rintro s s' a n hspare (⟨hs, ht, hids, hdue, rfl⟩ | ⟨hs, rfl⟩) h
    · by_cases hfired : s.fired a = some t
      · exact .inr ⟨hs.stopped_of_fired hshot hfired h, by simp [fires, hfired]⟩
      · obtain ⟨ht', hzero⟩ := hs.mem_step ht hspare hfired h
        refine .inl ⟨hs.step h, ht', ?_⟩
        obtain ⟨now, -, hnil, -⟩ | ⟨hnow, heq | ⟨rfl, heq⟩⟩ := step_ids h
        · rw [hnil] at hids
          cases hids
        · exact ⟨heq ▸ hids, hnow ▸ hdue, (zero_add _).trans hzero⟩
        · refine ⟨?_, hnow ▸ hdue, (zero_add _).trans hzero⟩
          obtain ⟨id, ids, hcons⟩ := exists_cons_of_ne_nil (ne_nil_of_mem hids)
          rw [heq, hcons]
          refine (mem_cons.1 (hcons ▸ hids)).resolve_left fun hid => hfired ?_
          exact hs.fired_eq ht (by rw [hcons, hid]; rfl) hdue
    · exact .inr ⟨hs.step h, by rw [hs.fires_eq]⟩

theorem valid_of_reachable (h : machine.Reachable (start now) s) : Valid s :=
  Machine.Reachable.invariant h ⟨nodup_nil, forall_mem_nil _, forall_mem_nil _⟩ Valid.step

def TimerState.timeout (s : TimerState T) (now ms : T) : Timer T := ⟨s.seq + 1, now + ms, false, ms⟩

/-- A timeout that is neither cleared nor found due by a reset is fired once, by the first pump at
    its time, and a timer that is cleared is not fired any more. -/
theorem timers_fire_once (hs : machine.Reachable (start now₀) s₀) :
    (∀ now ms early s₁, machine.exec s₀ (.set false now ms :: early) = some s₁ →
      (∀ a ∈ early, Spares (s₀.timeout now ms) a ∧ ∀ now', a = .pump now' → now' < now + ms) →
      machine.total (fires (s₀.seq + 1)) s₀ (.set false now ms :: early) = 0 ∧
      ∀ now', now + ms ≤ now' → ∀ during s₂, machine.exec s₁ (.pump now' :: during) = some s₂ →
        s₂.ids = [] →
        (∀ a ∈ during, Spares (s₀.timeout now ms) a) →
        machine.total (fires (s₀.seq + 1)) s₁ (.pump now' :: during) = 1 ∧
        ∀ after s₃, machine.exec s₂ after = some s₃ →
          machine.total (fires (s₀.seq + 1)) s₂ after = 0) ∧
    ∀ i ≤ s₀.seq, ∀ after s₁, machine.exec s₀ (.clear i :: after) = some s₁ →
      machine.total (fires i) s₀ (.clear i :: after) = 0 := by
  have hvalid := valid_of_reachable hs
  refine ⟨fun now ms early s₁ h₁ hearly => ?_, fun i hi after s₁ h => ?_⟩
  · have harmed := hvalid.step (a := .set false now ms) rfl
    obtain ⟨⟨hvalid₁, ht⟩, hzero⟩ := harmed.total_waiting (t := s₀.timeout now ms)
      (mem_append_right _ mem_cons_self)
        (fun hi => absurd (hvalid.ids_le _ hi) (Nat.not_succ_le_self _)) hearly h₁
    refine ⟨(zero_add _).trans hzero, fun now' hdue during s₂ h₂ hend hduring => ?_⟩
    obtain ⟨s, hpump, h₂⟩ := bind_eq_some_iff.1 h₂
    have hvalid₂ := hvalid₁.step (a := .pump now') hpump
    rw [Machine.total, hpump, elim_some]
    obtain ⟨-, ⟨⟩⟩ := ite_none_right_eq_some.1 hpump
    obtain ⟨hstopped, hone⟩ := hvalid₂.total_pump ht rfl (mem_map_of_mem ht) hdue hduring h₂ hend
    exact ⟨(zero_add _).trans hone, fun after s₃ h => hstopped.total_eq h⟩
  · have hstopped : Stopped i { s₀ with timers := s₀.timers.filter fun t => t.id ≠ i } := by
      refine ⟨hi, fun hmem => ?_⟩
      obtain ⟨t, ht, hid⟩ := mem_map.1 hmem
      exact of_decide_eq_true (mem_filter.1 ht).2 hid
    exact (zero_add _).trans (hstopped.total_eq h)

theorem timers_fire_once_ten : ∃ s₁ s₂ :
    TimerState ℕ, machine.exec (start 0) [.set false 0 10, .pump 5, .visit] = some s₁ ∧
    machine.exec s₁ [.pump 12, .visit] = some s₂ ∧
      machine.total (fires 1) s₁ [.pump 12, .visit] = 1 := by
  refine ⟨_, _, rfl, rfl, ?_⟩
  have hearly : ∀ a ∈ [TimerOp.pump 5, .visit], Spares ((start 0).timeout 0 10) a ∧ ∀ now',
      a = .pump now' → now' < 0 + 10 := by
    simp [Spares]
  exact (((timers_fire_once .refl).1 0 10 _ _ rfl hearly).2 12 (by decide) [.visit] _ rfl rfl
    (forall_mem_singleton.2 trivial)).1

theorem timer_lost : ∃ s : TimerState ℕ,
    machine.exec (start 0) [.set false 0 10, .pump 9, .visit, .reset 10, .pump 20] = some s ∧
      s.ids = [] ∧
      machine.total (fires 1) (start 0) [.set false 0 10, .pump 9, .visit, .reset 10,
        .pump 20] = 0 :=
  ⟨_, rfl, rfl, rfl⟩

end Tropel.Timers
