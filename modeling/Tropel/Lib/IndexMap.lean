import Mathlib.Algebra.BigOperators.Group.List.Basic
import Mathlib.Data.List.Dedup
import Mathlib.Data.List.Induction
import Mathlib.Data.List.Perm.Subperm

/-!
# Maps in order of insertion

An `IndexMap` is a map that lists its entries in the order in which their keys were first inserted.
-/

namespace Lib

open List

structure IndexMap (κ σ : Type*) where
  entries : List (κ × σ)
  nodup : (entries.map Prod.fst).Nodup

namespace IndexMap

variable {κ σ τ ι α : Type*}

def empty : IndexMap κ σ := ⟨[], List.nodup_nil⟩

instance : EmptyCollection (IndexMap κ σ) := ⟨empty⟩

def length (m : IndexMap κ σ) : ℕ := m.entries.length

theorem nodup_entries (m : IndexMap κ σ) : m.entries.Nodup := m.nodup.of_map

variable [DecidableEq κ]

def find (k : κ) : List (κ × σ) → Option σ
  | [] => none
  | e :: l => if e.1 = k then some e.2 else find k l

def get (m : IndexMap κ σ) (k : κ) : Option σ := find k m.entries

def put (k : κ) (s : σ) : List (κ × σ) → List (κ × σ)
  | [] => [(k, s)]
  | e :: l => if e.1 = k then (e.1, s) :: l else e :: put k s l

variable {l : List (κ × σ)} {m : IndexMap κ σ} {k j : κ} {ks : List κ} {cap cap' : ℕ} {s : σ}
  {xs : List α} {M : Type*}

theorem fst_mem_put : j ∈ (put k s l).map Prod.fst ↔ j = k ∨ j ∈ l.map Prod.fst := by
  induction l with
  | nil => simp [put]
  | cons e l ih =>
    rw [put]
    split
    next he => simp [he]
    next => rw [map_cons, mem_cons, ih, map_cons, mem_cons, or_left_comm]

theorem nodup_put (h : (l.map Prod.fst).Nodup) : ((put k s l).map Prod.fst).Nodup := by
  induction l with
  | nil => simp [put]
  | cons e l ih =>
    rw [map_cons, nodup_cons] at h
    rw [put]
    split
    · rwa [map_cons, nodup_cons]
    next he =>
      rw [map_cons, nodup_cons, fst_mem_put]
      exact ⟨not_or.2 ⟨he, h.1⟩, ih h.2⟩

def insert (m : IndexMap κ σ) (k : κ) (s : σ) : IndexMap κ σ :=
  ⟨put k s m.entries, nodup_put m.nodup⟩

def upsert (m : IndexMap κ σ) (k : κ) (init : σ) (f : σ → σ) : IndexMap κ σ :=
  m.insert k (f ((m.get k).getD init))

@[simp]
theorem get_empty (k : κ) : (∅ : IndexMap κ σ).get k = none := rfl

theorem find_eq_none (h : k ∉ l.map Prod.fst) : find k l = none := by
  induction l with
  | nil => rfl
  | cons e l ih =>
    rw [map_cons, mem_cons, not_or] at h
    rw [find, if_neg (Ne.symm h.1), ih h.2]

theorem find_put (k j : κ) (s : σ) (l : List (κ × σ)) :
    find j (put k s l) = if j = k then some s else find j l := by
  induction l with
  | nil => simp [put, find, eq_comm]
  | cons e l ih =>
    rw [put]
    split
    next he =>
      rw [find, find]
      by_cases hj : j = k
      · rw [if_pos (he.trans hj.symm), if_pos hj]
      · rw [if_neg fun h => hj (h.symm.trans he), if_neg hj,
          if_neg fun h => hj (h.symm.trans he)]
    next he =>
      rw [find, find, ih]
      by_cases hj : j = k
      · rw [if_pos hj, if_neg fun h => he (h.trans hj), if_pos hj]
      · rw [if_neg hj, if_neg hj]

theorem get_insert (m : IndexMap κ σ) (k j : κ) (s : σ) :
    (m.insert k s).get j = if j = k then some s else m.get j := find_put k j s m.entries

theorem get_foldl_insert (m m' : IndexMap κ σ) (k : κ) :
    (m.entries.foldl (fun m' e => m'.insert e.1 e.2) m').get k = (m.get k).or (m'.get k) := by
  suffices hsuff : ∀ l : List (κ × σ), (l.map Prod.fst).Nodup → ∀ m' : IndexMap κ σ,
      (l.foldl (fun m' e => m'.insert e.1 e.2) m').get k = (find k l).or (m'.get k) from
    hsuff m.entries m.nodup m'
  intro l
  induction l with
  | nil => intro _ m'; rfl
  | cons e l ih =>
    intro hl m'
    rw [map_cons, nodup_cons] at hl
    rw [foldl_cons, ih hl.2, get_insert, find]
    by_cases he : e.1 = k
    · rw [if_pos he, if_pos he.symm, find_eq_none (he ▸ hl.1), Option.none_or, Option.some_or]
    · rw [if_neg he, if_neg (Ne.symm he)]

theorem get_upsert (m : IndexMap κ σ) (k j : κ) (init : σ) (f : σ → σ) :
    (m.upsert k init f).get j = if j = k then some (f ((m.get k).getD init)) else m.get j :=
  get_insert m k j _

theorem map_fst_put (k : κ) (s : σ) (l : List (κ × σ)) : (put k s l).map Prod.fst =
      if k ∈ l.map Prod.fst then l.map Prod.fst else l.map Prod.fst ++ [k] := by
  induction l with
  | nil => rfl
  | cons e l ih =>
    rw [put]
    split
    next he => simp [he]
    next he =>
      rw [map_cons, ih, map_cons]
      simp only [mem_cons, Ne.symm he, false_or]
      split <;> rfl

theorem keys_insert (m : IndexMap κ σ) (k : κ) (s : σ) : (m.insert k s).entries.map Prod.fst =
      if k ∈ m.entries.map Prod.fst then m.entries.map Prod.fst
      else m.entries.map Prod.fst ++ [k] := map_fst_put k s m.entries

/-! ## Entries and keys -/

theorem put_of_not_mem (h : k ∉ l.map Prod.fst) (s : σ) : put k s l = l ++ [(k, s)] := by
  induction l with
  | nil => rfl
  | cons e l ih =>
    rw [map_cons, mem_cons, not_or] at h
    rw [put, if_neg (Ne.symm h.1), ih h.2, cons_append]

theorem foldl_insert_eq (h : (l.map Prod.fst).Nodup) :
    l.foldl (fun m e => m.insert e.1 e.2) (∅ : IndexMap κ σ) = ⟨l, h⟩ := by
  suffices hentries : ∀ m : IndexMap κ σ, ((m.entries ++ l).map Prod.fst).Nodup →
      (l.foldl (fun m e => m.insert e.1 e.2) m).entries = m.entries ++ l by
    have hempty := hentries ∅ h
    generalize l.foldl (fun m e => m.insert e.1 e.2) (∅ : IndexMap κ σ) = m at hempty
    cases m
    cases hempty
    rfl
  clear h
  induction l with
  | nil => exact fun m _ => (append_nil _).symm
  | cons e l ih =>
    intro m hnodup
    have hnot : e.1 ∉ m.entries.map Prod.fst := by
      rw [map_append, nodup_append] at hnodup
      exact fun hmem => hnodup.2.2 _ hmem _ mem_cons_self rfl
    have hinsert : (m.insert e.1 e.2).entries = m.entries ++ [e] := put_of_not_mem hnot e.2
    rw [foldl_cons, ih, hinsert, append_assoc, singleton_append]
    rwa [hinsert, append_assoc, singleton_append]

theorem mem_of_find (h : find k l = some s) : (k, s) ∈ l := by
  induction l with
  | nil => cases h
  | cons e l ih =>
    rw [find] at h
    split at h
    next he => exact mem_cons.2 (.inl (Prod.ext he.symm (Option.some.inj h).symm))
    · exact mem_cons_of_mem _ (ih h)

theorem find_eq_some_iff (h : (l.map Prod.fst).Nodup) : find k l = some s ↔ (k, s) ∈ l := by
  refine ⟨mem_of_find, fun hmem => ?_⟩
  induction l with
  | nil => cases hmem
  | cons e l ih =>
    rw [map_cons, nodup_cons] at h
    rw [find]
    rcases mem_cons.1 hmem with rfl | hmem
    · exact if_pos rfl
    · rw [if_neg fun (he : e.1 = k) => h.1 (mem_map.2 ⟨_, hmem, he.symm⟩)]
      exact ih h.2 hmem

theorem get_eq_some_iff : m.get k = some s ↔ (k, s) ∈ m.entries := find_eq_some_iff m.nodup

theorem mem_keys_iff : k ∈ m.entries.map Prod.fst ↔ (m.get k).isSome := by
  rw [Option.isSome_iff_exists, mem_map]
  constructor
  · rintro ⟨e, he, rfl⟩
    exact ⟨e.2, get_eq_some_iff.2 he⟩
  · rintro ⟨s, hs⟩
    exact ⟨_, get_eq_some_iff.1 hs, rfl⟩

/-! ## Removal -/

variable (p : κ → σ → Bool)

def retain (m : IndexMap κ σ) : IndexMap κ σ :=
  ⟨m.entries.filter fun e => p e.1 e.2, m.nodup.sublist (List.filter_sublist.map _)⟩

def erase (m : IndexMap κ σ) (k : κ) : IndexMap κ σ := m.retain fun j _ => j ≠ k

theorem get_retain (m : IndexMap κ σ) (k : κ) : (m.retain p).get k = (m.get k).filter (p k) := by
  refine Option.ext fun s => ?_
  rw [get_eq_some_iff, retain, mem_filter, Option.filter_eq_some_iff, get_eq_some_iff]

theorem foldl_erase_eq (ks : List κ) (m : IndexMap κ σ) : ks.foldl erase m = m.retain fun k _ =>
    k ∉ ks := by
  induction ks generalizing m with
  | nil => simp [retain]
  | cons k ks ih =>
    rw [foldl_cons, ih, erase]
    simp only [retain, filter_filter, mk.injEq]
    refine filter_congr fun e _ => ?_
    rw [Bool.eq_iff_iff, Bool.and_eq_true, decide_eq_true_eq, decide_eq_true_eq, decide_eq_true_eq,
      mem_cons, not_or, and_comm]

omit [DecidableEq κ] in
theorem length_retain_le (m : IndexMap κ σ) : (m.retain p).length ≤ m.length :=
  length_filter_le _ _

theorem length_foldl_erase (hks : ks.Nodup) (h : ∀ k ∈ ks, (m.get k).isSome) :
    (ks.foldl erase m).length + ks.length = m.length := by
  have hperm : ((m.entries.map Prod.fst).filter (· ∈ ks)).Perm ks := by
    refine (perm_ext_iff_of_nodup (m.nodup.filter _) hks).2 fun k => ?_
    rw [mem_filter, decide_eq_true_eq, mem_keys_iff]
    exact ⟨And.right, fun hk => ⟨h k hk, hk⟩⟩
  have hlen := length_eq_length_filter_add (l := m.entries) fun e => decide (e.1 ∈ ks)
  have hmap : ((m.entries.map Prod.fst).filter (· ∈ ks)).length =
      (m.entries.filter fun e => decide (e.1 ∈ ks)).length := by
    rw [filter_map, length_map]
    rfl
  rw [foldl_erase_eq, retain, length, length, hlen, ← hperm.length_eq, hmap, Nat.add_comm]
  simp

theorem length_insert (m : IndexMap κ σ) (k : κ) (s : σ) :
    (m.insert k s).length = if (m.get k).isSome then m.length else m.length + 1 := by
  have hkeys := congrArg List.length (keys_insert m k s)
  rw [length_map] at hkeys
  simp only [mem_keys_iff] at hkeys
  rw [length, hkeys, length]
  split <;> simp

theorem map_entries_eq (m : IndexMap κ σ) (g : κ → σ → τ) : m.entries.map (fun e => g e.1 e.2) =
      (m.entries.map Prod.fst).filterMap fun k => (m.get k).map (g k) := by
  rw [filterMap_map, ← filterMap_eq_map]
  refine filterMap_congr fun e he => ?_
  change some (g e.1 e.2) = (m.get e.1).map (g e.1)
  rw [get_eq_some_iff.2 he, Option.map_some]

theorem map_entries_perm {m' : IndexMap κ τ} {g : κ → σ → α} {g' : κ → τ → α}
    (h : ∀ k, (m.get k).map (g k) = (m'.get k).map (g' k)) :
    (m.entries.map fun e => g e.1 e.2).Perm (m'.entries.map fun e => g' e.1 e.2) := by
  rw [map_entries_eq, map_entries_eq]
  have hkeys : (m.entries.map Prod.fst).Perm (m'.entries.map Prod.fst) := by
    refine (perm_ext_iff_of_nodup m.nodup m'.nodup).2 fun k => ?_
    rw [mem_keys_iff, mem_keys_iff, ← Option.isSome_map (f := g k), h, Option.isSome_map]
  rw [filterMap_congr fun k _ => h k]
  exact hkeys.filterMap _

theorem length_lt_of_get_eq_none {l : List κ}
    (hl : ∀ j, (m.get j).isSome → j ∈ l) (hk : k ∈ l) (hnone : m.get k = none) :
    m.length < l.dedup.length := by
  have hnodup : (k :: m.entries.map Prod.fst).Nodup := by
    refine nodup_cons.2 ⟨fun hmem => ?_, m.nodup⟩
    rw [mem_keys_iff, hnone] at hmem
    cases hmem
  have hsub : k :: m.entries.map Prod.fst ⊆ l.dedup := by
    intro j hj
    rw [mem_dedup]
    rcases mem_cons.1 hj with rfl | hj
    · exact hk
    · exact hl j (mem_keys_iff.1 hj)
  have := (hnodup.subperm hsub).length_le
  rwa [length_cons, length_map] at this

theorem sum_filter_entries [AddMonoid M] (m : IndexMap κ σ) (f : κ → σ → M) (k : κ) :
    ((m.entries.filter fun e => e.1 = k).map fun e => f e.1 e.2).sum = (m.get k).elim 0 (f k) := by
  obtain ⟨l, hl⟩ := m
  rw [get]
  induction l with
  | nil => rfl
  | cons e l ih =>
    rw [map_cons, nodup_cons] at hl
    rw [find, filter_cons]
    split_ifs with h₁ h₂ h₂
    · have hnil : l.filter (fun e => decide (e.1 = k)) = [] := by
        refine filter_eq_nil_iff.2 fun d hd => ?_
        rintro hdk
        exact hl.1 (mem_map.2 ⟨d, hd, (of_decide_eq_true hdk).trans h₂.symm⟩)
      rw [hnil, map_singleton, sum_singleton, Option.elim_some, h₂]
    · exact absurd (of_decide_eq_true h₁) h₂
    · exact absurd (decide_eq_true h₂) h₁
    · exact ih hl.2

theorem flatMap_entries_perm [DecidableEq ι] {part : ι → IndexMap κ σ}
    {owner : κ → ι} {l : List ι} (hl : l.Nodup) (howner : ∀ k, owner k ∈ l)
    (h : ∀ i k, (part i).get k = if owner k = i then m.get k else none) :
    (l.flatMap fun i => (part i).entries).Perm m.entries := by
  have hmem (i : ι) (e : κ × σ) : e ∈ (part i).entries ↔ owner e.1 = i ∧ e ∈ m.entries := by
    rw [← get_eq_some_iff (k := e.1) (s := e.2), ← get_eq_some_iff (k := e.1) (s := e.2), h,
      Option.ite_none_right_eq_some]
  refine (perm_ext_iff_of_nodup ?_ m.nodup_entries).2 fun e => ?_
  · refine nodup_flatMap.2 ⟨fun i _ => (part i).nodup_entries, ?_⟩
    refine hl.imp fun hne e he he' => hne ?_
    rw [← ((hmem _ e).1 he).1, ← ((hmem _ e).1 he').1]
  · simp only [mem_flatMap, hmem]
    exact ⟨fun ⟨_, _, _, he⟩ => he, fun he => ⟨owner e.1, howner _, rfl, he⟩⟩

theorem getD_foldl_upsert [AddMonoid M] (es : List (κ × M)) (m : IndexMap κ M) (k : κ) :
    ((es.foldl (fun m e => m.upsert e.1 0 (· + e.2)) m).get k).getD 0 =
      (m.get k).getD 0 + ((es.filter fun e => e.1 = k).map Prod.snd).sum := by
  induction es generalizing m with
  | nil => exact (add_zero _).symm
  | cons e es ih =>
    rw [foldl_cons, ih, get_upsert, filter_cons]
    by_cases hk : k = e.1
    · simp [hk, add_assoc]
    · simp [hk, Ne.symm hk]

/-! ## Grouping -/

def accumulate (init : α → σ) (step : α → σ → σ) (o : Option σ) (x : α) : Option σ :=
  some (step x (o.getD (init x)))

def collect (key : α → Option κ) (init : α → σ) (step : α → σ → σ) (m : IndexMap κ σ)
    (x : α) : IndexMap κ σ :=
  match key x with
  | some k => m.upsert k (init x) (step x)
  | none => m

def collectAll (key : α → Option κ) (init : α → σ) (step : α → σ → σ)
    (xs : List α) : IndexMap κ σ :=
  xs.foldl (collect key init step) ∅

variable {key : α → Option κ} {init : α → σ} {step : α → σ → σ}

theorem get_collect (m : IndexMap κ σ) (x : α) (k : κ) : (collect key init step m x).get k =
      if key x = some k then accumulate init step (m.get k) x else m.get k := by
  rw [collect]
  cases hx : key x with
  | none => rw [if_neg (Option.some_ne_none k).symm]
  | some j =>
    simp only [Option.some.injEq, get_upsert]
    by_cases hj : k = j
    · rw [if_pos hj, if_pos hj.symm, accumulate, hj]
    · rw [if_neg hj, if_neg (Ne.symm hj)]

theorem get_collectAll (xs : List α) (k : κ) : (collectAll key init step xs).get k =
      (xs.filter fun x => key x = some k).foldl (accumulate init step) none := by
  rw [collectAll, ← get_empty (σ := σ) k]
  generalize (∅ : IndexMap κ σ) = m
  induction xs generalizing m with
  | nil => rfl
  | cons x xs ih =>
    rw [foldl_cons, ih, get_collect, filter_cons]
    simp only [decide_eq_true_eq]
    split
    · rw [foldl_cons]
    · rfl

theorem collectAll_append_singleton (xs : List α) (x : α) :
    collectAll key init step (xs ++ [x]) = collect key init step (collectAll key init step xs) x :=
  foldl_append

theorem isSome_get_collectAll : ((collectAll key init step xs).get k).isSome ↔
    k ∈ xs.filterMap key := by
  induction xs using List.reverseRecOn with
  | nil => simp [collectAll]
  | append_singleton xs x ih =>
    rw [collectAll_append_singleton, get_collect, filterMap_append, mem_append, ← ih]
    by_cases hx : key x = some k
    · simp [hx, accumulate]
    · simp [hx]

theorem forall_collectAll {P : κ → σ → Prop}
    (h : ∀ x ∈ xs, ∀ k, key x = some k → P k (init x) ∧ ∀ s, P k s → P k (step x s)) :
    ∀ k s, (collectAll key init step xs).get k = some s → P k s := by
  induction xs using List.reverseRecOn with
  | nil => nofun
  | append_singleton xs x ih =>
    intro k s hs
    rw [collectAll_append_singleton, get_collect] at hs
    have ih := ih (fun y hy => h y (mem_append_left _ hy)) k
    split at hs
    next hk =>
      obtain ⟨hinit, hstep⟩ := h x (by simp) k hk
      rw [← Option.some.inj hs]
      refine hstep _ ?_
      cases hget : (collectAll key init step xs).get k with
      | none => exact hinit
      | some s' => exact ih s' hget
    next => exact ih s hs

theorem length_collectAll (xs : List α) :
    (collectAll key init step xs).length = (xs.filterMap key).dedup.length := by
  rw [length, ← length_map Prod.fst]
  refine List.Perm.length_eq ((perm_ext_iff_of_nodup (nodup _) (nodup_dedup _)).2 ?_)
  intro k
  rw [mem_keys_iff, isSome_get_collectAll, mem_dedup]

theorem get_collectAll_filter {p : α → Bool} {b : Bool} (h : ∀ x, key x = some k → p x = b)
    (xs : List α) :
    (collectAll key init step (xs.filter p)).get k =
      if b then (collectAll key init step xs).get k else none := by
  rw [get_collectAll, get_collectAll, filter_filter]
  cases b with
  | true =>
    rw [if_pos rfl]
    congr 1
    refine filter_congr fun x _ => ?_
    by_cases hx : key x = some k
    · rw [h x hx, Bool.and_true]
    · rw [decide_eq_false hx, Bool.false_and]
  | false =>
    rw [if_neg Bool.false_ne_true, filter_eq_nil_iff.2, foldl_nil]
    intro x _
    by_cases hx : key x = some k
    · rw [h x hx, Bool.and_false]
      exact Bool.false_ne_true
    · rw [decide_eq_false hx, Bool.false_and]
      exact Bool.false_ne_true

/-! ## Room for a number of keys -/

def keep (cap : ℕ) (ks : List κ) (k : κ) : List κ :=
  if k ∈ ks ∨ cap ≤ ks.length then ks else ks ++ [k]

def kept (cap : ℕ) (l : List κ) : List κ := l.foldl (keep cap) []

theorem kept_append_singleton (cap : ℕ) (l : List κ) (k : κ) :
    kept cap (l ++ [k]) = keep cap (kept cap l) k := foldl_append

theorem mem_keep_of_mem (h : j ∈ ks) : j ∈ keep cap ks k := by
  rw [keep]
  split
  · exact h
  · exact mem_append_left _ h

theorem mem_kept_of_length_lt {l : List κ} (hlt : (kept cap l).length < cap) :
    ∀ k ∈ l, k ∈ kept cap l := by
  induction l using List.reverseRecOn with
  | nil => exact nofun
  | append_singleton l x ih =>
    rw [kept_append_singleton] at hlt ⊢
    have hprev : (kept cap l).length < cap := by
      rw [keep] at hlt
      split at hlt
      · exact hlt
      · rw [length_append] at hlt
        exact Nat.lt_of_succ_lt hlt
    intro k hk
    rcases mem_append.1 hk with hk | hk
    · exact mem_keep_of_mem (ih hprev k hk)
    · rw [mem_singleton.1 hk, keep]
      split
      next h => exact h.resolve_right (Nat.not_le.2 hprev)
      next => exact mem_append_right _ mem_cons_self

theorem mem_of_mem_kept {l : List κ} (h : k ∈ kept cap l) : k ∈ l := by
  induction l using List.reverseRecOn with
  | nil => cases h
  | append_singleton l x ih =>
    rw [kept_append_singleton, keep] at h
    split at h
    · exact mem_append_left _ (ih h)
    · exact (mem_append.1 h).elim (fun h => mem_append_left _ (ih h)) (mem_append_right _)

theorem nodup_kept (cap : ℕ) (l : List κ) : (kept cap l).Nodup := by
  induction l using List.reverseRecOn with
  | nil => exact nodup_nil
  | append_singleton l x ih =>
    rw [kept_append_singleton, keep]
    split
    · exact ih
    next h =>
      rw [← concat_eq_append]
      exact ih.concat (not_or.1 h).1

theorem mem_kept_of_length_dedup_le {l : List κ} (h : l.dedup.length ≤ cap) (hk : k ∈ l) :
    k ∈ kept cap l := by
  by_contra hnot
  have hfull : cap ≤ (kept cap l).length := Nat.le_of_not_lt fun hlt =>
    hnot (mem_kept_of_length_lt hlt k hk)
  have hsub : k :: kept cap l ⊆ l.dedup := by
    intro j hj
    rw [mem_dedup]
    rcases mem_cons.1 hj with rfl | hj
    · exact hk
    · exact mem_of_mem_kept hj
  have hle := ((nodup_cons.2 ⟨hnot, nodup_kept cap l⟩).subperm hsub).length_le
  rw [length_cons] at hle
  omega

theorem length_kept_le (cap : ℕ) (l : List κ) : (kept cap l).length ≤ cap := by
  induction l using List.reverseRecOn with
  | nil => exact Nat.zero_le cap
  | append_singleton l x ih =>
    rw [kept_append_singleton, keep]
    split
    · exact ih
    next h =>
      rw [length_append]
      exact Nat.not_le.1 (not_or.1 h).2

theorem keep_take (h : cap ≤ cap') (ks : List κ) (k : κ) :
    keep cap (ks.take cap) k = (keep cap' ks k).take cap := by
  have hlen : (ks.take cap).length = min cap ks.length := length_take
  rw [keep, keep]
  by_cases hk : k ∈ ks
  · have hin : k ∈ ks ∨ cap' ≤ ks.length := .inl hk
    rw [if_pos hin]
    split
    · rfl
    next hnew =>
      -- Below the smaller cap, all of the keys are taken.
      rw [not_or, hlen] at hnew
      have hle : ks.length ≤ cap := by omega
      rw [take_of_length_le hle] at hnew
      exact absurd hk hnew.1
  · have hk' : k ∉ ks.take cap := fun hmem => hk (mem_of_mem_take hmem)
    by_cases hfull : cap ≤ ks.length
    · rw [if_pos (.inr (by omega))]
      split
      · rfl
      · rw [take_append_of_le_length hfull]
    · rw [if_neg (not_or.2 ⟨hk', by omega⟩), if_neg (not_or.2 ⟨hk, by omega⟩),
        take_of_length_le (Nat.le_of_not_le hfull), take_of_length_le]
      rw [length_append, length_singleton]
      omega

theorem kept_eq_take (h : cap ≤ cap') (l : List κ) : kept cap l = (kept cap' l).take cap := by
  induction l using List.reverseRecOn with
  | nil => exact take_nil.symm
  | append_singleton l x ih => rw [kept_append_singleton, kept_append_singleton, ih, keep_take h]

end IndexMap

end Lib
