import Tropel.Lib.Forest
import Tropel.Metrics.Series

/-!
# The group tree of a summary

The summary of a run shows its groups as a tree.

* `buildRootGroup`: the tree of the paths of a summary;
* `buildRootGroup_faithful_iff`: when it has every group in its place.
-/

namespace Tropel.Summary

open Lib List

variable {hdr : Hdr}

/-! ## Paths -/

def rsplitPath : Text → Option (Text × Text)
  | [] => none
  | c :: t =>
    match rsplitPath t with
    | some (a, b) => some (c :: a, b)
    | none => if c = ':' ∧ t.head? = some ':' then some ([], t.tail) else none

def parentOf (path : String) : String :=
  match rsplitPath path.toList with
  | some (a, _) => String.ofList a
  | none => ""

def leafOf (path : String) : String :=
  match rsplitPath path.toList with
  | some (_, b) => String.ofList b
  | none => path

theorem eq_of_rsplitPath {t a b : Text} (h : rsplitPath t = some (a, b)) :
    t = a ++ ':' :: ':' :: b := by
  induction t generalizing a with
  | nil => cases h
  | cons c t ih =>
    rw [rsplitPath] at h
    split at h
    next a' b' hsplit =>
      cases h
      rw [ih hsplit, cons_append]
    next =>
      obtain ⟨⟨rfl, hhead⟩, hab⟩ := Option.ite_none_right_eq_some.1 h
      cases hab
      rw [nil_append, cons_head?_tail hhead]

theorem parentOf_lt {path : String} (h : path ≠ "") : parentOf path < path := by
  rw [String.lt_iff_toList_lt, parentOf]
  split
  next a b hsplit =>
    have hlt : a ++ [] < a ++ ':' :: ':' :: b := append_left_lt (nil_lt_cons _ _)
    rwa [append_nil, ← eq_of_rsplitPath hsplit, ← String.toList_ofList (l := a)] at hlt
  next =>
    obtain ⟨c, t, hpath⟩ := exists_cons_of_ne_nil (mt String.toList_eq_nil_iff.1 h)
    rw [hpath]
    exact nil_lt_cons c t

structure GroupCheck where
  name : String
  passes : ℕ
  fails : ℕ
  deriving DecidableEq

structure GroupNode where
  name : String
  path : String
  id : String
  groups : List GroupNode
  checks : List GroupCheck

variable (results : MetricsResult hdr)

def groupChecks (group : String) : ℕ × ℕ :=
  let summaries := results.perGroup.filter fun m =>
    "checks" <+: m.key.toList ∧ m.tags.any fun t => t.1 = "group" ∧ t.2 = group
  let count := (summaries.map fun m => (m.count : ℚ)).sum
  let rate := (summaries.map fun m => m.rate * (m.count : ℚ)).sum
  (asU64 (roundNonneg rate), asU64 (roundNonneg (count - rate)))

def checksOf (passes fails : ℕ) : List GroupCheck :=
  if passes > 0 ∨ fails > 0 then [⟨"all", passes, fails⟩] else []

/-! ## Tree -/

def groupOf (m : MetricSummary hdr) : Option String :=
  (m.tags.find? fun t => t.1 = "group").map Prod.snd

def addPath (paths : List String) (m : MetricSummary hdr) : List String :=
  match groupOf m with
  | some group => if group ∈ paths then paths else paths ++ [group]
  | none => paths

def groupPaths : List String := results.perGroup.foldl addPath [""]

def depth (path : String) : ℕ := (splitTwice ':' path.toList).length - 1

def shallowLe (p q : String) : Prop := depth p < depth q ∨ (depth p = depth q ∧ p ≤ q)

instance : DecidableRel shallowLe := fun _ _ => inferInstanceAs (Decidable (_ ∨ _))

def leafNode (path : String) : GroupNode where
  name := leafOf path
  path
  id := leafOf path
  groups := []
  checks := checksOf (groupChecks results path).1 (groupChecks results path).2

abbrev GroupMap := Std.ExtTreeMap String GroupNode

def addNode (tree : GroupMap) (path : String) : GroupMap :=
  if path = "" then tree else tree.insert path (leafNode results path)

def nodes : GroupMap :=
  ((groupPaths results).insertionSort shallowLe).foldl (addNode results) ∅

def GroupNode.push (parent node : GroupNode) : GroupNode :=
  { parent with groups := parent.groups ++ [node] }

def attach (s : GroupMap × Bool) (path : String) : GroupMap × Bool :=
  if path = "" then s
  else
    match s.1[path]? with
    | none => s
    | some node =>
      let rest := s.1.erase path
      if parentOf path ∈ rest then (rest.modify (parentOf path) (·.push node), true)
      else (rest.insert path node, s.2)

def pass (tree : GroupMap) : GroupMap × Bool := tree.keys.foldl attach (tree, false)

def settle : ℕ → GroupMap → GroupMap
  | 0, tree => tree
  | n + 1, tree => if (pass tree).2 then settle n (pass tree).1 else (pass tree).1

def buildRootGroup : GroupNode where
  name := ""
  path := ""
  id := ""
  groups := ((settle (nodes results).size (nodes results)).toList.map Prod.snd).insertionSort
    fun a b => a.path ≤ b.path
  checks := checksOf ((groupChecks results "").1 + (groupChecks results "http").1)
    ((groupChecks results "").2 + (groupChecks results "http").2)

/-! ## Passes -/

variable {tree : GroupMap}

theorem attach_eq_self {flag : Bool} {p : String} (h : parentOf p ∉ tree) :
    attach (tree, flag) p = (tree, flag) := by
  unfold attach
  split
  · rfl
  split
  · rfl
  next node hnode =>
    have hrest : parentOf p ∉ tree.erase p := fun hmem => h (Std.ExtTreeMap.mem_of_mem_erase hmem)
    -- The node is put back.
    have hinsert : (tree.erase p).insert p node = tree := by
      refine Std.ExtTreeMap.ext_getElem? fun x => ?_
      rw [Std.ExtTreeMap.getElem?_insert, Std.ExtTreeMap.getElem?_erase]
      by_cases hx : compare p x = .eq
      · rw [if_pos hx, ← Std.compare_eq_iff_eq.1 hx, hnode]
      · rw [if_neg hx, if_neg hx]
    simp only [if_neg hrest, hinsert]

theorem pass_eq_self (h : ∀ p ∈ tree.keys, parentOf p ∉ tree) : pass tree = (tree, false) := by
  suffices hfold : ∀ ks : List String, (∀ p ∈ ks, parentOf p ∉ tree) →
      ks.foldl attach (tree, false) = (tree, false) from
    hfold tree.keys h
  intro ks
  induction ks with
  | nil => exact fun _ => rfl
  | cons p ks ih =>
    intro hks
    obtain ⟨hp, hks⟩ := forall_mem_cons.1 hks
    rw [foldl_cons, attach_eq_self hp, ih hks]

theorem settle_of_pass_eq_self (h : pass tree = (tree, false)) (n : ℕ) : settle n tree = tree := by
  cases n with
  | zero => rfl
  | succ n => simp [settle, h]

theorem settle_eq_pass (h : pass (pass tree).1 = ((pass tree).1, false)) :
    settle tree.size tree = (pass tree).1 := by
  rcases hn : tree.size with _ | n
  · have hkeys : tree.keys = [] := length_eq_zero_iff.1 (Std.ExtTreeMap.length_keys.trans hn)
    rw [pass, hkeys]
    rfl
  · rw [settle]
    split
    · exact settle_of_pass_eq_self h n
    · rfl

section

variable {results : MetricsResult hdr} {paths moved : List String} {tree : GroupMap} {flag : Bool}
  {p : String}

def childrenOf (moved : List String) (path : String) : List String :=
  moved.filter fun c => parentOf c = path

theorem mem_childrenOf {c : String} : c ∈ childrenOf moved p ↔ c ∈ moved ∧ parentOf c = p := by
  rw [childrenOf, mem_filter, decide_eq_true_eq]

theorem childrenOf_append_self :
    childrenOf (moved ++ [p]) (parentOf p) = childrenOf moved (parentOf p) ++ [p] := by
  rw [childrenOf, filter_append, filter_cons_of_pos (by simp), filter_nil, childrenOf]

theorem childrenOf_append_of_ne {x : String} (h : parentOf p ≠ x) :
    childrenOf (moved ++ [p]) x = childrenOf moved x := by
  rw [childrenOf, filter_append, filter_cons_of_neg (by simpa using h), filter_nil, append_nil,
    childrenOf]

def nodeWith (results : MetricsResult hdr) (moved : List String) (path : String) : GroupNode :=
  { leafNode results path with groups := (childrenOf moved path).map (leafNode results) }

def Represents (results : MetricsResult hdr) (paths moved : List String) (tree : GroupMap) : Prop :=
  ∀ x : String, tree[x]? = if x ∈ paths ∧ x ∉ moved then some (nodeWith results moved x) else none

theorem Represents.mem_iff (h : Represents results paths moved tree) :
    p ∈ tree ↔ p ∈ paths ∧ p ∉ moved := by
  rw [Std.ExtTreeMap.mem_iff_isSome_getElem?, h]
  split
  next hp => exact iff_of_true rfl hp
  next hp => exact iff_of_false Bool.false_ne_true hp

theorem Represents.attach (h : Represents results paths moved tree) (hroot : p ≠ "")
    (hp : p ∈ paths) (hmoved : p ∉ moved) (hchildren : childrenOf moved p = [])
    (hparent : parentOf p ∈ tree) :
    Represents results paths (moved ++ [p]) (attach (tree, flag) p).1 := by
  have hne : parentOf p ≠ p := ne_of_lt (parentOf_lt hroot)
  have hnode : tree[p]? = some (leafNode results p) := by
    rw [h, if_pos ⟨hp, hmoved⟩, nodeWith, hchildren]
    rfl
  have hrest : parentOf p ∈ tree.erase p :=
    Std.ExtTreeMap.mem_erase.2 ⟨mt Std.compare_eq_iff_eq.1 hne.symm, hparent⟩
  have hattach : (Summary.attach (tree, flag) p).1 =
      (tree.erase p).modify (parentOf p) (·.push (leafNode results p)) := by
    simp only [Summary.attach, if_neg hroot, hnode, if_pos hrest]
  intro x
  rw [hattach, Std.ExtTreeMap.getElem?_modify, Std.ExtTreeMap.getElem?_erase,
    Std.ExtTreeMap.getElem?_erase]
  simp only [Std.compare_eq_iff_eq]
  by_cases hx : parentOf p = x
  · subst hx
    obtain ⟨hpaths, hnotMem⟩ := h.mem_iff.1 hparent
    have hnotMem' : parentOf p ∉ moved ++ [p] := not_mem_append hnotMem (mt mem_singleton.1 hne)
    rw [if_pos rfl, if_neg hne.symm, h, if_pos ⟨hpaths, hnotMem⟩, if_pos ⟨hpaths, hnotMem'⟩,
      Option.map_some, nodeWith, nodeWith, childrenOf_append_self, map_append]
    rfl
  · rw [if_neg hx]
    by_cases hpx : p = x
    · rw [if_pos hpx, if_neg fun hmem => hmem.2 (hpx ▸ mem_append_right _ mem_cons_self)]
    · have hmem : x ∉ moved ++ [p] ↔ x ∉ moved := by
        rw [mem_append, mem_singleton, or_iff_left (Ne.symm hpx)]
      rw [if_neg hpx, h, nodeWith, nodeWith, childrenOf_append_of_ne hx]
      simp only [hmem]

theorem Represents.foldl_attach {ks : List String} (h : Represents results paths moved tree)
    (hroot : "" ∉ paths) (hks : ∀ p ∈ ks, p ∈ paths) (hsorted : ks.Pairwise (· < ·))
    (hlt : ∀ c ∈ moved, ∀ p ∈ ks, c < p) :
    Represents results paths (movedFrom parentOf paths moved ks)
      (ks.foldl Summary.attach (tree, flag)).1 := by
  induction ks generalizing moved tree flag with
  | nil => exact h
  | cons p ks ih =>
    obtain ⟨hp, hks⟩ := forall_mem_cons.1 hks
    obtain ⟨hbefore, hsorted⟩ := pairwise_cons.1 hsorted
    have hne : p ≠ "" := fun hp' => hroot (hp' ▸ hp)
    have hmoved : p ∉ moved := fun hmem => lt_irrefl p (hlt p hmem p mem_cons_self)
    have hlt' : ∀ c ∈ moved, ∀ q ∈ ks, c < q := fun c hc q hq => hlt c hc q (mem_cons_of_mem _ hq)
    rw [movedFrom, foldl_cons]
    split
    next hmove =>
      -- The children of a path have their turn later.
      have hchildren : childrenOf moved p = [] := by
        refine filter_eq_nil_iff.2 fun c hc hparent => ?_
        rw [decide_eq_true_eq] at hparent
        have hc' : c ≠ "" := by
          rintro rfl
          exact hne hparent.symm
        exact lt_asymm (hlt c hc p mem_cons_self) (hparent ▸ parentOf_lt hc')
      refine ih (h.attach hne hp hmoved hchildren (h.mem_iff.2 hmove)) hks hsorted ?_
      intro c hc q hq
      rcases mem_append.1 hc with hc | hc
      · exact hlt' c hc q hq
      · exact mem_singleton.1 hc ▸ hbefore q hq
    next hmove =>
      rw [attach_eq_self (mt h.mem_iff.1 hmove)]
      exact ih h hks hsorted hlt'

end

/-! ## Groups of a summary -/

section

variable {results : MetricsResult hdr} {p : String}

def Occurs (results : MetricsResult hdr) (p : String) : Prop :=
  p ≠ "" ∧ ∃ m ∈ results.perGroup, groupOf m = some p

theorem mem_addPath {paths : List String} {m : MetricSummary hdr} :
    p ∈ addPath paths m ↔ p ∈ paths ∨ groupOf m = some p := by
  rw [addPath]
  split
  next group hgroup =>
    rw [hgroup, Option.some.injEq]
    split
    next hmem =>
      refine (or_iff_left_of_imp ?_).symm
      rintro rfl
      exact hmem
    next => rw [mem_append, mem_singleton, eq_comm]
  next hgroup => simp [hgroup]

theorem mem_groupPaths : p ∈ groupPaths results ↔ p = "" ∨ ∃ m ∈ results.perGroup,
    groupOf m = some p := by
  suffices hfold : ∀ (ms : List (MetricSummary hdr)) (paths : List String),
      p ∈ ms.foldl addPath paths ↔ p ∈ paths ∨ ∃ m ∈ ms, groupOf m = some p by
    rw [groupPaths, hfold, mem_singleton]
  intro ms
  induction ms with
  | nil => simp
  | cons m ms ih =>
    intro paths
    rw [foldl_cons, ih, mem_addPath, or_assoc, exists_mem_cons_iff]

theorem getElem?_nodes (x : String) :
    (nodes results)[x]? = if x ≠ "" ∧ x ∈ groupPaths results then some (leafNode results x)
      else none := by
  suffices hfold : ∀ (paths : List String) (tree : GroupMap),
      (paths.foldl (addNode results) tree)[x]? =
        if x ≠ "" ∧ x ∈ paths then some (leafNode results x) else tree[x]? by
    rw [nodes, hfold, Std.ExtTreeMap.getElem?_empty]
    simp only [mem_insertionSort]
  intro paths
  induction paths with
  | nil => simp
  | cons path paths ih =>
    intro tree
    rw [foldl_cons, ih, addNode]
    by_cases hroot : path = ""
    · rw [if_pos hroot]
      by_cases hx : x = ""
      · simp [hx]
      · simp [hroot, hx]
    · rw [if_neg hroot, Std.ExtTreeMap.getElem?_insert]
      by_cases hx : path = x
      · subst hx
        simp [hroot]
      · rw [if_neg (mt Std.compare_eq_iff_eq.1 hx)]
        simp [Ne.symm hx]

theorem mem_keys_nodes : p ∈ (nodes results).keys ↔ Occurs results p := by
  rw [Std.ExtTreeMap.mem_keys, Std.ExtTreeMap.mem_iff_isSome_getElem?, getElem?_nodes, Occurs]
  split
  next hp => exact iff_of_true rfl ⟨hp.1, (mem_groupPaths.1 hp.2).resolve_left hp.1⟩
  next hp => exact iff_of_false Bool.false_ne_true fun h => hp ⟨h.1, mem_groupPaths.2 (.inr h.2)⟩

theorem sorted_keys (tree : GroupMap) : tree.keys.Pairwise (· < ·) :=
  Std.ExtTreeMap.ordered_keys.imp fun h => compare_lt_iff_lt.1 h

theorem parentOf_lt_of_mem_keys (hp : p ∈ (nodes results).keys) : parentOf p < p :=
  parentOf_lt (mem_keys_nodes.1 hp).1

theorem represents_nodes : Represents results (nodes results).keys [] (nodes results) := by
  intro x
  have hmem : x ∈ (nodes results).keys ↔ (nodes results)[x]?.isSome := by
    rw [Std.ExtTreeMap.mem_keys, Std.ExtTreeMap.mem_iff_isSome_getElem?]
  simp only [hmem, not_mem_nil, not_false_eq_true, and_true]
  rw [getElem?_nodes]
  split
  · rfl
  · rfl

def movedPaths (results : MetricsResult hdr) : List String := moved parentOf (nodes results).keys

theorem represents_settle : Represents results (nodes results).keys (movedPaths results)
    (settle (nodes results).size (nodes results)) := by
  have hpass :
      Represents results (nodes results).keys (movedPaths results) (pass (nodes results)).1 :=
    represents_nodes.foldl_attach (fun h => (mem_keys_nodes.1 h).1 rfl) (fun _ h => h)
      (sorted_keys _)
      (forall_mem_nil _)
  rw [settle_eq_pass]
  · exact hpass
  -- A path that is left has its parent moved, if it has one.
  refine pass_eq_self fun p hp hparent => ?_
  obtain ⟨hp, hnot⟩ := hpass.mem_iff.1 (Std.ExtTreeMap.mem_keys.1 hp)
  have hparent := hpass.mem_iff.1 hparent
  exact hnot ((mem_moved_iff (sorted_keys _) fun _ => parentOf_lt_of_mem_keys).2 ⟨hp, hparent⟩)

end

/-! ## Faithfulness -/

mutual

def GroupNode.subtree : GroupNode → List GroupNode
  | ⟨name, path, id, groups, checks⟩ => ⟨name, path, id, groups, checks⟩ :: subtrees groups

def subtrees : List GroupNode → List GroupNode
  | [] => []
  | n :: ns => n.subtree ++ subtrees ns

end

theorem subtrees_eq (ns : List GroupNode) : subtrees ns = ns.flatMap GroupNode.subtree := by
  induction ns with
  | nil => rw [subtrees, flatMap_nil]
  | cons n ns ih => rw [subtrees, ih, flatMap_cons]

theorem subtree_eq (n : GroupNode) : n.subtree = n :: n.groups.flatMap GroupNode.subtree := by
  rw [← subtrees_eq]
  obtain ⟨name, path, id, groups, checks⟩ := n
  rw [GroupNode.subtree]

/-- The tree has every path of the summary exactly once, below its parent if the parent is a
    path of the summary, and below the root otherwise. -/
structure Faithful (results : MetricsResult hdr) (root : GroupNode) : Prop where
  nodup : ((subtrees root.groups).map GroupNode.path).Nodup
  mem_iff : ∀ p, p ∈ (subtrees root.groups).map GroupNode.path ↔ Occurs results p
  child : ∀ p, Occurs results p → Occurs results (parentOf p) →
    ∃ n ∈ subtrees root.groups, n.path = parentOf p ∧ p ∈ n.groups.map GroupNode.path
  top : ∀ p, Occurs results p → ¬ Occurs results (parentOf p) → p ∈ root.groups.map GroupNode.path

section

variable {results : MetricsResult hdr} {p : String}

def topPaths (results : MetricsResult hdr) : List String :=
  (settle (nodes results).size (nodes results)).keys

theorem mem_topPaths : p ∈ topPaths results ↔ Occurs results p ∧ p ∉ movedPaths results := by
  rw [topPaths, Std.ExtTreeMap.mem_keys, represents_settle.mem_iff, mem_keys_nodes]

theorem groups_perm : (buildRootGroup results).groups.Perm
    ((topPaths results).map (nodeWith results (movedPaths results))) := by
  refine (perm_insertionSort _ _).trans (List.Perm.of_eq ?_)
  rw [topPaths, ← Std.ExtTreeMap.map_fst_toList_eq_keys, List.map_map]
  refine map_congr_left fun e he => ?_
  have hget := Std.ExtTreeMap.mem_toList_iff_getElem?_eq_some.1 he
  rw [represents_settle] at hget
  obtain ⟨-, hval⟩ := Option.ite_none_right_eq_some.1 hget
  exact (Option.some.inj hval).symm

theorem mem_movedPaths : p ∈ movedPaths results ↔
    Occurs results p ∧ Occurs results (parentOf p) ∧ parentOf p ∉ movedPaths results := by
  rw [movedPaths, mem_moved_iff (sorted_keys _) fun _ => parentOf_lt_of_mem_keys, mem_keys_nodes,
    mem_keys_nodes]

theorem nodup_keys (tree : GroupMap) : tree.keys.Nodup := (sorted_keys tree).imp ne_of_lt

theorem subtree_leafNode (x : String) : (leafNode results x).subtree = [leafNode results x] := by
  rw [subtree_eq]
  rfl

theorem subtree_nodeWith (moved : List String) (x : String) :
    (nodeWith results moved x).subtree = nodeWith results moved x :: (childrenOf moved x).map
      (leafNode results) := by
  rw [subtree_eq]
  refine congrArg _ ?_
  rw [nodeWith, flatMap_map, map_eq_flatMap]
  simp only [subtree_leafNode]

theorem subtrees_perm :
    (subtrees (buildRootGroup results).groups).Perm ((topPaths results).flatMap fun x =>
    nodeWith results (movedPaths results) x :: (childrenOf (movedPaths results) x).map
      (leafNode results)) := by
  rw [subtrees_eq]
  refine (groups_perm.flatMap_right _).trans (List.Perm.of_eq ?_)
  rw [flatMap_map]
  simp only [subtree_nodeWith]

theorem paths_perm : ((subtrees (buildRootGroup results).groups).map GroupNode.path).Perm
    ((topPaths results).flatMap fun x => x :: childrenOf (movedPaths results) x) := by
  refine (subtrees_perm.map _).trans (List.Perm.of_eq ?_)
  have hleaf : GroupNode.path ∘ leafNode results = id := rfl
  rw [map_flatMap]
  simp only [map_cons, List.map_map, hleaf, List.map_id]
  rfl

theorem nodup_paths : ((subtrees (buildRootGroup results).groups).map GroupNode.path).Nodup := by
  rw [paths_perm.nodup_iff, nodup_flatMap]
  constructor
  · intro x hx
    refine nodup_cons.2 ⟨fun hmem => (mem_topPaths.1 hx).2 (mem_childrenOf.1 hmem).1, ?_⟩
    exact ((nodup_keys _).sublist moved_sublist).filter _
  · refine (nodup_keys _).pairwise_of_forall_ne fun x hx y hy hne => ?_
    intro p hpx hpy
    rcases mem_cons.1 hpx with rfl | hpx
    · rcases mem_cons.1 hpy with rfl | hpy
      · exact hne rfl
      · exact (mem_topPaths.1 hx).2 (mem_childrenOf.1 hpy).1
    · rcases mem_cons.1 hpy with rfl | hpy
      · exact (mem_topPaths.1 hy).2 (mem_childrenOf.1 hpx).1
      · exact hne ((mem_childrenOf.1 hpx).2.symm.trans (mem_childrenOf.1 hpy).2)

theorem parentOf_mem_topPaths (hp : p ∈ movedPaths results) : parentOf p ∈ topPaths results :=
  mem_topPaths.2 (mem_movedPaths.1 hp).2

theorem mem_paths_iff (p : String) :
    p ∈ (subtrees (buildRootGroup results).groups).map GroupNode.path ↔ Occurs results p := by
  rw [paths_perm.mem_iff, mem_flatMap]
  constructor
  · rintro ⟨x, hx, hp⟩
    rcases mem_cons.1 hp with rfl | hp
    · exact (mem_topPaths.1 hx).1
    · exact (mem_movedPaths.1 (mem_childrenOf.1 hp).1).1
  · intro hp
    by_cases hmoved : p ∈ movedPaths results
    · exact ⟨parentOf p, parentOf_mem_topPaths hmoved,
        mem_cons_of_mem _ (mem_childrenOf.2 ⟨hmoved, rfl⟩)⟩
    · exact ⟨p, mem_topPaths.2 ⟨hp, hmoved⟩, mem_cons_self⟩

theorem paths_groups_nodeWith (moved : List String) (x : String) :
    (nodeWith results moved x).groups.map GroupNode.path = childrenOf moved x := by
  rw [nodeWith, List.map_map]
  exact List.map_id _

theorem exists_parent_iff : (∃ n ∈ subtrees (buildRootGroup results).groups, n.path = parentOf p ∧
    p ∈ n.groups.map GroupNode.path) ↔ p ∈ movedPaths results := by
  constructor
  · rintro ⟨n, hn, -, hp⟩
    obtain ⟨x, -, hn⟩ := mem_flatMap.1 (subtrees_perm.mem_iff.1 hn)
    rcases mem_cons.1 hn with rfl | hn
    · rw [paths_groups_nodeWith] at hp
      exact (mem_childrenOf.1 hp).1
    · obtain ⟨c, -, rfl⟩ := mem_map.1 hn
      cases hp
  · intro hp
    refine ⟨nodeWith results (movedPaths results) (parentOf p),
      subtrees_perm.mem_iff.2 (mem_flatMap.2 ⟨parentOf p, parentOf_mem_topPaths hp, mem_cons_self⟩),
        rfl, ?_⟩
    rw [paths_groups_nodeWith]
    exact mem_childrenOf.2 ⟨hp, rfl⟩

theorem mem_groups_of_not_mem_movedPaths (hp : Occurs results p) (hmoved : p ∉ movedPaths results) :
    p ∈ (buildRootGroup results).groups.map GroupNode.path := by
  rw [(groups_perm.map _).mem_iff, List.map_map]
  exact mem_map.2 ⟨p, mem_topPaths.2 ⟨hp, hmoved⟩, rfl⟩

/-- The group tree is faithful exactly if no path of the summary has both its parent and its
    grandparent there. -/
theorem buildRootGroup_faithful_iff (results : MetricsResult hdr) :
    Faithful results (buildRootGroup results) ↔
      ∀ p, Occurs results p → Occurs results (parentOf p) →
        ¬ Occurs results (parentOf (parentOf p)) := by
  have hmoved := forall_mem_moved_iff (sorted_keys (nodes results)) fun _ => parentOf_lt_of_mem_keys
  simp only [mem_keys_nodes] at hmoved
  rw [← hmoved]
  constructor
  · intro h p hp hparent
    exact exists_parent_iff.1 (h.child p hp hparent)
  · intro h
    refine ⟨nodup_paths, mem_paths_iff,
      fun p hp hparent => exists_parent_iff.2 (h p hp hparent), ?_⟩
    intro p hp hparent
    exact mem_groups_of_not_mem_movedPaths hp fun hmem => hparent (mem_movedPaths.1 hmem).2.1

end

def checkedGroups (groups : List String) : MetricsResult Hdr.exact :=
  ((Aggregator.new 10).recordAll (groups.map fun group =>
    { plainSample "checks" .rate with tags := .ofPairs [("group", group)] })).buildResults ⟨0, 0⟩ 0

theorem faithful_checkout : Faithful (checkedGroups ["::checkout", "::checkout::payment"])
    (buildRootGroup (checkedGroups ["::checkout", "::checkout::payment"])) := by
  have hkeys : (nodes (checkedGroups ["::checkout", "::checkout::payment"])).keys =
      ["::checkout", "::checkout::payment"] := by decide
  refine (buildRootGroup_faithful_iff _).2 ?_
  simp only [← mem_keys_nodes, hkeys]
  decide

theorem not_faithful_checkout :
    let r := checkedGroups ["::checkout", "::checkout::payment", "::checkout::payment::card"]
    (buildRootGroup r).groups.map (fun n => (n.path, n.groups.map GroupNode.path)) =
        [("::checkout", ["::checkout::payment"]), ("::checkout::payment::card", [])] ∧
      ¬ Faithful r (buildRootGroup r) := by
  refine ⟨by decide, fun h => ?_⟩
  have hcard := h.child "::checkout::payment::card" (mem_keys_nodes.1 (by decide))
    (mem_keys_nodes.1 (by decide))
  exact absurd (exists_parent_iff.1 hcard) (by decide)

end Tropel.Summary
