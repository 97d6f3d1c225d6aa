import Mathlib.Data.Char
import Mathlib.Data.List.Lex
import Mathlib.Data.Prod.Lex
import Tropel.Lib.IndexMap
import Tropel.Lib.Rust
import Tropel.Lib.SortBy
import Tropel.Lib.Text

/-!
# KnockPort collections

A collection is a directory of request documents, with manifests that may say in which order they
come. A name that an order repeats is imported as often as it is mentioned.

* `readFolder`: the items and the notes of a directory;
* `contents`: the items it should have, each once (`listing` is their order);
* `readFolder_eq_contents_iff`: when it has these, and that every missing name is noted.
-/

namespace Tropel.KnockPort

open Lib List

structure Manifest where
  name : Option Text
  order : List Text

/-- A directory tree: a document with what `read_request` makes of it, or a directory with its
    manifest. -/
inductive Node (ε ι : Type)
  | file (read : Except ε (Option ι × List Text))
  | dir (manifest : Except ε Manifest) (entries : List (Text × Node ε ι))

inductive ScenarioItem (ι : Type)
  | request (item : ι)
  | folder (name : Text) (items : List (ScenarioItem ι))

variable {ε ι : Type}

/-- An entry that is a request document or a subfolder by its name. -/
def isChild : Text × Node ε ι → Bool
  | (name, node) => name ≠ "folder.yaml" && match node with
    | .dir .. => true
    | .file _ => ".yaml".toList.isSuffixOf name || ".yml".toList.isSuffixOf name

def childNames (entries : List (Text × Node ε ι)) : List Text :=
  (entries.filter isChild).map Prod.fst

def onDisk (entries : List (Text × Node ε ι)) : List Text := sortByKey id (childNames entries)

def sequence (order onDisk : List Text) : List Text :=
  onDisk.foldl
    (fun sequence found => if sequence.contains found then sequence else sequence ++ [found])
    (order.filter onDisk.contains)

def missingNote (dir named : Text) : Text :=
  dir ++ ": order lists \"" ++ named ++ "\", which is not on disk"

def readSequence (dir : Text) (order onDisk : List Text)
    (reads : List (Text × Except ε (Option (ScenarioItem ι) × List Text))) :
    Except ε (List (ScenarioItem ι) × List Text) := do
  let missing := order.filter fun named => !onDisk.contains named
  let results ← (sequence order onDisk).mapM fun name =>
    (IndexMap.find name reads).getD (.ok (none, []))
  return (results.filterMap Prod.fst, missing.map (missingNote dir) ++ results.flatMap Prod.snd)

mutual

def readNode (dir name : Text) : Node ε ι → Except ε (Option (ScenarioItem ι) × List Text)
  | .file read => read.map fun r => (r.1.map .request, r.2)
  | .dir manifest entries => manifest.bind fun manifest =>
    (readSequence (dir ++ '/' :: name) manifest.order (onDisk entries)
      (readEntries (dir ++ '/' :: name) entries)).map fun r =>
        (some (.folder (manifest.name.getD name) r.1), r.2)

def readEntries (dir : Text) :
    List (Text × Node ε ι) → List (Text × Except ε (Option (ScenarioItem ι) × List Text))
  | [] => []
  | (name, node) :: entries => (name, readNode dir name node) :: readEntries dir entries

end

def readFolder (dir : Text) (order : List Text) (entries : List (Text × Node ε ι)) :
    Except ε (List (ScenarioItem ι) × List Text) :=
  readSequence dir order (onDisk entries) (readEntries dir entries)

/-! ## What a folder should have -/

/-- Those that are named in the order of first mention, and then the others by name. -/
def listing (order names : List Text) : List Text :=
  sortByKey (fun name => toLex (order.idxOf name, name)) names

mutual

/-- What a document or a subfolder is to be imported as. -/
def Node.item (name : Text) : Node ε ι → Option (ScenarioItem ι)
  | .file (.ok (item, _)) => item.map .request
  | .dir (.ok m) entries =>
    some (.folder (m.name.getD name) ((listing m.order (childNames entries)).filterMap
      fun name => (IndexMap.find name (itemsOf entries)).join))
  | .file (.error _) | .dir (.error _) _ => none

def itemsOf : List (Text × Node ε ι) → List (Text × Option (ScenarioItem ι))
  | [] => []
  | (name, node) :: entries => (name, node.item name) :: itemsOf entries

end

def itemAt (entries : List (Text × Node ε ι)) (name : Text) : Option (ScenarioItem ι) :=
  (IndexMap.find name (itemsOf entries)).join

def contents (order : List Text) (entries : List (Text × Node ε ι)) : List (ScenarioItem ι) :=
  (listing order (childNames entries)).filterMap (itemAt entries)

section

variable (D : Text → List Text → List (Text × Node ε ι) → Prop)

mutual

/-- The documents and the manifests can be read, and every folder has `D`, with its path and
    order. -/
def Node.Throughout (dir name : Text) : Node ε ι → Prop
  | .file (.ok _) => True
  | .dir (.ok m) entries =>
    D (dir ++ '/' :: name) m.order entries ∧ Below (dir ++ '/' :: name) entries
  | .file (.error _) | .dir (.error _) _ => False

def Below (dir : Text) : List (Text × Node ε ι) → Prop
  | [] => True
  | (name, node) :: entries =>
    (isChild (name, node) = true → node.Throughout dir name) ∧ Below dir entries

end

def Throughout (dir : Text) (order : List Text) (entries : List (Text × Node ε ι)) : Prop :=
  D dir order entries ∧ Below D dir entries

end

/-- As in every file system. -/
def Distinct (_ : Text) (_ : List Text) (entries : List (Text × Node ε ι)) : Prop :=
  (entries.map Prod.fst).Nodup

def Node.isImported : Node ε ι → Bool
  | .file (.ok (some _, _)) | .dir .. => true
  | _ => false

/-- The order names no request and no subfolder twice. -/
def NamedOnce (_ : Text) (order : List Text) (entries : List (Text × Node ε ι)) : Prop :=
  ∀ e ∈ entries, isChild e = true → e.2.isImported = true → order.count e.1 ≤ 1

def Noted (notes : List Text) (dir : Text) (order : List Text)
    (entries : List (Text × Node ε ι)) : Prop :=
  ∀ named ∈ order, named ∉ childNames entries → missingNote dir named ∈ notes

variable {order names : List Text} {entries : List (Text × Node ε ι)} {dir name : Text}
  {D D' : Text → List Text → List (Text × Node ε ι) → Prop} {node : Node ε ι}

theorem below_iff : Below D dir entries ↔ ∀ e ∈ entries, isChild e = true →
    e.2.Throughout D dir e.1 := by
  induction entries with
  | nil => simp [Below]
  | cons e entries ih => rw [Below, ih, forall_mem_cons]

mutual

theorem Node.Throughout.mono (hD : ∀ dir order entries, D dir order entries → D' dir order entries)
    {dir name : Text} : ∀ {node : Node ε ι}, node.Throughout D dir name →
      node.Throughout D' dir name
  | .file (.ok _), _ => by rw [Node.Throughout]; trivial
  | .dir (.ok m) entries, h => by
    rw [Node.Throughout] at h ⊢
    exact ⟨hD _ _ _ h.1, Below.mono hD h.2⟩
  | .file (.error _), h => by rw [Node.Throughout] at h; exact h.elim
  | .dir (.error _) _, h => by rw [Node.Throughout] at h; exact h.elim

theorem Below.mono (hD : ∀ dir order entries, D dir order entries → D' dir order entries)
    {dir : Text} : ∀ {entries : List (Text × Node ε ι)}, Below D dir entries → Below D' dir entries
  | [], _ => by rw [Below]; trivial
  | (name, node) :: entries, h => by
    rw [Below] at h ⊢
    exact ⟨fun hchild => (h.1 hchild).mono hD, Below.mono hD h.2⟩

end

/-! ## The order of the entries -/

theorem mem_childNames : name ∈ childNames entries ↔ ∃ e ∈ entries, isChild e = true ∧
    e.1 = name := by
  simp only [childNames, mem_map, mem_filter, and_assoc]

theorem forall_onDisk_iff {P : Text → Prop} {Q : Text × Node ε ι → Prop}
    (h : ∀ e ∈ entries, isChild e = true → (P e.1 ↔ Q e)) :
    (∀ name ∈ onDisk entries, P name) ↔ ∀ e ∈ entries, isChild e = true → Q e := by
  simp only [onDisk, (perm_sortByKey _ _).mem_iff, mem_childNames]
  refine ⟨fun hP e he hc => (h e he hc).1 (hP e.1 ⟨e, he, hc, rfl⟩), fun hQ name => ?_⟩
  rintro ⟨e, he, hc, rfl⟩
  exact (h e he hc).2 (hQ e he hc)

theorem nodup_onDisk (h : (entries.map Prod.fst).Nodup) : (onDisk entries).Nodup :=
  (perm_sortByKey _ _).nodup_iff.2 (h.sublist (filter_sublist.map _))

theorem foldl_sequence {l seq : List Text} (h : l.Nodup) :
    l.foldl
      (fun sequence found => if sequence.contains found then sequence else sequence ++ [found])
      seq =
      seq ++ l.filter fun found => !seq.contains found := by
  induction l generalizing seq with
  | nil => simp
  | cons found l ih =>
    rw [nodup_cons] at h
    rw [foldl_cons, filter_cons, ih h.2]
    cases hfound : seq.contains found with
    | true => simp
    | false =>
      -- The name that is added does not come again.
      have hsame : (l.filter fun x => !(seq ++ [found]).contains x) =
          l.filter fun x => !seq.contains x := by
        refine filter_congr fun x hx => ?_
        have hne : x ≠ found := fun heq => h.1 (heq ▸ hx)
        simp [hne]
      rw [if_neg (by decide), hsame, append_assoc]
      rfl

theorem sequence_eq (hnames : names.Nodup) : sequence order names =
    order.filter names.contains ++ names.filter fun name => !order.contains name := by
  rw [sequence, foldl_sequence hnames]
  congr 1
  refine filter_congr fun name hname => ?_
  simp [hname]

theorem pairwise_idxOf_filter {p : Text → Bool} (h : (order.filter p).Nodup) :
    (order.filter p).Pairwise fun a b => order.idxOf a < order.idxOf b := by
  have hsucc {x : Text} {l xs : List Text} (hl : x ∉ l)
      (h : l.Pairwise fun a b => xs.idxOf a < xs.idxOf b) :
      l.Pairwise fun a b => (x :: xs).idxOf a < (x :: xs).idxOf b := by
    refine h.imp_of_mem fun {a b} ha hb hab => ?_
    rw [idxOf_cons_ne _ (ne_of_mem_of_not_mem ha hl).symm,
      idxOf_cons_ne _ (ne_of_mem_of_not_mem hb hl).symm]
    exact Nat.succ_lt_succ hab
  induction order with
  | nil => exact Pairwise.nil
  | cons x order ih =>
    rw [filter_cons] at h ⊢
    split at h
    next hx =>
      rw [nodup_cons] at h
      rw [if_pos hx, pairwise_cons]
      refine ⟨fun b hb => ?_, hsucc h.1 (ih h.2)⟩
      rw [idxOf_cons_self, idxOf_cons_ne _ (ne_of_mem_of_not_mem hb h.1).symm]
      exact Nat.succ_pos _
    next hx =>
      rw [if_neg hx]
      exact hsucc (fun hmem => hx (mem_filter.1 hmem).2) (ih h)

variable {p : Text → Bool}

theorem filter_sequence_eq (hnames : names.Nodup) : (sequence order names).filter p =
    order.filter (fun name => names.contains name && p name) ++
      names.filter fun name => !order.contains name && p name := by
  rw [sequence_eq hnames, filter_append, filter_filter, filter_filter]
  simp only [Bool.and_comm]

/-- Where the order repeats nothing, the entries come as they should. -/
theorem filter_sequence (hnames : names.Nodup) (hsorted : names.Pairwise (· ≤ ·))
    (h : (order.filter fun name => names.contains name && p name).Nodup) :
    (sequence order names).filter p = (listing order names).filter p := by
  have hperm : ((sequence order names).filter p).Perm ((listing order names).filter p) := by
    refine (perm_ext_iff_of_nodup ?_ ?_).2 fun name => ?_
    · rw [filter_sequence_eq hnames, nodup_append]
      refine ⟨h, hnames.filter _, fun a ha b hb hab => ?_⟩
      simp only [mem_filter, Bool.and_eq_true, Bool.not_eq_true', contains_eq_mem,
        decide_eq_false_iff_not] at ha hb
      exact hb.2.1 (hab ▸ ha.1)
    · exact ((perm_sortByKey _ names).nodup_iff.2 hnames).filter _
    · rw [filter_sequence_eq hnames, listing, mem_filter, (perm_sortByKey _ names).mem_iff]
      by_cases hname : name ∈ order <;> simp [hname]
  have hsequence : ((sequence order names).filter p).Pairwise fun a b =>
      toLex (order.idxOf a, a) ≤ toLex (order.idxOf b, b) := by
    rw [filter_sequence_eq hnames, pairwise_append]
    refine ⟨(pairwise_idxOf_filter h).imp fun hab => (Prod.Lex.toLex_le_toLex.2 (.inl hab)),
      ((hsorted.filter _).imp_of_mem fun {a b} ha hb hab => ?_), fun a ha b hb => ?_⟩
    · simp only [mem_filter, Bool.and_eq_true, Bool.not_eq_true', contains_eq_mem,
        decide_eq_false_iff_not] at ha hb
      refine Prod.Lex.toLex_le_toLex.2 (.inr ⟨?_, hab⟩)
      rw [idxOf_eq_length ha.2.1, idxOf_eq_length hb.2.1]
    · simp only [mem_filter, Bool.and_eq_true, Bool.not_eq_true', contains_eq_mem,
        decide_eq_false_iff_not] at ha hb
      refine Prod.Lex.toLex_le_toLex.2 (.inl ?_)
      rw [idxOf_eq_length hb.2.1]
      exact idxOf_lt_length_of_mem ha.1
  exact hperm.eq_of_pairwise
    (fun a b _ _ hab hba => (Prod.mk.inj (toLex.injective (le_antisymm hab hba))).2)
    hsequence ((pairwise_sortByKey _ names).filter _)

/-- A repetition makes the sequence too long. -/
theorem nodup_of_length_filter_sequence (hnames : names.Nodup)
    (h : ((sequence order names).filter p).length = ((listing order names).filter p).length) :
    (order.filter fun name => names.contains name && p name).Nodup := by
  let named := order.filter fun name => names.contains name && p name
  have hperm : (names.filter p).Perm
      (named.dedup ++ names.filter fun name => !order.contains name && p name) := by
    refine (perm_ext_iff_of_nodup (hnames.filter _) ?_).2 fun name => ?_
    · refine (nodup_dedup _).append (hnames.filter _) fun name hdedup hrest => ?_
      simp only [named, mem_dedup, mem_filter, Bool.and_eq_true, Bool.not_eq_true', contains_eq_mem,
        decide_eq_false_iff_not] at hdedup hrest
      exact hrest.2.1 hdedup.1
    · by_cases hname : name ∈ order <;> simp [named, hname]
  have hlength : ((sequence order names).filter p).length = _ :=
    h.trans (((perm_sortByKey _ names).filter p).length_eq.trans hperm.length_eq)
  rw [filter_sequence_eq hnames, length_append, length_append, Nat.add_right_cancel_iff] at hlength
  have heq : named.dedup = named := (dedup_sublist named).eq_of_length hlength.symm
  exact dedup_eq_self.1 heq

theorem nodup_filter_iff : (order.filter p).Nodup ↔ ∀ name, p name = true →
    order.count name ≤ 1 := by
  rw [nodup_iff_count_le_one]
  refine forall_congr' fun name => ⟨fun h hp => ?_, fun h => ?_⟩
  · rwa [count_filter hp] at h
  · by_cases hp : p name = true
    · rw [count_filter hp]
      exact h hp
    · rw [count_eq_zero.2 fun hmem => hp (mem_filter.1 hmem).2]
      exact Nat.zero_le 1

theorem filterMap_filter_isSome {β : Type} {f : Text → Option β} {l : List Text}
    (hp : ∀ name ∈ l, (f name).isSome = p name) : (l.filter p).filterMap f = l.filterMap f := by
  rw [filterMap_filter]
  refine filterMap_congr fun name hname => ?_
  rw [← hp name hname]
  cases f name <;> rfl

theorem filterMap_eq_filterMap_iff {β : Type} {f g : Text → Option β} {l : List Text}
    (h : ∀ name ∈ l, (f name).isSome = (g name).isSome) :
    l.filterMap f = l.filterMap g ↔ ∀ name ∈ l, f name = g name := by
  induction l with
  | nil => simp
  | cons name l ih =>
    rw [forall_mem_cons] at h ⊢
    rw [filterMap_cons, filterMap_cons, ← ih h.2]
    cases hf : f name <;> cases hg : g name <;> simp_all

theorem mem_sequence (hnames : names.Nodup) : name ∈ sequence order names ↔ name ∈ names := by
  rw [sequence_eq hnames]
  by_cases hname : name ∈ order <;> simp [hname]

/-- The values `f` of the sequence are the values `g` of the listing just when no name with a value
    is repeated and the values are the same. -/
theorem filterMap_sequence_iff {β : Type} {f g : Text → Option β} (hnames : names.Nodup)
    (hsorted : names.Pairwise (· ≤ ·)) (hfg : ∀ name ∈ names, (f name).isSome = (g name).isSome) :
    (sequence order names).filterMap f = (listing order names).filterMap g ↔
      (∀ name ∈ names, (g name).isSome = true → order.count name ≤ 1) ∧ ∀ name ∈ names,
        f name = g name := by
  have hcount : (∀ name ∈ names, (g name).isSome = true → order.count name ≤ 1) ↔
      (order.filter fun name => names.contains name && (g name).isSome).Nodup := by
    simp only [nodup_filter_iff, Bool.and_eq_true, contains_iff_mem, and_imp]
  have hlisting {name : Text} (h : name ∈ listing order names) : name ∈ names :=
    (perm_sortByKey _ names).mem_iff.1 h
  have hvalues : (listing order names).filterMap f = (listing order names).filterMap g ↔
      ∀ name ∈ names, f name = g name := by
    rw [filterMap_eq_filterMap_iff fun name h => hfg name (hlisting h)]
    exact ⟨fun h name hname => h name ((perm_sortByKey _ names).mem_iff.2 hname),
      fun h name hname => h name (hlisting hname)⟩
  rw [hcount, ← hvalues]
  have hseq := filterMap_filter_isSome (l := sequence order names) fun name h =>
    hfg name ((mem_sequence hnames).1 h)
  have hlist := filterMap_filter_isSome (l := listing order names) fun name h =>
    hfg name (hlisting h)
  refine ⟨fun h => ?_, fun ⟨hnodup, h⟩ => ?_⟩
  · have hlength := congrArg List.length h
    rw [length_filterMap_eq_countP, length_filterMap_eq_countP,
      countP_congr fun name h =>
        iff_of_eq (congrArg (· = true) (hfg name ((mem_sequence hnames).1 h))),
      countP_eq_length_filter, countP_eq_length_filter] at hlength
    have hnodup := nodup_of_length_filter_sequence hnames hlength
    rw [← hseq, filter_sequence hnames hsorted hnodup, hlist] at h
    exact ⟨hnodup, h⟩
  · rw [← hseq, filter_sequence hnames hsorted hnodup, hlist, h]

/-! ## Folders -/

theorem find_readEntries (hnames : (entries.map Prod.fst).Nodup) {e : Text × Node ε ι}
    (he : e ∈ entries) :
    IndexMap.find e.1 (readEntries dir entries) = some (readNode dir e.1 e.2) := by
  induction entries with
  | nil => cases he
  | cons e' entries ih =>
    rw [map_cons, nodup_cons] at hnames
    rw [readEntries, IndexMap.find]
    rcases mem_cons.1 he with rfl | he
    · exact if_pos rfl
    · rw [if_neg (ne_of_mem_of_not_mem (mem_map_of_mem he) hnames.1).symm, ih hnames.2 he]

theorem itemAt_eq (hnames : (entries.map Prod.fst).Nodup) {e : Text × Node ε ι} (he : e ∈ entries) :
    itemAt entries e.1 = e.2.item e.1 := by
  have hfind : IndexMap.find e.1 (itemsOf entries) = some (e.2.item e.1) := by
    induction entries with
    | nil => cases he
    | cons e' entries ih =>
      rw [map_cons, nodup_cons] at hnames
      rw [itemsOf, IndexMap.find]
      rcases mem_cons.1 he with rfl | he
      · exact if_pos rfl
      · rw [if_neg (ne_of_mem_of_not_mem (mem_map_of_mem he) hnames.1).symm, ih hnames.2 he]
  rw [itemAt, hfind, Option.join_some]

variable (dir name node) in
/-- What reading an entry gives: an item just when one is expected, which is the expected one just
    when no order in it repeats a name. -/
def NodeRead : Prop :=
  ∃ item notes, readNode dir name node = .ok (item, notes) ∧ item.isSome = (node.item name).isSome ∧
    (item = node.item name ↔ node.Throughout NamedOnce dir name) ∧
      node.Throughout (Noted notes) dir name

theorem isSome_item (h : node.Throughout D dir name) :
    (node.item name).isSome = node.isImported := by
  match node with
  | .file (.ok (none, _)) | .file (.ok (some _, _)) | .dir (.ok _) _ => rfl
  | .file (.error _) | .dir (.error _) _ => exact h.elim

/-- A folder whose entries `r` says how to read. -/
theorem readFolder_eq (hnames : (entries.map Prod.fst).Nodup)
    {r : Text → Option (ScenarioItem ι) × List Text}
    (hr : ∀ e ∈ entries, isChild e = true → readNode dir e.1 e.2 = .ok (r e.1)) :
    readFolder dir order entries =
      .ok ((sequence order (onDisk entries)).filterMap (fun name => (r name).1),
      (order.filter fun named => !(onDisk entries).contains named).map (missingNote dir) ++
        (sequence order (onDisk entries)).flatMap fun name => (r name).2) := by
  have hreads : (sequence order (onDisk entries)).mapM (fun name =>
      (IndexMap.find name (readEntries dir entries)).getD (.ok (none, []))) =
        .ok ((sequence order (onDisk entries)).map r) := by
    refine mapM_eq_ok_map fun name hname => ?_
    obtain ⟨e, he, hc, rfl⟩ := mem_childNames.1
      ((perm_sortByKey _ _).mem_iff.1 ((mem_sequence (nodup_onDisk hnames)).1 hname))
    rw [find_readEntries hnames he, Option.getD_some, hr e he hc]
  rw [readFolder, readSequence, hreads]
  show Except.ok (((sequence order (onDisk entries)).map r).filterMap Prod.fst,
    _ ++ ((sequence order (onDisk entries)).map r).flatMap Prod.snd) = _
  rw [filterMap_map, flatMap_map]
  rfl

theorem folderRead (hnames : (entries.map Prod.fst).Nodup)
    (h : ∀ e ∈ entries, isChild e = true → NodeRead dir e.1 e.2) :
    ∃ items notes, readFolder dir order entries = .ok (items, notes) ∧
      (items = contents order entries ↔ Throughout NamedOnce dir order entries) ∧
      Throughout (Noted notes) dir order entries := by
  let r (name : Text) : Option (ScenarioItem ι) × List Text :=
    ((IndexMap.find name (readEntries dir entries)).bind Except.toOption).getD (none, [])
  have hr : ∀ e ∈ entries, isChild e = true → readNode dir e.1 e.2 = .ok (r e.1) ∧
      (r e.1).1.isSome = (itemAt entries e.1).isSome ∧
      ((r e.1).1 = itemAt entries e.1 ↔ e.2.Throughout NamedOnce dir e.1) ∧
      e.2.Throughout (Noted (r e.1).2) dir e.1 := by
    intro e he hc
    obtain ⟨item, notes, hread, hitem⟩ := h e he hc
    have hre : r e.1 = (item, notes) := by
      simp only [r, find_readEntries hnames he, hread]
      rfl
    rw [hre, itemAt_eq hnames he]
    exact ⟨hread, hitem⟩
  have hdisk := nodup_onDisk hnames
  refine ⟨_, _, readFolder_eq hnames fun e he hc => (hr e he hc).1, ?_,
    fun named hnamed hmissing => ?_, below_iff.2 fun e he hc => ?_⟩
  · have hlisting : listing order (childNames entries) = listing order (onDisk entries) :=
      sortByKey_eq_of_perm (fun a b hab => (Prod.mk.inj (toLex.injective hab)).2)
        (perm_sortByKey _ _).symm
    have hsome : ∀ name ∈ onDisk entries, (r name).1.isSome = (itemAt entries name).isSome :=
      (forall_onDisk_iff fun _ _ _ => Iff.rfl).2 fun e he hc => (hr e he hc).2.1
    rw [contents, hlisting, filterMap_sequence_iff hdisk (pairwise_sortByKey id _) hsome,
      Throughout, below_iff]
    refine and_congr (forall_onDisk_iff fun e he hc => ?_)
      (forall_onDisk_iff fun e he hc => (hr e he hc).2.2.1)
    rw [itemAt_eq hnames he, isSome_item (hr e he hc).2.2.2]
  · refine mem_append_left _ (mem_map_of_mem (mem_filter.2 ⟨hnamed, ?_⟩))
    rw [Bool.not_eq_true', contains_eq_mem, decide_eq_false_iff_not, onDisk,
      (perm_sortByKey _ _).mem_iff]
    exact hmissing
  · -- The notes of an entry are among those of the folder.
    refine (hr e he hc).2.2.2.mono fun dir order entries h named hnamed hmissing => ?_
    refine mem_append_right _
      (mem_flatMap.2 ⟨e.1, (mem_sequence hdisk).2 ?_, h named hnamed hmissing⟩)
    exact (perm_sortByKey _ _).mem_iff.2 (mem_childNames.2 ⟨e, he, hc, rfl⟩)

mutual

theorem nodeRead {dir name : Text} : ∀ {node : Node ε ι}, node.Throughout Distinct dir name →
    NodeRead dir name node
  | .file (.ok (item, notes)), _ => by
    refine ⟨_, notes, rfl, rfl, ?_, ?_⟩
    · rw [Node.Throughout]
      exact iff_of_true rfl trivial
    · rw [Node.Throughout]
      trivial
  | .dir (.ok m) entries, h => by
    rw [Node.Throughout] at h
    obtain ⟨items, notes, hread, hitems, hnotes⟩ :=
      @folderRead _ _ m.order _ _ h.1 (childrenRead h.2)
    refine ⟨some (.folder (m.name.getD name) items), notes, ?_, rfl, ?_, ?_⟩
    · rw [readFolder] at hread
      rw [readNode, Except.bind, hread]
      rfl
    · rw [Node.item, Node.Throughout, Option.some.injEq, ScenarioItem.folder.injEq]
      exact (and_iff_right rfl).trans hitems
    · rw [Node.Throughout]
      exact hnotes
  | .file (.error _), h | .dir (.error _) _, h => h.elim

theorem childrenRead {dir : Text} : ∀ {entries : List (Text × Node ε ι)},
    Below Distinct dir entries →
    ∀ e ∈ entries, isChild e = true → NodeRead dir e.1 e.2
  | [], _, _, he, _ => by cases he
  | (name, node) :: entries, h, e, he, hc => by
    rw [Below] at h
    rcases mem_cons.1 he with rfl | he
    · exact nodeRead (h.1 hc)
    · exact childrenRead h.2 e he hc

end

/-- A folder is read as its contents just when no order in it repeats a request or a subfolder.
    Every name that is missing is noted. -/
theorem readFolder_eq_contents_iff (h : Throughout Distinct dir order entries) :
    ∃ items notes, readFolder dir order entries = .ok (items, notes) ∧
      (items = contents order entries ↔ Throughout NamedOnce dir order entries) ∧
      Throughout (Noted notes) dir order entries :=
  folderRead h.1 (childrenRead h.2)

def document : List (Text × Node Unit ℕ) := [("a.yaml", .file (.ok (some 0, [])))]

def subfolder : List (Text × Node Unit ℕ) :=
  [("b", .dir (.ok ⟨none, ["a.yaml", "c.yaml", "c.yaml"]⟩) document),
    ("a.yaml", .file (.ok (some 1, [])))]

theorem readFolder_eq_contents_subfolder : ∃ items notes,
    readFolder [] ["b", "d"] subfolder = .ok (items, notes) ∧
      items = [.folder "b" [.request 0], .request 1] ∧ items = contents ["b", "d"] subfolder ∧
      missingNote [] "d" ∈ notes ∧ missingNote "/b" "c.yaml" ∈ notes := by
  have hdistinct : Throughout Distinct [] ["b", "d"] subfolder :=
    ⟨by unfold Distinct; decide, fun _ => ⟨by unfold Distinct; decide, fun _ => trivial, trivial⟩,
      fun _ => trivial, trivial⟩
  have honce : Throughout NamedOnce [] ["b", "d"] subfolder :=
    ⟨forall_mem_cons.2 ⟨fun _ _ => by decide, forall_mem_cons.2 ⟨fun _ _ => by decide, nofun⟩⟩,
      fun _ => ⟨forall_mem_cons.2 ⟨fun _ _ => by decide, nofun⟩, fun _ => trivial, trivial⟩,
      fun _ => trivial, trivial⟩
  obtain ⟨items, notes, hread, hitems, hnotes⟩ := readFolder_eq_contents_iff hdistinct
  refine ⟨items, notes, hread, (hitems.2 honce).trans rfl, hitems.2 honce, ?_, ?_⟩
  · exact hnotes.1 "d" (by simp) (by decide)
  · exact (hnotes.2.1 rfl).1 "c.yaml" (by simp) (by decide)

theorem readFolder_twice :
    readFolder [] ["a.yaml", "a.yaml"] document = .ok ([.request 0, .request 0], []) ∧
      contents ["a.yaml", "a.yaml"] document = [.request 0] :=
  ⟨rfl, rfl⟩

end Tropel.KnockPort
