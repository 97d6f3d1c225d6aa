import Mathlib.Data.List.Basic
import Mathlib.Data.List.TakeWhile

/-!
# Templates

A *template* is a text with holes: two opening brackets, a name without brackets, and two closing
ones, over any alphabet.
-/

namespace Lib

open List

structure Brackets (α : Type*) where
  isOpen : α → Bool
  isClose : α → Bool
  disjoint : ∀ a, isOpen a = true → isClose a = false

structure Hole (α : Type*) where
  whole : List α
  inner : List α
  rest : List α

inductive Piece (α : Type*)
  | lit (a : α)
  | hole (whole inner : List α)
  deriving DecidableEq

namespace Piece

variable {α β : Type*}

def holeName : Piece α → Option (List α)
  | .lit _ => none
  | .hole _ inner => some inner

def expand (spell : α → List β) : Piece α → List (Piece β)
  | .lit a => (spell a).map .lit
  | .hole whole inner => [.hole (whole.flatMap spell) (inner.flatMap spell)]

end Piece

namespace Brackets

variable {α β : Type*} (B : Brackets α)

def isName (a : α) : Bool := !B.isOpen a && !B.isClose a

def holeAt : List α → Option (Hole α)
  | a :: b :: t =>
    if B.isOpen a && B.isOpen b && !(t.takeWhile B.isName).isEmpty then
      match t.dropWhile B.isName with
      | c :: d :: rest =>
        if B.isClose c && B.isClose d then
          some ⟨a :: b :: t.takeWhile B.isName ++ [c, d], t.takeWhile B.isName, rest⟩
        else none
      | _ => none
    else none
  | _ => none

variable {B} {l t : List α} {m : Hole α} {a : α} {x : β}

theorem isName_eq_false_of_isOpen (h : B.isOpen a = true) : B.isName a = false := by
  simp [isName, h]

theorem isName_eq_false_of_isClose (h : B.isClose a = true) : B.isName a = false := by
  simp [isName, h]

theorem holeAt_eq_some_iff : B.holeAt l = some m ↔ ∃ a b c d, B.isOpen a = true ∧
    B.isOpen b = true ∧ B.isClose c = true ∧
      B.isClose d = true ∧ m.inner ≠ [] ∧ (∀ x ∈ m.inner, B.isName x = true) ∧
      m.whole = a :: b :: m.inner ++ [c, d] ∧ l = m.whole ++ m.rest := by
  constructor
  · intro h
    rw [holeAt.eq_def] at h
    split at h
    next a b t =>
      obtain ⟨hab, h⟩ := Option.ite_none_right_eq_some.1 h
      split at h
      next c d rest hrest =>
        obtain ⟨hcd, h⟩ := Option.ite_none_right_eq_some.1 h
        obtain rfl := Option.some.inj h
        simp only [Bool.and_eq_true, Bool.not_eq_true', isEmpty_eq_false_iff] at hab hcd
        refine ⟨a, b, c, d, hab.1.1, hab.1.2, hcd.1, hcd.2, hab.2, ?_, rfl, ?_⟩
        · exact fun x hx => mem_takeWhile_imp hx
        · have ht := takeWhile_append_dropWhile (p := B.isName) (l := t)
          rw [hrest] at ht
          simp [ht]
      next => cases h
    next => cases h
  · rintro ⟨a, b, c, d, ha, hb, hc, hd, hne, hname, hwhole, rfl⟩
    have hc' := isName_eq_false_of_isClose hc
    have htake : (m.inner ++ c :: d :: m.rest).takeWhile B.isName = m.inner := by
      rw [takeWhile_append_of_pos hname, takeWhile_cons_of_neg (by simp [hc']), append_nil]
    have hdrop : (m.inner ++ c :: d :: m.rest).dropWhile B.isName = c :: d :: m.rest := by
      rw [dropWhile_append_of_pos hname, dropWhile_cons_of_neg (by simp [hc'])]
    have hl : m.whole ++ m.rest = a :: b :: (m.inner ++ c :: d :: m.rest) := by simp [hwhole]
    rw [hl, holeAt, htake, hdrop]
    simp [ha, hb, hc, hd, hne, ← hwhole]

theorem length_rest_lt (h : B.holeAt l = some m) : m.rest.length < l.length := by
  obtain ⟨a, b, c, d, -, -, -, -, -, -, hwhole, rfl⟩ := holeAt_eq_some_iff.1 h
  simp [hwhole]
  omega

theorem holeAt_cons_eq_none (h : B.isOpen a = true → ∀ b ∈ t.head?, B.isOpen b = false) :
    B.holeAt (a :: t) = none := by
  rw [Option.eq_none_iff_forall_ne_some]
  intro m hm
  obtain ⟨a', b, c, d, ha, hb, -, -, -, -, hwhole, hl⟩ := holeAt_eq_some_iff.1 hm
  rw [hwhole, cons_append, cons_append, List.cons.injEq] at hl
  obtain ⟨rfl, rfl⟩ := hl
  rw [h ha b rfl] at hb
  cases hb

variable (B)

def pieces (l : List α) : List (Piece α) :=
  match _h : B.holeAt l with
  | some m => .hole m.whole m.inner :: pieces m.rest
  | none => match l with
    | [] => []
    | a :: t => .lit a :: pieces t
termination_by l.length
decreasing_by
  · exact length_rest_lt _h
  · exact Nat.lt_succ_self _

def holes (l : List α) : List (List α) := (B.pieces l).filterMap Piece.holeName

variable {B}

@[simp]
theorem pieces_nil : B.pieces [] = [] := by
  rw [pieces]
  rfl

theorem pieces_of_holeAt (h : B.holeAt l = some m) :
    B.pieces l = .hole m.whole m.inner :: B.pieces m.rest := by
  rw [pieces]
  split
  next m' h' =>
    obtain rfl := Option.some.inj (h.symm.trans h')
    rfl
  next h' => rw [h] at h'; cases h'

theorem pieces_cons (h : B.holeAt (a :: t) = none) : B.pieces (a :: t) = .lit a :: B.pieces t := by
  rw [pieces]
  split
  next m' h' => rw [h] at h'; cases h'
  next => rfl

theorem holes_of_holeAt (h : B.holeAt l = some m) : B.holes l = m.inner :: B.holes m.rest := by
  rw [holes, pieces_of_holeAt h]
  rfl

theorem holes_cons (h : B.holeAt (a :: t) = none) : B.holes (a :: t) = B.holes t := by
  rw [holes, pieces_cons h]
  rfl

theorem isName_of_mem_holes {l inner : List α} (h : inner ∈ B.holes l) :
    ∀ x ∈ inner, B.isName x = true := by
  rw [holes] at h
  fun_induction B.pieces l with
  | case1 l m hm ih =>
    rcases mem_cons.1 h with rfl | hrest
    · obtain ⟨-, -, -, -, -, -, -, -, -, hname, -⟩ := holeAt_eq_some_iff.1 hm
      exact hname
    · exact ih hrest
  | case2 => cases h
  | case3 a t _ ih => exact ih h

theorem exists_whole_of_holeAt (h : B.holeAt l = some m) :
    ∃ a b y u, m.whole = a :: b :: y :: u ∧ (∀ x ∈ y :: u, B.isOpen x ≠ true) ∧
      l = m.whole ++ m.rest := by
  obtain ⟨a, b, c, d, -, -, hc, hd, hne, hname, hwhole, hl⟩ := holeAt_eq_some_iff.1 h
  obtain ⟨y, u, hinner⟩ := exists_cons_of_ne_nil hne
  refine ⟨a, b, y, u ++ [c, d], by rw [hwhole, hinner]; rfl, ?_, hl⟩
  intro x hx hopen
  have hmem : x ∈ m.inner ∨ B.isClose x = true := by
    rw [← cons_append, ← hinner, mem_append] at hx
    refine hx.imp_right fun hx => ?_
    rcases mem_cons.1 hx with rfl | hx
    · exact hc
    · rwa [mem_singleton.1 hx]
  rcases hmem with hmem | hclose
  · exact absurd (hname x hmem) (Bool.eq_false_iff.1 (isName_eq_false_of_isOpen hopen))
  · exact absurd hclose (Bool.eq_false_iff.1 (B.disjoint x hopen))

theorem mem_holes_of_infix {a b c d : α} {n : List α} (ha : B.isOpen a = true)
    (hb : B.isOpen b = true) (hc : B.isClose c = true) (hd : B.isClose d = true) (hne : n ≠ [])
    (hname : ∀ x ∈ n, B.isName x = true) (s t : List α) :
    n ∈ B.holes (s ++ a :: b :: (n ++ c :: d :: t)) := by
  have hfront : B.holeAt (a :: b :: (n ++ c :: d :: t)) = some ⟨a :: b :: n ++ [c, d], n, t⟩ :=
    holeAt_eq_some_iff.2 ⟨a, b, c, d, ha, hb, hc, hd, hne, hname, rfl, by simp⟩
  induction hk : s.length using Nat.strong_induction_on generalizing s with
  | _ k ih =>
    rcases s with _ | ⟨x, s⟩
    · rw [nil_append, holes_of_holeAt hfront]
      exact mem_cons_self
    rcases hhole : B.holeAt (x :: s ++ a :: b :: (n ++ c :: d :: t)) with _ | m
    · rw [cons_append] at hhole
      rw [cons_append, holes_cons hhole]
      exact ih s.length (hk ▸ Nat.lt_succ_self _) s rfl
    rw [holes_of_holeAt hhole]
    refine mem_cons_of_mem _ ?_
    obtain ⟨a', b', y, u, hwhole, hclosed, hl⟩ := exists_whole_of_holeAt hhole
    rw [hwhole] at hl
    -- the name stands after the hole, or would begin within it
    rcases append_eq_append_iff.1 hl with ⟨l, hl, hrest⟩ | ⟨l, hl, hrest⟩
    · rcases l with _ | ⟨z, l⟩
      · rw [← nil_append m.rest, ← hrest]
        exact ih 0 (hk ▸ Nat.zero_lt_succ _) [] rfl
      obtain ⟨rfl, hnext⟩ := List.cons.inj hrest
      rcases s with _ | ⟨z, s⟩
      · obtain rfl : y :: u = l := (List.cons.inj (List.cons.inj hl).2).2
        obtain ⟨rfl, -⟩ := List.cons.inj hnext
        exact absurd hb (hclosed b mem_cons_self)
      · have htail : y :: u = s ++ a :: l := (List.cons.inj (List.cons.inj hl).2).2
        exact absurd ha (hclosed a (htail ▸ mem_append_right _ mem_cons_self))
    · rw [hrest]
      refine ih l.length ?_ l rfl
      have hlength := congrArg List.length hl
      simp only [length_append, length_cons] at hlength hk
      omega

theorem pieces_append_of_isName {xs : List α} (h : ∀ x ∈ xs, B.isName x = true) (l : List α) :
    B.pieces (xs ++ l) = xs.map .lit ++ B.pieces l := by
  induction xs with
  | nil => rfl
  | cons x xs ih =>
    have hx : B.isOpen x = false := by
      have hname := h x mem_cons_self
      rw [isName, Bool.and_eq_true, Bool.not_eq_true'] at hname
      exact hname.1
    have hnone : B.holeAt (x :: (xs ++ l)) = none := holeAt_cons_eq_none (by simp [hx])
    rw [cons_append, pieces_cons hnone, ih fun y hy => h y (mem_cons_of_mem _ hy),
      map_cons, cons_append]

/-! ## Templates spelled in another alphabet -/

structure Spells (B : Brackets α) (B' : Brackets β) (spell : α → List β) (a : α) : Prop where
  isOpen : B.isOpen a = true → ∃ b, spell a = [b] ∧ B'.isOpen b = true
  isClose : B.isClose a = true → ∃ b, spell a = [b] ∧ B'.isClose b = true
  isName : B.isName a = true → spell a ≠ [] ∧ ∀ b ∈ spell a, B'.isName b = true

variable {B' : Brackets β} {spell : α → List β} {us : List α} {ys : List β}

theorem holeAt_flatMap_append (hspell : ∀ a ∈ us, Spells B B' spell a) (h : B.holeAt us = some m)
    (ys : List β) :
    B'.holeAt (us.flatMap spell ++ ys) =
      some ⟨m.whole.flatMap spell, m.inner.flatMap spell, m.rest.flatMap spell ++ ys⟩ := by
  obtain ⟨a, b, c, d, ha, hb, hc, hd, hne, hname, hwhole, rfl⟩ := holeAt_eq_some_iff.1 h
  have hmem : ∀ x ∈ m.whole, Spells B B' spell x := fun x hx => hspell x (mem_append_left _ hx)
  rw [hwhole] at hmem
  obtain ⟨a', ha', hopen⟩ := (hmem a (by simp)).isOpen ha
  obtain ⟨b', hb', hopen'⟩ := (hmem b (by simp)).isOpen hb
  obtain ⟨c', hc', hclose⟩ := (hmem c (by simp)).isClose hc
  obtain ⟨d', hd', hclose'⟩ := (hmem d (by simp)).isClose hd
  have hinner : ∀ x ∈ m.inner, Spells B B' spell x := fun x hx => hmem x (by simp [hx])
  refine holeAt_eq_some_iff.2 ⟨a', b', c', d', hopen, hopen', hclose, hclose', ?_, ?_, ?_, ?_⟩
  · obtain ⟨x, xs, hx⟩ := exists_cons_of_ne_nil hne
    have hxm : x ∈ m.inner := by simp [hx]
    obtain ⟨hnil, -⟩ := (hinner x hxm).isName (hname x hxm)
    rw [hx, flatMap_cons]
    exact append_ne_nil_of_left_ne_nil hnil _
  · intro y hy
    obtain ⟨x, hx, hy⟩ := mem_flatMap.1 hy
    exact ((hinner x hx).isName (hname x hx)).2 y hy
  · simp [hwhole, ha', hb', hc', hd']
  · simp

theorem exists_cons_of_flatMap_append_eq_cons {t : List β}
    (hspell : ∀ a ∈ us, Spells B B' spell a) (hys : ∀ y ∈ ys.head?, B'.isName y = true)
    (hx : B'.isName x = false) (h : us.flatMap spell ++ ys = x :: t) :
    ∃ u us', us = u :: us' ∧ us'.flatMap spell ++ ys = t ∧
      (B'.isOpen x = true → B.isOpen u = true) ∧
      (B'.isClose x = true → B.isClose u = true) := by
  rcases us with _ | ⟨u, us⟩
  · rw [flatMap_nil, nil_append] at h
    rw [h] at hys
    rw [hys x rfl] at hx
    cases hx
  rw [flatMap_cons, append_assoc] at h
  have hu := hspell u mem_cons_self
  by_cases hopen : B.isOpen u = true
  · obtain ⟨b, hb, hbopen⟩ := hu.isOpen hopen
    rw [hb, singleton_append, List.cons.injEq] at h
    obtain ⟨rfl, rfl⟩ := h
    refine ⟨u, us, rfl, rfl, fun _ => hopen, fun hclose => ?_⟩
    rw [B'.disjoint b hbopen] at hclose
    cases hclose
  by_cases hclose : B.isClose u = true
  · obtain ⟨b, hb, hbclose⟩ := hu.isClose hclose
    rw [hb, singleton_append, List.cons.injEq] at h
    obtain ⟨rfl, rfl⟩ := h
    refine ⟨u, us, rfl, rfl, fun hbopen => ?_, fun _ => hclose⟩
    rw [B'.disjoint b hbopen] at hbclose
    cases hbclose
  -- A symbol that is no bracket is spelled without one.
  obtain ⟨hne, hname⟩ := hu.isName (by simp [isName, hopen, hclose])
  obtain ⟨b, bs, hb⟩ := exists_cons_of_ne_nil hne
  rw [hb, cons_append, List.cons.injEq] at h
  rw [← h.1, hname b (by simp [hb])] at hx
  cases hx

theorem exists_append_of_flatMap_append_eq_append {inner t : List β}
    (hspell : ∀ a ∈ us, Spells B B' spell a) (hinner : ∀ b ∈ inner, B'.isName b = true)
    (hsep : ∀ y ∈ ys.head?, y ∉ inner) (hx : B'.isName x = false)
    (h : us.flatMap spell ++ ys = inner ++ x :: t) :
    ∃ n us', us = n ++ us' ∧ n.flatMap spell = inner ∧ (∀ u ∈ n, B.isName u = true) ∧
      us'.flatMap spell ++ ys = x :: t := by
  induction us generalizing inner with
  | nil =>
    rcases inner with _ | ⟨b, inner⟩
    · exact ⟨[], [], rfl, rfl, by simp, h⟩
    · rw [flatMap_nil, nil_append] at h
      rw [h] at hsep
      exact absurd mem_cons_self (hsep b rfl)
  | cons u us ih =>
    rw [flatMap_cons, append_assoc] at h
    have hu := hspell u mem_cons_self
    by_cases hname : B.isName u = true
    · obtain ⟨hne, hnames⟩ := hu.isName hname
      have hfront : ∃ l, inner = spell u ++ l ∧ us.flatMap spell ++ ys = l ++ x :: t := by
        rcases append_eq_append_iff.1 h with ⟨l, hl, hrest⟩ | ⟨l, hl, hrest⟩
        · exact ⟨l, hl, hrest⟩
        · rcases l with _ | ⟨y, l⟩
          · exact ⟨[], by simpa using hl.symm, hrest.symm⟩
          · rw [cons_append, List.cons.injEq] at hrest
            rw [hnames x (by simp [hl, hrest.1])] at hx
            cases hx
      obtain ⟨l, rfl, hrest⟩ := hfront
      obtain ⟨n, us', rfl, rfl, hn, hus'⟩ := ih (fun a ha => hspell a (mem_cons_of_mem _ ha))
        (fun b hb => hinner b (mem_append_right _ hb))
        (fun y hy hmem => hsep y hy (mem_append_right _ hmem)) hrest
      exact ⟨u :: n, us', rfl, rfl, forall_mem_cons.2 ⟨hname, hn⟩, hus'⟩
    · have hbracket : ∃ b, spell u = [b] ∧ B'.isName b = false := by
        simp only [isName, Bool.and_eq_true, Bool.not_eq_true', not_and, Bool.not_eq_false] at hname
        by_cases hopen : B.isOpen u = true
        · obtain ⟨b, hb, hbopen⟩ := hu.isOpen hopen
          exact ⟨b, hb, isName_eq_false_of_isOpen hbopen⟩
        · obtain ⟨b, hb, hbclose⟩ := hu.isClose (hname (by simpa using hopen))
          exact ⟨b, hb, isName_eq_false_of_isClose hbclose⟩
      obtain ⟨b, hb, hbname⟩ := hbracket
      rcases inner with _ | ⟨b', inner⟩
      · exact ⟨[], u :: us, rfl, rfl, by simp, by simpa [flatMap_cons] using h⟩
      · rw [hb, cons_append, cons_append, List.cons.injEq] at h
        rw [h.1, hinner b' mem_cons_self] at hbname
        cases hbname

theorem exists_holeAt_of_flatMap_append {m : Hole β} (hspell : ∀ a ∈ us, Spells B B' spell a)
    (hys : ∀ y ∈ ys.head?, B'.isName y = true) (hsep : ∀ y ∈ ys.head?, y ∉ m.inner)
    (h : B'.holeAt (us.flatMap spell ++ ys) = some m) : ∃ n, B.holeAt us = some n := by
  obtain ⟨a, b, c, d, ha, hb, hc, hd, hne, hname, hwhole, h⟩ := holeAt_eq_some_iff.1 h
  rw [hwhole, append_assoc, cons_append, cons_append] at h
  obtain ⟨a', us, rfl, h, ha', -⟩ :=
    exists_cons_of_flatMap_append_eq_cons hspell hys (isName_eq_false_of_isOpen ha) h
  have hspell := fun x hx => hspell x (mem_cons_of_mem _ hx)
  obtain ⟨b', us, rfl, h, hb', -⟩ :=
    exists_cons_of_flatMap_append_eq_cons hspell hys (isName_eq_false_of_isOpen hb) h
  have hspell := fun x hx => hspell x (mem_cons_of_mem _ hx)
  obtain ⟨n, us, rfl, hn, hnames, h⟩ :=
    exists_append_of_flatMap_append_eq_append hspell hname hsep (isName_eq_false_of_isClose hc) h
  have hspell := fun x hx => hspell x (mem_append_right _ hx)
  obtain ⟨c', us, rfl, h, -, hc'⟩ :=
    exists_cons_of_flatMap_append_eq_cons hspell hys (isName_eq_false_of_isClose hc) h
  have hspell := fun x hx => hspell x (mem_cons_of_mem _ hx)
  obtain ⟨d', us, rfl, h, -, hd'⟩ :=
    exists_cons_of_flatMap_append_eq_cons hspell hys (isName_eq_false_of_isClose hd) h
  refine ⟨⟨a' :: b' :: n ++ [c', d'], n, us⟩, holeAt_eq_some_iff.2
    ⟨a', b', c', d', ha' ha, hb' hb, hc' hc, hd' hd, ?_, hnames, rfl, by simp⟩⟩
  rintro rfl
  exact hne hn.symm

theorem pieces_spell_append {u : α} (hu : Spells B B' spell u) {l : List β}
    (h : B'.holeAt (spell u ++ l) = none) :
    B'.pieces (spell u ++ l) = (spell u).map .lit ++ B'.pieces l := by
  have hbracket : ∀ b, spell u = [b] →
      B'.pieces (spell u ++ l) = (spell u).map .lit ++ B'.pieces l := by
    intro b hb
    rw [hb] at h ⊢
    exact pieces_cons h
  by_cases hopen : B.isOpen u = true
  · obtain ⟨b, hb, -⟩ := hu.isOpen hopen
    exact hbracket b hb
  by_cases hclose : B.isClose u = true
  · obtain ⟨b, hb, -⟩ := hu.isClose hclose
    exact hbracket b hb
  obtain ⟨-, hnames⟩ := hu.isName (by simp [isName, hopen, hclose])
  exact pieces_append_of_isName hnames l

theorem pieces_flatMap_append (hspell : ∀ a ∈ us, Spells B B' spell a)
    (hys : ∀ y ∈ ys.head?, B'.isName y = true)
    (hsep : ∀ inner ∈ B'.holes (us.flatMap spell ++ ys), ∀ y ∈ ys.head?, y ∉ inner) :
    B'.pieces (us.flatMap spell ++ ys) = (B.pieces us).flatMap (Piece.expand spell) ++
      B'.pieces ys := by
  induction hn : us.length using Nat.strong_induction_on generalizing us with
  | _ n ih =>
    rcases hus : B.holeAt us with _ | m
    · rcases us with _ | ⟨u, us⟩
      · simp
      -- Without a hole at the front, there is none in the spelled template either.
      have hnone : B'.holeAt ((u :: us).flatMap spell ++ ys) = none := by
        rw [Option.eq_none_iff_forall_ne_some]
        intro m hm
        have hmem : m.inner ∈ B'.holes ((u :: us).flatMap spell ++ ys) := by
          rw [holes_of_holeAt hm]
          exact mem_cons_self
        obtain ⟨n, hn⟩ := exists_holeAt_of_flatMap_append hspell hys (hsep m.inner hmem) hm
        rw [hus] at hn
        cases hn
      rw [flatMap_cons, append_assoc] at hnone hsep ⊢
      have hpieces := pieces_spell_append (hspell u mem_cons_self) hnone
      have hholes : B'.holes (spell u ++ (us.flatMap spell ++ ys)) =
          B'.holes (us.flatMap spell ++ ys) := by
        rw [holes, hpieces, filterMap_append, holes, filterMap_map]
        simp [Function.comp_def, Piece.holeName]
      rw [hpieces, pieces_cons hus, flatMap_cons, Piece.expand, append_assoc]
      congr 1
      refine ih us.length (by simp [← hn]) (fun a ha => hspell a (mem_cons_of_mem _ ha)) ?_ rfl
      rwa [← hholes]
    · have hm := holeAt_flatMap_append hspell hus ys
      have hlt := length_rest_lt hus
      rw [holes_of_holeAt hm] at hsep
      rw [pieces_of_holeAt hm, pieces_of_holeAt hus, flatMap_cons, Piece.expand, singleton_append,
        cons_append]
      congr 1
      refine ih m.rest.length (hn ▸ hlt) (fun a ha => hspell a ?_) ?_ rfl
      · obtain ⟨-, -, -, -, -, -, -, -, -, -, -, hl⟩ := holeAt_eq_some_iff.1 hus
        rw [hl]
        exact mem_append_right _ ha
      · exact fun inner hinner => hsep inner (mem_cons_of_mem _ hinner)

end Brackets

/-! ## Filling the holes -/

namespace Piece

variable {α β : Type*}

def source : Piece α → List α
  | .lit a => [a]
  | .hole whole _ => whole

def fill (g : List α → List α → List α → List α) : List α → List (Piece α) → List α
  | _, [] => []
  | before, .lit a :: ps => a :: fill g (before ++ [a]) ps
  | before, .hole whole inner :: ps => g before whole inner ++ fill g (before ++ whole) ps

theorem fill_append (g : List α → List α → List α → List α) (before : List α)
    (ps qs : List (Piece α)) :
    fill g before (ps ++ qs) = fill g before ps ++ fill g (before ++ ps.flatMap source) qs := by
  induction ps generalizing before with
  | nil => simp [fill]
  | cons p ps ih =>
    rcases p with a | ⟨whole, inner⟩
    · rw [cons_append, fill, ih, fill, cons_append]
      simp [source]
    · rw [cons_append, fill, ih, fill, append_assoc]
      simp [source]

theorem fill_map_lit (g : List α → List α → List α → List α) (before xs : List α) :
    fill g before (xs.map .lit) = xs := by
  induction xs generalizing before with
  | nil => rfl
  | cons x xs ih => rw [map_cons, fill, ih]

theorem flatMap_source_map_lit (xs : List α) : (xs.map Piece.lit).flatMap source = xs := by
  simp [flatMap_map, source]

theorem flatMap_source_pieces (B : Brackets α) (l : List α) : (B.pieces l).flatMap source = l := by
  fun_induction B.pieces l with
  | case1 l m h ih =>
    obtain ⟨-, -, -, -, -, -, -, -, -, -, -, hl⟩ := Brackets.holeAt_eq_some_iff.1 h
    rw [flatMap_cons, source, ih, ← hl]
  | case2 => rfl
  | case3 a t h ih => rw [flatMap_cons, source, ih, singleton_append]

variable {ps : List (Piece α)}

theorem forall_mem_fill {P : α → Prop} {g : List α → List α → List α → List α}
    (hsource : ∀ x ∈ ps.flatMap source, P x)
    (hg : ∀ before whole inner, .hole whole inner ∈ ps → ∀ x ∈ g before whole inner, P x)
    (before : List α) : ∀ x ∈ fill g before ps, P x := by
  induction ps generalizing before with
  | nil => simp [fill]
  | cons p ps ih =>
    rw [flatMap_cons, forall_mem_append] at hsource
    have ih := ih hsource.2 fun before whole inner h => hg before whole inner (mem_cons_of_mem _ h)
    rcases p with a | ⟨whole, inner⟩
    · exact forall_mem_cons.2 ⟨hsource.1 a (mem_singleton.2 rfl), ih _⟩
    · exact forall_mem_append.2 ⟨hg before whole inner mem_cons_self, ih _⟩

theorem fill_flatMap_expand {spell : α → List β} {f : List α → List α → List α → List α}
    {g : List β → List β → List β → List β} (before : List β) (pre : List α)
    (hfg : ∀ pre whole inner, .hole whole inner ∈ ps →
      g (before ++ pre.flatMap spell) (whole.flatMap spell) (inner.flatMap spell) =
        (f pre whole inner).flatMap spell) :
    fill g (before ++ pre.flatMap spell) (ps.flatMap (expand spell)) =
      (fill f pre ps).flatMap spell := by
  induction ps generalizing pre with
  | nil => rfl
  | cons p ps ih =>
    have ih := fun pre => ih pre fun pre whole inner h => hfg pre whole inner (mem_cons_of_mem _ h)
    rcases p with a | ⟨whole, inner⟩
    · rw [flatMap_cons, expand, fill_append, fill_map_lit, flatMap_source_map_lit, fill,
        flatMap_cons, ← ih]
      simp
    · rw [flatMap_cons, expand, singleton_append, fill, fill, flatMap_append, ← ih,
        hfg pre whole inner mem_cons_self]
      simp

end Piece

end Lib
