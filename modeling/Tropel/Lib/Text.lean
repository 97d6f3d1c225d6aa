import Tropel.Lib.Rust

/-!
# Splitting text

Cutting a text at the characters of a class (`words`, as `split_whitespace`), and at a character
that stands twice (`splitTwice`, as `split("&&")`).
-/

namespace Lib

open List

/-! ## Trimming -/

section

variable {α : Type*} (p : α → Bool)

def trimMatches (t : List α) : List α := (t.dropWhile p).rdropWhile p

def Unpadded (t : List α) : Prop := (∀ c ∈ t.head?, p c = false) ∧ ∀ c ∈ t.getLast?, p c = false

variable {t : List α}

theorem trimMatches_eq_self {p : α → Bool} (h : Unpadded p t) : trimMatches p t = t := by
  have hdrop : t.dropWhile p = t := by
    cases t with
    | nil => rfl
    | cons c t => exact dropWhile_cons_of_neg (by simp [h.1 c rfl])
  rw [trimMatches, hdrop, rdropWhile_eq_self_iff]
  intro hne
  rw [h.2 _ (getLast?_eq_some_getLast hne)]
  exact Bool.false_ne_true

theorem unpadded_trimMatches (t : List α) : Unpadded p (trimMatches p t) := by
  constructor
  · intro c hc
    obtain ⟨u, hu⟩ := rdropWhile_prefix p (t.dropWhile p)
    -- what is left of the text begins where the first cut does
    have hhead : (t.dropWhile p).head? = some c := by
      rw [← hu]
      exact mem_head?_append_of_mem_head? hc
    have hne : t.dropWhile p ≠ [] := fun hnil => by simp [hnil] at hhead
    have hnot := head_dropWhile_not p hne
    rwa [(head_eq_iff_head?_eq_some hne).2 hhead] at hnot
  · intro c hc
    have hne : trimMatches p t ≠ [] := ne_nil_of_mem (mem_of_mem_getLast? hc)
    have hnot := rdropWhile_last_not p (t.dropWhile p) hne
    rw [Bool.not_eq_true] at hnot
    rwa [← (getLast_eq_iff_getLast?_eq_some hne).2 hc]

theorem trimMatches_isInfix (t : List α) : trimMatches p t <:+: t :=
  (List.rdropWhile_prefix _ _).isInfix.trans (dropWhile_suffix _).isInfix

theorem trimMatches_congr {p q : α → Bool} (h : ∀ c ∈ t, p c = q c) :
    trimMatches p t = trimMatches q t := by
  have hdrop {u : List α} (hu : ∀ c ∈ u, p c = q c) : u.dropWhile p = u.dropWhile q := by
    induction u with
    | nil => rfl
    | cons c u ih =>
      rw [forall_mem_cons] at hu
      rw [dropWhile_cons, dropWhile_cons, hu.1, ih hu.2]
  rw [trimMatches, trimMatches, hdrop h, List.rdropWhile, List.rdropWhile, hdrop]
  intro c hc
  exact h c ((dropWhile_sublist _).mem (mem_reverse.1 hc))

end

variable {t a b sep l w acc u : Text} {c x : Char} {ls ts : List Text}

theorem trim_eq_of_ends (hhead : ∀ c ∈ t.head?, isWhitespace c = false)
    (hlast : ∀ c ∈ t.getLast?, isWhitespace c = false) :
    trim t = t := trimMatches_eq_self ⟨hhead, hlast⟩

theorem trim_eq_self (h : ∀ c ∈ t, isWhitespace c = false) : trim t = t :=
  trim_eq_of_ends (fun c hc => h c (mem_of_mem_head? hc)) fun c hc => h c (mem_of_mem_getLast? hc)

theorem splitOnce_append (h : c ∉ a) (b : Text) : splitOnce c (a ++ c :: b) = some (a, b) := by
  induction a with
  | nil => exact if_pos rfl
  | cons x a ih =>
    rw [mem_cons, not_or] at h
    rw [cons_append, splitOnce, if_neg (Ne.symm h.1), ih h.2, Option.map_some]

theorem splitOnce_eq_some (h : splitOnce c t = some (a, b)) : t = a ++ c :: b ∧ c ∉ a := by
  induction t generalizing a with
  | nil => cases h
  | cons x t ih =>
    rw [splitOnce] at h
    split at h
    next hx =>
      cases h
      exact ⟨by rw [hx]; rfl, not_mem_nil⟩
    next hx =>
      obtain ⟨⟨a', b'⟩, hsplit, hab⟩ := Option.map_eq_some_iff.1 h
      cases hab
      obtain ⟨rfl, ha'⟩ := ih hsplit
      exact ⟨rfl, mt mem_cons.1 (not_or.2 ⟨Ne.symm hx, ha'⟩)⟩

theorem not_mem_of_splitOnce_eq_none (h : splitOnce c t = none) : c ∉ t := by
  intro hmem
  obtain ⟨a, b, rfl, ha⟩ := eq_append_cons_of_mem hmem
  rw [splitOnce_append ha] at h
  cases h

theorem splitOnce_eq_none (h : c ∉ t) : splitOnce c t = none := by
  induction t with
  | nil => rfl
  | cons x t ih =>
    rw [mem_cons, not_or] at h
    rw [splitOnce, if_neg (Ne.symm h.1), ih h.2, Option.map_none]

theorem append_cons_inj_of_not_mem {a a' b b' : Text} (ha : c ∉ a) (ha' : c ∉ a') :
    a ++ c :: b = a' ++ c :: b' ↔ a = a' ∧ b = b' := by
  constructor
  · intro h
    have hsplit := splitOnce_append ha b
    rw [h, splitOnce_append ha' b'] at hsplit
    obtain ⟨rfl, rfl⟩ := Prod.mk.inj (Option.some.inj hsplit)
    exact ⟨rfl, rfl⟩
  · rintro ⟨rfl, rfl⟩
    rfl

def splitOncePattern {α : Type*} [DecidableEq α] (p : List α) : List α → Option (List α × List α)
  | [] => none
  | x :: t =>
    if p.isPrefixOf (x :: t) then some ([], (x :: t).drop p.length)
    else (splitOncePattern p t).map fun q => (x :: q.1, q.2)

theorem splitOncePattern_append {α : Type*} [DecidableEq α] {x : α} {p a : List α} (h : x ∉ a)
    (b : List α) :
    splitOncePattern (x :: p) (a ++ (x :: p ++ b)) = some (a, b) := by
  induction a with
  | nil =>
    rw [nil_append, cons_append, splitOncePattern, ← cons_append, if_pos, drop_left]
    exact isPrefixOf_iff_prefix.2 (prefix_append _ _)
  | cons y a ih =>
    rw [mem_cons, not_or] at h
    obtain ⟨hy, ha⟩ := h
    rw [cons_append, splitOncePattern, if_neg, ih ha, Option.map_some]
    rw [List.isPrefixOf_iff_prefix, cons_prefix_cons]
    exact fun h => hy h.1

theorem trim_append_left (ha : ∀ c ∈ a, isWhitespace c) (t : Text) : trim (a ++ t) = trim t := by
  rw [trim, dropWhile_append_of_pos ha, trim]

theorem trim_append_right (t : Text) (hb : ∀ c ∈ b, isWhitespace c) : trim (t ++ b) = trim t := by
  have hright : ∀ u : Text, (u ++ b).rdropWhile isWhitespace = u.rdropWhile isWhitespace := by
    intro u
    rw [List.rdropWhile, reverse_append, dropWhile_append_of_pos, List.rdropWhile]
    intro c hc
    exact hb c (mem_reverse.1 hc)
  rw [trim, trim, dropWhile_append]
  split
  next h =>
    rw [List.isEmpty_iff.1 h, dropWhile_eq_nil_iff.2 hb]
  next => exact hright _

theorem exists_trim (t : Text) : ∃ a b, t = a ++ (trim t ++ b) ∧ (∀ c ∈ a, isWhitespace c) ∧
    ∀ c ∈ b, isWhitespace c := by
  refine ⟨t.takeWhile isWhitespace, (t.dropWhile isWhitespace).rtakeWhile isWhitespace, ?_, ?_, ?_⟩
  · rw [trim, rdropWhile_append_rtakeWhile, takeWhile_append_dropWhile]
  · intro c hc
    exact mem_takeWhile_imp hc
  · intro c hc
    exact mem_rtakeWhile_imp hc

theorem trim_trim (t : Text) : trim (trim t) = trim t := by
  obtain ⟨a, b, ht, ha, hb⟩ := exists_trim t
  have h := congrArg trim ht
  rw [trim_append_left ha, trim_append_right _ hb] at h
  exact h.symm

theorem isInfix_intercalate (hl : l ∈ ls) : l <:+: sep.intercalate ls := by
  induction ls with
  | nil => cases hl
  | cons a ls ih =>
    rcases mem_cons.1 hl with rfl | hl
    · cases ls with
      | nil => exact intercalate_singleton.symm ▸ infix_rfl
      | cons b ls =>
        rw [intercalate_cons_cons, append_assoc]
        exact (prefix_append _ _).isInfix
    · rw [intercalate_cons_of_ne_nil (ne_nil_of_mem hl)]
      exact (ih hl).trans (suffix_append _ _).isInfix

theorem mem_intercalate (hl : l ∈ ls) (hc : c ∈ l) : c ∈ sep.intercalate ls :=
  (isInfix_intercalate hl).subset hc

theorem of_mem_intercalate (hc : c ∈ sep.intercalate ls) : c ∈ sep ∨ ∃ l ∈ ls, c ∈ l := by
  induction ls with
  | nil => cases hc
  | cons a ls ih =>
    by_cases hls : ls = []
    · rw [hls, intercalate_singleton] at hc
      exact Or.inr ⟨a, mem_cons_self, hc⟩
    · rw [intercalate_cons_of_ne_nil hls, append_assoc, mem_append, mem_append] at hc
      rcases hc with hc | hc | hc
      · exact Or.inr ⟨a, mem_cons_self, hc⟩
      · exact Or.inl hc
      · exact (ih hc).imp_right fun ⟨l, hl, hc⟩ => ⟨l, mem_cons_of_mem _ hl, hc⟩

theorem isInfix_of_mem_splitOn {t part : Text} (hpart : part ∈ t.splitOn x) : part <:+: t := by
  have hinfix : part <:+: [x].intercalate (t.splitOn x) := isInfix_intercalate hpart
  rwa [intercalate_splitOn] at hinfix

theorem not_mem_of_mem_splitOn : ∀ part ∈ t.splitOn x, x ∉ part := by
  induction t with
  | nil => simp [List.splitOn]
  | cons c t ih =>
    rw [splitOn_cons_eq_if_modifyHead]
    split
    · exact forall_mem_cons.2 ⟨not_mem_nil, ih⟩
    next hc =>
      cases hsplit : t.splitOn x with
      | nil => exact forall_mem_nil _
      | cons head parts =>
        rw [hsplit, forall_mem_cons] at ih
        refine forall_mem_cons.2 ⟨?_, ih.2⟩
        rw [mem_cons, not_or]
        exact ⟨fun heq => hc (beq_iff_eq.2 heq.symm), ih.1⟩

/-! ## Words -/

def wordsFrom (p : Char → Bool) (acc : Text) : Text → List Text
  | [] => if acc = [] then [] else [acc]
  | c :: t =>
    if p c then if acc = [] then wordsFrom p [] t else acc :: wordsFrom p [] t
    else wordsFrom p (acc ++ [c]) t

def words (p : Char → Bool) (t : Text) : List Text := wordsFrom p [] t

def splitWhitespace (t : Text) : List Text := words isWhitespace t

variable {p : Char → Bool}

theorem words_append_left (ha : ∀ c ∈ a, p c) (t : Text) : words p (a ++ t) = words p t := by
  induction a with
  | nil => rfl
  | cons x a ih =>
    rw [← ih fun c hc => ha c (mem_cons_of_mem _ hc), words, cons_append, wordsFrom,
      if_pos (ha x mem_cons_self), if_pos rfl, words]

theorem wordsFrom_append_right (acc t : Text) (hb : ∀ c ∈ b, p c) :
    wordsFrom p acc (t ++ b) = wordsFrom p acc t := by
  induction t generalizing acc with
  | nil =>
    cases b with
    | nil => rfl
    | cons x b =>
      have hrest : wordsFrom p [] b = [] := by
        have := words_append_left (fun c hc => hb c (mem_cons_of_mem _ hc)) []
        rwa [append_nil] at this
      change (if p x then if acc = [] then wordsFrom p [] b else acc :: wordsFrom p [] b
        else wordsFrom p (acc ++ [x]) b) = _
      rw [if_pos (hb x mem_cons_self), hrest, wordsFrom]
  | cons x t ih => rw [cons_append, wordsFrom, wordsFrom, ih, ih]

theorem splitWhitespace_trim (t : Text) : splitWhitespace (trim t) = splitWhitespace t := by
  obtain ⟨a, b, ht, ha, hb⟩ := exists_trim t
  conv_rhs => rw [ht, splitWhitespace, words_append_left ha, words, wordsFrom_append_right _ _ hb]
  rfl

theorem not_of_mem_wordsFrom (hacc : ∀ c ∈ acc, p c = false) (hw : w ∈ wordsFrom p acc t) :
    ∀ c ∈ w, p c = false := by
  induction t generalizing acc with
  | nil =>
    rw [wordsFrom] at hw
    split at hw
    · cases hw
    · exact mem_singleton.1 hw ▸ hacc
  | cons x t ih =>
    rw [wordsFrom] at hw
    split_ifs at hw with hx hnil
    · exact ih (fun c hc => absurd hc not_mem_nil) hw
    · rcases mem_cons.1 hw with rfl | hw
      · exact hacc
      · exact ih (fun c hc => absurd hc not_mem_nil) hw
    · refine ih (fun c hc => ?_) hw
      rcases mem_append.1 hc with hc | hc
      · exact hacc c hc
      · exact mem_singleton.1 hc ▸ Bool.eq_false_iff.2 hx

/-! ## A character that stands twice -/

def consHead (c : Char) : List Text → List Text
  | [] => [[c]]
  | g :: gs => (c :: g) :: gs

def splitTwice (c : Char) : Text → List Text
  | [] => [[]]
  | [x] => [[x]]
  | x :: y :: t =>
    if x = c ∧ y = c then [] :: splitTwice c t else consHead x (splitTwice c (y :: t))

theorem splitTwice_cons_cons {c x y : Char} (h : ¬ (x = c ∧ y = c)) (t : Text) :
    splitTwice c (x :: y :: t) = consHead x (splitTwice c (y :: t)) := by
  rw [splitTwice, if_neg h]

theorem exists_splitTwice_cons (c y : Char) (t : Text) :
    ∃ g gs, splitTwice c (y :: t) = g :: gs ∧ (g = [] ∨ ∃ g', g = y :: g') := by
  induction t generalizing y with
  | nil => exact ⟨[y], [], rfl, .inr ⟨[], rfl⟩⟩
  | cons z t ih =>
    rw [splitTwice]
    split
    · exact ⟨[], _, rfl, .inl rfl⟩
    · obtain ⟨g, gs, h, -⟩ := ih z
      rw [h]
      exact ⟨y :: g, gs, rfl, .inr ⟨g, rfl⟩⟩

def hasTwice (c : Char) : Text → Bool
  | [] => false
  | [_] => false
  | x :: y :: t => (x = c && y = c) || hasTwice c (y :: t)

theorem splitTwice_of_not_hasTwice (h : hasTwice c t = false) : splitTwice c t = [t] := by
  induction t with
  | nil => rfl
  | cons x t ih =>
    cases t with
    | nil => rfl
    | cons y t =>
      rw [hasTwice, Bool.or_eq_false_iff, Bool.and_eq_false_iff] at h
      rw [splitTwice, if_neg, ih h.2, consHead]
      rintro ⟨rfl, rfl⟩
      simp at h

theorem hasTwice_append_cons (hx : x ≠ c) (a b : Text) :
    hasTwice c (a ++ x :: b) = (hasTwice c a || hasTwice c b) := by
  induction a with
  | nil =>
    cases b with
    | nil => rfl
    | cons y b => simp [hasTwice, hx]
  | cons z a ih =>
    cases a with
    | nil =>
      rw [nil_append] at ih
      simp [hasTwice, ih, hx]
    | cons z' a =>
      rw [cons_append, cons_append, hasTwice, ← cons_append, ih, hasTwice, Bool.or_assoc]

theorem hasTwice_of_mem_wordsFrom (hc : p c = false)
    (hw : w ∈ wordsFrom p acc t) (h : hasTwice c w) : hasTwice c (acc ++ t) := by
  induction t generalizing acc with
  | nil =>
    rw [wordsFrom] at hw
    split at hw
    · cases hw
    · rw [append_nil, ← mem_singleton.1 hw, h]
  | cons x t ih =>
    rw [wordsFrom] at hw
    split_ifs at hw with hx hnil
    · have hne : x ≠ c := by
        rintro rfl
        exact Bool.false_ne_true (hc.symm.trans hx)
      rw [hasTwice_append_cons hne, Bool.or_eq_true]
      exact .inr (ih hw)
    · have hne : x ≠ c := by
        rintro rfl
        exact Bool.false_ne_true (hc.symm.trans hx)
      rw [hasTwice_append_cons hne, Bool.or_eq_true]
      rcases mem_cons.1 hw with rfl | hw
      · exact .inl h
      · exact .inr (ih hw)
    · have := ih hw
      rwa [append_assoc] at this

theorem hasTwice_append_left (ha : ∀ x ∈ a, x ≠ c) (t : Text) :
    hasTwice c (a ++ t) = hasTwice c t := by
  induction a with
  | nil => rfl
  | cons x a ih =>
    rw [cons_append, ← nil_append (x :: (a ++ t)),
      hasTwice_append_cons (ha x mem_cons_self), ih fun y hy => ha y (mem_cons_of_mem _ hy)]
    rfl

theorem hasTwice_append_right (t : Text) (hb : ∀ x ∈ b, x ≠ c) :
    hasTwice c (t ++ b) = hasTwice c t := by
  cases b with
  | nil => rw [append_nil]
  | cons x b =>
    rw [hasTwice_append_cons (hb x mem_cons_self), ← append_nil b,
      hasTwice_append_left fun y hy => hb y (mem_cons_of_mem _ hy)]
    exact Bool.or_false _

theorem hasTwice_trim (hc : isWhitespace c = false) (t : Text) :
    hasTwice c (trim t) = hasTwice c t := by
  have hne : ∀ x, isWhitespace x → x ≠ c := by
    rintro x hx rfl
    exact Bool.false_ne_true (hc.symm.trans hx)
  obtain ⟨a, b, ht, ha, hb⟩ := exists_trim t
  conv_rhs => rw [ht]
  rw [hasTwice_append_left fun x hx => hne x (ha x hx),
    hasTwice_append_right _ fun x hx => hne x (hb x hx)]

theorem not_mem_intercalate {d : Char} (hsep : d ∉ sep) (h : ∀ t ∈ ts, d ∉ t) :
    d ∉ sep.intercalate ts := by
  induction ts with
  | nil => exact not_mem_nil
  | cons t ts ih =>
    obtain ⟨ht, hts⟩ := forall_mem_cons.1 h
    cases ts with
    | nil => rwa [intercalate_singleton]
    | cons t' ts =>
      rw [intercalate_cons_cons, mem_append, mem_append, not_or, not_or]
      exact ⟨⟨ht, hsep⟩, ih hts⟩

def Padded (u t : Text) : Prop :=
  ∃ a b, (∀ c ∈ a, isWhitespace c) ∧ (∀ c ∈ b, isWhitespace c) ∧ u = a ++ t ++ b

theorem Padded.refl (t : Text) : Padded t t :=
  ⟨[], [], forall_mem_nil _, forall_mem_nil _, (append_nil t).symm⟩

theorem Padded.trim_eq (h : Padded u t) : trim u = trim t := by
  obtain ⟨a, b, ha, hb, rfl⟩ := h
  rw [trim_append_right _ hb, trim_append_left ha]

def splitOnceTwice (c : Char) : Text → Option (Text × Text)
  | [] => none
  | [_] => none
  | x :: y :: t =>
    if x = c ∧ y = c then some ([], t) else (splitOnceTwice c (y :: t)).map fun p => (x :: p.1, p.2)

theorem length_lt_of_splitOnceTwice (h : splitOnceTwice c t = some (a, b)) :
    b.length < t.length := by
  induction t generalizing a with
  | nil => cases h
  | cons x t ih =>
    cases t with
    | nil => cases h
    | cons y t =>
      rw [splitOnceTwice] at h
      split at h
      · cases h
        exact Nat.lt_add_of_pos_right Nat.two_pos
      · obtain ⟨⟨a', b'⟩, h', heq⟩ := Option.map_eq_some_iff.1 h
        cases heq
        exact (ih h').trans (Nat.lt_succ_self _)

theorem splitOnceTwice_append (h : hasTwice c (a ++ [c]) = false) (b : Text) :
    splitOnceTwice c (a ++ c :: c :: b) = some (a, b) := by
  induction a with
  | nil => exact if_pos ⟨rfl, rfl⟩
  | cons x a ih =>
    cases a with
    | nil =>
      have hx : ¬ (x = c ∧ c = c) := by simpa [hasTwice] using h
      rw [cons_append, nil_append, splitOnceTwice, if_neg hx, ← nil_append (c :: c :: b), ih rfl]
      rfl
    | cons y a =>
      rw [cons_append, cons_append, hasTwice, Bool.or_eq_false_iff] at h
      have hxy : ¬ (x = c ∧ y = c) := by simpa using h.1
      rw [cons_append, cons_append, splitOnceTwice, if_neg hxy, ← cons_append, ih h.2]
      rfl

/-! ## Lines -/

def stripReturn (line : Text) : Text := (stripSuffix '\r' line).getD line

def linesFrom (acc : Text) : Text → List Text
  | [] => if acc = [] then [] else [acc]
  | c :: t => if c = '\n' then stripReturn acc :: linesFrom [] t else linesFrom (acc ++ [c]) t

def lines (t : Text) : List Text := linesFrom [] t

theorem not_mem_of_mem_linesFrom (hacc : '\n' ∉ acc) : ∀ l ∈ linesFrom acc t, '\n' ∉ l := by
  induction t generalizing acc with
  | nil =>
    rw [linesFrom]
    split
    · exact forall_mem_nil _
    · exact forall_mem_singleton.2 hacc
  | cons c t ih =>
    rw [linesFrom]
    split
    · refine forall_mem_cons.2 ⟨?_, ih not_mem_nil⟩
      rw [stripReturn, stripSuffix]
      split
      · exact fun h => hacc (dropLast_subset _ h)
      · exact hacc
    next hc => exact ih (by simp [hacc, Ne.symm hc])

theorem linesFrom_append (hl : '\n' ∉ l) (acc t : Text) :
    linesFrom acc (l ++ t) = linesFrom (acc ++ l) t := by
  induction l generalizing acc with
  | nil => rw [nil_append, append_nil]
  | cons c l ih =>
    rw [mem_cons, not_or] at hl
    rw [cons_append, linesFrom, if_neg (Ne.symm hl.1), ih hl.2, append_assoc, singleton_append]

theorem lines_flatMap (h : ∀ l ∈ ls, '\n' ∉ l) :
    lines (ls.flatMap fun l => l ++ ['\r', '\n']) = ls := by
  induction ls with
  | nil => rfl
  | cons l ls ih =>
    obtain ⟨hl, hls⟩ := forall_mem_cons.1 h
    rw [flatMap_cons, lines, append_assoc, linesFrom_append hl, nil_append, cons_append,
      linesFrom, if_neg (by decide), cons_append, linesFrom, if_pos rfl]
    have hstrip : stripReturn (l ++ ['\r']) = l := by simp [stripReturn, stripSuffix]
    rw [hstrip]
    exact congrArg _ (ih hls)

theorem lines_unlines (h : ∀ l ∈ ls, '\n' ∉ l ∧ l.getLast? ≠ some '\r') :
    lines (ls.flatMap fun l => l ++ ['\n']) = ls := by
  induction ls with
  | nil => rfl
  | cons l ls ih =>
    obtain ⟨⟨hl, hlast⟩, hls⟩ := forall_mem_cons.1 h
    rw [flatMap_cons, lines, append_assoc, linesFrom_append hl, nil_append, cons_append,
      linesFrom, if_pos rfl, stripReturn, stripSuffix, if_neg hlast]
    exact congrArg _ (ih hls)

/-! ## Case -/

def toAsciiLowercase (t : Text) : Text := t.map Char.toLower

theorem isAlpha_iff : c.isAlpha = true ↔ (65 ≤ c.toNat ∧ c.toNat ≤ 90) ∨
    (97 ≤ c.toNat ∧ c.toNat ≤ 122) := by
  unfold Char.isAlpha Char.isUpper Char.isLower
  simp only [UInt32.le_iff_toNat_le, Bool.or_eq_true, Bool.and_eq_true, decide_eq_true_eq,
    ge_iff_le]
  rfl

theorem toLower_of_not_isAlpha (h : c.isAlpha = false) : c.toLower = c := by
  refine dif_neg (c := c.val ≥ 'A'.val ∧ c.val ≤ 'Z'.val) fun hup => ?_
  rw [Bool.eq_false_iff, Ne, isAlpha_iff] at h
  simp only [UInt32.le_iff_toNat_le, ge_iff_le] at hup
  exact h (.inl hup)

theorem isAlpha_toLower (c : Char) : c.toLower.isAlpha = c.isAlpha := by
  by_cases hup : c.val ≥ 'A'.val ∧ c.val ≤ 'Z'.val
  · have hrange : 65 ≤ c.toNat ∧ c.toNat ≤ 90 :=
      ⟨UInt32.le_iff_toNat_le.1 hup.1, UInt32.le_iff_toNat_le.1 hup.2⟩
    have hlow : c.toLower.toNat = c.toNat + 32 := by
      unfold Char.toLower
      rw [dif_pos hup]
      change (c.val + 32).toNat = c.toNat + 32
      have h32 : (32 : UInt32).toNat = 32 := rfl
      have hval : c.val.toNat = c.toNat := rfl
      rw [UInt32.toNat_add]
      omega
    rw [Bool.eq_iff_iff, isAlpha_iff, isAlpha_iff, hlow]
    omega
  · unfold Char.toLower
    rw [dif_neg hup]

theorem mem_toAsciiLowercase (hc : c.isAlpha = false) : c ∈ toAsciiLowercase t ↔ c ∈ t := by
  rw [toAsciiLowercase, mem_map]
  constructor
  · rintro ⟨d, hd, rfl⟩
    rw [isAlpha_toLower] at hc
    rwa [toLower_of_not_isAlpha hc]
  · exact fun h => ⟨c, h, toLower_of_not_isAlpha hc⟩

def toAsciiUppercase (t : Text) : Text := t.map Char.toUpper

theorem isAlpha_toUpper_or (c : Char) : c.toUpper.isAlpha = true ∨ c.toUpper = c := by
  by_cases hlow : c.val ≥ 'a'.val ∧ c.val ≤ 'z'.val
  · have hrange : 97 ≤ c.toNat ∧ c.toNat ≤ 122 :=
      ⟨UInt32.le_iff_toNat_le.1 hlow.1, UInt32.le_iff_toNat_le.1 hlow.2⟩
    have hup : c.toUpper.toNat = c.toNat - 32 := by
      unfold Char.toUpper
      rw [dif_pos hlow]
      change (c.val + ('A'.val - 'a'.val)).toNat = c.toNat - 32
      have hdiff : ('A'.val - 'a'.val).toNat = 2 ^ 32 - 32 := rfl
      have hval : c.val.toNat = c.toNat := rfl
      rw [UInt32.toNat_add, hdiff]
      omega
    rw [isAlpha_iff, hup]
    omega
  · right
    unfold Char.toUpper
    rw [dif_neg hlow]

def stripStart (w : Text) (t : Text) : Option Text :=
  if w.isPrefixOf t then some (t.drop w.length) else none

theorem stripStart_append (w t : Text) : stripStart w (w ++ t) = some t := by
  rw [stripStart, if_pos (List.isPrefixOf_iff_prefix.2 (prefix_append w t)), drop_left]

theorem stripStart_eq_some {w t s : Text} (h : stripStart w t = some s) : t = w ++ s := by
  obtain ⟨hpre, hs⟩ := Option.ite_none_right_eq_some.1 h
  obtain ⟨r, rfl⟩ := isPrefixOf_iff_prefix.1 hpre
  rw [drop_left] at hs
  cases hs
  rfl

theorem append_inj_of_class {p : Char → Bool} {t t' x y : Text} (ht : ∀ c ∈ t, p c = true)
    (ht' : ∀ c ∈ t', p c = true) (hx : ∀ c ∈ x.head?, p c = false) (hy : ∀ c ∈ y.head?, p c = false)
    (h : t ++ x = t' ++ y) : t = t' ∧ x = y := by
  have htake : ∀ {t x : Text}, (∀ c ∈ t, p c = true) → (∀ c ∈ x.head?, p c = false) →
      (t ++ x).takeWhile p = t := by
    intro t x ht hx
    rw [takeWhile_append_of_pos ht]
    cases x with
    | nil => exact append_nil t
    | cons c x => rw [takeWhile_cons_of_neg (by simp [hx c rfl]), append_nil]
  have heq : t = t' := by rw [← htake ht hx, h, htake ht' hy]
  subst heq
  exact ⟨rfl, append_cancel_left h⟩

end Lib
