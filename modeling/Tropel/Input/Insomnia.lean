import Mathlib.Data.Bool.AllAny
import Tropel.Lib.Decimal
import Tropel.Lib.Encodings
import Tropel.Lib.Pattern

/-!
# Insomnia exports

The templates of Insomnia are written `{{ _.name }}`. `normalizeVariables` goes through the bytes of
a text and takes each of them for a character; between `{{` and the next `}}` it drops the blanks,
and every underscore and dot with them.

* `normalizeVariables_pieces`: a text is cut into characters and closed templates (`pieces`), each
  of which is rewritten by itself;
* `normalizeVariables_iff`: a piece is rewritten as it should be (`Piece.Right`) exactly if it is
  plain: a character of ASCII, or a template whose name has no underscore and no dot.
-/

namespace Tropel.Insomnia

open Lib List

/-! ## Templates -/

def isAsciiWhitespace (c : Char) : Bool := c = ' ' || c = '\t' || c = '\n' || c = '\x0c' || c = '\r'

/-- What is kept of a template: `!c.is_ascii_whitespace() && c != b'_' && c != b'.'`. -/
def isKept (c : Char) : Bool := !isAsciiWhitespace c && c ≠ '_' && c ≠ '.'

/-- What is kept up to the next `}}`, and the number of bytes up to its end. -/
def closing : Text → Option (Text × ℕ)
  | c :: d :: t =>
    if c = '}' ∧ d = '}' then some ([], 2)
    else (closing (d :: t)).map fun (inner, n) => (if isKept c then c :: inner else inner, n + 1)
  | _ => none

def template : Text → Option (Text × ℕ)
  | '{' :: '{' :: t => closing t
  | _ => none

def normalize : ℕ → Text → Text
  | _, [] => []
  | k + 1, _ :: t => normalize k t
  | 0, c :: t =>
    match template (c :: t) with
    | some (inner, n) => ['{', '{'] ++ inner ++ ['}', '}'] ++ normalize (n + 1) t
    | none => c :: normalize 0 t

def normalizeVariables (value : Text) : Text := normalize 0 ((utf8 value).map asciiChar)

/-! ## Bytes taken for characters -/

/-- The bytes of a text, each as a character: `bytes[i] as char`. -/
def latin (t : Text) : Text := (utf8 t).map asciiChar

section

variable {c : Char} {t u inner rest name : Text}

theorem latin_append (t u : Text) : latin (t ++ u) = latin t ++ latin u := by
  rw [latin, utf8_append, map_append]
  rfl

theorem latin_cons_of_lt (hc : c.toNat < 128) (t : Text) : latin (c :: t) = c :: latin t := by
  rw [latin, utf8_cons_of_lt hc, map_cons, asciiChar_toUInt8 hc]
  rfl

theorem latin_of_ascii (h : ∀ c ∈ t, c.toNat < 128) : latin t = t := by
  induction t with
  | nil => rfl
  | cons c t ih =>
    obtain ⟨hc, ht⟩ := forall_mem_cons.1 h
    rw [latin_cons_of_lt hc, ih ht]

/-- The bytes of a character outside of ASCII: several, and no brace among them. -/
theorem latin_of_le (hc : 128 ≤ c.toNat) :
    2 ≤ (latin [c]).length ∧ ∀ d ∈ latin [c], d ≠ '{' ∧ d ≠ '}' := by
  have hbytes : utf8 [c] = String.utf8EncodeChar c := flatMap_singleton ..
  obtain ⟨hlength, hhigh⟩ := utf8EncodeChar_of_le hc
  rw [latin, hbytes, length_map]
  refine ⟨hlength, forall_mem_map.2 fun b hb => ?_⟩
  have hne {d : Char} (hd : d.toNat < 128) : asciiChar b ≠ d := by
    rintro rfl
    rw [toNat_asciiChar] at hd
    exact absurd (hhigh b hb) (by omega)
  exact ⟨hne (by decide), hne (by decide)⟩

theorem latin_singleton_eq_iff : latin [c] = [c] ↔ c.toNat < 128 := by
  refine ⟨fun h => ?_, fun h => latin_of_ascii (forall_mem_singleton.2 h)⟩
  by_contra hc
  have hlength := (latin_of_le (not_lt.1 hc)).1
  rw [h, length_singleton] at hlength
  omega

theorem head_latin {b : Char} (hb : b = '{' ∨ b = '}') :
    (latin t).head? = some b ↔ t.head? = some b := by
  cases t with
  | nil => rfl
  | cons c t =>
    by_cases hc : c.toNat < 128
    · rw [latin_cons_of_lt hc]
      rfl
    · obtain ⟨hlength, hbrace⟩ := latin_of_le (not_lt.1 hc)
      obtain ⟨d, rest, hd⟩ := exists_cons_of_length_pos (by omega : 0 < (latin [c]).length)
      rw [← singleton_append, latin_append, hd, cons_append, head?_cons, singleton_append,
        head?_cons, Option.some_inj, Option.some_inj]
      have hd' := hbrace d (hd ▸ mem_cons_self)
      refine iff_of_false ?_ ?_
      · rintro rfl
        rcases hb with rfl | rfl
        · exact hd'.1 rfl
        · exact hd'.2 rfl
      · rintro rfl
        rcases hb with rfl | rfl <;> exact hc (by decide)

/-! ## Pieces -/

/-- A character outside of every closed template, or what stands between the braces of one. -/
inductive Piece
  | outside (c : Char)
  | template (inner : Text)
  deriving DecidableEq

def Piece.text : Piece → Text
  | outside c => [c]
  | template inner => ['{', '{'] ++ inner ++ ['}', '}']

/-- The pieces of a text, after the characters to be skipped: a template begins at `{{` and ends
    with the first `}}` after it. -/
def piecesAfter : ℕ → Text → List Piece
  | _, [] => []
  | k + 1, _ :: t => piecesAfter k t
  | 0, c :: t =>
    match if ['{', '{'].isPrefixOf (c :: t) then splitOncePattern ['}', '}'] t.tail else none with
    | some (inner, _) => .template inner :: piecesAfter (inner.length + 3) t
    | none => .outside c :: piecesAfter 0 t

def pieces (t : Text) : List Piece := piecesAfter 0 t

/-- What becomes of a piece: a character is taken byte by byte, and a template loses what is not
    kept. -/
def Piece.rewritten : Piece → Text
  | outside c => latin [c]
  | template inner => ['{', '{'] ++ (latin inner).filter isKept ++ ['}', '}']

theorem piecesAfter_append (a t : Text) : piecesAfter a.length (a ++ t) = pieces t := by
  induction a with
  | nil => rfl
  | cons c a ih => rw [length_cons, cons_append, piecesAfter, ih]

theorem normalize_append (a t : Text) : normalize a.length (a ++ t) = normalize 0 t := by
  induction a with
  | nil => rfl
  | cons c a ih => rw [length_cons, cons_append, normalize, ih]

/-! ## The end of a template -/

theorem closing_cons (c : Char) (t : Text) :
    closing (c :: t) = if c = '}' ∧ t.head? = some '}' then some ([], 2)
      else (closing t).map fun q => ([c].filter isKept ++ q.1, q.2 + 1) := by
  have hkept (q : Text × ℕ) :
      (if isKept c then c :: q.1 else q.1, q.2 + 1) = ([c].filter isKept ++ q.1, q.2 + 1) := by
    by_cases h : isKept c <;> simp [h]
  cases t with
  | nil => simp [closing]
  | cons d t => simp only [closing, head?_cons, Option.some_inj, hkept]

theorem splitOncePattern_braces (c : Char) (t : Text) :
    splitOncePattern ['}', '}'] (c :: t) = if c = '}' ∧ t.head? = some '}' then some ([], t.tail)
      else (splitOncePattern ['}', '}'] t).map fun q => (c :: q.1, q.2) := by
  have hstart : ['}', '}'].isPrefixOf (c :: t) = true ↔ c = '}' ∧ t.head? = some '}' := by
    rw [List.isPrefixOf_iff_prefix, cons_prefix_cons, singleton_prefix_iff_head?_eq_some, eq_comm]
  rw [splitOncePattern]
  simp only [hstart, length_cons, length_nil, drop_succ_cons, drop_one]

theorem closing_append {a : Text} (ha : ∀ c ∈ a, c ≠ '}') (t : Text) :
    closing (a ++ t) = (closing t).map fun q => (a.filter isKept ++ q.1, q.2 + a.length) := by
  induction a with
  | nil => simp
  | cons c a ih =>
    obtain ⟨hc, ha⟩ := forall_mem_cons.1 ha
    rw [cons_append, closing_cons, if_neg fun h => hc h.1, ih ha, Option.map_map]
    congr 1
    funext q
    simp [filter_cons, Nat.add_assoc]
    split <;> rfl

/-- The first `}}` among the bytes is the one among the characters. -/
theorem closing_latin (t : Text) : closing (latin t) = (splitOncePattern ['}', '}'] t).map fun q =>
    ((latin q.1).filter isKept, (latin q.1).length + 2) := by
  induction t with
  | nil => rfl
  | cons c t ih =>
    rw [splitOncePattern_braces]
    by_cases hc : c.toNat < 128
    · rw [latin_cons_of_lt hc, closing_cons]
      simp only [head_latin (.inr rfl)]
      split_ifs
      · rfl
      · rw [ih, Option.map_map, Option.map_map]
        congr 1
        funext q
        simp only [Function.comp, latin_cons_of_lt hc, ← filter_append, singleton_append,
          length_cons, Nat.add_right_comm]
    · have hne : c ≠ '}' := by
        rintro rfl
        exact hc (by decide)
      have hcons (u : Text) : latin (c :: u) = latin [c] ++ latin u := latin_append [c] u
      rw [if_neg fun h => hne h.1, hcons,
        closing_append fun d hd => ((latin_of_le (not_lt.1 hc)).2 d hd).2, ih, Option.map_map,
        Option.map_map]
      congr 1
      funext q
      rw [Function.comp, Function.comp, hcons q.1, filter_append, length_append, Nat.add_right_comm,
        Nat.add_comm (length (latin [c]))]

/-! ## Rewriting by pieces -/

theorem normalizeVariables_template (h : splitOncePattern ['}', '}'] t = some (inner, rest)) :
    normalizeVariables ('{' :: '{' :: t) =
      ['{', '{'] ++ (latin inner).filter isKept ++ ['}', '}'] ++ normalizeVariables rest := by
  have hclosing := closing_latin t
  rw [h, Option.map_some] at hclosing
  obtain ⟨rfl, -⟩ := splitOncePattern_eq_some (cons_ne_nil _ _) h
  have hskip := normalize_append ('{' :: (latin inner ++ ['}', '}'])) (latin rest)
  have hbraces : latin ('{' :: '{' :: (inner ++ (['}', '}'] ++ rest))) =
      '{' :: '{' :: (latin inner ++ (['}', '}'] ++ latin rest)) := by
    rw [latin_cons_of_lt (by decide), latin_cons_of_lt (by decide), latin_append, latin_append,
      latin_of_ascii (t := ['}', '}']) (by simp)]
  rw [latin_append, latin_append, latin_of_ascii (t := ['}', '}']) (by simp)] at hclosing
  rw [normalizeVariables, ← latin, hbraces, normalize, template, hclosing]
  dsimp only
  rw [length_cons, length_append, cons_append, append_assoc] at hskip
  rw [normalizeVariables, ← latin, ← hskip]
  rfl

/-- Outside of templates the bytes are copied. -/
theorem normalizeVariables_cons
    (h : c = '{' → t.head? = some '{' → splitOncePattern ['}', '}'] t.tail = none) :
    normalizeVariables (c :: t) = latin [c] ++ normalizeVariables t := by
  have hcopied (a : Text) (ha : ∀ d ∈ a, d ≠ '{') :
      normalize 0 (a ++ latin t) = a ++ normalize 0 (latin t) := by
    induction a with
    | nil => rfl
    | cons d a ih =>
      obtain ⟨hd, ha⟩ := forall_mem_cons.1 ha
      rw [cons_append, normalize, template.eq_2 _ fun u hu => hd (cons.inj hu).1]
      exact congrArg (d :: ·) (ih ha)
  rw [normalizeVariables, ← latin, normalizeVariables, ← latin, ← singleton_append, latin_append]
  by_cases hc : c.toNat < 128
  · by_cases hbrace : c = '{'
    · subst hbrace
      rw [latin_of_ascii (forall_mem_singleton.2 hc), singleton_append, singleton_append, normalize]
      have hnone : template ('{' :: latin t) = none := by
        by_cases hnext : t.head? = some '{'
        · obtain ⟨u, rfl⟩ := head?_eq_some_iff.1 hnext
          have hopen : splitOncePattern ['}', '}'] u = none := h rfl hnext
          rw [latin_cons_of_lt hc, template, closing_latin, hopen, Option.map_none]
        · refine template.eq_2 _ fun u hu => hnext ((head_latin (.inl rfl)).1 ?_)
          rw [(cons.inj hu).2]
          rfl
      rw [hnone]
    · rw [latin_of_ascii (forall_mem_singleton.2 hc)]
      exact hcopied [c] (forall_mem_singleton.2 hbrace)
  · exact hcopied _ fun d hd => ((latin_of_le (not_lt.1 hc)).2 d hd).1

/-- The induction along the pieces of a text. -/
theorem pieces_induction {motive : Text → List Piece → Prop} (nil : motive [] [])
    (outside : ∀ c t, (c = '{' → t.head? = some '{' → splitOncePattern ['}', '}'] t.tail = none) →
      motive t (pieces t) → motive (c :: t) (.outside c :: pieces t))
    (template : ∀ t inner rest, splitOncePattern ['}', '}'] t = some (inner, rest) →
      motive rest (pieces rest) → motive ('{' :: '{' :: t) (.template inner :: pieces rest))
    (t : Text) : motive t (pieces t) := by
  induction hn : t.length using Nat.strong_induction_on generalizing t with
  | _ n ih =>
    cases t with
    | nil => exact nil
    | cons c t =>
      have hstart : ['{', '{'].isPrefixOf (c :: t) = true ↔ c = '{' ∧ t.head? = some '{' := by
        rw [List.isPrefixOf_iff_prefix, cons_prefix_cons, singleton_prefix_iff_head?_eq_some,
          eq_comm]
      rw [pieces, piecesAfter]
      split
      next inner rest hsplit =>
        obtain ⟨hbraces, hsplit⟩ := Option.ite_none_right_eq_some.1 hsplit
        obtain ⟨rfl, hnext⟩ := hstart.1 hbraces
        obtain ⟨u, rfl⟩ := head?_eq_some_iff.1 hnext
        rw [tail_cons] at hsplit
        have hu := (splitOncePattern_eq_some (cons_ne_nil _ _) hsplit).1
        have hskip : piecesAfter (inner.length + 3) ('{' :: u) = pieces rest := by
          have h := piecesAfter_append ('{' :: (inner ++ ['}', '}'])) rest
          rwa [length_cons, length_append, cons_append, append_assoc, ← hu] at h
        rw [hskip]
        exact template u inner rest hsplit (ih rest.length (by simp [← hn, hu]; omega) rest rfl)
      next hnone =>
        refine outside c t (fun hc hnext => ?_) (ih t.length (by simp [← hn]) t rfl)
        rwa [if_pos (hstart.2 ⟨hc, hnext⟩)] at hnone

/-- A text is the concatenation of its pieces, and each of them is rewritten by itself. -/
theorem normalizeVariables_pieces (t : Text) : (pieces t).flatMap Piece.text = t ∧
    normalizeVariables t = (pieces t).flatMap Piece.rewritten := by
  refine pieces_induction (motive := fun t ps => ps.flatMap Piece.text = t ∧
    normalizeVariables t = ps.flatMap Piece.rewritten) ⟨rfl, rfl⟩
    (fun c t hc ih => ⟨?_, ?_⟩) (fun t inner rest hsplit ih => ⟨?_, ?_⟩) t
  · rw [flatMap_cons, ih.1]
    rfl
  · rw [flatMap_cons, ← ih.2, normalizeVariables_cons hc]
    rfl
  · rw [flatMap_cons, ih.1, (splitOncePattern_eq_some (cons_ne_nil _ _) hsplit).1, Piece.text]
    simp
  · rw [flatMap_cons, ← ih.2, normalizeVariables_template hsplit]
    rfl

/-! ## Names -/

/-- The template has this name, with blanks around it and `_.` before it or not. -/
def Names (inner name : Text) : Prop :=
  (∀ c ∈ name, c.isAlphanum || c = '_' || c = '-' || c = '.') ∧ ¬"_." <+: name ∧
    ∃ before scope after, (∀ c ∈ before ++ after, c = ' ') ∧ (scope = [] ∨ scope = "_.") ∧
      inner = before ++ (scope ++ (name ++ after))

/-- What should become of a piece. Nothing is said of a template that has no name in it. -/
def Piece.Right (out : Text) : Piece → Prop
  | outside c => out = [c]
  | template inner => ∀ name, Names inner name → out = ['{', '{'] ++ name ++ ['}', '}']

/-- A character of ASCII, or a template whose name has no underscore and no dot. -/
def Piece.Plain : Piece → Prop
  | outside c => c.toNat < 128
  | template inner => ∀ name, Names inner name → '_' ∉ name ∧ '.' ∉ name

theorem Names.ascii (h : Names inner name) : ∀ c ∈ inner, c.toNat < 128 := by
  obtain ⟨hchars, -, before, scope, after, hblank, hscope, rfl⟩ := h
  rw [← append_assoc, ← append_assoc]
  simp only [mem_append, or_imp, forall_and] at hblank ⊢
  refine ⟨⟨⟨fun c hc => ?_, fun c hc => ?_⟩, fun c hc => ?_⟩, fun c hc => ?_⟩
  · rw [hblank.1 c hc]
    decide
  · rcases hscope with rfl | rfl
    · cases hc
    · revert c
      exact all_iff_forall_prop.1 rfl
  · have hcases : c.isAlphanum ∨ c = '_' ∨ c = '-' ∨ c = '.' := by
      simpa [or_assoc] using hchars c hc
    rcases hcases with hc | rfl | rfl | rfl
    · exact (toNat_of_isAlphanum hc).2
    all_goals decide
  · rw [hblank.2 c hc]
    decide

theorem Names.filter_eq (h : Names inner name) : inner.filter isKept = name.filter isKept := by
  obtain ⟨-, -, before, scope, after, hblank, hscope, rfl⟩ := h
  have hblanks {l : Text} (hl : ∀ c ∈ l, c = ' ') : l.filter isKept = [] := by
    rw [filter_eq_nil_iff]
    intro c hc
    rw [hl c hc]
    decide
  rw [filter_append, filter_append, filter_append,
    hblanks fun c hc => hblank c (mem_append_left _ hc),
    hblanks fun c hc => hblank c (mem_append_right _ hc), append_nil]
  rcases hscope with rfl | rfl <;> rfl

theorem Names.filter_eq_self_iff (h : Names inner name) :
    name.filter isKept = name ↔ '_' ∉ name ∧ '.' ∉ name := by
  rw [filter_eq_self]
  refine ⟨fun hkept => ⟨fun hc => absurd (hkept _ hc) (by decide),
    fun hc => absurd (hkept _ hc) (by decide)⟩, fun hname c hc => ?_⟩
  by_contra hdropped
  have hcases : c = ' ' ∨ c = '\t' ∨ c = '\n' ∨ c = '\x0c' ∨ c = '\r' ∨ c = '_' ∨ c = '.' := by
    simp [isKept, isAsciiWhitespace] at hdropped
    tauto
  rcases hcases with rfl | rfl | rfl | rfl | rfl | rfl | rfl
  iterate 5 exact absurd (h.1 _ hc) (by decide)
  · exact hname.1 hc
  · exact hname.2 hc

theorem right_rewritten_iff (p : Piece) : p.Right p.rewritten ↔ p.Plain := by
  cases p with
  | outside c => exact latin_singleton_eq_iff
  | template inner =>
    refine forall₂_congr fun name hname => ?_
    rw [Piece.rewritten, latin_of_ascii hname.ascii, append_cancel_right_eq, append_cancel_left_eq,
      hname.filter_eq, hname.filter_eq_self_iff]

/-- A text is rewritten piece by piece, and the pieces become what they should exactly if the
    characters outside of templates are those of ASCII and no name has an underscore or a dot. -/
theorem normalizeVariables_iff (t : Text) : (pieces t).flatMap Piece.text = t ∧
    normalizeVariables t = (pieces t).flatMap Piece.rewritten ∧
      ((∀ p ∈ pieces t, p.Right p.rewritten) ↔ ∀ p ∈ pieces t, p.Plain) :=
  ⟨(normalizeVariables_pieces t).1, (normalizeVariables_pieces t).2,
    forall₂_congr fun p _ => right_rewritten_iff p⟩

theorem normalizeVariables_wrong :
    pieces "\x7b\x7b base_url \x7d\x7dé" = [.template " base_url ", .outside 'é'] ∧
      Names " base_url " "base_url" ∧
        normalizeVariables "\x7b\x7b base_url \x7d\x7dé" = "\x7b\x7bbaseurl\x7d\x7dÃ©" :=
  ⟨by decide, ⟨all_iff_forall_prop.1 rfl, by decide, " ", [], " ", by simp, .inl rfl, rfl⟩,
    by decide⟩

end

end Tropel.Insomnia
