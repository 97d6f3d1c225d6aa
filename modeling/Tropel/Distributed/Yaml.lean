import Mathlib.Tactic.IntervalCases
import Tropel.Lib.F64
import Tropel.Lib.Json
import Tropel.Lib.Text

/-!
# Scalars of a manifest

A value of a manifest is written after its key.

* `readValue_scalar_iff`: when it is read back.
-/

namespace Tropel.Yaml

open Lib List

/-! ## Writing -/

def indicators : List Char :=
  ['-', '?', ':', ',', '[', ']', '{', '}', '#', '&', '*', '!', '|', '>', '\x27', '"', '%', '@',
    '\x60', '~']

variable (s : Text)

def isYamlResolvable : Bool :=
  if s = ['~'] then true
  else if ["true", "false", "yes", "no", "on", "off", "null"].any fun w =>
    w.toList = toAsciiLowercase s then true
  else if ':' ∈ s then false
  else if (parseF64 s).isSome then true
  else match (stripStart ['0', 'x'] s).or (stripStart ['0', 'X'] s) with
    | some hex => !hex.isEmpty && hex.all fun c => (hexDigit c).isSome
    | none => false

def plainChars (before : Option Char) : Text → Bool
  | [] => true
  | c :: t =>
    let safe :=
      if c = ':' then t.head?.isSome && t.head? ≠ some ' '
      else if c = '#' then before.isSome && before ≠ some ' '
      else !(c = '"' || c = '\x27' || c = '\\' || c.toNat < 32)
    safe && plainChars (some c) t

def plainSafe : Bool :=
  match s with
  | [] => false
  | first :: _ =>
    first ≠ ' ' && first ∉ indicators && ' ' ∉ s && !isYamlResolvable s && plainChars none s

variable (c : Char)

def escape : Text :=
  if c = '"' then ['\\', '"']
  else if c = '\\' then ['\\', '\\']
  else if c = '\n' then ['\\', 'n']
  else if c = '\r' then ['\\', 'r']
  else if c = '\t' then ['\\', 't']
  else if c.toNat < 32 then ['\\', 'x', Nat.digitChar (c.toNat / 16), Nat.digitChar (c.toNat % 16)]
  else [c]

def doubleQuote : Text := '"' :: s.flatMap escape ++ ['"']

def scalar : Text := if plainSafe s then s else doubleQuote s

/-! ## Reading -/

def isBreak : Bool := c = '\n' || c = '\r' || c = '\x85' || c = ' ' || c = ' '

def isLineChar : Bool :=
  let n := c.toNat
  !isBreak c && (n = 9 || (0x20 ≤ n && n ≤ 0x7E) || (0xA0 ≤ n && n ≤ 0xD7FF) ||
    (0xE000 ≤ n && n ≤ 0xFFFD) || 0x10000 ≤ n)

def isBlank : Bool := c = ' ' || c = '\t'

inductive CoreType
  | null | bool | int | float
  deriving DecidableEq

def isDigits (first : Text) (t : Text) : Bool :=
  match t with
  | [] => false
  | c :: t => c ∈ first && t.all fun c => c.isDigit || c = '_'

def isParts (parts : List Text) : Bool := parts.all fun part => match part with
  | [c] => c.isDigit
  | [c, d] => '0' ≤ c && c ≤ '5' && d.isDigit
  | _ => false

def isInt (t : Text) : Bool :=
  match (takeSign t).2 with
  | [] => false
  | ['0'] => true
  | '0' :: 'b' :: digits => !digits.isEmpty && digits.all fun c => c = '0' || c = '1' || c = '_'
  | '0' :: 'x' :: digits => !digits.isEmpty && digits.all fun c => (hexDigit c).isSome || c = '_'
  | '0' :: digits => digits.all fun c => ('0' ≤ c && c ≤ '7') || c = '_'
  | u => match u.splitOn ':' with
    | [] => false
    | first :: parts => isDigits "123456789" first && isParts parts

def isExponent (t : Text) : Bool :=
  match t with
  | [] => true
  | e :: sign :: digits =>
    (e = 'e' || e = 'E') && (sign = '-' || sign = '+') && !digits.isEmpty && digits.all Char.isDigit
  | _ => false

def isFloat (t : Text) : Bool :=
  let u := (takeSign t).2
  [".inf", ".Inf", ".INF"].any (fun w => w.toList = u) ||
    [".nan", ".NaN", ".NAN"].any (fun w => w.toList = t) ||
    match splitOnce '.' u with
    | none => false
    | some (int, frac) => match int.splitOn ':' with
      | [] => false
      | [first] => (first = [] || isDigits "0123456789" first) &&
          isExponent (frac.dropWhile fun c => c.isDigit || c = '.')
      | first :: parts => isDigits "0123456789" first && isParts parts && frac.all fun c =>
          c.isDigit || c = '_'

def coreType (t : Text) : Option CoreType :=
  if ["", "~", "null", "Null", "NULL"].any fun w => w.toList = t then some .null
  else if ["y", "Y", "yes", "Yes", "YES", "n", "N", "no", "No", "NO", "true", "True", "TRUE",
    "false", "False", "FALSE",
      "on", "On", "ON", "off", "Off", "OFF"].any fun w => w.toList = t then some .bool
  else if isInt t then some .int
  else if isFloat t then some .float
  else none

inductive Value
  | core (type : CoreType)
  | string (t : Text)
  deriving DecidableEq

def readPlain : Text → Option Text
  | [] => some []
  | c :: t =>
    if c = ':' && (t.head?.all isBlank) then none
    else if isBlank c && t.head? = some '#' then some []
    else (readPlain t).map (c :: ·)

inductive QuotedMode
  | text
  | escape
  | hex (left value : ℕ)
  | closed (gap : Bool)
  | comment
  deriving DecidableEq

def shortEscapes : List (Char × Char) :=
  [('0', '\x00'), ('a', '\x07'), ('b', '\x08'), ('t', '\t'), ('\t', '\t'), ('n', '\n'),
    ('v', '\x0b'), ('f', '\x0c'), ('r', '\r'), ('e', '\x1b'), (' ', ' '), ('"', '"'), ('\\', '\\'),
      ('N', '\x85'), ('_', '\xa0'), ('L', '\u2028'),
    ('P', '\u2029')]

def stepQuoted (st : Text × QuotedMode) (c : Char) : Option (Text × QuotedMode) :=
  match st with
  | (out, .text) =>
    if c = '"' then some (out, .closed false) else if c = '\\' then some (out, .escape)
    else some (out ++ [c], .text)
  | (out, .escape) => match shortEscapes.lookup c with
    | some x => some (out ++ [x], .text)
    | none => if c = 'x' then some (out, .hex 1 0) else if c = 'u' then some (out, .hex 3 0)
      else if c = 'U' then some (out, .hex 7 0) else none
  | (out, .hex left value) => (hexDigit c).map fun d => match left with
    | 0 => (out ++ [Char.ofNat (16 * value + d)], .text)
    | left + 1 => (out, .hex left (16 * value + d))
  | (out, .closed gap) => if isBlank c then some (out, .closed true)
    else if c = '#' && gap then some (out, .comment) else none
  | (out, .comment) => some (out, .comment)

def readQuoted (t : Text) : Option Text :=
  (t.foldlM stepQuoted ([], .text)).bind fun st => match st.2 with
    | .closed _ | .comment => some st.1
    | _ => none

def readValue (line : Text) : Option Value :=
  if line.all isLineChar then
    match line.dropWhile isBlank with
    | [] => some (.core .null)
    | c :: t =>
      if c = '#' then some (.core .null)
      else if c = '"' then (readQuoted t).map .string
      else if c ∈ indicators && c ≠ '~' &&
        !((c = '-' || c = '?' || c = ':') && t.head?.any (!isBlank ·)) then none
      else (readPlain (c :: t)).map fun u =>
        let u := u.rdropWhile isBlank
        (coreType u).elim (.string u) .core
  else none

/-! ## Texts in quotes -/

theorem escape_cases : escape c = [c] ∧ 32 ≤ c.toNat ∨
    (escape c).all isLineChar = true ∧ (c.toNat < 32 ∨ isLineChar c = true) := by
  unfold escape
  split_ifs with hquote hslash hn hr ht hlt
  · subst hquote; decide
  · subst hslash; decide
  · subst hn; decide
  · subst hr; decide
  · subst ht; decide
  · refine .inr ⟨?_, .inl hlt⟩
    generalize c.toNat = n at hlt
    interval_cases n <;> rfl
  · exact .inl ⟨rfl, not_lt.1 hlt⟩

theorem foldlM_escape (out : Text) :
    (escape c).foldlM stepQuoted (out, .text) = some (out ++ [c], .text) := by
  unfold escape
  split_ifs with hquote hslash hn hr ht hlt
  · subst hquote; rfl
  · subst hslash; rfl
  · subst hn; rfl
  · subst hr; rfl
  · subst ht; rfl
  · obtain ⟨n, hn⟩ : ∃ n, n = c.toNat := ⟨_, rfl⟩
    obtain rfl : c = Char.ofNat n := by rw [hn, Char.ofNat_toNat]
    rw [← hn] at hlt ⊢
    interval_cases n <;> rfl
  · rw [foldlM_cons, stepQuoted, if_neg hquote, if_neg hslash]
    rfl

theorem readQuoted_flatMap : readQuoted (s.flatMap escape ++ ['"']) = some s := by
  have hrun (out : Text) : (s.flatMap escape).foldlM stepQuoted (out, .text) =
      some (out ++ s, .text) := by
    induction s generalizing out with
    | nil => rw [append_nil]; rfl
    | cons c s ih =>
      rw [flatMap_cons, foldlM_append, foldlM_escape]
      exact (ih _).trans (by rw [append_assoc]; rfl)
  rw [readQuoted, foldlM_append, hrun]
  rfl

theorem all_doubleQuote : (doubleQuote s).all isLineChar = true ↔ ∀ c ∈ s, c.toNat < 32 ∨
    isLineChar c = true := by
  have hall : (doubleQuote s).all isLineChar = true ↔ ∀ c ∈ s,
      (escape c).all isLineChar = true := by
    simp [doubleQuote, show isLineChar '"' = true from rfl]
  rw [hall]
  refine forall₂_congr fun c _ => ?_
  obtain ⟨heq, hle⟩ | ⟨hline, hc⟩ := escape_cases c
  · rw [heq, or_iff_right (not_lt.2 hle)]
    simp
  · exact iff_of_true hline hc

theorem readValue_doubleQuote_eq_some (v : Value) : readValue (doubleQuote s) = some v ↔
    (∀ c ∈ s, c.toNat < 32 ∨ isLineChar c = true) ∧ some (.string s) = some v := by
  rw [readValue, Option.ite_none_right_eq_some, all_doubleQuote]
  refine and_congr_right fun _ => ?_
  change (readQuoted (s.flatMap escape ++ ['"'])).map Value.string = some v ↔ _
  rw [readQuoted_flatMap]
  rfl

/-! ## Plain texts -/

theorem isBlank_eq_false {c : Char} (h : 32 < c.toNat) : isBlank c = false := by
  refine Bool.or_eq_false_iff.2 ⟨decide_eq_false ?_, decide_eq_false ?_⟩ <;> rintro rfl <;>
    exact absurd h (by decide)

theorem readPlain_of_plainChars {s : Text} {before : Option Char} (h : plainChars before s = true)
    (hspace : ' ' ∉ s) :
    readPlain s = some s ∧ ∀ c ∈ s, 32 < c.toNat := by
  induction s generalizing before with
  | nil => exact ⟨rfl, forall_mem_nil _⟩
  | cons c s ih =>
    obtain ⟨hsafe, h⟩ := (Bool.and_eq_true _ _).mp h
    rw [mem_cons, not_or] at hspace
    obtain ⟨hread, hchars⟩ := ih h hspace.2
    have hc : 32 < c.toNat := by
      split_ifs at hsafe with hcolon hhash
      · subst hcolon; decide
      · subst hhash; decide
      · have hle : 32 ≤ c.toNat := by simp at hsafe; exact hsafe.2
        refine lt_of_le_of_ne hle fun heq => hspace.1 ?_
        rw [← Char.ofNat_toNat c, ← heq]
    -- A colon comes before a character that is not blank.
    have hcolon : ¬ (c = ':' && s.head?.all isBlank) = true := by
      intro hmap
      obtain ⟨hcolon, hblank⟩ := (Bool.and_eq_true _ _).mp hmap
      rw [if_pos (of_decide_eq_true hcolon)] at hsafe
      obtain ⟨d, hd⟩ := Option.isSome_iff_exists.1 ((Bool.and_eq_true _ _).mp hsafe).1
      rw [hd] at hblank
      exact Bool.false_ne_true
        ((isBlank_eq_false (hchars d (mem_of_mem_head? hd))).symm.trans hblank)
    refine ⟨?_, forall_mem_cons.2 ⟨hc, hchars⟩⟩
    rw [readPlain, if_neg hcolon, isBlank_eq_false hc, Bool.false_and, if_neg Bool.false_ne_true,
      hread]
    rfl

theorem of_plainSafe {s : Text} (h : plainSafe s = true) :
    (∃ first t, s = first :: t ∧ first ∉ indicators) ∧
    readPlain s = some s ∧ ∀ c ∈ s, 32 < c.toNat := by
  cases s with
  | nil => cases h
  | cons first t =>
    obtain ⟨⟨⟨⟨-, hfirst⟩, hspace⟩, -⟩, hchars⟩ :
        (((_ ∧ first ∉ indicators) ∧ ' ' ∉ first :: t) ∧ _) ∧
        plainChars none (first :: t) = true := by simpa [plainSafe] using h
    exact ⟨⟨first, t, rfl, hfirst⟩, readPlain_of_plainChars hchars hspace⟩

theorem readValue_eq_some_of_plainSafe {s : Text} (h : plainSafe s = true) (v : Value) :
    readValue s = some v ↔
    (∀ c ∈ s, c.toNat < 32 ∨ isLineChar c = true) ∧
      some ((coreType s).elim (.string s) .core) = some v := by
  obtain ⟨⟨first, t, rfl, hfirst⟩, hread, hlt⟩ := of_plainSafe h
  have hall : (first :: t).all isLineChar = true ↔ ∀ c ∈ first :: t, c.toNat < 32 ∨
      isLineChar c = true := by
    rw [all_eq_true]
    exact forall₂_congr fun c hc => (or_iff_right (not_lt.2 (hlt c hc).le)).symm
  have hne (c : Char) (hc : c ∈ indicators) : first ≠ c := fun heq => hfirst (heq ▸ hc)
  have hdrop : (first :: t).rdropWhile isBlank = first :: t := by
    refine rdropWhile_eq_self_iff.2 fun hnil => ?_
    rw [isBlank_eq_false (hlt _ (getLast_mem hnil))]
    exact Bool.false_ne_true
  rw [readValue, Option.ite_none_right_eq_some, hall]
  refine and_congr_right fun _ => ?_
  rw [dropWhile_cons_of_neg (by simp [isBlank_eq_false (hlt first mem_cons_self)])]
  dsimp only
  rw [if_neg (hne '#' (by decide)), if_neg (hne '"' (by decide)), if_neg (by simp [hfirst]), hread,
    Option.map_some, hdrop]

/-- A value is written on one line. It is read back as a string if and only if its characters may be
    in a line or are escaped, and without quotes it is no `null`, boolean or number. -/
theorem readValue_scalar_iff (s : Text) :
    (∀ c ∈ scalar s, isBreak c = true → c ∈ s ∧ c ≠ '\n' ∧ c ≠ '\r') ∧
      (readValue (scalar s) = some (.string s) ↔
        (∀ c ∈ s, c.toNat < 32 ∨ isLineChar c = true) ∧
          (plainSafe s = true → coreType s = none)) := by
  have hfeed {c : Char} (hc : 32 ≤ c.toNat) : c ≠ '\n' ∧ c ≠ '\r' := by
    constructor <;> rintro rfl <;> exact absurd hc (by decide)
  by_cases hsafe : plainSafe s = true
  · rw [scalar, if_pos hsafe, readValue_eq_some_of_plainSafe hsafe]
    refine ⟨fun c hc _ => ⟨hc, hfeed ((of_plainSafe hsafe).2.2 c hc).le⟩,
      and_congr_right fun _ => ?_⟩
    cases coreType s <;> simp [hsafe]
  · rw [scalar, if_neg hsafe, readValue_doubleQuote_eq_some]
    refine ⟨fun c hc hbreak => ?_, and_congr_right fun _ => by simp [hsafe]⟩
    -- A line break in quotes is a character that is not escaped.
    have hquote : c ≠ '"' := by
      rintro rfl
      cases hbreak
    have hmem : c ∈ s.flatMap escape := by simpa [doubleQuote, hquote] using hc
    obtain ⟨x, hx, hc⟩ := mem_flatMap.1 hmem
    obtain ⟨heq, hle⟩ | ⟨hline, -⟩ := escape_cases x
    · obtain rfl : c = x := mem_singleton.1 (heq ▸ hc)
      exact ⟨hx, hfeed hle⟩
    · have hnot := all_eq_true.1 hline c hc
      rw [isLineChar, hbreak] at hnot
      cases hnot

theorem readValue_scalar_number : readValue (scalar ".inf") = some (.core .float) ∧
    readValue (scalar "1_000") = some (.core .int) ∧ readValue (scalar "0b11") = some (.core .int) ∧
      readValue (scalar "+0x1f") = some (.core .int) := by
  decide +kernel

end Tropel.Yaml
