import Mathlib.Data.Char
import Mathlib.Data.List.Lex
import Tropel.Lib.Decimal
import Tropel.Lib.Json
import Tropel.Lib.JsonTree
import Tropel.Lib.SortBy
import Tropel.Variables.Lookup

/-!
# Loose equality

Assertions compare JSON values by `looseEqual`: numbers and their texts as numbers, and arrays and
objects by a text with sorted keys (`stableJson`), also with a string that is such a text.

* `looseEqual_iff`: when that is equality up to order.
-/

namespace Tropel

open Lib List Option Bool JsonTree Prod

inductive Number (φ : Type*)
  | int (i : ℤ)
  | float (f : φ)
  deriving DecidableEq

def isNumberChar (c : Char) : Bool := c.isDigit || c = '-' || c = '+' || c = '.' || c = 'e'

structure Doubles (φ : Type*) where
  value : φ → ℚ
  text : φ → Text
  round : F64 → F64
  text_injective : Function.Injective text
  isNumberChar_text : ∀ f, ∀ c ∈ text f, isNumberChar c = true
  marked : ∀ f, '.' ∈ text f ∨ 'e' ∈ text f

def intText : ℤ → Text
  | .ofNat n => Nat.toDigits 10 n
  | .negSucc n => '-' :: Nat.toDigits 10 (n + 1)

variable {φ : Type*} (D : Doubles φ)

namespace Number

def text : Number φ → Text
  | .int i => intText i
  | .float f => D.text f

def value : Number φ → ℚ
  | .int i => i
  | .float f => D.value f

def asF64 : Number φ → F64
  | .int i => D.round (.num i)
  | .float f => .num (D.value f)

def sameKind : Number φ → Number φ → Bool
  | .int _, .int _ => true
  | .float _, .float _ => true
  | _, _ => false

def beq : Number φ → Number φ → Bool
  | .int i, .int i' => i = i'
  | .float f, .float f' => D.value f = D.value f'
  | _, _ => false

def sameValue (n n' : Number φ) : Bool := n.value D = n'.value D

end Number

abbrev Value (φ : Type*) := { v : JsonTree (Number φ) // v.Distinct }

/-! ## The comparison -/

mutual

def stableJson : JsonTree (Number φ) → Text
  | .object entries =>
    let pairs := (sortByKey Prod.fst (stableEntries entries)).map fun e =>
      serdeString e.1 ++ ':' :: e.2
    '{' :: ([','].intercalate pairs ++ ['}'])
  | .array items => '[' :: ([','].intercalate (stableItems items) ++ [']'])
  | .null => "null"
  | .bool b => (if b then "true" else "false").toList
  | .number n => n.text D
  | .string s => serdeString s

def stableItems : List (JsonTree (Number φ)) → List Text
  | [] => []
  | v :: items => stableJson v :: stableItems items

def stableEntries : List (Text × JsonTree (Number φ)) → List (Text × Text)
  | [] => []
  | (key, v) :: entries => (key, stableJson v) :: stableEntries entries

end

def toNum : JsonTree (Number φ) → Option F64
  | .number n => (some (n.asF64 D)).filter (· ≠ .nan)
  | .string s => if trim s = [] then none else ((parseF64 (trim s)).map D.round).filter (· ≠ .nan)
  | _ => none

def numericPair (a b : JsonTree (Number φ)) : Option (F64 × F64) := do
  let x ← toNum D a
  let y ← toNum D b
  return (x, y)

def isContainer : JsonTree (Number φ) → Bool
  | .array _ => true
  | .object _ => true
  | _ => false

def isNull : JsonTree (Number φ) → Bool
  | .null => true
  | _ => false

abbrev FromStr (φ : Type*) := Text → Option (Value φ)

def tryParseJson (fromStr : FromStr φ) : JsonTree (Number φ) → Option (Value φ)
  | .string s => fromStr s
  | _ => none

def looseEqual (fromStr : FromStr φ) (a b : Value φ) : Bool :=
  if a.1.eqWith (Number.beq D) b.1 then true
  else if isNull a.1 || isNull b.1 then false
  else match numericPair D a.1 b.1 with
    | some (x, y) => x = y
    | none =>
      if isContainer a.1 || isContainer b.1 then
        match tryParseJson fromStr a.1, tryParseJson fromStr b.1 with
        | some x, some y => stableJson D x.1 = stableJson D y.1
        | some x, none => stableJson D x.1 = stableJson D b.1
        | none, some y => stableJson D a.1 = stableJson D y.1
        | none, none => stableJson D a.1 = stableJson D b.1
      else false

/-! ## Numbers -/

variable {c : Char} {s s' x y : Text}

theorem isNumberChar_of_isDigit (h : c.isDigit = true) : isNumberChar c = true := by
  simp [isNumberChar, h]

theorem isDigit_or_minus_of_mem_intText {i : ℤ} (h : c ∈ intText i) :
    c.isDigit = true ∨ c = '-' := by
  cases i with
  | ofNat n => exact .inl (isDigit_of_mem_toDigits h)
  | negSucc n =>
    rcases mem_cons.1 h with rfl | h
    · exact .inr rfl
    · exact .inl (isDigit_of_mem_toDigits h)

theorem isNumberChar_intText (i : ℤ) : ∀ c ∈ intText i, isNumberChar c = true := by
  intro c hc
  rcases isDigit_or_minus_of_mem_intText hc with hdigit | rfl
  · exact isNumberChar_of_isDigit hdigit
  · decide

theorem minus_not_mem_toDigits (n : ℕ) : '-' ∉ Nat.toDigits 10 n :=
  fun h => absurd (isDigit_of_mem_toDigits h) (by decide)

theorem intText_injective : Function.Injective intText := by
  intro i i' h
  cases i with
  | ofNat n =>
    cases i' with
    | ofNat n' => exact congrArg Int.ofNat (toDigits_injective h)
    | negSucc n' =>
      rw [intText, intText] at h
      exact absurd (h ▸ mem_cons_self) (minus_not_mem_toDigits n)
  | negSucc n =>
    cases i' with
    | ofNat n' =>
      rw [intText, intText] at h
      exact absurd (h ▸ mem_cons_self) (minus_not_mem_toDigits n')
    | negSucc n' =>
      exact congrArg Int.negSucc (Nat.succ.inj (toDigits_injective (List.cons.inj h).2))

namespace Number

theorem isNumberChar_text (n : Number φ) : ∀ c ∈ n.text D, isNumberChar c = true := by
  cases n with
  | int i => exact isNumberChar_intText i
  | float f => exact D.isNumberChar_text f

theorem text_ne_nil (n : Number φ) : n.text D ≠ [] := by
  cases n with
  | int i =>
    cases i with
    | ofNat n => exact Nat.toDigits_ne_nil
    | negSucc n => exact cons_ne_nil _ _
  | float f =>
    rcases D.marked f with h | h
    · exact ne_nil_of_mem h
    · exact ne_nil_of_mem h

theorem intText_ne_text (i : ℤ) (f : φ) : intText i ≠ D.text f := by
  intro h
  have hmark : '.' ∈ intText i ∨ 'e' ∈ intText i := h ▸ D.marked f
  rcases hmark with hmark | hmark <;>
    exact absurd (isDigit_or_minus_of_mem_intText hmark) (by decide)

theorem text_injective : Function.Injective (text D) := by
  intro n n' h
  cases n with
  | int i =>
    cases n' with
    | int i' => exact congrArg int (intText_injective h)
    | float f' => exact absurd h (intText_ne_text D i f')
  | float f =>
    cases n' with
    | int i' => exact absurd h.symm (intText_ne_text D i' f)
    | float f' => exact congrArg float (D.text_injective h)

theorem beq_eq (n n' : Number φ) : n.beq D n' = (n.sameValue D n' && n.sameKind n') := by
  cases n with
  | int i =>
    cases n' with
    | int i' => simp [beq, sameValue, sameKind, value]
    | float f' => exact (Bool.and_false _).symm
  | float f =>
    cases n' with
    | int i' => exact (Bool.and_false _).symm
    | float f' => exact (Bool.and_true _).symm

theorem beq_self (n : Number φ) : n.beq D n = true := by
  cases n <;> simp [beq]

theorem beq_symm (n n' : Number φ) (h : n.beq D n' = true) : n'.beq D n = true := by
  cases n <;> cases n' <;> simp_all [beq]

end Number

/-! ## Strings -/

def serdeUnescape : Text → Option (Char × Text)
  | '\\' :: 'u' :: d₁ :: d₂ :: d₃ :: d₄ :: t => some (Char.ofNat (hexValue [d₁, d₂, d₃, d₄]), t)
  | '\\' :: x :: t => (shortEscapes.find? fun e => e.1 = x).map fun e => (e.2, t)
  | c :: t => some (c, t)
  | [] => none

theorem serdeUnescape_cons (h : c ≠ '\\') (t : Text) : serdeUnescape (c :: t) = some (c, t) := by
  rw [serdeUnescape.eq_def]
  split
  next heq => exact absurd (List.cons.inj heq).1 h
  next heq => exact absurd (List.cons.inj heq).1 h
  next heq =>
    obtain ⟨rfl, rfl⟩ := List.cons.inj heq
    rfl
  next heq => cases heq

theorem serdeUnescape_append (c : Char) (t : Text) :
    serdeUnescape (serdeEscapeChar c ++ t) = some (c, t) := by
  have hcode : ∀ {n}, c.toNat = n → c = Char.ofNat n := fun h => h ▸ (Char.ofNat_toNat c).symm
  rw [serdeEscapeChar]
  split_ifs with hquote hslash hnewline hreturn htab hback hfeed hcontrol
  · rw [hquote]
    rfl
  · rw [hslash]
    rfl
  · rw [hnewline]
    rfl
  · rw [hreturn]
    rfl
  · rw [htab]
    rfl
  · rw [hcode hback]
    rfl
  · rw [hcode hfeed]
    rfl
  · have hhex : ∀ n < 32, hexValue ['0', '0', hexChar (n / 16), hexChar (n % 16)] = n := by decide
    change some (Char.ofNat (hexValue ['0', '0', hexChar (c.toNat / 16), hexChar (c.toNat % 16)]),
      t) = _
    rw [hhex _ hcontrol, Char.ofNat_toNat]
  · exact serdeUnescape_cons hslash t

theorem serdeEscapeChar_append_ne (c : Char) (t x : Text) : serdeEscapeChar c ++ t ≠ '"' :: x := by
  intro h
  have hread := congrArg serdeUnescape h
  rw [serdeUnescape_append, serdeUnescape_cons (by decide)] at hread
  obtain ⟨rfl, -⟩ := mk.inj (some.inj hread)
  exact absurd (List.cons.inj h).1 (by decide)

theorem flatMap_serdeEscapeChar_inj
    (h : s.flatMap serdeEscapeChar ++ '"' :: x = s'.flatMap serdeEscapeChar ++ '"' :: y) :
    s = s' ∧ x = y := by
  induction s generalizing s' with
  | nil =>
    cases s' with
    | nil => exact ⟨rfl, (List.cons.inj h).2⟩
    | cons c' s' =>
      rw [flatMap_cons, append_assoc] at h
      exact absurd h.symm (serdeEscapeChar_append_ne c' _ x)
  | cons c s ih =>
    cases s' with
    | nil =>
      rw [flatMap_cons, append_assoc] at h
      exact absurd h (serdeEscapeChar_append_ne c _ y)
    | cons c' s' =>
      rw [flatMap_cons, flatMap_cons, append_assoc, append_assoc] at h
      have hread := congrArg serdeUnescape h
      rw [serdeUnescape_append, serdeUnescape_append] at hread
      obtain ⟨rfl, hrest⟩ := mk.inj (some.inj hread)
      obtain ⟨rfl, rfl⟩ := ih hrest
      exact ⟨rfl, rfl⟩

theorem serdeString_inj (h : serdeString s ++ x = serdeString s' ++ y) : s = s' ∧ x = y := by
  have hshape : ∀ s x : Text,
      serdeString s ++ x = '"' :: (s.flatMap serdeEscapeChar ++ '"' :: x) := by
    intro s x
    simp [serdeString]
  rw [hshape, hshape] at h
  exact flatMap_serdeEscapeChar_inj (List.cons.inj h).2

/-! ## Texts of values -/

def isDelimiter (c : Char) : Bool := c = ',' || c = ']' || c = '}'

def Delimited (x : Text) : Prop := ∀ c ∈ x.head?, isDelimiter c = true

def kindOfChar (c : Char) : ℕ :=
  if c = 'n' then 0 else if c = 't' || c = 'f' then 1 else if isNumberChar c then 2
    else if c = '"' then 3
  else if c = '[' then 4 else if c = '{' then 5 else 6

def kind : JsonTree (Number φ) → ℕ
  | .null => 0
  | .bool _ => 1
  | .number _ => 2
  | .string _ => 3
  | .array _ => 4
  | .object _ => 5

theorem kindOfChar_of_isNumberChar (h : isNumberChar c = true) : kindOfChar c = 2 := by
  have hne : ∀ x : Char, isNumberChar x = false → c ≠ x := by
    rintro x hx rfl
    rw [h] at hx
    cases hx
  rw [kindOfChar, if_neg (hne 'n' (by decide)), if_neg, if_pos h]
  simp [hne 't' (by decide), hne 'f' (by decide)]

theorem exists_stableJson_eq_cons (v : JsonTree (Number φ)) :
    ∃ c t, stableJson D v = c :: t ∧ kindOfChar c = kind v := by
  cases v with
  | null => exact ⟨'n', _, by rw [stableJson]; rfl, rfl⟩
  | bool b =>
    cases b with
    | true => exact ⟨'t', _, by rw [stableJson]; rfl, rfl⟩
    | false => exact ⟨'f', _, by rw [stableJson]; rfl, rfl⟩
  | number n =>
    obtain ⟨c, t, ht⟩ := exists_cons_of_ne_nil (n.text_ne_nil D)
    refine ⟨c, t, by rw [stableJson, ht], kindOfChar_of_isNumberChar (n.isNumberChar_text D c ?_)⟩
    rw [ht]
    exact mem_cons_self
  | string s => exact ⟨'"', _, by rw [stableJson]; rfl, rfl⟩
  | array items => exact ⟨'[', _, by rw [stableJson], rfl⟩
  | object entries => exact ⟨'{', _, by rw [stableJson], rfl⟩

theorem kind_eq_of_append_eq {v v' : JsonTree (Number φ)}
    (h : stableJson D v ++ x = stableJson D v' ++ y) : kind v = kind v' := by
  obtain ⟨c, t, ht, hc⟩ := exists_stableJson_eq_cons D v
  obtain ⟨c', t', ht', hc'⟩ := exists_stableJson_eq_cons D v'
  rw [ht, ht', cons_append, cons_append] at h
  rw [← hc, ← hc', (List.cons.inj h).1]

section

variable {α : Type*} {r : α → Text} {S : α → α → Prop} {close : Char} {l l' : List α} {x y : Text}

theorem intercalate_cons_append (t : Text) (ts : List Text) (x : Text) :
    [','].intercalate (t :: ts) ++ close :: x =
      t ++ (if ts = [] then close :: x else ',' :: ([','].intercalate ts ++ close :: x)) := by
  cases ts with
  | nil => rw [intercalate_singleton, if_pos rfl]
  | cons t' ts => rw [intercalate_cons_cons, if_neg (cons_ne_nil _ _), append_assoc, append_assoc,
      singleton_append]

theorem intercalate_inj (hclose : isDelimiter close = true) (hcomma : close ≠ ',')
    (hfront : ∀ a x y, r a ++ x ≠ close :: y)
    (hread : ∀ a ∈ l, ∀ b ∈ l', ∀ x y, Delimited x → Delimited y → r a ++ x = r b ++ y →
      S a b ∧ x = y)
    (h : [','].intercalate (l.map r) ++ close :: x = [','].intercalate (l'.map r) ++ close :: y) :
    List.Forall₂ S l l' ∧ x = y := by
  have hdelimited : ∀ (ts : List Text) (x : Text),
      Delimited (if ts = [] then close :: x else ',' :: ([','].intercalate ts ++ close :: x)) := by
    intro ts x c hc
    split at hc
    · exact some.inj hc ▸ hclose
    · exact some.inj hc ▸ rfl
  induction l generalizing l' with
  | nil =>
    cases l' with
    | nil => exact ⟨.nil, (List.cons.inj h).2⟩
    | cons b l' =>
      rw [map_cons, intercalate_cons_append] at h
      exact absurd h.symm (hfront b _ x)
  | cons a l ih =>
    cases l' with
    | nil =>
      rw [map_cons, intercalate_cons_append] at h
      exact absurd h (hfront a _ y)
    | cons b l' =>
      rw [map_cons, map_cons, intercalate_cons_append, intercalate_cons_append] at h
      obtain ⟨hab, htail⟩ :=
        hread a mem_cons_self b mem_cons_self _ _ (hdelimited _ x) (hdelimited _ y) h
      split_ifs at htail with hl hl' hl'
      · rw [map_eq_nil_iff] at hl hl'
        subst hl hl'
        exact ⟨.cons hab .nil, (List.cons.inj htail).2⟩
      · exact absurd (List.cons.inj htail).1 hcomma
      · exact absurd (List.cons.inj htail).1.symm hcomma
      · obtain ⟨hrest, hxy⟩ :=
          ih (fun a ha b hb => hread a (mem_cons_of_mem _ ha) b (mem_cons_of_mem _ hb))
          (List.cons.inj htail).2
        exact ⟨.cons hab hrest, hxy⟩

end

theorem stableItems_eq (items : List (JsonTree (Number φ))) :
    stableItems D items = items.map (stableJson D) := by
  induction items with
  | nil => rfl
  | cons v items ih => rw [stableItems, ih, map_cons]

variable (entries : List (Text × JsonTree (Number φ)))

theorem stableEntries_eq : stableEntries D entries = entries.map fun e =>
    (e.1, stableJson D e.2) := by
  induction entries with
  | nil => rfl
  | cons e entries ih => rw [stableEntries, ih, map_cons]

def entryText (e : Text × JsonTree (Number φ)) : Text := serdeString e.1 ++ ':' :: stableJson D e.2

theorem stableJson_object : stableJson D (.object entries) =
      '{' :: ([','].intercalate ((sortByKey Prod.fst entries).map (entryText D)) ++ ['}']) := by
  have hsort : sortByKey fst (entries.map fun e => (e.1, stableJson D e.2)) =
      (sortByKey fst entries).map fun e => (e.1, stableJson D e.2) := sortByKey_map fun _ => rfl
  rw [stableJson, stableEntries_eq, hsort, List.map_map]
  rfl

theorem isNumberChar_of_isDelimiter (h : isDelimiter c = true) : isNumberChar c = false := by
  simp only [isDelimiter, or_eq_true, decide_eq_true_eq] at h
  rcases h with (rfl | rfl) | rfl <;> decide

theorem kindOfChar_of_isDelimiter (h : isDelimiter c = true) : kindOfChar c = 6 := by
  simp only [isDelimiter, or_eq_true, decide_eq_true_eq] at h
  rcases h with (rfl | rfl) | rfl <;> decide

theorem stableJson_append_ne (v : JsonTree (Number φ)) (x y : Text) (hc : isDelimiter c = true) :
    stableJson D v ++ x ≠ c :: y := by
  intro h
  obtain ⟨c', t, ht, hkind⟩ := exists_stableJson_eq_cons D v
  rw [ht, cons_append, List.cons.injEq] at h
  rw [h.1, kindOfChar_of_isDelimiter hc] at hkind
  cases v <;> cases hkind

theorem entryText_append_ne (e : Text × JsonTree (Number φ)) (x y : Text)
    (hc : isDelimiter c = true) :
    entryText D e ++ x ≠ c :: y := by
  intro h
  rw [← (List.cons.inj h).1] at hc
  exact absurd hc (by decide)

theorem entryText_inj {e e' : Text × JsonTree (Number φ)} {Same : Prop}
    (hread : stableJson D e.2 ++ x = stableJson D e'.2 ++ y → Same ∧ x = y)
    (h : entryText D e ++ x = entryText D e' ++ y) : (e.1 = e'.1 ∧ Same) ∧ x = y := by
  rw [entryText, entryText, append_assoc, append_assoc] at h
  obtain ⟨hkey, hvalue⟩ := serdeString_inj h
  obtain ⟨hsame, hxy⟩ := hread (List.cons.inj hvalue).2
  exact ⟨⟨hkey, hsame⟩, hxy⟩

section

variable {R : Number φ → Number φ → Bool} {x y : Text}

theorem eqWith_object_of_forall₂ {entries entries' : List (Text × JsonTree (Number φ))}
    (hnodup : (entries'.map Prod.fst).Nodup)
    (h : List.Forall₂ (fun e e' => e.1 = e'.1 ∧ e.2.eqWith R e'.2 = true)
      (sortByKey Prod.fst entries) (sortByKey Prod.fst entries')) :
        (JsonTree.object entries).eqWith R (.object entries') = true := by
  have hperm := perm_sortByKey fst entries
  have hperm' := perm_sortByKey fst entries'
  rw [eqWith_object_iff]
  constructor
  · rw [← hperm.length_eq, ← hperm'.length_eq]
    exact h.length_eq
  · intro e he
    obtain ⟨e', he', hkey, heq⟩ := exists_mem_of_forall₂ h (hperm.mem_iff.2 he)
    refine ⟨e'.2, ?_, heq⟩
    rw [hkey]
    exact (IndexMap.find_eq_some_iff hnodup).2 (hperm'.mem_iff.1 he')

theorem stableJson_inj (hR : ∀ n, R n n = true) {v v' : JsonTree (Number φ)} (hv : v.Distinct)
    (hv' : v'.Distinct) (hx : Delimited x) (hy : Delimited y)
    (h : stableJson D v ++ x = stableJson D v' ++ y) :
    v.eqWith R v' = true ∧ x = y := by
  have hkind := kind_eq_of_append_eq D h
  induction v generalizing v' x y with
  | null =>
    cases v' with
    | null => exact ⟨rfl, append_cancel_left h⟩
    | _ => cases hkind
  | bool b =>
    cases v' with
    | bool b' =>
      rw [stableJson, stableJson] at h
      have hb : b = b' := by
        cases b <;> cases b' <;> first | rfl | exact absurd (List.cons.inj h).1 (by decide)
      subst hb
      exact ⟨beq_self_eq_true b, append_cancel_left h⟩
    | _ => cases hkind
  | number n =>
    cases v' with
    | number n' =>
      rw [stableJson, stableJson] at h
      obtain ⟨htext, hxy⟩ := append_inj_of_class (n.isNumberChar_text D) (n'.isNumberChar_text D)
        (fun c hc => isNumberChar_of_isDelimiter (hx c hc))
          (fun c hc => isNumberChar_of_isDelimiter (hy c hc)) h
      obtain rfl := Number.text_injective D htext
      exact ⟨hR n, hxy⟩
    | _ => cases hkind
  | string s =>
    cases v' with
    | string s' =>
      rw [stableJson, stableJson] at h
      obtain ⟨rfl, hxy⟩ := serdeString_inj h
      exact ⟨beq_self_eq_true s, hxy⟩
    | _ => cases hkind
  | array items ih =>
    cases v' with
    | array items' =>
      rw [distinct_array_iff] at hv hv'
      rw [stableJson, stableJson, stableItems_eq, stableItems_eq, cons_append, cons_append,
        append_assoc, append_assoc] at h
      rw [eqWith_array_iff]
      refine intercalate_inj rfl (by decide) (fun v x y => stableJson_append_ne D v x y rfl) ?_
        (List.cons.inj h).2
      intro v hmem v' hmem' x y hx hy h
      exact ih v hmem (hv v hmem) (hv' v' hmem') hx hy h (kind_eq_of_append_eq D h)
    | _ => cases hkind
  | object entries ih =>
    cases v' with
    | object entries' =>
      rw [distinct_object_iff] at hv hv'
      rw [stableJson_object, stableJson_object, cons_append, cons_append, append_assoc,
        append_assoc] at h
      have hentries := intercalate_inj (S := fun e e' => e.1 = e'.1 ∧ e.2.eqWith R e'.2 = true) rfl
        (by decide) (fun e x y => entryText_append_ne D e x y rfl) ?_ (List.cons.inj h).2
      · exact ⟨eqWith_object_of_forall₂ hv'.1 hentries.1, hentries.2⟩
      · intro e hmem e' hmem' x y hx hy h
        rw [(perm_sortByKey _ _).mem_iff] at hmem hmem'
        refine entryText_inj D (fun h => ?_) h
        exact ih e hmem (hv.2 e hmem) (hv'.2 e' hmem') hx hy h (kind_eq_of_append_eq D h)
    | _ => cases hkind

end

/-! ## Loose equality -/

variable (fromStr : FromStr φ)

theorem numericPair_swap (a b : JsonTree (Number φ)) :
    numericPair D b a = (numericPair D a b).map Prod.swap := by
  rw [numericPair, numericPair]
  cases toNum D a <;> cases toNum D b <;> rfl

theorem looseEqual_comm (a b : Value φ) : looseEqual D fromStr a b = looseEqual D fromStr b a := by
  have heq : b.1.eqWith (Number.beq D) a.1 = a.1.eqWith (Number.beq D) b.1 := by
    rw [Bool.eq_iff_iff]
    exact ⟨eqWith_symm (Number.beq_symm D) b.2 a.2, eqWith_symm (Number.beq_symm D) a.2 b.2⟩
  rw [looseEqual, looseEqual, heq, or_comm (isNull b.1), numericPair_swap D a.1 b.1,
    or_comm (isContainer b.1)]
  congr 2
  cases numericPair D a.1 b.1 with
  | some p => exact decide_eq_decide.2 eq_comm
  | none =>
    dsimp only [map_none]
    congr 1
    cases tryParseJson fromStr a.1 <;> cases tryParseJson fromStr b.1 <;>
      exact decide_eq_decide.2 eq_comm

variable {a b : Value φ}

theorem looseEqual_container_iff (ha : isContainer a.1 = true) (hb : isContainer b.1 = true) :
    looseEqual D fromStr a b = true ↔ a.1.eqWith (Number.beq D) b.1 = true := by
  have hcontainer : ∀ {v : JsonTree (Number φ)}, isContainer v = true →
      isNull v = false ∧ toNum D v = none ∧ tryParseJson fromStr v = none := by
    intro v hv
    cases v with
    | array items | object entries => exact ⟨rfl, rfl, rfl⟩
    | _ => cases hv
  obtain ⟨hnull, hnum, hparse⟩ := hcontainer ha
  obtain ⟨hnull', -, hparse'⟩ := hcontainer hb
  have hpair : numericPair D a.1 b.1 = none := by rw [numericPair, hnum]; rfl
  rw [looseEqual, hnull, hnull', hpair, ha, hparse, hparse']
  constructor
  · intro h
    by_contra hne
    rw [if_neg hne] at h
    have htext : stableJson D a.1 ++ [] = stableJson D b.1 ++ [] :=
      congrArg (· ++ []) (of_decide_eq_true h)
    have hdelimited : Delimited [] := fun c hc => by cases hc
    exact hne (stableJson_inj D (Number.beq_self D) a.2 b.2 hdelimited hdelimited htext).1
  · exact fun h => if_pos h

variable (a b)

/-- Loose equality is symmetric. On arrays and objects, it is equality up to the order of entries,
    with numbers compared by value, just when that never compares an integer to a double with its
    value. -/
theorem looseEqual_iff : looseEqual D fromStr a b = looseEqual D fromStr b a ∧
    (isContainer a.1 = true → isContainer b.1 = true →
      ((looseEqual D fromStr a b = true ↔ a.1.eqWith (Number.sameValue D) b.1 = true) ↔
        (a.1.eqWith (Number.sameValue D) b.1 = true → a.1.eqWith Number.sameKind b.1 = true))) := by
  refine ⟨looseEqual_comm D fromStr a b, fun ha hb => ?_⟩
  have hbeq : Number.beq D = fun n n' => n.sameValue D n' && n.sameKind n' := by
    funext n n'
    exact Number.beq_eq D n n'
  rw [looseEqual_container_iff D fromStr ha hb, hbeq, eqWith_and]
  tauto

def wholeDoubles : Doubles ℤ where
  value i := i
  text i := intText i ++ ['.', '0']
  round := id
  text_injective _ _ h := intText_injective (List.append_cancel_right h)
  isNumberChar_text i c hc := by
    rcases List.mem_append.1 hc with hc | hc
    · exact isNumberChar_intText i c hc
    · rcases List.mem_cons.1 hc with rfl | hc
      · decide
      · rw [List.mem_singleton.1 hc]
        decide
  marked i := .inl (List.mem_append_right _ List.mem_cons_self)

theorem looseEqual_iff_reordered :
    let v : JsonTree (Number ℤ) := .array [.number (.int 1), .number (.float 2)]
    let a : Value ℤ := ⟨.object [("x", v), ("y", .null)], by
      simp [v, JsonTree.Distinct, JsonTree.DistinctItems, JsonTree.DistinctEntries]⟩
    let b : Value ℤ := ⟨.object [("y", .null), ("x", v)], by
      simp [v, JsonTree.Distinct, JsonTree.DistinctItems, JsonTree.DistinctEntries]⟩
    looseEqual wholeDoubles (fun _ => none) a b = true ∧
      a.1.eqWith (Number.sameValue wholeDoubles) b.1 = true := by
  intro v a b
  have hvalue : a.1.eqWith (Number.sameValue wholeDoubles) b.1 = true := by decide +kernel
  have hkind : a.1.eqWith Number.sameKind b.1 = true := by decide +kernel
  exact ⟨(((looseEqual_iff wholeDoubles (fun _ => none) a b).2 rfl rfl).2 fun _ => hkind).2 hvalue,
    hvalue⟩

theorem looseEqual_integer_double :
    let a : Value ℤ :=
      ⟨.array [.number (.int 1)], by simp [JsonTree.Distinct, JsonTree.DistinctItems]⟩
    let b : Value ℤ :=
      ⟨.array [.number (.float 1)], by simp [JsonTree.Distinct, JsonTree.DistinctItems]⟩
    looseEqual wholeDoubles (fun _ => none) a b = false ∧
      a.1.eqWith (Number.sameValue wholeDoubles) b.1 = true := by
  decide +kernel

end Tropel
