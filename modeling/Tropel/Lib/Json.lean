import Tropel.Lib.Rust

/-!
# JSON texts

The syntax trees of JSON texts, with their white space (`Json`).
-/

namespace Lib

open List Bool

/-! ## String literals -/

def hexDigit (c : Char) : Option ℕ :=
  if '0' ≤ c ∧ c ≤ '9' then some (c.toNat - '0'.toNat)
  else if 'a' ≤ c ∧ c ≤ 'f' then some (c.toNat - 'a'.toNat + 10)
  else if 'A' ≤ c ∧ c ≤ 'F' then some (c.toNat - 'A'.toNat + 10)
  else none

def hexValue (digits : Text) : ℕ := digits.foldl (fun n d => 16 * n + (hexDigit d).getD 0) 0

def IsHex4 (digits : Text) : Prop := digits.length = 4 ∧ ∀ d ∈ digits, (hexDigit d).isSome = true

def shortEscapes : List (Char × Char) :=
  [('"', '"'), ('\\', '\\'), ('/', '/'), ('b', '\x08'), ('f', '\x0c'), ('n', '\n'), ('r', '\r'),
    ('t', '\t')]

def isUnescaped (c : Char) : Bool := c ≠ '"' && c ≠ '\\' && 32 ≤ c.toNat

inductive Writes : Text → Char → Prop
  | unescaped {c : Char} (h : isUnescaped c = true) : Writes [c] c
  | short {x c : Char} (h : (x, c) ∈ shortEscapes) : Writes ['\\', x] c
  | unicode {digits : Text} {c : Char} (h : IsHex4 digits) (hc : hexValue digits = c.toNat) :
      Writes ('\\' :: 'u' :: digits) c
  | surrogates {high low : Text} {c : Char} (hhigh : IsHex4 high) (hlow : IsHex4 low)
      (hrange : 0xd800 ≤ hexValue high ∧ hexValue high < 0xdc00 ∧ 0xdc00 ≤ hexValue low ∧
        hexValue low < 0xe000)
      (hc : 0x10000 + (hexValue high - 0xd800) * 0x400 + (hexValue low - 0xdc00) = c.toNat) :
      Writes ('\\' :: 'u' :: high ++ '\\' :: 'u' :: low) c

structure JsonChar where
  raw : Text
  char : Char
  writes : Writes raw char

abbrev Literal := List JsonChar

namespace Literal

def raw (s : Literal) : Text := s.flatMap JsonChar.raw

def decoded (s : Literal) : Text := s.map JsonChar.char

end Literal

/-! ## Trees -/

def isJsonSpace (c : Char) : Bool := c = ' ' || c = '\t' || c = '\n' || c = '\r'

abbrev JsonSpace := { t : Text // ∀ c ∈ t, isJsonSpace c = true }

def digitChar (d : Fin 10) : Char := Char.ofNat (48 + d)

abbrev Digits := Fin 10 × List (Fin 10)

def Digits.text (ds : Digits) : Text := (ds.1 :: ds.2).map digitChar

structure JsonNumber where
  negative : Bool
  int : Option (Fin 9 × List (Fin 10))
  frac : Option Digits
  exponent : Option (Bool × Option Bool × Digits)

def JsonNumber.text (n : JsonNumber) : Text :=
  (if n.negative then ['-'] else []) ++
  (match n.int with
    | none => ['0']
    | some (d, ds) => Digits.text (d.succ, ds)) ++
  (match n.frac with
    | none => []
    | some ds => '.' :: ds.text) ++
  (match n.exponent with
    | none => []
    | some (upper, sign, ds) =>
      (if upper then 'E' else 'e') ::
        (match sign with
          | none => []
          | some minus => [if minus then '-' else '+']) ++ ds.text)

inductive JsonSort
  | value
  | elements
  | members

inductive Json : JsonSort → Type
  | null : Json .value
  | bool (b : Bool) : Json .value
  | number (n : JsonNumber) : Json .value
  | string (s : Literal) : Json .value
  | emptyArray (w : JsonSpace) : Json .value
  | array (es : Json .elements) : Json .value
  | emptyObject (w : JsonSpace) : Json .value
  | object (ms : Json .members) : Json .value
  | element (w : JsonSpace) (v : Json .value) (w' : JsonSpace) : Json .elements
  | elements (w : JsonSpace) (v : Json .value) (w' : JsonSpace) (es : Json .elements) :
      Json .elements
  | member (w₁ : JsonSpace) (k : Literal) (w₂ w₃ : JsonSpace) (v : Json .value) (w₄ : JsonSpace) :
      Json .members
  | members (w₁ : JsonSpace) (k : Literal) (w₂ w₃ : JsonSpace) (v : Json .value) (w₄ : JsonSpace)
      (ms : Json .members) : Json .members

inductive JsonSymbol
  | struct (c : Char)
  | literal (s : Literal)

namespace JsonSymbol

def text : JsonSymbol → Text
  | struct c => [c]
  | literal s => '"' :: s.raw ++ ['"']

def map (f : Literal → Literal) : JsonSymbol → JsonSymbol
  | struct c => struct c
  | literal s => literal (f s)

theorem map_map (f g : Literal → Literal) (x : JsonSymbol) : (x.map f).map g = x.map (g ∘ f) := by
  rcases x <;> rfl

theorem map_id (x : JsonSymbol) : x.map id = x := by
  rcases x <;> rfl

def Calm : List JsonSymbol → Prop
  | [] => True
  | struct c :: l => c ≠ '"' ∧ c ≠ '\\' ∧ (c = '{' → ∀ d ∈ l.head?, d ≠ struct '{') ∧ Calm l
  | literal _ :: l => Calm l

end JsonSymbol

namespace Json

variable {k : JsonSort}

def symbols : {k : JsonSort} → Json k → List JsonSymbol
  | _, null => "null".toList.map .struct
  | _, bool b => (if b then "true" else "false").toList.map .struct
  | _, number n => n.text.map .struct
  | _, string s => [.literal s]
  | _, emptyArray w => .struct '[' :: w.1.map .struct ++ [.struct ']']
  | _, array es => .struct '[' :: es.symbols ++ [.struct ']']
  | _, emptyObject w => .struct '{' :: w.1.map .struct ++ [.struct '}']
  | _, object ms => .struct '{' :: ms.symbols ++ [.struct '}']
  | _, element w v w' => w.1.map .struct ++ v.symbols ++ w'.1.map .struct
  | _, elements w v w' es =>
    w.1.map .struct ++ v.symbols ++ w'.1.map .struct ++ .struct ',' :: es.symbols
  | _, member w₁ k w₂ w₃ v w₄ =>
    w₁.1.map .struct ++ .literal k :: w₂.1.map .struct ++ .struct ':' :: w₃.1.map .struct ++
      v.symbols ++
      w₄.1.map .struct
  | _, members w₁ k w₂ w₃ v w₄ ms =>
    w₁.1.map .struct ++ .literal k :: w₂.1.map .struct ++ .struct ':' :: w₃.1.map .struct ++
      v.symbols ++
      w₄.1.map .struct ++ .struct ',' :: ms.symbols

def text (t : Json k) : Text := t.symbols.flatMap JsonSymbol.text

def literals (t : Json k) : List Literal :=
  t.symbols.filterMap fun
    | .struct _ => none
    | .literal s => some s

def map (f : Literal → Literal) : {k : JsonSort} → Json k → Json k
  | _, null => null
  | _, bool b => bool b
  | _, number n => number n
  | _, string s => string (f s)
  | _, emptyArray w => emptyArray w
  | _, array es => array (es.map f)
  | _, emptyObject w => emptyObject w
  | _, object ms => object (ms.map f)
  | _, element w v w' => element w (v.map f) w'
  | _, elements w v w' es => elements w (v.map f) w' (es.map f)
  | _, member w₁ k w₂ w₃ v w₄ => member w₁ (f k) w₂ w₃ (v.map f) w₄
  | _, members w₁ k w₂ w₃ v w₄ ms => members w₁ (f k) w₂ w₃ (v.map f) w₄ (ms.map f)

theorem symbols_map (f : Literal → Literal) (t : Json k) :
    (t.map f).symbols = t.symbols.map (JsonSymbol.map f) := by
  have hspace : JsonSymbol.map f ∘ JsonSymbol.struct = .struct := rfl
  induction t <;> simp [map, symbols, JsonSymbol.map, *]

end Json

namespace JsonSymbol

/-! ## Outside of literals -/

def isOutside (c : Char) : Bool := c ≠ '"' && c ≠ '\\' && c ≠ '{'

variable {l : List JsonSymbol} {k : JsonSort} {c : Char}

theorem Calm.cons_of_isOutside (hc : isOutside c = true) (hl : Calm l) : Calm (struct c :: l) := by
  simp only [isOutside, and_eq_true, decide_eq_true_eq] at hc
  exact ⟨hc.1.1, hc.1.2, fun h => absurd h hc.2, hl⟩

theorem Calm.append_of_isOutside {t : Text} (ht : ∀ c ∈ t, isOutside c = true)
    (hl : Calm l) : Calm (t.map struct ++ l) := by
  induction t with
  | nil => exact hl
  | cons c t ih =>
    exact (ih fun d hd => ht d (mem_cons_of_mem _ hd)).cons_of_isOutside (ht c mem_cons_self)

theorem isOutside_of_isJsonSpace (h : isJsonSpace c = true) : isOutside c = true := by
  simp only [isJsonSpace, or_eq_true, decide_eq_true_eq] at h
  rcases h with ((rfl | rfl) | rfl) | rfl <;> rfl

theorem isOutside_digits {ds : Digits} : ∀ c ∈ ds.text, isOutside c = true := by
  intro c hc
  obtain ⟨d, -, rfl⟩ := mem_map.1 hc
  clear hc
  revert d
  decide

theorem isOutside_number {n : JsonNumber} : ∀ c ∈ n.text, isOutside c = true := by
  rw [JsonNumber.text]
  simp only [forall_mem_append]
  refine ⟨⟨⟨?_, ?_⟩, ?_⟩, ?_⟩
  · split <;> exact all_eq_true.1 rfl
  · split
    · exact all_eq_true.1 rfl
    · exact isOutside_digits
  · split
    · simp
    · exact forall_mem_cons.2 ⟨rfl, isOutside_digits⟩
  · split
    · simp
    · next upper sign ds _ =>
      rw [cons_append, forall_mem_cons, forall_mem_append]
      refine ⟨?_, ?_, isOutside_digits⟩
      · rcases upper <;> rfl
      · rcases sign with _ | _ | _ <;> exact all_eq_true.1 rfl

theorem calm_symbols_append (t : Json k) (hl : Calm l) : Calm (t.symbols ++ l) := by
  have hspace : ∀ (w : JsonSpace) {l : List JsonSymbol}, Calm l → Calm (w.1.map struct ++ l) :=
    fun w l hl =>
    hl.append_of_isOutside fun c hc => isOutside_of_isJsonSpace (w.2 c hc)
  -- What follows white space is seen through it.
  have hhead : ∀ (w : JsonSpace) {l : List JsonSymbol}, (∀ d ∈ l.head?, d ≠ struct '{') →
      ∀ d ∈ (w.1.map struct ++ l).head?, d ≠ struct '{' := by
    rintro ⟨_ | ⟨c, w⟩, hw⟩ l hl d hd
    · exact hl d hd
    · obtain rfl := Option.some.inj hd
      rintro ⟨⟩
      exact absurd (hw '{' mem_cons_self) (by decide)
  induction t generalizing l with
  | null => exact hl.append_of_isOutside (all_eq_true.1 rfl)
  | bool b => exact hl.append_of_isOutside (by rcases b <;> exact all_eq_true.1 rfl)
  | number n => exact hl.append_of_isOutside isOutside_number
  | string s => exact hl
  | emptyArray w =>
    rw [Json.symbols, append_assoc, cons_append]
    exact (hspace w (hl.cons_of_isOutside rfl)).cons_of_isOutside rfl
  | array es ih =>
    rw [Json.symbols, append_assoc, cons_append]
    exact (ih (hl.cons_of_isOutside rfl)).cons_of_isOutside rfl
  | emptyObject w =>
    rw [Json.symbols, append_assoc, cons_append]
    exact ⟨by decide, by decide, fun _ => hhead w (by simp), hspace w (hl.cons_of_isOutside rfl)⟩
  | object ms ih =>
    rw [Json.symbols, append_assoc, cons_append]
    refine ⟨by decide, by decide, fun _ => ?_, ih (hl.cons_of_isOutside rfl)⟩
    cases ms with
    | member w₁ k w₂ w₃ v w₄ | members w₁ k w₂ w₃ v w₄ ms =>
      simp only [Json.symbols, append_assoc, cons_append]
      exact hhead w₁ (by simp)
  | element w v w' ih =>
    simp only [Json.symbols, append_assoc]
    exact hspace w (ih (hspace w' hl))
  | elements w v w' es ihv ihes =>
    simp only [Json.symbols, append_assoc, cons_append]
    exact hspace w (ihv (hspace w' ((ihes hl).cons_of_isOutside rfl)))
  | member w₁ k w₂ w₃ v w₄ ih =>
    simp only [Json.symbols, append_assoc, cons_append]
    exact hspace w₁ (hspace w₂ ((hspace w₃ (ih (hspace w₄ hl))).cons_of_isOutside rfl))
  | members w₁ k w₂ w₃ v w₄ ms ihv ihms =>
    simp only [Json.symbols, append_assoc, cons_append]
    have hrest := (ihms hl).cons_of_isOutside (c := ',') rfl
    exact hspace w₁ (hspace w₂ ((hspace w₃ (ihv (hspace w₄ hrest))).cons_of_isOutside rfl))

theorem calm_symbols (t : Json k) : Calm t.symbols := by
  have h := calm_symbols_append t (show Calm [] from trivial)
  rwa [append_nil] at h

theorem calm_map_iff (f : Literal → Literal) (l : List JsonSymbol) :
    Calm (l.map (map f)) ↔ Calm l := by
  induction l with
  | nil => rfl
  | cons x l ih =>
    rcases x with c | s
    · rw [map_cons, map, Calm, Calm, ih, head?_map]
      rcases l with _ | ⟨d | s', l⟩ <;> simp [map]
    · exact ih

end JsonSymbol

/-! ## How characters are written -/

theorem IsHex4.isOutside {digits : Text} (h : IsHex4 digits) :
    ∀ d ∈ digits, JsonSymbol.isOutside d = true := by
  intro d hd
  have hsome := h.2 d hd
  simp only [JsonSymbol.isOutside, and_eq_true, decide_eq_true_eq]
  refine ⟨⟨?_, ?_⟩, ?_⟩
  all_goals
    rintro rfl
    exact absurd hsome (by decide)

namespace Writes

variable {raw : Text} {c : Char}

theorem eq_singleton (h : Writes raw c) (hraw : '\\' ∉ raw) : raw = [c] := by
  cases h with
  | unescaped => rfl
  | short | unicode | surrogates => exact absurd mem_cons_self hraw

theorem ne_nil (h : Writes raw c) : raw ≠ [] := by
  cases h <;> exact cons_ne_nil _ _

theorem head_ne_quote (h : Writes raw c) : raw.head? ≠ some '"' := by
  cases h with
  | unescaped hc =>
    rintro ⟨⟩
    exact absurd hc (by decide)
  | short | unicode | surrogates => simp

theorem eq_singleton_of_brace (h : Writes raw c) {x : Char} (hx : x ∈ raw)
    (hbrace : x = '{' ∨ x = '}') : raw = [c] := by
  have hhex : ∀ {digits : Text}, IsHex4 digits → x ∉ digits := by
    intro digits hdigits hmem
    have hsome := hdigits.2 x hmem
    rcases hbrace with rfl | rfl <;> exact absurd hsome (by decide)
  have hslash : x ≠ '\\' := by rcases hbrace with rfl | rfl <;> decide
  have hu : x ≠ 'u' := by rcases hbrace with rfl | rfl <;> decide
  cases h with
  | unescaped => rfl
  | @short y c hmem =>
    rw [mem_pair] at hx
    obtain rfl := hx.resolve_left hslash
    rcases hbrace with rfl | rfl <;> simp [shortEscapes] at hmem
  | unicode hdigits =>
    simp [hslash, hu, hhex hdigits] at hx
  | surrogates hhigh hlow =>
    simp [hslash, hu, hhex hhigh, hhex hlow] at hx

end Writes

/-! ## Open literals -/

structure QuoteState where
  inside : Bool
  escaped : Bool
  deriving DecidableEq

namespace QuoteState

def step (s : QuoteState) (c : Char) : QuoteState :=
  if s.escaped then { s with escaped := false }
  else if c = '\\' then { s with escaped := true }
  else if c = '"' then { s with inside := !s.inside }
  else s

theorem foldl_step_of_isOutside {t : Text} (h : ∀ c ∈ t, JsonSymbol.isOutside c = true) (b : Bool) :
    t.foldl step ⟨b, false⟩ = ⟨b, false⟩ := by
  induction t with
  | nil => rfl
  | cons c t ih =>
    have hc := h c mem_cons_self
    simp only [JsonSymbol.isOutside, and_eq_true, decide_eq_true_eq] at hc
    rw [foldl_cons, step, if_neg (by simp), if_neg hc.1.2, if_neg hc.1.1,
      ih fun d hd => h d (mem_cons_of_mem _ hd)]

theorem foldl_step_raw (u : JsonChar) (b : Bool) : u.raw.foldl step ⟨b, false⟩ = ⟨b, false⟩ := by
  rcases u with ⟨raw, c, h⟩
  cases h with
  | unescaped hc =>
    simp only [isUnescaped, and_eq_true, decide_eq_true_eq] at hc
    simp [step, hc.1.1, hc.1.2]
  | short => rfl
  | unicode hdigits => exact foldl_step_of_isOutside hdigits.isOutside b
  | surrogates hhigh hlow =>
    have h := foldl_step_of_isOutside hhigh.isOutside b
    dsimp only
    rw [cons_append, cons_append, foldl_cons, foldl_cons, foldl_append]
    change (_ : Text).foldl step (List.foldl step ⟨b, false⟩ _) = _
    rw [h]
    exact foldl_step_of_isOutside hlow.isOutside b

theorem foldl_step_literal (s : Literal) (b : Bool) : s.raw.foldl step ⟨b, false⟩ = ⟨b, false⟩ := by
  induction s with
  | nil => rfl
  | cons u s ih => rw [Literal.raw, flatMap_cons, foldl_append, foldl_step_raw, ← Literal.raw, ih]

end QuoteState

def quoteState (t : Text) : QuoteState := t.foldl QuoteState.step ⟨false, false⟩

theorem quoteState_append (t t' : Text) :
    quoteState (t ++ t') = t'.foldl QuoteState.step (quoteState t) :=
  foldl_append ..

end Lib
