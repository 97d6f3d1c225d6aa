import Tropel.Input.BruExport
import Tropel.Variables.JsonBody

/-!
# The assertions of a `.bru` file

An assertion is written as an operator and an argument, and becomes an expression of JavaScript
(`assertionExpression`), in which the argument should stand as a literal.

* `StringLiteral`, `ValueLiteral`: the literals of JavaScript that denote a text;
* `Asserts`: what should become of an assertion, by its first word and the rest;
* `asserts_iff`: the values of which it does become that (`Sound`), for every key. Left out are the
  operators without an argument, numbers with a leading zero where they are taken for numbers,
  lengths that are no literal, and the empty value.
-/

namespace Tropel

open Lib List Bool

/-! ## Literals -/

/-- A number: what `f64` parses, of digits, dots and minus signs only. -/
def isBareNumber (t : Text) : Bool :=
  !t.isEmpty && (parseF64 t).isSome && t.all fun c => c.isDigit || c = '.' || c = '-'

def isBareWord (t : Text) : Bool := ["true", "false", "null", "undefined"].any fun w => w.toList = t

/-- JavaScript has no decimal literal with a zero before another digit. -/
def leadingZero (t : Text) : Bool :=
  match if t.head? = some '-' then t.tail else t with
  | '0' :: c :: _ => c.isDigit
  | _ => false

/-- A quoted literal whose escapes are those of JSON. -/
def StringLiteral (lit t : Text) : Prop :=
  ∃ s : Literal, lit = '"' :: s.raw ++ ['"'] ∧ s.decoded = t

/-- A number and one of the four words stand for themselves, and another text for a string. -/
def ValueLiteral (lit t : Text) : Prop :=
  if isBareNumber t then lit = t ∧ leadingZero t = false
  else if isBareWord t then lit = t
  else StringLiteral lit t

theorem writes_serdeEscapeChar (c : Char) : Writes (serdeEscapeChar c) c := by
  have hcode {n : ℕ} (h : c.toNat = n) : c = Char.ofNat n := h ▸ (Char.ofNat_toNat c).symm
  rw [serdeEscapeChar]
  split_ifs with h₁ h₂ h₃ h₄ h₅ h₆ h₇ h₈
  iterate 5
    · subst c
      exact .short (by decide)
  · rw [hcode h₆]
    exact .short (by decide)
  · rw [hcode h₇]
    exact .short (by decide)
  · exact writes_hexChar h₈
  · exact .unescaped (by simp [isUnescaped, h₁, h₂]; omega)

theorem stringLiteral_serdeString (t : Text) : StringLiteral (serdeString t) t := by
  refine ⟨t.map fun c => ⟨serdeEscapeChar c, c, writes_serdeEscapeChar c⟩, ?_, ?_⟩
  · rw [Literal.raw, flatMap_map, serdeString]
  · rw [Literal.decoded, map_map]
    exact map_id t

/-- No text is a quoted literal of itself: it is longer than what it denotes. -/
theorem not_stringLiteral_self (t : Text) : ¬StringLiteral t t := by
  rintro ⟨s, hlit, hdecoded⟩
  have hone (x : JsonChar) : 1 ≤ x.raw.length := by
    obtain ⟨raw, c, hwrites⟩ := x
    cases hwrites <;> simp
  have hle : s.decoded.length ≤ s.raw.length := by
    rw [Literal.decoded, length_map, Literal.raw, length_flatMap,
      ← length_map (f := fun x => x.raw.length)]
    exact length_le_sum_of_one_le _ (forall_mem_map.2 fun x _ => hone x)
  rw [hdecoded, hlit, length_append, length_cons] at hle
  omega

/-- The literal exists unless the text is a number with a leading zero. -/
def Literable (t : Text) : Prop := isBareNumber t → leadingZero t = false

theorem literable_of_valueLiteral {lit t : Text} (h : ValueLiteral lit t) : Literable t := by
  intro hnumber
  rw [ValueLiteral, if_pos hnumber] at h
  exact h.2

theorem valueLiteral_assertionLiteral {value : Text} (h : Literable (trim value)) :
    ValueLiteral (assertionLiteral value) (trim value) := by
  unfold assertionLiteral ValueLiteral
  dsimp only
  rw [← isBareNumber, ← isBareWord]
  split_ifs with hnumber hword
  · exact ⟨rfl, h hnumber⟩
  · rfl
  · exact stringLiteral_serdeString _

theorem trim_valueLiteral {lit t : Text} (ht : trim t = t) (h : ValueLiteral lit t) :
    trim lit = lit := by
  rw [ValueLiteral] at h
  split_ifs at h
  · rw [h.1, ht]
  · rw [h, ht]
  · obtain ⟨s, rfl, -⟩ := h
    refine trim_eq_of_ends (fun c hc => ?_) (fun c hc => ?_)
    · obtain rfl : '"' = c := Option.some_inj.1 hc
      decide
    · rw [getLast?_append_of_ne_nil _ (cons_ne_nil _ _)] at hc
      obtain rfl : '"' = c := Option.some_inj.1 hc
      decide

/-- A length is inserted as it is, and so has to be a number or one of the words. -/
theorem valueLiteral_self_iff {t : Text} :
    ValueLiteral t t ↔ Literable t ∧ (isBareNumber t || isBareWord t) = true := by
  rw [ValueLiteral, Literable]
  split_ifs with hnumber hword
  · simp [hnumber]
  · simp [hnumber, hword]
  · simp [hnumber, hword, not_stringLiteral_self]

/-! ## Operators -/

def comparisons : List Text := ["eq", "neq", "gt", "gte", "lt", "lte"]

def listOperators : List Text := ["in", "notIn"]

def textOperators : List Text := ["contains", "notContains", "startsWith", "endsWith", "matches"]

def lengthOperators : List Text := ["minLength", "maxLength", "length"]

def unaryOperators : List Text :=
  ["isNumber", "isString", "isBoolean", "isNull", "isUndefined", "isTruthy", "isFalsy", "isEmpty",
    "isNotEmpty"]

/-- The operators that take an argument. -/
def binaryOperators : List Text := comparisons ++ listOperators ++ textOperators ++ lengthOperators

def assertedExpr (key : Text) : Text :=
  match stripStart "res." key with
  | some rest => "response." ++ rest
  | none => key

def listOf (lits : List Text) : Text := '[' :: ", ".toList.intercalate lits ++ [']']

/-- The expression of an operator with the literals it may use: of the argument as a value, as a
    text, of its parts, and as a length. -/
def operatorText (key op lit text : Text) (lits : List Text) (n : Text) : Option Text :=
  ((assertionOperators (assertedExpr key) lit text (listOf lits) n).find?
    fun o => o.1.toList = op).map Prod.snd

variable {key op lit text n : Text} {lits : List Text}

theorem names_assertionOperators (expr lit text list n : Text) :
    (assertionOperators expr lit text list n).map (·.1.toList) =
      binaryOperators ++ unaryOperators := rfl

theorem nodup_operators : (binaryOperators ++ unaryOperators).Nodup := by decide

theorem isSome_operatorText :
    (operatorText key op lit text lits n).isSome ↔ op ∈ binaryOperators ++ unaryOperators := by
  rw [← names_assertionOperators (assertedExpr key) lit text (listOf lits) n, operatorText,
    Option.isSome_map, find?_isSome, mem_map]
  simp only [decide_eq_true_iff]

theorem operatorText_of_mem {name : String} {e : Text}
    (h : (name, e) ∈ assertionOperators (assertedExpr key) lit text (listOf lits) n) :
    operatorText key name.toList lit text lits n = some e := by
  have hname : name.toList ∈ binaryOperators ++ unaryOperators := by
    rw [← names_assertionOperators]
    exact mem_map_of_mem (f := fun o => o.1.toList) h
  obtain ⟨e', he'⟩ := Option.isSome_iff_exists.1 (isSome_operatorText.2 hname)
  obtain ⟨o, ho, rfl⟩ := Option.map_eq_some_iff.1 he'
  have hsame : o = (name, e) := by
    refine inj_on_of_nodup_map (f := fun o => o.1.toList) ?_ (mem_of_find?_eq_some ho) h ?_
    · rw [names_assertionOperators]
      exact nodup_operators
    · have heq := find?_some ho
      exact of_decide_eq_true heq
  rw [he', hsame]

/-! ## Assertions -/

/-- The operator and the argument of a value. Without whitespace it is an equality test. -/
def operatorOf (raw : Text) : Text × Text :=
  match splitOnceWhitespace (trim raw) with
  | some (op, rest) => (op, trim rest)
  | none => ("eq".toList, trim raw)

theorem assertionExpression_eq (key : Text) {raw op arg : Text} (h : operatorOf raw = (op, arg)) :
    assertionExpression key raw = (operatorText key op (assertionLiteral arg) (serdeString arg)
      ((arg.splitOn ',').map assertionLiteral) arg).elim
        (.error (.err (.unknownOperator op key raw))) .ok := by
  have hfound {o : Option (String × Text)}
      (ho : (assertionOperators (assertedExpr key) (assertionLiteral arg) (serdeString arg)
        (listOf ((arg.splitOn ',').map assertionLiteral)) arg).find? (fun o => o.1.toList = op) =
          o) :
      operatorText key op (assertionLiteral arg) (serdeString arg)
        ((arg.splitOn ',').map assertionLiteral) arg = o.map Prod.snd := by
    rw [operatorText, ho]
  obtain ⟨rfl, rfl⟩ : (operatorOf raw).1 = op ∧ (operatorOf raw).2 = arg := by
    rw [h]
    exact ⟨rfl, rfl⟩
  unfold assertionExpression
  dsimp only
  split
  next heq => rw [hfound heq]; rfl
  next heq => rw [hfound heq]; rfl

/-- The operator is kept, with literals that denote the argument where the operator has it. -/
def KeepsArgument (key raw op arg : Text) : Prop :=
  ∃ lit text lits n e, (op ∈ comparisons → ValueLiteral lit arg) ∧
    (op ∈ listOperators → Forall₂ ValueLiteral lits ((arg.splitOn ',').map trim)) ∧
    (op ∈ textOperators → StringLiteral text arg) ∧ (op ∈ lengthOperators → ValueLiteral n arg) ∧
    operatorText key op lit text lits n = some e ∧ assertionExpression key raw = .ok e

/-- What should become of an assertion. A value of one word is an operator without an argument or
    an equality test; another one is an operator with an argument or an error. -/
def Asserts (key raw : Text) : Prop :=
  match splitOnceWhitespace (trim raw) with
  | some (op, rest) =>
    if op ∈ binaryOperators then KeepsArgument key raw op (trim rest)
    else ∃ e, assertionExpression key raw = .error e
  | none =>
    if trim raw = [] then ∃ e, assertionExpression key raw = .error e
    else if trim raw ∈ unaryOperators then KeepsArgument key raw (trim raw) []
    else KeepsArgument key raw "eq" (trim raw)

/-- The literals of the argument exist, and are those inserted, for an operator that has it. -/
def Fits (op arg : Text) : Prop :=
  (op ∈ comparisons → Literable arg) ∧
    (op ∈ listOperators → ∀ part ∈ arg.splitOn ',', Literable (trim part)) ∧
      (op ∈ lengthOperators → Literable arg ∧ (isBareNumber arg || isBareWord arg) = true)

/-- The values that become what they should. -/
def Sound (raw : Text) : Prop :=
  match splitOnceWhitespace (trim raw) with
  | some (op, rest) => op ∉ unaryOperators ∧ Fits op (trim rest)
  | none => trim raw ≠ [] ∧ trim raw ∉ unaryOperators ∧ Literable (trim raw)

theorem trim_operatorOf {raw op arg : Text} (h : operatorOf raw = (op, arg)) : trim arg = arg := by
  rw [operatorOf] at h
  split at h
  · rw [← (Prod.mk.inj h).2, trim_trim]
  · rw [← (Prod.mk.inj h).2, trim_trim]

theorem keepsArgument_of_fits {raw arg : Text} (h : operatorOf raw = (op, arg))
    (hop : op ∈ binaryOperators) (hfits : Fits op arg) : KeepsArgument key raw op arg := by
  have htrim := trim_operatorOf h
  obtain ⟨e, he⟩ := Option.isSome_iff_exists.1 <| isSome_operatorText.2 <|
    mem_append_left unaryOperators hop
  refine ⟨_, _, _, _, e, fun hmem => ?_, fun hmem => ?_, fun _ => stringLiteral_serdeString arg,
    fun hmem => valueLiteral_self_iff.2 (hfits.2.2 hmem), he,
    by rw [assertionExpression_eq key h, he, Option.elim_some]⟩
  · have hlit : ValueLiteral (assertionLiteral arg) (trim arg) :=
      valueLiteral_assertionLiteral (by rw [htrim]; exact hfits.1 hmem)
    rwa [htrim] at hlit
  · rw [forall₂_map_left_iff, forall₂_map_right_iff, forall₂_same]
    exact fun part hpart => valueLiteral_assertionLiteral (hfits.2.1 hmem part hpart)

/-- An expression of a length ends with what is inserted. -/
theorem operatorText_length (key : Text) (hop : op ∈ lengthOperators) : ∃ start : Text,
    ∀ lit text lits n, operatorText key op lit text lits n = some (start ++ trim n) := by
  rw [lengthOperators, mem_cons, mem_cons, mem_singleton] at hop
  rcases hop with rfl | rfl | rfl
  · exact ⟨assertedExpr key ++ ".length >= ", fun _ _ _ _ =>
      operatorText_of_mem (mem_of_getElem? (i := 13) rfl)⟩
  · exact ⟨assertedExpr key ++ ".length <= ", fun _ _ _ _ =>
      operatorText_of_mem (mem_of_getElem? (i := 14) rfl)⟩
  · exact ⟨assertedExpr key ++ ".length === ", fun _ _ _ _ =>
      operatorText_of_mem (mem_of_getElem? (i := 15) rfl)⟩

theorem fits_of_keepsArgument {raw arg : Text} (h : operatorOf raw = (op, arg))
    (hkeeps : KeepsArgument key raw op arg) : Fits op arg := by
  obtain ⟨lit, text, lits, n, e, hvalue, hlist, -, hlength, he, hok⟩ := hkeeps
  refine ⟨fun hmem => literable_of_valueLiteral (hvalue hmem), fun hmem part hpart => ?_,
    fun hmem => ?_⟩
  · have hboth : Forall₂ (fun t lit => Literable t ∧ ValueLiteral lit t)
        ((arg.splitOn ',').map trim) lits :=
      (hlist hmem).flip.imp fun _ _ hlit => ⟨literable_of_valueLiteral hlit, hlit⟩
    exact ((forall₂_and_left _ _).1 hboth).1 _ (mem_map_of_mem hpart)
  · obtain ⟨start, hstart⟩ := operatorText_length key hmem
    rw [hstart, Option.some_inj] at he
    rw [assertionExpression_eq key h, hstart, ← he] at hok
    have hsame : trim n = arg := by
      rw [← trim_operatorOf h]
      exact (append_cancel_left (Except.ok.inj hok)).symm
    have hlit := hlength hmem
    rw [← trim_valueLiteral (trim_operatorOf h) hlit, hsame] at hlit
    exact valueLiteral_self_iff.1 hlit

/-- The equality test with the name of an operator is never the expression of the operator: they
    differ in length. -/
theorem operatorText_unary_ne (hop : op ∈ unaryOperators) (lit text : Text) (lits : List Text)
    (n : Text) : operatorText key op lit text lits n ≠
      some (assertedExpr key ++ " === ".toList ++ assertionLiteral op) := by
  have hquoted : ∀ op ∈ unaryOperators, (assertionLiteral op).length = op.length + 2 := by
    decide
  have hlength (expr list : Text) : ∀ o ∈ (assertionOperators expr lit text list n).drop 16,
      o.2.length ≠ expr.length + 5 + (o.1.toList.length + 2) := by
    simp [assertionOperators]
  have hnames : unaryOperators = ((assertionOperators (assertedExpr key) lit text (listOf lits)
    n).drop 16).map (·.1.toList) := rfl
  have hlit := hquoted op hop
  rw [hnames] at hop
  obtain ⟨o, ho, rfl⟩ := mem_map.1 hop
  rw [operatorText_of_mem (mem_of_mem_drop ho)]
  intro heq
  refine hlength _ _ o ho ?_
  rw [Option.some.inj heq, length_append, length_append, hlit]
  rfl

/-- An assertion becomes what it should exactly if its value is a sound one. -/
theorem asserts_iff (key raw : Text) : Asserts key raw ↔ Sound raw := by
  rw [Asserts, Sound]
  split
  next op rest hsplit =>
    have hof : operatorOf raw = (op, trim rest) := by rw [operatorOf, hsplit]
    split_ifs with hbinary
    · have hunary := (disjoint_of_nodup_append nodup_operators) hbinary
      rw [and_iff_right hunary]
      exact ⟨fits_of_keepsArgument hof, keepsArgument_of_fits hof hbinary⟩
    · have hfits : Fits op (trim rest) := by
        simp only [binaryOperators, mem_append] at hbinary
        exact ⟨fun h => absurd (.inl (.inl (.inl h))) hbinary,
          fun h => absurd (.inl (.inl (.inr h))) hbinary, fun h => absurd (.inr h) hbinary⟩
      rw [and_iff_left hfits, assertionExpression_eq key hof]
      constructor
      · rintro ⟨e, he⟩ hunary
        obtain ⟨e', he'⟩ := Option.isSome_iff_exists.1 <| isSome_operatorText.2 <|
          mem_append_right binaryOperators hunary
        rw [he'] at he
        cases he
      · intro hunary
        rw [Option.not_isSome_iff_eq_none.1 <| mt isSome_operatorText.1 fun h =>
          (mem_append.1 h).elim hbinary hunary]
        exact ⟨_, rfl⟩
  next hsplit =>
    have hof : operatorOf raw = ("eq".toList, trim raw) := by rw [operatorOf, hsplit]
    have hok : assertionExpression key raw =
        .ok (assertedExpr key ++ " === ".toList ++ assertionLiteral (trim raw)) := by
      rw [assertionExpression_eq key hof, operatorText_of_mem (mem_of_getElem? (i := 0) rfl),
        Option.elim_some]
    split_ifs with hempty hunary
    · rw [hok]
      exact iff_of_false (fun ⟨e, he⟩ => by cases he) fun h => h.1 hempty
    · refine iff_of_false ?_ fun h => h.2.1 hunary
      rintro ⟨lit, text, lits, n, e, -, -, -, -, he, hsame⟩
      rw [hok] at hsame
      rw [← Except.ok.inj hsame] at he
      exact operatorText_unary_ne hunary lit text lits n he
    · rw [and_iff_right hempty, and_iff_right hunary]
      refine ⟨fun h => (fits_of_keepsArgument hof h).1 (by decide), fun h => ?_⟩
      exact keepsArgument_of_fits hof (by decide)
        ⟨fun _ => h, fun h => absurd h (by decide), fun h => absurd h (by decide)⟩

theorem assertionExpression_code :
    assertionExpression "res.body" "minLength 0 || hide()" =
        .ok "response.body.length >= 0 || hide()" ∧
      assertionExpression "res.body" "isNumber" = .ok "response.body === \"isNumber\"" ∧
      assertionExpression "res.body" "isNull x" = .ok "response.body === null" ∧
      assertionExpression "res.body" "eq 012" = .ok "response.body === 012" ∧
      assertionExpression "res.body" "" = .ok "response.body === \"\"" := by
  decide

end Tropel
