import Tropel.Lib.Json
import Tropel.Variables.Resolver

/-!
# Variables in JSON bodies

References in the string literals of a JSON body are resolved in JSON mode, so that values cannot
change its structure.

* `resolveDeepReporting_json`: when the shape is kept.
-/

namespace Tropel

open Lib List Nat Brackets

variable {catalog : Catalog} {scope : VariableScope} {mode : EscapeMode}

/-! ## Passes -/

namespace Catalog

variable {t : Text}

theorem resolveFrom_of_not_infix (h : ¬ ['{', '{', '$'] <:+: t) (size : ℕ) :
    catalog.resolveFrom size t = .ok t := by
  induction t generalizing size with
  | nil =>
    rw [resolveFrom]
    rfl
  | cons c t ih =>
    have hnone : dynamicTokenAt (c :: t) = none := by
      rw [Option.eq_none_iff_forall_ne_some]
      intro tok htok
      exact h (dynamicTokenAt_spec htok).1.isInfix
    have ih := ih (fun ht => h (ht.trans (List.suffix_cons c t).isInfix)) (size + c.utf8Size)
    rw [resolveFrom]
    split
    next h' => rw [hnone] at h'; cases h'
    next =>
      dsimp only
      rw [ih]
      rfl

theorem resolve_of_not_infix (h : ¬ ['{', '{', '$'] <:+: t) : catalog.resolve t = .ok t := by
  rw [resolve]
  split
  · rfl
  split
  · rfl
  exact resolveFrom_of_not_infix h 0

end Catalog

variable {s : Literal} {l : List JsonSymbol} {t before : Text}

theorem hasTwice_of_holeAt {m : Hole Char} (h : braces.holeAt t = some m) :
    hasTwice '{' t = true := by
  obtain ⟨a, b, c, d, ha, hb, -, -, -, -, hwhole, rfl⟩ := holeAt_eq_some_iff.1 h
  simp only [braces, decide_eq_true_eq] at ha hb
  rw [hwhole, ha, hb]
  simp [hasTwice]

theorem pieces_of_not_hasTwice (h : hasTwice '{' t = false) : braces.pieces t = t.map .lit := by
  induction t with
  | nil => simp
  | cons c t ih =>
    have hnone : braces.holeAt (c :: t) = none := by
      rw [Option.eq_none_iff_forall_ne_some]
      intro m hm
      rw [hasTwice_of_holeAt hm] at h
      cases h
    have ht : hasTwice '{' t = false := by
      rcases t with _ | ⟨d, t⟩
      · rfl
      · rw [hasTwice, Bool.or_eq_false_iff] at h
        exact h.2
    rw [pieces_cons hnone, ih ht, List.map_cons]

namespace VariableScope

theorem resolveWith_eq {input : Text} (h : ¬ ['{', '{', '$'] <:+: input) :
    scope.resolveWith catalog mode input =
      Piece.fill (scope.replacement mode) [] (braces.pieces input) := by
  rw [resolveWith]
  split_ifs with htwice
  · rw [pieces_of_not_hasTwice htwice, Piece.fill_map_lit]
  · rw [Catalog.resolve_of_not_infix h]
    rfl

theorem value_resolveDeepReporting (input : Text) (maxPasses : ℕ) :
    (scope.resolveDeepReporting catalog mode input maxPasses).value =
      (scope.resolveWith catalog mode)^[maxPasses] input := by
  have hfixed : ∀ {t : Text}, hasTwice '{' t = false → scope.resolveWith catalog mode t = t := by
    intro t ht
    rw [resolveWith, if_pos ht]
  have hloop : ∀ (n : ℕ) (result : Text) (unresolved : List Text),
      (scope.deepLoop catalog mode n result unresolved).1 =
        (scope.resolveWith catalog mode)^[n] result := by
    intro n
    induction n with
    | zero => exact fun _ _ => rfl
    | succ n ih =>
      intro result unresolved
      rw [deepLoop]
      split
      next htwice => rw [Function.iterate_fixed (hfixed htwice)]
      next =>
        dsimp only
        split
        next hsettled => rw [Function.iterate_fixed hsettled]
        next => rw [ih, Function.iterate_succ_apply]
  rw [resolveDeepReporting]
  split_ifs with htwice
  · rw [Function.iterate_fixed (hfixed htwice)]
  · exact hloop maxPasses input []

end VariableScope

/-! ## Escaping -/

theorem placeholderInJsonString_iff (t : Text) : placeholderInJsonString t = true ↔
    (quoteState t).inside = true := by
  have hstate : ∀ (t : Text) (b : Bool), (t.foldl QuoteState.step ⟨b, false⟩).inside =
      (b ^^ decide (quoteCount t % 2 = 1)) := by
    intro t
    fun_induction quoteCount t with
    | case1 x t ih =>
      intro b
      exact ih b
    | case2 t ih =>
      intro b
      rw [foldl_cons]
      change (t.foldl QuoteState.step ⟨!b, false⟩).inside = _
      rw [ih]
      rcases mod_two_eq_zero_or_one (quoteCount t) with h | h <;> simp [h, add_mod]
    | case3 c t hslash hquote ih =>
      intro b
      by_cases hc : c = '\\'
      · -- A backslash at the end has nothing to escape.
        rcases t with _ | ⟨x, t⟩
        · simp [hc, QuoteState.step, quoteCount]
        · exact absurd rfl (hslash x t hc)
      · rw [foldl_cons, QuoteState.step, if_neg (by simp), if_neg hc, if_neg hquote, ih]
    | case4 => simp
  rw [placeholderInJsonString, quoteState, hstate]
  simp

theorem writes_hexChar {c : Char} (h : c.toNat < 32) :
    Writes ['\\', 'u', '0', '0', hexChar (c.toNat / 16), hexChar (c.toNat % 16)] c := by
  have hhex : ∀ n < 32,
      ['0', '0', hexChar (n / 16), hexChar (n % 16)].all (fun d => (hexDigit d).isSome) = true ∧
      hexValue ['0', '0', hexChar (n / 16), hexChar (n % 16)] = n := by decide
  exact .unicode ⟨rfl, all_eq_true.1 (hhex _ h).1⟩ (hhex _ h).2

theorem writes_jsonEscapeChar (c : Char) : Writes (jsonEscapeChar c) c := by
  rw [jsonEscapeChar]
  split_ifs with h₁ h₂ h₃ h₄ h₅ h₆
  iterate 5
    · subst c
      exact .short (by decide)
  · exact writes_hexChar h₆
  · exact .unescaped (by simp [isUnescaped, h₁, h₂]; omega)

def escapedChar (c : Char) : JsonChar := ⟨jsonEscapeChar c, c, writes_jsonEscapeChar c⟩

theorem raw_map_escapedChar (value : Text) :
    Literal.raw (value.map escapedChar) = jsonEscape value := by
  rw [Literal.raw, flatMap_map]
  rfl

theorem decoded_map_escapedChar (value : Text) :
    Literal.decoded (value.map escapedChar) = value := by
  rw [Literal.decoded, List.map_map]
  exact List.map_id _

theorem jsonEscape_eq_self {value : Text} (h : ∀ c ∈ value, isUnescaped c = true) :
    jsonEscape value = value := by
  have hchar : ∀ c ∈ value, jsonEscapeChar c = [c] := by
    intro c hc
    have hc := h c hc
    simp only [isUnescaped, Bool.and_eq_true, decide_eq_true_eq] at hc
    obtain ⟨⟨hquote, hslash⟩, hcontrol⟩ := hc
    have hne : c ≠ '\n' ∧ c ≠ '\r' ∧ c ≠ '\t' := by
      refine ⟨?_, ?_, ?_⟩
      all_goals
        rintro rfl
        exact absurd hcontrol (by decide)
    rw [jsonEscapeChar, if_neg hquote, if_neg hslash, if_neg hne.1, if_neg hne.2.1, if_neg hne.2.2,
      if_neg (not_lt.2 hcontrol)]
  rw [jsonEscape, flatMap_congr hchar, flatMap_singleton']

/-! ## Literals -/

def literalBraces : Brackets JsonChar where
  isOpen u := braces.isOpen u.char
  isClose u := braces.isClose u.char
  disjoint u := braces.disjoint u.char

def WrittenPlainly (s : Literal) : Prop :=
  ∀ u ∈ s, u.char = '{' ∨ u.char = '}' ∨ u.char = '$' → u.raw = [u.char]

def literalReplacement (scope : VariableScope) (_before whole inner : Literal) : Literal :=
  let name := trim inner.decoded
  if name.head? = some '$' then whole else (scope.resolveVariable name).map escapedChar

def passLiteral (scope : VariableScope) (s : Literal) : Literal :=
  Piece.fill (literalReplacement scope) [] (literalBraces.pieces s)

theorem spells_char (u : JsonChar) :
    Brackets.Spells literalBraces braces (fun u => [u.char]) u where
  isOpen h := ⟨u.char, rfl, h⟩
  isClose h := ⟨u.char, rfl, h⟩
  isName h := ⟨by simp, by simpa [Brackets.isName, literalBraces] using h⟩

theorem spells_raw {u : JsonChar}
    (h : u.char = '{' ∨ u.char = '}' ∨ u.char = '$' → u.raw = [u.char]) :
    Brackets.Spells literalBraces braces JsonChar.raw u where
  isOpen hopen := ⟨u.char, h (.inl (by simpa [literalBraces, braces] using hopen)), hopen⟩
  isClose hclose :=
    ⟨u.char, h (.inr (.inl (by simpa [literalBraces, braces] using hclose))), hclose⟩
  isName hname := by
    refine ⟨u.writes.ne_nil, fun b hb => ?_⟩
    by_contra hbrace
    have hraw : u.raw = [u.char] := by
      refine u.writes.eq_singleton_of_brace hb ?_
      simpa [isName, braces, imp_iff_not_or] using hbrace
    rw [hraw, mem_singleton] at hb
    exact hbrace (hb ▸ hname)

theorem writtenPlainly_map_escapedChar (value : Text) : WrittenPlainly (value.map escapedChar) := by
  intro u hu
  obtain ⟨c, -, rfl⟩ := mem_map.1 hu
  rintro (h | h | h)
  all_goals
    subst h
    rfl

theorem WrittenPlainly.passLiteral (hs : WrittenPlainly s) :
    WrittenPlainly (passLiteral scope s) := by
  refine Piece.forall_mem_fill ?_ (fun before whole inner hmem => ?_) []
  · rw [Piece.flatMap_source_pieces]
    exact hs
  · rw [literalReplacement]
    split_ifs
    · intro u hu
      refine hs u ?_
      rw [← Piece.flatMap_source_pieces literalBraces s]
      exact mem_flatMap.2 ⟨_, hmem, hu⟩
    · exact writtenPlainly_map_escapedChar _

theorem decoded_passLiteral (h : ¬ ['{', '{', '$'] <:+: s.decoded) :
    (passLiteral scope s).decoded = scope.resolveWith catalog .none s.decoded := by
  have hmap : ∀ l : Literal, l.flatMap (fun u => [u.char]) = l.decoded := fun l =>
    (List.map_eq_flatMap ..).symm
  have hpieces : braces.pieces (s.flatMap (fun u => [u.char]) ++ []) =
      (literalBraces.pieces s).flatMap (Piece.expand fun u => [u.char]) ++ braces.pieces [] :=
    pieces_flatMap_append (fun u _ => spells_char u) (by simp) (by simp)
  rw [hmap, List.append_nil, pieces_nil, List.append_nil] at hpieces
  rw [VariableScope.resolveWith_eq h, hpieces, passLiteral, ← hmap]
  refine (Piece.fill_flatMap_expand [] [] fun pre whole inner _ => ?_).symm
  rw [hmap, hmap, hmap, hmap, VariableScope.replacement, literalReplacement]
  dsimp only
  split_ifs
  · rfl
  · rw [decoded_map_escapedChar]
  · rw [decoded_map_escapedChar]

theorem raw_eq_decoded (h : '\\' ∉ s.raw) : s.raw = s.decoded := by
  have hchar : ∀ u ∈ s, u.raw = [u.char] := fun u hu =>
    u.writes.eq_singleton fun hmem => h (mem_flatMap.2 ⟨u, hu, hmem⟩)
  rw [Literal.raw, flatMap_congr hchar, Literal.decoded, map_eq_flatMap]

theorem replacement_raw {pre whole inner : Literal}
    (hbefore : quoteState before = ⟨true, false⟩) (hname : '\\' ∉ inner.raw)
    (hvalue : hasTwice '{' (scope.resolveVariable (trim inner.raw)) = true →
      ∀ c ∈ scope.resolveVariable (trim inner.raw), isUnescaped c = true) :
    scope.replacement .json (before ++ pre.raw) whole.raw inner.raw =
      (literalReplacement scope pre whole inner).raw := by
  have hinside : placeholderInJsonString (before ++ pre.raw) = true := by
    rw [placeholderInJsonString_iff, quoteState_append, hbefore, QuoteState.foldl_step_literal]
  rw [raw_eq_decoded hname] at hvalue ⊢
  rw [VariableScope.replacement, literalReplacement]
  dsimp only
  split_ifs with hdollar htwice
  · rfl
  · rw [raw_map_escapedChar, jsonEscape_eq_self (hvalue htwice)]
  · rw [raw_map_escapedChar]

theorem fill_raw_append (hs : WrittenPlainly s) {before rest : Text}
    (hbefore : quoteState before = ⟨true, false⟩)
    (hnames : ∀ inner ∈ braces.holes (s.raw ++ '"' :: rest), '"' ∉ inner ∧ '\\' ∉ inner)
    (hvalues : ∀ inner ∈ braces.holes (s.raw ++ '"' :: rest),
      hasTwice '{' (scope.resolveVariable (trim inner)) = true →
        ∀ c ∈ scope.resolveVariable (trim inner), isUnescaped c = true) :
    braces.holes ('"' :: rest) ⊆ braces.holes (s.raw ++ '"' :: rest) ∧
    Piece.fill (scope.replacement .json) before (braces.pieces (s.raw ++ '"' :: rest)) =
      (passLiteral scope s).raw ++
        Piece.fill (scope.replacement .json) (before ++ s.raw) (braces.pieces ('"' :: rest)) := by
  have hpieces : braces.pieces (s.raw ++ '"' :: rest) =
      (literalBraces.pieces s).flatMap (Piece.expand JsonChar.raw) ++
        braces.pieces ('"' :: rest) := by
    refine pieces_flatMap_append (fun u hu => spells_raw (hs u hu)) ?_ ?_
    · rintro y ⟨⟩
      rfl
    · rintro inner hinner y ⟨⟩
      exact (hnames inner hinner).1
  have hsource :
      ((literalBraces.pieces s).flatMap (Piece.expand JsonChar.raw)).flatMap Piece.source =
        s.raw := by
    have h := congrArg (List.flatMap Piece.source) hpieces
    rw [List.flatMap_append, Piece.flatMap_source_pieces, Piece.flatMap_source_pieces] at h
    exact (List.append_cancel_right h).symm
  have hfill : Piece.fill (scope.replacement .json) (before ++ Literal.raw [])
      ((literalBraces.pieces s).flatMap (Piece.expand JsonChar.raw)) =
        (passLiteral scope s).raw := by
    refine Piece.fill_flatMap_expand before [] fun pre whole inner hmem => ?_
    have hhole : inner.flatMap JsonChar.raw ∈ braces.holes (s.raw ++ '"' :: rest) := by
      rw [holes, hpieces, List.filterMap_append]
      refine List.mem_append_left _ (List.mem_filterMap.2
        ⟨.hole (whole.flatMap JsonChar.raw) (inner.flatMap JsonChar.raw), ?_, rfl⟩)
      exact List.mem_flatMap.2 ⟨_, hmem, List.mem_singleton.2 rfl⟩
    exact replacement_raw hbefore (hnames _ hhole).2 (hvalues _ hhole)
  rw [Literal.raw, List.flatMap_nil, List.append_nil] at hfill
  constructor
  · rw [holes, holes, hpieces, List.filterMap_append]
    exact List.subset_append_right _ _
  · rw [hpieces, Piece.fill_append, hsource, hfill]

theorem infix_raw_of_infix_decoded (hs : WrittenPlainly s)
    (h : ['{', '{', '$'] <:+: s.decoded) : ['{', '{', '$'] <:+: s.raw := by
  obtain ⟨a, b, h⟩ := h
  rw [Literal.decoded, List.append_assoc, eq_comm, List.map_eq_append_iff] at h
  obtain ⟨s₁, _, rfl, -, h⟩ := h
  rw [List.cons_append, List.cons_append, List.cons_append, List.map_eq_cons_iff] at h
  obtain ⟨u₁, _, rfl, h₁, h⟩ := h
  obtain ⟨u₂, _, rfl, h₂, h⟩ := List.map_eq_cons_iff.1 h
  obtain ⟨u₃, s₂, rfl, h₃, -⟩ := List.map_eq_cons_iff.1 h
  have hraw₁ := hs u₁ (by simp) (.inl h₁)
  have hraw₂ := hs u₂ (by simp) (.inl h₂)
  have hraw₃ := hs u₃ (by simp) (.inr (.inr h₃))
  refine ⟨Literal.raw s₁, Literal.raw s₂, ?_⟩
  simp [Literal.raw, hraw₁, hraw₂, hraw₃, h₁, h₂, h₃]

/-! ## Documents -/

structure Transparent (scope : VariableScope) (x : Text) : Prop where
  names : ∀ inner ∈ braces.holes x, '"' ∉ inner ∧ '\\' ∉ inner
  values : ∀ inner ∈ braces.holes x, hasTwice '{' (scope.resolveVariable (trim inner)) = true →
    ∀ c ∈ scope.resolveVariable (trim inner), isUnescaped c = true
  dynamic : ¬ ['{', '{', '$'] <:+: x

instance (scope : VariableScope) (x : Text) : Decidable (Transparent scope x) :=
  decidable_of_iff
    ((∀ inner ∈ braces.holes x, '"' ∉ inner ∧ '\\' ∉ inner) ∧
      (∀ inner ∈ braces.holes x, hasTwice '{' (scope.resolveVariable (trim inner)) = true →
        (scope.resolveVariable (trim inner)).all isUnescaped = true) ∧
      ¬ ['{', '{', '$'] <:+: x)
    ⟨fun h => ⟨h.1, fun inner hi ht => List.all_eq_true.1 (h.2.1 inner hi ht), h.2.2⟩,
      fun h => ⟨h.names, fun inner hi ht => List.all_eq_true.2 (h.values inner hi ht), h.dynamic⟩⟩

def documentText (l : List JsonSymbol) : Text := l.flatMap JsonSymbol.text

def WrittenPlainlyIn (l : List JsonSymbol) : Prop := ∀ s, JsonSymbol.literal s ∈ l →
    WrittenPlainly s

theorem fill_documentText (hcalm : JsonSymbol.Calm l) (hl : WrittenPlainlyIn l)
    (hbefore : quoteState before = ⟨false, false⟩)
    (hnames : ∀ inner ∈ braces.holes (documentText l), '"' ∉ inner ∧ '\\' ∉ inner)
    (hvalues : ∀ inner ∈ braces.holes (documentText l),
      hasTwice '{' (scope.resolveVariable (trim inner)) = true →
        ∀ c ∈ scope.resolveVariable (trim inner), isUnescaped c = true) :
    Piece.fill (scope.replacement .json) before (braces.pieces (documentText l)) =
      documentText (l.map (JsonSymbol.map (passLiteral scope))) := by
  induction l generalizing before with
  | nil => simp [documentText, Piece.fill]
  | cons x l ih =>
    have hl' : WrittenPlainlyIn l := fun s hs => hl s (List.mem_cons_of_mem _ hs)
    -- A quote is no reference, and neither is a structural character.
    have hquote : ∀ t : Text, braces.holeAt ('"' :: t) = none := fun t =>
      holeAt_cons_eq_none fun h => absurd h (by decide)
    rcases x with c | s
    · obtain ⟨hc, hslash, hopen, hcalm⟩ := hcalm
      have htext : documentText (.struct c :: l) = c :: documentText l := rfl
      have hnone : braces.holeAt (c :: documentText l) = none := by
        refine holeAt_cons_eq_none fun hc b hb => ?_
        have hc : c = '{' := of_decide_eq_true hc
        rcases l with _ | ⟨d | s, l⟩
        · cases hb
        · obtain rfl := Option.some.inj hb
          exact decide_eq_false fun hd => hopen hc (.struct d) rfl (hd ▸ rfl)
        · obtain rfl := Option.some.inj hb
          rfl
      rw [htext, holes_cons hnone] at hnames hvalues
      rw [htext, pieces_cons hnone, Piece.fill, ih hcalm hl' ?_ hnames hvalues]
      · rfl
      · rw [quoteState_append, hbefore]
        simp [QuoteState.step, hc, hslash]
    · have htext : documentText (.literal s :: l) = '"' :: (s.raw ++ '"' :: documentText l) := by
        simp [documentText, JsonSymbol.text]
      rw [htext, holes_cons (hquote _)] at hnames hvalues
      have hopened : quoteState (before ++ ['"']) = ⟨true, false⟩ := by
        rw [quoteState_append, hbefore]
        rfl
      obtain ⟨hsub, hfill⟩ := fill_raw_append (hl s List.mem_cons_self) hopened hnames hvalues
      have hnames := fun inner hinner => hnames inner (hsub hinner)
      have hvalues := fun inner hinner => hvalues inner (hsub hinner)
      rw [holes_cons (hquote _)] at hnames hvalues
      rw [htext, pieces_cons (hquote _), Piece.fill, hfill, pieces_cons (hquote _),
        Piece.fill, ih hcalm hl' ?_ hnames hvalues]
      · simp [documentText, JsonSymbol.text, JsonSymbol.map]
      · rw [quoteState_append, quoteState_append, hopened, QuoteState.foldl_step_literal]
        rfl

theorem WrittenPlainlyIn.map_passLiteral (hl : WrittenPlainlyIn l) :
    WrittenPlainlyIn (l.map (JsonSymbol.map (passLiteral scope))) := by
  intro s hs
  obtain ⟨x, hx, hmap⟩ := mem_map.1 hs
  rcases x with c | s'
  · cases hmap
  · cases hmap
    exact (hl s' hx).passLiteral

theorem infix_documentText (hs : .literal s ∈ l) : s.raw <:+: documentText l := by
  obtain ⟨l₁, l₂, rfl⟩ := append_of_mem hs
  refine ⟨documentText l₁ ++ ['"'], '"' :: documentText l₂, ?_⟩
  simp [documentText, JsonSymbol.text]

theorem resolveWith_documentText (catalog : Catalog) (hcalm : JsonSymbol.Calm l)
    (hl : WrittenPlainlyIn l) (h : Transparent scope (documentText l)) :
    scope.resolveWith catalog .json (documentText l) =
        documentText (l.map (JsonSymbol.map (passLiteral scope))) ∧
      ∀ s, .literal s ∈ l →
        (passLiteral scope s).decoded = scope.resolveWith catalog .none s.decoded := by
  constructor
  · rw [VariableScope.resolveWith_eq h.dynamic]
    exact fill_documentText hcalm hl rfl h.names h.values
  · intro s hs
    refine decoded_passLiteral fun hinfix => h.dynamic ?_
    exact (infix_raw_of_infix_decoded (hl s hs) hinfix).trans (infix_documentText hs)

theorem iterate_resolveWith_documentText (hcalm : JsonSymbol.Calm l) (hl : WrittenPlainlyIn l)
    {n : ℕ} (h : ∀ i < n,
      Transparent scope ((scope.resolveWith catalog .json)^[i] (documentText l))) :
    (scope.resolveWith catalog .json)^[n] (documentText l) =
        documentText (l.map (JsonSymbol.map ((passLiteral scope)^[n]))) ∧
      ∀ s, .literal s ∈ l →
        ((passLiteral scope)^[n] s).decoded = (scope.resolveWith catalog .none)^[n] s.decoded := by
  induction n generalizing l with
  | zero =>
    refine ⟨?_, fun _ _ => rfl⟩
    rw [Function.iterate_zero, Function.iterate_zero, funext JsonSymbol.map_id, map_id']
    rfl
  | succ n ih =>
    obtain ⟨hpass, hdecoded⟩ := resolveWith_documentText catalog hcalm hl (h 0 n.succ_pos)
    have h' : ∀ i < n, Transparent scope ((scope.resolveWith catalog .json)^[i]
        (documentText (l.map (JsonSymbol.map (passLiteral scope))))) := by
      intro i hi
      rw [← hpass, ← Function.iterate_succ_apply]
      exact h (i + 1) (Nat.succ_lt_succ hi)
    obtain ⟨hrest, hdecoded'⟩ := ih ((JsonSymbol.calm_map_iff _ l).2 hcalm) hl.map_passLiteral h'
    refine ⟨?_, fun s hs => ?_⟩
    · rw [Function.iterate_succ_apply, hpass, hrest, List.map_map, Function.iterate_succ]
      congr 2
      funext x
      exact JsonSymbol.map_map _ _ x
    · rw [Function.iterate_succ_apply, Function.iterate_succ_apply, ← hdecoded s hs]
      exact hdecoded' _ (mem_map.2 ⟨_, hs, rfl⟩)

/-- A deep resolution of a JSON text all of whose passes are transparent makes a JSON text
    of the same shape, whose literals stand for what plain resolution makes of them. -/
theorem resolveDeepReporting_json (catalog : Catalog) (scope : VariableScope) {k : JsonSort}
    (t : Json k) (maxPasses : ℕ) (ht : ∀ s ∈ t.literals, WrittenPlainly s)
    (h : ∀ i < maxPasses, Transparent scope ((scope.resolveWith catalog .json)^[i] t.text)) :
    ∃ f : Literal → Literal,
      (scope.resolveDeepReporting catalog .json t.text maxPasses).value = (t.map f).text ∧
      ∀ s ∈ t.literals,
        (f s).decoded = (scope.resolveDeepReporting catalog .none s.decoded maxPasses).value := by
  have hmem : ∀ s, JsonSymbol.literal s ∈ t.symbols ↔ s ∈ t.literals := by
    intro s
    rw [Json.literals, mem_filterMap]
    constructor
    · exact fun hs => ⟨_, hs, rfl⟩
    · rintro ⟨x | s', hx, hs⟩ <;> cases hs
      exact hx
  obtain ⟨htext, hdecoded⟩ := iterate_resolveWith_documentText (JsonSymbol.calm_symbols t)
    (fun s hs => ht s ((hmem s).1 hs)) h
  refine ⟨(passLiteral scope)^[maxPasses], ?_, fun s hs => ?_⟩
  · rw [VariableScope.value_resolveDeepReporting, Json.text, Json.text, Json.symbols_map]
    exact htext
  · rw [VariableScope.value_resolveDeepReporting]
    exact hdecoded s ((hmem s).2 hs)

def oneString (t : Text) : Json .value :=
  .array (.element ⟨[], by simp⟩ (.string (t.map escapedChar)) ⟨[], by simp⟩)

def envScope (env : IndexMap Text Text) : VariableScope where
  vars := ∅
  data := ∅
  env
  collection := ∅
  globals := ∅

def quotedScope : VariableScope :=
  envScope ((∅ : IndexMap Text Text).insert "name" "he said \"hi\"")

theorem resolveDeepReporting_json_quoted :
    (quotedScope.resolveDeepReporting (fun _ _ => none) .json
      (oneString "\x7b\x7bname\x7d\x7d").text
        20).value = "[\"he said \\\"hi\\\"\"]" ∧
    ∃ f : Literal → Literal,
      (quotedScope.resolveDeepReporting (fun _ _ => none) .json
        (oneString "\x7b\x7bname\x7d\x7d").text 20).value =
          ((oneString "\x7b\x7bname\x7d\x7d").map f).text ∧
      ∀ s ∈ (oneString "\x7b\x7bname\x7d\x7d").literals, (f s).decoded =
        (quotedScope.resolveDeepReporting (fun _ _ => none) .none s.decoded 20).value := by
  refine ⟨by decide +kernel, resolveDeepReporting_json _ _ _ _ ?_ ?_⟩
  · intro s hs
    rw [Json.literals] at hs
    obtain rfl := mem_singleton.1 hs
    exact writtenPlainly_map_escapedChar _
  · decide +kernel

def injectingScope : VariableScope :=
  envScope (((∅ : IndexMap Text Text).insert "a" "\",\"\x7b\x7bb\x7d\x7d").insert "b"
    "x")

theorem resolveDeepReporting_json_injected :
    (injectingScope.resolveDeepReporting (fun _ _ => none) .json
      (oneString "\x7b\x7ba\x7d\x7d").text
        20).value = "[\"\",\"x\"]" ∧
    ¬ ∃ f : Literal → Literal,
      (injectingScope.resolveDeepReporting (fun _ _ => none) .json
        (oneString "\x7b\x7ba\x7d\x7d").text 20).value =
          ((oneString "\x7b\x7ba\x7d\x7d").map f).text := by
  have hvalue : (injectingScope.resolveDeepReporting (fun _ _ => none) .json
      (oneString "\x7b\x7ba\x7d\x7d").text 20).value = "[\"\",\"x\"]" := by decide +kernel
  refine ⟨hvalue, ?_⟩
  rintro ⟨f, hf⟩
  rw [hvalue] at hf
  -- The literal of a text of the same shape would start with a quote.
  have hraw : (f ("\x7b\x7ba\x7d\x7d".toList.map escapedChar)).raw ++ ['"', ']'] =
      '"' :: ",\"x\"]" := by
    simpa [oneString, Json.map, Json.text, Json.symbols, JsonSymbol.text, eq_comm] using hf
  rcases hlit : f ("\x7b\x7ba\x7d\x7d".toList.map escapedChar) with _ | ⟨u, us⟩
  · rw [hlit] at hraw
    simp [Literal.raw] at hraw
  · rw [hlit, Literal.raw, flatMap_cons, append_assoc] at hraw
    obtain ⟨x, xs, hx⟩ := exists_cons_of_ne_nil u.writes.ne_nil
    rw [hx, cons_append, List.cons.injEq] at hraw
    exact u.writes.head_ne_quote (by rw [hx, hraw.1]; rfl)

end Tropel
