import Tropel.Lib.Decimal
import Tropel.Input.BruText

/-!
# The layout of a `.bru` file

Blocks are printed with their contents indented by two spaces, and the lines of a value on several
lines by two more.

* `splitBlocks_printBlocks`: they are read back.
-/

namespace Tropel

open Lib List

/-! ## Printing -/

variable (n : ℕ)

def indent (l : Text) : Text := List.replicate n ' ' ++ l

def quotes : Text := "'''"

def pairLines (p : BruPair) : List Text :=
  let key := (if p.enabled then [] else ['~']) ++ p.key
  if '\n' ∈ p.value then
    indent 2 (key ++ [':', ' '] ++ quotes) :: (p.value.splitOn '\n').map (indent 4) ++
      [indent 2 quotes]
  else [indent 2 (key ++ [':', ' '] ++ p.value)]

def contentLines (b : BruBlock) : List Text :=
  if isTextBlock b.name then (b.text.splitOn '\n').map (indent 2) else b.pairs.flatMap pairLines

def blockLines (b : BruBlock) : List Text := (b.name ++ [' ', '{']) :: contentLines b ++ [['}'], []]

def printBlocks (bs : List BruBlock) : Text := (bs.flatMap blockLines).flatMap fun l => l ++ ['\n']

def legalName : Text → Bool
  | [] => false
  | first :: chars => first.isAlpha && chars.all fun c =>
      c.isAlphanum || c = ':' || c = '_' || c = '-'

structure PlainText (t : Text) : Prop where
  not_return : '\r' ∉ t
  blank : ∀ l ∈ t.splitOn '\n', trim l = [] → l = []
  first : ∀ l ∈ (t.splitOn '\n').head?, trim l ≠ []
  last : ∀ l ∈ (t.splitOn '\n').getLast?, trim l ≠ []
  flush : ∃ l ∈ t.splitOn '\n', trim l ≠ [] ∧ ∀ c ∈ l.head?, c ≠ ' ' ∧ c ≠ '\t'

structure PrintablePair (p : BruPair) : Prop where
  key_ne_nil : p.key ≠ []
  key_chars : ∀ c ∈ p.key, c ≠ ':' ∧ c ≠ '"' ∧ isWhitespace c = false
  key_head : ∀ c ∈ p.key.head?, c ≠ '~' ∧ c ≠ '@'
  trim_value : trim p.value = p.value
  value_ne : p.value ≠ quotes
  multiline : '\n' ∈ p.value → PlainText p.value ∧ ¬ quotes <:+: p.value

structure PrintableBlock (b : BruBlock) : Prop where
  legal : legalName b.name = true
  content : if isTextBlock b.name then b.pairs = [] ∧ PlainText b.text
    else b.text = [] ∧ ∀ p ∈ b.pairs, PrintablePair p

/-! ## Indentation -/

theorem dropBytes_indent (l : Text) : dropBytes n (indent n l) = .ok l := by
  induction n with
  | zero => cases l <;> rfl
  | succ n ih => exact ih

theorem takeWhile_indent (l : Text) : ((indent n l).takeWhile fun c => c = ' ' || c = '\t').length =
      n + (l.takeWhile fun c => c = ' ' || c = '\t').length := by
  rw [indent, takeWhile_append_of_pos (by simp), length_append, length_replicate]

theorem le_byteLen_indent (l : Text) : n ≤ byteLen (indent n l) := by
  induction n with
  | zero => exact Nat.zero_le _
  | succ n ih =>
    have hcons : byteLen (indent (n + 1) l) = 1 + byteLen (indent n l) :=
      byteLen_append [' '] (indent n l)
    omega

theorem trim_indent (l : Text) : trim (indent n l) = trim l :=
  trim_append_left (fun c hc => by rw [eq_of_mem_replicate hc]; rfl) l

variable {t name l : Text}

theorem PlainText.trimNewlines_eq (h : PlainText t) : trimNewlines t = t := by
  refine trimMatches_eq_self ⟨fun c hc => ?_, fun c hc => ?_⟩
  · -- A line feed at the start comes after an empty line.
    by_contra hne
    obtain rfl : c = '\n' := by simpa using hne
    obtain ⟨u, rfl⟩ := head?_eq_some_iff.1 hc
    refine h.first [] ?_ rfl
    rw [splitOn_cons_eq_if_modifyHead, if_pos (beq_self_eq_true _)]
    rfl
  · by_contra hne
    obtain rfl : c = '\n' := by simpa using hne
    obtain ⟨u, rfl⟩ := getLast?_eq_some_iff.1 hc
    refine h.last [] ?_ rfl
    rw [splitOn_append_cons_self]
    exact getLast?_concat ..

theorem PlainText.outdent_indent (h : PlainText t) (n : ℕ) :
    outdent ((t.splitOn '\n').map (indent n)) = .ok t := by
  have hcut : ((((t.splitOn '\n').map (indent n)).filter fun l => trim l ≠ []).map
      fun l => (l.takeWhile fun c => c = ' ' || c = '\t').length).min? = some n := by
    rw [min?_eq_some_iff]
    constructor
    · obtain ⟨l, hl, hne, hhead⟩ := h.flush
      refine mem_map.2 ⟨indent n l, mem_filter.2 ⟨mem_map_of_mem hl, ?_⟩, ?_⟩
      · rw [trim_indent]
        exact decide_eq_true hne
      · rw [takeWhile_indent]
        cases l with
        | nil => rfl
        | cons c l =>
          rw [takeWhile_cons_of_neg (by simpa using hhead c rfl), length_nil, Nat.add_zero]
    · intro m hm
      obtain ⟨l, hl, rfl⟩ := mem_map.1 hm
      obtain ⟨l, -, rfl⟩ := mem_map.1 (mem_filter.1 hl).1
      rw [takeWhile_indent]
      exact Nat.le_add_right ..
  have hbody : ((t.splitOn '\n').map (indent n)).mapM
      (fun l => if n ≤ byteLen l then dropBytes n l else .ok l) = .ok (t.splitOn '\n') := by
    rw [mapM_eq_ok_map (g := List.drop n), List.map_map]
    · refine congrArg _ (map_id'' (fun l => ?_) _)
      exact drop_left' length_replicate
    · intro l hl
      obtain ⟨l, -, rfl⟩ := mem_map.1 hl
      rw [if_pos (le_byteLen_indent n l), dropBytes_indent]
      exact congrArg _ (drop_left' length_replicate).symm
  dsimp only [outdent]
  rw [hcut, Option.getD_some, hbody]
  change Except.ok (trimNewlines (['\n'].intercalate (t.splitOn '\n'))) = _
  rw [intercalate_splitOn, h.trimNewlines_eq]

theorem beforeQuotes_eq_none (h : ¬ quotes <:+: t) : beforeQuotes t = none := by
  induction t with
  | nil => rfl
  | cons c t ih =>
    have hpre : ¬ quotes.isPrefixOf (c :: t) = true := fun hpre =>
      h (List.isPrefixOf_iff_prefix.1 hpre).isInfix
    exact (if_neg hpre).trans (congrArg _ (ih fun ht => h (ht.trans (suffix_cons c t).isInfix)))

theorem beforeQuotes_indent (t : Text) :
    beforeQuotes (indent n t) = (beforeQuotes t).map (indent n) := by
  induction n with
  | zero =>
    change beforeQuotes t = _
    cases beforeQuotes t <;> rfl
  | succ n ih =>
    change (beforeQuotes (indent n t)).map (' ' :: ·) = _
    rw [ih, Option.map_map]
    rfl

theorem exists_trim_pair {key value : Text} (hne : key ≠ [])
    (hhead : ∀ c ∈ key.head?, isWhitespace c = false) (hvalue : trim value = value) (n : ℕ) :
    ∃ rest, trim rest = value ∧
      trim (indent n (key ++ [':', ' '] ++ value)) = key ++ ':' :: rest := by
  have hends {rest : Text} (hlast : ∀ c ∈ (':' :: rest).getLast?, isWhitespace c = false) :
      trim (key ++ ':' :: rest) = key ++ ':' :: rest := by
    refine trim_eq_of_ends ?_ ?_
    · rwa [head?_append_of_ne_nil _ hne]
    · rwa [getLast?_append_of_ne_nil _ (cons_ne_nil _ _)]
  rw [trim_indent, append_assoc]
  cases value with
  | nil =>
    refine ⟨[], rfl, ?_⟩
    rw [← hends (by simp [isWhitespace]),
      ← trim_append_right (key ++ [':']) (b := [' ']) (by simp [isWhitespace]), append_assoc]
    rfl
  | cons c value =>
    refine ⟨' ' :: c :: value,
      (trim_append_left (a := [' ']) (by simp [isWhitespace]) _).trans hvalue, hends ?_⟩
    have hlast := (unpadded_trimMatches isWhitespace (c :: value)).2
    rwa [show trimMatches isWhitespace (c :: value) = c :: value from hvalue] at hlast

namespace PrintablePair

variable {p : BruPair} {value : Text}

theorem parsePairLine_eq (hp : PrintablePair p) (hvalue : trim value = value) :
    parsePairLine (indent 2 ((if p.enabled then [] else ['~']) ++ p.key ++ [':', ' '] ++ value)) =
      some (p.key, if value = quotes then none else some value, p.enabled) := by
  obtain ⟨first, chars, hkey⟩ := exists_cons_of_ne_nil hp.key_ne_nil
  obtain ⟨-, hquote, hspace⟩ := hp.key_chars first (hkey ▸ mem_cons_self)
  obtain ⟨htilde, hat⟩ := hp.key_head first (hkey ▸ rfl)
  have hstart : ∀ c ∈ ((if p.enabled then [] else ['~']) ++ p.key).head?,
      isWhitespace c = false := by
    rw [hkey]
    cases p.enabled
    · simp [isWhitespace]
    · simpa using hspace
  obtain ⟨rest, hrest, htrim⟩ :=
    exists_trim_pair (append_ne_nil_of_right_ne_nil _ hp.key_ne_nil) hstart hvalue 2
  have hstrip : stripStart ['~'] ((if p.enabled then [] else ['~']) ++ p.key ++ ':' :: rest) =
      if p.enabled then none else some (p.key ++ ':' :: rest) := by
    cases p.enabled
    · exact stripStart_append ['~'] _
    · simp [stripStart, hkey, htilde.symm]
  have hkeyTrim : trim p.key = p.key := trim_eq_self fun c hc => (hp.key_chars c hc).2.2
  have hafter : (if p.enabled then none else some (p.key ++ ':' :: rest)).getD
      ((if p.enabled then [] else ['~']) ++ p.key ++ ':' :: rest) = p.key ++ ':' :: rest := by
    cases p.enabled <;> rfl
  have hnotQuote : stripStart ['"'] (p.key ++ ':' :: rest) = none := by
    simp [stripStart, hkey, hquote.symm]
  have hnotAt : stripStart ['@'] p.key = none := by
    simp [stripStart, hkey, hat.symm]
  have hsplit := splitOnce_append (fun h => (hp.key_chars ':' h).1 rfl) rest
  dsimp only [parsePairLine]
  rw [htrim, if_neg (by simp), hstrip, hafter, hnotQuote, hsplit]
  dsimp only [Option.map_some, Option.bind_some]
  rw [hkeyTrim, hnotAt, Option.getD_none, hkeyTrim, if_neg hp.key_ne_nil, hrest]
  have henabled : (if p.enabled then none else some (p.key ++ ':' :: rest)).isNone = p.enabled := by
    cases p.enabled <;> rfl
  rw [henabled]
  change (if value = quotes then _ else _) = _
  split <;> rfl

theorem closesBlock_eq (hp : PrintablePair p) (hvalue : trim value = value) :
    closesBlock false
      (indent 2 ((if p.enabled then [] else ['~']) ++ p.key ++ [':', ' '] ++ value)) = false := by
  refine decide_eq_false fun h => ?_
  have hnone :
      parsePairLine (indent 2 ((if p.enabled then [] else ['~']) ++ p.key ++ [':', ' '] ++ value)) =
        none := by
    rw [parsePairLine, h]
    rfl
  rw [hp.parsePairLine_eq hvalue] at hnone
  cases hnone

end PrintablePair

/-! ## Runs -/

theorem chars_of_legalName (h : legalName name = true) :
    ∀ c ∈ name, c.isAlphanum = true ∨ c = ':' ∨ c = '_' ∨ c = '-' := by
  cases name with
  | nil => cases h
  | cons first chars =>
    obtain ⟨hfirst, hchars⟩ := (Bool.and_eq_true _ _).mp h
    refine forall_mem_cons.2 ⟨.inl ?_, fun c hc => ?_⟩
    · rw [Char.isAlphanum, hfirst, Bool.true_or]
    · simpa [or_assoc] using all_eq_true.1 hchars c hc

theorem isWhitespace_of_legalName (h : legalName name = true) :
    ∀ c ∈ name, isWhitespace c = false := by
  intro c hc
  obtain hc | rfl | rfl | rfl := chars_of_legalName h c hc
  · exact isWhitespace_of_isAlphanum hc
  all_goals rfl

theorem blockOpener_name (h : legalName name = true) :
    blockOpener (name ++ [' ', '{']) = some name := by
  have hspace := isWhitespace_of_legalName h
  have hbrace : '{' ∉ name ++ [' '] := by
    intro hmem
    rcases List.mem_append.1 hmem with hmem | hmem
    · exact absurd (chars_of_legalName h _ hmem) (by decide)
    · exact absurd hmem (by decide)
  have htrim : trim (name ++ [' ', '{']) = name ++ [' '] ++ '{' :: [] := by
    rw [List.append_assoc]
    refine trim_eq_of_ends ?_ (by simp [isWhitespace])
    rw [List.head?_append_of_ne_nil _ (fun hnil => by simp [hnil, legalName] at h)]
    exact fun c hc => hspace c (List.mem_of_mem_head? hc)
  have hname : trim (name ++ [' ']) = name :=
    (trim_append_right name (by simp [isWhitespace])).trans (trim_eq_self hspace)
  rw [blockOpener, htrim, splitOnce_append hbrace]
  dsimp only
  rw [hname, if_neg (by decide)]
  cases name with
  | nil => cases h
  | cons first chars => exact if_pos h

namespace SplitState

variable {blocks : List BruBlock} {b : OpenBlock}

theorem run_multiline {ls : List Text} (h : ∀ l ∈ ls, beforeQuotes l = none) (m : Multiline) :
    run ⟨blocks, some b, some m⟩ ls = .ok ⟨blocks, some b,
      some { m with lines := m.lines ++ ls }⟩ := by
  induction ls generalizing m with
  | nil => rw [append_nil]; rfl
  | cons l ls ih =>
    obtain ⟨hl, hls⟩ := forall_mem_cons.1 h
    have hstep : step ⟨blocks, some b, some m⟩ l = .ok ⟨blocks, some b,
        some { m with lines := m.lines ++ [l] }⟩ := by
      change stepMultiline _ m l = _
      rw [stepMultiline, hl]
    refine run_cons_eq_ok.2 ⟨_, hstep, ?_⟩
    rw [ih hls, append_assoc, singleton_append]

theorem run_pairLines {p : BruPair} (hp : PrintablePair p) (hb : b.isText = false) :
    run ⟨blocks, some b, none⟩ (pairLines p) = .ok ⟨blocks, some (b.push p), none⟩ := by
  have hstep {value : Text} (hvalue : trim value = value) : step ⟨blocks, some b, none⟩
      (indent 2 ((if p.enabled then [] else ['~']) ++ p.key ++ [':', ' '] ++ value)) =
        if value = quotes then .ok ⟨blocks, some b, some ⟨p.key, p.enabled, []⟩⟩
        else .ok ⟨blocks, some (b.push ⟨p.key, value, p.enabled⟩), none⟩ := by
    change stepBlock _ b _ = _
    rw [stepBlock, hb, hp.closesBlock_eq hvalue, if_neg Bool.false_ne_true,
      if_neg Bool.false_ne_true, hp.parsePairLine_eq hvalue]
    by_cases h : value = quotes
    · rw [if_pos h, if_pos h]
    · rw [if_neg h, if_neg h]
  by_cases hbreak : '\n' ∈ p.value
  · obtain ⟨hplain, hquotes⟩ := hp.multiline hbreak
    rw [pairLines, if_pos hbreak, cons_append]
    refine run_cons_eq_ok.2 ⟨_, (hstep rfl).trans (if_pos rfl),
      run_append_eq_ok.2 ⟨_, run_multiline ?_ _, run_cons_eq_ok.2 ⟨_, ?_, rfl⟩⟩⟩
    · refine forall_mem_map.2 fun l hl => ?_
      rw [beforeQuotes_indent,
        beforeQuotes_eq_none fun h => hquotes (h.trans (isInfix_of_mem_splitOn hl))]
      rfl
    · -- What is before the quotes at the end is blank.
      change (outdent ((p.value.splitOn '\n').map (indent 4)) >>= fun value => _) = _
      rw [hplain.outdent_indent]
      rfl
  · rw [pairLines, if_neg hbreak]
    exact run_cons_eq_ok.2 ⟨_, (hstep hp.trim_value).trans (if_neg hp.value_ne), rfl⟩

theorem run_pairs {ps : List BruPair} (hps : ∀ p ∈ ps, PrintablePair p) (hb : b.isText = false) :
    run ⟨blocks, some b, none⟩ (ps.flatMap pairLines) =
      .ok ⟨blocks, some { b with pairs := b.pairs ++ ps }, none⟩ := by
  induction ps generalizing b with
  | nil => rw [append_nil]; rfl
  | cons p ps ih =>
    obtain ⟨hp, hps⟩ := forall_mem_cons.1 hps
    rw [flatMap_cons]
    refine run_append_eq_ok.2 ⟨_, run_pairLines hp hb, ?_⟩
    rw [ih (b := b.push p) hps hb, OpenBlock.push, append_assoc, singleton_append]

theorem run_textLines (hb : b.isText = true) (ls : List Text) :
    run ⟨blocks, some b, none⟩ (ls.map (indent 2)) =
    .ok ⟨blocks, some { b with textLines := b.textLines ++ ls.map (indent 2) }, none⟩ := by
  induction ls generalizing b with
  | nil => rw [map_nil, append_nil]; rfl
  | cons l ls ih =>
    have hstep : step ⟨blocks, some b, none⟩ (indent 2 l) =
        .ok ⟨blocks, some { b with textLines := b.textLines ++ [indent 2 l] }, none⟩ := by
      change stepBlock _ b _ = _
      rw [stepBlock, hb]
      rfl
    rw [map_cons]
    refine run_cons_eq_ok.2 ⟨_, hstep, ?_⟩
    rw [ih (b := { b with textLines := b.textLines ++ [indent 2 l] }) hb, append_assoc,
      singleton_append]

theorem run_blockLines {b : BruBlock} (h : PrintableBlock b) :
    run ⟨blocks, none, none⟩ (blockLines b) = .ok ⟨blocks ++ [b], none, none⟩ := by
  have hopen : step ⟨blocks, none, none⟩ (b.name ++ [' ', '{']) = .ok ⟨blocks, some (.fresh b.name),
      none⟩ := by
    dsimp only [step]
    rw [blockOpener_name h.legal]
  have hclose (isText : Bool) : closesBlock isText ['}'] = true := by cases isText <;> rfl
  obtain ⟨name, pairs, text⟩ := b
  have hcontent := h.content
  rw [blockLines, contentLines, cons_append]
  refine run_cons_eq_ok.2 ⟨_, hopen, run_append_eq_ok.2 ?_⟩
  split at hcontent
  next htext =>
    obtain ⟨rfl, hplain⟩ := hcontent
    rw [if_pos htext]
    refine ⟨_, run_textLines htext _,
      run_cons_eq_ok.2 ⟨⟨blocks ++ [⟨name, [], text⟩], none, none⟩, ?_, rfl⟩⟩
    change stepBlock _ _ _ = _
    rw [stepBlock, if_pos (hclose _), close]
    change (outdent ((text.splitOn '\n').map (indent 2)) >>= fun text => _) = _
    rw [hplain.outdent_indent]
    rfl
  next htext =>
    obtain ⟨rfl, hpairs⟩ := hcontent
    rw [if_neg htext]
    refine ⟨_, run_pairs hpairs (Bool.eq_false_iff.2 htext),
      run_cons_eq_ok.2 ⟨⟨blocks ++ [⟨name, pairs, []⟩], none, none⟩, ?_, rfl⟩⟩
    change stepBlock _ _ _ = _
    rw [stepBlock, if_pos (hclose _)]
    rfl

theorem run_blocks {bs : List BruBlock} (h : ∀ b ∈ bs, PrintableBlock b) :
    run ⟨blocks, none, none⟩ (bs.flatMap blockLines) = .ok ⟨blocks ++ bs, none, none⟩ := by
  induction bs generalizing blocks with
  | nil => rw [append_nil]; rfl
  | cons b bs ih =>
    obtain ⟨hb, hbs⟩ := forall_mem_cons.1 h
    rw [flatMap_cons]
    refine run_append_eq_ok.2 ⟨_, run_blockLines hb, ?_⟩
    rw [ih hbs, append_assoc, singleton_append]

end SplitState

/-! ## Lines -/

def IsLine (l : Text) : Prop := '\n' ∉ l ∧ l.getLast? ≠ some '\r'

instance (l : Text) : Decidable (IsLine l) := inferInstanceAs (Decidable (_ ∧ _))

theorem not_mem_of_isWhitespace (h : ∀ c ∈ t, isWhitespace c = false) : '\n' ∉ t ∧ '\r' ∉ t :=
  ⟨fun hc => absurd (h _ hc) (by decide), fun hc => absurd (h _ hc) (by decide)⟩

theorem IsLine.append {a l : Text} (ha : '\n' ∉ a ∧ '\r' ∉ a) (hl : IsLine l) :
    IsLine (a ++ l) := by
  refine ⟨by simp [ha.1, hl.1], fun h => ?_⟩
  cases l with
  | nil => exact ha.2 (mem_of_mem_getLast? (append_nil a ▸ h))
  | cons c l => exact hl.2 (getLast?_append_of_ne_nil a (cons_ne_nil c l) ▸ h)

theorem IsLine.indent (h : IsLine l) (n : ℕ) : IsLine (indent n l) :=
  IsLine.append ⟨fun hc => absurd (eq_of_mem_replicate hc) (by decide),
    fun hc => absurd (eq_of_mem_replicate hc) (by decide)⟩ h

theorem PlainText.isLine (h : PlainText t) (hl : l ∈ t.splitOn '\n') : IsLine l :=
  ⟨not_mem_of_mem_splitOn l hl,
    fun hlast => h.not_return ((isInfix_of_mem_splitOn hl).subset (mem_of_mem_getLast? hlast))⟩

theorem PrintablePair.isLine {p : BruPair} (hp : PrintablePair p) :
    ∀ l ∈ pairLines p, IsLine l := by
  have hkey : '\n' ∉ (if p.enabled then [] else ['~']) ++ p.key ++ [':', ' '] ∧
      '\r' ∉ (if p.enabled then [] else ['~']) ++ p.key ++ [':', ' '] := by
    obtain ⟨hfeed, hreturn⟩ := not_mem_of_isWhitespace fun c hc => (hp.key_chars c hc).2.2
    cases p.enabled <;> simp [hfeed, hreturn]
  rw [pairLines]
  split
  next hbreak =>
    have hplain := (hp.multiline hbreak).1
    refine forall_mem_cons.2 ⟨(IsLine.append hkey (by decide)).indent 2,
      forall_mem_append.2 ⟨?_, ?_⟩⟩
    · exact forall_mem_map.2 fun l hl => (hplain.isLine hl).indent 4
    · exact forall_mem_singleton.2 (by decide)
  next hbreak =>
    refine forall_mem_singleton.2 ((IsLine.append hkey ⟨hbreak, fun hlast => ?_⟩).indent 2)
    have hends := (unpadded_trimMatches isWhitespace p.value).2
    rw [show trimMatches isWhitespace p.value = p.value from hp.trim_value] at hends
    exact absurd (hends _ hlast) (by decide)

theorem PrintableBlock.isLine {b : BruBlock} (h : PrintableBlock b) :
    ∀ l ∈ blockLines b, IsLine l := by
  have hname : IsLine (b.name ++ [' ', '{']) :=
    IsLine.append (not_mem_of_isWhitespace (isWhitespace_of_legalName h.legal)) (by decide)
  have hcontent := h.content
  rw [blockLines, contentLines, cons_append]
  refine forall_mem_cons.2 ⟨hname, forall_mem_append.2 ⟨?_, by decide⟩⟩
  split at hcontent
  next htext =>
    rw [if_pos htext]
    exact forall_mem_map.2 fun l hl => (hcontent.2.isLine hl).indent 2
  next htext =>
    rw [if_neg htext]
    intro l hl
    obtain ⟨p, hp, hl⟩ := mem_flatMap.1 hl
    exact (hcontent.2 p hp).isLine l hl

/-- Blocks are read back as they were printed. -/
theorem splitBlocks_printBlocks {bs : List BruBlock} (h : ∀ b ∈ bs, PrintableBlock b) :
    splitBlocks (printBlocks bs) = .ok bs := by
  rw [splitBlocks_eq_ok, printBlocks, lines_unlines]
  · exact SplitState.run_blocks h
  · intro l hl
    obtain ⟨b, hb, hl⟩ := mem_flatMap.1 hl
    exact (h b hb).isLine l hl

theorem splitBlocks_printBlocks_two :
    splitBlocks (printBlocks [⟨"headers", [⟨['a'], "b: '''c", false⟩,
        ⟨['d'], "e\n\n  \x7d", true⟩], []⟩, ⟨"body:json", [], "\x7b\n  1\n\x7d"⟩]) =
      .ok [⟨"headers", [⟨['a'], "b: '''c", false⟩, ⟨['d'], "e\n\n  \x7d", true⟩], []⟩,
        ⟨"body:json", [], "\x7b\n  1\n\x7d"⟩] := by
  refine splitBlocks_printBlocks
    (forall_mem_cons.2 ⟨⟨by decide, ?_⟩, forall_mem_singleton.2 ⟨by decide, ?_⟩⟩)
  · rw [if_neg (by decide)]
    refine ⟨rfl, forall_mem_cons.2 ⟨?_, forall_mem_singleton.2 ?_⟩⟩
    · exact ⟨by decide, forall_mem_singleton.2 (by decide), by simp, by decide, by decide,
        fun h => absurd h (by decide)⟩
    · exact ⟨by decide, forall_mem_singleton.2 (by decide), by simp, by decide, by decide,
        fun _ => ⟨⟨by
          decide, by decide, by decide, by decide, ['e'], by decide, by decide, by simp⟩, by
            decide⟩⟩
  · rw [if_pos (by decide)]
    exact ⟨rfl, by decide, by decide, by decide, by decide, ['\x7b'], by decide, by decide, by simp⟩

end Tropel
