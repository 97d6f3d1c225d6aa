import Tropel.Input.BruExport

/-!
# Slices of a `.bru` file

The reader cuts lines at offsets in bytes, and a cut that is not between two characters panics.

* `bruTextToJson_eq_panic_iff`: which files do that.
-/

namespace Tropel

open Lib List Option Nat

/-! ## Offsets -/

def findByte (c : Char) : Text → Option ℕ
  | [] => none
  | x :: t => if x = c then some 0 else (findByte c t).map (x.utf8Size + ·)

def findQuotes : Text → Option ℕ
  | [] => none
  | c :: t => if "'''".toList.isPrefixOf (c :: t) then some 0 else (findQuotes t).map (c.utf8Size +
      ·)

def takeBytes : ℕ → Text → Result BruError Text
  | 0, _ => .ok []
  | _ + 1, [] => .error .panic
  | n + 1, c :: t =>
    if c.utf8Size ≤ n + 1 then (takeBytes (n + 1 - c.utf8Size) t).map (c :: ·) else .error .panic

def blockOpenerBytes (line : Text) : Result BruError (Option Text) :=
  let t := trim line
  match findByte '{' t with
  | none => .ok none
  | some nameEnd => do
    let name ← takeBytes nameEnd t
    let rest ← dropBytes (nameEnd + 1) t
    return if trim rest ≠ [] then none
      else match trim name with
        | [] => none
        | first :: chars =>
          if first.isAlpha && chars.all fun c => c.isAlphanum || c = ':' || c = '_' || c = '-' then
            some (first :: chars)
          else none

def splitPairBytes (rest : Text) : Result BruError (Option (Text × Text)) :=
  match stripStart ['"'] rest with
  | some afterQuote =>
    match findByte '"' afterQuote with
    | none => .ok none
    | some keyEnd => do
      let key ← takeBytes keyEnd afterQuote
      match findByte ':' (← dropBytes keyEnd afterQuote) with
      | none => return none
      | some colon => return some (key, trim (← dropBytes (keyEnd + colon + 1) afterQuote))
  | none =>
    match findByte ':' rest with
    | none => .ok none
    | some colon => return some (trim (← takeBytes colon rest), trim (← dropBytes (colon + 1) rest))

def parsePairLineBytes (raw : Text) : Result BruError (Option (Text × Option Text × Bool)) := do
  let line := trim raw
  if line = [] then return none
  let disabled := stripStart ['~'] line
  let pair ← splitPairBytes (disabled.getD line)
  return pair.bind fun (key, value) =>
    let key := trim ((stripStart ['@'] key).getD key)
    if key = [] then none
    else if value = "'''" then some (key, none, disabled.isNone)
    else some (key, some value, disabled.isNone)

def beforeQuotesBytes (raw : Text) : Result BruError (Option Text) :=
  match findQuotes raw with
  | none => .ok none
  | some quotesStart => (takeBytes quotesStart raw).map some

theorem findByte_eq (c : Char) (t : Text) : findByte c t = (splitOnce c t).map fun p =>
    byteLen p.1 := by
  induction t with
  | nil => rfl
  | cons x t ih =>
    rw [findByte, splitOnce]
    split
    · rfl
    · rw [ih, Option.map_map, Option.map_map]
      rfl

theorem exists_byteLen_cons (c : Char) (a : Text) :
    ∃ n, byteLen (c :: a) = n + 1 ∧ c.utf8Size ≤ n + 1 ∧ n + 1 - c.utf8Size = byteLen a := by
  have hlen : byteLen (c :: a) = c.utf8Size + byteLen a := byteLen_append [c] a
  obtain ⟨n, hn⟩ := exists_eq_add_one.2 (byteLen_pos (cons_ne_nil c a))
  exact ⟨n, hn, by omega, by omega⟩

theorem takeBytes_append (a b : Text) : takeBytes (byteLen a) (a ++ b) = .ok a := by
  induction a with
  | nil => cases b <;> rfl
  | cons c a ih =>
    obtain ⟨n, hn, hle, hsub⟩ := exists_byteLen_cons c a
    rw [hn, cons_append, takeBytes, if_pos hle, hsub, ih]
    rfl

variable {l : Text} {n : ℕ}

theorem dropBytes_eq_ok {t b : Text} : dropBytes n t = .ok b ↔ ∃ a, t = a ++ b ∧ byteLen a = n := by
  constructor
  · intro h
    induction n, t using dropBytes.induct with
    | case1 t =>
      cases (Except.ok.inj ((dropBytes.eq_def 0 t).symm.trans h))
      exact ⟨[], rfl, rfl⟩
    | case2 n => cases h
    | case3 n c t hc ih =>
      rw [dropBytes, if_pos hc] at h
      obtain ⟨a, rfl, ha⟩ := ih h
      refine ⟨c :: a, rfl, (byteLen_append [c] a).trans ?_⟩
      have hlen : byteLen [c] = c.utf8Size := rfl
      omega
    | case4 n c t hc =>
      rw [dropBytes, if_neg hc] at h
      cases h
  · rintro ⟨a, rfl, rfl⟩
    induction a with
    | nil => cases b <;> rfl
    | cons c a ih =>
      obtain ⟨n, hn, hle, hsub⟩ := exists_byteLen_cons c a
      rw [hn, cons_append, dropBytes, if_pos hle, hsub, ih]

theorem dropBytes_append (a b : Text) : dropBytes (byteLen a) (a ++ b) = .ok b :=
  dropBytes_eq_ok.2 ⟨a, rfl, rfl⟩

theorem dropBytes_append_cons {c : Char} (hc : c.utf8Size = 1) (a b : Text) :
    dropBytes (byteLen a + 1) (a ++ c :: b) = .ok b :=
  dropBytes_eq_ok.2 ⟨a ++ [c], by simp, by rw [byteLen_append, ← hc]; rfl⟩

theorem blockOpenerBytes_eq (line : Text) : blockOpenerBytes line = .ok (blockOpener line) := by
  dsimp only [blockOpenerBytes]
  rw [blockOpener, findByte_eq]
  cases h : splitOnce '{' (trim line) with
  | none => rfl
  | some p =>
    rw [(splitOnce_eq_some h).1]
    dsimp only [map_some]
    rw [takeBytes_append, dropBytes_append_cons rfl]
    rfl

theorem splitPairBytes_eq (rest : Text) :
    splitPairBytes rest = .ok (match stripStart ['"'] rest with
    | some afterQuote => (splitOnce '"' afterQuote).bind fun (key, tail) =>
        (splitOnce ':' tail).map fun (_, value) => (key, trim value)
    | none => (splitOnce ':' rest).map fun (key, value) => (trim key, trim value)) := by
  rw [splitPairBytes]
  cases stripStart ['"'] rest with
  | none =>
    rw [findByte_eq]
    cases h : splitOnce ':' rest with
    | none => rfl
    | some p =>
      rw [(splitOnce_eq_some h).1]
      dsimp only [map_some]
      rw [takeBytes_append, dropBytes_append_cons rfl]
      rfl
  | some afterQuote =>
    dsimp only
    rw [findByte_eq]
    cases h : splitOnce '"' afterQuote with
    | none => rfl
    | some p =>
      obtain ⟨key, tail⟩ := p
      obtain ⟨rfl, -⟩ := splitOnce_eq_some h
      dsimp only [map_some, bind_some]
      rw [takeBytes_append, dropBytes_append]
      change (match findByte ':' ('"' :: tail) with
        | none => _
        | some colon => _) = _
      -- The quote at the end of the key is before the colon.
      rw [findByte, if_neg (by decide), findByte_eq]
      cases h' : splitOnce ':' tail with
      | none => rfl
      | some q =>
        obtain ⟨a, value⟩ := q
        obtain ⟨rfl, -⟩ := splitOnce_eq_some h'
        have hdrop := dropBytes_append_cons (c := ':') rfl (key ++ '"' :: a) value
        rw [byteLen_append, append_assoc] at hdrop
        exact bind_eq_ok.2 ⟨_, hdrop, rfl⟩

theorem parsePairLineBytes_eq (raw : Text) : parsePairLineBytes raw = .ok (parsePairLine raw) := by
  dsimp only [parsePairLineBytes, parsePairLine]
  split
  · rfl
  · rw [splitPairBytes_eq]
    rfl

theorem beforeQuotesBytes_eq (raw : Text) : beforeQuotesBytes raw = .ok (beforeQuotes raw) := by
  have hfind (t : Text) : findQuotes t = (beforeQuotes t).map byteLen ∧ ∀ a ∈ beforeQuotes t,
      a <+: t := by
    induction t with
    | nil => exact ⟨rfl, nofun⟩
    | cons c t ih =>
      rw [findQuotes, beforeQuotes]
      split
      · exact ⟨rfl, fun a ha => mem_some.1 ha ▸ nil_prefix⟩
      · rw [ih.1, Option.map_map, Option.map_map]
        refine ⟨rfl, fun a ha => ?_⟩
        obtain ⟨a, hmem, rfl⟩ := mem_map.1 ha
        exact (prefix_cons_inj c).2 (ih.2 a hmem)
  obtain ⟨hoffset, hstart⟩ := hfind raw
  rw [beforeQuotesBytes, hoffset]
  cases h : beforeQuotes raw with
  | none => rfl
  | some a =>
    obtain ⟨b, rfl⟩ := hstart a h
    dsimp only [map_some]
    rw [takeBytes_append]
    rfl

/-! ## Cuts at the indentation -/

def commonIndent (ls : List Text) : ℕ :=
  ((ls.filter fun l => trim l ≠ []).map fun l =>
    (l.takeWhile fun c => c = ' ' || c = '\t').length).min?.getD 0

def SplitsChar (n : ℕ) (l : Text) : Prop := n ≤ byteLen l ∧ ∀ a b, l = a ++ b → byteLen a ≠ n

theorem eq_panic_of_dropBytes {e : Fault BruError} (h : dropBytes n l = .error e) : e = .panic := by
  induction n, l using dropBytes.induct with
  | case1 t => cases (dropBytes.eq_def 0 t).symm.trans h
  | case2 n => cases h; rfl
  | case3 n c t hc ih =>
    rw [dropBytes, if_pos hc] at h
    exact ih h
  | case4 n c t hc =>
    rw [dropBytes, if_neg hc] at h
    cases h
    rfl

theorem dropBytes_eq_panic : dropBytes n l = .error .panic ↔ ∀ a b, l = a ++ b → byteLen a ≠ n := by
  constructor
  · intro h a b hl ha
    cases h.symm.trans (dropBytes_eq_ok.2 ⟨a, hl, ha⟩)
  · intro h
    cases hdrop : dropBytes n l with
    | ok b =>
      obtain ⟨a, hl, ha⟩ := dropBytes_eq_ok.1 hdrop
      exact absurd ha (h a b hl)
    | error e => rw [eq_panic_of_dropBytes hdrop]

theorem not_splitsChar {ls : List Text} (hl : l ∈ ls) (hne : trim l ≠ []) :
    ¬ SplitsChar (commonIndent ls) l := by
  set p : Char → Bool := fun c => c = ' ' || c = '\t' with hp
  have hle : commonIndent ls ≤ (l.takeWhile p).length := by
    have hmem : (l.takeWhile p).length ∈ (ls.filter fun l => trim l ≠ []).map fun l =>
      (l.takeWhile p).length :=
      mem_map_of_mem (mem_filter.2 ⟨hl, decide_eq_true hne⟩)
    obtain ⟨m, hm⟩ := isSome_iff_exists.1 (isSome_min?_of_mem hmem)
    rw [commonIndent, hm]
    exact (min?_eq_some_iff.1 hm).2 _ hmem
  intro h
  refine h.2 (l.take (commonIndent ls)) (l.drop _) (take_append_drop _ l).symm ?_
  have hsize : ∀ c ∈ l.take (commonIndent ls), c.utf8Size = 1 := by
    intro c hc
    have hpre : l.take (commonIndent ls) <+: l.takeWhile p :=
      prefix_of_prefix_length_le (List.take_prefix _ _) (List.takeWhile_prefix p)
        ((length_take_le _ _).trans hle)
    have hc := mem_takeWhile_imp (hpre.subset hc)
    obtain rfl | rfl : c = ' ' ∨ c = '\t' := by simpa [hp] using hc
    all_goals rfl
  rw [byteLen, map_congr_left hsize, map_const', sum_replicate, length_take,
    min_eq_left (hle.trans (List.takeWhile_prefix p).length_le)]
  exact mul_one _

theorem outdent_eq_panic (ls : List Text) : outdent ls = .error .panic ↔
    ∃ l ∈ ls, trim l = [] ∧ SplitsChar (commonIndent ls) l := by
  have hcut (l : Text) :
      (if commonIndent ls ≤ byteLen l then dropBytes (commonIndent ls) l else .ok l) =
        .error .panic ↔
      SplitsChar (commonIndent ls) l := by
    split
    next hle => rw [dropBytes_eq_panic, SplitsChar, and_iff_right hle]
    next hle => exact ⟨nofun, fun h => absurd h.1 hle⟩
  change (ls.mapM
    (fun l => if commonIndent ls ≤ byteLen l then dropBytes (commonIndent ls) l else .ok l) >>=
    fun body => Except.ok (trimNewlines (['\n'].intercalate body))) = _ ↔ _
  rw [bind_eq_error]
  constructor
  · rintro (h | ⟨_, -, h⟩)
    · obtain ⟨l, hl, h⟩ := exists_of_mapM_eq_error h
      rw [hcut] at h
      exact ⟨l, hl, not_not.1 fun hne => not_splitsChar hl hne h, h⟩
    · cases h
  · rintro ⟨l, hl, -, h⟩
    refine .inl ?_
    cases hmap : ls.mapM fun l => if commonIndent ls ≤ byteLen l then dropBytes (commonIndent ls) l
      else .ok l with
    | ok body =>
      obtain ⟨b, hb⟩ := exists_eq_ok_of_mapM_eq_ok hmap l hl
      rw [(hcut l).2 h] at hb
      cases hb
    | error e =>
      obtain ⟨l', -, h'⟩ := exists_of_mapM_eq_error hmap
      split at h'
      · rw [eq_panic_of_dropBytes h']
      · cases h'

/-! ## Panics -/

namespace SplitState

def outdented (st : SplitState) (raw : Text) : Option (List Text) :=
  match st.multiline, st.current with
  | some m, some _ => (beforeQuotes raw).map fun tail =>
      if trim tail ≠ [] then m.lines ++ [tail] else m.lines
  | none, some b => if closesBlock b.isText raw then some b.textLines else none
  | _, none => none

variable {e : Fault BruError} {st : SplitState}

theorem step_eq_error {raw : Text} : st.step raw = .error e ↔ ∃ ls ∈ st.outdented raw,
    outdent ls = .error e := by
  have hmap {α : Type} {x : Result BruError Text} {f : Text → α} : (x >>= fun t => .ok (f t)) =
      .error e ↔
      x = .error e := by
    rw [bind_eq_error, or_iff_left]
    exact nofun
  obtain ⟨blocks, current, multiline⟩ := st
  cases multiline with
  | some m =>
    change stepMultiline _ m raw = _ ↔ _
    rw [stepMultiline, outdented]
    cases beforeQuotes raw with
    | none => cases current <;> simp
    | some tail =>
      cases current with
      | none => simp
      | some b => exact hmap.trans (by simp)
  | none =>
    cases current with
    | none =>
      dsimp only [step, outdented]
      cases blockOpener raw <;> simp
    | some b =>
      change stepBlock _ b raw = _ ↔ _
      dsimp only [stepBlock, outdented]
      by_cases hclose : closesBlock b.isText raw = true
      · rw [if_pos hclose, if_pos hclose]
        exact hmap.trans (by simp)
      rw [if_neg hclose, if_neg hclose]
      split
      · simp
      cases parsePairLine raw with
      | none => simp
      | some pair => obtain ⟨key, _ | value, enabled⟩ := pair <;> simp

theorem run_eq_error {ls : List Text} : st.run ls = .error e ↔
    ∃ before raw after st', ls = before ++ raw :: after ∧ st.run before = .ok st' ∧
      st'.step raw = .error e := by
  constructor
  · intro h
    induction ls generalizing st with
    | nil => cases h
    | cons raw ls ih =>
      rw [run, foldlM_cons, bind_eq_error] at h
      obtain h | ⟨st₁, hstep, h⟩ := h
      · exact ⟨[], raw, ls, st, rfl, rfl, h⟩
      · obtain ⟨before, raw', after, st', rfl, hrun, h⟩ := ih h
        exact ⟨raw :: before, raw', after, st', rfl, run_cons_eq_ok.2 ⟨st₁, hstep, hrun⟩, h⟩
  · rintro ⟨before, raw, after, st', rfl, hrun, h⟩
    rw [run_append, hrun]
    change run st' (raw :: after) = _
    rw [run, foldlM_cons]
    exact bind_eq_error.2 (.inl h)

end SplitState

theorem exportBlocks_ne_panic (blocks : List BruBlock) : exportBlocks blocks ≠ .error .panic := by
  have hassert (key value : Text) : assertionExpression key value ≠ .error .panic := by
    dsimp only [assertionExpression]
    split <;> exact nofun
  have hokOr {α : Type} (o : Option α) (e : BruError) : okOr o e ≠ .error .panic := by
    cases o <;> exact nofun
  intro h
  obtain h | ⟨_, -, h⟩ := bind_eq_error.1 h
  · exact hokOr _ _ h
  obtain h | ⟨_, -, h⟩ := bind_eq_error.1 h
  · exact hokOr _ _ h
  obtain h | ⟨_, -, h⟩ := bind_eq_error.1 h
  · obtain ⟨p, -, h⟩ := exists_of_mapM_eq_error h
    exact hassert _ _ h
  · cases h

/-- A file makes the reader panic if and only if the end of a text, or of a value on several lines,
    finds a blank line with a character over the indentation of the others. No other slice is inside
    of a character. -/
theorem bruTextToJson_eq_panic_iff (text : Text) :
    (∀ line, blockOpenerBytes line = .ok (blockOpener line)) ∧
      (∀ raw, parsePairLineBytes raw = .ok (parsePairLine raw)) ∧
      (∀ raw, beforeQuotesBytes raw = .ok (beforeQuotes raw)) ∧
      (bruTextToJson text = .error .panic ↔ ∃ before raw after st,
        lines text = before ++ raw :: after ∧ SplitState.start.run before = .ok st ∧
          ∃ ls ∈ st.outdented raw,
          ∃ l ∈ ls, trim l = [] ∧ SplitsChar (commonIndent ls) l) := by
  refine ⟨blockOpenerBytes_eq, parsePairLineBytes_eq, beforeQuotesBytes_eq, ?_⟩
  simp only [← outdent_eq_panic, ← SplitState.step_eq_error]
  rw [← SplitState.run_eq_error, bruTextToJson, bind_eq_error, splitBlocks, bind_eq_error]
  constructor
  · rintro ((h | ⟨st, -, h⟩) | ⟨blocks, -, h⟩)
    · exact h
    · -- The other errors of a file are not panics.
      split at h
      · cases h
      · split at h <;> cases h
    · obtain h | ⟨_, -, h⟩ := bind_eq_error.1 h
      · exact absurd h (exportBlocks_ne_panic blocks)
      · cases h
  · exact fun h => .inl (.inl h)

theorem bruTextToJson_ideographicSpace :
    bruTextToJson "body \x7b\n a\n\u3000\n\x7d\n" = .error .panic := by
  rfl

end Tropel
