import Tropel.Lib.Text

/-!
# The text of a `.bru` file

A `.bru` file is made of blocks of lines.
-/

namespace Tropel

open Lib List Option Except

/-! ## Lines -/

structure BruPair where
  key : Text
  value : Text
  enabled : Bool
  deriving DecidableEq

structure BruBlock where
  name : Text
  pairs : List BruPair
  text : Text
  deriving DecidableEq

inductive BruError
  | unterminatedMultiline
  | unterminatedBlock (name : Text)
  | noMeta
  | noMethod (name : Text)
  | unknownOperator (op key value : Text)
  deriving DecidableEq

def textBlocks : List String :=
  ["body", "body:json", "body:text", "body:xml", "body:sparql", "body:graphql", "body:graphql:vars",
    "body:file", "script:pre-request", "script:post-response", "tests", "docs"]

def isTextBlock (name : Text) : Bool := textBlocks.any fun b => b.toList = name

def dropBytes : ℕ → Text → Result BruError Text
  | 0, t => .ok t
  | _ + 1, [] => .error .panic
  | n + 1, c :: t => if c.utf8Size ≤ n + 1 then dropBytes (n + 1 - c.utf8Size) t else .error .panic

def trimNewlines (t : Text) : Text := (t.dropWhile (· = '\n')).rdropWhile (· = '\n')

def outdent (ls : List Text) : Result BruError Text := do
  let indents := (ls.filter fun l => trim l ≠ []).map fun l =>
    (l.takeWhile fun c => c = ' ' || c = '\t').length
  let cut := indents.min?.getD 0
  let body ← ls.mapM fun l => if cut ≤ byteLen l then dropBytes cut l else .ok l
  return trimNewlines (['\n'].intercalate body)

def blockOpener (line : Text) : Option Text :=
  match splitOnce '{' (trim line) with
  | none => none
  | some (name, rest) =>
    if trim rest ≠ [] then none
    else match trim name with
      | [] => none
      | first :: chars =>
        if first.isAlpha && chars.all fun c => c.isAlphanum || c = ':' || c = '_' || c = '-' then
          some (first :: chars)
        else none

def parsePairLine (raw : Text) : Option (Text × Option Text × Bool) :=
  let line := trim raw
  if line = [] then none
  else
    let disabled := stripStart ['~'] line
    let rest := disabled.getD line
    let enabled := disabled.isNone
    -- There may be a colon in a key in quotes.
    let pair : Option (Text × Text) := match stripStart ['"'] rest with
      | some afterQuote => (splitOnce '"' afterQuote).bind fun (key, tail) =>
          (splitOnce ':' tail).map fun (_, value) => (key, trim value)
      | none => (splitOnce ':' rest).map fun (key, value) => (trim key, trim value)
    pair.bind fun (key, value) =>
      let key := trim ((stripStart ['@'] key).getD key)
      if key = [] then none
      else if value = "'''" then some (key, none, enabled)
      else some (key, some value, enabled)

def beforeQuotes : Text → Option Text
  | [] => none
  | c :: t => if "'''".toList.isPrefixOf (c :: t) then some [] else (beforeQuotes t).map (c :: ·)

def closesBlock (isText : Bool) (raw : Text) : Bool :=
  if isText then ((stripStart ['}'] raw).map fun rest => decide (trim rest = [])).getD false
  else trim raw = ['}']

/-! ## Blocks -/

structure OpenBlock where
  name : Text
  pairs : List BruPair
  textLines : List Text
  isText : Bool
  deriving DecidableEq

structure Multiline where
  key : Text
  enabled : Bool
  lines : List Text
  deriving DecidableEq

structure SplitState where
  blocks : List BruBlock
  current : Option OpenBlock
  multiline : Option Multiline
  deriving DecidableEq

def OpenBlock.fresh (name : Text) : OpenBlock := ⟨name, [], [], isTextBlock name⟩

def OpenBlock.push (b : OpenBlock) (pair : BruPair) : OpenBlock :=
  { b with pairs := b.pairs ++ [pair] }

namespace SplitState

def start : SplitState := ⟨[], none, none⟩

variable (st : SplitState)

def close (b : OpenBlock) : Result BruError SplitState := do
  let text ← outdent b.textLines
  return ⟨st.blocks ++ [⟨b.name, b.pairs, text⟩], none, none⟩

def stepMultiline (m : Multiline) (raw : Text) : Result BruError SplitState :=
  match beforeQuotes raw with
  | none => .ok { st with multiline := some { m with lines := m.lines ++ [raw] } }
  | some tail =>
    let ls := if trim tail ≠ [] then m.lines ++ [tail] else m.lines
    match st.current with
    | some b => do
      let value ← outdent ls
      return { st with current := some (b.push ⟨m.key, value, m.enabled⟩), multiline := none }
    | none => .ok { st with multiline := none }

def stepBlock (b : OpenBlock) (raw : Text) : Result BruError SplitState :=
  if closesBlock b.isText raw then st.close b
  else if b.isText then .ok { st with current := some { b with textLines := b.textLines ++ [raw] } }
  else match parsePairLine raw with
    | none => .ok st
    | some (key, none, enabled) => .ok { st with multiline := some ⟨key, enabled, []⟩ }
    | some (key, some value, enabled) =>
      .ok { st with current := some (b.push ⟨key, value, enabled⟩) }

def step (raw : Text) : Result BruError SplitState :=
  match st.multiline with
  | some m => st.stepMultiline m raw
  | none => match st.current with
    | some b => st.stepBlock b raw
    | none => match blockOpener raw with
      | some name => .ok { st with current := some (.fresh name) }
      | none => .ok st

def run (ls : List Text) : Result BruError SplitState := ls.foldlM step st

end SplitState

def splitBlocks (text : Text) : Result BruError (List BruBlock) := do
  let st ← SplitState.start.run (lines text)
  if st.multiline.isSome then .error (.err .unterminatedMultiline)
  else match st.current with
    | some b => .error (.err (.unterminatedBlock b.name))
    | none => return st.blocks

/-! ## What comes before -/

namespace SplitState

variable {st st' : SplitState} {raw : Text}

def after (bs : List BruBlock) (st : SplitState) : SplitState :=
  { st with blocks := bs ++ st.blocks }

theorem step_after (bs : List BruBlock) (st : SplitState) (raw : Text) :
    (st.after bs).step raw = (st.step raw).map (after bs) := by
  obtain ⟨blocks, current, multiline⟩ := st
  cases multiline with
  | some m =>
    change stepMultiline _ m raw = (stepMultiline _ m raw).map (after bs)
    rw [stepMultiline, stepMultiline]
    cases beforeQuotes raw with
    | none => rfl
    | some tail =>
      cases current with
      | none => rfl
      | some b =>
        dsimp only [after]
        cases outdent (if trim tail ≠ [] then m.lines ++ [tail] else m.lines) <;> rfl
  | none =>
    cases current with
    | none =>
      dsimp only [step, after]
      cases blockOpener raw <;> rfl
    | some b =>
      change stepBlock _ b raw = (stepBlock _ b raw).map (after bs)
      rw [stepBlock, stepBlock]
      split
      · rw [close, close]
        cases outdent b.textLines with
        | error e => rfl
        | ok text => exact congrArg (fun l => ok (SplitState.mk l none none)) (append_assoc ..)
      split
      · rfl
      cases parsePairLine raw with
      | none => rfl
      | some pair =>
        obtain ⟨key, _ | value, enabled⟩ := pair <;> rfl

theorem run_after (bs : List BruBlock) (st : SplitState) (ls : List Text) :
    (st.after bs).run ls = (st.run ls).map (after bs) := by
  induction ls generalizing st with
  | nil => rfl
  | cons l ls ih =>
    rw [run, run, foldlM_cons, foldlM_cons, step_after]
    cases st.step l with
    | error e => rfl
    | ok st' => exact ih st'

theorem run_append (st : SplitState) (ls ls' : List Text) :
    st.run (ls ++ ls') = st.run ls >>= fun st' => st'.run ls' :=
  foldlM_append

theorem run_append_eq_ok {ls ls' : List Text} :
    st.run (ls ++ ls') = .ok st' ↔ ∃ st₁, st.run ls = .ok st₁ ∧ st₁.run ls' = .ok st' := by
  rw [run_append, bind_eq_ok]

theorem run_cons_eq_ok {l : Text} {ls : List Text} :
    st.run (l :: ls) = .ok st' ↔ ∃ st₁, st.step l = .ok st₁ ∧ st₁.run ls = .ok st' := by
  rw [run, foldlM_cons, bind_eq_ok]
  rfl

/-! ## The lines of a block -/

def Inv (st : SplitState) : Prop := st.current = none → st.multiline = none

theorem step_cases (hinv : st.Inv) (h : st.step raw = .ok st') :
    (∃ b b', st.current = some b ∧ st'.current = some b' ∧ b'.name = b.name ∧ b'.isText = b.isText ∧
        st'.blocks = st.blocks) ∨
      (∃ b text, st.multiline = none ∧ st.current = some b ∧ closesBlock b.isText raw = true ∧
        outdent b.textLines = .ok text ∧
          st' = ⟨st.blocks ++ [⟨b.name, b.pairs, text⟩], none, none⟩) ∨
      (∃ name, st.multiline = none ∧ st.current = none ∧ blockOpener raw = some name ∧
        st' = ⟨st.blocks, some (.fresh name), none⟩) ∨
      st.current = none ∧ st' = st := by
  obtain ⟨blocks, current, multiline⟩ := st
  cases current with
  | none =>
    obtain rfl : multiline = none := hinv rfl
    refine .inr (.inr ?_)
    dsimp only [step] at h
    split at h
    next name hname =>
      cases h
      exact .inl ⟨name, rfl, rfl, hname, rfl⟩
    next =>
      cases h
      exact .inr ⟨rfl, rfl⟩
  | some b =>
    cases multiline with
    | some m =>
      refine .inl ?_
      change stepMultiline _ m raw = _ at h
      rw [stepMultiline] at h
      split at h
      · cases h
        exact ⟨b, b, rfl, rfl, rfl, rfl, rfl⟩
      · obtain ⟨value, -, h⟩ := bind_eq_ok.1 h
        cases h
        exact ⟨b, _, rfl, rfl, rfl, rfl, rfl⟩
    | none =>
      change stepBlock _ b raw = _ at h
      rw [stepBlock] at h
      split at h
      next hclose =>
        obtain ⟨text, htext, h⟩ := bind_eq_ok.1 h
        cases h
        exact .inr (.inl ⟨b, text, rfl, rfl, hclose, htext, rfl⟩)
      refine .inl ?_
      split at h
      · cases h
        exact ⟨b, _, rfl, rfl, rfl, rfl, rfl⟩
      split at h <;> cases h <;> exact ⟨b, _, rfl, rfl, rfl, rfl, rfl⟩

end SplitState

structure BlockAt (ls : List Text) where
  pre : List Text
  opener : Text
  content : List Text
  closer : Text
  post : List Text
  lines_eq : ls = pre ++ opener :: (content ++ closer :: post)
  before : List BruBlock
  run_pre : SplitState.start.run pre = .ok ⟨before, none, none⟩
  block : BruBlock
  opens : blockOpener opener = some block.name
  opened : OpenBlock
  run_content : SplitState.run ⟨before, some (.fresh block.name), none⟩ content =
    .ok ⟨before, some opened, none⟩
  closes : closesBlock (isTextBlock block.name) closer = true
  run_closer : SplitState.step ⟨before, some opened, none⟩ closer = .ok
    ⟨before ++ [block], none, none⟩

namespace BlockAt

variable {ls : List Text}

def HasContent (d : BlockAt ls) : Prop := ∃ l ∈ d.content, trim l ≠ []

def snoc (d : BlockAt ls) (l : Text) : BlockAt (ls ++ [l]) :=
  { d with
    post := d.post ++ [l]
    lines_eq := (congrArg (· ++ [l]) d.lines_eq).trans (by simp) }

theorem run_eq (d : BlockAt ls) :
    SplitState.start.run ls = SplitState.run ⟨d.before ++ [d.block], none, none⟩ d.post := by
  have hopen : SplitState.step ⟨d.before, none, none⟩ d.opener =
      .ok ⟨d.before, some (.fresh d.block.name), none⟩ := by
    dsimp only [SplitState.step]
    rw [d.opens]
  refine (congrArg _ d.lines_eq).trans ?_
  rw [SplitState.run_append, d.run_pre]
  change (SplitState.step _ d.opener >>= fun st => st.run (d.content ++ d.closer :: d.post)) = _
  rw [hopen]
  change SplitState.run _ (d.content ++ d.closer :: d.post) = _
  rw [SplitState.run_append, d.run_content]
  change (SplitState.step _ d.closer >>= fun st => st.run d.post) = _
  rw [d.run_closer]
  rfl

end BlockAt

structure SplitState.Trace (ls : List Text) (st : SplitState) : Prop where
  inv : st.Inv
  run : start.run ls = .ok st
  closed : ∀ before b rest, st.blocks = before ++ b :: rest → ∃ d : BlockAt ls, d.before = before ∧
    d.block = b
  opened : ∀ b, st.current = some b → b.isText = isTextBlock b.name ∧ ∃ pre opener content,
    ls = pre ++ opener :: content ∧ start.run pre = .ok ⟨st.blocks, none, none⟩ ∧
      blockOpener opener = some b.name ∧
        SplitState.run ⟨st.blocks, some (.fresh b.name), none⟩ content = .ok st

namespace SplitState.Trace

variable {ls : List Text} {st st' : SplitState}

theorem start : Trace [] SplitState.start where
  inv _ := rfl
  run := rfl
  closed _ _ _ h := absurd h (by simp [SplitState.start])
  opened _ h := nomatch h

theorem step (h : Trace ls st) {raw : Text} (hstep : st.step raw = .ok st') :
    Trace (ls ++ [raw]) st' := by
  have hrun : SplitState.start.run (ls ++ [raw]) = .ok st' :=
    run_append_eq_ok.2 ⟨st, h.run, run_cons_eq_ok.2 ⟨st', hstep, rfl⟩⟩
  -- Blocks that were closed before keep their lines.
  have hclosed (before : List BruBlock) (b : BruBlock) (rest : List BruBlock)
      (heq : st.blocks = before ++ b :: rest) :
      ∃ d : BlockAt (ls ++ [raw]), d.before = before ∧ d.block = b := by
    obtain ⟨d, hd⟩ := h.closed before b rest heq
    exact ⟨d.snoc raw, hd⟩
  obtain ⟨b, b', hb, hb', hname, htext, hblocks⟩ | ⟨b, text, hm, hb, hcloses, htext, rfl⟩ |
    ⟨name, hm, hb, hopens, rfl⟩ | ⟨hb, rfl⟩ := step_cases h.inv hstep
  · -- The line is added to the content of the open block.
    obtain ⟨hisText, pre, opener, content, rfl, hpre, hopener, hcontent⟩ := h.opened b hb
    refine ⟨fun hnone => absurd (hb'.symm.trans hnone) nofun, hrun, hblocks ▸ hclosed, ?_⟩
    intro b₁ hb₁
    obtain rfl : b' = b₁ := some_injective _ (hb'.symm.trans hb₁)
    rw [hname, htext, hblocks]
    exact ⟨hisText, pre, opener, content ++ [raw], by simp, hpre, hopener,
      run_append_eq_ok.2 ⟨st, hcontent, run_cons_eq_ok.2 ⟨st', hstep, rfl⟩⟩⟩
  · -- The open block is closed, and is the last one.
    obtain ⟨hisText, pre, opener, content, hls, hpre, hopener, hcontent⟩ := h.opened b hb
    refine ⟨fun _ => rfl, hrun, ?_, fun _ hnone => nomatch hnone⟩
    intro before b₁ rest heq
    have hst : st = ⟨st.blocks, some b, none⟩ := by
      rw [← hb, ← hm]
    rcases eq_nil_or_concat rest with rfl | ⟨rest, b₂, rfl⟩
    · obtain ⟨rfl, hb₁⟩ := append_inj' heq rfl
      obtain rfl := singleton_injective hb₁
      refine ⟨⟨pre, opener, content, raw, [], by rw [hls]; simp, st.blocks, hpre, _, hopener, b,
        hcontent.trans (congrArg _ hst), hisText ▸ hcloses, ?_⟩, rfl, rfl⟩
      rw [← hst]
      exact hstep
    · rw [concat_eq_append, ← cons_append, ← append_assoc] at heq
      exact hclosed before b₁ rest (append_inj' heq rfl).1
  · -- A block is opened.
    refine ⟨nofun, hrun, hclosed, ?_⟩
    intro b hb₁
    obtain rfl := some_injective _ hb₁
    have hst : st = ⟨st.blocks, none, none⟩ := by
      rw [← hb, ← hm]
    exact ⟨rfl, ls, raw, [], rfl, h.run.trans (congrArg _ hst), hopens, rfl⟩
  · exact ⟨h.inv, hrun, hclosed, fun b hb₁ => absurd (hb.symm.trans hb₁) nofun⟩

theorem of_run (h : SplitState.start.run ls = .ok st) : Trace ls st := by
  induction ls using List.reverseRecOn generalizing st with
  | nil =>
    cases h
    exact start
  | append_singleton ls raw ih =>
    obtain ⟨st₁, hrun, h⟩ := run_append_eq_ok.1 h
    obtain ⟨st₂, hstep, h⟩ := run_cons_eq_ok.1 h
    cases h
    exact (ih hrun).step hstep

end SplitState.Trace

variable {text : Text}

theorem splitBlocks_eq_ok {blocks : List BruBlock} :
    splitBlocks text = .ok blocks ↔
      SplitState.start.run (lines text) = .ok ⟨blocks, none, none⟩ := by
  rw [splitBlocks, bind_eq_ok]
  constructor
  · rintro ⟨⟨blocks', current, multiline⟩, hrun, h⟩
    cases multiline with
    | some m => cases h
    | none =>
      cases current with
      | some b => cases h
      | none =>
        cases h
        exact hrun
  · intro h
    exact ⟨_, h, rfl⟩

theorem exists_blockAt {before rest : List BruBlock} {b : BruBlock}
    (h : splitBlocks text = .ok (before ++ b :: rest)) :
    ∃ d : BlockAt (lines text), d.before = before ∧ d.block = b :=
  (SplitState.Trace.of_run (splitBlocks_eq_ok.1 h)).closed before b rest rfl

/-! ## Other lines for a block -/

namespace BlockAt

variable {ls : List Text}

structure SameElsewhere {ls ls' : List Text} (d : BlockAt ls) (d' : BlockAt ls') : Prop where
  pre : d'.pre = d.pre
  opener : d'.opener = d.opener
  closer : d'.closer = d.closer
  post : d'.post = d.post

variable {text : Text} {ls' : List Text} {d' : BlockAt ls'} {d : BlockAt ls}

theorem SameElsewhere.before_eq (h : d.SameElsewhere d') : d'.before = d.before := by
  have hrun := d'.run_pre
  rw [h.pre, d.run_pre] at hrun
  exact (SplitState.mk.inj (ok.inj hrun)).1.symm

theorem SameElsewhere.name_eq (h : d.SameElsewhere d') : d'.block.name = d.block.name := by
  have hopens := d'.opens
  rw [h.opener, d.opens] at hopens
  exact (some_injective _ hopens).symm

theorem run_post (d : BlockAt ls) (bs : List BruBlock) :
    SplitState.run ⟨bs, none, none⟩ d.post =
      (SplitState.start.run d.post).map (SplitState.after bs) := by
  rw [← SplitState.run_after, SplitState.after, SplitState.start, append_nil]

theorem exists_rest {blocks : List BruBlock} (d : BlockAt (lines text))
    (h : splitBlocks text = .ok blocks) :
    ∃ rest, SplitState.start.run d.post = .ok ⟨rest, none, none⟩ ∧
      blocks = d.before ++ d.block :: rest := by
  rw [splitBlocks_eq_ok, d.run_eq, d.run_post] at h
  cases hpost : SplitState.start.run d.post with
  | error e =>
    rw [hpost] at h
    cases h
  | ok st =>
    rw [hpost] at h
    obtain ⟨rest, current, multiline⟩ := st
    obtain ⟨hblocks, rfl, rfl⟩ := SplitState.mk.inj (ok.inj h)
    exact ⟨rest, rfl, hblocks.symm.trans (append_assoc ..)⟩

theorem SameElsewhere.splitBlocks_eq {text text' : Text} {d : BlockAt (lines text)}
    {d' : BlockAt (lines text')} (h : d.SameElsewhere d') {rest : List BruBlock}
    (hsplit : splitBlocks text = .ok (d.before ++ d.block :: rest)) :
    splitBlocks text' = .ok (d.before ++ d'.block :: rest) := by
  obtain ⟨rest', hpost, hrest⟩ := d.exists_rest hsplit
  obtain rfl : rest = rest' := (List.cons.inj (append_cancel_left hrest)).2
  rw [splitBlocks_eq_ok, d'.run_eq, d'.run_post, h.post, h.before_eq, hpost]
  exact congrArg (fun l => ok (SplitState.mk l none none)) (append_assoc ..)

theorem exists_replace (d : BlockAt (lines text)) {content : List Text} {b : OpenBlock}
    {blockText : Text} (hlines : ∀ l ∈ content, '\n' ∉ l)
    (hrun : SplitState.run ⟨[], some (.fresh d.block.name), none⟩ content = .ok ⟨[], some b, none⟩)
    (hname : b.name = d.block.name) (hisText : b.isText = isTextBlock d.block.name)
    (htext : outdent b.textLines = .ok blockText) :
    ∃ (text' : Text) (d' : BlockAt (lines text')), d.SameElsewhere d' ∧ d'.content = content ∧
      d'.block = ⟨d.block.name, b.pairs, blockText⟩ := by
  have hmem (l : Text) (hl : l ∈ lines text) : '\n' ∉ l := not_mem_of_mem_linesFrom not_mem_nil l hl
  have hnew : ∀ l ∈ d.pre ++ d.opener :: (content ++ d.closer :: d.post), '\n' ∉ l := by
    intro l hl
    by_cases hc : l ∈ content
    · exact hlines l hc
    · refine hmem l (d.lines_eq ▸ ?_)
      simp only [mem_append, mem_cons] at hl ⊢
      tauto
  refine ⟨_, ⟨d.pre, d.opener, content, d.closer, d.post, lines_flatMap hnew, d.before, d.run_pre,
    ⟨d.block.name, b.pairs, blockText⟩, d.opens, b, ?_, d.closes, ?_⟩, ⟨rfl, rfl, rfl, rfl⟩,
      rfl, rfl⟩
  · have hafter := SplitState.run_after d.before ⟨[], some (.fresh d.block.name), none⟩ content
    rw [hrun, SplitState.after, append_nil] at hafter
    rw [hafter]
    exact congrArg (fun l => ok (SplitState.mk l (some b) none)) (append_nil _)
  · change SplitState.stepBlock _ b d.closer = _
    rw [SplitState.stepBlock, if_pos (hisText ▸ d.closes)]
    refine bind_eq_ok.2 ⟨_, htext, ?_⟩
    rw [hname]
    rfl

end BlockAt

end Tropel
