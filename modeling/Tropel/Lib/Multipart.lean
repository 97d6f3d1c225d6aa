import Tropel.Lib.Pattern

/-!
# Forms of several parts

The format of RFC 7578 for the fields of a form, as a reader sees it.
-/

namespace Lib.Multipart

open List Option

def ascii (s : String) : List UInt8 := s.toList.map fun c => c.toNat.toUInt8

def crlf : List UInt8 := [13, 10]

theorem crlf_ne_nil : crlf ≠ [] := cons_ne_nil _ _

def isBlank (b : UInt8) : Bool := b = 32 || b = 9

def toLower (b : UInt8) : UInt8 := if 65 ≤ b ∧ b ≤ 90 then b + 32 else b

/-! ## Headers -/

def parseField (line : List UInt8) : Option (List UInt8 × List UInt8) :=
  (splitOncePattern (ascii ":") line).map fun p => (p.1.map toLower, trimMatches isBlank p.2)

def parseQuoted : List UInt8 → Option (List UInt8 × List UInt8)
  | [] => none
  | b :: t =>
    if b = 34 then some ([], t)
    else if b = 92 then
      match t with
      | [] => none
      | c :: t => if c = 13 ∨ c = 10 then none else (parseQuoted t).map fun p => (c :: p.1, p.2)
    else (parseQuoted t).map fun p => (b :: p.1, p.2)

theorem parseQuoted_quote (t : List UInt8) : parseQuoted (34 :: t) = some ([], t) := by
  rw [parseQuoted.eq_def]
  exact if_pos rfl

theorem parseQuoted_backslash {c : UInt8} (hc : ¬(c = 13 ∨ c = 10)) (t : List UInt8) :
    parseQuoted (92 :: c :: t) = (parseQuoted t).map fun p => (c :: p.1, p.2) := by
  rw [parseQuoted.eq_def]
  exact if_neg hc

variable {key value s t boundary : List UInt8} {lines segments : List (List UInt8)} {b : UInt8}
  {name : String}

theorem parseQuoted_plain (hquote : b ≠ 34) (hbackslash : b ≠ 92) (t : List UInt8) :
    parseQuoted (b :: t) = (parseQuoted t).map fun p => (b :: p.1, p.2) := by
  rw [parseQuoted.eq_def]
  exact (if_neg hquote).trans (if_neg hbackslash)

def parseValue : List UInt8 → Option (List UInt8 × List UInt8)
  | [] => some ([], [])
  | b :: t =>
    if b = 34 then parseQuoted t
    else some (trimMatches isBlank ((b :: t).takeWhile (· ≠ 59)), (b :: t).dropWhile (· ≠ 59))

def parseParameters : ℕ → List UInt8 → Option (List (List UInt8 × List UInt8))
  | 0, t => if t.all isBlank then some [] else none
  | n + 1, t =>
    match t.dropWhile isBlank with
    | [] => some []
    | b :: t =>
      if b = 59 then do
        let (key, t) ← splitOncePattern (ascii "=") t
        let (value, t) ← parseValue t
        let rest ← parseParameters n t
        return ((trimMatches isBlank key).map toLower, value) :: rest
      else none

def field (name : String) (fields : List (List UInt8 × List UInt8)) : Option (List UInt8) :=
  (fields.find? fun f => f.1 = ascii name).map Prod.snd

theorem field_cons_of_eq (h : key = ascii name)
    (fields : List (List UInt8 × List UInt8)) :
    field name ((key, value) :: fields) = some value := by
  rw [field, find?_cons_of_pos (by simpa using h)]
  rfl

theorem field_cons_of_ne (h : key ≠ ascii name)
    (fields : List (List UInt8 × List UInt8)) :
    field name ((key, value) :: fields) = field name fields := by
  rw [field, find?_cons_of_neg (by simpa using h), field]

theorem field_toList (name : String) (value : Option (List UInt8)) :
    field name (value.map fun v => (ascii name, v)).toList = value := by
  cases value with
  | none => rfl
  | some v => exact field_cons_of_eq rfl []

/-! ## Parts -/

structure Part where
  name : List UInt8
  filename : Option (List UInt8)
  contentType : Option (List UInt8)
  headers : List (List UInt8)
  content : List UInt8
  deriving DecidableEq, Repr

def partOf (fields : List (List UInt8 × List UInt8)) (content : List UInt8) : Option Part := do
  let disposition ← field "content-disposition" fields
  if trimMatches isBlank (disposition.takeWhile (· ≠ 59)) = ascii "form-data" then
    let parameters ← parseParameters disposition.length (disposition.dropWhile (· ≠ 59))
    let name ← field "name" parameters
    some { name
           filename := field "filename" parameters
           contentType := field "content-type" fields
           headers := fields.map Prod.fst
           content }
  else none

def parsePart (t : List UInt8) : Option Part := do
  let lines := splitPattern crlf t
  let fields ← (lines.takeWhile (· ≠ [])).mapM parseField
  partOf fields (crlf.intercalate ((lines.dropWhile (· ≠ [])).drop 1))

def parseSegments : List (List UInt8) → Option (List Part)
  | [] => none
  | segment :: segments =>
    if ascii "--" <+: segment then some []
    else if crlf <+: segment.dropWhile isBlank then do
      let part ← parsePart ((segment.dropWhile isBlank).drop 2)
      let parts ← parseSegments segments
      return part :: parts
    else none

def delimiter (boundary : List UInt8) : List UInt8 := crlf ++ (ascii "--" ++ boundary)

def parseMultipart (boundary body : List UInt8) : Option (List Part) :=
  parseSegments (splitPattern (delimiter boundary) (crlf ++ body)).tail

/-! ## What a reader gets -/

def NoBreak (t : List UInt8) : Prop := ¬crlf <:+: t

instance : DecidablePred NoBreak := fun _ => inferInstanceAs (Decidable (¬_))

theorem NoBreak.mono (h : NoBreak t) (hst : s <:+: t) : NoBreak s := fun hs => h (hs.trans hst)

theorem NoBreak.append (hs : NoBreak s) (ht : NoBreak t)
    (h : s.getLast? ≠ some 13 ∨ t.head? ≠ some 10) : NoBreak (s ++ t) := by
  refine not_pair_infix_iff.2
    (isChain_append.2 ⟨not_pair_infix_iff.1 hs, not_pair_infix_iff.1 ht, ?_⟩)
  rintro x hx y hy ⟨rfl, rfl⟩
  exact h.elim (· hx) (· hy)

theorem NoBreak.cons (hb : b ≠ 13) (ht : NoBreak t) : NoBreak (b :: t) := by
  intro h
  rcases infix_cons_iff.1 h with h | h
  · exact hb (cons_prefix_cons.1 h).1.symm
  · exact ht h

structure Part.Sound (boundary : List UInt8) (part : Part) : Prop where
  name : NoBreak part.name
  filename : ∀ f ∈ part.filename, NoBreak f
  contentType : ∀ c ∈ part.contentType, NoBreak c ∧ Unpadded isBlank c
  content : ¬delimiter boundary <:+: crlf ++ part.content

theorem parseQuoted_sound {t v r : List UInt8} (h : parseQuoted t = some (v, r)) :
    r <:+ t ∧ (v.head? = some 10 → t.head? = some 10) ∧ (crlf <:+: v → crlf <:+: t) := by
  fun_induction parseQuoted t generalizing v with
  | case1 | case3 | case4 => cases h
  | case2 =>
    cases h
    exact ⟨suffix_cons _ _, nofun, fun hv => absurd (infix_nil.1 hv) (cons_ne_nil _ _)⟩
  | case5 c t hc _ ih =>
    obtain ⟨⟨v, r⟩, hquoted, hv⟩ := map_eq_some_iff.1 h
    cases hv
    obtain ⟨hr, -, hbreak⟩ := ih hquoted
    have ht : t <:+ 92 :: c :: t := (suffix_cons _ _).trans (suffix_cons _ _)
    refine ⟨hr.trans ht, fun hhead => absurd (Or.inr (some.inj hhead)) hc, fun hv => ?_⟩
    rcases infix_cons_iff.1 hv with hv | hv
    · exact absurd (Or.inl (cons_prefix_cons.1 hv).1.symm) hc
    · exact (hbreak hv).trans ht.isInfix
  | case6 b t _ _ ih =>
    obtain ⟨⟨v, r⟩, hquoted, hv⟩ := map_eq_some_iff.1 h
    cases hv
    obtain ⟨hr, hhead, hbreak⟩ := ih hquoted
    refine ⟨hr.trans (suffix_cons _ _), id, fun hv => ?_⟩
    rcases infix_cons_iff.1 hv with hv | hv
    · obtain ⟨rfl, w, rfl⟩ := cons_prefix_cons.1 hv
      obtain ⟨t, rfl⟩ := head?_eq_some_iff.1 (hhead rfl)
      exact (prefix_append crlf t).isInfix
    · exact (hbreak hv).trans (suffix_cons _ _).isInfix

section

variable {t : List UInt8}

theorem parseValue_sound (ht : NoBreak t) {value rest : List UInt8}
    (h : parseValue t = some (value, rest)) :
    NoBreak value ∧ NoBreak rest := by
  rw [parseValue.eq_def] at h
  split at h
  next =>
    cases h
    exact ⟨ht, ht⟩
  next b t =>
    split at h
    next =>
      obtain ⟨hrest, -, hvalue⟩ := parseQuoted_sound h
      have ht' := ht.mono (suffix_cons _ _).isInfix
      exact ⟨fun hv => ht' (hvalue hv), ht'.mono hrest.isInfix⟩
    next =>
      cases h
      exact ⟨ht.mono ((trimMatches_isInfix _ _).trans (List.takeWhile_prefix _).isInfix),
        ht.mono (dropWhile_suffix _).isInfix⟩

theorem parseParameters_sound (ht : NoBreak t) {n : ℕ} {parameters : List (List UInt8 × List UInt8)}
    (h : parseParameters n t = some parameters) : ∀ p ∈ parameters, NoBreak p.2 := by
  induction n generalizing t parameters with
  | zero =>
    obtain ⟨-, h⟩ := ite_none_right_eq_some.1 h
    cases h
    exact nofun
  | succ n ih =>
    rw [parseParameters] at h
    have hdrop := ht.mono (dropWhile_suffix isBlank).isInfix
    split at h
    next =>
      cases h
      exact nofun
    next b t heq =>
      rw [heq] at hdrop
      obtain ⟨-, h⟩ := ite_none_right_eq_some.1 h
      obtain ⟨⟨key, t'⟩, hkey, h⟩ := bind_eq_some_iff.1 h
      obtain ⟨⟨value, t''⟩, hvalue, h⟩ := bind_eq_some_iff.1 h
      obtain ⟨rest, hrest, h⟩ := bind_eq_some_iff.1 h
      cases h
      obtain ⟨rfl, -⟩ := splitOncePattern_eq_some (by decide) hkey
      have ht' : NoBreak t' := by
        refine hdrop.mono (List.IsSuffix.isInfix ?_)
        exact ((suffix_append _ _).trans (suffix_append _ _)).trans (suffix_cons _ _)
      obtain ⟨hvalue, ht''⟩ := parseValue_sound ht' hvalue
      exact forall_mem_cons.2 ⟨hvalue, ih ht'' hrest⟩

theorem parseField_sound {line : List UInt8} (hline : NoBreak line) {f : List UInt8 × List UInt8}
    (h : parseField line = some f) : NoBreak f.2 ∧ Unpadded isBlank f.2 := by
  obtain ⟨⟨name, value⟩, hsplit, rfl⟩ := map_eq_some_iff.1 h
  obtain ⟨rfl, -⟩ := splitOncePattern_eq_some (by decide) hsplit
  refine ⟨hline.mono ((trimMatches_isInfix _ _).trans ?_), unpadded_trimMatches _ _⟩
  exact ((suffix_append _ _).trans (suffix_append _ _)).isInfix

variable {value boundary : List UInt8} {fields : List (List UInt8 × List UInt8)} {parts : List Part}
  {part : Part}

theorem mem_of_field {name : String} (h : field name fields = some value) :
    ∃ f ∈ fields, f.2 = value := by
  obtain ⟨f, hf, rfl⟩ := map_eq_some_iff.1 h
  exact ⟨f, mem_of_find?_eq_some hf, rfl⟩

theorem partOf_sound {boundary content : List UInt8}
    (hfields : ∀ f ∈ fields, NoBreak f.2 ∧ Unpadded isBlank f.2)
    (hcontent : ¬delimiter boundary <:+: crlf ++ content) (h : partOf fields content = some part) :
    part.Sound boundary := by
  obtain ⟨disposition, hdisposition, h⟩ := bind_eq_some_iff.1 h
  obtain ⟨-, h⟩ := ite_none_right_eq_some.1 h
  obtain ⟨parameters, hparameters, h⟩ := bind_eq_some_iff.1 h
  obtain ⟨name, hname, h⟩ := bind_eq_some_iff.1 h
  cases h
  obtain ⟨f, hf, rfl⟩ := mem_of_field hdisposition
  have hvalues :=
    parseParameters_sound ((hfields f hf).1.mono (dropWhile_suffix _).isInfix) hparameters
  refine ⟨?_, ?_, ?_, hcontent⟩
  · obtain ⟨p, hp, rfl⟩ := mem_of_field hname
    exact hvalues p hp
  · intro filename hfilename
    obtain ⟨p, hp, rfl⟩ := mem_of_field hfilename
    exact hvalues p hp
  · intro contentType hcontentType
    obtain ⟨g, hg, rfl⟩ := mem_of_field hcontentType
    exact hfields g hg

theorem content_suffix {lines : List (List UInt8)}
    (hlines : (lines.dropWhile (· ≠ [])).drop 1 ≠ []) :
    crlf ++ crlf.intercalate ((lines.dropWhile (· ≠ [])).drop 1) <:+ crlf.intercalate lines := by
  induction lines with
  | nil => exact absurd rfl hlines
  | cons line lines ih =>
    by_cases hline : line = []
    · rw [hline, dropWhile_cons_of_neg (by simp), drop_one, tail_cons] at hlines ⊢
      exact ⟨[], by rw [intercalate_cons_of_ne_nil hlines, append_assoc]⟩
    · rw [dropWhile_cons_of_pos (by simp [hline])] at hlines ⊢
      have hne : lines ≠ [] := by
        rintro rfl
        exact hlines rfl
      rw [intercalate_cons_of_ne_nil hne]
      exact (ih hlines).trans (suffix_append _ _)

theorem parsePart_sound (ht : ¬delimiter boundary <:+: t) (h : parsePart t = some part) :
    part.Sound boundary := by
  obtain ⟨fields, hfields, h⟩ := bind_eq_some_iff.1 h
  refine partOf_sound (fun f hf => ?_) ?_ h
  · obtain ⟨line, hline, hf⟩ := exists_of_mapM_eq_some hfields hf
    have hmem : line ∈ splitPattern crlf t := (takeWhile_sublist _).mem hline
    exact parseField_sound (not_infix_of_mem_splitPattern crlf_ne_nil line hmem) hf
  · by_cases hne : ((splitPattern crlf t).dropWhile (· ≠ [])).drop 1 = []
    · -- a delimiter is more than a line break
      rw [hne]
      intro hplace
      exact absurd hplace.length_le (by simp [delimiter, crlf, ascii])
    · have hsuffix := content_suffix hne
      rw [intercalate_splitPattern crlf_ne_nil] at hsuffix
      exact fun hplace => ht (hplace.trans hsuffix.isInfix)

theorem parseSegments_sound {segments : List (List UInt8)}
    (hsegments : ∀ s ∈ segments, ¬delimiter boundary <:+: s)
    (h : parseSegments segments = some parts) : ∀ part ∈ parts, part.Sound boundary := by
  induction segments generalizing parts with
  | nil => cases h
  | cons segment segments ih =>
    rw [forall_mem_cons] at hsegments
    rw [parseSegments] at h
    split at h
    next =>
      cases h
      exact nofun
    next =>
      obtain ⟨-, h⟩ := ite_none_right_eq_some.1 h
      obtain ⟨part, hpart, h⟩ := bind_eq_some_iff.1 h
      obtain ⟨rest, hrest, h⟩ := bind_eq_some_iff.1 h
      cases h
      refine forall_mem_cons.2 ⟨parsePart_sound (fun hplace => hsegments.1 (hplace.trans ?_)) hpart,
        ih hsegments.2 hrest⟩
      exact ((drop_suffix _ _).trans (dropWhile_suffix _)).isInfix

theorem sound_of_parseMultipart {boundary body : List UInt8}
    (h : parseMultipart boundary body = some parts) : ∀ part ∈ parts, part.Sound boundary :=
  parseSegments_sound
    (fun s hs => not_infix_of_mem_splitPattern (cons_ne_nil _ _) s (mem_of_mem_tail hs)) h

end

/-! ## What a writer writes -/

def block (lines : List (List UInt8)) (content : List UInt8) : List UInt8 :=
  lines.flatMap (· ++ crlf) ++ (crlf ++ content)

def render (boundary : List UInt8) (segments : List (List UInt8)) : List UInt8 :=
  segments.flatMap (fun s => ascii "--" ++ boundary ++ crlf ++ s ++ crlf) ++
    (ascii "--" ++ boundary ++ ascii "--" ++ crlf)

structure IsHeaderLine (line : List UInt8) : Prop where
  noBreak : NoBreak line
  ne_nil : line ≠ []
  head_ne : line.head? ≠ some 45

theorem block_cons (line : List UInt8) (lines : List (List UInt8)) (content : List UInt8) :
    block (line :: lines) content = line ++ (crlf ++ block lines content) := by
  rw [block, flatMap_cons, append_assoc, append_assoc]
  rfl

theorem splitPattern_block (h : ∀ line ∈ lines, NoBreak line) (content : List UInt8) :
    splitPattern crlf (block lines content) = lines ++ [] :: splitPattern crlf content := by
  induction lines with
  | nil => exact splitPattern_append (by decide) (by decide)
  | cons line lines ih =>
    rw [forall_mem_cons] at h
    rw [block_cons, cons_append, ← ih h.2]
    exact splitPattern_append (by decide) h.1

theorem parsePart_block (h : ∀ line ∈ lines, IsHeaderLine line)
    {fields : List (List UInt8 × List UInt8)} (hfields : lines.mapM parseField = some fields)
    (content : List UInt8) :
    parsePart (block lines content) = partOf fields content := by
  have hlines : ∀ line ∈ lines, decide (line ≠ []) = true := fun line hline =>
    decide_eq_true (h line hline).ne_nil
  rw [parsePart, splitPattern_block fun line hline => (h line hline).noBreak]
  simp only [takeWhile_append_of_pos hlines, dropWhile_append_of_pos hlines]
  rw [takeWhile_cons_of_neg (by simp), append_nil, hfields, dropWhile_cons_of_neg (by simp),
    drop_one, tail_cons, intercalate_splitPattern crlf_ne_nil]
  rfl

theorem not_delimiter_infix_block (h : ∀ line ∈ lines, IsHeaderLine line) {content : List UInt8}
    (hcontent : ¬delimiter boundary <:+: crlf ++ content) :
    ¬delimiter boundary <:+: crlf ++ block lines content := by
  induction lines with
  | nil =>
    intro hplace
    rcases (infix_cons_cons_iff (by decide)).1 hplace with hstart | hplace
    · exact absurd (cons_prefix_cons.1 hstart).1 (by decide)
    · exact hcontent hplace
  | cons line lines ih =>
    rw [forall_mem_cons] at h
    rw [block_cons]
    intro hplace
    rcases (infix_cons_cons_iff (by decide)).1 hplace with hstart | hplace
    · -- the line does not begin with a hyphen
      obtain ⟨b, line, rfl⟩ := exists_cons_of_ne_nil h.1.ne_nil
      exact h.1.head_ne (congrArg some (cons_prefix_cons.1 hstart).1.symm)
    · rcases infix_of_infix_append (by decide) hplace with hbreak | hplace
      · exact h.1.noBreak hbreak
      · exact ih h.2 hplace

def afterDelimiter (boundary : List UInt8) : List (List UInt8) → List UInt8
  | [] => ascii "--" ++ crlf
  | s :: segments => (crlf ++ s) ++ (delimiter boundary ++ afterDelimiter boundary segments)

theorem crlf_append_render (boundary : List UInt8) (segments : List (List UInt8)) :
    crlf ++ render boundary segments = delimiter boundary ++ afterDelimiter boundary segments := by
  induction segments with
  | nil => simp [render, delimiter, afterDelimiter]
  | cons s segments ih =>
    rw [afterDelimiter, ← ih]
    simp [render, delimiter]

theorem splitPattern_afterDelimiter (hboundary : 13 ∉ boundary)
    (h : ∀ s ∈ segments, ¬delimiter boundary <:+: crlf ++ s) :
    splitPattern (delimiter boundary) (afterDelimiter boundary segments) =
      segments.map (crlf ++ ·) ++ [ascii "--" ++ crlf] := by
  have hcr : 13 ∉ 10 :: (ascii "--" ++ boundary) := by
    simpa [ascii] using hboundary
  induction segments with
  | nil =>
    refine splitPattern_of_none ((splitOncePattern_eq_none_iff (List.cons_ne_nil _ _)).2 ?_)
    simp [afterDelimiter, crlf, ascii, List.infix_cons_iff]
  | cons s segments ih =>
    rw [List.forall_mem_cons] at h
    rw [afterDelimiter, List.map_cons, List.cons_append, ← ih h.2]
    exact splitPattern_append hcr h.1

theorem parseSegments_map (segments : List (List UInt8)) :
    parseSegments (segments.map (crlf ++ ·) ++ [ascii "--" ++ crlf]) = segments.mapM parsePart := by
  induction segments with
  | nil => rfl
  | cons s segments ih =>
    have hopen : ¬ascii "--" <+: crlf ++ s :=
      fun h => absurd (List.cons_prefix_cons.1 h).1 (by decide)
    have hline : crlf <+: (crlf ++ s).dropWhile isBlank := List.prefix_append crlf s
    rw [List.map_cons, List.cons_append, parseSegments, ih, List.mapM_cons, if_neg hopen,
      if_pos hline]
    rfl

theorem parseMultipart_render (hboundary : 13 ∉ boundary)
    (h : ∀ s ∈ segments, ¬delimiter boundary <:+: crlf ++ s) :
    parseMultipart boundary (render boundary segments) = segments.mapM parsePart := by
  have hcr : 13 ∉ 10 :: (ascii "--" ++ boundary) := by
    simpa [ascii] using hboundary
  have hsplit :
      splitPattern (delimiter boundary) (delimiter boundary ++ afterDelimiter boundary segments) =
      [] :: splitPattern (delimiter boundary) (afterDelimiter boundary segments) :=
    splitPattern_append (a := []) hcr (mt infix_nil.1 (cons_ne_nil _ _))
  rw [parseMultipart, crlf_append_render, hsplit, tail_cons,
    splitPattern_afterDelimiter hboundary h, parseSegments_map]

end Lib.Multipart
