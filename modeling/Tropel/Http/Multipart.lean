import Tropel.Lib.Multipart
import Tropel.Lib.SortBy
import Tropel.Http.Client

/-!
# Multipart bodies

The body of a form with files (`multipartFormDataBytes`): the parts in the order of their names,
each behind a fixed boundary, with header lines.

* `multipart_parsesBack_iff`: when its parts are read back.
-/

namespace Tropel

open Lib Lib.Multipart List Option

/-! ## Writing -/

def multipartBoundary : Bytes := ascii "------------------------tropel-boundary-7a2f24b9"

structure FormDataPart where
  name : Bytes
  value : Option Bytes := none
  data : Option Bytes := none
  filename : Option Bytes := none
  mime : Option Bytes := none

def escapeMultipartFieldName (value : Bytes) : Bytes :=
  (value.flatMap fun b => if b = 92 then [92, 92] else [b]).flatMap fun b =>
    if b = 34 then [92, 34] else [b]

def partBytes (part : FormDataPart) : Bytes :=
  ascii "--" ++ multipartBoundary ++ crlf ++
    (match part.data with
    | some data =>
      ascii "Content-Disposition: form-data; name=\"" ++ escapeMultipartFieldName part.name ++
        ascii "\"; filename=\"" ++ escapeMultipartFieldName (part.filename.getD (ascii "file")) ++
          ascii "\"" ++ crlf ++
        ascii "Content-Type: " ++ part.mime.getD (ascii "application/octet-stream") ++ crlf ++
          crlf ++ data
    | none =>
      ascii "Content-Disposition: form-data; name=\"" ++ escapeMultipartFieldName part.name ++
        ascii "\"" ++
        crlf ++ crlf ++ part.value.getD []) ++ crlf

variable (parts : List FormDataPart)

def sortByName : List FormDataPart :=
  sortByKey (fun part => part.name.map UInt8.toNat) parts

def multipartFormDataBytes : Bytes :=
  (sortByName parts).flatMap partBytes ++ (ascii "--" ++ multipartBoundary ++ ascii "--" ++ crlf)

namespace FormDataPart

variable (part : FormDataPart)

def content : Bytes := part.data.getD (part.value.getD [])

def sentFilename : Option Bytes := part.data.map fun _ => part.filename.getD (ascii "file")

def sentMime : Option Bytes :=
  part.data.map fun _ => part.mime.getD (ascii "application/octet-stream")

def received : Part where
  name := part.name
  filename := part.sentFilename
  contentType := part.sentMime
  headers := if part.data.isSome then [ascii "content-disposition", ascii "content-type"]
    else [ascii "content-disposition"]
  content := part.content

def disposition : Bytes := ascii "form-data; name=\"" ++ (escapeMultipartFieldName part.name ++
  (ascii "\"" ++ (part.sentFilename.map fun f =>
    ascii "; filename=\"" ++ (escapeMultipartFieldName f ++ ascii "\"")).getD []))

def lines : List Bytes :=
  (ascii "Content-Disposition" ++ (ascii ":" ++ (ascii " " ++ part.disposition))) ::
    (part.sentMime.map fun m => ascii "Content-Type" ++ (ascii ":" ++ (ascii " " ++ m))).toList

end FormDataPart

theorem partBytes_eq (part : FormDataPart) : partBytes part =
    ascii "--" ++ multipartBoundary ++ crlf ++ block part.lines part.content ++ crlf := by
  rw [partBytes]
  cases h : part.data with
  | none
  | some data => simp [FormDataPart.lines, FormDataPart.disposition, FormDataPart.sentFilename,
      FormDataPart.sentMime, FormDataPart.content, block, h, ascii]

theorem multipartFormDataBytes_eq : multipartFormDataBytes parts =
    render multipartBoundary
      ((sortByName parts).map fun part => block part.lines part.content) := by
  rw [multipartFormDataBytes, render, flatMap_map]
  simp only [← partBytes_eq]

theorem escapeMultipartFieldName_cons (b : UInt8) (v : Bytes) : escapeMultipartFieldName (b :: v) =
    (if b = 92 ∨ b = 34 then [92, b] else [b]) ++ escapeMultipartFieldName v := by
  rw [escapeMultipartFieldName, escapeMultipartFieldName, flatMap_cons, flatMap_append]
  refine congrArg (· ++ _) ?_
  by_cases hb : b = 92
  · subst hb
    rfl
  · by_cases hq : b = 34
    · subst hq
      rfl
    · simp [hb, hq]

theorem parseQuoted_escape (v rest : Bytes) :
    parseQuoted (escapeMultipartFieldName v ++ 34 :: rest) = some (v, rest) := by
  induction v with
  | nil => exact parseQuoted_quote rest
  | cons b v ih =>
    rw [escapeMultipartFieldName_cons, append_assoc]
    split
    next hb =>
      have hplain : ¬(b = 13 ∨ b = 10) := by
        rcases hb with rfl | rfl <;> decide
      rw [cons_append, singleton_append, parseQuoted_backslash hplain, ih, map_some]
    next hb =>
      rw [not_or] at hb
      rw [singleton_append, parseQuoted_plain hb.2 hb.1, ih, map_some]

variable {v : Bytes} {parts : List FormDataPart} {part : FormDataPart}

theorem head_escape (h : (escapeMultipartFieldName v).head? = some 10) : v.head? = some 10 := by
  cases v with
  | nil => exact h
  | cons b v =>
    rw [escapeMultipartFieldName_cons] at h
    split at h
    next => cases h
    next => exact h

theorem noBreak_escape (h : NoBreak v) : NoBreak (escapeMultipartFieldName v) := by
  induction v with
  | nil => exact h
  | cons b v ih =>
    rw [escapeMultipartFieldName_cons]
    have hv := ih (h.mono (suffix_cons _ _).isInfix)
    split
    next hb =>
      refine NoBreak.append ?_ hv (Or.inl ?_) <;> rcases hb with rfl | rfl <;> decide
    next =>
      intro hplace
      rcases infix_cons_iff.1 hplace with hstart | hplace
      · obtain ⟨rfl, w, hw⟩ := cons_prefix_cons.1 hstart
        have hhead : (escapeMultipartFieldName v).head? = some 10 := congrArg List.head? hw.symm
        obtain ⟨v, rfl⟩ := head?_eq_some_iff.1 (head_escape hhead)
        exact h (prefix_append crlf v).isInfix
      · exact hv hplace

/-! ## Reading back -/

theorem parseParameters_nil (n : ℕ) : parseParameters n [] = some [] := by
  cases n <;> rfl

theorem parseParameters_quoted {n : ℕ} {key v rest : Bytes} (hkey : 61 ∉ key) :
    parseParameters (n + 1)
      (59 :: (key ++ 61 :: 34 :: (escapeMultipartFieldName v ++ 34 :: rest))) =
      (parseParameters n rest).map (((trimMatches isBlank key).map Multipart.toLower, v) :: ·) := by
  have hsplit :
      splitOncePattern (ascii "=") (key ++ 61 :: 34 :: (escapeMultipartFieldName v ++ 34 :: rest)) =
      some (key, 34 :: (escapeMultipartFieldName v ++ 34 :: rest)) := splitOncePattern_append hkey _
  have hvalue : parseValue (34 :: (escapeMultipartFieldName v ++ 34 :: rest)) = some (v, rest) := by
    rw [parseValue, if_pos rfl, parseQuoted_escape]
  rw [parseParameters, dropWhile_cons_of_neg (by decide)]
  simp only [if_pos, hsplit, hvalue, bind_eq_bind, bind_some]
  cases parseParameters n rest <;> rfl

theorem parseField_eq {name value : Bytes} (hname : 58 ∉ name) (hvalue : Unpadded isBlank value) :
    parseField (name ++ (ascii ":" ++ (ascii " " ++ value))) = some (name.map Multipart.toLower,
      value) := by
  have htrim : trimMatches isBlank (ascii " " ++ value) = value := trimMatches_eq_self hvalue
  have hsplit : splitOncePattern (ascii ":") (name ++ (ascii ":" ++ (ascii " " ++ value))) =
      some (name, ascii " " ++ value) := splitOncePattern_append hname _
  rw [parseField, hsplit, map_some, htrim]

section

variable {part : FormDataPart}

theorem disposition_eq : part.disposition = ascii "form-data" ++ 59 :: (ascii " name" ++
    61 :: 34 :: (escapeMultipartFieldName part.name ++ 34 :: (part.sentFilename.map fun f =>
      59 :: (ascii " filename" ++ 61 :: 34 :: (escapeMultipartFieldName f ++ [34]))).getD [])) := by
  rw [FormDataPart.disposition]
  cases part.sentFilename <;> simp [ascii]

theorem unpadded_disposition : Unpadded isBlank part.disposition := by
  have hquote : ∃ t, part.disposition = t ++ [34] := by
    rw [disposition_eq]
    cases part.sentFilename with
    | none => exact ⟨ascii "form-data; name=\"" ++ escapeMultipartFieldName part.name, by
        simp [ascii]⟩
    | some f =>
      exact ⟨ascii "form-data; name=\"" ++ escapeMultipartFieldName part.name ++
        ascii "\"; filename=\"" ++ escapeMultipartFieldName f, by simp [ascii]⟩
  constructor
  · rintro b ⟨⟩
    rfl
  · obtain ⟨t, ht⟩ := hquote
    rw [ht, getLast?_concat]
    rintro b ⟨⟩
    rfl

theorem noBreak_parameter {key v rest : Bytes} (hkey : NoBreak key) (hlast : key.getLast? ≠ some 13)
    (hv : NoBreak v) (hrest : NoBreak rest) :
    NoBreak (59 :: (key ++ 61 :: 34 :: (escapeMultipartFieldName v ++ 34 :: rest))) := by
  refine NoBreak.cons (by decide) (hkey.append ?_ (Or.inl hlast))
  refine NoBreak.cons (by decide) (NoBreak.cons (by decide) ?_)
  exact (noBreak_escape hv).append (hrest.cons (by decide)) (Or.inr (by simp))

theorem noBreak_disposition (h : part.received.Sound multipartBoundary) :
    NoBreak part.disposition := by
  rw [disposition_eq]
  refine NoBreak.append (by decide +kernel)
    (noBreak_parameter (by decide +kernel) (by decide +kernel) h.name ?_)
    (Or.inl (by decide +kernel))
  cases hfile : part.sentFilename with
  | none => exact (by decide +kernel : NoBreak [])
  | some f => exact noBreak_parameter (by decide +kernel) (by
      decide +kernel) (h.filename f hfile) (by decide +kernel)

theorem isHeaderLine_of_value {name value : Bytes} (hname : IsHeaderLine name)
    (hlast : name.getLast? ≠ some 13) (hvalue : NoBreak value) :
    IsHeaderLine (name ++ (ascii ":" ++ (ascii " " ++ value))) := by
  refine ⟨hname.noBreak.append ?_ (Or.inl hlast), ?_, ?_⟩
  · exact NoBreak.cons (by decide) (NoBreak.cons (by decide) hvalue)
  · exact append_ne_nil_of_left_ne_nil hname.ne_nil _
  · rw [head?_append_of_ne_nil _ hname.ne_nil]
    exact hname.head_ne

theorem isHeaderLine_of_mem_lines (h : part.received.Sound multipartBoundary) :
    ∀ line ∈ part.lines, IsHeaderLine line := by
  have hdisposition : IsHeaderLine (ascii "Content-Disposition") :=
    ⟨by decide +kernel, by decide +kernel, by decide +kernel⟩
  have htype : IsHeaderLine (ascii "Content-Type") :=
    ⟨by decide +kernel, by decide +kernel, by decide +kernel⟩
  rw [FormDataPart.lines, forall_mem_cons]
  refine ⟨isHeaderLine_of_value hdisposition (by decide +kernel) (noBreak_disposition h),
    fun line hmem => ?_⟩
  obtain ⟨m, hm, rfl⟩ := map_eq_some_iff.1 (mem_toList.1 hmem)
  exact isHeaderLine_of_value htype (by decide +kernel) (h.contentType m hm).1

theorem mapM_parseField_lines (h : part.received.Sound multipartBoundary) :
    part.lines.mapM parseField = some ((ascii "content-disposition", part.disposition) ::
      (part.sentMime.map fun m => (ascii "content-type", m)).toList) := by
  have hdisposition : (ascii "Content-Disposition").map Multipart.toLower =
      ascii "content-disposition" := by
    decide +kernel
  have htype : (ascii "Content-Type").map Multipart.toLower = ascii "content-type" := by
    decide +kernel
  rw [FormDataPart.lines, mapM_cons, parseField_eq (by decide +kernel) unpadded_disposition,
    hdisposition]
  cases hmime : part.sentMime with
  | none => rfl
  | some m =>
    rw [map_some, toList_some, mapM_cons,
      parseField_eq (by decide +kernel) (h.contentType m hmime).2, htype]
    rfl

theorem parseParameters_disposition :
    parseParameters part.disposition.length (part.disposition.dropWhile (· ≠ 59)) =
    some ((ascii "name",
      part.name) :: (part.sentFilename.map fun f => (ascii "filename", f)).toList) := by
  have hname : (trimMatches isBlank (ascii " name")).map Multipart.toLower = ascii "name" := by
    decide +kernel
  have hfilename : (trimMatches isBlank (ascii " filename")).map Multipart.toLower =
      ascii "filename" := by
    decide +kernel
  obtain ⟨n, hn⟩ : ∃ n, part.disposition.length = n + 2 := by
    refine ⟨part.disposition.length - 2, ?_⟩
    have hlength : (ascii "form-data").length = 9 := by decide +kernel
    rw [disposition_eq, length_append, hlength]
    omega
  have hstart : ∀ b ∈ ascii "form-data", decide (b ≠ 59) = true := by decide +kernel
  rw [hn, disposition_eq, dropWhile_append_of_pos hstart, dropWhile_cons_of_neg (by decide),
    parseParameters_quoted (by decide +kernel), hname]
  cases part.sentFilename with
  | none =>
    rw [map_none, getD_none, parseParameters_nil]
    rfl
  | some f =>
    rw [map_some, getD_some, parseParameters_quoted (by decide +kernel), hfilename,
      parseParameters_nil]
    rfl

theorem partOf_lines : partOf ((ascii "content-disposition", part.disposition) ::
      (part.sentMime.map fun m => (ascii "content-type", m)).toList) part.content =
        some part.received := by
  have hkind : trimMatches isBlank (part.disposition.takeWhile (· ≠ 59)) = ascii "form-data" := by
    have hstart : ∀ b ∈ ascii "form-data", decide (b ≠ 59) = true := by decide +kernel
    rw [disposition_eq, takeWhile_append_of_pos hstart, takeWhile_cons_of_neg (by decide),
      append_nil]
    decide +kernel
  have hheaders :
      (ascii "content-disposition") :: (part.sentMime.map fun m => (ascii "content-type",
        m)).toList.map
      Prod.fst = part.received.headers := by
    rw [FormDataPart.received, FormDataPart.sentMime]
    cases part.data <;> rfl
  simp only [partOf, field_cons_of_eq, bind_eq_bind, bind_some, hkind, if_true,
    parseParameters_disposition, map_cons, hheaders]
  rw [field_cons_of_ne (by decide +kernel), field_toList, field_cons_of_ne (by decide +kernel),
    field_toList]
  rfl

theorem parsePart_lines (h : part.received.Sound multipartBoundary) :
    parsePart (block part.lines part.content) = some part.received := by
  rw [parsePart_block (isHeaderLine_of_mem_lines h) (mapM_parseField_lines h), partOf_lines]

end

theorem mem_sortByName : part ∈ sortByName parts ↔ part ∈ parts :=
  (perm_sortByKey _ _).mem_iff

theorem parseMultipart_eq_iff : parseMultipart multipartBoundary (multipartFormDataBytes parts) =
        some ((sortByName parts).map FormDataPart.received) ↔
      ∀ part ∈ parts, part.received.Sound multipartBoundary := by
  constructor
  · intro h part hpart
    exact sound_of_parseMultipart h _ (mem_map_of_mem (mem_sortByName.2 hpart))
  · intro h
    rw [multipartFormDataBytes_eq, parseMultipart_render (by decide +kernel), mapM_map]
    · exact mapM_eq_some_map fun part hpart => parsePart_lines (h part (mem_sortByName.1 hpart))
    · intro s hs
      obtain ⟨part, hpart, rfl⟩ := mem_map.1 hs
      have hsound := h part (mem_sortByName.1 hpart)
      exact not_delimiter_infix_block (isHeaderLine_of_mem_lines hsound) hsound.content

/-! ## The fields of a part -/

structure StableNameOrder (parts fields : List FormDataPart) : Prop where
  perm : fields.Perm parts
  sorted : fields.Pairwise fun a b => a.name.map UInt8.toNat ≤ b.name.map UInt8.toNat
  stable : ∀ name : Bytes, fields.filter (·.name = name) = parts.filter (·.name = name)

theorem stableNameOrder_sortByName (parts : List FormDataPart) :
    StableNameOrder parts (sortByName parts) where
  perm := perm_sortByKey _ _
  sorted := pairwise_sortByKey _ _
  stable name := by
    have hkey (part : FormDataPart) : part.name.map UInt8.toNat = name.map UInt8.toNat ↔
        part.name = name :=
      (map_injective_iff.2 fun _ _ => UInt8.toNat_inj.1).eq_iff
    have hfilter := filter_sortByKey (fun part : FormDataPart => part.name.map UInt8.toNat) parts
        (name.map UInt8.toNat)
    simp only [hkey] at hfilter
    exact hfilter

/-- The fields of a part stay in the places that they are written to: nothing on a line
    breaks it, and the content is not taken for a delimiter. -/
structure FormDataPart.Framed (part : FormDataPart) : Prop where
  name : NoBreak part.name
  filename : ∀ f ∈ part.sentFilename, NoBreak f
  mime : ∀ m ∈ part.sentMime, NoBreak m ∧ Unpadded isBlank m
  content : ¬ascii "--" ++ multipartBoundary <+: part.content

theorem sound_received_iff (h : ¬delimiter multipartBoundary <:+: part.content) :
    part.received.Sound multipartBoundary ↔ part.Framed := by
  -- behind the line break of the headers, a content may begin with a delimiter as well
  have hcontent : delimiter multipartBoundary <:+: crlf ++ part.content ↔
      ascii "--" ++ multipartBoundary <+: part.content :=
    (infix_cons_cons_iff (by decide)).trans (or_iff_left h)
  constructor
  · intro hsound
    exact ⟨hsound.name, hsound.filename, hsound.contentType, mt hcontent.2 hsound.content⟩
  · intro hframed
    exact ⟨hframed.name, hframed.filename, hframed.mime, mt hcontent.1 hframed.content⟩

/-- A multipart body parses back to its parts, in the stable order of their names, if and
    only if the fields of each part are framed. -/
theorem multipart_parsesBack_iff (parts : List FormDataPart)
    (h : ∀ part ∈ parts, ¬delimiter multipartBoundary <:+: part.content) :
    StableNameOrder parts (sortByName parts) ∧
      (parseMultipart multipartBoundary (multipartFormDataBytes parts) =
          some ((sortByName parts).map FormDataPart.received) ↔ ∀ part ∈ parts, part.Framed) := by
  refine ⟨stableNameOrder_sortByName parts, ?_⟩
  rw [parseMultipart_eq_iff]
  exact forall₂_congr fun part hpart => sound_received_iff (h part hpart)

section Example

def quotedParts : List FormDataPart :=
  [{ name := ascii "b\\", value := some (ascii "1") },
    { name := ascii "\"a\"", data := some (ascii "x\r\n--"), filename := some (ascii "a\".txt") }]

def injectedPart : FormDataPart where
  name := ascii "file"
  data := some (ascii "x")
  mime := some (ascii "text/plain\r\nX-Added: 1\r\n\r\n\r\n--" ++ multipartBoundary ++
    ascii "\r\nContent-Disposition: form-data; name=\"admin\"")

theorem multipart_parsesBack_quoted :
    parseMultipart multipartBoundary (multipartFormDataBytes quotedParts) =
    some ((sortByName quotedParts).map FormDataPart.received) := by
  have hcontent : ∀ part ∈ quotedParts, ¬delimiter multipartBoundary <:+: part.content := by
    decide +kernel
  refine (multipart_parsesBack_iff quotedParts hcontent).2.2 ?_
  rw [quotedParts, forall_mem_cons, forall_mem_singleton]
  refine ⟨⟨by decide +kernel, nofun, nofun, by decide +kernel⟩, by
    decide +kernel, ?_, ?_, by decide +kernel⟩
  · rintro f ⟨⟩
    decide +kernel
  · rintro m ⟨⟩
    refine ⟨by decide +kernel, ?_, ?_⟩ <;> decide +kernel

theorem multipart_adds_part : ¬delimiter multipartBoundary <:+: injectedPart.content ∧
    (parseMultipart multipartBoundary (multipartFormDataBytes [injectedPart])).map
        (·.map fun part => (part.name, part.headers, part.content)) =
      some [(ascii "file", [ascii "content-disposition", ascii "content-type", ascii "x-added"],
        []), (ascii "admin", [ascii "content-disposition"], ascii "x")] := by
  decide +kernel

end Example

end Tropel
