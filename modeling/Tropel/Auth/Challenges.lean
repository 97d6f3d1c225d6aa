import Tropel.Lib.IndexMap
import Tropel.Lib.Quoted

/-!
# Challenges

A server lists the schemes that it understands in `WWW-Authenticate`, each with its parameters.
-/

namespace Tropel

open Lib List Option

/-! ## The parts of a header -/

structure Quoting where
  inQuotes : Bool
  escaped : Bool

namespace Quoting

def outside : Quoting := ⟨false, false⟩

def inside : Quoting := ⟨true, false⟩

def next (q : Quoting) (c : Char) : Option Quoting :=
  if q.escaped then some { q with escaped := false }
  else if c = '\\' ∧ q.inQuotes then some { q with escaped := true }
  else if c = '"' then some { q with inQuotes := !q.inQuotes }
  else if c = ',' ∧ !q.inQuotes then none
  else some q

end Quoting

def partsFrom (q : Quoting) (acc : Text) : Text → List Text
  | [] => [acc]
  | c :: t =>
    match q.next c with
    | some q' => partsFrom q' (acc ++ [c]) t
    | none => acc :: partsFrom q [] t

def splitChallengeParts (header : Text) : List Text := partsFrom .outside [] header

def Closed (t : Text) : Prop := t.foldlM Quoting.next .outside = some .outside

variable {us : List Text} {t : Text}

theorem partsFrom_append {q q' : Quoting} (h : t.foldlM Quoting.next q = some q') (acc u : Text) :
    partsFrom q acc (t ++ u) = partsFrom q' (acc ++ t) u := by
  induction t generalizing q acc with
  | nil =>
    cases h
    rw [append_nil, nil_append]
  | cons c t ih =>
    rw [foldlM_cons] at h
    obtain ⟨q₁, hc, h⟩ := bind_eq_some_iff.1 h
    rw [cons_append, partsFrom, hc]
    dsimp only
    rw [ih h, append_assoc, singleton_append]

theorem splitChallengeParts_intercalate {ts : List Text} (hne : ts ≠ []) (h : ∀ t ∈ ts, Closed t) :
    splitChallengeParts ([','].intercalate ts) = ts := by
  induction ts with
  | nil => exact absurd rfl hne
  | cons t ts ih =>
    rw [forall_mem_cons] at h
    cases ts with
    | nil =>
      have hparts := partsFrom_append h.1 [] []
      rw [append_nil, nil_append] at hparts
      rw [intercalate_singleton, splitChallengeParts, hparts, partsFrom]
    | cons u ts =>
      have hrest := ih (cons_ne_nil u ts) h.2
      rw [intercalate_cons_cons, splitChallengeParts, append_assoc, partsFrom_append h.1]
      exact congrArg (t :: ·) hrest

namespace Closed

variable {t u : Text}

theorem append (ht : Closed t) (hu : Closed u) : Closed (t ++ u) := by
  rw [Closed, foldlM_append, ht]
  exact hu

theorem of_plain (hquote : '"' ∉ t) (hcomma : ',' ∉ t) : Closed t := by
  induction t with
  | nil => rfl
  | cons c t ih =>
    rw [mem_cons, not_or] at hquote hcomma
    have hnext : Quoting.outside.next c = some .outside := by
      simp [Quoting.next, Quoting.outside, Ne.symm hquote.1, Ne.symm hcomma.1]
    rw [Closed, foldlM_cons, hnext]
    exact ih hquote.2 hcomma.2

theorem foldlM_escape (t : Text) : (escape t).foldlM Quoting.next .inside = some .inside := by
  induction t with
  | nil => rfl
  | cons c t ih =>
    have hchar : (escapeChar c).foldlM Quoting.next .inside = some .inside := by
      unfold escapeChar
      split
      · rfl
      next h =>
        rw [not_or] at h
        simp [Quoting.next, Quoting.inside, h.1, h.2]
    rw [escape_cons, foldlM_append, hchar]
    exact ih

theorem quoted (t : Text) : Closed (Lib.quoted t) := by
  have hopen : Quoting.outside.next '"' = some .inside := rfl
  rw [Closed, Lib.quoted, foldlM_cons, hopen]
  change List.foldlM Quoting.next .inside (escape t ++ ['"']) = some .outside
  rw [foldlM_append, foldlM_escape]
  rfl

theorem of_isToken (ht : IsToken t) : Closed t :=
  of_plain (ht.not_mem (by decide)) (ht.not_mem (by decide))

theorem of_isWhitespace (ht : ∀ c ∈ t, isWhitespace c = true) : Closed t :=
  of_plain (fun h => absurd (ht _ h) (by decide)) fun h => absurd (ht _ h) (by decide)

theorem of_padded (hu : Padded u t) (ht : Closed t) : Closed u := by
  obtain ⟨a, b, ha, hb, rfl⟩ := hu
  exact ((of_isWhitespace ha).append ht).append (of_isWhitespace hb)

theorem forall_of_padded {us ts : List Text} (hus : List.Forall₂ Padded us ts)
    (h : ∀ t ∈ ts, Closed t) :
    ∀ u ∈ us, Closed u := by
  induction hus with
  | nil => exact forall_mem_nil _
  | cons hu _ ih =>
    rw [forall_mem_cons] at h ⊢
    exact ⟨of_padded hu h.1, ih h.2⟩

end Closed

/-! ## Parameters -/

def unquoteFrom : Bool → Text → Text
  | _, [] => []
  | true, c :: t => c :: unquoteFrom false t
  | false, c :: t =>
    if c = '\\' then unquoteFrom true t
    else if c = '"' then []
    else c :: unquoteFrom false t

def unquoteChallengeValue (value : Text) : Text :=
  match value with
  | '"' :: t => unquoteFrom false t
  | _ => value

def parseChallengePart (part : Text) : Option (Text × Text) :=
  let part := trim part
  if part = [] then none
  else (splitOnce '=' part).map fun p =>
    (toAsciiLowercase (trim p.1), unquoteChallengeValue (trim p.2))

theorem unquoteFrom_escape (t u : Text) : unquoteFrom false (escape t ++ '"' :: u) = t := by
  induction t with
  | nil => rfl
  | cons c t ih =>
    rw [escape_cons, append_assoc, escapeChar]
    split
    · exact congrArg (c :: ·) ih
    next h =>
      rw [not_or] at h
      rw [singleton_append, unquoteFrom, if_neg h.1, if_neg h.2, ih]

theorem unquoteChallengeValue_quoted (t : Text) : unquoteChallengeValue (quoted t) = t :=
  unquoteFrom_escape t []

theorem unquoteChallengeValue_of_isToken (ht : IsToken t) : unquoteChallengeValue t = t := by
  unfold unquoteChallengeValue
  split
  · exact absurd mem_cons_self (ht.not_mem (by decide))
  · rfl

/-! ## Challenges -/

abbrev ParsedChallenge := Text × IndexMap Text Text

structure ChallengeState where
  challenges : List ParsedChallenge
  current : Option ParsedChallenge

def startsScheme (part : Text) : Bool :=
  match part.findIdx? (· = '='), part.findIdx? isWhitespace with
  | none, _ => true
  | some eq, some space => space < eq
  | some _, none => false

def addParam (params : IndexMap Text Text) (part : Text) : IndexMap Text Text :=
  match parseChallengePart part with
  | some (k, v) => params.insert k v
  | none => params

variable (st : ChallengeState)

namespace ChallengeState

def start : ChallengeState := ⟨[], none⟩

def part (part : Text) : ChallengeState :=
  let part := trim part
  if part = [] then st
  else if startsScheme part then
    let scheme := part.takeWhile fun c => !isWhitespace c
    let rest := part.dropWhile fun c => !isWhitespace c
    ⟨st.challenges ++ st.current.toList, some (scheme, addParam ∅ rest)⟩
  else
    match st.current with
    | some (scheme, params) => { st with current := some (scheme, addParam params part) }
    | none => st

def finish : List ParsedChallenge := st.challenges ++ st.current.toList

end ChallengeState

def parseChallenges (header : Text) : List ParsedChallenge :=
  ((splitChallengeParts header).foldl ChallengeState.part .start).finish

def findDigestChallenge (header : Text) : Option (IndexMap Text Text) :=
  ((parseChallenges header).find? fun c => toAsciiLowercase c.1 = "digest").map Prod.snd

/-! ## Printing -/

inductive Written
  | token (t : Text) (h : IsToken t)
  | quoted (t : Text)

namespace Written

def text : Written → Text
  | token t _ => t
  | quoted t => t

def print : Written → Text
  | token t _ => t
  | quoted t => Lib.quoted t

end Written

structure Parameter where
  name : Text
  value : Written
  token : IsToken name
  lower : toAsciiLowercase name = name

def Parameter.print (p : Parameter) : Text := p.name ++ '=' :: p.value.print

structure Challenge where
  scheme : Text
  params : List Parameter
  token : IsToken scheme
  nodup : (params.map Parameter.name).Nodup

variable (c : Challenge)

namespace Challenge

def parts : List Text :=
  match c.params with
  | [] => [c.scheme]
  | p :: ps => (c.scheme ++ ' ' :: p.print) :: ps.map Parameter.print

def parsed : ParsedChallenge :=
  (c.scheme, ⟨c.params.map fun p => (p.name, p.value.text), by
    rw [List.map_map]
    exact c.nodup⟩)

end Challenge

/-! ## Reading back -/

namespace Written

variable (w : Written)

theorem closed_print : Closed w.print := by
  cases w with
  | token t h => exact .of_isToken h
  | quoted t => exact .quoted t

theorem unquote_print : unquoteChallengeValue w.print = w.text := by
  cases w with
  | token t h => exact unquoteChallengeValue_of_isToken h
  | quoted t => exact unquoteChallengeValue_quoted t

theorem print_ne_nil : w.print ≠ [] := by
  cases w with
  | token t h => exact h.1
  | quoted t => exact cons_ne_nil _ _

theorem unpadded_print : Unpadded isWhitespace w.print := by
  cases w with
  | token t h =>
    exact ⟨fun c hc => h.not_isWhitespace c (mem_of_mem_head? hc),
      fun c hc => h.not_isWhitespace c (mem_of_mem_getLast? hc)⟩
  | quoted t =>
    have hlast : (Lib.quoted t).getLast? = some '"' := by
      rw [Lib.quoted, ← cons_append, getLast?_append_cons, getLast?_singleton]
    constructor
    · intro c hc
      cases some.inj hc
      decide
    · intro c hc
      cases some.inj (hlast.symm.trans hc)
      decide

end Written

namespace Parameter

variable (p : Parameter)

theorem closed_print : Closed p.print := by
  have heq : p.print = (p.name ++ ['=']) ++ p.value.print := by rw [print, append_cons]
  rw [heq]
  exact ((Closed.of_isToken p.token).append (.of_plain (by decide) (by decide))).append
    p.value.closed_print

theorem unpadded_print : Unpadded isWhitespace p.print := by
  constructor
  · intro c hc
    rw [print, head?_append_of_ne_nil _ p.token.1] at hc
    exact p.token.not_isWhitespace c (mem_of_mem_head? hc)
  · intro c hc
    rw [print, append_cons, getLast?_append_of_ne_nil _ p.value.print_ne_nil] at hc
    exact p.value.unpadded_print.2 c hc

theorem trim_print : trim p.print = p.print := trimMatches_eq_self p.unpadded_print

theorem print_ne_nil : p.print ≠ [] := fun h => p.token.1 (append_eq_nil_iff.1 h).1

theorem parseChallengePart_print {u : Text} (hu : trim u = p.print) :
    parseChallengePart u = some (p.name, p.value.text) := by
  have hsplit : splitOnce '=' p.print = some (p.name, p.value.print) :=
    splitOnce_append (p.token.not_mem (by decide)) _
  rw [parseChallengePart, hu, if_neg p.print_ne_nil, hsplit, map_some,
    trim_eq_self p.token.not_isWhitespace, p.lower,
    show trim p.value.print = p.value.print from trimMatches_eq_self p.value.unpadded_print,
    p.value.unquote_print]

theorem startsScheme_print : startsScheme p.print = false := by
  have heq : p.print.findIdx? (· = '=') = some p.name.length := by
    rw [print, findIdx?_append, findIdx?_eq_none_iff.2, none_or, findIdx?_cons]
    · simp
    · exact fun c hc => decide_eq_false fun h => absurd (h ▸ hc) (p.token.not_mem (by decide))
  have hspace : ∀ i ∈ p.print.findIdx? isWhitespace, ¬i < p.name.length := by
    intro i hi hlt
    obtain ⟨hlen, hi, -⟩ := findIdx?_eq_some_iff_getElem.1 hi
    simp only [print] at hi
    rw [getElem_append_left hlt] at hi
    rw [p.token.not_isWhitespace _ (getElem_mem hlt)] at hi
    cases hi
  rw [startsScheme, heq]
  split
  next h => cases h
  next h hi =>
    cases h
    exact decide_eq_false (hspace _ hi)
  · rfl

end Parameter

namespace ChallengeState

variable {u scheme : Text} {us : List Text} {p : Parameter}

theorem part_print (done : List ParsedChallenge) (scheme : Text) (params : IndexMap Text Text)
    (hu : Padded u p.print) :
    part ⟨done, some (scheme, params)⟩ u =
      ⟨done, some (scheme, params.insert p.name p.value.text)⟩ := by
  have htrim : trim u = p.print := hu.trim_eq.trans p.trim_print
  rw [part, htrim]
  simp only [p.print_ne_nil, if_false, p.startsScheme_print, Bool.false_eq_true]
  rw [addParam, p.parseChallengePart_print p.trim_print]

theorem part_scheme (hscheme : IsToken scheme) (hu : Padded u scheme) :
    part st u = ⟨st.finish, some (scheme, ∅)⟩ := by
  have htrim : trim u = scheme := hu.trim_eq.trans (trim_eq_self hscheme.not_isWhitespace)
  have hstarts : startsScheme scheme = true := by
    rw [startsScheme, findIdx?_eq_none_iff.2]
    exact fun c hc => decide_eq_false fun h => absurd (h ▸ hc) (hscheme.not_mem (by decide))
  have hword : ∀ c ∈ scheme, (!isWhitespace c) = true := fun c hc => by
    rw [hscheme.not_isWhitespace c hc]; rfl
  rw [part, htrim]
  simp only [hscheme.1, if_false, hstarts, if_true, takeWhile_eq_self_iff.2 hword,
    dropWhile_eq_nil_iff.2 hword]
  rfl

theorem startsScheme_append (hscheme : IsToken scheme) (u : Text) :
    startsScheme (scheme ++ ' ' :: u) = true := by
  have hspace : (scheme ++ ' ' :: u).findIdx? isWhitespace = some scheme.length := by
    rw [findIdx?_append, findIdx?_eq_none_iff.2 hscheme.not_isWhitespace, none_or,
      findIdx?_cons, if_pos (by decide)]
    simp
  rw [startsScheme, hspace]
  split
  · rfl
  next i space heq hi =>
    cases hi
    obtain ⟨hlen, hi, -⟩ := findIdx?_eq_some_iff_getElem.1 heq
    -- no equals sign in the scheme, and none at the space behind it
    refine decide_eq_true (lt_of_not_ge fun hle => ?_)
    rcases Nat.lt_or_eq_of_le hle with hlt | rfl
    · rw [getElem_append_left hlt] at hi
      exact absurd (of_decide_eq_true hi ▸ getElem_mem hlt) (hscheme.not_mem (by decide))
    · simp at hi
  next hi => cases hi

theorem part_scheme_print (hscheme : IsToken scheme) (hu : Padded u (scheme ++ ' ' :: p.print)) :
    part st u = ⟨st.finish,
      some (scheme, (∅ : IndexMap Text Text).insert p.name p.value.text)⟩ := by
  have hends : Unpadded isWhitespace (scheme ++ ' ' :: p.print) := by
    constructor
    · intro c hc
      rw [head?_append_of_ne_nil _ hscheme.1] at hc
      exact hscheme.not_isWhitespace c (mem_of_mem_head? hc)
    · intro c hc
      rw [append_cons, getLast?_append_of_ne_nil _ p.print_ne_nil] at hc
      exact p.unpadded_print.2 c hc
  have htrim : trim u = scheme ++ ' ' :: p.print := hu.trim_eq.trans (trimMatches_eq_self hends)
  have hword : ∀ c ∈ scheme, (!isWhitespace c) = true := fun c hc => by
    rw [hscheme.not_isWhitespace c hc]; rfl
  have htake : (scheme ++ ' ' :: p.print).takeWhile (fun c => !isWhitespace c) = scheme := by
    rw [takeWhile_append_of_pos hword, takeWhile_cons_of_neg (by decide), append_nil]
  have hdrop : (scheme ++ ' ' :: p.print).dropWhile (fun c => !isWhitespace c) =
      ' ' :: p.print := by
    rw [dropWhile_append_of_pos hword, dropWhile_cons_of_neg (by decide)]
  have hrest : trim (' ' :: p.print) = p.print :=
    (trim_append_left (forall_mem_singleton.2 (by decide)) p.print).trans p.trim_print
  rw [part, htrim]
  simp only [startsScheme_append hscheme, if_true, htake, hdrop, append_eq_nil_iff, hscheme.1,
    false_and, if_false]
  rw [addParam, p.parseChallengePart_print hrest]
  rfl

theorem foldl_params (done : List ParsedChallenge) (scheme : Text) (params : IndexMap Text Text)
    {ps : List Parameter} (hus : List.Forall₂ Padded us (ps.map Parameter.print)) :
    us.foldl part ⟨done, some (scheme, params)⟩ =
      ⟨done, some (scheme,
        ps.foldl (fun params p => params.insert p.name p.value.text) params)⟩ := by
  induction ps generalizing us params with
  | nil =>
    cases hus
    rfl
  | cons p ps ih =>
    cases hus with
    | cons hu hus =>
      rw [foldl_cons, part_print done scheme params hu, ih _ hus]
      rfl

theorem foldl_parts (hus : List.Forall₂ Padded us c.parts) :
    us.foldl part st = ⟨st.finish, some c.parsed⟩ := by
  obtain ⟨scheme, params, htoken, hnodup⟩ := c
  cases params with
  | nil =>
    cases hus with
    | cons hu hus =>
      cases hus
      exact part_scheme st htoken hu
  | cons p ps =>
    have hkeys : (((p :: ps).map fun p => (p.name, p.value.text)).map Prod.fst).Nodup := by
      rw [List.map_map]
      exact hnodup
    have hinsert := IndexMap.foldl_insert_eq hkeys
    rw [foldl_map, foldl_cons] at hinsert
    cases hus with
    | cons hu hus =>
      rw [foldl_cons, part_scheme_print st htoken hu, foldl_params _ _ _ hus, hinsert]
      rfl

end ChallengeState

theorem Challenge.closed_of_mem_parts : ∀ t ∈ c.parts, Closed t := by
  obtain ⟨scheme, params, htoken, hnodup⟩ := c
  have hscheme : Closed scheme := .of_isToken htoken
  cases params with
  | nil => exact forall_mem_singleton.2 hscheme
  | cons p ps =>
    refine forall_mem_cons.2 ⟨?_, forall_mem_map.2 fun p _ => p.closed_print⟩
    rw [append_cons]
    exact (hscheme.append (.of_plain (by decide) (by decide))).append p.closed_print

theorem ChallengeState.finish_foldl_parts (cs : List Challenge)
    (hus : List.Forall₂ Padded us (cs.flatMap Challenge.parts)) :
    (us.foldl part st).finish = st.finish ++ cs.map Challenge.parsed := by
  induction cs generalizing st us with
  | nil =>
    cases hus
    rw [map_nil, append_nil]
    rfl
  | cons c cs ih =>
    rw [flatMap_cons] at hus
    have hfirst := st.foldl_parts c (forall₂_take_append us c.parts _ hus)
    have hrest := ih ⟨st.finish, some c.parsed⟩ (forall₂_drop_append us c.parts _ hus)
    rw [← take_append_drop c.parts.length us, foldl_append, hfirst, hrest, map_cons]
    exact append_assoc _ _ _

theorem parseChallenges_print (cs : List Challenge)
    (hus : List.Forall₂ Padded us (cs.flatMap Challenge.parts)) :
    parseChallenges ([','].intercalate us) = cs.map Challenge.parsed := by
  cases us with
  | nil =>
    -- an empty header is its only part, which is skipped
    obtain rfl : cs = [] := by
      cases cs with
      | nil => rfl
      | cons c cs =>
        obtain ⟨scheme, params, htoken, hnodup⟩ := c
        cases params <;> cases hus
    rfl
  | cons u us =>
    have hclosed : ∀ t ∈ u :: us, Closed t := by
      refine Closed.forall_of_padded hus fun t ht => ?_
      obtain ⟨c, -, htc⟩ := mem_flatMap.1 ht
      exact c.closed_of_mem_parts t htc
    rw [parseChallenges, splitChallengeParts_intercalate (cons_ne_nil u us) hclosed,
      ChallengeState.finish_foldl_parts _ cs hus]
    rfl

end Tropel
