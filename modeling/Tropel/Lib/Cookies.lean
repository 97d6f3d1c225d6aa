import Tropel.Lib.Ip

/-!
# Cookies

A store of cookies as RFC 6265 describes it.
-/

namespace Lib

open List

/-! ## Lines -/

def isWsp (c : Char) : Bool := c = ' ' || c = '\t'

def trimWsp (t : Text) : Text := trimMatches isWsp t

structure IsPair (name value : Text) : Prop where
  name_ne_nil : name ≠ []
  eq_not_mem : '=' ∉ name
  semicolon_not_mem : ';' ∉ name ++ value
  unpadded_name : Unpadded isWsp name
  unpadded_value : Unpadded isWsp value

def cookiePair (line : Text) : Option (Text × Text) :=
  ((splitOnce '=' (line.takeWhile (· ≠ ';'))).map fun p => (trimWsp p.1, trimWsp p.2)).filter
    (·.1 ≠ [])

theorem mem_of_mem_trimWsp {c : Char} {t : Text} (h : c ∈ trimWsp t) : c ∈ t :=
  (dropWhile_sublist _).mem ((List.rdropWhile_prefix _ _).mem h)

theorem isPair_of_cookiePair {line name value : Text} (h : cookiePair line = some (name, value)) :
    IsPair name value := by
  obtain ⟨hpair, hne⟩ := Option.filter_eq_some_iff.1 h
  obtain ⟨⟨a, b⟩, hsplit, hab⟩ := Option.map_eq_some_iff.1 hpair
  cases hab
  obtain ⟨hline, ha⟩ := splitOnce_eq_some hsplit
  refine ⟨of_decide_eq_true hne, fun hmem => ha (mem_of_mem_trimWsp hmem), fun hmem => ?_,
    unpadded_trimMatches _ _, unpadded_trimMatches _ _⟩
  -- the pair ends before the first semicolon
  have hpart : ';' ∈ a ++ '=' :: b := by
    rcases mem_append.1 hmem with hmem | hmem
    · exact mem_append_left _ (mem_of_mem_trimWsp hmem)
    · exact mem_append_right _ (mem_cons_of_mem _ (mem_of_mem_trimWsp hmem))
  have hnot := mem_takeWhile_imp (hline ▸ hpart)
  exact of_decide_eq_true hnot rfl

def cookieAttribute (part : Text) : Text × Text :=
  match splitOnce '=' part with
  | some (name, value) => (toAsciiLowercase (trimWsp name), trimWsp value)
  | none => (toAsciiLowercase (trimWsp part), [])

def cookieAttributes (line : Text) : List (Text × Text) :=
  (line.splitOn ';').tail.map cookieAttribute

def lastAttribute {α : Type*} (line name : Text) (read : Text → Option α) : Option α :=
  ((cookieAttributes line).filterMap fun a => if a.1 = name then read a.2 else none).getLast?

structure CookieRules where
  lower : Text → Text
  isPast : Text → Option Bool

def givenValue (value : Text) : Option Text := if value = [] then none else some value

def domainValue (line : Text) : Option Text := lastAttribute line "domain" givenValue

def dropDot (value : Text) : Text := if value.head? = some '.' then value.tail else value

def cookieDomain (lower : Text → Text) (line : Text) : Option Text :=
  ((domainValue line).map fun value => lower (dropDot value)).filter (· ≠ [])

theorem dropWhile_eq_dropDot {value : Text} (h : '.' ∉ dropDot value) :
    value.dropWhile (· = '.') = dropDot value := by
  have hkeep {t : Text} (ht : '.' ∉ t) : t.dropWhile (· = '.') = t :=
    dropWhile_eq_self_iff.2 fun hlen hdot => ht (of_decide_eq_true hdot ▸ getElem_mem hlen)
  cases value with
  | nil => rfl
  | cons c t =>
    rw [dropDot] at h ⊢
    split at h
    next hc =>
      obtain rfl : c = '.' := Option.some.inj hc
      rw [if_pos hc, dropWhile_cons_of_pos (by rfl)]
      exact hkeep h
    next hc =>
      rw [if_neg hc]
      exact hkeep h

def maxAgeIsPast : Text → Option Bool
  | '-' :: ds => if ds ≠ [] ∧ ds.all Char.isDigit then some true else none
  | ds => if ds ≠ [] ∧ ds.all Char.isDigit then some (ds.all (· = '0')) else none

def isExpired (rules : CookieRules) (line : Text) : Bool :=
  ((lastAttribute line "max-age" maxAgeIsPast).or
    (lastAttribute line "expires" rules.isPast)).getD false

/-! ## The store -/

structure CookieUrl where
  host : Text
  path : Text
  secure : Bool
  deriving DecidableEq, Repr

namespace CookieUrl

variable (url : CookieUrl)

def defaultPath : Text :=
  let directory := url.path.rdropWhile (· ≠ '/')
  if url.path.head? = some '/' ∧ directory.length ≠ 1 then directory.dropLast else ['/']

def DomainMatch (host domain : Text) : Prop :=
  host = domain ∨ (hostAddr host = none ∧ '.' :: domain <:+ host)

instance (host domain : Text) : Decidable (DomainMatch host domain) :=
  inferInstanceAs (Decidable (_ ∨ _))

def PathMatch (path directory : Text) : Prop := path = directory ∨
  (directory <+: path ∧
    (directory.getLast? = some '/' ∨ (path.drop directory.length).head? = some '/'))

instance (path directory : Text) : Decidable (PathMatch path directory) :=
  inferInstanceAs (Decidable (_ ∨ _))

end CookieUrl

structure Cookie where
  name : Text
  value : Text
  domain : Text
  hostOnly : Bool
  path : Text
  secure : Bool
  isPair : IsPair name value
  deriving DecidableEq

namespace Cookie

def key (c : Cookie) : Text × Text × Text := (c.domain, c.path, c.name)

def Matches (url : CookieUrl) (c : Cookie) : Prop :=
  (if c.hostOnly then url.host = c.domain else CookieUrl.DomainMatch url.host c.domain) ∧
    CookieUrl.PathMatch url.path c.path ∧ (c.secure → url.secure)

instance (url : CookieUrl) : DecidablePred (Matches url) := fun c =>
  inferInstanceAs (Decidable ((if c.hostOnly then _ else _) ∧ _))

def text (c : Cookie) : Text := c.name ++ '=' :: c.value

section

variable (c : Cookie)

theorem text_ne_nil : c.text ≠ [] := append_ne_nil_of_right_ne_nil _ (cons_ne_nil _ _)

theorem semicolon_not_mem_text : ';' ∉ c.text := by
  have h := c.isPair.semicolon_not_mem
  rw [mem_append, not_or] at h
  rw [text, mem_append, mem_cons, not_or, not_or]
  exact ⟨h.1, by decide, h.2⟩

theorem unpadded_text : Unpadded isWsp c.text := by
  constructor
  · rw [text, head?_append_of_ne_nil _ c.isPair.name_ne_nil]
    exact c.isPair.unpadded_name.1
  · rw [text, getLast?_append_of_ne_nil _ (cons_ne_nil _ _)]
    -- a text without a value ends with the sign of equality
    cases hvalue : c.value with
    | nil =>
      rintro d ⟨⟩
      rfl
    | cons d value =>
      rw [getLast?_cons_cons, ← hvalue]
      exact c.isPair.unpadded_value.2

end

end Cookie

structure CookieJar where
  cookies : List Cookie
  nodup : (cookies.map Cookie.key).Nodup

instance : EmptyCollection CookieJar := ⟨⟨[], List.nodup_nil⟩⟩

namespace CookieJar

variable (rules : CookieRules) (url : CookieUrl) (jar : CookieJar)

def matching : List Cookie := jar.cookies.filter (Cookie.Matches url)

def others : List Cookie := jar.cookies.filter fun c => ¬c.Matches url

def cookieString : Text := "; ".toList.intercalate ((jar.matching url).map Cookie.text)

def remove (key : Text × Text × Text) : CookieJar :=
  ⟨jar.cookies.filter (·.key ≠ key), jar.nodup.sublist (List.filter_sublist.map _)⟩

def put (c : Cookie) : CookieJar where
  cookies := (jar.remove c.key).cookies ++ [c]
  nodup := by
    rw [List.map_append, List.nodup_append]
    refine ⟨(jar.remove c.key).nodup, List.nodup_singleton _, ?_⟩
    rintro k hk _ hc rfl
    obtain ⟨d, hd, rfl⟩ := List.mem_map.1 hk
    exact of_decide_eq_true (List.mem_filter.1 hd).2 (List.mem_singleton.1 hc)

def readCookie (line : Text) : Option Cookie :=
  match h : cookiePair line with
  | none => none
  | some (name, value) =>
    let path := (lastAttribute line "path" some).filter (·.head? = some '/')
    let cookie (domain : Text) (hostOnly : Bool) : Cookie :=
      { name, value, domain, hostOnly
        path := path.getD url.defaultPath
        secure := (lastAttribute line "secure" some).isSome
        isPair := isPair_of_cookiePair h }
    match cookieDomain rules.lower line with
    | none => some (cookie url.host true)
    | some domain =>
      if CookieUrl.DomainMatch url.host domain then some (cookie domain false) else none

def receive (line : Text) : CookieJar :=
  match readCookie rules url line with
  | none => jar
  | some c => if isExpired rules line then jar.remove c.key else jar.put c

theorem map_trim_splitOn {ts : List Text} (hne : ts ≠ []) (h : ∀ t ∈ ts, ';' ∉ t) :
    (("; ".toList.intercalate ts).splitOn ';').map trim = ts.map trim := by
  obtain ⟨t, ts, rfl⟩ := exists_cons_of_ne_nil hne
  have hsemicolons : "; ".toList.intercalate (t :: ts) =
      [';'].intercalate (t :: ts.map (' ' :: ·)) := by
    clear h
    induction ts generalizing t with
    | nil => rfl
    | cons s ts ih =>
      rw [intercalate_cons_cons, map_cons, intercalate_cons_cons, ih s (cons_ne_nil _ _),
        append_assoc, append_assoc, intercalate_cons_cons_left]
      rfl
  rw [hsemicolons, splitOn_intercalate _ ?_ (cons_ne_nil _ _), map_cons, map_cons, List.map_map]
  · exact congrArg _
      (map_congr_left fun s _ => trim_append_left (a := [' ']) (by simp [isWhitespace]) s)
  · rw [forall_mem_cons] at h ⊢
    refine ⟨h.1, fun s hs hmem => ?_⟩
    obtain ⟨r, hr, rfl⟩ := mem_map.1 hs
    exact h.2 r hr ((mem_cons.1 hmem).resolve_left (by decide))

/-! ### Removal -/

def removalLine (name : Text) : Text := name ++ "=; Max-Age=-1"

section

variable {name : Text} (h : IsPair name [])

include h

theorem cookiePair_removalLine : cookiePair (removalLine name) = some (name, []) := by
  have hsemicolon : ∀ c ∈ name ++ ['='], decide (c ≠ ';') = true := by
    intro c hc
    refine decide_eq_true fun heq => ?_
    rcases mem_append.1 (heq ▸ hc) with hmem | hmem
    · exact h.semicolon_not_mem (mem_append_left _ hmem)
    · exact absurd (mem_singleton.1 hmem) (by decide)
  have hstart : (removalLine name).takeWhile (· ≠ ';') = name ++ ['='] := by
    have hline : removalLine name = (name ++ ['=']) ++ "; Max-Age=-1" := by
      rw [removalLine, append_assoc]
      rfl
    rw [hline, takeWhile_append_of_pos hsemicolon]
    exact append_nil _
  rw [cookiePair, hstart, splitOnce_append h.eq_not_mem, Option.map_some, trimWsp, trimWsp,
    trimMatches_eq_self h.unpadded_name, trimMatches_eq_self h.unpadded_value]
  exact Option.filter_some_pos (decide_eq_true h.name_ne_nil)

theorem cookieAttributes_removalLine :
    cookieAttributes (removalLine name) = [("max-age".toList, "-1".toList)] := by
  have hline : removalLine name = [';'].intercalate [name ++ ['='], " Max-Age=-1"] := by
    rw [removalLine, intercalate_cons_cons, intercalate_singleton, append_assoc, append_assoc]
    rfl
  have hage : cookieAttribute " Max-Age=-1".toList = ("max-age".toList, "-1".toList) := by
    decide +kernel
  rw [cookieAttributes, hline, splitOn_intercalate _ ?_ (cons_ne_nil _ _)]
  · rw [tail_cons, map_singleton, hage]
  · intro part hpart hmem
    rcases mem_pair.1 hpart with rfl | rfl
    · rcases mem_append.1 hmem with hmem | hmem
      · exact h.semicolon_not_mem (mem_append_left _ hmem)
      · exact absurd (mem_singleton.1 hmem) (by decide)
    · exact absurd hmem (by decide)

theorem receive_removal :
    jar.receive rules url (removalLine name) = jar.remove (url.host, url.defaultPath, name) := by
  have hattributes := cookieAttributes_removalLine h
  have hexpired : isExpired rules (removalLine name) = true := by
    rw [isExpired, lastAttribute, hattributes]
    rfl
  have hdomain : cookieDomain rules.lower (removalLine name) = none := by
    rw [cookieDomain, domainValue, lastAttribute, hattributes]
    rfl
  have hpath : lastAttribute (removalLine name) "path" some = none := by
    rw [lastAttribute, hattributes]
    rfl
  have hread : ∃ c, readCookie rules url (removalLine name) = some c ∧
      c.key = (url.host, url.defaultPath, name) := by
    unfold readCookie
    split
    next hnone => cases hnone.symm.trans (cookiePair_removalLine h)
    next n v hpair =>
      cases hpair.symm.trans (cookiePair_removalLine h)
      rw [hdomain, hpath]
      exact ⟨_, rfl, rfl⟩
  obtain ⟨c, hc, hkey⟩ := hread
  rw [receive, hc, ← hkey]
  exact if_pos hexpired

end

theorem cookies_foldl_removal {names : List Text} (h : ∀ name ∈ names, IsPair name []) :
    (names.foldl (fun jar name => jar.receive rules url (removalLine name)) jar).cookies =
      jar.cookies.filter fun c =>
        ¬(c.domain = url.host ∧ c.path = url.defaultPath ∧ c.name ∈ names) := by
  induction names generalizing jar with
  | nil => simp
  | cons name names ih =>
    rw [forall_mem_cons] at h
    rw [foldl_cons, receive_removal _ _ _ h.1, ih _ h.2, remove, filter_filter]
    refine filter_congr fun c _ => ?_
    rw [Bool.eq_iff_iff, Bool.and_eq_true, decide_eq_true_iff, decide_eq_true_iff,
      decide_eq_true_iff, Cookie.key, Ne, Prod.mk.injEq, Prod.mk.injEq, mem_cons]
    tauto

end CookieJar

end Lib
