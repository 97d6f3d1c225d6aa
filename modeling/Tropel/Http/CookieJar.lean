import Mathlib.Data.String.Basic
import Tropel.Lib.Cookies
import Tropel.Lib.IndexMap
import Tropel.Lib.SortBy
import Tropel.Http.Client
import Tropel.Http.CookieDate

/-!
# The cookie jar of a script

The jar holds the cookies of a virtual user.

* `acceptedCookie_inScope_iff`: how far a cookie reaches;
* `clearCookies_iff`: what clearing a URL removes.
-/

namespace Tropel

open Lib List

/-! ## The domain of a line -/

structure Lowercase where
  apply : Text → Text
  mem_dot : ∀ {t}, '.' ∈ t → '.' ∈ apply t

def domainOfPart (part : Text) : Option Text :=
  (splitOnce '=' part).bind fun p => if toAsciiLowercase (trim p.1) = "domain" then some p.2
    else none

def domainAttribute (setCookie : Text) : Option Text :=
  ((setCookie.splitOn ';').drop 1).findSome? domainOfPart

def isLikelyPublicSuffix (domain : Text) : Bool := !(domain.dropWhile (· = '.')).contains '.'

variable (low : Lowercase)

def setCookieIsAcceptable (setCookie requestHost : Text) : Bool :=
  match domainAttribute setCookie with
  -- without a domain the cookie is for the host alone
  | none => true
  | some domain =>
    let domain := low.apply ((trim domain).dropWhile (· = '.'))
    if domain = [] then true
    else if !isLikelyPublicSuffix domain then true
    else domain = low.apply (trim requestHost)

def canonicalHost (host : Text) : Text := low.apply (trim host)

def cookieScope (line host : Text) : Text :=
  (cookieDomain low.apply line).getD (canonicalHost low host)

def InScope (line host : Text) : Prop :=
  '.' ∈ cookieScope low line host ∨ cookieScope low line host = canonicalHost low host

instance (low : Lowercase) (line host : Text) : Decidable (InScope low line host) :=
  inferInstanceAs (Decidable (_ ∨ _))

def readDomain (line : Text) : Option Text := ((domainAttribute line).map trim).filter (· ≠ [])

section

variable {low : Lowercase} {line host : Text}

theorem inScope_of_cookieDomain
    (h : ∀ d, cookieDomain low.apply line = some d → '.' ∈ d ∨ d = canonicalHost low host) :
    InScope low line host := by
  rw [InScope, cookieScope]
  cases hdomain : cookieDomain low.apply line with
  | none => exact Or.inr rfl
  | some d => exact h d hdomain

theorem inScope_of_acceptable (h : setCookieIsAcceptable low line host = true)
    (hreads : readDomain line = domainValue line) : InScope low line host := by
  refine inScope_of_cookieDomain fun d hd => ?_
  obtain ⟨hd, hne⟩ := Option.filter_eq_some_iff.1 hd
  obtain ⟨value, hvalue, rfl⟩ := Option.map_eq_some_iff.1 hd
  obtain ⟨hread, -⟩ := Option.filter_eq_some_iff.1 (hreads.trans hvalue)
  obtain ⟨domain, hdomain, rfl⟩ := Option.map_eq_some_iff.1 hread
  by_cases hdot : '.' ∈ dropDot (trim domain)
  · exact Or.inl (low.mem_dot hdot)
  -- The check drops every dot before the domain and the store only one of them: here
  -- there is no other one, and the check goes by the domain of the store.
  rw [setCookieIsAcceptable, hdomain] at h
  simp only [dropWhile_eq_dropDot hdot, if_neg (of_decide_eq_true hne)] at h
  split at h
  next hlabels =>
    rw [isLikelyPublicSuffix, Bool.not_not] at hlabels
    exact Or.inl ((dropWhile_sublist _).mem (contains_iff_mem.1 hlabels))
  next => exact Or.inr (of_decide_eq_true h)

/-- A `Domain` that the check does not read overrides the one it reads, and is a single label other
    than the host. -/
def Overridden (low : Lowercase) (line host : Text) : Prop :=
  ∃ value, domainValue line = some value ∧ readDomain line ≠ some value ∧
    low.apply (dropDot value) ≠ [] ∧ '.' ∉ low.apply (dropDot value) ∧
    low.apply (dropDot value) ≠ canonicalHost low host

theorem cookieDomain_eq_some_iff {d : Text} : cookieDomain low.apply line = some d ↔
    ∃ value, domainValue line = some value ∧ low.apply (dropDot value) = d ∧ d ≠ [] := by
  simp only [cookieDomain, Option.filter_eq_some_iff, Option.map_eq_some_iff, decide_eq_true_eq]
  constructor
  · rintro ⟨⟨v, hv, hd⟩, hne⟩
    exact ⟨v, hv, hd, hne⟩
  · rintro ⟨v, hv, hd, hne⟩
    exact ⟨⟨v, hv, hd⟩, hne⟩

theorem inScope_iff_of_acceptable (h : setCookieIsAcceptable low line host = true) :
    InScope low line host ↔ ¬ Overridden low line host := by
  constructor
  · rintro hscope ⟨value, hvalue, -, hne, hdot, hhost⟩
    have hdomain := cookieDomain_eq_some_iff.2 ⟨value, hvalue, rfl, hne⟩
    rw [InScope, cookieScope, hdomain] at hscope
    exact hscope.elim hdot hhost
  · intro hover
    by_cases hreads : readDomain line = domainValue line
    · exact inScope_of_acceptable h hreads
    refine inScope_of_cookieDomain fun d hd => ?_
    obtain ⟨value, hvalue, rfl, hne⟩ := cookieDomain_eq_some_iff.1 hd
    by_contra hscope
    rw [not_or] at hscope
    exact hover ⟨value, hvalue, fun hread => hreads (hread.trans hvalue.symm), hne, hscope⟩

end

def PlainSpace (t : Text) : Prop := ∀ c ∈ t, isWhitespace c = isWsp c

variable {pairs : List (String × String)} {t : Text}

theorem trim_eq_trimWsp (h : PlainSpace t) : trim t = trimWsp t := trimMatches_congr h

/-! ## The calls of a script -/

structure K6CookieOptions where
  domain : Option Text := none
  path : Option Text := none
  expires : Option Text := none
  maxAge : Option ℤ := none
  secure : Option Bool := none
  httpOnly : Option Bool := none

def attributeText (label : String) (value : Option Text) : Text :=
  (value.map (label.toList ++ ·)).getD []

def buildSetCookie (name value : Text) (opts : K6CookieOptions) : Result String Text := do
  let expires ← match opts.expires.bind givenValue with
    | none => .ok none
    | some expires => (parseRfc1123 expires).map (some ∘ formatImfFixdate)
  return name ++ '=' :: value ++ attributeText "; Path=" (opts.path.bind givenValue) ++
    attributeText "; Domain=" (opts.domain.bind givenValue) ++ attributeText "; Expires=" expires ++
    attributeText "; Max-Age=" (opts.maxAge.map fun age => (toString age).toList) ++
    (if opts.secure.getD false then "; Secure".toList else []) ++
    (if opts.httpOnly.getD false then "; HttpOnly".toList else [])

section

variable {U J : Type} (low : Lowercase) (lib : Reqwest U J) (debug : Text → Text)

def parseUrl (url : String) : Result String U :=
  (lib.parse url).mapError fun e => .err s!"cookie jar: invalid URL '{url}': {e}"

def requestHost (u : U) : Text := ((lib.hostStr u).getD "").toList

def setCookie (jar : J) (url : String) (name value : Text)
    (opts : K6CookieOptions) : Result String J := do
  let parsed ← parseUrl lib url
  let line ← buildSetCookie name value opts
  if setCookieIsAcceptable low line (requestHost lib parsed) then
    return lib.addCookieStr jar (String.ofList line) parsed
  else
    let cookie := String.ofList (debug name)
    let host := String.ofList (debug (requestHost lib parsed))
    .error (.err
      (s!"cookie {cookie} was refused: Domain is a public suffix, so the cookie would be " ++
      "scoped across every site under it (RFC 6265 5.3 step 5). Drop the domain option to scope " ++
      s!"it to {host}."))

def groupByName (pairs : List (String × String)) : IndexMap String (List String) :=
  pairs.foldl (fun out p => out.upsert p.1 [] (· ++ [p.2])) ∅

def cookiesForUrl (jar : J) (url : String) : Result String (IndexMap String (List String)) := do
  let parsed ← parseUrl lib url
  match lib.cookies jar parsed with
  | some header => return groupByName (parseCookieHeaderValue ((toStr header).getD ""))
  | none => return ∅

def clearCookies (jar : J) (url : String) : Result String J := do
  let names := sortByKey id ((← cookiesForUrl lib jar url).entries.map Prod.fst)
  let parsed ← parseUrl lib url
  return names.foldl (fun jar name => lib.addCookieStr jar s!"{name}=; Max-Age=-1" parsed) jar

end

/-! ## A store of RFC 6265 -/

def headerValue (t : Text) : Option String :=
  if t ≠ [] ∧ t.all fun c => c = '\t' || (32 ≤ c.toNat && c.toNat ≠ 127) then some (String.ofList t)
    else none

structure IsRfcJar {U : Type} (lib : Reqwest U CookieJar) (rules : CookieRules)
    (view : U → CookieUrl) : Prop where
  cookies : ∀ jar u, lib.cookies jar u = headerValue (jar.cookieString (view u))
  addCookieStr : ∀ jar line u, lib.addCookieStr jar line u = jar.receive rules (view u) line.toList

section Example

def asciiLower : Lowercase where
  apply := toAsciiLowercase
  mem_dot h := (mem_toAsciiLowercase (by decide)).2 h

def asciiRules : CookieRules where
  lower := toAsciiLowercase
  isPast _ := none

def urlView (url : String) : CookieUrl :=
  let secure := "https".toList.isPrefixOf url.toList
  let rest := url.toList.drop (if secure then 8 else 7)
  { host := rest.takeWhile (· ≠ '/')
    path := rest.dropWhile (· ≠ '/')
    secure }

def rfcHttp : Reqwest String CookieJar where
  parse url := .ok url
  join _ url := .ok url
  toString url := url
  scheme url := if (urlView url).secure then "https" else "http"
  hostStr url := some (String.ofList (urlView url).host)
  portOrKnownDefault _ := some 80
  query url _ := url
  methodFromBytes _ := .ok ()
  buildError _ := none
  isHeaderName _ := true
  isHeaderValue _ := true
  cookies jar url := headerValue (jar.cookieString (urlView url))
  addCookieStr jar line url := jar.receive asciiRules (urlView url) line.toList
  parse_toString h := by
    cases h
    exact ⟨rfl, rfl, rfl⟩
  query_origin _ _ := ⟨rfl, rfl, rfl⟩

theorem isRfcJar_rfcHttp : IsRfcJar rfcHttp asciiRules urlView := ⟨fun _ _ => rfl, fun _ _ _ => rfl⟩

end Example

/-! ## Both doors -/

section

variable {U J : Type} {low : Lowercase} {lib : Reqwest U J} {debug : Text → Text} {url : String}

theorem parseUrl_eq_ok_iff {u : U} : parseUrl lib url = .ok u ↔ lib.parse url = .ok u :=
  mapError_eq_ok

theorem exists_of_setCookie {jar after : J} {name value : Text} {opts : K6CookieOptions}
    (h : setCookie low lib debug jar url name value opts = .ok after) :
    ∃ u line, lib.parse url = .ok u ∧
      buildSetCookie name value opts = .ok line ∧
        setCookieIsAcceptable low line (requestHost lib u) = true ∧
      after = lib.addCookieStr jar (String.ofList line) u := by
  obtain ⟨u, hu, h⟩ := bind_eq_ok.1 h
  obtain ⟨line, hline, h⟩ := bind_eq_ok.1 h
  split at h
  next haccepted =>
    cases h
    exact ⟨u, line, parseUrl_eq_ok_iff.1 hu, hline, haccepted, rfl⟩
  next => cases h

end

def Readable (t : Text) : Prop := ∀ c ∈ t, c = '\t' ∨ 32 ≤ c.toNat ∧ c.toNat < 127

instance : DecidablePred Readable := fun t => List.decidableBAll _ t

theorem plainSpace_of_readable (h : Readable t) : PlainSpace t := by
  intro c hc
  rcases h c hc with rfl | hvisible
  · rfl
  · have hspace : c = ' ' ↔ c.toNat = 32 := ⟨fun h => h ▸ rfl, fun h => Char.toNat_inj.1 h⟩
    have htab : c = '\t' ↔ c.toNat = 9 := ⟨fun h => h ▸ rfl, fun h => Char.toNat_inj.1 h⟩
    rw [Bool.eq_iff_iff]
    simp only [isWhitespace, isWsp, Bool.or_eq_true, Bool.and_eq_true, decide_eq_true_eq,
      hspace, htab]
    omega

theorem toStr_headerValue (t : Text) :
    (headerValue t).bind toStr = if t ≠ [] ∧ Readable t then some (String.ofList t) else none := by
  have htoStr : toStr (String.ofList t) = if Readable t then some (String.ofList t) else none := by
    rw [toStr, String.toList_ofList]
    refine if_congr ?_ rfl rfl
    simp only [all_eq_true, Bool.or_eq_true, Bool.and_eq_true, decide_eq_true_eq, Readable]
  rw [headerValue]
  split
  next hvalid =>
    rw [Option.bind_some, htoStr]
    exact if_congr (iff_and_self.2 fun _ => hvalid.1) rfl rfl
  next hvalid =>
    refine (if_neg fun h => hvalid ⟨h.1, all_eq_true.2 fun c hc => ?_⟩).symm
    rcases h.2 c hc with rfl | hvisible
    · rfl
    · simp only [Bool.or_eq_true, Bool.and_eq_true, decide_eq_true_eq]
      exact Or.inr ⟨hvisible.1, hvisible.2.ne⟩

section

variable {jar : CookieJar} {url : CookieUrl}

theorem readable_cookieString_iff : Readable (jar.cookieString url) ↔ ∀ c ∈ jar.matching url,
    Readable c.text := by
  constructor
  · intro h c hc d hd
    exact h d (mem_intercalate (mem_map_of_mem hc) hd)
  · intro h d hd
    rcases of_mem_intercalate hd with hsep | ⟨t, ht, hd⟩
    · have hseparator : Readable "; " := by decide
      exact hseparator d hsep
    · obtain ⟨c, hc, rfl⟩ := mem_map.1 ht
      exact h c hc d hd

theorem readPair_text {c : Cookie} (h : Readable c.text) : trim c.text = c.text ∧
    (splitOnce '=' c.text).map (fun p => (String.ofList (trim p.1), String.ofList (trim p.2))) =
      some (String.ofList c.name, String.ofList c.value) := by
  have hplain := plainSpace_of_readable h
  have hname : trim c.name = c.name := by
    rw [trim_eq_trimWsp fun d hd => hplain d (mem_append_left _ hd)]
    exact trimMatches_eq_self c.isPair.unpadded_name
  have hvalue : trim c.value = c.value := by
    rw [trim_eq_trimWsp fun d hd => hplain d (mem_append_right _ (mem_cons_of_mem _ hd))]
    exact trimMatches_eq_self c.isPair.unpadded_value
  constructor
  · rw [trim_eq_trimWsp hplain]
    exact trimMatches_eq_self c.unpadded_text
  · rw [Cookie.text, splitOnce_append c.isPair.eq_not_mem, Option.map_some, hname, hvalue]

theorem parseCookieHeaderValue_cookieString (h : Readable (jar.cookieString url)) :
    parseCookieHeaderValue (String.ofList (jar.cookieString url)) =
      (jar.matching url).map fun c => (String.ofList c.name, String.ofList c.value) := by
  rw [readable_cookieString_iff] at h
  rw [parseCookieHeaderValue, String.toList_ofList]
  by_cases hne : jar.matching url = []
  · rw [CookieJar.cookieString, hne]
    rfl
  have hparts : ((jar.cookieString url).splitOn ';').map trim =
      (jar.matching url).map Cookie.text := by
    rw [CookieJar.cookieString, CookieJar.map_trim_splitOn (mt map_eq_nil_iff.1 hne), List.map_map]
    · exact map_congr_left fun c hc => (readPair_text (h c hc)).1
    · intro t ht
      obtain ⟨c, -, rfl⟩ := mem_map.1 ht
      exact c.semicolon_not_mem_text
  have hfilter : ((jar.matching url).map Cookie.text).filter (· ≠ []) =
      (jar.matching url).map Cookie.text := by
    refine filter_eq_self.2 fun t ht => ?_
    obtain ⟨c, -, rfl⟩ := mem_map.1 ht
    exact decide_eq_true c.text_ne_nil
  rw [hparts, hfilter, filterMap_map, ← filterMap_eq_map]
  exact filterMap_congr fun c hc => (readPair_text (h c hc)).2

end

theorem mem_keys_groupByName {name : String} :
    name ∈ (groupByName pairs).entries.map Prod.fst ↔ name ∈ pairs.map Prod.fst := by
  have hfold : ∀ m : IndexMap String (List String),
      name ∈ (pairs.foldl (fun out p => out.upsert p.1 [] (· ++ [p.2])) m).entries.map Prod.fst ↔
        name ∈ m.entries.map Prod.fst ∨ name ∈ pairs.map Prod.fst := by
    induction pairs with
    | nil => simp
    | cons p pairs ih =>
      intro m
      rw [foldl_cons, ih, IndexMap.upsert, IndexMap.insert, IndexMap.fst_mem_put, map_cons,
        mem_cons]
      tauto
  rw [groupByName, hfold]
  exact or_iff_right not_mem_nil

theorem groupByName_eq_empty_iff : groupByName pairs = ∅ ↔ pairs = [] := by
  constructor
  · intro h
    rw [eq_nil_iff_forall_not_mem]
    intro p hp
    have hmem := mem_keys_groupByName.2 (mem_map_of_mem hp)
    rw [h] at hmem
    cases hmem
  · rintro rfl
    rfl

section

variable {U : Type} {lib : Reqwest U CookieJar} {rules : CookieRules} {view : U → CookieUrl}
  (hlib : IsRfcJar lib rules view)

include hlib

theorem addCookieStr_removal (jar : CookieJar) (name : String) (u : U) :
    lib.addCookieStr jar s!"{name}=; Max-Age=-1" u =
      jar.receive rules (view u) (CookieJar.removalLine name.toList) := by
  rw [hlib.addCookieStr, CookieJar.removalLine, ← String.toList_append]
  rfl

variable {url : String} {u : U} (hu : lib.parse url = .ok u) (jar : CookieJar)

include hu

theorem cookiesForUrl_eq :
    cookiesForUrl lib jar url = .ok (groupByName (if Readable (jar.cookieString (view u)) then
      (jar.matching (view u)).map fun c => (String.ofList c.name, String.ofList c.value)
        else [])) := by
  have hread : (if Readable (jar.cookieString (view u)) then
      (jar.matching (view u)).map fun c => (String.ofList c.name, String.ofList c.value) else []) =
        parseCookieHeaderValue
          (((headerValue (jar.cookieString (view u))).bind toStr).getD "") := by
    rw [toStr_headerValue]
    by_cases h : Readable (jar.cookieString (view u))
    · rw [if_pos h, ← parseCookieHeaderValue_cookieString h]
      by_cases hne : jar.cookieString (view u) = []
      · rw [hne]
        rfl
      · rw [if_pos ⟨hne, h⟩, Option.getD_some]
    · rw [if_neg h, if_neg fun hne => h hne.2]
      rfl
  rw [hread, cookiesForUrl, parseUrl_eq_ok_iff.2 hu]
  simp only [bind, Except.bind, hlib.cookies]
  cases headerValue (jar.cookieString (view u)) with
  | none | some header => rfl

theorem cookies_clearCookies : ∃ after, clearCookies lib jar url = .ok after ∧
    after.cookies = jar.cookies.filter fun c =>
      ¬(c.domain = (view u).host ∧ c.path = (view u).defaultPath ∧
      Readable (jar.cookieString (view u)) ∧ ∃ d ∈ jar.matching (view u), d.name = c.name) := by
  set pairs := if Readable (jar.cookieString (view u)) then
    (jar.matching (view u)).map fun c => (String.ofList c.name, String.ofList c.value)
      else [] with hpairs
  set names := sortByKey id ((groupByName pairs).entries.map Prod.fst) with hnames
  have hmem (name : Text) : name ∈ names.map String.toList ↔
      Readable (jar.cookieString (view u)) ∧ ∃ d ∈ jar.matching (view u), d.name = name := by
    have hkey {s : String} : s ∈ names ↔ s ∈ pairs.map Prod.fst := by
      rw [hnames, (perm_sortByKey _ _).mem_iff, mem_keys_groupByName]
    rw [mem_map]
    simp only [hkey, hpairs]
    split
    next h => simp [h]
    next h => simp [h]
  have hpair : ∀ name ∈ names.map String.toList, IsPair name [] := by
    intro name hname
    obtain ⟨-, d, -, rfl⟩ := (hmem name).1 hname
    have hd := d.isPair
    refine ⟨hd.name_ne_nil, hd.eq_not_mem, fun hsemicolon => hd.semicolon_not_mem ?_,
      hd.unpadded_name, ?_, ?_⟩
    · rw [append_nil] at hsemicolon
      exact mem_append_left _ hsemicolon
    · exact nofun
    · exact nofun
  have hclear : clearCookies lib jar url = .ok ((names.map String.toList).foldl
      (fun jar name => jar.receive rules (view u) (CookieJar.removalLine name)) jar) := by
    rw [clearCookies, cookiesForUrl_eq hlib hu, parseUrl_eq_ok_iff.2 hu, foldl_map]
    simp only [← addCookieStr_removal hlib]
    rfl
  refine ⟨_, hclear, ?_⟩
  rw [CookieJar.cookies_foldl_removal _ _ _ hpair]
  simp only [hmem]

/-- Clearing a URL leaves no cookie for it if and only if all of them are of its host and its
    directory, as a line that removes a cookie names neither a domain nor a path. It leaves the
    other cookies if and only if none stands where such a line removes one. -/
theorem clearCookies_iff : ∃ after, clearCookies lib jar url = .ok after ∧
    (cookiesForUrl lib after url = .ok ∅ ↔ (Readable (jar.cookieString (view u)) →
      ∀ c ∈ jar.matching (view u), c.domain = (view u).host ∧ c.path = (view u).defaultPath)) ∧
    (after.others (view u) = jar.others (view u) ↔ (Readable (jar.cookieString (view u)) →
      ∀ c ∈ jar.others (view u), c.domain = (view u).host → c.path = (view u).defaultPath →
        ∀ d ∈ jar.matching (view u), d.name ≠ c.name)) := by
  obtain ⟨after, hafter, hcookies⟩ := cookies_clearCookies hlib hu jar
  refine ⟨after, hafter, ?_, ?_⟩
  · have hmatching : after.matching (view u) = (jar.matching (view u)).filter fun c =>
        ¬(c.domain = (view u).host ∧ c.path = (view u).defaultPath ∧
          Readable (jar.cookieString (view u)) ∧ ∃ d ∈ jar.matching (view u), d.name = c.name) := by
      rw [CookieJar.matching, hcookies, filter_comm]
      rfl
    rw [cookiesForUrl_eq hlib hu, Except.ok.injEq, groupByName_eq_empty_iff, ite_eq_right_iff,
      map_eq_nil_iff]
    constructor
    · intro h hread c hc
      -- what is left can be read as well
      have hleft : Readable (after.cookieString (view u)) := by
        rw [readable_cookieString_iff] at hread ⊢
        intro d hd
        exact hread d (mem_of_mem_filter (hmatching ▸ hd))
      have hgone := filter_eq_nil_iff.1 (hmatching.symm.trans (h hleft)) c hc
      rw [decide_eq_true_iff, not_not] at hgone
      exact ⟨hgone.1, hgone.2.1⟩
    · intro h hleft
      by_cases hread : Readable (jar.cookieString (view u))
      · rw [hmatching, filter_eq_nil_iff]
        intro c hc
        rw [decide_eq_true_iff, not_not]
        exact ⟨(h hread c hc).1, (h hread c hc).2, hread, c, hc, rfl⟩
      · -- nothing was removed, and nothing can be read
        have hsame : after.matching (view u) = jar.matching (view u) :=
          hmatching.trans (filter_eq_self.2 fun c _ => decide_eq_true fun hgone =>
            hread hgone.2.2.1)
        rw [readable_cookieString_iff, hsame, ← readable_cookieString_iff] at hleft
        exact absurd hleft hread
  · rw [CookieJar.others, CookieJar.others, hcookies, filter_comm, filter_eq_self]
    simp only [decide_eq_true_eq]
    refine ⟨fun h hread c hc hdomain hpath d hd hname => ?_, fun h c hc hcleared => ?_⟩
    · exact h c hc ⟨hdomain, hpath, hread, d, hd, hname⟩
    · obtain ⟨hdomain, hpath, hread, d, hd, hname⟩ := hcleared
      exact h hread c hc hdomain hpath d hd hname

end

theorem clearCookies_iff_plain : ∃ after, clearCookies rfcHttp
    (rfcHttp.addCookieStr ∅ "sid=1" "http://shop/cart/view") "http://shop/cart/view" = .ok after ∧
      cookiesForUrl rfcHttp after "http://shop/cart/view" = .ok ∅ := by
  obtain ⟨after, hafter, hclears, -⟩ := clearCookies_iff isRfcJar_rfcHttp
    (show rfcHttp.parse "http://shop/cart/view" = .ok "http://shop/cart/view" from rfl)
    (rfcHttp.addCookieStr ∅ "sid=1" "http://shop/cart/view")
  exact ⟨after, hafter, hclears.2 fun _ => by decide⟩

theorem clearCookies_keeps :
    ((clearCookies rfcHttp
      (rfcHttp.addCookieStr ∅ "sid=1; Path=/" "http://shop/") "http://shop/cart/view").bind
      fun after => cookiesForUrl rfcHttp after "http://shop/cart/view").map (·.entries) =
        .ok [("sid", ["1"])] ∧
    ((clearCookies rfcHttp
      (rfcHttp.addCookieStr (rfcHttp.addCookieStr ∅ "sid=1; Path=/" "http://shop/")
      "sid=2; Path=/cart; Secure" "https://shop/cart") "http://shop/cart/view").map
        (·.cookies.map Cookie.value)) = .ok [['1']] := by
  refine ⟨?_, ?_⟩
  · rfl
  · rfl

end Tropel
