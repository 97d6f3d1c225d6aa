import Tropel.Auth.Challenges
import Tropel.Lib.Json

/-!
# Digest authorizations

The answer to a digest challenge (RFC 7616).

* `parseChallenges_inverts`: challenges and authorizations are read back.
-/

namespace Tropel

open Lib List

structure DigestHashes where
  hexMd5 : Text → Text
  hexSha256 : Text → Text
  hexSha512256 : Text → Text

variable (hashes : DigestHashes)

def DigestHashes.digestWith (input algorithm : Text) : Text :=
  if algorithm = "SHA-256" ∨ algorithm = "SHA-256-SESS" then hashes.hexSha256 input
  else if algorithm = "SHA-512-256" ∨ algorithm = "SHA-512-256-SESS" then hashes.hexSha512256 input
  else hashes.hexMd5 input

structure DigestBuildParams where
  username : Text
  password : Text
  method : Text
  uri : Text
  realm : Text
  nonce : Text
  nc : ℕ
  cnonce : Text
  qop : Option Text
  algorithm : Option Text
  opaqueText : Option Text

def hex8 (n : ℕ) : Text := (Nat.toDigits 16 n).leftpad 8 '0'

def baseAlgorithm (algorithm : Text) : Text :=
  let upper := toAsciiUppercase algorithm
  if "SHA-512-256".toList.isPrefixOf upper then "SHA-512-256"
  else if "SHA-256".toList.isPrefixOf upper then "SHA-256"
  else "MD5"

def isSess (algorithm : Text) : Bool := "-SESS".toList.isSuffixOf (toAsciiUppercase algorithm)

def joinColons (ts : List Text) : Text := [':'].intercalate ts

variable (p : DigestBuildParams)

def digestResponseValue (algorithm : Text) : Text :=
  let base := baseAlgorithm algorithm
  let ha1Plain := hashes.digestWith (joinColons [p.username, p.realm, p.password]) base
  let ha1 :=
    if isSess algorithm then hashes.digestWith (joinColons [ha1Plain, p.nonce, p.cnonce]) base
    else ha1Plain
  let ha2 := hashes.digestWith (joinColons [p.method, p.uri]) base
  match p.qop with
  | some qop => hashes.digestWith (joinColons [ha1, p.nonce, hex8 p.nc, p.cnonce, qop, ha2]) base
  | none => hashes.digestWith (joinColons [ha1, p.nonce, ha2]) base

def qopOffersAuth (qop : Option Text) : Bool :=
  match qop with
  | some q => (q.splitOn ',').any fun part => trim part = "auth"
  | none => false

def isTokenField (key : String) : Bool := key = "qop" || key = "nc" || key = "algorithm"

def digestField (field : String × Text) : Text :=
  if isTokenField field.1 then field.1.toList ++ '=' :: field.2
  else field.1.toList ++ ['=', '"'] ++
    replaceChar '"' ['\\', '"'] (replaceChar '\\' ['\\', '\\'] field.2) ++ ['"']

def countFields (algorithm : Text) : List (String × Text) :=
  if qopOffersAuth p.qop then [("qop", "auth"), ("nc", hex8 p.nc), ("cnonce", p.cnonce)]
  else if isSess algorithm then [("cnonce", p.cnonce)]
  else []

def digestFields : List (String × Text) :=
  let algorithm := (p.algorithm.map toAsciiUppercase).getD "MD5"
  let effective := { p with qop := if qopOffersAuth p.qop then some "auth" else none }
  let response := digestResponseValue hashes effective algorithm
  [("username", p.username), ("realm", p.realm), ("nonce", p.nonce), ("uri", p.uri)] ++
    countFields p algorithm ++ [("response", response)] ++
    (p.algorithm.map fun _ => ("algorithm", algorithm)).toList ++
    (p.opaqueText.map fun t => ("opaque", t)).toList

structure HeaderOut where
  name : Text
  value : Text

def digestBuildAuthorization : HeaderOut where
  name := "Authorization"
  value := "Digest " ++ [',', ' '].intercalate ((digestFields hashes p).map digestField)

structure Printable (field : String × Text) : Prop where
  token : IsToken field.1.toList
  lower : toAsciiLowercase field.1.toList = field.1.toList
  word : isTokenField field.1 = true → IsToken field.2

variable {p : DigestBuildParams} {field : String × Text}

theorem Printable.exists_parameter (h : Printable field) :
    ∃ p : Parameter, p.print = digestField field ∧ p.name = field.1.toList ∧
      p.value.text = field.2 := by
  cases htoken : isTokenField field.1 with
  | true =>
    refine ⟨⟨field.1.toList, .token field.2 (h.word htoken), h.token, h.lower⟩, ?_, rfl, rfl⟩
    rw [digestField, if_pos htoken]
    rfl
  | false =>
    refine ⟨⟨field.1.toList, .quoted field.2, h.token, h.lower⟩, ?_, rfl, rfl⟩
    rw [digestField, htoken, if_neg Bool.false_ne_true, replaceChar_eq_escape]
    simp [Parameter.print, Written.print, quoted]

theorem exists_parameters {fields : List (String × Text)} (h : ∀ field ∈ fields, Printable field) :
    ∃ ps : List Parameter, ps.map Parameter.print = fields.map digestField ∧
      ps.map (fun p => (p.name, p.value.text)) = fields.map fun field =>
        (field.1.toList, field.2) := by
  induction fields with
  | nil => exact ⟨[], rfl, rfl⟩
  | cons field fields ih =>
    rw [forall_mem_cons] at h
    obtain ⟨p, hprint, hname, htext⟩ := h.1.exists_parameter
    obtain ⟨ps, hprints, htexts⟩ := ih h.2
    refine ⟨p :: ps, ?_, ?_⟩
    · rw [map_cons, map_cons, hprint, hprints]
    · rw [map_cons, map_cons, hname, htext, htexts]

/-! ## The fields of an authorization -/

def digestFieldNames : List String :=
  ["username", "realm", "nonce", "uri", "qop", "nc", "cnonce", "response", "algorithm", "opaque"]

theorem digestFields_names (p : DigestBuildParams) :
    ((digestFields hashes p).map Prod.fst).Sublist digestFieldNames := by
  have hcount (algorithm : Text) : ((countFields p algorithm).map Prod.fst).Sublist
      ["qop", "nc", "cnonce"] := by
    unfold countFields
    split
    · exact List.Sublist.refl _
    split
    · exact ((List.Sublist.refl ["cnonce"]).cons "nc").cons "qop"
    · exact nil_sublist _
  have hoption {α : Type} (o : Option α) (key : String) (f : α → Text) :
      (((o.map fun a => (key, f a)).toList).map Prod.fst).Sublist [key] := by
    cases o with
    | none => exact nil_sublist _
    | some a => exact List.Sublist.refl _
  unfold digestFields
  simp only [map_append]
  exact ((((List.Sublist.refl ["username", "realm", "nonce", "uri"]).append (hcount _)).append
    (List.Sublist.refl ["response"])).append (hoption _ _ _)).append (hoption _ _ _)

theorem nodup_digestFields_names (p : DigestBuildParams) :
    ((digestFields hashes p).map Prod.fst).Nodup :=
  (by decide : digestFieldNames.Nodup).sublist (digestFields_names hashes p)

theorem digestFields_ne_nil (p : DigestBuildParams) : digestFields hashes p ≠ [] := by
  simp [digestFields]

theorem isTokenChar_of_mem_toDigits {n : ℕ} : ∀ c ∈ Nat.toDigits 16 n, isTokenChar c = true := by
  have hdigit : ∀ d < 16, isTokenChar (Nat.digitChar d) = true := by decide
  induction n using Nat.strong_induction_on with
  | _ n ih =>
    rw [Nat.toDigits_eq_if (by decide)]
    split
    next h => exact forall_mem_singleton.2 (hdigit n h)
    next h =>
      intro c hc
      rcases mem_append.1 hc with hc | hc
      · exact ih (n / 16) (by omega) c hc
      · rw [mem_singleton.1 hc]
        exact hdigit _ (Nat.mod_lt n (by decide))

theorem isToken_hex8 (n : ℕ) : IsToken (hex8 n) := by
  constructor
  · intro h
    exact Nat.toDigits_ne_nil (append_eq_nil_iff.1 h).2
  · intro c hc
    rcases mem_append.1 hc with hc | hc
    · rw [eq_of_mem_replicate hc]
      decide
    · exact isTokenChar_of_mem_toDigits c hc

theorem word_of_mem_countFields {algorithm : Text}
    (hfield : field ∈ countFields p algorithm) (htoken : isTokenField field.1 = true) :
    IsToken field.2 := by
  unfold countFields at hfield
  split at hfield
  · simp only [mem_cons, not_mem_nil, or_false] at hfield
    rcases hfield with rfl | rfl | rfl
    · exact (by decide : IsToken "auth")
    · exact isToken_hex8 p.nc
    · exact absurd htoken (by simp [isTokenField])
  split at hfield
  · rw [mem_singleton.1 hfield] at htoken
    exact absurd htoken (by simp [isTokenField])
  · cases hfield

theorem printable_of_mem_digestFields (halgorithm : ∀ a, p.algorithm = some a → IsToken a)
    (hfield : field ∈ digestFields hashes p) : Printable field := by
  have hname : field.1 ∈ digestFieldNames :=
    (digestFields_names hashes p).subset (mem_map_of_mem hfield)
  have hnames : ∀ key ∈ digestFieldNames, IsToken key.toList ∧
      toAsciiLowercase key.toList = key.toList := by
    decide +kernel
  refine ⟨(hnames _ hname).1, (hnames _ hname).2, fun htoken => ?_⟩
  simp only [digestFields, mem_append, mem_cons, not_mem_nil, or_false, Option.mem_toList,
    Option.map_eq_some_iff] at hfield
  rcases hfield with (((hfixed | hcount) | rfl) | ⟨a, ha, rfl⟩) | ⟨t, -, rfl⟩
  · rcases hfixed with rfl | rfl | rfl | rfl <;> exact absurd htoken (by simp [isTokenField])
  · exact word_of_mem_countFields hcount htoken
  · exact absurd htoken (by simp [isTokenField])
  · rw [ha]
    exact (halgorithm a ha).toAsciiUppercase
  · exact absurd htoken (by simp [isTokenField])

/-! ## Reading back -/

theorem append_intercalate (sep a t : Text) (ts : List Text) :
    a ++ sep.intercalate (t :: ts) = sep.intercalate ((a ++ t) :: ts) := by
  cases ts with
  | nil => rw [intercalate_singleton, intercalate_singleton]
  | cons u ts => rw [intercalate_cons_cons, intercalate_cons_cons, append_assoc, append_assoc,
      append_assoc]

theorem intercalate_comma_blank (t : Text) (ts : List Text) :
    [',', ' '].intercalate (t :: ts) = [','].intercalate (t :: ts.map (' ' :: ·)) := by
  induction ts generalizing t with
  | nil => rfl
  | cons u ts ih =>
    have hblank := append_intercalate [','] [' '] u (ts.map (' ' :: ·))
    rw [singleton_append, singleton_append] at hblank
    rw [intercalate_cons_cons, ih u, map_cons, intercalate_cons_cons, ← hblank, append_assoc,
      append_assoc]
    rfl

theorem forall₂_padded_map_cons (ts : List Text) : List.Forall₂ Padded (ts.map (' ' :: ·)) ts := by
  refine forall₂_map_left_iff.2 (forall₂_same.2 fun t _ => ?_)
  exact ⟨[' '], [], forall_mem_singleton.2 (by decide), forall_mem_nil _, (append_nil _).symm⟩

theorem exists_challenge (halgorithm : ∀ a, p.algorithm = some a → IsToken a) :
    ∃ (c : Challenge) (us : List Text), List.Forall₂ Padded us c.parts ∧
      (digestBuildAuthorization hashes p).value = [','].intercalate us ∧
      c.parsed.1 = "Digest" ∧
      c.parsed.2.entries = (digestFields hashes p).map fun field => (field.1.toList, field.2) := by
  obtain ⟨ps, hprint, htext⟩ := exists_parameters fun _ hfield =>
    printable_of_mem_digestFields hashes halgorithm hfield
  have hnames : (ps.map Parameter.name).Nodup := by
    have heq : ps.map Parameter.name =
        ((digestFields hashes p).map Prod.fst).map String.toList := by
      have hfst := congrArg (List.map Prod.fst) htext
      rw [List.map_map, List.map_map] at hfst
      rw [List.map_map]
      exact hfst
    rw [heq]
    exact (nodup_digestFields_names hashes p).map fun _ _ h => String.toList_injective h
  have hscheme : IsToken "Digest" := by decide
  cases ps with
  | nil => exact absurd (map_eq_nil_iff.1 hprint.symm) (digestFields_ne_nil hashes p)
  | cons q qs =>
    refine ⟨⟨"Digest", q :: qs, hscheme, hnames⟩,
      ("Digest" ++ ' ' :: q.print) :: (qs.map Parameter.print).map (' ' :: ·), ?_, ?_, rfl, ?_⟩
    · exact .cons (.refl _) (forall₂_padded_map_cons _)
    · have hblank : "Digest " ++ q.print = "Digest" ++ ' ' :: q.print := by simp
      change "Digest " ++ [',', ' '].intercalate ((digestFields hashes p).map digestField) = _
      rw [← hprint, map_cons, intercalate_comma_blank, append_intercalate]
      exact congrArg
        (fun t => [','].intercalate (t :: (qs.map Parameter.print).map (' ' :: ·))) hblank
    · exact htext

/-- The parameters that an authorization is built from, as they are read back. -/
structure Carries (p : DigestBuildParams) (fields : IndexMap Text Text) : Prop where
  username : fields.get "username" = some p.username
  realm : fields.get "realm" = some p.realm
  nonce : fields.get "nonce" = some p.nonce
  uri : fields.get "uri" = some p.uri
  algorithm : fields.get "algorithm" = p.algorithm.map toAsciiUppercase
  opaqueText : fields.get "opaque" = p.opaqueText
  qop : fields.get "qop" = if qopOffersAuth p.qop then some "auth".toList else none
  nc : fields.get "nc" = if qopOffersAuth p.qop then some (hex8 p.nc) else none
  cnonce : qopOffersAuth p.qop = true → fields.get "cnonce" = some p.cnonce

theorem carries_of_entries {fields : IndexMap Text Text} (hentries : fields.entries =
    (digestFields hashes p).map fun field => (field.1.toList, field.2)) : Carries p fields := by
  have hget (key : String) (v : Text) : fields.get key.toList = some v ↔
      (key, v) ∈ digestFields hashes p := by
    rw [IndexMap.get_eq_some_iff, hentries, mem_map]
    constructor
    · rintro ⟨field, hmem, heq⟩
      obtain ⟨hkey, rfl⟩ := Prod.mk.inj heq
      rwa [← String.toList_injective hkey]
    · exact fun hmem => ⟨(key, v), hmem, rfl⟩
  constructor
  case cnonce =>
    exact fun hoffers => (hget _ _).2 (by simp [digestFields, countFields, hoffers])
  all_goals
    refine Option.ext fun v => (hget _ v).trans ?_
    unfold digestFields countFields
    cases p.algorithm <;> cases p.opaqueText <;> split_ifs <;> simp <;> exact eq_comm

theorem parseChallenges_authorization (halgorithm : ∀ a, p.algorithm = some a → IsToken a) :
    ∃ fields : IndexMap Text Text,
      parseChallenges (digestBuildAuthorization hashes p).value = [("Digest".toList, fields)] ∧
      fields.entries = (digestFields hashes p).map (fun field => (field.1.toList, field.2)) ∧
      Carries p fields := by
  obtain ⟨c, us, hus, hvalue, hscheme, hfields⟩ := exists_challenge hashes halgorithm
  rw [← flatMap_singleton Challenge.parts c] at hus
  have hparse := parseChallenges_print [c] hus
  refine ⟨c.parsed.2, ?_, hfields, carries_of_entries hashes hfields⟩
  rw [hvalue, hparse, map_singleton, ← hscheme]

/-- Challenges are read back from a header that joins their parts with commas and any white space,
    and no field of an authorization can add, remove or alter another. -/
theorem parseChallenges_inverts (hashes : DigestHashes) :
    (∀ (cs : List Challenge) (us : List Text), List.Forall₂ Padded us (cs.flatMap Challenge.parts) →
      parseChallenges ([','].intercalate us) = cs.map Challenge.parsed) ∧
    ∀ p : DigestBuildParams, (∀ a, p.algorithm = some a → IsToken a) →
      ∃ fields : IndexMap Text Text,
        parseChallenges (digestBuildAuthorization hashes p).value = [("Digest".toList, fields)] ∧
        fields.entries = (digestFields hashes p).map (fun field => (field.1.toList, field.2)) ∧
        Carries p fields :=
  ⟨fun cs _ hus => parseChallenges_print cs hus,
    fun _ halgorithm => parseChallenges_authorization hashes halgorithm⟩

theorem parseChallenges_inverts_quoted :
    let hashes : DigestHashes := ⟨fun _ => "00", fun _ => "11", fun _ => "22"⟩
    let p : DigestBuildParams := ⟨"a\", nc=\"7", [], "GET", "/", "r\\", "n", 1,
      "c", some "auth", some "SHA-256", none⟩
    IsToken "SHA-256" ∧ ∃ fields : IndexMap Text Text,
      parseChallenges (digestBuildAuthorization hashes p).value = [("Digest".toList, fields)] ∧
      fields.get "username" = some "a\", nc=\"7".toList ∧ fields.get "realm" = some "r\\".toList ∧
      fields.get "nc" = some "00000001".toList := by
  intro hashes p
  have htoken : IsToken "SHA-256" := by decide
  have halgorithm : ∀ a, p.algorithm = some a → IsToken a := by
    intro a ha
    cases ha
    exact htoken
  obtain ⟨fields, hparse, -, hcarries⟩ := (parseChallenges_inverts hashes).2 p halgorithm
  exact ⟨htoken, fields, hparse, hcarries.username, hcarries.realm,
    hcarries.nc.trans (by decide)⟩

/-! ## Counts -/

structure NonceUse where
  realm : Text
  nonce : Text
  nc : ℕ
  deriving DecidableEq

def nonceUse (value : Text) : Option NonceUse := do
  let fields ← findDigestChallenge value
  let realm ← fields.get "realm"
  let nonce ← fields.get "nonce"
  let nc ← fields.get "nc"
  return ⟨realm, nonce, hexValue nc⟩

theorem hexValue_append_singleton (t : Text) (d : Char) :
    hexValue (t ++ [d]) = 16 * hexValue t + (hexDigit d).getD 0 := foldl_concat _ _ _ _

theorem hexValue_toDigits (n : ℕ) : hexValue (Nat.toDigits 16 n) = n := by
  have hdigit : ∀ d < 16, hexValue [Nat.digitChar d] = d ∧
      (hexDigit (Nat.digitChar d)).getD 0 = d := by decide
  induction n using Nat.strong_induction_on with
  | _ n ih =>
    rw [Nat.toDigits_eq_if (by decide)]
    split
    next h => exact (hdigit n h).1
    next h =>
      rw [hexValue_append_singleton, ih (n / 16) (by omega),
        (hdigit _ (Nat.mod_lt n (by decide))).2]
      exact Nat.div_add_mod n 16

theorem hexValue_hex8 (n : ℕ) : hexValue (hex8 n) = n := by
  have hzeros : ∀ k (t : Text), hexValue (List.replicate k '0' ++ t) = hexValue t := by
    intro k t
    induction k with
    | zero => rfl
    | succ k ih =>
      rw [replicate_succ, cons_append, ← ih]
      rfl
  rw [hex8, List.leftpad, hzeros, hexValue_toDigits]

theorem nonceUse_authorization (halgorithm : ∀ a, p.algorithm = some a → IsToken a) :
    nonceUse (digestBuildAuthorization hashes p).value =
      if qopOffersAuth p.qop then some ⟨p.realm, p.nonce, p.nc⟩ else none := by
  obtain ⟨fields, hparse, -, hcarries⟩ := parseChallenges_authorization hashes halgorithm
  have hfind : findDigestChallenge (digestBuildAuthorization hashes p).value = some fields := by
    have hdigest : toAsciiLowercase "Digest" = "digest" := by decide
    rw [findDigestChallenge, hparse, find?_cons_of_pos, Option.map_some]
    exact decide_eq_true hdigest
  cases hoffers : qopOffersAuth p.qop <;>
    simp only [nonceUse, hfind, hcarries.realm, hcarries.nonce, hcarries.nc, hoffers,
      hexValue_hex8, Option.bind_eq_bind, Option.bind_some, Option.bind_none, if_true,
      Bool.false_eq_true, if_false]
  rfl

end Tropel
