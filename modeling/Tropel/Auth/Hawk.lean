import Tropel.Auth.Digest
import Tropel.Lib.Attributes
import Tropel.Lib.Encodings

/-!
# Hawk

A Hawk authorization has a MAC of the method, the target, the host and the port of a request, and of
a time stamp, a nonce and application data (`ext`).

* `accepts_iff`: when the verifier accepts what is sent.
-/

namespace Tropel

open Lib List Option

structure Hmacs where
  sha1 : List UInt8 → List UInt8 → List UInt8
  sha256 : List UInt8 → List UInt8 → List UInt8

structure Casing where
  toUppercase : Text → Text
  toLowercase : Text → Text

structure HawkBuildParams where
  method : Text
  resource : Text
  host : Text
  port : ℕ
  id : Text
  key : Text
  algorithm : Option Text
  ts : Text
  nonce : Text
  ext : Text

def hawkLines (scheme : Text) (casing : Casing) (p : HawkBuildParams) (hash : Text) : Text :=
  [scheme, p.ts, p.nonce, casing.toUppercase p.method, p.resource, casing.toLowercase p.host,
    (toString p.port).toList, hash, p.ext].flatMap (· ++ ['\n'])

def hawkNormalizedString (casing : Casing) (p : HawkBuildParams) (hash : Text) : Text :=
  hawkLines "hawk.1.header" casing p hash

variable (hmacs : Hmacs)

def hawkMac (normalized key : Text) (algorithm : Option Text) : Text :=
  if (algorithm.map toAsciiLowercase) = some "sha1".toList
    then base64 (hmacs.sha1 (utf8 key) (utf8 normalized))
  else base64 (hmacs.sha256 (utf8 key) (utf8 normalized))

def HawkBuildParams.mac (casing : Casing) (p : HawkBuildParams) : Text :=
  hawkMac hmacs (hawkNormalizedString casing p []) p.key p.algorithm

def hawkAttributes (casing : Casing) (p : HawkBuildParams) : List (Text × Text) :=
  [("id", p.id), ("ts", p.ts), ("nonce", p.nonce), ("mac", p.mac hmacs casing)]

def hawkBuildHeader (casing : Casing) (p : HawkBuildParams) : HeaderOut where
  name := "Authorization"
  value := "Hawk " ++ printAttributes (hawkAttributes hmacs casing p)

structure HawkClaim where
  id : Text
  mac : Text
  ts : Text
  nonce : Text
  hash : Text
  ext : Text

def hawkClaim (value : Text) : Option HawkClaim := do
  let rest ← stripStart "Hawk " value
  let attributes ← parseAttributes rest
  return {
    id := ← attributeValue "id" attributes
    mac := ← attributeValue "mac" attributes
    ts := ← attributeValue "ts" attributes
    nonce := ← attributeValue "nonce" attributes
    hash := (attributeValue "hash" attributes).getD []
    ext := (attributeValue "ext" attributes).getD [] }

def HawkClaim.recomputed (casing : Casing) (p : HawkBuildParams) (claim : HawkClaim) : Text :=
  hawkMac hmacs
    (hawkNormalizedString casing { p with
      ts := claim.ts, nonce := claim.nonce, ext := claim.ext } claim.hash)
    p.key p.algorithm

def Accepts (casing : Casing) (p : HawkBuildParams) : Prop :=
  ∃ claim, hawkClaim (hawkBuildHeader hmacs casing p).value = some claim ∧ claim.id = p.id ∧
    claim.mac = p.mac hmacs casing ∧ claim.recomputed hmacs casing p = claim.mac

structure Recoverable (p : HawkBuildParams) : Prop where
  id : Plain p.id
  ts : Plain p.ts
  nonce : Plain p.nonce
  ext : p.ext = []

theorem plain_base64 (bytes : List UInt8) : Plain (base64 bytes) := by
  have hnot (c : Char)
      (hc : c ∉ "ABCDEFGHIJKLMNOPQRSTUVWXYZabcdefghijklmnopqrstuvwxyz0123456789+/=".toList) :
      c ∉ base64 bytes := by
    intro hmem
    obtain ⟨n, rfl⟩ := mem_base64 hmem
    exact hc (base64Char_mem n)
  exact ⟨hnot _ (by decide), hnot _ (by decide)⟩

theorem plain_mac (casing : Casing) (p : HawkBuildParams) : Plain (p.mac hmacs casing) := by
  rw [HawkBuildParams.mac, hawkMac]
  split
  · exact plain_base64 _
  · exact plain_base64 _

variable {p : HawkBuildParams} {claim : HawkClaim} {casing : Casing}

theorem hawkClaim_value (casing : Casing) (hid : Plain p.id) (hts : Plain p.ts)
    (hnonce : Plain p.nonce) : hawkClaim (hawkBuildHeader hmacs casing p).value =
      some ⟨p.id, p.mac hmacs casing, p.ts, p.nonce, [], []⟩ := by
  have hnames : IsName "id" ∧ IsName "ts" ∧ IsName "nonce" ∧ IsName "mac" := by decide
  have hparse : parseAttributes (printAttributes (hawkAttributes hmacs casing p)) =
      some (hawkAttributes hmacs casing p) := by
    refine parseAttributes_print ?_
    simp only [forall_mem_cons, not_mem_nil, false_implies, implies_true, and_true]
    exact ⟨⟨hnames.1, hid⟩, ⟨hnames.2.1, hts⟩, ⟨hnames.2.2.1, hnonce⟩, hnames.2.2.2,
      plain_mac hmacs casing p⟩
  have hstrip : stripStart "Hawk " (hawkBuildHeader hmacs casing p).value =
      some (printAttributes (hawkAttributes hmacs casing p)) := stripStart_append _ _
  rw [hawkClaim, hstrip]
  simp only [bind_eq_bind, bind_some, hparse]
  simp [hawkAttributes, attributeValue_cons, attributeValue_nil]

theorem accepts_of_recoverable (casing : Casing) (h : Recoverable p) : Accepts hmacs casing p := by
  refine ⟨_, hawkClaim_value hmacs casing h.id h.ts h.nonce, rfl, rfl, ?_⟩
  have hparams : { p with ext := [] } = p := by
    rw [← h.ext]
  rw [HawkClaim.recomputed, HawkBuildParams.mac]
  rw [hparams]

/-! ## Rejected requests -/

theorem count_hawkLines (scheme : Text) (casing : Casing) (p : HawkBuildParams) (hash : Text)
    (c : Char) :
    (hawkLines scheme casing p hash).count c = p.ts.count c + p.nonce.count c + p.ext.count c +
      hash.count c +
      (hawkLines scheme casing { p with ts := [], nonce := [], ext := [] } []).count c := by
  simp only [hawkLines, flatMap_cons, flatMap_nil, count_append, count_nil]
  omega

theorem length_hawkLines (scheme : Text) (casing : Casing) (p : HawkBuildParams) (hash : Text) :
    (hawkLines scheme casing p hash).length =
      p.ext.length + (hawkLines scheme casing { p with ext := [] } hash).length := by
  simp only [hawkLines, flatMap_cons, flatMap_nil, length_append, length_nil]
  omega

def telling (message : List UInt8) : Hmacs where
  sha1 _ m := if m = message then [0] else [1]
  sha256 _ m := if m = message then [0] else [1]

theorem eq_of_hawkMac_telling {normalized normalized' key : Text} {algorithm : Option Text}
    (h : hawkMac (telling (utf8 normalized)) normalized' key algorithm =
      hawkMac (telling (utf8 normalized)) normalized key algorithm) : normalized' = normalized := by
  have hne : base64 [1] ≠ base64 [0] := by decide
  by_contra hdiff
  have hutf8 : utf8 normalized' ≠ utf8 normalized := fun heq => hdiff (utf8_injective heq)
  simp only [hawkMac, telling, if_neg hutf8, if_true, ite_self] at h
  exact hne h

theorem plain_of_hawkClaim {value : Text} (h : hawkClaim value = some claim) :
    Plain claim.id ∧ Plain claim.ts ∧ Plain claim.nonce ∧ Plain claim.hash ∧ Plain claim.ext := by
  simp only [hawkClaim, bind_eq_bind, bind_eq_some_iff] at h
  obtain ⟨rest, -, attributes, hparse, id, hid, mac, -, ts, hts, nonce, hnonce, h⟩ := h
  cases h
  have hoptional (name : Text) : Plain ((attributeValue name attributes).getD []) := by
    cases hvalue : attributeValue name attributes with
    | none => exact ⟨not_mem_nil, not_mem_nil⟩
    | some value => exact plain_of_attributeValue hparse hvalue
  exact ⟨plain_of_attributeValue hparse hid, plain_of_attributeValue hparse hts,
    plain_of_attributeValue hparse hnonce, hoptional _, hoptional _⟩

theorem not_mem_of_recomputed {c : Char}
    (h : hawkNormalizedString casing { p with
      ts := claim.ts, nonce := claim.nonce, ext := claim.ext } claim.hash =
      hawkNormalizedString casing p [])
    (hts : c ∉ claim.ts) (hnonce : c ∉ claim.nonce) (hhash : c ∉ claim.hash)
    (hext : c ∉ claim.ext) :
    c ∉ p.ts ∧ c ∉ p.nonce := by
  have hcount := congrArg (List.count c) h
  rw [hawkNormalizedString, hawkNormalizedString, count_hawkLines, count_hawkLines _ casing p]
    at hcount
  simp only [count_eq_zero.2 hts, count_eq_zero.2 hnonce, count_eq_zero.2 hhash,
    count_eq_zero.2 hext, count_nil] at hcount
  rw [← count_eq_zero, ← count_eq_zero]
  omega

theorem recoverable_of_accepts (h : ∀ hmacs, Accepts hmacs casing p) : Recoverable p := by
  obtain ⟨claim, hclaim, hid, hmac, hrecomputed⟩ :=
    h (telling (utf8 (hawkNormalizedString casing p [])))
  have hnormalized := eq_of_hawkMac_telling (hrecomputed.trans hmac)
  obtain ⟨hplain, hts, hnonce, hhash, hext⟩ := plain_of_hawkClaim hclaim
  rw [hid] at hplain
  have hquote := not_mem_of_recomputed hnormalized hts.1 hnonce.1 hhash.1 hext.1
  have hbackslash := not_mem_of_recomputed hnormalized hts.2 hnonce.2 hhash.2 hext.2
  -- so the attributes are read as they were written, which leaves the application data
  have hread := hawkClaim_value (telling (utf8 (hawkNormalizedString casing p []))) casing hplain
    ⟨hquote.1, hbackslash.1⟩ ⟨hquote.2, hbackslash.2⟩
  rw [hclaim] at hread
  cases hread
  refine ⟨hplain, ⟨hquote.1, hbackslash.1⟩, ⟨hquote.2, hbackslash.2⟩, ?_⟩
  have hlength := congrArg List.length hnormalized
  rw [hawkNormalizedString, hawkNormalizedString, length_hawkLines _ casing p] at hlength
  exact length_eq_zero_iff.1 (Nat.right_eq_add.1 hlength)

/-- For all functions for HMAC, the verifier accepts what is sent just when everything that
    enters the MAC can be read from the authorization. -/
theorem accepts_iff (casing : Casing) (p : HawkBuildParams) : (∀ hmacs, Accepts hmacs casing p) ↔
    Recoverable p :=
  ⟨recoverable_of_accepts, fun h hmacs => accepts_of_recoverable hmacs casing h⟩

def hawkRequest (id nonce ext : String) : HawkBuildParams :=
  ⟨"GET", "/resource/1?b=1&a=2", "example.com", 8000, id.toList, "key", none,
    "1353832234", nonce.toList, ext.toList⟩

def asciiCasing : Casing := ⟨toAsciiUppercase, toAsciiLowercase⟩

theorem accepts_iff_plain :
    let p := hawkRequest "dh37fgj492je" "j4h3g2" ""
    Recoverable p ∧ ∀ hmacs, Accepts hmacs asciiCasing p := by
  intro p
  have hplain : Recoverable p := ⟨by decide, by decide, by decide, rfl⟩
  exact ⟨hplain, (accepts_iff asciiCasing p).2 hplain⟩

theorem not_accepts_ext :
    (¬∀ hmacs, Accepts hmacs asciiCasing
      (hawkRequest "dh37fgj492je" "j4h3g2" "some-app-ext-data")) ∧
    ¬∀ hmacs, Accepts hmacs asciiCasing (hawkRequest "a\"b" "j4h3g2" "") := by
  constructor
  · intro h
    exact absurd (recoverable_of_accepts h).ext (by decide)
  · intro h
    exact absurd (recoverable_of_accepts h).id (by decide)

end Tropel
