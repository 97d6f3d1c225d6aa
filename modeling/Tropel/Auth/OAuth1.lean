import Mathlib.Data.Char
import Mathlib.Data.List.Lex
import Mathlib.Data.List.Perm.Basic
import Mathlib.Data.Prod.Lex
import Tropel.Lib.Encodings
import Tropel.Lib.SortBy

/-!
# Signatures of OAuth 1

An OAuth 1 signature signs the method, the URI and the parameters of a request, each encoded (RFC
5849).

* `oauth1BaseString_eq_iff`: which requests sign the same text.
-/

namespace Tropel

open Lib List Bool

structure Uppercase where
  upper : Char → Text
  amp : ∀ c, '&' ∈ upper c → c = '&'

def Uppercase.toUppercase (u : Uppercase) (t : Text) : Text := t.flatMap u.upper

def isUnreserved (b : UInt8) : Bool :=
  let n := b.toNat
  (48 ≤ n && n ≤ 57) || (65 ≤ n && n ≤ 90) || (97 ≤ n && n ≤ 122) || n = 45 || n = 46 || n = 95 ||
    n = 126

def percentEncodeUnreserved (value : Text) : Text := percentEncode isUnreserved (utf8 value)

def encodePair (p : Text × Text) : Text × Text :=
  (percentEncodeUnreserved p.1, percentEncodeUnreserved p.2)

def sortPairs (pairs : List (Text × Text)) : List (Text × Text) := sortByKey toLex pairs

def joinPairs (pairs : List (Text × Text)) : Text :=
  ['&'].intercalate (pairs.map fun p => p.1 ++ '=' :: p.2)

def oauth1BaseString (u : Uppercase) (method baseUri : Text) (params : List (Text × Text)) : Text :=
  let paramString := joinPairs (sortPairs (params.map encodePair))
  u.toUppercase method ++
    '&' :: (percentEncodeUnreserved baseUri ++ '&' :: percentEncodeUnreserved paramString)

/-! ## Encoded texts -/

theorem keepable_isUnreserved : Keepable isUnreserved := by
  intro b hb
  simp only [isUnreserved, or_eq_true, and_eq_true, decide_eq_true_eq] at hb
  refine ⟨by omega, ?_⟩
  rintro rfl
  simp at hb

theorem percentEncodeUnreserved_injective : Function.Injective percentEncodeUnreserved :=
  (percentEncode_injective keepable_isUnreserved).comp utf8_injective

theorem isUnreserved_toNat {b : UInt8} (hb : isUnreserved b = true) :
    b.toNat ≠ 38 ∧ b.toNat ≠ 61 := by
  simp only [isUnreserved, or_eq_true, and_eq_true, decide_eq_true_eq] at hb
  omega

theorem ampersand_not_mem_percentEncodeUnreserved (t : Text) : '&' ∉ percentEncodeUnreserved t :=
  not_mem_percentEncode (c := '&') (fun _ hb => (isUnreserved_toNat hb).1) (by decide) (by decide) _

theorem equals_not_mem_percentEncodeUnreserved (t : Text) : '=' ∉ percentEncodeUnreserved t :=
  not_mem_percentEncode (c := '=') (fun _ hb => (isUnreserved_toNat hb).2) (by decide) (by decide) _

/-! ## Pairs -/

def Joinable (p : Text × Text) : Prop := '&' ∉ p.1 ∧ '=' ∉ p.1 ∧ '&' ∉ p.2

def readPairs (t : Text) : List (Text × Text) :=
  if t = [] then [] else (t.splitOn '&').filterMap (splitOnce '=')

theorem readPairs_joinPairs {pairs : List (Text × Text)} (h : ∀ p ∈ pairs, Joinable p) :
    readPairs (joinPairs pairs) = pairs := by
  cases pairs with
  | nil => rfl
  | cons p ps =>
    have hmem : '=' ∈ joinPairs (p :: ps) :=
      mem_intercalate (mem_map_of_mem mem_cons_self) (mem_append_right _ mem_cons_self)
    have hamp : ∀ t ∈ (p :: ps).map fun p => p.1 ++ '=' :: p.2, '&' ∉ t := by
      refine forall_mem_map.2 fun q hq hc => ?_
      rcases mem_append.1 hc with hc | hc
      · exact (h q hq).1 hc
      · rcases mem_cons.1 hc with hc | hc
        · exact absurd hc (by decide)
        · exact (h q hq).2.2 hc
    rw [readPairs, if_neg (ne_nil_of_mem hmem), joinPairs,
      splitOn_intercalate _ hamp (cons_ne_nil _ _), filterMap_map]
    refine (filterMap_congr fun q hq => ?_).trans filterMap_some
    exact splitOnce_append (h q hq).2.1 q.2

theorem sortPairs_eq_iff_perm {pairs pairs' : List (Text × Text)} :
    sortPairs pairs = sortPairs pairs' ↔ pairs.Perm pairs' := by
  constructor
  · intro h
    have hperm : (sortPairs pairs).Perm pairs' := by
      rw [h]
      exact perm_sortByKey toLex pairs'
    exact (perm_sortByKey toLex pairs).symm.trans hperm
  · exact fun h => sortByKey_eq_of_perm toLex.injective h

theorem encodePair_injective : Function.Injective encodePair := by
  intro p q h
  obtain ⟨hk, hv⟩ := Prod.mk.inj h
  exact Prod.ext (percentEncodeUnreserved_injective hk) (percentEncodeUnreserved_injective hv)

theorem joinable_of_mem_sortPairs {params : List (Text × Text)} :
    ∀ p ∈ sortPairs (params.map encodePair), Joinable p := by
  intro p hp
  obtain ⟨q, -, rfl⟩ := mem_map.1 ((perm_sortByKey toLex _).subset hp)
  exact ⟨ampersand_not_mem_percentEncodeUnreserved _, equals_not_mem_percentEncodeUnreserved _,
    ampersand_not_mem_percentEncodeUnreserved _⟩

theorem joinPairs_eq_iff_perm {params params' : List (Text × Text)} :
    joinPairs (sortPairs (params.map encodePair)) = joinPairs (sortPairs (params'.map encodePair)) ↔
      params.Perm params' := by
  rw [← map_perm_map_iff encodePair_injective, ← sortPairs_eq_iff_perm]
  constructor
  · intro h
    rw [← readPairs_joinPairs joinable_of_mem_sortPairs, h,
      readPairs_joinPairs joinable_of_mem_sortPairs]
  · exact congrArg joinPairs

theorem Uppercase.not_mem_toUppercase (u : Uppercase) {t : Text} (ht : '&' ∉ t) :
    '&' ∉ u.toUppercase t := by
  intro h
  obtain ⟨c, hc, hmem⟩ := mem_flatMap.1 h
  exact ht (u.amp c hmem ▸ hc)

/-- Two requests sign the same text just when they have the same method, up to case, the same URI,
    and the same parameters in any order. -/
theorem oauth1BaseString_eq_iff (u : Uppercase) {method method' : Text} (hmethod : '&' ∉ method)
    (hmethod' : '&' ∉ method') (baseUri baseUri' : Text) (params params' : List (Text × Text)) :
    oauth1BaseString u method baseUri params = oauth1BaseString u method' baseUri' params' ↔
      u.toUppercase method = u.toUppercase method' ∧ baseUri = baseUri' ∧ params.Perm params' := by
  rw [oauth1BaseString, oauth1BaseString,
    append_cons_inj_of_not_mem (u.not_mem_toUppercase hmethod) (u.not_mem_toUppercase hmethod'),
    append_cons_inj_of_not_mem (ampersand_not_mem_percentEncodeUnreserved _)
      (ampersand_not_mem_percentEncodeUnreserved _),
    percentEncodeUnreserved_injective.eq_iff, percentEncodeUnreserved_injective.eq_iff]
  exact and_congr_right fun _ => and_congr_right fun _ => joinPairs_eq_iff_perm

def asciiUppercase : Uppercase where
  upper c := [c.toUpper]
  amp c h := by
    rcases isAlpha_toUpper_or c with halpha | heq
    · rw [← List.mem_singleton.1 h] at halpha
      exact absurd halpha (by decide)
    · rw [List.mem_singleton.1 h, heq]

theorem oauth1BaseString_eq_iff_swapped : '&' ∉ "get".toList ∧ '&' ∉ "GET".toList ∧
    (oauth1BaseString asciiUppercase "get".toList "http://h/".toList
        [("a".toList, "1&b=2".toList), ("b".toList, "é".toList)] =
      oauth1BaseString asciiUppercase "GET".toList "http://h/".toList
        [("b".toList, "é".toList), ("a".toList, "1&b=2".toList)] ↔
      asciiUppercase.toUppercase "get".toList = asciiUppercase.toUppercase "GET".toList ∧
        "http://h/".toList = "http://h/".toList ∧
        [("a".toList, "1&b=2".toList), ("b".toList, "é".toList)].Perm
          [("b".toList, "é".toList), ("a".toList, "1&b=2".toList)]) := by
  have hget : '&' ∉ "get".toList := by decide
  have hGET : '&' ∉ "GET".toList := by decide
  exact ⟨hget, hGET, oauth1BaseString_eq_iff asciiUppercase hget hGET _ _ _ _⟩

end Tropel
