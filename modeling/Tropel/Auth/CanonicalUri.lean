import Mathlib.Data.List.Infix
import Tropel.Auth.OAuth1

/-!
# The canonical URI of an AWS signature

An AWS signature signs the path of a request in a canonical form, encoded once more except for the
services of S3.

* `sigv4CanonicalUri_eq`: its text for other services.
-/

namespace Tropel

open Lib List

def isS3Family (service : Text) : Bool :=
  ["s3", "s3control", "s3-control", "s3-object-lambda", "s3-outposts", "s3express"].any fun s =>
    s.toList = service

def replaceSlashes : Text → Text
  | '/' :: '/' :: t => '/' :: replaceSlashes t
  | c :: t => c :: replaceSlashes t
  | [] => []

/-- The text with a single slash for each maximal run of slashes. -/
def collapsed : Text → Text
  | [] => []
  | c :: t => if c = '/' ∧ t.head? = some '/' then collapsed t else c :: collapsed t

theorem head?_replaceSlashes (t : Text) : (replaceSlashes t).head? = t.head? := by
  fun_cases replaceSlashes t <;> rfl

theorem length_replaceSlashes_le (t : Text) : (replaceSlashes t).length ≤ t.length := by
  fun_induction replaceSlashes t with
  | case1 t ih => exact Nat.le_succ_of_le (Nat.succ_le_succ ih)
  | case2 c t _ ih => exact Nat.succ_le_succ ih
  | case3 => exact Nat.le_refl _

theorem length_replaceSlashes_lt {t : Text} (h : ['/', '/'] <:+: t) :
    (replaceSlashes t).length < t.length := by
  fun_induction replaceSlashes t with
  | case1 t _ => exact Nat.succ_lt_succ (Nat.lt_succ_of_le (length_replaceSlashes_le t))
  | case2 c t hne ih =>
    refine Nat.succ_lt_succ (ih ((infix_cons_iff.1 h).resolve_left ?_))
    rintro ⟨u, hu⟩
    obtain ⟨rfl, rfl⟩ := cons.inj hu
    exact hne u rfl rfl
  | case3 => simp at h

def normalizeSlashes (path : Text) : Text :=
  if ['/', '/'] <:+: path then normalizeSlashes (replaceSlashes path) else path
termination_by path.length
decreasing_by exact length_replaceSlashes_lt ‹_›

def sigv4CanonicalUri (path service : Text) : Text :=
  if isS3Family service then if path.isEmpty then ['/'] else path
  else if path.isEmpty then ['/']
  else ['/'].intercalate (((normalizeSlashes path).splitOn '/').map percentEncodeUnreserved)

theorem collapsed_replaceSlashes (t : Text) : collapsed (replaceSlashes t) = collapsed t := by
  fun_induction replaceSlashes t with
  | case1 t ih => simp [collapsed, head?_replaceSlashes, ih]
  | case2 c t _ ih => rw [collapsed, collapsed, head?_replaceSlashes, ih]
  | case3 => rfl

theorem collapsed_eq_self {t : Text} (h : ¬['/', '/'] <:+: t) : collapsed t = t := by
  induction t with
  | nil => rfl
  | cons c t ih =>
    rw [infix_cons_iff, not_or] at h
    rw [collapsed, ih h.2, if_neg]
    rintro ⟨rfl, hhead⟩
    obtain ⟨u, rfl⟩ := head?_eq_some_iff.1 hhead
    exact h.1 ⟨u, rfl⟩

theorem normalizeSlashes_eq (path : Text) : normalizeSlashes path = collapsed path := by
  fun_induction normalizeSlashes path with
  | case1 path _ ih => rw [ih, collapsed_replaceSlashes]
  | case2 path h => exact (collapsed_eq_self h).symm

theorem head?_collapsed (t : Text) : (collapsed t).head? = t.head? := by
  induction t with
  | nil => rfl
  | cons c t ih =>
    rw [collapsed]
    split_ifs with h
    · rw [ih, h.2, h.1, head?_cons]
    · rfl

theorem collapsed_collapsed (t : Text) : collapsed (collapsed t) = collapsed t := by
  induction t with
  | nil => rfl
  | cons c t ih =>
    rw [collapsed]
    split_ifs with h
    · exact ih
    · rw [collapsed, head?_collapsed, if_neg h, ih]

def isPathByte (b : UInt8) : Bool := b = 47 || isUnreserved b

theorem slash_mem_of_mem_utf8 {t : Text} (h : 47 ∈ utf8 t) : '/' ∈ t := by
  obtain ⟨c, hc, hbyte⟩ := mem_flatMap.1 h
  have hslash : c.toNat = 47 := by
    rw [String.utf8EncodeChar.eq_def] at hbyte
    change 47 ∈ if c.toNat ≤ 127 then _ else _ at hbyte
    split_ifs at hbyte <;> simp [← UInt8.toNat_inj] at hbyte <;> omega
  rwa [← Char.toNat_inj.1 (hslash.trans rfl : c.toNat = '/'.toNat)]

theorem percentEncode_isPathByte {ts : List Text} (h : ∀ t ∈ ts, '/' ∉ t) :
    percentEncode isPathByte (utf8 (['/'].intercalate ts)) =
      ['/'].intercalate (ts.map percentEncodeUnreserved) := by
  have hpart : ∀ t : Text, '/' ∉ t →
      percentEncode isPathByte (utf8 t) = percentEncodeUnreserved t := by
    intro t ht
    refine flatMap_congr fun b hb => ?_
    have hne : b ≠ 47 := fun heq => ht (slash_mem_of_mem_utf8 (heq ▸ hb))
    rw [isPathByte, decide_eq_false hne, Bool.false_or]
  induction ts with
  | nil => rfl
  | cons t ts ih =>
    rw [forall_mem_cons] at h
    cases ts with
    | nil => rw [intercalate_singleton, hpart t h.1, map_singleton, intercalate_singleton]
    | cons u ts =>
      rw [intercalate_cons_cons, append_assoc, utf8_append, utf8_append, percentEncode,
        flatMap_append, flatMap_append, ← percentEncode, ← percentEncode, ← percentEncode, ih h.2,
          hpart t h.1]
      simp only [map_cons, intercalate_cons_cons, append_assoc]
      rfl

/-- Outside the S3 family, a canonical URI has each run of slashes once, and each other byte as it
    is, if it is unreserved, or encoded. -/
theorem sigv4CanonicalUri_eq {path service : Text} (hpath : path ≠ [])
    (hservice : isS3Family service = false) :
    sigv4CanonicalUri path service = percentEncode isPathByte (utf8 (collapsed path)) ∧
      sigv4CanonicalUri (collapsed path) service = sigv4CanonicalUri path service := by
  have hcollapsed : collapsed path ≠ [] := by
    rwa [ne_eq, ← head?_eq_none_iff, head?_collapsed, head?_eq_none_iff]
  have huri : ∀ p, p ≠ [] →
      sigv4CanonicalUri p service = percentEncode isPathByte (utf8 (collapsed p)) := by
    intro p hp
    rw [sigv4CanonicalUri, hservice, if_neg Bool.false_ne_true, if_neg (by simpa using hp),
      normalizeSlashes_eq, ← percentEncode_isPathByte not_mem_of_mem_splitOn, intercalate_splitOn]
  rw [huri _ hpath, huri _ hcollapsed, collapsed_collapsed]
  exact ⟨rfl, rfl⟩

theorem sigv4CanonicalUri_prod : "//prod/ü".toList ≠ [] ∧ isS3Family "execute-api" = false ∧
    sigv4CanonicalUri "//prod/ü" "execute-api" = "/prod/%C3%BC".toList := by
  have h := @sigv4CanonicalUri_eq "//prod/ü" "execute-api" (by decide) (by decide)
  exact ⟨by decide, by decide, h.1.trans (by decide)⟩

end Tropel
