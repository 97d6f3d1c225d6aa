import Mathlib.Data.Bool.AllAny
import Tropel.Lib.Text

/-!
# Tokens and quoted strings

A word of a header is a *token*, or in quotes, with a backslash before backslashes and quotes (RFC
7230).
-/

namespace Lib

open Bool

/-! ## Tokens -/

def isTokenChar (c : Char) : Bool := c.isAlphanum || "!#$%&'*+-.^_`|~".toList.contains c

def IsToken (t : Text) : Prop := t ≠ [] ∧ ∀ c ∈ t, isTokenChar c = true

instance (t : Text) : Decidable (IsToken t) :=
  have := List.decidableBAll (isTokenChar · = true) t
  inferInstanceAs (Decidable (_ ∧ _))

variable {c d : Char} {t : Text}

theorem ne_of_isTokenChar (hc : isTokenChar c = true) (hd : isTokenChar d = false) : c ≠ d := by
  rintro rfl
  rw [hc] at hd
  exact Bool.noConfusion hd

theorem IsToken.not_mem (ht : IsToken t) (hd : isTokenChar d = false) : d ∉ t :=
  fun hmem => ne_of_isTokenChar (ht.2 d hmem) hd rfl

theorem toNat_of_isTokenChar (hc : isTokenChar c = true) : 32 < c.toNat ∧ c.toNat < 127 := by
  rw [isTokenChar, or_eq_true] at hc
  rcases hc with hword | hsign
  · unfold Char.isAlphanum at hword
    rw [or_eq_true, isAlpha_iff, Char.isDigit_iff_toNat] at hword
    have hzero : '0'.toNat = 48 := rfl
    have hnine : '9'.toNat = 57 := rfl
    omega
  · have hall : ∀ d ∈ "!#$%&'*+-.^_`|~".toList, 32 < d.toNat ∧ d.toNat < 127 :=
      List.all_iff_forall_prop.1 (by decide +kernel)
    exact hall c (List.contains_iff_mem.1 hsign)

theorem isWhitespace_of_isTokenChar (hc : isTokenChar c = true) : isWhitespace c = false := by
  have hrange := toNat_of_isTokenChar hc
  unfold isWhitespace
  simp only [or_eq_false_iff, and_eq_false_iff, decide_eq_false_iff_not]
  omega

theorem IsToken.not_isWhitespace (ht : IsToken t) : ∀ c ∈ t, isWhitespace c = false :=
  fun c hc => isWhitespace_of_isTokenChar (ht.2 c hc)

theorem isTokenChar_toUpper (hc : isTokenChar c = true) : isTokenChar c.toUpper = true := by
  rcases isAlpha_toUpper_or c with halpha | heq
  · rw [isTokenChar, or_eq_true]
    unfold Char.isAlphanum
    rw [halpha]
    exact .inl rfl
  · rwa [heq]

theorem IsToken.toAsciiUppercase (ht : IsToken t) : IsToken (toAsciiUppercase t) :=
  ⟨fun h => ht.1 (List.map_eq_nil_iff.1 h),
    List.forall_mem_map.2 fun c hc => isTokenChar_toUpper (ht.2 c hc)⟩

/-! ## Quoted strings -/

def escapeChar (c : Char) : Text := if c = '\\' ∨ c = '"' then ['\\', c] else [c]

def escape (t : Text) : Text := t.flatMap escapeChar

def quoted (t : Text) : Text := '"' :: (escape t ++ ['"'])

@[simp]
theorem escape_cons (c : Char) (t : Text) : escape (c :: t) = escapeChar c ++ escape t := rfl

def replaceChar (c : Char) (w : Text) (t : Text) : Text :=
  t.flatMap fun d => if d = c then w else [d]

theorem replaceChar_eq_escape (t : Text) :
    replaceChar '"' ['\\', '"'] (replaceChar '\\' ['\\', '\\'] t) = escape t := by
  rw [replaceChar, replaceChar, List.flatMap_assoc, escape]
  refine List.flatMap_congr fun c _ => ?_
  unfold escapeChar
  by_cases hbackslash : c = '\\'
  · subst hbackslash
    rfl
  · by_cases hquote : c = '"'
    · subst hquote
      rfl
    · simp [hbackslash, hquote]

end Lib
