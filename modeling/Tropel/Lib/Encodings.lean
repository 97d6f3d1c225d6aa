import Tropel.Lib.Json
import Tropel.Lib.Text

/-!
# Texts as bytes, and bytes as texts

A text is sent as its bytes in UTF-8 (`utf8`).
-/

namespace Lib

open List

/-! ## UTF-8 -/

def utf8 (t : Text) : List UInt8 := t.flatMap String.utf8EncodeChar

def fromUtf8 (bytes : List UInt8) : Option Text := bytes.toByteArray.utf8Decode?.map Array.toList

theorem fromUtf8_utf8 (t : Text) : fromUtf8 (utf8 t) = some t := by
  have hdecode : (utf8 t).toByteArray.utf8Decode? = some t.toArray := utf8Decode?_utf8Encode
  rw [fromUtf8, hdecode]
  rfl

theorem utf8_injective : Function.Injective utf8 := by
  intro t u h
  have hsome := fromUtf8_utf8 t
  rw [h, fromUtf8_utf8] at hsome
  exact (Option.some.inj hsome).symm

theorem utf8_append (t u : Text) : utf8 (t ++ u) = utf8 t ++ utf8 u := flatMap_append

variable {keep : UInt8 → Bool} {c : Char} {bytes : List UInt8} {b : UInt8}

theorem utf8_cons_of_lt (hc : c.toNat < 128) (t : Text) :
    utf8 (c :: t) = c.toNat.toUInt8 :: utf8 t := by
  have hchar : String.utf8EncodeChar c = [c.toNat.toUInt8] := by
    rw [String.utf8EncodeChar.eq_def]
    exact if_pos (Nat.le_of_lt_succ hc)
  rw [utf8, flatMap_cons, hchar]
  rfl

/-- A character outside of ASCII takes several bytes, none of which is one of ASCII. -/
theorem utf8EncodeChar_of_le (hc : 128 ≤ c.toNat) :
    2 ≤ (String.utf8EncodeChar c).length ∧ ∀ b ∈ String.utf8EncodeChar c, 128 ≤ b.toNat := by
  have hval : ¬c.val.toNat ≤ 127 := fun h => absurd hc (Nat.not_le.2 (Nat.lt_succ_of_le h))
  have hbyte {n : ℕ} (hlow : 128 ≤ n) (hhigh : n < 256) : 128 ≤ (UInt8.ofNat n).toNat := by
    rwa [UInt8.toNat_ofNat', Nat.mod_eq_of_lt hhigh]
  rw [String.utf8EncodeChar.eq_def]
  dsimp only
  rw [if_neg hval]
  split_ifs
  all_goals
    simp only [length_cons, length_nil, forall_mem_cons, not_mem_nil, false_imp_iff, implies_true,
      and_true]
    refine ⟨by omega, ?_⟩
    repeat' apply And.intro
  all_goals exact hbyte (by omega) (by omega)

/-! ## Percent encoding -/

def hexUpper (n : ℕ) : Char := (Nat.digitChar n).toUpper

def asciiChar (b : UInt8) : Char := Char.ofNat b.toNat

def percentByte (b : UInt8) : Text := ['%', hexUpper (b.toNat / 16), hexUpper (b.toNat % 16)]

def percentEncode (keep : UInt8 → Bool) (bytes : List UInt8) : Text :=
  bytes.flatMap fun b => if keep b then [asciiChar b] else percentByte b

def hexPair (high low : UInt8) : Option UInt8 := do
  let x ← hexDigit (asciiChar high)
  let y ← hexDigit (asciiChar low)
  return (16 * x + y).toUInt8

def percentDecode : List UInt8 → List UInt8
  | [] => []
  | [b] => [b]
  | [b, c] => [b, c]
  | b :: high :: low :: t =>
    match if b = 37 then hexPair high low else none with
    | some c => c :: percentDecode t
    | none => b :: percentDecode (high :: low :: t)

def Keepable (keep : UInt8 → Bool) : Prop := ∀ b, keep b = true → b.toNat < 128 ∧ b ≠ 37

theorem toNat_asciiChar (b : UInt8) : (asciiChar b).toNat = b.toNat := by
  have hlt := b.toNat_lt
  have hvalid : b.toNat.isValidChar := .inl (by omega)
  unfold asciiChar Char.ofNat
  rw [dif_pos hvalid]
  rfl

theorem asciiChar_toUInt8 (hc : c.toNat < 128) : asciiChar c.toNat.toUInt8 = c := by
  have hbyte : c.toNat.toUInt8.toNat = c.toNat := Nat.mod_eq_of_lt (by omega)
  rw [asciiChar, hbyte, Char.ofNat_toNat]

theorem percentDecode_cons_of_ne (hb : b ≠ 37) (t : List UInt8) :
    percentDecode (b :: t) = b :: percentDecode t := by
  rcases t with _ | ⟨c, _ | ⟨d, t⟩⟩
  · rfl
  · rfl
  · rw [percentDecode, if_neg hb]

theorem hexDigit_hexUpper {n : ℕ} (hn : n < 16) :
    (hexUpper n).toNat < 128 ∧ hexDigit (hexUpper n) = some n := by
  have hall : ∀ n < 16, (hexUpper n).toNat < 128 ∧ hexDigit (hexUpper n) = some n := by decide
  exact hall n hn

theorem percentDecode_percentByte (b : UInt8) (t : List UInt8) :
    percentDecode (utf8 (percentByte b) ++ t) = b :: percentDecode t := by
  have hlt : b.toNat < 256 := b.toNat_lt
  have hhigh := hexDigit_hexUpper (n := b.toNat / 16) (by omega)
  have hlow := hexDigit_hexUpper (n := b.toNat % 16) (by omega)
  have hpair : hexPair (hexUpper (b.toNat / 16)).toNat.toUInt8
      (hexUpper (b.toNat % 16)).toNat.toUInt8 = some b := by
    rw [hexPair, asciiChar_toUInt8 hhigh.1, asciiChar_toUInt8 hlow.1, hhigh.2, hlow.2]
    change some (16 * (b.toNat / 16) + b.toNat % 16).toUInt8 = some b
    rw [Nat.div_add_mod]
    exact congrArg some (UInt8.ofNat_toNat)
  rw [percentByte, utf8_cons_of_lt (by decide), utf8_cons_of_lt hhigh.1, utf8_cons_of_lt hlow.1]
  change percentDecode (37 :: _ :: _ :: t) = _
  rw [percentDecode, if_pos rfl, hpair]

theorem percentDecode_percentEncode (hkeep : Keepable keep) (bytes t : List UInt8) :
    percentDecode (utf8 (percentEncode keep bytes) ++ t) = bytes ++ percentDecode t := by
  induction bytes with
  | nil => rfl
  | cons b bytes ih =>
    rw [percentEncode, flatMap_cons, utf8_append, append_assoc]
    split
    next hb =>
      obtain ⟨hlt, hne⟩ := hkeep b hb
      have hchar : utf8 [asciiChar b] = [b] := by
        rw [utf8_cons_of_lt (by rwa [toNat_asciiChar]), toNat_asciiChar]
        exact congrArg (· :: []) UInt8.ofNat_toNat
      rw [hchar, singleton_append, percentDecode_cons_of_ne hne]
      exact congrArg (b :: ·) ih
    · rw [percentDecode_percentByte]
      exact congrArg (b :: ·) ih

theorem percentEncode_injective (hkeep : Keepable keep) :
    Function.Injective (percentEncode keep) := by
  intro bytes bytes' h
  have hdecode := percentDecode_percentEncode hkeep bytes []
  rw [h, percentDecode_percentEncode hkeep, percentDecode, append_nil, append_nil] at hdecode
  exact hdecode.symm

theorem mem_percentEncode (hc : c ∈ percentEncode keep bytes) :
    (∃ b, keep b = true ∧ c = asciiChar b) ∨ c = '%' ∨ ∃ n < 16, c = hexUpper n := by
  obtain ⟨b, -, hb⟩ := mem_flatMap.1 hc
  have hlt : b.toNat < 256 := b.toNat_lt
  split at hb
  next hkeep => exact .inl ⟨b, hkeep, mem_singleton.1 hb⟩
  next =>
    simp only [percentByte, mem_cons, not_mem_nil, or_false] at hb
    rcases hb with rfl | rfl | rfl
    · exact .inr (.inl rfl)
    · exact .inr (.inr ⟨_, by omega, rfl⟩)
    · exact .inr (.inr ⟨_, by omega, rfl⟩)

theorem not_mem_percentEncode (hplain : ∀ b, keep b = true → b.toNat ≠ c.toNat) (hpercent : c ≠ '%')
    (hhex : ∀ n < 16, c ≠ hexUpper n) (bytes : List UInt8) : c ∉ percentEncode keep bytes := by
  intro hc
  rcases mem_percentEncode hc with ⟨b, hb, rfl⟩ | rfl | ⟨n, hn, hdigit⟩
  · exact hplain b hb (toNat_asciiChar b).symm
  · exact hpercent rfl
  · exact hhex n hn hdigit

def base64Char (n : ℕ) : Char :=
  "ABCDEFGHIJKLMNOPQRSTUVWXYZabcdefghijklmnopqrstuvwxyz0123456789+/".toList.getD n '='

def base64 : List UInt8 → Text
  | [] => []
  | [a] => [base64Char (a.toNat / 4), base64Char (a.toNat % 4 * 16), '=', '=']
  | [a, b] =>
    [base64Char (a.toNat / 4), base64Char (a.toNat % 4 * 16 + b.toNat / 16),
      base64Char (b.toNat % 16 * 4), '=']
  | a :: b :: c :: t =>
    [base64Char (a.toNat / 4), base64Char (a.toNat % 4 * 16 + b.toNat / 16),
      base64Char (b.toNat % 16 * 4 + c.toNat / 64), base64Char (c.toNat % 64)] ++ base64 t

theorem mem_base64 (hc : c ∈ base64 bytes) : ∃ n, c = base64Char n := by
  have hpad : '=' = base64Char 64 := by decide
  induction bytes using base64.induct with
  | case1 => cases hc
  | case2 a =>
    simp only [base64, mem_cons, not_mem_nil, or_false] at hc
    rcases hc with rfl | rfl | rfl | rfl
    exacts [⟨_, rfl⟩, ⟨_, rfl⟩, ⟨_, hpad⟩, ⟨_, hpad⟩]
  | case3 a b =>
    simp only [base64, mem_cons, not_mem_nil, or_false] at hc
    rcases hc with rfl | rfl | rfl | rfl
    exacts [⟨_, rfl⟩, ⟨_, rfl⟩, ⟨_, rfl⟩, ⟨_, hpad⟩]
  | case4 a b d t ih =>
    simp only [base64, mem_append, mem_cons, not_mem_nil, or_false] at hc
    rcases hc with (rfl | rfl | rfl | rfl) | hc
    exacts [⟨_, rfl⟩, ⟨_, rfl⟩, ⟨_, rfl⟩, ⟨_, rfl⟩, ih hc]

theorem base64Char_mem (n : ℕ) :
    base64Char n ∈ "ABCDEFGHIJKLMNOPQRSTUVWXYZabcdefghijklmnopqrstuvwxyz0123456789+/=".toList := by
  rw [base64Char, getD_eq_getElem?_getD]
  cases h : "ABCDEFGHIJKLMNOPQRSTUVWXYZabcdefghijklmnopqrstuvwxyz0123456789+/".toList[n]? with
  | none => decide
  | some d =>
    have hsub : "ABCDEFGHIJKLMNOPQRSTUVWXYZabcdefghijklmnopqrstuvwxyz0123456789+/" ++ ['='] =
        "ABCDEFGHIJKLMNOPQRSTUVWXYZabcdefghijklmnopqrstuvwxyz0123456789+/=" := by decide
    rw [← hsub]
    exact mem_append_left _ (mem_of_getElem? h)

end Lib
