import Mathlib.Tactic.Ring

/-!
# The wire format of protocol buffers

A message is a list of fields, one after the other.
-/

namespace Lib.Wire

open List Option Nat

/-! ## Numbers -/

def varint (n : ℕ) : List UInt8 :=
  if n < 128 then [UInt8.ofNat n] else UInt8.ofNat (n % 128 + 128) :: varint (n / 128)

def readVarintUpTo : ℕ → List UInt8 → Option (ℕ × List UInt8)
  | 0, _ => none
  | _ + 1, [] => none
  | k + 1, b :: rest =>
    if b.toNat < 128 then some (b.toNat, rest)
    else (readVarintUpTo k rest).map fun r => (b.toNat - 128 + 128 * r.1, r.2)

def readVarint (bytes : List UInt8) : Option (UInt64 × List UInt8) :=
  (readVarintUpTo 10 bytes).bind fun r =>
    if r.1 < 2 ^ 64 then some (UInt64.ofNat r.1, r.2) else none

variable {n k : ℕ}

theorem varint_of_lt (h : n < 128) : varint n = [UInt8.ofNat n] := by
  rw [varint, if_pos h]

theorem varint_of_le (h : 128 ≤ n) :
    varint n = UInt8.ofNat (n % 128 + 128) :: varint (n / 128) := by
  rw [varint, if_neg (by omega)]

theorem readVarintUpTo_varint_append (h : n < 128 ^ (k + 1)) (rest : List UInt8) :
    readVarintUpTo (k + 1) (varint n ++ rest) = some (n, rest) := by
  induction k generalizing n with
  | zero =>
    have hn : n < 128 := by simpa using h
    rw [varint_of_lt hn, singleton_append, readVarintUpTo,
      UInt8.toNat_ofNat_of_lt' (hn.trans (by decide)), if_pos hn]
  | succ k ih =>
    by_cases hn : n < 128
    · rw [varint_of_lt hn, singleton_append, readVarintUpTo,
        UInt8.toNat_ofNat_of_lt' (hn.trans (by decide)), if_pos hn]
    · have hdiv : n / 128 < 128 ^ (k + 1) := by
        rw [div_lt_iff_lt_mul (by omega)]
        exact h
      rw [varint_of_le (by omega), cons_append, readVarintUpTo,
        UInt8.toNat_ofNat_of_lt' (by rw [UInt8.size]; omega), if_neg (by omega), ih hdiv]
      simp only [map_some, some.injEq, Prod.mk.injEq, and_true]
      omega

theorem readVarint_varint_append (n : UInt64) (rest : List UInt8) :
    readVarint (varint n.toNat ++ rest) = some (n, rest) := by
  have hn := n.toNat_lt
  rw [readVarint, readVarintUpTo_varint_append (hn.trans (by decide)), bind_some,
    if_pos hn, UInt64.ofNat_toNat]

theorem varint_ne_nil (n : ℕ) : varint n ≠ [] := by
  rw [varint]
  split <;> exact cons_ne_nil _ _

theorem length_varint_le_iff : (varint n).length ≤ k + 1 ↔ n < 2 ^ (7 * (k + 1)) := by
  induction k generalizing n with
  | zero =>
    by_cases hn : n < 128
    · simpa [varint_of_lt hn] using hn
    · have hpos := length_pos_iff.2 (varint_ne_nil (n / 128))
      rw [varint_of_le (by omega), length_cons]
      omega
  | succ k ih =>
    have hpow : 2 ^ (7 * (k + 1 + 1)) = 2 ^ (7 * (k + 1)) * 128 := by
      rw [Nat.mul_succ, Nat.pow_add]
    by_cases hn : n < 128
    · have hle : 1 ≤ 2 ^ (7 * (k + 1)) := Nat.one_le_two_pow
      rw [varint_of_lt hn, length_singleton]
      omega
    · rw [varint_of_le (by omega), length_cons, succ_le_succ_iff, ih, hpow,
        div_lt_iff_lt_mul (by omega)]

def le : ℕ → ℕ → List UInt8
  | 0, _ => []
  | k + 1, n => UInt8.ofNat n :: le k (n / 256)

def readLe : ℕ → List UInt8 → Option (ℕ × List UInt8)
  | 0, rest => some (0, rest)
  | _ + 1, [] => none
  | k + 1, b :: rest => (readLe k rest).map fun r => (b.toNat + 256 * r.1, r.2)

theorem readLe_le_append (h : n < 256 ^ k) (rest : List UInt8) :
    readLe k (le k n ++ rest) = some (n, rest) := by
  induction k generalizing n with
  | zero =>
    obtain rfl : n = 0 := by simpa using h
    rfl
  | succ k ih =>
    have hdiv : n / 256 < 256 ^ k := by
      rw [div_lt_iff_lt_mul (by omega)]
      exact h
    rw [le, cons_append, readLe, ih hdiv, map_some, UInt8.toNat_ofNat']
    simp only [some.injEq, Prod.mk.injEq, and_true]
    omega

@[simp]
theorem length_le (k n : ℕ) : (le k n).length = k := by
  induction k generalizing n with
  | zero => rfl
  | succ k ih => rw [le, length_cons, ih]

/-! ## Fields -/

inductive Payload
  | varint (n : UInt64)
  | fixed64 (n : UInt64)
  | len (bytes : List UInt8)
  deriving DecidableEq

namespace Payload

def wireType : Payload → ℕ
  | varint _ => 0
  | fixed64 _ => 1
  | len _ => 2

def bytes : Payload → List UInt8
  | varint n => Wire.varint n.toNat
  | fixed64 n => le 8 n.toNat
  | len bytes => Wire.varint bytes.length ++ bytes

def Fits : Payload → Prop
  | len bytes => bytes.length < 2 ^ 64
  | _ => True

end Payload

structure Field where
  number : ℕ
  payload : Payload
  deriving DecidableEq

namespace Field

def tag (f : Field) : ℕ := f.number * 8 + f.payload.wireType

def bytes (f : Field) : List UInt8 := varint f.tag ++ f.payload.bytes

structure Valid (f : Field) : Prop where
  pos : 0 < f.number
  lt : f.number < 2 ^ 29
  fits : f.payload.Fits

end Field

def message (fields : List Field) : List UInt8 := fields.flatMap Field.bytes

theorem message_cons (f : Field) (fields : List Field) :
    message (f :: fields) = f.bytes ++ message fields := flatMap_cons

theorem message_singleton (f : Field) : message [f] = f.bytes := append_nil _

theorem message_append (fields fields' : List Field) :
    message (fields ++ fields') = message fields ++ message fields' := flatMap_append

def readPayload (wireType : ℕ) (bytes : List UInt8) : Option (Payload × List UInt8) :=
  match wireType with
  | 0 => (readVarint bytes).map fun r => (.varint r.1, r.2)
  | 1 => (readLe 8 bytes).map fun r => (.fixed64 (UInt64.ofNat r.1), r.2)
  | 2 => (readVarint bytes).bind fun r =>
    if r.1.toNat ≤ r.2.length then some (.len (r.2.take r.1.toNat), r.2.drop r.1.toNat) else none
  | _ => none

def readField (bytes : List UInt8) : Option (Field × List UInt8) :=
  (readVarint bytes).bind fun r =>
    let number := r.1.toNat / 8
    if 0 < number ∧ number < 2 ^ 29 then
      (readPayload (r.1.toNat % 8) r.2).map fun r => (⟨number, r.1⟩, r.2)
    else none

def readFieldsUpTo : ℕ → List UInt8 → Option (List Field)
  | _, [] => some []
  | 0, _ :: _ => none
  | k + 1, b :: bytes =>
    (readField (b :: bytes)).bind fun r => (readFieldsUpTo k r.2).map (r.1 :: ·)

def readFields (bytes : List UInt8) : Option (List Field) := readFieldsUpTo bytes.length bytes

theorem readPayload_bytes_append {p : Payload} (h : p.Fits) (rest : List UInt8) :
    readPayload p.wireType (p.bytes ++ rest) = some (p, rest) := by
  cases p with
  | varint n => rw [Payload.wireType, Payload.bytes, readPayload, readVarint_varint_append]; rfl
  | fixed64 n =>
    rw [Payload.wireType, Payload.bytes, readPayload,
      readLe_le_append (n.toNat_lt.trans_le (by decide)), map_some, UInt64.ofNat_toNat]
  | len bytes =>
    have hlen : (UInt64.ofNat bytes.length).toNat = bytes.length := UInt64.toNat_ofNat_of_lt' h
    rw [Payload.wireType, Payload.bytes, readPayload, append_assoc, ← hlen,
      readVarint_varint_append, bind_some, if_pos (by simp [hlen]), hlen,
      take_left, drop_left]

variable {fields : List Field} {f : Field}

theorem Field.Valid.tag_lt (h : f.Valid) : f.tag < 2 ^ 64 := by
  have hlt := h.lt
  have htype : f.payload.wireType < 8 := by
    cases f.payload <;> simp [Payload.wireType]
  rw [Field.tag]
  omega

theorem readField_bytes_append (h : f.Valid) (rest : List UInt8) :
    readField (f.bytes ++ rest) = some (f, rest) := by
  have htag : (UInt64.ofNat f.tag).toNat = f.tag := UInt64.toNat_ofNat_of_lt' h.tag_lt
  have htype : f.payload.wireType < 8 := by
    cases f.payload <;> simp [Payload.wireType]
  have hnumber : f.tag / 8 = f.number := by
    rw [Field.tag]
    omega
  have hmod : f.tag % 8 = f.payload.wireType := by
    rw [Field.tag]
    omega
  rw [readField, Field.bytes, append_assoc, ← htag, readVarint_varint_append,
    bind_some, htag]
  simp only [hnumber, hmod]
  rw [if_pos ⟨h.pos, h.lt⟩, readPayload_bytes_append h.fits, map_some]

theorem Field.bytes_ne_nil (f : Field) : f.bytes ≠ [] := by
  rw [Field.bytes]
  exact append_ne_nil_of_left_ne_nil (varint_ne_nil _) _

theorem readFieldsUpTo_message (h : ∀ f ∈ fields, f.Valid)
    (hk : (message fields).length ≤ k) : readFieldsUpTo k (message fields) = some fields := by
  induction fields generalizing k with
  | nil =>
    cases k <;> rfl
  | cons f fields ih =>
    obtain ⟨hf, hfields⟩ := forall_mem_cons.1 h
    have hread := readField_bytes_append hf (message fields)
    obtain ⟨b, bytes, hbytes⟩ := exists_cons_of_ne_nil f.bytes_ne_nil
    have hmessage : message (f :: fields) = b :: (bytes ++ message fields) := by
      rw [message_cons, hbytes, cons_append]
    rw [hbytes, cons_append] at hread
    rw [hmessage] at hk ⊢
    obtain ⟨k, rfl⟩ : ∃ k', k = k' + 1 := exists_eq_succ_of_ne_zero (by rintro rfl; simp at hk)
    rw [readFieldsUpTo, hread, bind_some, ih hfields, map_some]
    simp only [length_cons, length_append] at hk
    omega

theorem readFields_message (h : ∀ f ∈ fields, f.Valid) :
    readFields (message fields) = some fields := readFieldsUpTo_message h le_rfl

theorem length_le_length_message {bytes : List UInt8}
    (h : ⟨n, .len bytes⟩ ∈ fields) : bytes.length ≤ (message fields).length := by
  have hsub : ((⟨n, .len bytes⟩ : Field).bytes).Sublist (message fields) := by
    rw [message, flatMap_def]
    exact sublist_flatten_of_mem (mem_map_of_mem h)
  refine le_trans ?_ hsub.length_le
  simp only [Field.bytes, Payload.bytes, length_append]
  omega

theorem flatMap_eq_message {α : Type*} {N : ℕ} {put : α → List UInt8} {field : α → Field}
    (hput : ∀ a, (put a).length < N → put a = (field a).bytes) {l : List α}
    (h : (l.flatMap put).length < N) : l.flatMap put = message (l.map field) := by
  induction l with
  | nil => rfl
  | cons a l ih =>
    rw [flatMap_cons, length_append] at h
    rw [flatMap_cons, hput a (by omega), ih (by omega)]
    rfl

/-! ## Schemas -/

section Schemas

variable {α : Type}

def OnlyNumbers (numbers : List ℕ) (fields : List Field) : Prop := ∀ f ∈ fields, f.number ∈ numbers

instance (numbers : List ℕ) (fields : List Field) : Decidable (OnlyNumbers numbers fields) :=
  inferInstanceAs (Decidable (∀ f ∈ fields, f.number ∈ numbers))

def decodeMessage (numbers : List ℕ) (decode : List Field → Option α)
    (bytes : List UInt8) : Option α :=
  (readFields bytes).bind fun fields => if OnlyNumbers numbers fields then decode fields else none

def nested (decode : List UInt8 → Option α) : Payload → Option α
  | .len bytes => decode bytes
  | _ => none

def repeated (n : ℕ) (decode : Payload → Option α) (fields : List Field) : Option (List α) :=
  ((fields.filter fun f => f.number = n).map Field.payload).mapM decode

def once (n : ℕ) (decode : Payload → Option α) (fields : List Field) : Option α :=
  (repeated n decode fields).bind fun
    | [a] => some a
    | _ => none

def atMostOnce (n : ℕ) (decode : Payload → Option α) (fields : List Field) : Option (Option α) :=
  (repeated n decode fields).bind fun
    | [] => some none
    | [a] => some (some a)
    | _ => none

theorem decodeMessage_message {numbers : List ℕ} {decode : List Field → Option α}
    (hnumbers : ∀ n ∈ numbers, 0 < n ∧ n < 2 ^ 29)
    (honly : OnlyNumbers numbers fields) (hlen : (message fields).length < 2 ^ 64) :
    decodeMessage numbers decode (message fields) = decode fields := by
  have hvalid : ∀ f ∈ fields, f.Valid := by
    rintro ⟨n, payload⟩ hf
    obtain ⟨hpos, hlt⟩ := hnumbers n (honly _ hf)
    refine ⟨hpos, hlt, ?_⟩
    cases payload with
    | varint | fixed64 => trivial
    | len bytes => exact (length_le_length_message hf).trans_lt hlen
  rw [decodeMessage, readFields_message hvalid, bind_some, if_pos honly]

@[simp]
theorem repeated_nil (n : ℕ) (decode : Payload → Option α) : repeated n decode [] = some [] := rfl

theorem repeated_cons (n : ℕ) (decode : Payload → Option α) (f : Field) (fields : List Field) :
    repeated n decode (f :: fields) =
      if f.number = n then
        (decode f.payload).bind fun a => (repeated n decode fields).map (a :: ·)
          else repeated n decode fields := by
  by_cases h : f.number = n
  · simp [repeated, h, map_eq_bind, Function.comp_def]
  · simp [repeated, h]

theorem repeated_append (n : ℕ) (decode : Payload → Option α) (fields fields' : List Field) :
    repeated n decode (fields ++ fields') =
      (repeated n decode fields).bind fun as => (repeated n decode fields').map (as ++ ·) := by
  simp only [repeated, filter_append, map_append, mapM_append, map_eq_bind]
  rfl

theorem repeated_map_of_ne {β : Type} {n m : ℕ} (h : m ≠ n) (decode : Payload → Option α)
    (encode : β → Payload) (l : List β) :
    repeated n decode (l.map fun b => ⟨m, encode b⟩) = some [] := by
  induction l with
  | nil => rfl
  | cons b l ih => rw [map_cons, repeated_cons, if_neg h, ih]

theorem repeated_nested {n : ℕ} {decode : List UInt8 → Option α} {encode : α → List UInt8}
    {l : List α} (hlen : (message fields).length < 2 ^ 64)
    (hdecode : ∀ a, (encode a).length < 2 ^ 64 → decode (encode a) = some a)
    (hfields : ∀ a ∈ l, ⟨n, .len (encode a)⟩ ∈ fields) :
    repeated n (nested decode) (l.map fun a => ⟨n, .len (encode a)⟩) = some l := by
  induction l with
  | nil => rfl
  | cons a l ih =>
    obtain ⟨ha, hl⟩ := forall_mem_cons.1 hfields
    have hdec := hdecode a ((length_le_length_message ha).trans_lt hlen)
    rw [map_cons, repeated_cons, if_pos rfl, nested, hdec, ih hl]
    rfl

end Schemas

end Lib.Wire
