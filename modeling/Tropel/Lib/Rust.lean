import Mathlib.Data.List.DropRight
import Mathlib.Data.List.Forall2
import Mathlib.Tactic.Linarith

/-!
# Rust, as far as the model needs it
-/

namespace Lib

open List

/-! ## Results -/

inductive Fault (E : Type)
  | err (e : E)
  | panic
  deriving DecidableEq, Repr

abbrev Result (E α : Type) := Except (Fault E) α

def okOr {E α : Type} (o : Option α) (e : E) : Result E α :=
  match o with
  | some a => .ok a
  | none => .error (.err e)

variable {ε α β E : Type} {f : α → Except ε β} {l : List α} {x a b : ℤ} {l' : List β} {g : α → β}
  {t : Text} {e : ε}

theorem bind_eq_ok {x : Except ε α} {b : β} : x >>= f = .ok b ↔ ∃ a, x = .ok a ∧ f a = .ok b := by
  cases x with
  | error e => exact ⟨nofun, nofun⟩
  | ok a => exact ⟨fun h => ⟨a, rfl, h⟩, fun ⟨_, ha, h⟩ => Except.ok.inj ha ▸ h⟩

theorem bind_eq_error {x : Except ε α} : x >>= f = .error e ↔ x = .error e ∨ ∃ a, x = .ok a ∧
    f a = .error e := by
  cases x with
  | error e' => exact ⟨fun h => .inl (congrArg _ (Except.error.inj h)),
      fun h => h.elim (fun h => congrArg _ (Except.error.inj h)) nofun⟩
  | ok a => exact ⟨fun h => .inr ⟨a, rfl, h⟩,
      fun h => h.elim nofun fun ⟨_, ha, h⟩ => Except.ok.inj ha ▸ h⟩

theorem mapError_eq_ok {ε ε' α : Type} {x : Except ε α} {f : ε → ε'} {a : α} :
    x.mapError f = .ok a ↔ x = .ok a := by
  cases x <;> simp [Except.mapError]

theorem map_eq_ok {x : Except ε α} {f : α → β} {b : β} :
    x.map f = .ok b ↔ ∃ a, x = .ok a ∧ f a = b := by
  cases x <;> simp [Except.map]

theorem exists_of_mapM_eq_error (h : l.mapM f = .error e) : ∃ a ∈ l, f a = .error e := by
  induction l with
  | nil => cases h
  | cons a l ih =>
    rw [mapM_cons, bind_eq_error] at h
    obtain ha | ⟨b, -, h⟩ := h
    · exact ⟨a, mem_cons_self, ha⟩
    obtain hl | ⟨l', -, h⟩ := bind_eq_error.1 h
    · obtain ⟨a', ha', h'⟩ := ih hl
      exact ⟨a', mem_cons_of_mem _ ha', h'⟩
    · cases h

theorem exists_of_mapM_eq_ok {f : α → Result E β}
    (h : l.mapM f = .ok l') {b : β} (hb : b ∈ l') : ∃ a ∈ l, f a = .ok b := by
  induction l generalizing l' with
  | nil =>
    cases h
    cases hb
  | cons a l ih =>
    rw [mapM_cons] at h
    obtain ⟨b', hb', h⟩ := bind_eq_ok.1 h
    obtain ⟨l'', hl'', h⟩ := bind_eq_ok.1 h
    cases h
    rcases mem_cons.1 hb with rfl | hb
    · exact ⟨a, mem_cons_self, hb'⟩
    · obtain ⟨a', ha', hfa'⟩ := ih hl'' hb
      exact ⟨a', mem_cons_of_mem _ ha', hfa'⟩

theorem exists_of_mapM_eq_some {f : α → Option β}
    (h : l.mapM f = some l') {b : β} (hb : b ∈ l') : ∃ a ∈ l, f a = some b := by
  induction l generalizing l' with
  | nil =>
    cases h
    cases hb
  | cons a l ih =>
    rw [mapM_cons] at h
    obtain ⟨b', hb', h⟩ := Option.bind_eq_some_iff.1 h
    obtain ⟨l'', hl'', h⟩ := Option.bind_eq_some_iff.1 h
    cases h
    rcases mem_cons.1 hb with rfl | hb
    · exact ⟨a, mem_cons_self, hb'⟩
    · obtain ⟨a', ha', hfa'⟩ := ih hl'' hb
      exact ⟨a', mem_cons_of_mem _ ha', hfa'⟩

theorem mapM_eq_some_map {f : α → Option β} (h : ∀ a ∈ l, f a = some (g a)) :
    l.mapM f = some (l.map g) := by
  induction l with
  | nil => rfl
  | cons a l ih =>
    rw [forall_mem_cons] at h
    rw [mapM_cons, h.1, ih h.2]
    rfl

theorem exists_mem_of_forall₂ {α β : Type*} {R : α → β → Prop} {l : List α} {l' : List β}
    (h : List.Forall₂ R l l') {a : α} (ha : a ∈ l) : ∃ b ∈ l', R a b := by
  induction h with
  | nil => cases ha
  | cons hab _ ih =>
    rcases mem_cons.1 ha with rfl | ha
    · exact ⟨_, mem_cons_self, hab⟩
    · obtain ⟨b, hb, hr⟩ := ih ha
      exact ⟨b, mem_cons_of_mem _ hb, hr⟩

theorem mapM_eq_ok_of_forall₂ (h : List.Forall₂ (fun a b => f a = .ok b) l l') :
    l.mapM f = .ok l' := by
  induction h with
  | nil => rfl
  | cons ha _ ih =>
    rw [mapM_cons]
    exact bind_eq_ok.2 ⟨_, ha, bind_eq_ok.2 ⟨_, ih, rfl⟩⟩

theorem mapM_eq_ok_map (h : ∀ a ∈ l, f a = .ok (g a)) : l.mapM f = .ok (l.map g) :=
  mapM_eq_ok_of_forall₂ (forall₂_map_right_iff.2 (forall₂_same.2 h))

theorem exists_eq_ok_of_mapM_eq_ok (h : l.mapM f = .ok l') : ∀ a ∈ l, ∃ b, f a = .ok b := by
  induction l generalizing l' with
  | nil => exact forall_mem_nil _
  | cons a l ih =>
    rw [mapM_cons] at h
    obtain ⟨b, hb, h⟩ := bind_eq_ok.1 h
    obtain ⟨bs, hbs, -⟩ := bind_eq_ok.1 h
    exact forall_mem_cons.2 ⟨⟨b, hb⟩, ih hbs⟩

theorem eq_ok_of_forM_eq_ok {f : α → Except ε Unit} (h : l.forM f = .ok ()) :
    ∀ a ∈ l, f a = .ok () := by
  induction l with
  | nil => exact forall_mem_nil _
  | cons a l ih =>
    rw [List.forM] at h
    obtain ⟨⟨⟩, ha, h⟩ := bind_eq_ok.1 h
    exact forall_mem_cons.2 ⟨ha, ih h⟩

theorem okOr_eq_ok {o : Option α} {e : E} {a : α} : okOr o e = .ok a ↔ o = some a := by
  cases o <;> simp [okOr]

/-! ## Machine integers -/

def min64 : ℤ := -2 ^ 63

def wrap64 (x : ℤ) : ℤ := (x + 2 ^ 63) % 2 ^ 64 - 2 ^ 63

def InI64 (x : ℤ) : Prop := -2 ^ 63 ≤ x ∧ x < 2 ^ 63

instance (x : ℤ) : Decidable (InI64 x) := inferInstanceAs (Decidable (_ ∧ _))

theorem wrap64_inI64 (x : ℤ) : InI64 (wrap64 x) := by
  rw [wrap64, InI64]
  have := Int.emod_nonneg (x + 2 ^ 63) (b := 2 ^ 64) (by norm_num)
  have := Int.emod_lt_of_pos (x + 2 ^ 63) (b := 2 ^ 64) (by norm_num)
  omega

theorem wrap64_of_inI64 (h : InI64 x) : wrap64 x = x := by
  rw [InI64] at h
  rw [wrap64, Int.emod_eq_of_lt (by omega) (by omega)]
  omega

theorem wrap64_eq (h₀ : 0 ≤ x) (h : x < 2 ^ 63) : wrap64 x = x := wrap64_of_inI64 ⟨by omega, h⟩

def wrapped64 {E : Type} (x : ℤ) : Result E ℤ := .ok (wrap64 x)

theorem wrapped64_eq (h₀ : 0 ≤ x) (h : x < 2 ^ 63) : wrapped64 (E := E) x = .ok x := by
  rw [wrapped64, wrap64_eq h₀ h]

def div64 {E : Type} (a b : ℤ) : Result E ℤ :=
  if b = 0 ∨ (a = min64 ∧ b = -1) then .error .panic else .ok (a.tdiv b)

theorem div64_inI64 {a b q : ℤ} (ha : InI64 a) (h : div64 (E := E) a b = .ok q) : InI64 q := by
  rw [div64] at h
  split at h
  · cases h
  next hb =>
    cases h
    rw [InI64, min64] at *
    have hq : (a.tdiv b).natAbs = a.natAbs / b.natAbs := Int.natAbs_tdiv a b
    -- Only a divisor of absolute value `1` keeps the absolute value.
    by_cases h₁ : b.natAbs = 1
    · obtain rfl | rfl : b = 1 ∨ b = -1 := by omega
      · simpa using ha
      · rw [Int.tdiv_neg, Int.tdiv_one]
        omega
    · have : a.natAbs / b.natAbs ≤ a.natAbs / 2 := Nat.div_le_div_left (by omega) (by omega)
      omega

def rem64 {E : Type} (a b : ℤ) : Result E ℤ :=
  if b = 0 ∨ (a = min64 ∧ b = -1) then .error .panic else .ok (a.tmod b)

def checked64 {E : Type} (x : ℤ) : Result E ℤ := if InI64 x then .ok x else .error .panic

theorem checked64_eq (h₀ : 0 ≤ x) (h : x < 2 ^ 63) : checked64 (E := E) x = .ok x :=
  if_pos ⟨by omega, h⟩

theorem checked64_eq_ok {x y : ℤ} : checked64 (E := E) x = .ok y ↔ InI64 x ∧ x = y := by
  rw [checked64]
  split
  next h => rw [and_iff_right h, Except.ok.injEq]
  next h => exact iff_of_false nofun fun h' => h h'.1

theorem div64_eq (hb : 0 < b) : div64 (E := E) a b = .ok (a.tdiv b) :=
  if_neg (by omega)

theorem rem64_eq (hb : 0 < b) : rem64 (E := E) a b = .ok (a.tmod b) :=
  if_neg (by omega)

/-- Euclid's algorithm in `i64`. Of the results only the absolute value can be out of range, and
    `narrow` is what becomes of it. -/
def gcd64 {E : Type} (narrow : ℤ → Result E ℤ) (a b : ℤ) : Result E ℤ :=
  if b = 0 then narrow |a|
  else if a = min64 ∧ b = -1 then .error .panic
  else gcd64 narrow b (a.tmod b)
termination_by b.natAbs
decreasing_by
  rw [Int.natAbs_tmod]
  exact Nat.mod_lt _ (Int.natAbs_pos.2 ‹_›)

theorem gcd_tmod (a b : ℤ) : Int.gcd b (a.tmod b) = Int.gcd a b := by
  rw [Int.gcd, Int.natAbs_tmod, Int.gcd, Nat.gcd_comm, ← Nat.gcd_rec, Nat.gcd_comm]

theorem gcd64_eq_of_ok {narrow narrow' : ℤ → Result E ℤ} {a b g : ℤ}
    (h : gcd64 narrow a b = .ok g) : gcd64 narrow' a b = narrow' (Int.gcd a b) := by
  induction a, b using gcd64.induct with
  | case1 a => rw [gcd64, if_pos rfl, Int.gcd_zero_right, Int.natCast_natAbs]
  | case2 a b hb hpanic =>
    rw [gcd64, if_neg hb, if_pos hpanic] at h
    cases h
  | case3 a b hb hpanic ih =>
    rw [gcd64, if_neg hb, if_neg hpanic] at h
    rw [gcd64, if_neg hb, if_neg hpanic, ih h, gcd_tmod]

theorem gcd64_of_nonneg (narrow : ℤ → Result E ℤ) {a b : ℤ} (ha : 0 ≤ a) (hb : 0 ≤ b) :
    gcd64 narrow a b = narrow (Int.gcd a b) := by
  induction a, b using gcd64.induct with
  | case1 a => rw [gcd64, if_pos rfl, Int.gcd_zero_right, Int.natCast_natAbs]
  | case2 a b _ hpanic => omega
  | case3 a b hb₀ hpanic ih =>
    rw [gcd64, if_neg hb₀, if_neg hpanic, ih hb (Int.tmod_nonneg b ha), gcd_tmod]

theorem gcd_lt_of_pos (a : ℤ) (hpos : 0 < b) (hlt : b < 2 ^ 63) : (Int.gcd a b : ℤ) < 2 ^ 63 :=
  (Int.le_of_dvd hpos (Int.gcd_dvd_right a b)).trans_lt hlt

/-! ## Text -/

abbrev Text := List Char

instance : Coe String Text := ⟨String.toList⟩

instance : LawfulBEq Text := inferInstance

def isWhitespace (c : Char) : Bool :=
  let n := c.toNat
  (9 ≤ n && n ≤ 13) || n = 32 || n = 0x85 || n = 0xA0 || n = 0x1680 ||
    (0x2000 ≤ n && n ≤ 0x200A) || n = 0x2028 || n = 0x2029 || n = 0x202F || n = 0x205F ||
    n = 0x3000

def trim (t : Text) : Text := (t.dropWhile isWhitespace).rdropWhile isWhitespace

def splitOnce (c : Char) : Text → Option (Text × Text)
  | [] => none
  | x :: t => if x = c then some ([], t) else (splitOnce c t).map fun p => (x :: p.1, p.2)

def stripSuffix (c : Char) (t : Text) : Option Text :=
  if t.getLast? = some c then some t.dropLast else none

def byteLen (t : Text) : ℕ := (t.map Char.utf8Size).sum

theorem byteLen_append (a b : Text) : byteLen (a ++ b) = byteLen a + byteLen b := by
  rw [byteLen, map_append, sum_append]
  rfl

theorem byteLen_pos (h : t ≠ []) : 0 < byteLen t := by
  cases t with
  | nil => exact absurd rfl h
  | cons c t =>
    have hc := c.utf8Size_pos
    rw [byteLen, map_cons, sum_cons]
    omega

def parseDigits (acc : ℕ) : Text → Option ℕ
  | [] => some acc
  | c :: t => if c.isDigit then parseDigits (acc * 10 + (c.toNat - 48)) t else none

def parseInt : Text → Option ℤ
  | [] => none
  | [c] => if c.isDigit then some (c.toNat - 48 : ℕ) else none
  | c :: t =>
    if c = '-' then (parseDigits 0 t).map fun n => -(n : ℤ)
    else if c = '+' then (parseDigits 0 t).map fun n => (n : ℤ)
    else (parseDigits 0 (c :: t)).map fun n => (n : ℤ)

def parseI64 (t : Text) : Option ℤ := (parseInt t).filter fun n => InI64 n

theorem parseI64_inI64 {n : ℤ} (h : parseI64 t = some n) : InI64 n := by
  rw [parseI64, Option.filter_eq_some_iff] at h
  exact of_decide_eq_true h.2

end Lib
