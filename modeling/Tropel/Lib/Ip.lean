import Mathlib.Data.BitVec
import Tropel.Lib.Decimal

/-!
# IP addresses

An address is a word of 32 or of 128 bits.
-/

namespace Lib

open List Option Bool Nat

/-! ## Agreement -/

def AgreeOn {w : ℕ} (n : ℕ) (a b : BitVec w) : Prop := ∀ i < n, a.getMsbD i = b.getMsbD i

instance {w n : ℕ} (a b : BitVec w) : Decidable (AgreeOn n a b) :=
  inferInstanceAs (Decidable (∀ i < n, a.getMsbD i = b.getMsbD i))

variable {k w n m : ℕ} {t : Text} {c : Char} {ip : IpAddr} {b : BitVec 128} {a : BitVec 32}

theorem agreeOn_append (h : BitVec k) (a b : BitVec w) : AgreeOn (k + n) (h ++ a) (h ++ b) ↔
    AgreeOn n a b := by
  constructor
  · intro hab i hi
    have hbit := hab (k + i) (by omega)
    rwa [BitVec.getMsbD_append, BitVec.getMsbD_append, if_pos (by omega), if_pos (by omega),
      Nat.add_sub_cancel_left] at hbit
  · intro hab i hi
    rw [BitVec.getMsbD_append, BitVec.getMsbD_append]
    split
    · exact hab _ (by omega)
    · rfl

theorem agreeOn_append_left (h : BitVec k) (a b : BitVec w) (hn : n ≤ k) :
    AgreeOn n (h ++ a) (h ++ b) := by
  intro i hi
  rw [BitVec.getMsbD_append, BitVec.getMsbD_append, if_neg (by omega), if_neg (by omega)]

theorem eq_of_agreeOn_append {h h' : BitVec k} {a a' : BitVec w} (hn : k ≤ n)
    (hab : AgreeOn n (h ++ a) (h' ++ a')) : h = h' := by
  refine BitVec.eq_of_getMsbD_eq fun i hi => ?_
  have hbit := hab i (by omega)
  rwa [BitVec.getMsbD_append, BitVec.getMsbD_append, if_neg (by omega), if_neg (by omega)] at hbit

theorem and_mask_eq_iff (h : n ≤ w) (a b : BitVec w) :
    a &&& (BitVec.allOnes w <<< (w - n)) = b &&& (BitVec.allOnes w <<< (w - n)) ↔
      AgreeOn n a b := by
  have hmask (i : ℕ) : (BitVec.allOnes w <<< (w - n)).getMsbD i = decide (i < n) := by
    rw [BitVec.getMsbD_shiftLeft, BitVec.getMsbD_allOnes, decide_eq_decide]
    omega
  constructor
  · intro hab i hi
    have hbit := congrArg (BitVec.getMsbD · i) hab
    simpa [BitVec.getMsbD_and, hmask, hi] using hbit
  · intro hab
    refine BitVec.eq_of_getMsbD_eq fun i _ => ?_
    rw [BitVec.getMsbD_and, BitVec.getMsbD_and, hmask]
    by_cases hi : i < n
    · rw [hab i hi]
    · rw [decide_eq_false hi, Bool.and_false, Bool.and_false]

/-! ## Octets -/

def octet {n : ℕ} (a : BitVec (8 * n)) (k : ℕ) : BitVec 8 := a.extractLsb' (8 * (n - 1 - k)) 8

theorem getMsbD_octet {n k j : ℕ} (a : BitVec (8 * n)) (hk : k < n) (hj : j < 8) :
    (octet a k).getMsbD j = a.getMsbD (8 * k + j) := by
  have hi : 8 * n - (8 * (n - 1 - k) + 8 - j) = 8 * k + j := by omega
  rw [octet, BitVec.getMsbD_extractLsb', hi, decide_eq_true hj, Bool.true_and,
    decide_eq_true (by omega), Bool.true_and]

def octets {n : ℕ} (a : BitVec (8 * n)) : List (BitVec 8) := (List.range n).map (octet a)

theorem getD_octets (a : BitVec (8 * n)) (hk : k < n) : (octets a).getD k 0 = octet a k := by
  simp [octets, List.getD, hk]

theorem take_octets_eq_iff (a b : BitVec (8 * n)) (hm : m ≤ n) :
    (octets a).take m = (octets b).take m ↔ AgreeOn (8 * m) a b := by
  rw [octets, octets, ← map_take, ← map_take, take_range, min_eq_left hm]
  constructor
  · intro h i hi
    have hoctet : octet a (i / 8) = octet b (i / 8) :=
      map_inj_left.1 h (i / 8) (mem_range.2 (by omega))
    have hbit := congrArg (BitVec.getMsbD · (i % 8)) hoctet
    rwa [getMsbD_octet a (by omega) (by omega), getMsbD_octet b (by omega) (by omega), div_add_mod]
      at hbit
  · intro h
    refine map_congr_left fun k hk => BitVec.eq_of_getMsbD_eq fun j hj => ?_
    have hk := mem_range.1 hk
    rw [getMsbD_octet a (by omega) hj, getMsbD_octet b (by omega) hj]
    exact h _ (by omega)

theorem agreeOn_iff_octets {n m r : ℕ} (a b : BitVec (8 * n)) (hm : m < n) (hr : r ≤ 8) :
    AgreeOn (8 * m + r) a b ↔ AgreeOn (8 * m) a b ∧ AgreeOn r (octet a m) (octet b m) := by
  constructor
  · intro h
    refine ⟨fun i hi => h i (by omega), fun j hj => ?_⟩
    rw [getMsbD_octet a hm (by omega), getMsbD_octet b hm (by omega)]
    exact h _ (by omega)
  · rintro ⟨hwhole, hrest⟩ i hi
    by_cases hlt : i < 8 * m
    · exact hwhole i hlt
    · have hbit := hrest (i - 8 * m) (by omega)
      rwa [getMsbD_octet a hm (by omega), getMsbD_octet b hm (by omega),
        Nat.add_sub_cancel' (by omega)] at hbit

/-! ## Addresses -/

inductive IpAddr
  | v4 (bits : BitVec 32)
  | v6 (bits : BitVec 128)
  deriving DecidableEq

def mappedHead : BitVec 96 := 0xffff#96

namespace IpAddr

def isIpv4 : IpAddr → Bool
  | v4 _ => true
  | v6 _ => false

def isIpv6 : IpAddr → Bool
  | v4 _ => false
  | v6 _ => true

def width : IpAddr → ℕ
  | v4 _ => 32
  | v6 _ => 128

def bits : IpAddr → BitVec 128
  | v4 a => mappedHead ++ a
  | v6 b => b

def toCanonical : IpAddr → IpAddr
  | v4 a => v4 a
  | v6 b => if b.extractLsb' 32 96 = mappedHead then v4 (b.extractLsb' 0 32) else v6 b

variable {ip : IpAddr}

theorem bits_of_toCanonical_v4 {a : BitVec 32} (h : ip.toCanonical = v4 a) :
    ip.bits = mappedHead ++ a := by
  cases ip with
  | v4 a' =>
    cases h
    rfl
  | v6 b =>
    rw [toCanonical] at h
    split at h
    next hhead =>
      cases h
      rw [bits, ← hhead]
      exact (@BitVec.extractLsb'_append_extractLsb' 96 32 b).symm
    · cases h

theorem of_toCanonical_v6 {b : BitVec 128} (h : ip.toCanonical = v6 b) :
    ip = v6 b ∧ ∀ a : BitVec 32, b ≠ mappedHead ++ a := by
  cases ip with
  | v4 a => cases h
  | v6 b' =>
    rw [toCanonical] at h
    split at h
    · cases h
    next hhead =>
      cases h
      refine ⟨rfl, fun a ha => hhead ?_⟩
      rw [ha]
      exact BitVec.extractLsb'_append_eq_left

end IpAddr

/-! ## Reading an address -/

def toDigit (radix : ℕ) (c : Char) : Option ℕ :=
  let n := if c.isDigit then some (c.toNat - 48)
    else if 'a' ≤ c ∧ c ≤ 'f' then some (c.toNat - 87)
    else if 'A' ≤ c ∧ c ≤ 'F' then some (c.toNat - 55)
    else none
  n.filter (· < radix)

def readNumber (radix maxDigits bound : ℕ) (allowZeroStart : Bool) (t : Text) : Option (ℕ × Text) :=
  let ds := t.takeWhile fun c => (toDigit radix c).isSome
  let n := ds.foldl (fun n c => n * radix + (toDigit radix c).getD 0) 0
  if ds = [] ∨ maxDigits < ds.length then none
  else if !allowZeroStart ∧ ds.head? = some '0' ∧ 1 < ds.length then none
  else if n < bound then some (n, t.dropWhile fun c => (toDigit radix c).isSome)
  else none

def readGivenChar (c : Char) : Text → Option Text
  | [] => none
  | x :: t => if x = c then some t else none

def readSeparator {α : Type} (sep : Char) (i : ℕ) (read : Text → Option (α × Text))
    (t : Text) : Option (α × Text) :=
  if 0 < i then (readGivenChar sep t).bind read else read t

def readOctet (t : Text) : Option (ℕ × Text) := readNumber 10 3 256 false t

def readIpv4Addr (t : Text) : Option (BitVec 32 × Text) :=
  (readSeparator '.' 0 readOctet t).bind fun (a, t) =>
  (readSeparator '.' 1 readOctet t).bind fun (b, t) =>
  (readSeparator '.' 2 readOctet t).bind fun (c, t) =>
  (readSeparator '.' 3 readOctet t).map fun (d, t) =>
  (BitVec.ofNat 32 (((a * 256 + b) * 256 + c) * 256 + d), t)

def readGroups (i : ℕ) : ℕ → Text → List ℕ × Bool × Text
  | 0, t => ([], false, t)
  | n + 1, t =>
    match if 0 < n then readSeparator ':' i readIpv4Addr t else none with
    | some (a, t) => ([a.toNat / 65536, a.toNat % 65536], true, t)
    | none =>
      match readSeparator ':' i (readNumber 16 4 65536 true) t with
      | some (g, t) =>
        let (gs, ipv4, t) := readGroups (i + 1) n t
        (g :: gs, ipv4, t)
      | none => ([], false, t)

def ofGroups (gs : List ℕ) : BitVec 128 := BitVec.ofNat 128 (gs.foldl (fun n g => n * 65536 + g) 0)

def readIpv6Addr (t : Text) : Option (BitVec 128 × Text) :=
  let (head, ipv4, t) := readGroups 0 8 t
  if head.length = 8 then some (ofGroups head, t)
  else if ipv4 then none
  else (readGivenChar ':' t).bind fun t => (readGivenChar ':' t).map fun t =>
    let (tail, _, t) := readGroups 0 (7 - head.length) t
    (ofGroups (head ++ List.replicate (8 - head.length - tail.length) 0 ++ tail), t)

def readIpAddr (t : Text) : Option (IpAddr × Text) :=
  ((readIpv4Addr t).map fun (a, t) => (IpAddr.v4 a, t)).or
    ((readIpv6Addr t).map fun (b, t) => (IpAddr.v6 b, t))

def parseIp (t : Text) : Option IpAddr := ((readIpAddr t).filter fun p => p.2.isEmpty).map Prod.fst

/-! ## The characters of an address -/

theorem of_readGivenChar {t s : Text} (h : readGivenChar c t = some s) : t = c :: s := by
  cases t with
  | nil => cases h
  | cons x t =>
    rw [readGivenChar] at h
    split at h
    next hx =>
      cases h
      rw [hx]
    · cases h

def Consumes {α : Type} (p : Char → Bool) (read : Text → Option (α × Text)) : Prop :=
  ∀ t x t', read t = some (x, t') → ∃ u, t = u ++ t' ∧ ∀ c ∈ u, p c = true

namespace Consumes

variable {α β : Type} {p : Char → Bool} {read : Text → Option (α × Text)}

theorem mono {q : Char → Bool} (h : Consumes p read) (hpq : ∀ c, p c = true → q c = true) :
    Consumes q read := by
  intro t x t' hread
  obtain ⟨u, hu, hp⟩ := h t x t' hread
  exact ⟨u, hu, fun c hc => hpq c (hp c hc)⟩

theorem map (h : Consumes p read) (f : α → β) : Consumes p fun t => (read t).map fun (a, t) =>
    (f a, t) := by
  intro t x t' hread
  obtain ⟨⟨a, s⟩, hs, ha⟩ := map_eq_some_iff.1 hread
  cases ha
  exact h _ _ _ hs

theorem bind {next : α → Text → Option (β × Text)} (h : Consumes p read)
    (hnext : ∀ a, Consumes p (next a)) :
    Consumes p fun t => (read t).bind fun (a, t) => next a t := by
  intro t x t' hread
  obtain ⟨⟨a, s⟩, hs, hx⟩ := bind_eq_some_iff.1 hread
  obtain ⟨u, rfl, hu⟩ := h _ _ _ hs
  obtain ⟨v, rfl, hv⟩ := hnext a _ _ _ hx
  refine ⟨u ++ v, (append_assoc _ _ _).symm, fun c hc => ?_⟩
  exact (mem_append.1 hc).elim (hu c) (hv c)

theorem separator {sep : Char} (h : Consumes p read) (hsep : p sep = true) (i : ℕ) :
    Consumes p (readSeparator sep i read) := by
  intro t x t' hread
  rw [readSeparator] at hread
  split at hread
  · obtain ⟨s, hs, hx⟩ := bind_eq_some_iff.1 hread
    obtain rfl := of_readGivenChar hs
    obtain ⟨u, rfl, hu⟩ := h _ _ _ hx
    exact ⟨sep :: u, rfl, forall_mem_cons.2 ⟨hsep, hu⟩⟩
  · exact h _ _ _ hread

end Consumes

theorem consumes_readNumber (radix maxDigits bound : ℕ) (allowZeroStart : Bool) :
    Consumes (fun c => (toDigit radix c).isSome)
      (readNumber radix maxDigits bound allowZeroStart) := by
  intro t n t' hread
  rw [readNumber] at hread
  split at hread
  · cases hread
  split at hread
  · cases hread
  split at hread
  · cases hread
    exact ⟨_, takeWhile_append_dropWhile.symm, fun c hc =>
      mem_takeWhile_imp (p := fun c => (toDigit radix c).isSome) hc⟩
  · cases hread

def isV4Char (c : Char) : Bool := (toDigit 10 c).isSome || c = '.'

def isAddrChar (c : Char) : Bool := (toDigit 16 c).isSome || c = '.' || c = ':'

theorem isAddrChar_of_isV4Char (h : isV4Char c = true) : isAddrChar c = true := by
  rw [isAddrChar, isV4Char, toDigit, or_eq_true] at *
  grind

theorem consumes_readOctet (i : ℕ) : Consumes isV4Char (readSeparator '.' i readOctet) := by
  refine ((consumes_readNumber 10 3 256 false).mono fun c hc => ?_).separator rfl i
  rw [isV4Char, hc]
  rfl

theorem consumes_readIpv4Addr : Consumes isV4Char readIpv4Addr :=
  (consumes_readOctet 0).bind fun a => (consumes_readOctet 1).bind fun b =>
    (consumes_readOctet 2).bind fun c =>
    (consumes_readOctet 3).map fun d => BitVec.ofNat 32 (((a * 256 + b) * 256 + c) * 256 + d)

theorem consumes_group (i : ℕ) :
    Consumes isAddrChar (readSeparator ':' i (readNumber 16 4 65536 true)) := by
  refine ((consumes_readNumber 16 4 65536 true).mono fun c hc => ?_).separator rfl i
  rw [isAddrChar, hc]
  rfl

theorem exists_of_readGroups (i n : ℕ) (t : Text) :
    ∃ u, t = u ++ (readGroups i n t).2.2 ∧ ∀ c ∈ u, isAddrChar c = true := by
  induction n generalizing i t with
  | zero => exact ⟨[], rfl, nofun⟩
  | succ n ih =>
    rw [readGroups]
    split
    next a s hs =>
      split at hs
      · exact ((consumes_readIpv4Addr.mono fun _ => isAddrChar_of_isV4Char).separator rfl i) _
          _ _ hs
      · cases hs
    · split
      next g s hs =>
        obtain ⟨u, rfl, hu⟩ := consumes_group i _ _ _ hs
        obtain ⟨v, hv, hv'⟩ := ih (i + 1) s
        refine ⟨u ++ v, ?_, fun c hc => (mem_append.1 hc).elim (hu c) (hv' c)⟩
        rw [append_assoc]
        exact congrArg _ hv
      · exact ⟨[], rfl, nofun⟩

theorem head?_of_readGroups {i n : ℕ} (hi : 0 < i) (h : (readGroups i n t).1 ≠ []) :
    t.head? = some ':' := by
  have hsep {α : Type} {read : Text →
      Option (α × Text)} {x : α × Text} (hx : readSeparator ':' i read t = some x) :
      t.head? = some ':' := by
    rw [readSeparator, if_pos hi] at hx
    obtain ⟨s, hs, -⟩ := bind_eq_some_iff.1 hx
    rw [of_readGivenChar hs]
    rfl
  cases n with
  | zero => exact absurd rfl h
  | succ n =>
    rw [readGroups] at h
    split at h
    next a s hs =>
      split at hs
      · exact hsep hs
      · cases hs
    · split at h
      next g s hs => exact hsep hs
      · exact absurd rfl h

theorem colon_of_readGroups (h : (readGroups 0 8 t).1.length = 8) : ':' ∈ t := by
  rw [readGroups] at h
  split at h
  · cases h
  · split at h
    next g s hs =>
      obtain ⟨u, rfl, -⟩ := consumes_group 0 _ _ _ hs
      have hne : (readGroups 1 7 s).1 ≠ [] := by
        intro hnil
        dsimp only at h
        rw [hnil] at h
        cases h
      exact mem_append_right _ (mem_of_mem_head? (head?_of_readGroups one_pos hne))
    · cases h

theorem readIpv6Addr_spec {t t' : Text} (h : readIpv6Addr t = some (b, t')) :
    ':' ∈ t ∧ ∃ u, t = u ++ t' ∧ ∀ c ∈ u, isAddrChar c = true := by
  obtain ⟨u, hu, hu'⟩ := exists_of_readGroups 0 8 t
  rw [readIpv6Addr] at h
  dsimp only at h
  split at h
  next hlen =>
    cases h
    exact ⟨colon_of_readGroups hlen, u, hu, hu'⟩
  split at h
  · cases h
  · obtain ⟨s₁, hs₁, h⟩ := Option.bind_eq_some_iff.1 h
    obtain ⟨s₂, hs₂, h⟩ := Option.map_eq_some_iff.1 h
    obtain ⟨v, hv, hv'⟩ := exists_of_readGroups 0 (7 - (readGroups 0 8 t).1.length) s₂
    cases h
    rw [of_readGivenChar hs₁, of_readGivenChar hs₂] at hu
    refine ⟨?_, u ++ (':' :: ':' :: v), ?_, fun c hc => ?_⟩
    · rw [hu]
      exact mem_append_right _ mem_cons_self
    · rw [append_assoc, cons_append, cons_append, ← hv]
      exact hu
    · rcases mem_append.1 hc with hc | hc
      · exact hu' c hc
      · rcases mem_cons.1 hc with rfl | hc
        · rfl
        rcases mem_cons.1 hc with rfl | hc
        · rfl
        exact hv' c hc

theorem parseIp_eq_some (h : parseIp t = some ip) : readIpAddr t = some (ip, []) := by
  obtain ⟨⟨ip', t'⟩, hread, rfl⟩ := map_eq_some_iff.1 h
  obtain ⟨hread, hend⟩ := filter_eq_some_iff.1 hread
  obtain rfl : t' = [] := List.isEmpty_iff.1 hend
  exact hread

theorem of_parseIp_v4 (h : parseIp t = some (.v4 a)) : ∀ c ∈ t, isV4Char c = true := by
  rcases or_eq_some_iff.1 (parseIp_eq_some h) with h | ⟨-, h⟩
  · obtain ⟨⟨a', t'⟩, hread, hx⟩ := map_eq_some_iff.1 h
    cases hx
    obtain ⟨u, rfl, hu⟩ := consumes_readIpv4Addr _ _ _ hread
    rwa [append_nil]
  · obtain ⟨⟨b, t'⟩, -, hx⟩ := map_eq_some_iff.1 h
    cases hx

theorem of_parseIp_v6 (h : parseIp t = some (.v6 b)) : ':' ∈ t ∧ ∀ c ∈ t, isAddrChar c = true := by
  rcases or_eq_some_iff.1 (parseIp_eq_some h) with h | ⟨-, h⟩
  · obtain ⟨⟨a, t'⟩, -, hx⟩ := map_eq_some_iff.1 h
    cases hx
  · obtain ⟨⟨b', t'⟩, hread, hx⟩ := map_eq_some_iff.1 h
    cases hx
    obtain ⟨hcolon, u, rfl, hu⟩ := readIpv6Addr_spec hread
    exact ⟨hcolon, by rwa [append_nil]⟩

theorem isAddrChar_of_parseIp (h : parseIp t = some ip) : ∀ c ∈ t, isAddrChar c = true := by
  cases ip with
  | v4 a => exact fun c hc => isAddrChar_of_isV4Char (of_parseIp_v4 h c hc)
  | v6 b => exact (of_parseIp_v6 h).2

theorem isDigit_of_toDigit (h : (toDigit 10 c).isSome = true) : c.isDigit = true := by
  by_contra hd
  rw [toDigit, if_neg hd] at h
  obtain ⟨n, hn⟩ := isSome_iff_exists.1 h
  obtain ⟨hn, hlt⟩ := filter_eq_some_iff.1 hn
  have hlt : n < 10 := of_decide_eq_true hlt
  -- The values of letters are too large.
  split at hn
  next ha =>
    have hle : 97 ≤ c.toNat := ha.1
    cases hn
    omega
  · split at hn
    next ha =>
      have hle : 65 ≤ c.toNat := ha.1
      cases hn
      omega
    · cases hn

theorem isAlpha_of_isV4Char (h : isV4Char c = true) : c.isAlpha = false := by
  rw [isV4Char, or_eq_true, decide_eq_true_eq] at h
  rcases h with h | rfl
  · have hle := toNat_of_isDigit (isDigit_of_toDigit h)
    rw [eq_false_iff, Ne, isAlpha_iff]
    omega
  · decide

theorem parseIp_toAsciiLowercase_v4 : parseIp (toAsciiLowercase t) = some (.v4 a) ↔
    parseIp t = some (.v4 a) := by
  have hlower (h : ∀ c ∈ t, c.isAlpha = false) : toAsciiLowercase t = t :=
    (map_congr_left fun c hc => toLower_of_not_isAlpha (h c hc)).trans (List.map_id t)
  constructor
  · intro h
    rwa [hlower fun c hc => ?_] at h
    have halpha := isAlpha_of_isV4Char (of_parseIp_v4 h c.toLower (mem_map_of_mem hc))
    rwa [isAlpha_toLower] at halpha
  · intro h
    rwa [hlower fun c hc => isAlpha_of_isV4Char (of_parseIp_v4 h c hc)]

def hostAddr : Text → Option IpAddr
  | '[' :: t => ((stripSuffix ']' t).bind parseIp).filter IpAddr.isIpv6
  | t => (parseIp t).filter IpAddr.isIpv4

theorem parseIp_of_hostAddr (h : hostAddr t = some ip) :
    parseIp ((t.dropWhile (· = '[')).rdropWhile (· = ']')) = some ip := by
  have hstart {s r : Text} (hs : parseIp s = some ip) (hr : '[' ∉ r) :
      (s ++ r).dropWhile (· = '[') = s ++ r := by
    refine dropWhile_eq_self_iff.2 fun hlen hhead => ?_
    have hmem := mem_append.1 (of_decide_eq_true hhead ▸ getElem_mem hlen)
    exact absurd (isAddrChar_of_parseIp hs _ (hmem.resolve_right hr)) (by decide)
  have hend {s : Text} (hs : parseIp s = some ip) : s.rdropWhile (· = ']') = s := by
    refine rdropWhile_eq_self_iff.2 fun hne hlast => ?_
    have hmem : ']' ∈ s := of_decide_eq_true hlast ▸ getLast_mem hne
    exact absurd (isAddrChar_of_parseIp hs _ hmem) (by decide)
  unfold hostAddr at h
  split at h
  next t =>
    obtain ⟨s, hs, hip⟩ := bind_eq_some_iff.1 (filter_eq_some_iff.1 h).1
    rw [stripSuffix] at hs
    split at hs
    next hlast =>
      cases hs
      rw [← dropLast_append_getLast? _ hlast, dropWhile_cons_of_pos rfl,
        hstart hip (by decide), rdropWhile_concat_pos _ _ _ rfl, hend hip, hip]
    · cases hs
  · have hip := (filter_eq_some_iff.1 h).1
    have hbare := hstart hip not_mem_nil
    rw [append_nil] at hbare
    rw [hbare, hend hip, hip]

def parseU8 (t : Text) : Option ℕ :=
  let digits := match t with
    | '+' :: c :: t => c :: t
    | t => t
  if digits = [] then none else (parseDigits 0 digits).filter (· < 256)

end Lib
