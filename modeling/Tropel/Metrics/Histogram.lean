import Mathlib.Data.List.Sort
import Mathlib.Data.Multiset.MapFold
import Mathlib.Data.Rat.Floor
import Tropel.Lib.Rust

/-!
# Latency histograms

A histogram counts the values of every bucket: it is the multiset of the recorded values, each
replaced by the largest one of its bucket.
-/

namespace Tropel

open Lib Option Multiset

structure Hdr where
  bucket : ℕ → ℕ
  valueAtQuantile : Multiset ℕ → ℚ → ℕ
  bucket_bucket : ∀ v, bucket (bucket v) = bucket v
  bucket_pos : ∀ {v}, 0 < v → 0 < bucket v
  valueAtQuantile_mem : ∀ {vs q}, vs ≠ 0 → 0 < q → q ≤ 1 → valueAtQuantile vs q ∈ vs

def ascending (vs : Multiset ℕ) : List ℕ :=
  Quot.liftOn vs (List.insertionSort (· ≤ ·)) fun l l' h =>
    ((List.perm_insertionSort _ l).trans
      (h.trans (List.perm_insertionSort _ l').symm)).eq_of_pairwise'
      (List.pairwise_insertionSort _ l) (List.pairwise_insertionSort _ l')

theorem coe_ascending (vs : Multiset ℕ) : (ascending vs : Multiset ℕ) = vs := by
  induction vs using Quot.inductionOn with
  | _ l => exact Quot.sound (List.perm_insertionSort _ l)

def Hdr.exact : Hdr where
  bucket := id
  valueAtQuantile vs q := (ascending vs).getD (⌈q * (Multiset.card vs : ℚ)⌉.toNat - 1) 0
  bucket_bucket _ := rfl
  bucket_pos h := h
  valueAtQuantile_mem {vs q} hvs hq hq' := by
    have hcard : 0 < (Multiset.card vs : ℚ) := Nat.cast_pos.2 (Multiset.card_pos.2 hvs)
    have hle : ⌈q * (Multiset.card vs : ℚ)⌉ ≤ (Multiset.card vs : ℤ) :=
      Int.ceil_le.2 (mul_le_of_le_one_left hcard.le hq')
    have hpos : 0 < ⌈q * (Multiset.card vs : ℚ)⌉ := Int.ceil_pos.2 (mul_pos hq hcard)
    have hlength : (ascending vs).length = Multiset.card vs :=
      congrArg Multiset.card (coe_ascending vs)
    have hlt : ⌈q * (Multiset.card vs : ℚ)⌉.toNat - 1 < (ascending vs).length := by omega
    have hmem : ∀ v ∈ ascending vs, v ∈ vs := fun v hv => coe_ascending vs ▸ Multiset.mem_coe.2 hv
    rw [List.getD_eq_getElem?_getD, List.getElem?_eq_getElem hlt, Option.getD_some]
    exact hmem _ (List.getElem_mem hlt)

structure Histogram (hdr : Hdr) where
  values : Multiset ℕ
  high : Option ℕ
  bucketed : ∀ v ∈ values, hdr.bucket v = v

namespace Histogram

variable {hdr : Hdr}

def withHigh (high : Option ℕ) : Histogram hdr := ⟨0, high, nofun⟩

def Fits (h : Histogram hdr) (v : ℕ) : Prop := ∀ high ∈ h.high, v ≤ high

instance (h : Histogram hdr) (v : ℕ) : Decidable (h.Fits v) :=
  inferInstanceAs (Decidable (∀ _ ∈ _, _))

def record (h : Histogram hdr) (v : ℕ) : Option (Histogram hdr) :=
  if h.Fits v then
    some {
      values := hdr.bucket v ::ₘ h.values
      high := h.high
      bucketed := fun w hw => (Multiset.mem_cons.1 hw).elim
        (fun hw => hw ▸ hdr.bucket_bucket v) (h.bucketed w) }
  else none

def add (h other : Histogram hdr) : Option (Histogram hdr) :=
  if ∀ v ∈ other.values, h.Fits v then
    some {
      values := h.values + other.values
      high := h.high
      bucketed := fun w hw => (Multiset.mem_add.1 hw).elim (h.bucketed w) (other.bucketed w) }
  else none

def recorded (vs : Multiset ℕ) : Histogram hdr where
  values := vs.map hdr.bucket
  high := none
  bucketed := fun w hw => by
    obtain ⟨v, _, rfl⟩ := Multiset.mem_map.1 hw
    exact hdr.bucket_bucket v

theorem map_bucket_values (h : Histogram hdr) : h.values.map hdr.bucket = h.values :=
  (map_congr rfl h.bucketed).trans (map_id' _)

end Histogram

structure HistogramStats where
  p50 : ℚ
  p90 : ℚ
  p95 : ℚ
  p99 : ℚ
  deriving DecidableEq, Inhabited

def roundNonneg (x : ℚ) : ℚ := ⌊x + 1 / 2⌋

def asU64 (x : ℚ) : ℕ := min ⌊x⌋.toNat (2 ^ 64 - 1)

@[simp]
theorem asU64_zero : asU64 0 = 0 := by simp [asU64]

abbrev LatencyHistogram (hdr : Hdr) := Histogram hdr

namespace LatencyHistogram

variable {hdr : Hdr}

def new : LatencyHistogram hdr := .withHigh none

def withBounds (low high : ℕ) : LatencyHistogram hdr :=
  if low < 1 ∨ high < min (low * 2) (2 ^ 64 - 1) then new else .withHigh (some high)

def withMax (maxMs : Option ℕ) : LatencyHistogram hdr :=
  match maxMs with
  | some high => if 2 ≤ high then withBounds 1 (min (high * 1000) (2 ^ 64 - 1)) else new
  | none => new

variable (h : LatencyHistogram hdr)

def recordUs (us : ℕ) : LatencyHistogram hdr :=
  match h.record us with
  | some h' => h'
  | none =>
    let grown := Histogram.recorded h.values
    (grown.record us).getD grown

def microseconds (ms : ℚ) : ℕ := asU64 (max (roundNonneg (max ms 0 * 1000)) 1)

def recordMs (ms : ℚ) : LatencyHistogram hdr :=
  recordUs h (microseconds ms)

def count : ℕ := Multiset.card h.values

def percentile (p : ℚ) : ℚ := hdr.valueAtQuantile h.values (p / 100) / 1000

def merge (h other : LatencyHistogram hdr) : LatencyHistogram hdr :=
  match h.add other with
  | some h' => h'
  | none => Histogram.recorded (h.values + other.values)

def statsOf (hdr : Hdr) (vs : Multiset ℕ) : HistogramStats where
  p50 := hdr.valueAtQuantile vs (50 / 100) / 1000
  p90 := hdr.valueAtQuantile vs (90 / 100) / 1000
  p95 := hdr.valueAtQuantile vs (95 / 100) / 1000
  p99 := hdr.valueAtQuantile vs (99 / 100) / 1000

def stats : HistogramStats := statsOf hdr h.values

@[simp]
theorem values_withMax (maxMs : Option ℕ) : (withMax maxMs : LatencyHistogram hdr).values = 0 := by
  cases maxMs with
  | none => rfl
  | some high =>
    rw [withMax, withBounds]
    split_ifs <;> rfl

theorem values_recordUs (us : ℕ) : (recordUs h us).values = hdr.bucket us ::ₘ h.values := by
  rw [recordUs, Histogram.record]
  split
  next h' hrec =>
    obtain ⟨_, hrec⟩ := ite_none_right_eq_some.1 hrec
    rw [← some.inj hrec]
  next =>
    have hfits : (Histogram.recorded h.values : Histogram hdr).Fits us := nofun
    simp only [Histogram.record, if_pos hfits, getD_some]
    change hdr.bucket us ::ₘ h.values.map hdr.bucket = _
    rw [h.map_bucket_values]

theorem values_merge (h other : LatencyHistogram hdr) :
    (merge h other).values = h.values + other.values := by
  rw [merge, Histogram.add]
  split
  next h' hadd =>
    obtain ⟨_, hadd⟩ := ite_none_right_eq_some.1 hadd
    rw [← some.inj hadd]
  next =>
    change (h.values + other.values).map hdr.bucket = _
    rw [map_add, h.map_bucket_values, other.map_bucket_values]

theorem microseconds_pos (ms : ℚ) : 0 < microseconds ms := by
  have h₁ : (1 : ℤ) ≤ ⌊max (roundNonneg (max ms 0 * 1000)) 1⌋ :=
    Int.le_floor.2 (by exact_mod_cast le_max_right _ _)
  rw [microseconds, asU64]
  omega

end LatencyHistogram

structure Wire (hdr : Hdr) where
  Bytes : Type
  toBytes : LatencyHistogram hdr → Bytes
  fromBytes : Bytes → Option (LatencyHistogram hdr)
  len : Bytes → ℕ
  encode : Bytes → String
  decode : String → Except String Bytes
  exists_fromBytes : ∀ h, ∃ h', fromBytes (toBytes h) = some h' ∧ h'.values = h.values
  decode_encode : ∀ b, decode (encode b) = .ok b

namespace Wire

def tally (vs : List ℕ) : Text := vs.flatMap fun v => List.replicate v '|' ++ ['.']

def readTally (n : ℕ) : Text → List ℕ
  | [] => []
  | '|' :: cs => readTally (n + 1) cs
  | _ :: cs => n :: readTally 0 cs

theorem readTally_replicate (n m : ℕ) (cs : Text) :
    readTally n (List.replicate m '|' ++ cs) = readTally (n + m) cs := by
  induction m generalizing n with
  | zero => rfl
  | succ m ih =>
    rw [List.replicate_succ, List.cons_append, readTally, ih, Nat.add_right_comm, Nat.add_assoc]

theorem readTally_tally (vs : List ℕ) : readTally 0 (tally vs) = vs := by
  induction vs with
  | nil => rfl
  | cons v vs ih =>
    rw [tally, List.flatMap_cons, List.append_assoc, readTally_replicate, ← tally, Nat.zero_add]
    change v :: readTally 0 (tally vs) = v :: vs
    rw [ih]

def tallied (hdr : Hdr) : Wire hdr where
  Bytes := List ℕ
  toBytes h := ascending h.values
  fromBytes vs := some (Histogram.recorded vs)
  len := List.length
  encode vs := String.ofList (tally vs)
  decode s := .ok (readTally 0 s.toList)
  exists_fromBytes h := by
    refine ⟨_, rfl, ?_⟩
    change Multiset.map hdr.bucket (ascending h.values) = h.values
    rw [coe_ascending, h.map_bucket_values]
  decode_encode vs := by rw [String.toList_ofList, readTally_tally]

end Wire

end Tropel
