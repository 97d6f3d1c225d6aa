import Tropel.Core.Segment
import Tropel.Lib.Shares

/-!
# Sequences of segments and their stripes

A sequence of segments covers the unit workload: each node runs one of them.
-/

namespace Tropel

open Lib

namespace ExecutionSegment

def gcd (a b : ℤ) : ℤ := if b = 0 then |a| else gcd b (a.tmod b)
termination_by b.natAbs
decreasing_by
  rw [Int.natAbs_tmod]
  exact Nat.mod_lt _ (Int.natAbs_pos.2 ‹_›)

def lengthRat (seg : ExecutionSegment) : ℤ × ℤ :=
  let num := seg.toNum * seg.fromDen - seg.fromNum * seg.toDen
  let den := seg.toDen * seg.fromDen
  let g := gcd num den
  (num.tdiv g, den.tdiv g)

end ExecutionSegment

structure ExecutionSegmentSequence where
  segments : List ExecutionSegment
  deriving DecidableEq

variable (seq : ExecutionSegmentSequence)

namespace ExecutionSegmentSequence

def parts : List (ℚ × ℚ) := seq.segments.map fun s => (s.lo, s.hi)

/-- The segments cover the unit workload: the first starts at `0`, every other one
    where the one before it ends, and the last ends at `1`. (So there is at least
    one.) -/
def Full : Prop := Tight (seams 0 seq.parts)

instance (seq : ExecutionSegmentSequence) : Decidable seq.Full :=
  inferInstanceAs (Decidable (Tight _))

def lcdStep (acc n : ℤ) : ℤ :=
  if acc = n ∨ acc.tmod n = 0 then acc else acc * n.tdiv (ExecutionSegment.gcd acc n)

def lcd : ℤ :=
  match seq.segments with
  | [] => 1
  | seg :: segs => (segs.map fun s => s.lengthRat.2).foldl lcdStep seg.lengthRat.2

def parseFrom (prev : ℤ × ℤ) : List Text → Result TropelError (List ExecutionSegment)
  | [] => return []
  | tok :: toks => do
    let cur ← ExecutionSegment.parseFraction tok
    let seg ← ExecutionSegment.new prev.1 prev.2 cur.1 cur.2
    return seg :: (← parseFrom cur toks)

def parse (sequence : String) : Result TropelError ExecutionSegmentSequence := do
  let _ ← ExecutionSegment.parseSequence sequence.toList
  match (sequence.toList.splitOn ',').map trim with
  | [] => .error .panic
  | tok :: toks =>
    let prev ← ExecutionSegment.parseFraction tok
    return ⟨← parseFrom prev toks⟩

def indexOf (seg : ExecutionSegment) : Option ℕ :=
  seq.segments.findIdx? fun s => |s.lo - seg.lo| < ExecutionSegment.tolerance &&
    |s.hi - seg.hi| < ExecutionSegment.tolerance

end ExecutionSegmentSequence

/-! ## Striping -/

structure ExecutionSegmentSequenceWrapper where
  lcd : ℤ
  offsets : List (List ℤ)
  deriving DecidableEq

structure StripeState where
  offsets : List (List ℤ)
  prev : List ℤ
  chosenCounts : List ℤ
  deriving DecidableEq

variable (w : ExecutionSegmentSequenceWrapper)

namespace ExecutionSegmentSequenceWrapper

def items : List (ℤ × ℕ) :=
  (seq.segments.zipIdx.map fun p =>
    let (ln, ld) := p.1.lengthRat
    (ln * seq.lcd.tdiv ld, p.2)).insertionSort fun a b => b.1 ≤ a.1

def eligible (lcd gi chosen denom : ℤ) : Bool :=
  let num := chosen * lcd
  denom ≠ 0 && (gi > num.tdiv denom || (gi = num.tdiv denom && num.tmod denom = 0))

def claimant (items : List (ℤ × ℕ)) (lcd gi : ℤ) (st : StripeState) : Option ℕ :=
  (st.chosenCounts.zip items).findIdx? fun p => eligible lcd gi p.1 p.2.1

def claim (items : List (ℤ × ℕ)) (lcd gi : ℤ) (st : StripeState) (sortedIndex : ℕ) : StripeState :=
  let (denom, idx) := items.getD sortedIndex (0, 0)
  let gaps := st.offsets.getD idx [] ++ [gi - st.prev.getD idx 0]
  -- After its last tick of the cycle, the gap to its first one of the next.
  let gaps := if (gaps.length : ℤ) = denom then gaps ++ [gaps.headD 0 + lcd - gi] else gaps
  { offsets := st.offsets.set idx gaps
    prev := st.prev.set idx gi
    chosenCounts := st.chosenCounts.set sortedIndex (st.chosenCounts.getD sortedIndex 0 + 1) }

def stripe (items : List (ℤ × ℕ)) (lcd : ℤ) (st : StripeState) (gi : ℕ) : StripeState :=
  match claimant items lcd gi st with
  | none => st
  | some sortedIndex => claim items lcd gi st sortedIndex

def new : Result TropelError ExecutionSegmentSequenceWrapper :=
  match seq.segments.head?, seq.segments.getLast? with
  | some first, some last =>
    if first.fromNum = 0 ∧ last.toNum = last.toDen then
      let n := seq.segments.length
      let init : StripeState :=
        { offsets := .replicate n [], prev := .replicate n 0, chosenCounts := .replicate n 0 }
      let st := (List.range seq.lcd.toNat).foldl (stripe (items seq) seq.lcd) init
      .ok { lcd := seq.lcd, offsets := st.offsets }
    else configError "striped-offset sequence must be full (start at 0, end at 1)"
  | _, _ => configError "cannot build striped offsets from an empty segment sequence"

def getStripedOffsets (segmentIndex : ℕ) : Option (ℤ × List ℤ × ℤ) :=
  match w.offsets[segmentIndex]? with
  | some (start :: offsets) => some (start, offsets, w.lcd)
  | _ => none

end ExecutionSegmentSequenceWrapper

/-! ## Walking a stripe -/

structure SegmentedIndex where
  start : ℤ
  lcd : ℤ
  offsets : List ℤ
  scaled : ℕ
  unscaled : ℤ
  deriving DecidableEq

namespace SegmentedIndex

def advance (idx : SegmentedIndex) : Option SegmentedIndex :=
  if idx.scaled = 0 then
    some { idx with scaled := 1, unscaled := idx.unscaled + (idx.start + 1) }
  else (idx.offsets[(idx.scaled - 1) % idx.offsets.length]?).map fun offset =>
    { idx with scaled := idx.scaled + 1, unscaled := idx.unscaled + offset }

def walk (idx : SegmentedIndex) : ℕ → Option SegmentedIndex
  | 0 => some idx
  | n + 1 => (walk idx n).bind advance

def Yields (idx : SegmentedIndex) (unscaled : ℤ) : Prop :=
  ∃ n idx', idx.walk (n + 1) = some idx' ∧ idx'.unscaled = unscaled

end SegmentedIndex

def ExecutionSegmentSequenceWrapper.segmentedIndex (segmentIndex : ℕ) : Option SegmentedIndex :=
  (w.getStripedOffsets segmentIndex).map fun (start, offsets, lcd) =>
    { start, lcd, offsets, scaled := 0, unscaled := 0 }

structure ArrivalStripe where
  index : SegmentedIndex
  nextOwned : ℤ
  released : ℕ
  deriving DecidableEq

namespace ArrivalStripe

def fromIndex (index : SegmentedIndex) : Option ArrivalStripe :=
  index.advance.map fun index => { index, nextOwned := index.unscaled, released := 0 }

def full : Option ArrivalStripe :=
  fromIndex { start := 0, lcd := 1, offsets := [1], scaled := 0, unscaled := 0 }

def dueByLoop (globalArrivals : ℕ) : ℕ → ArrivalStripe → Option ArrivalStripe
  | 0, _ => none
  | fuel + 1, st =>
    if st.nextOwned > 0 ∧ st.nextOwned ≤ globalArrivals then
      st.index.advance.bind fun index =>
        dueByLoop globalArrivals fuel
          { index, nextOwned := index.unscaled, released := st.released + 1 }
    else some st

def dueBy (st : ArrivalStripe) (globalArrivals : ℕ) : Option (ArrivalStripe × ℕ) :=
  (dueByLoop globalArrivals (globalArrivals + 1) st).map fun st => (st, st.released)

end ArrivalStripe

def ExecutionSegmentSequenceWrapper.arrivalStripe (segmentIndex : ℕ) : Option ArrivalStripe :=
  (w.segmentedIndex segmentIndex).bind ArrivalStripe.fromIndex

end Tropel
