import Mathlib.Data.Rat.Floor
import Tropel.Lib.Rust

/-!
# Execution segments

A *segment* is a part `[from, to)` of the unit workload: its node gets the fraction `to - from` of
the virtual users, the iterations and the arrival rate.
-/

namespace Tropel

open Lib

inductive TropelError
  | config (msg : String)
  | http (msg : String)
  | http2 (msg : String)
  | execution (msg : String)
  deriving DecidableEq, Repr

def configError {α : Type} (msg : String) : Result TropelError α := .error (.err (.config msg))

structure ExecutionSegment where
  fromNum : ℤ
  fromDen : ℤ
  toNum : ℤ
  toDen : ℤ
  fromNum_nonneg : 0 ≤ fromNum
  fromDen_pos : 0 < fromDen
  toDen_pos : 0 < toDen
  from_lt_to : fromNum * toDen < toNum * fromDen
  to_le_one : toNum ≤ toDen
  deriving DecidableEq

namespace ExecutionSegment

def new (fromNum fromDen toNum toDen : ℤ) : Result TropelError ExecutionSegment :=
  if h₁ : fromNum < 0 ∨ fromDen ≤ 0 ∨ toNum < 0 ∨ toDen ≤ 0 then
    configError ("execution segment bounds must be non-negative: " ++
      s!"{fromNum}/{fromDen}..{toNum}/{toDen}")
  else if h₂ : fromNum * toDen ≥ toNum * fromDen then
    configError ("execution segment must be non-empty (from < to): " ++
      s!"{fromNum}/{fromDen}..{toNum}/{toDen}")
  else if h₃ : fromNum > fromDen ∨ toNum > toDen then
    configError ("execution segment bounds must be within [0, 1]: " ++
      s!"{fromNum}/{fromDen}..{toNum}/{toDen}")
  else
    .ok {
      fromNum, fromDen, toNum, toDen
      fromNum_nonneg := by omega
      fromDen_pos := by omega
      toDen_pos := by omega
      from_lt_to := by omega
      to_le_one := by omega }

/-! ## Parsing -/

section

variable (narrow : ℤ → Result TropelError ℤ) (narrowLen : ℕ → Result TropelError ℕ)

def reduced (num den : ℤ) : Result TropelError (ℤ × ℤ) := do
  let g ← gcd64 narrow num den
  return (← div64 num g, ← div64 den g)

/-- The fraction of a text, with what becomes of the results of `i64` operations, and of the
    length of a text as a `u32`. -/
def parseFractionIn (s : Text) : Result TropelError (ℤ × ℤ) :=
  let s := trim s
  if s = [] then configError "empty execution segment fraction"
  else match splitOnce '/' s with
  | some (num, den) => do
    let n ← okOr (parseI64 (trim num)) (.config s!"invalid segment numerator '{String.ofList num}'")
    let d ← okOr (parseI64 (trim den))
        (.config s!"invalid segment denominator '{String.ofList den}'")
    if d = 0 then configError "division by zero in segment"
    else reduced narrow n d
  | none => match stripSuffix '%' s with
    | some pct => do
      let n ← okOr (parseI64 (trim pct)) (.config s!"invalid percentage '{String.ofList pct}'")
      reduced narrow n 100
    | none => match splitOnce '.' s with
      | some (intPart, fracPart) => do
        let invalid := TropelError.config s!"invalid segment fraction '{String.ofList s}'"
        let intNum ← okOr (parseI64 intPart) invalid
        let fracDigits ← narrowLen (byteLen fracPart)
        let den ← narrow (10 ^ fracDigits)
        let fracNum ← okOr (if fracPart = [] then some 0 else parseI64 fracPart) invalid
        let scaled ← narrow (intNum * den)
        let num ← narrow (scaled + fracNum)
        reduced narrow num den
      | none => do
        let n ← okOr (parseI64 s) (.config s!"invalid segment fraction '{String.ofList s}'")
        return (n, 1)

end

/-- In a release build. -/
def parseFraction : Text → Result TropelError (ℤ × ℤ) :=
  parseFractionIn wrapped64 fun n => .ok (n % 2 ^ 32)

def tolerance : ℚ := 1 / 10 ^ 9

def parseSequence (sequence : Text) : Result TropelError (List ℚ) := do
  let parts := (sequence.splitOn ',').map trim
  let shown := String.ofList sequence
  if parts.length < 2 then
    configError s!"execution segment sequence needs at least 2 boundaries: '{shown}'"
  else
    let fractions ← parts.mapM parseFraction
    let bounds : List ℚ := fractions.map fun p => p.1 / p.2
    if |bounds.headD 0| > tolerance then
      configError s!"execution segment sequence must start at 0: '{shown}'"
    else if |bounds.getLastD 0 - 1| > tolerance then
      configError s!"execution segment sequence must end at 1: '{shown}'"
    else if ¬bounds.IsChain (· < ·) then
      configError s!"execution segment sequence must be strictly ascending: '{shown}'"
    else .ok bounds

variable (seg : ExecutionSegment)

def lo : ℚ := seg.fromNum / seg.fromDen

def hi : ℚ := seg.toNum / seg.toDen

def parse (display : ℚ → String) (segment : String) (sequence : Option String) :
    Result TropelError ExecutionSegment :=
  match splitOnce ':' segment.toList with
  | none => configError
      s!"invalid execution segment '{segment}' — expected 'from:to' e.g. '0:1/3'"
  | some (fromS, toS) => do
    let (fromNum, fromDen) ← parseFraction fromS
    let (toNum, toDen) ← parseFraction toS
    let seg ← new fromNum fromDen toNum toDen
    match sequence with
    | none => return seg
    | some seq =>
      let bounds ← parseSequence seq.toList
      let fromIdx := bounds.findIdx? fun b => |b - seg.lo| < tolerance
      let toIdx := bounds.findIdx? fun b => |b - seg.hi| < tolerance
      let (fromS, toS) := (String.ofList fromS, String.ofList toS)
      match fromIdx, toIdx with
      | some i, some j =>
        if j = i + 1 then return seg
        else match bounds[i + 1]? with
          -- The message shows the boundary after the lower bound, which the last one has not.
          | none => .error .panic
          | some b =>
            configError (s!"execution segment {fromS}..{toS} skips sequence boundary " ++
              s!"'{display b}' — segments must be consecutive pairs of the sequence '{seq}'")
      | _, _ =>
        configError s!"execution segment bounds {fromS}..{toS} not found in sequence '{seq}'"

/-! ## Scaling -/

def fraction : ℚ := seg.hi - seg.lo

def scaled (n : ℕ) : ℤ :=
  (n * seg.toNum).tdiv seg.toDen - (n * seg.fromNum).tdiv seg.fromDen

def scale (bits : ℕ) (seg : ExecutionSegment) (n : ℕ) : ℕ :=
  if n = 0 then 0 else min (seg.scaled n % 2 ^ bits).toNat n

def scaleVus (vus : ℕ) : ℕ := seg.scale 32 vus

def scaleIterations (iterations : ℕ) : ℕ := seg.scale 64 iterations

def scaleRate (rate : ℚ) : ℚ := rate * seg.fraction

end ExecutionSegment

end Tropel
