import Tropel.Lib.Rust

/-!
# Floating-point numbers, read exactly

An `F64` is a rational number, an infinity or not a number.
-/

namespace Lib

inductive F64
  | num (q : ℚ)
  | inf (neg : Bool)
  | nan
  deriving DecidableEq

namespace F64

def maxFinite : ℚ := (2 ^ 53 - 1) * 2 ^ 971

def epsilon : ℚ := 1 / 2 ^ 52

def lt : F64 → F64 → Bool
  | num a, num b => a < b
  | num _, inf neg => !neg
  | inf neg, num _ => neg
  | inf a, inf b => a && !b
  | _, _ => false

def le : F64 → F64 → Bool
  | num a, num b => a ≤ b
  | num _, inf neg => !neg
  | inf neg, num _ => neg
  | inf a, inf b => a || !b
  | _, _ => false

def dist : F64 → F64 → F64
  | num a, num b => num |a - b|
  | num _, inf _ => inf false
  | inf _, num _ => inf false
  | inf a, inf b => if a = b then nan else inf false
  | _, _ => nan

def ofMagnitude (neg : Bool) (m : ℚ) : F64 :=
  if 2 ^ 1024 - 2 ^ 970 ≤ m then inf neg else num (if neg then -m else m)

end F64

/-! ## Parsing -/

def takeSign : Text → Bool × Text
  | [] => (false, [])
  | c :: t => if c = '-' then (true, t) else if c = '+' then (false, t) else (false, c :: t)

def parseExponent : Text → Option ℤ
  | [] => some 0
  | c :: t =>
    if c = 'e' ∨ c = 'E' then
      let (neg, digits) := takeSign t
      if digits = [] then none
      else (parseDigits 0 digits).map fun n => if neg then -n else n
    else none

def takeDecimal (t : Text) : Text × Text × Text :=
  let rest := t.dropWhile Char.isDigit
  match rest with
  | [] => (t.takeWhile Char.isDigit, [], [])
  | c :: r =>
    if c = '.' then (t.takeWhile Char.isDigit, r.takeWhile Char.isDigit, r.dropWhile Char.isDigit)
    else (t.takeWhile Char.isDigit, [], rest)

def parseDecimal (t : Text) : Option ℚ :=
  let (int, frac, rest) := takeDecimal t
  if int = [] ∧ frac = [] then none
  else do
    let m ← parseDigits 0 (int ++ frac)
    let e ← parseExponent rest
    let e := e - frac.length
    return if 0 ≤ e then m * 10 ^ e.toNat else m / 10 ^ (-e).toNat

def parseF64 (t : Text) : Option F64 :=
  let (neg, t) := takeSign t
  let low := t.map Char.toLower
  if low = "inf" ∨ low = "infinity" then some (.inf neg)
  else if low = "nan" then some .nan
  else (parseDecimal t).map (F64.ofMagnitude neg)

end Lib
