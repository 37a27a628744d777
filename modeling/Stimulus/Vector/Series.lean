import Stimulus.Decimal.Rounding
import Stimulus.Random.Value
import Stimulus.Vector.Spec

/-!
# Statistics

The values that a field took, and what they have in common.
-/

namespace Stimulus.Vector

/-! ## Bit widths

How many bits hold a number of different values. The binary logarithm is taken in binary64: for a
number so little above a power of two that its logarithm is rounded down to an integer, one bit is
lost. That needs numbers above `2 ^ 49`.
-/

/-- The least `k` with `n ≤ 2 ^ k`. -/
def ceilLog (n : Nat) : Nat := if n ≤ 1 then 0 else (n - 1).log2 + 1

/-- The distance of a number from the power of two below it, in units of the last place: there are
`2 ^ 52` of them up to the next power. -/
def unitsAbove (n : Nat) : Nat :=
  let k := n.log2
  Decimal.roundDiv ((n - Decimal.pow2 k) * Decimal.pow2 52) (Decimal.pow2 k)

/-- The logarithm of a number between powers of two is rounded down to an integer. It is so if the
distance, times the logarithm's slope `1 / ln 2`, is less than half a unit of the last place of the
logarithm. -/
def losesBit (n : Nat) : Bool :=
  n != Decimal.pow2 n.log2 && 2000000 * unitsAbove n < 693147 * Decimal.pow2 n.log2.log2

def bitsFor (n : Nat) : Nat := if losesBit n then n.log2 else ceilLog n

/-! ## Series -/

/-- What the values of a field have in common. -/
structure Summary where
  /-- The least and the greatest, if there are integers. -/
  range : Option (Int × Int) := none
  width : Nat := 0
  signed : Bool := false
  unique : Nat := 0
deriving DecidableEq, Repr

def integersOf (values : List Json) : Outcome (List Int) :=
  values.foldlM (fun found v =>
    match v.toInteger with
    | .ok n => .ok (found ++ [n])
    | .error e => if e.isBadValue || e.isBadType then .ok found else .error e) []

def rangeWidth (low high : Int) : Nat :=
  if low < 0 then bitsFor (max low.natAbs high.natAbs + 1) + 1
  else max 1 (bitsFor (high.natAbs + 1))

def Summary.ofIntegers (ns : List Int) : Summary :=
  match Specs.extent? ns with
  | none => {}
  | some (low, high) =>
    { range := some (low, high), width := rangeWidth low high, signed := low < 0
      unique := ns.eraseDups.length }

def Summary.of (values : List Json) : Outcome Summary := do
  return .ofIntegers (← integersOf values)

/-- The values of a field. -/
structure Series where
  name : String
  values : List Json := []
  spec : Option Spec := none

def Series.summary (s : Series) : Outcome Summary := Summary.of s.values

abbrev AllSeries := List Series

def AllSeries.get? (all : AllSeries) (name : String) : Option Series :=
  all.find? fun s => s.name == name

def AllSeries.put (all : AllSeries) (s : Series) : AllSeries :=
  if (all.get? s.name).isSome then all.map fun old => if old.name = s.name then s else old
  else all ++ [s]

def AllSeries.add (all : AllSeries) (name : String) (v : Json) : AllSeries :=
  all.map fun s => if s.name = name then { s with values := s.values ++ [v] } else s

end Stimulus.Vector
