import Stimulus.Decimal.Shortest
import Stimulus.Failure

/-!
# Rounding
-/

namespace Stimulus.Decimal

def roundDiv (a b : Nat) : Nat :=
  let q := a / b
  let r := a % b
  if 2 * r < b then q else if b < 2 * r then q + 1 else q + q % 2

def lastPlace (a b : Nat) : Int :=
  let e : Int := a.log2 - b.log2
  let reaches := if e ≥ 0 then b * pow2 e.toNat ≤ a else b ≤ a * pow2 (-e).toNat
  max (-1074) (if reaches then e - 52 else e - 53)

def ofRatio (a b : Nat) : Outcome Float :=
  let q := lastPlace a b
  let m := roundDiv (a * pow2 (-q).toNat) (b * pow2 q.toNat)
  let bits := (q + 1074).toNat * pow2 52 + m
  if a = 0 then .ok 0.0
  else if bits < 2047 * pow2 52 then .ok (Float.ofBits (UInt64.ofNat bits))
  else .error .hugeQuotient

/-- The number nearest to the quotient of an integer and a natural number that is not zero. -/
def ofQuotient (a : Int) (b : Nat) : Outcome Float :=
  (ofRatio a.natAbs b).map fun x => if a < 0 then -x else x

def ofInteger (n : Int) : Outcome Float :=
  match ofQuotient n 1 with
  | .ok x => .ok x
  | .error _ => .error .hugeInteger

def fixed (places : Nat) (x : Float) : String :=
  match Binary.ofFloat x with
  | .undefined => "nan"
  | .infinite negative => if negative then "-inf" else "inf"
  | .finite negative m q =>
    let scaled := roundDiv (m * pow10 places * pow2 q.toNat) (pow2 (-q).toNat)
    let digits := toString scaled
    let padded := String.ofList (List.replicate (places + 1 - digits.length) '0') ++ digits
    let whole := String.ofList (padded.toList.take (padded.length - places))
    let rest := String.ofList (padded.toList.drop (padded.length - places))
    (if negative then "-" else "") ++ if places = 0 then whole else whole ++ "." ++ rest

end Stimulus.Decimal
