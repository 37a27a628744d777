
/-!
# Shortest decimals

A binary floating-point number is written with the fewest decimal digits that read back as it; of
several such texts, the one nearest to the number.
-/

namespace Stimulus.Decimal

def pow2 (n : Nat) : Nat := Nat.pow 2 n

def pow10 (n : Nat) : Nat := Nat.pow 10 n

/-- A floating-point number by its parts. -/
inductive Binary where
  /-- `mantissa * 2 ^ exponent`, with a sign. -/
  | finite (negative : Bool) (mantissa : Nat) (exponent : Int)
  | infinite (negative : Bool)
  | undefined
deriving DecidableEq, Repr

def Binary.ofFloat (x : Float) : Binary :=
  let bits : Nat := x.toBits.toNat
  let negative := bits / pow2 63 == 1
  let exponent : Nat := bits / pow2 52 % pow2 11
  let fraction : Nat := bits % pow2 52
  if exponent = 2047 then if fraction = 0 then .infinite negative else .undefined
  else if exponent = 0 then .finite negative fraction (-1074)
  else .finite negative (pow2 52 + fraction) ((exponent : Int) - 1075)

/-- Two factors whose quotient is `10 ^ k / 2 ^ q`. -/
def scales (k q : Int) : Nat × Nat :=
  (pow10 k.toNat * pow2 (-q).toNat, pow10 (-k).toNat * pow2 q.toNat)

/-- The multiple of `10 ^ k` that reads back as `m * 2 ^ q` and is nearest to it, if there is one.
Only the two neighbours on that grid can be. Numbers that lie just between two floating-point
numbers read as the one with an even mantissa. -/
def onGrid? (m : Nat) (q : Int) (k : Int) : Option Nat :=
  let (a, b) := scales k (q - 2)
  let low := (if m = pow2 52 ∧ q > -1074 then 4 * m - 1 else 4 * m - 2) * b
  let value := 4 * m * b
  let high := (4 * m + 2) * b
  let hits := fun (d : Nat) =>
    if m % 2 = 0 then decide (low ≤ d * a ∧ d * a ≤ high) else decide (low < d * a ∧ d * a < high)
  let below := value / a
  let above := below + 1
  match hits below, hits above with
  | true, true =>
    let down := value - below * a
    let up := above * a - value
    if down < up ∨ (down = up ∧ below % 2 = 0) then some below else some above
  | true, false => some below
  | false, true => some above
  | false, false => none

/-- The first grid from `10 ^ k` on, ever finer, that has a hit. -/
def firstHit (m : Nat) (q : Int) : (fuel : Nat) → (k : Int) → Nat × Int
  | 0, k => (0, k)
  | fuel + 1, k =>
    match onGrid? m q k with
    | some d => (d, k)
    | none => firstHit m q fuel (k - 1)

def shortest (m : Nat) (q : Int) : Nat × Int :=
  let top := Int.fdiv (((Nat.log2 m : Nat) + 1 + q) * 30103) 100000 + 1
  firstHit m q 40 top

/-- Digits with a point before the place `point`, positional from `10 ^ -4` up to `10 ^ 16`, and
with an exponent of at least two digits elsewhere. -/
def placed (digits : String) (point : Int) : String :=
  let n := digits.length
  if -4 < point ∧ point ≤ 16 then
    if point ≤ 0 then "0." ++ "".pushn '0' (-point).toNat ++ digits
    else if point.toNat < n then
      String.ofList (digits.toList.take point.toNat) ++ "."
        ++ String.ofList (digits.toList.drop point.toNat)
    else digits ++ "".pushn '0' (point.toNat - n) ++ ".0"
  else
    let e := point - 1
    let size := toString e.natAbs
    let tail := if n = 1 then "" else "." ++ String.ofList (digits.toList.drop 1)
    String.ofList (digits.toList.take 1) ++ tail ++ (if e < 0 then "e-" else "e+")
      ++ "".pushn '0' (2 - size.length) ++ size

def dropZeros : (fuel : Nat) → Nat → Nat × Nat
  | 0, d => (d, 0)
  | fuel + 1, d =>
    if d % 10 = 0 then
      let (e, n) := dropZeros fuel (d / 10)
      (e, n + 1)
    else (d, 0)

def text (x : Float) : String :=
  match Binary.ofFloat x with
  | .undefined => "nan"
  | .infinite negative => if negative then "-inf" else "inf"
  | .finite negative m q =>
    let sign := if negative then "-" else ""
    if m = 0 then sign ++ "0.0"
    else
      let (d, k) := shortest m q
      let (d, n) := dropZeros 20 d
      let digits := toString d
      sign ++ placed digits (k + n + digits.length)

end Stimulus.Decimal
