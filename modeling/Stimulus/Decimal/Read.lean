import Stimulus.Decimal.Shortest
import Stimulus.Text.Integer

/-!
# Reading decimals

A decimal text has blanks around it at will, a sign, digits with at most one point among them and
an exponent. Infinity and the undefined number have names.
-/

namespace Stimulus.Decimal

/-- The number nearest to `n * 10 ^ e`. Beyond the range of numbers it is infinite or zero. -/
def ofDigits (n : Nat) (e : Int) : Float :=
  let size : Int := (toString n).length + e
  if n = 0 || size < -340 then 0.0
  else if size > 320 then 1.0 / 0.0
  else Float.ofScientific n (e < 0) e.natAbs

def plainDigit (c : Char) : Char :=
  match Text.digitValue? c with
  | some n => Char.ofNat ('0'.toNat + n)
  | none => c

/-- The text without underscores, each of which needs a digit on both sides; `prev` is the character
before. -/
def dropUnderscores? (prev : Char) : List Char → Option (List Char)
  | [] => if prev = '_' then none else some []
  | '_' :: cs => if prev.isDigit then dropUnderscores? '_' cs else none
  | c :: cs =>
    if prev = '_' && !c.isDigit then none else (dropUnderscores? c cs).map (c :: ·)

def digitsValue (cs : List Char) : Nat :=
  cs.foldl (fun n c => n * 10 + (c.toNat - '0'.toNat)) 0

def takeSign (cs : List Char) : Bool × List Char :=
  match cs with
  | '-' :: rest => (true, rest)
  | '+' :: rest => (false, rest)
  | rest => (false, rest)

def exponent? (cs : List Char) : Option Int :=
  match cs with
  | [] => some 0
  | c :: rest =>
    if c = 'e' || c = 'E' then
      let (negative, digits) := takeSign rest
      if digits.isEmpty || !digits.all Char.isDigit then none
      else some (if negative then -(digitsValue digits : Int) else digitsValue digits)
    else none

def unsigned? (cs : List Char) : Option Float :=
  let (whole, rest) := cs.span Char.isDigit
  let (fraction, rest) := match rest with
    | '.' :: more => more.span Char.isDigit
    | rest => ([], rest)
  if whole.isEmpty && fraction.isEmpty then none
  else (exponent? rest).map fun e =>
    ofDigits (digitsValue (whole ++ fraction)) (e - fraction.length)

def named? (cs : List Char) : Option Float :=
  match Text.lower (String.ofList cs) with
  | "inf" | "infinity" => some (1.0 / 0.0)
  | "nan" => some (0.0 / 0.0)
  | _ => unsigned? cs

def read (s : String) : Outcome Float :=
  let core := (Text.dropEnds Text.isNumberBlank s.toList).map plainDigit
  let number? := do
    let (negative, rest) := takeSign (← dropUnderscores? ' ' core)
    let x ← named? rest
    return if negative then -x else x
  match number? with
  | some x => .ok x
  | none => .error (.badDecimal s)

def truncated (x : Float) : Outcome Int :=
  match Binary.ofFloat x with
  | .undefined => .error .undefinedInteger
  | .infinite _ => .error .infiniteInteger
  | .finite negative m q =>
    let n : Int := if q ≥ 0 then m * pow2 q.toNat else (m / pow2 (-q).toNat : Nat)
    .ok (if negative then -n else n)

end Stimulus.Decimal
