import Stimulus.Failure
import Stimulus.Text.Basic

/-!
# Reading integers

An integer text has blanks around it at will, a sign, and digits of any script with single
underscores between them. In the bases 2, 8 and 16 a base mark such as `0x` may stand before the
digits.
-/

namespace Stimulus.Text

/-- Blanks that may stand around a number. The separator controls are not among them. -/
def isNumberBlank (c : Char) : Bool :=
  if c.toNat < 128 then c == ' ' || (9 ≤ c.toNat && c.toNat ≤ 13) else isBlank c

def placeValue? (c : Char) : Option Nat :=
  match digitValue? c with
  | some n => some n
  | none =>
    if 'a' ≤ c && c ≤ 'z' then some (c.toNat - 'a'.toNat + 10)
    else if 'A' ≤ c && c ≤ 'Z' then some (c.toNat - 'A'.toNat + 10)
    else none

def baseDigit? (base : Nat) (c : Char) : Option Nat :=
  (placeValue? c).filter (· < base)

/-- Reads digits after the value `acc` so far. An underscore has a digit on both sides. -/
def digitsAfter (base acc : Nat) : List Char → Option Nat
  | [] => some acc
  | '_' :: c :: cs => (baseDigit? base c).bind fun d => digitsAfter base (acc * base + d) cs
  | c :: cs => (baseDigit? base c).bind fun d => digitsAfter base (acc * base + d) cs

def digitRun (base : Nat) : List Char → Option Nat
  | [] => none
  | c :: cs => (baseDigit? base c).bind fun d => digitsAfter base d cs

def baseMarks : Nat → List Char
  | 2 => ['b', 'B']
  | 8 => ['o', 'O']
  | 16 => ['x', 'X']
  | _ => []

/-- The digits after a base mark, if there is one. One underscore may follow the mark. -/
def dropBaseMark (base : Nat) : List Char → List Char
  | '0' :: m :: cs =>
    if (baseMarks base).contains m then
      match cs with
      | '_' :: rest => rest
      | rest => rest
    else '0' :: m :: cs
  | cs => cs

def signedDigits (base : Nat) : List Char → Option Int
  | '-' :: cs => (digitRun base (dropBaseMark base cs)).map fun n => -(n : Int)
  | '+' :: cs => (digitRun base (dropBaseMark base cs)).map fun n => (n : Int)
  | cs => (digitRun base (dropBaseMark base cs)).map fun n => (n : Int)

def mostDigits : Nat := 4300

/-- Integers with more digits are not printed. -/
def isShort (n : Int) : Bool := decide (n.natAbs < Nat.pow 10 mostDigits)

def tooManyDigits : String :=
  "Exceeds the limit (4300 digits) for integer string conversion; use sys.set_int_max_str_digits() "
    ++ "to increase the limit"

def readInteger (base : Nat) (s : String) : Outcome Int :=
  let core := dropEnds isNumberBlank s.toList
  match signedDigits base core with
  | none => .error (.badInteger base s)
  | some n =>
    let digits := (core.filter fun c => (placeValue? c).isSome).length
    if base == 10 && mostDigits < digits then .error (.longInteger digits) else .ok n

def integer (s : String) : Outcome Int :=
  readInteger 10 s

end Stimulus.Text
