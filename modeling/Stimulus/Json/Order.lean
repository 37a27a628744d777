import Stimulus.Failure
import Stimulus.Json.Basic

/-!
# Comparing values

Numbers of all kinds compare with each other, texts with texts and lists with lists. All values may
be equal or not, but others have no order.
-/

namespace Stimulus

/-- A comparison. -/
inductive Comparison where
  | lt | le | eq | ne | gt | ge
deriving DecidableEq, Repr

namespace Comparison

def symbol : Comparison → String
  | lt => "<"
  | le => "<="
  | eq => "=="
  | ne => "!="
  | gt => ">"
  | ge => ">="

def ofSymbol? (s : String) : Option Comparison :=
  [lt, le, eq, ne, gt, ge].find? fun c => c.symbol = s

def allows : Comparison → Ordering → Bool
  | lt, o => o == .lt
  | le, o => o != .gt
  | eq, o => o == .eq
  | ne, o => o != .eq
  | gt, o => o == .gt
  | ge, o => o != .lt

end Comparison

namespace Json

def typeName : Json → String
  | null => "NoneType"
  | bool _ => "bool"
  | int _ => "int"
  | decimal _ => "float"
  | str _ => "str"
  | arr _ => "list"
  | obj _ => "dict"

def isVoid : Json → Bool
  | null => true
  | bool b => !b
  | int n => n == 0
  | decimal x => x == 0
  | str s => s.isEmpty
  | arr items => items.isEmpty
  | obj fields => fields.isEmpty

def compareDecimal (n : Int) (x : Float) : Option Ordering :=
  match Decimal.Binary.ofFloat x with
  | .undefined => none
  | .infinite negative => some (if negative then .gt else .lt)
  | .finite negative m q =>
    let value : Int := if negative then -m else m
    if q ≥ 0 then some (compare n (value * Decimal.pow2 q.toNat))
    else some (compare (n * Decimal.pow2 (-q).toNat) value)

def integer? : Json → Option Int
  | int n => some n
  | bool b => some (if b then 1 else 0)
  | _ => none

def compareDecimals (x y : Float) : Option Ordering :=
  if x < y then some .lt else if x == y then some .eq else if x > y then some .gt else none

/-- The order of two numbers, if both are numbers; there is none with the undefined number. -/
def compareNumbers? (a b : Json) : Option (Option Ordering) :=
  match a, b with
  | decimal x, decimal y => some (compareDecimals x y)
  | decimal x, b => b.integer?.map fun n => (compareDecimal n x).map Ordering.swap
  | a, decimal y => a.integer?.map fun n => compareDecimal n y
  | a, b => a.integer?.bind fun m => b.integer?.map fun n => some (compare m n)

mutual

def equals : Json → Json → Bool
  | null, b => match b with
    | null => true
    | _ => false
  | str s, b => match b with
    | str t => s == t
    | _ => false
  | arr xs, b => match b with
    | arr ys => equalItems xs ys
    | _ => false
  | obj fs, b => match b with
    | obj gs => fs.length == gs.length && equalFields fs gs
    | _ => false
  | int n, b => compareNumbers? (int n) b == some (some .eq)
  | bool c, b => compareNumbers? (bool c) b == some (some .eq)
  | decimal x, b => compareNumbers? (decimal x) b == some (some .eq)

def equalItems : List Json → List Json → Bool
  | [], ys => ys.isEmpty
  | x :: xs, ys => match ys with
    | [] => false
    | y :: ys => equals x y && equalItems xs ys

def equalFields : List (String × Json) → List (String × Json) → Bool
  | [], _ => true
  | (key, v) :: rest, gs => (match gs.lookup key with
    | some w => equals v w
    | none => false) && equalFields rest gs

end

mutual

def ordered (c : Comparison) : Json → Json → Outcome Bool
  | str s, b => match b with
    | str t => .ok (c.allows (compare s t))
    | b => .error (.notOrdered c.symbol "str" b.typeName)
  | arr xs, b => match b with
    | arr ys => orderedItems c xs ys
    | b => .error (.notOrdered c.symbol "list" b.typeName)
  | a, b => match compareNumbers? a b with
    | some (some o) => .ok (c.allows o)
    | some none => .ok false
    | none => .error (.notOrdered c.symbol a.typeName b.typeName)

/-- A comparison of lists: that of the first items that differ, or else of the lengths. -/
def orderedItems (c : Comparison) : List Json → List Json → Outcome Bool
  | [], ys => .ok (c.allows (compare 0 ys.length))
  | x :: xs, ys => match ys with
    | [] => .ok (c.allows .gt)
    | y :: ys => if equals x y then orderedItems c xs ys else ordered c x y

end

def holds (c : Comparison) (a b : Json) : Outcome Bool :=
  match c with
  | .eq => .ok (equals a b)
  | .ne => .ok (!equals a b)
  | c => ordered c a b

def lessThan (v : Json) (n : Int) : Outcome Bool := v.holds .lt (int n)

def greaterThan (v : Json) (n : Int) : Outcome Bool := v.holds .gt (int n)

def isInteger (v : Json) (n : Int) : Bool := v.equals (int n)

end Json

end Stimulus
