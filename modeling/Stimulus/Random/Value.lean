import Stimulus.Decimal.Read
import Stimulus.Json.Order

/-!
# Values of random fields

A field of a random object holds a plain value, or a cell that the solver knows by reference and
whose value may be set.
-/

namespace Stimulus

namespace Json

def toInteger : Json → Outcome Int
  | int n => .ok n
  | bool b => .ok (if b then 1 else 0)
  | decimal x => Decimal.truncated x
  | str s => Text.integer s
  | v => .error (.notInteger v.typeName)

end Json

namespace Random

/-- What a field holds. -/
inductive Value where
  | plain (v : Json)
  /-- A cell known by reference. -/
  | cell (v : Json)

namespace Value

def typeName : Value → String
  | plain v => v.typeName
  | cell _ => "Box"

def toInteger : Value → Outcome Int
  | plain v => v.toInteger
  | cell _ => .error (.notInteger "Box")

def bound : Value → Outcome Unit
  | cell _ | plain (.int _) | plain (.bool _) | plain (.decimal _) => .ok ()
  | plain v => .error (.notOrdered ">=" v.typeName "int")

/-- A comparison of a field with a value. A cell is equal to nothing; bounding it holds of nothing.
-/
def holds (c : Comparison) (v : Value) (w : Json) : Outcome Bool :=
  match v, c with
  | plain v, c => v.holds c w
  | cell _, .ne => .ok true
  | cell _, .eq | cell _, .le | cell _, .ge => .ok false
  | cell _, c => .error (.notOrdered c.symbol "Box" w.typeName)

end Value

end Random

end Stimulus
