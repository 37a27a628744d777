import Stimulus.Decimal.Rounding
import Stimulus.Json.Order
import Stimulus.Validation.Result

/-!
# Comparing samples
-/

namespace Stimulus.Validation

def frequency (sample : List Int) (v : Int) : Outcome Float := do
  if sample.isEmpty then throw .divisionByZero
  Decimal.ofRatio (sample.count v) sample.length

def greatestDifference (a b : List Int) : Outcome Float :=
  (a ++ b).eraseDups.foldlM (fun greatest v => do
    let d := ((← frequency a v) - (← frequency b v)).abs
    return if d > greatest then d else greatest) 0.0

def compareSamples (field : String) (a b : List Int) (tolerance : Json) : Outcome Result := do
  let d ← greatestDifference a b
  let passed ← (Json.decimal d).holds .le tolerance
  let sign := if passed then "<=" else ">"
  let shown := Decimal.fixed 4 d
  return { passed, title := s!"SV/pyvsc Comparison: {field}"
           message := s!"Max distribution difference: {shown} {sign} {tolerance.shown}" }

end Stimulus.Validation
