import Stimulus.Json.Access
import Stimulus.Register.RandItem

/-!
# Parameters and fragments as values
-/

namespace Stimulus.Register

open Json (strs)

def TopParam.toJson (p : TopParam) : Json :=
  .obj [("name", .str p.name), ("normal_value", .str p.normal), ("min_value", .str p.low),
    ("max_value", .str p.high), ("override_min", .str p.overrideLow),
    ("override_max", .str p.overrideHigh), ("test_constraints", strs p.constraints)]

def TopParam.listToJson (ps : List TopParam) : Json := .arr (ps.map TopParam.toJson)

/-- The parameter of a list of texts and constraints; a text that is missing is zero. -/
def TopParam.ofJson (j : Json) : TopParam :=
  let text (i : Nat) : String := (j.item i).asStr?.getD "0"
  { name := text 0, normal := text 1, low := text 2, high := text 3
    constraints := (j.item 4).asStrs }

def Fragment.toJson (f : Fragment) : Json :=
  .arr [strs f.declarations, strs f.registrations, strs f.ranges, strs f.constraints]

end Stimulus.Register
