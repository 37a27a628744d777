import Stimulus.Json.Access
import Stimulus.Json.Order
import Stimulus.Validation.Result

/-!
# Results of checks as values
-/

namespace Stimulus.Validation

def Result.toJson (r : Result) : Json :=
  .obj [("passed", .bool r.passed), ("test_name", .str r.title), ("message", .str r.message),
    ("details", .opt (fun fs => Json.tagged (.obj fs)) r.details)]

def Result.listToJson (rs : List Result) : Json := .arr (rs.map Result.toJson)

def weightsOfJson (j : Json) : List (Json × Json) :=
  j.asList.foldl (fun kept p =>
    let value := p.item 0
    if kept.any fun old => old.1.equals value then
      kept.map fun old => if old.1.equals value then (old.1, p.item 1) else old
    else kept ++ [(value, p.item 1)]) []

end Stimulus.Validation
