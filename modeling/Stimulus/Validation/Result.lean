import Stimulus.Json.Literal
import Stimulus.Failure

/-!
# Results of checks
-/

namespace Stimulus.Validation

/-- What a check found. -/
structure Result where
  passed : Bool
  title : String
  message : String
  details : Option (List (String × Json)) := none

abbrev Session := ExceptT Failure (StateM (List Result))

namespace Session

def record (r : Result) : Session Result := do
  modify (· ++ [r])
  return r

def ofOutcome {α : Type} : Outcome α → Session α
  | .ok a => pure a
  | .error e => throw e

end Session

def Result.lines (r : Result) : List String :=
  let status := if r.passed then "✅ PASS" else "❌ FAIL"
  [s!"{status} | {r.title}", s!"       {r.message}"]
    ++ match r.details with
      | some fields =>
        if r.passed || fields.isEmpty then [] else [s!"       Details: {(Json.obj fields).literal}"]
      | none => []

def report (results : List Result) : List String :=
  let rule := Text.rule '=' 70
  let passed := results.countP (·.passed)
  ["", rule, "VALIDATION REPORT", rule, "",
      s!"Summary: {passed} passed, {results.length - passed} failed", ""]
    ++ results.flatMap Result.lines ++ ["", rule]

end Stimulus.Validation
