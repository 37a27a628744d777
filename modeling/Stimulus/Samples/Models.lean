import Stimulus.Cli.Read
import Stimulus.Json.Literal
import Stimulus.Model.Basic
import Stimulus.Model.Reading
import Stimulus.Samples.Registers

/-!
# Sample models
-/

namespace Stimulus.Samples

open Model Run

def Source.model (s : Source) : Outcome String := (Model.ofText {} 1 s.text).map (·.code)

def Source.classes (s : Source) : Outcome (List ClassView) := s.model.map ClassView.readAll

/-- What happens when values for the fields of an object are asked for. -/
inductive Solver where
  /-- There is no solver. -/
  | absent
  /-- There are no values. -/
  | fails (text : String)
  /-- The fields get these values; the others stay at zero. -/
  | gives (values : List (String × Json))

def fieldsShown : Nat := 5

def sayFields (c : ClassView) (values : List (String × Json)) : Run Unit :=
  sayLines ((c.fields.take fieldsShown).map fun f =>
    s!"  {f.name} = " ++ ((values.lookup f.name).getD (.int 0)).shown)

def Source.runClass (s : Source) (solver : Solver) (c : ClassView) : Run Unit :=
  match solver with
  | .absent => throw (.noModule "vsc")
  | .fails text =>
    if s.guarded then sayLine s!"{c.name} randomize failed: {text}" else throw (.reported text)
  | .gives values => do
    sayLine s!"{c.name} randomized successfully"
    sayFields c values

def leaves (classes : List ClassView) : List ClassView :=
  classes.filter fun c => classes.all fun d => d.base != some c.name

def Source.run (s : Source) (solver : Solver) : Run Cli.Exit := do
  (leaves (← ofOutcome s.classes)).forM (s.runClass solver)
  return .ok

end Stimulus.Samples
