import Stimulus.Model.Constraint
import Stimulus.Model.Field

/-!
# Classes in a model

A class becomes a class of random objects: its fields are declared where it is set up, its
constraints and hooks are methods. A parent class that no source declares becomes a stub.
-/

namespace Stimulus.Model

open Sv

def writeHook (name body : String) : Writing (List String) := do
  modify (Journal.ask s!"{name} function requires manual translation")
  let moment := if name = "pre_randomize" then "before" else "after successful"
  let source := if body.length > 80 then Text.take 80 body ++ "..." else body
  return [s!"    def {name}(self):", s!"        \"\"\"Called {moment} randomization\"\"\"",
    s!"        # Original SV: {source}", s!"        pass  # TODO: Translate {name} logic"]

def setupLines (verbose : Bool) (c : ClassDecl) : List String :=
  let fields := if c.fields.isEmpty then ["pass  # No fields found"]
    else c.fields.map (fieldLine verbose)
  let parent := if c.parent.isSome then ["super().__init__()"] else []
  "    def __init__(self):" :: (parent ++ fields).map ("        " ++ ·)

def rangeMethod (lines : List String) : List String :=
  if lines.isEmpty then []
  else ["", "    @vsc.constraint", "    def parameter_range(self):"] ++ lines.map ("        " ++ ·)

def writeConstraints (settings : Settings) (scope : Expr.Scope) :
    List Constraint → Writing (List String)
  | [] => return []
  | c :: rest => do
    let lines ← writeConstraint settings scope c.name c.body
    modify Journal.countConstraint
    modify (Journal.warnAll c.warnings)
    return "" :: lines ++ (← writeConstraints settings scope rest)

def writeHook? (name : String) (body? : Option String) : Writing (List String) := do
  match body? with
  | none => return []
  | some body => if body.isEmpty then return [] else return "" :: (← writeHook name body)

def writeClass (settings : Settings) (scope : Expr.Scope) (c : ClassDecl) : Writing String := do
  let parent := (c.parent.map fun p => s!"({className p})").getD ""
  if let some p := c.parent then modify (Journal.note s!"Class '{c.name}' extends '{p}'")
  let head := ["@vsc.randobj", s!"class {className c.name}{parent}:",
    s!"    \"\"\"Translated from SV class: {c.name}\"\"\"", ""]
  modify (Journal.countFields c.fields.length)
  let ranges := c.constraints.filterMap fun k => rangeOnly? k.body
  if !ranges.isEmpty then modify Journal.countConstraint
  let others := c.constraints.filter fun k => (rangeOnly? k.body).isNone
  let methods ← writeConstraints settings scope others
  let pre ← writeHook? "pre_randomize" c.preRandomize
  let post ← writeHook? "post_randomize" c.postRandomize
  return Text.join "\n" (head ++ setupLines settings.verbose c ++ rangeMethod ranges ++ methods
    ++ pre ++ post)

/-- The class needs counts that were not taken: `verbose` shows them. -/
def lacksCounts (settings : Settings) (c : ClassDecl) : Bool :=
  settings.verbose && !settings.metrics && c.constraints.any fun k => (rangeOnly? k.body).isNone

/-- Why a class cannot be written: a number in one of its fields has too many digits, or it needs
counts that were not taken. -/
def classObstacle? (settings : Settings) (c : ClassDecl) : Option Failure :=
  if !c.fields.all (fun f => fieldIsPrintable f.toFieldShape) then some (.badValue Text.tooManyDigits)
  else if lacksCounts settings c then some (.missingKey "lines")
  else none

def stubLines (parent : String) : List String :=
  ["@vsc.randobj", s!"class {className parent}:", "    \"\"\"",
    s!"    Stub for {parent} base class.",
    "    Replace with actual implementation or import from your UVM library.", "    \"\"\"",
    "    def __init__(self):", "        pass  # TODO: Add base class fields if needed", ""]

def stubHead : List String :=
  ["# " ++ Text.rule '=' 77, "# BASE CLASS STUBS (from UVM or other libraries)",
    "# Replace these with actual implementations or imports as needed", "# " ++ Text.rule '=' 77,
    ""]

def noteStub (parent : String) (j : Journal) : Journal :=
  (j.ask s!"Base class '{parent}' stub generated - replace with actual implementation").note
    s!"Generated stub for base class '{parent}' -> '{className parent}'"

def writeStubs (parents : List String) : Writing String := do
  let parents := Text.sorted (Text.distinct parents)
  modify fun j => parents.foldl (fun j p => noteStub p j) j
  return Text.join "\n" (stubHead ++ parents.flatMap stubLines)

def undeclaredParents (classes : List ClassDecl) : List String :=
  classes.filterMap fun c => c.parent.filter fun p => !classes.any (·.name == p)

def usageLines (c : ClassDecl) : List String :=
  let cls := className c.name
  let var := Text.lower c.name
  let show_ := (c.fields.take 5).map fun f =>
    s!"        print(f'  {f.name} = " ++ "\x7b" ++ s!"{var}.{f.name}" ++ "\x7d')"
  [s!"    # Create and randomize {cls}", s!"    {var} = {cls}()", s!"    {var}_randomized = False",
    s!"    {var}.randomize()", s!"    {var}_randomized = True",
    s!"    print(f'{cls} randomized successfully')", ""]
    ++ (if c.fields.isEmpty then []
      else [s!"    if {var}_randomized:", "        # Print field values"] ++ show_ ++ [""])

def usageText (classes : List ClassDecl) : String :=
  if classes.isEmpty then ""
  else Text.join "\n" (["# " ++ Text.rule '=' 77, "# USAGE EXAMPLE", "# " ++ Text.rule '=' 77, "",
    "if __name__ == '__main__':", "    # Set seed for reproducibility (optional)",
    "    # vsc.set_randstate(12345)", ""] ++ classes.flatMap usageLines)

end Stimulus.Model
