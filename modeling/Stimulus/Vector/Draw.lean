import Stimulus.Json.Read
import Stimulus.Override.Random

/-!
# Test vectors

A test vector gives a value to every field of a list: the value that the model has after a
randomisation, or the default of the list.
-/

namespace Stimulus.Vector

open Stimulus.Random Override

/-! ## Lists of fields

A list of fields has one field in a line, with the value it takes if the model does not have it. A
number sign starts a comment.
-/

/-- A field of the test vectors. -/
structure Field where
  name : String
  /-- The value if the model does not have the field. -/
  default : String
deriving DecidableEq, Repr

def Field.ofLine? (line : String) : Option Field :=
  match Text.words (Text.partition "#" line).1 with
  | [] => none
  | [name] => some { name, default := "0" }
  | name :: default :: _ => some { name, default }

def Field.readList (text : String) : List Field := (Text.fileLines text).filterMap Field.ofLine?

def Field.loadList (path : String) : Run (List Field) := do
  return Field.readList (← Run.readFile path)

/-! ## Vectors -/

abbrev Values := List (String × Json)

/-- Two vectors: the listed fields, and the fields of the override table. -/
structure Vectors where
  listed : Values
  overridden : Values

def valueOf? (obj : Object) (name : String) : Option Json :=
  let v? := (obj.get? name).map fun v => match v with
    | .plain v | .cell v => v
  v?.filter fun v => match v with
    | .null => false
    | _ => true

def listedValues (obj : Object) (fields : List Field) : Values :=
  fields.foldl (fun vector f =>
    Json.setField f.name ((valueOf? obj f.name).getD (.str f.default)) vector) []

def presentValues (obj : Object) (names : List String) : Values :=
  names.filterMap fun n => (valueOf? obj n).map (n, ·)

def randomizeOrTell (solver : Bool) (t : Table) (run : Int) : Trial Unit := do
  let r ← Trial.attempt do
    if !(← randomizeWith solver false t) then
      throw (.reported "randomize_with_overrides failed")
  match r with
  | .ok _ => return ()
  | .error e =>
    Trial.sayLine s!"Warning: Randomization failed for run {run}: {e.message}"
    Trial.sayLine "  Using default/previous values"

/-- Draws a vector: the values as they were drawn, and the vectors within the bounds of the table.
-/
def draw (solver : Bool) (t : Table) (fields : List Field) (run : Int) :
    Trial (Values × Vectors) := do
  randomizeOrTell solver t run
  let obj := (← get).object
  let drawn := listedValues obj fields
  let listed ← Trial.ofOutcome (t.patch drawn)
  let overridden ← Trial.ofOutcome (t.patch (presentValues obj (t.map (·.name))))
  return (drawn, { listed, overridden })

def clampOne (values : Values) (b : Bounds) : Outcome Values :=
  match values.lookup b.name with
  | none => .ok values
  | some v =>
    match v.toInteger with
    | .ok n => .ok (Json.setField b.name (.int (max b.low (min b.high n))) values)
    | .error e => if e.isBadValue || e.isBadType then .ok values else .error e

def clampValues (bounds : List Bounds) (values : Values) : Outcome Values :=
  bounds.foldlM clampOne values

/-- Randomises the object with bounds given to the solver, and without them if that failed. Says
whether both failed. -/
def randomizeApart (bounds : List Bounds) (run : Int) : Trial Bool := do
  let obj := (← get).object
  match ← Trial.attempt (solveWithin (bounds.filter fun b => obj.has b.name)) with
  | .ok _ => return false
  | .error e =>
    Trial.sayLine s!"Warning: Randomization failed for run {run}: {e.message}"
    match ← Trial.attempt Trial.randomize with
    | .ok _ => return false
    | .error _ => return true

/-- Draws a vector with an object of its own: whether the solver failed, and the vectors within the
bounds. -/
def drawApart (bounds : List Bounds) (fields : List Field) (run : Int) :
    Trial (Bool × Vectors) := do
  let failed ← randomizeApart bounds run
  let obj := (← get).object
  let listed ← Trial.ofOutcome (clampValues bounds (listedValues obj fields))
  let overridden ← Trial.ofOutcome
    (clampValues bounds (presentValues obj (bounds.map (·.name))))
  return (failed, { listed, overridden })

end Stimulus.Vector
