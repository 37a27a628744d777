import Stimulus.Random.Value

/-!
# Random objects

A random object has fields and takes new values when it is randomised. What each randomisation gives
is written down beforehand: the runs are taken in turn, and after the last one again from the first.
A run may fail, in the solver's own words.
-/

namespace Stimulus.Random

/-- What a randomisation does. -/
inductive Draw where
  /-- The solver gives up. -/
  | fails (text : String)
  | sets (fields : List (String × Value))

/-- A random object. -/
structure Object where
  /-- The fields, in the order in which they were first set. -/
  fields : List (String × Value) := []
  runs : List Draw := [.sets []]
  /-- How many randomisations there have been. -/
  count : Nat := 0

namespace Object

def get? (obj : Object) (name : String) : Option Value := obj.fields.lookup name

def has (obj : Object) (name : String) : Bool := (obj.get? name).isSome

def set (obj : Object) (name : String) (v : Value) : Object :=
  if obj.has name then
    { obj with fields := obj.fields.map fun (n, old) => if n = name then (n, v) else (n, old) }
  else { obj with fields := obj.fields ++ [(name, v)] }

def setAll (obj : Object) (fields : List (String × Value)) : Object :=
  fields.foldl (fun obj (name, v) => obj.set name v) obj

def get (obj : Object) (name : String) : Outcome Value :=
  match obj.get? name with
  | some v => .ok v
  | none => .error (.noAttribute "Model" name)

def randomize (obj : Object) : Outcome Unit × Object :=
  let next := { obj with count := obj.count + 1 }
  match obj.runs[obj.count % obj.runs.length]? with
  | some (.fails text) => (.error (.reported text), next)
  | some (.sets fields) => (.ok (), next.setAll fields)
  | none => (.ok (), next)

end Object

/-- How an object is made. -/
structure Recipe where
  fault : Option String := none
  object : Object := {}

def Recipe.make (r : Recipe) : Outcome Object :=
  match r.fault with
  | some text => .error (.reported text)
  | none => .ok r.object

/-- An object and what was printed. -/
structure Stand where
  object : Object
  out : String := ""

abbrev Trial := ExceptT Failure (StateM Stand)

namespace Trial

def sayLine (text : String) : Trial Unit := modify fun s => { s with out := s.out ++ text ++ "\n" }

def ofOutcome {α : Type} : Outcome α → Trial α
  | .ok a => pure a
  | .error e => throw e

def randomize : Trial Unit := do
  let (result, object) := (← get).object.randomize
  modify fun s => { s with object }
  ofOutcome result

def attempt {α : Type} (t : Trial α) : Trial (Outcome α) := do
  try
    return .ok (← t)
  catch e => return .error e

def on {α : Type} (t : Trial α) (object : Object) : Outcome α × Stand := t.run { object }

end Trial

end Stimulus.Random
