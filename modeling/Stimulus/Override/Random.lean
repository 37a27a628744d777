import Stimulus.Override.Table
import Stimulus.Random.Object

/-!
# Overrides and random objects

The bounds of a table hold for the next randomisation of an object: the solver gets them, and if it
gives up, the values are put within the bounds afterwards.
-/

namespace Stimulus.Override

open Stimulus.Random Trial

/-- A field and its bounds. -/
structure Bounds where
  name : String
  low : Int
  high : Int
deriving DecidableEq, Repr

def Table.boundsFor (t : Table) (obj : Object) : List Bounds :=
  (t.filter fun e => obj.has e.name && e.isActive).map fun e =>
    { name := e.name, low := e.newLow, high := e.newHigh }

def Table.describe (t : Table) (obj : Object) : List String :=
  (t.filter fun e => obj.has e.name && e.isActive).map fun e =>
    s!"{e.name}: [{e.newLow}, {e.newHigh}] (was [{e.low}, {e.high}])"

/-- The bound that a value of a cell has to be set to, if it is outside of the bounds. -/
def nearestBound? (low high : Int) (v : Json) : Outcome (Option Int) := do
  if ← v.lessThan high then
    if ← v.greaterThan low then return none
    return if v.isInteger low then none else some low
  else
    let c := max high low
    return if v.isInteger c then none else some c

def clampedValue? (b : Bounds) : Value → Outcome (Option Value)
  | .cell v => do return (← nearestBound? b.low b.high v).map fun n => .cell (.int n)
  | v => do
    let n ← v.toInteger
    let c := max b.low (min b.high n)
    return if c = n then none else some (.plain (.int c))

def clampField (b : Bounds) : Trial Unit := do
  let obj := (← get).object
  match ← ofOutcome ((obj.get b.name).bind (clampedValue? b)) with
  | some v => modify fun s => { s with object := obj.set b.name v }
  | none => return ()

/-- Puts fields within their bounds; one that has no integer value is reported and left. -/
def clampFields (bounds : List Bounds) : Trial Unit :=
  bounds.forM fun b => do
    match ← attempt (clampField b) with
    | .ok _ => return ()
    | .error e =>
      if e.isNoAttribute || e.isBadType || e.isBadValue then
        sayLine s!"  Warning: post-clamp failed for {b.name}: {e.message}"
      else throw e

def solveWithin (bounds : List Bounds) : Trial Unit := do
  let obj := (← get).object
  bounds.forM fun b => ofOutcome ((obj.get b.name).bind Value.bound)
  Trial.randomize

def solveThenClamp (bounds : List Bounds) : Trial Unit := do
  Trial.randomize
  clampFields bounds

/-- Randomises the object within the bounds of a table. Without a solver, or without active bounds,
it is randomised as it is. Says whether it worked. -/
def randomizeWith (solver verbose : Bool) (t : Table) : Trial Bool := do
  let obj := (← get).object
  let bounds := if solver then t.boundsFor obj else []
  if bounds.isEmpty then
    Trial.randomize
    return true
  if verbose then
    sayLine s!"  Injecting {bounds.length} override constraint(s):"
    bounds.forM fun b => sayLine s!"    {b.name} in [{b.low}, {b.high}]"
  match ← attempt (solveWithin bounds) with
  | .ok _ => return true
  | .error e =>
    sayLine s!"Warning: randomize_with() failed: {e.message}"
    sayLine "  Falling back to plain randomize + post-clamp"
    match ← attempt (solveThenClamp bounds) with
    | .ok _ => return true
    | .error e =>
      sayLine s!"Error: Fallback randomize also failed: {e.message}"
      return false

/-- The vector with a value within the bounds of an entry; a value without an integer is left. -/
def patchOne (e : Entry) (vector : List (String × Json)) : Outcome (List (String × Json)) :=
  match vector.lookup e.name with
  | none => .ok vector
  | some v =>
    match v.toInteger with
    | .ok n => .ok (vector.map fun (name, old) =>
        if name = e.name then (name, .int (e.clamp n)) else (name, old))
    | .error f => if f.isBadValue || f.isBadType then .ok vector else .error f

def Table.patch (t : Table) (vector : List (String × Json)) : Outcome (List (String × Json)) :=
  (t.filter Entry.isActive).foldlM (fun v e => patchOne e v) vector

end Stimulus.Override
