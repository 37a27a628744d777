import Stimulus.Decimal.Rounding
import Stimulus.Random.Object
import Stimulus.Validation.Result

/-!
# Checks of models

Each check makes an object, randomises it many times and looks at what its fields take.
-/

namespace Stimulus.Validation

open Stimulus.Random Session

def gather {σ : Type} (step : Object → Nat → σ → Outcome σ) :
    (times : Nat) → (done : Nat) → Object → σ → Outcome σ
  | 0, _, _, s => .ok s
  | n + 1, done, obj, s =>
    match obj.randomize with
    | (.error e, _) => .error e
    | (.ok _, obj) => do gather step n (done + 1) obj (← step obj done s)

def sample {σ : Type} (r : Recipe) (times : Int) (start : σ) (step : Object → Nat → σ → Outcome σ) :
    Outcome σ := do
  gather step times.toNat 0 (← r.make) start

/-! ## The solver -/

def basic (r : Recipe) (times : Int) : Session Result :=
  record <| match sample r times () fun _ _ _ => .ok () with
    | .ok _ =>
      { passed := true, title := "Basic Randomization"
        message := s!"Successfully randomized {times} times" }
    | .error e =>
      { passed := false, title := "Basic Randomization"
        message := s!"Randomization failed: {e.message}" }

/-! ## Distributions -/

def integerFields (obj : Object) (wanted : String → Bool) : Outcome (List (String × Int)) :=
  let names := (obj.fields.map (·.1)).filter fun n => !Text.startsWith "_" n && wanted n
  (Text.sorted names).foldlM (fun found n =>
    match (obj.get n).bind Value.toInteger with
    | .ok v => .ok (found ++ [(n, v)])
    | .error e =>
      if e.isBadType || e.isBadValue || e.isNoAttribute then .ok found else .error e) []

abbrev Samples := List (String × List Int)

def addSamples (all : Samples) (found : List (String × Int)) : Samples :=
  found.foldl (fun all (name, v) =>
    if (all.lookup name).isSome then
      all.map fun (n, vs) => if n = name then (n, v :: vs) else (n, vs)
    else all ++ [(name, [v])]) all

def mean (vs : List Int) : Outcome Json :=
  let total : Int := vs.foldl (· + ·) 0
  let n : Nat := vs.length
  if total % n = 0 then .ok (.int (total / n)) else (Decimal.ofQuotient total n).map .decimal

def isEnough (count : Nat) (times : Int) : Outcome Bool := do
  let least := (← Decimal.ofInteger times) * 0.9
  return Json.compareDecimal count least != some .lt

def distributionOf (name : String) (vs : List Int) : Outcome Result := do
  let unique := vs.eraseDups.length
  let low := vs.foldl min (vs.headD 0)
  let high := vs.foldl max (vs.headD 0)
  let average ← mean vs
  let title := s!"Distribution: {name}"
  if unique = 1 then
    return { passed := false, title
             message := "All values are identical - possible constraint issue"
             details := some [("unique_count", .int unique), ("value", .int low)] }
  return { passed := true, title, message := s!"Range: [{low}, {high}], Unique: {unique}"
           details := some [("min", .int low), ("max", .int high), ("mean", average),
             ("unique_count", .int unique)] }

def distribution (r : Recipe) (times : Int) (names : List String) : Session (List Result) := do
  let wanted := fun n => names.isEmpty || names.contains n
  let all ← ofOutcome (sample r times ([] : Samples) fun obj _ all =>
    return addSamples all (← integerFields obj wanted))
  all.filterMapM fun (name, vs) => do
    if ← ofOutcome (isEnough vs.length times) then
      return some (← record (← ofOutcome (distributionOf name vs)))
    return none

/-! ## Bounds -/

/-- A range that is expected of a field. -/
structure Expected where
  name : String
  low : Int
  high : Int

def Expected.isReached (e : Expected) (low high : Int) : Outcome Bool := do
  let margin := (← Decimal.ofInteger (e.high - e.low)) * 0.01
  let lowEnd := (← Decimal.ofInteger e.low) + margin
  let highEnd := (← Decimal.ofInteger e.high) - margin
  return (Json.int low).holds .le (.decimal lowEnd) matches .ok true
    && (Json.int high).holds .ge (.decimal highEnd) matches .ok true

def boundsOf (e : Expected) (vs : List Int) : Outcome Result := do
  let low := vs.foldl min (vs.headD 0)
  let high := vs.foldl max (vs.headD 0)
  let passed ← e.isReached low high
  let sign := if passed then "≈" else "≠"
  return { passed, title := s!"Bounds: {e.name}"
           message := s!"Observed [{low}, {high}] {sign} Expected [{e.low}, {e.high}]" }

def bounds (r : Recipe) (times : Int) (expected : List Expected) : Session (List Result) := do
  let all ← ofOutcome (sample r times ([] : Samples) fun obj _ all =>
    return addSamples all (← integerFields obj fun _ => true))
  expected.filterMapM fun e => do
    match all.lookup e.name with
    | some vs => return some (← record (← ofOutcome (boundsOf e vs)))
    | none => return none

/-! ## Conditions -/

/-- A condition on a field. -/
structure Condition where
  field : String
  comparison : Comparison
  value : Json

def Condition.holds (c : Condition) (obj : Object) : Outcome Bool := do
  (← obj.get c.field).holds c.comparison c.value

def invariant (r : Recipe) (times : Int) (name : String) (c : Condition) : Session Result := do
  let broken ← ofOutcome (sample r times ([] : List Nat) fun obj i broken =>
    return if ← c.holds obj then broken else broken ++ [i])
  let title := s!"Invariant: {name}"
  record (if broken.isEmpty then
      { passed := true, title, message := s!"Passed all {times} iterations" }
    else
      { passed := false, title, message := s!"Failed {broken.length}/{times} times"
        details := some [("violation_indices",
          .arr ((broken.take 10).map fun (i : Nat) => .int i))] })

/-! ## Weights -/

def decimalOf (v : Json) : Outcome Float :=
  match v with
  | .decimal x => .ok x
  | v => Decimal.ofInteger (v.integer?.getD 0)

def mismatch? (counts : List Int) (tolerance value probability : Json) : Outcome (Option Json) := do
  if counts.isEmpty then throw .divisionByZero
  let observed ← Decimal.ofRatio (counts.countP fun n => value.isInteger n) counts.length
  let expected ← decimalOf probability
  if (observed - expected).abs > (← decimalOf tolerance) * expected then
    return some (.obj [("value", value), ("expected", probability),
      ("observed", .decimal observed)])
  return none

def weights (r : Recipe) (times : Int) (field : String) (expected : List (Json × Json))
    (tolerance : Json) : Session Result := do
  let counts ← ofOutcome (sample r times ([] : List Int) fun obj _ counts => do
    return (← (← obj.get field).toInteger) :: counts)
  let found ← ofOutcome (expected.mapM fun (v, p) => mismatch? counts tolerance v p)
  let mismatches := found.filterMap id
  let title := s!"Weights: {field}"
  record (if mismatches.isEmpty then
      { passed := true, title, message := "Distribution weights match expected" }
    else
      { passed := false, title, message := s!"{mismatches.length} weight mismatches"
        details := some [("mismatches", .arr mismatches)] })

/-- All checks that need to know nothing of the model; earlier results are forgotten. -/
def all (r : Recipe) (times : Int) : Session (List Result) := do
  set ([] : List Result)
  discard (basic r 100)
  discard (distribution r times [])
  discard (bounds r times [])
  get

end Stimulus.Validation
