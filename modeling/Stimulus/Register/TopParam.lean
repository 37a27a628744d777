import Stimulus.Csv
import Stimulus.Register.Block

/-!
# Top-level parameters

Parameters between `TopParameter` tags are also exported as a table, in which a user may set other
bounds.
-/

namespace Stimulus.Register

/-- A top-level parameter. The values are text as it stands in the description. -/
structure TopParam where
  name : String
  normal : String := "0"
  low : String := "0"
  high : String := "0"
  overrideLow : String := low
  overrideHigh : String := high
  constraints : List String := []
deriving DecidableEq, Repr

def lastText (tag : String) (block : List String) : String :=
  ((block.filterMap (elementText? tag)).getLast?.map Text.strip).getD "0"

def namedConstraints (name : String) (block : List String) : List String :=
  (testConstraints block).map (Text.replace "$" name)

def TopParam.ofBlock (block : List String) : Outcome (Option TopParam) := do
  match ← nameOf .parameter block with
  | none => return none
  | some name =>
    let low := lastText "MinValue" block
    let high := lastText "MaxValue" block
    let constraints := ((testConstraints block).filter Text.hasInk).map fun line =>
      Text.strip (Text.replace "$" name line)
    return some
      { name, normal := lastText "NormalValue" block, low, high, overrideLow := low
        overrideHigh := high, constraints }

def opensTop (line : String) : Bool := Text.startsWith "<TopParameter" (Text.strip line)

def closesTop (line : String) : Bool := Text.startsWith "</TopParameter" (Text.strip line)

/-- The first and last lines of the groups, from line `i` on. A group that is never closed ends
after the last line. -/
def topSpansFrom (i : Nat) : List String → List (Nat × Nat)
  | [] => []
  | line :: rest =>
    if opensTop line then
      let n := (rest.findIdx? closesTop).getD rest.length
      (i, i + 1 + n) :: topSpansFrom (i + 2 + n) (rest.drop (n + 1))
    else topSpansFrom (i + 1) rest
termination_by lines => lines.length

def topSpans (lines : List String) : List (Nat × Nat) := topSpansFrom 0 lines

/-- The blocks of a kind in lines: each starts on a line with its name and ends with its closing tag
on a later line, or with the last line. -/
def blocksOf (kind : Kind) (lines : List String) : List (List String) :=
  let index := closeIndex lines s!"</{kind.tag}>"
  lines.zipIdx.filterMap fun (line, i) =>
    if kind.opening.occursIn line then
      let stop := (closeAfter? index i).getD (lines.length - 1)
      some ((lines.take (stop + 1)).drop i)
    else none

def topParams (lines : List String) : Outcome (List TopParam) := do
  let blocks := (topSpans lines).flatMap fun (start, stop) =>
    blocksOf .parameter ((lines.take stop).drop (start + 1))
  return (← blocks.mapM TopParam.ofBlock).filterMap id

/-! ## The table -/

def tableHeader : List String :=
  ["Name", "NormalValue", "MinValue", "MaxValue", "OverrideMin", "OverrideMax", "TestConstraint"]

def exportTable (params : List TopParam) : String :=
  Csv.write (tableHeader :: params.map fun p =>
    [p.name, p.normal, p.low, p.high, p.overrideLow, p.overrideHigh,
      Text.join " ; " p.constraints])

def cell (row : Csv.Row) (name default : String) : Outcome String :=
  match row.get? name with
  | none => .ok (Text.strip default)
  | some (some text) => .ok (Text.strip text)
  | some none => .error (.noAttribute "NoneType" "strip")

def TopParam.ofRow (row : Csv.Row) : Outcome (Option TopParam) := do
  let name ← cell row "Name" ""
  if name.isEmpty then return none
  let normal ← cell row "NormalValue" "0"
  let low ← cell row "MinValue" "0"
  let high ← cell row "MaxValue" "0"
  let overrideLow ← cell row "OverrideMin" low
  let overrideHigh ← cell row "OverrideMax" high
  let listed ← cell row "TestConstraint" ""
  let constraints := ((Text.splitOn ";" listed).map Text.strip).filter fun c => !c.isEmpty
  return some { name, normal, low, high, overrideLow, overrideHigh, constraints }

def loadTable (text : String) : Outcome (List TopParam) := do
  return (← (Csv.rows text).mapM TopParam.ofRow).filterMap id

end Stimulus.Register
