import Stimulus.Csv
import Stimulus.Decimal.Read
import Stimulus.Run.Basic

/-!
# Override tables

A table gives other bounds to the fields of a model. It has one entry for each name, in the order in
which the names first came.
-/

namespace Stimulus.Override

/-- The bounds of a field. -/
structure Entry where
  name : String
  /-- The value of the field when nothing is random. -/
  normal : Int
  low : Int
  high : Int
  newLow : Int
  newHigh : Int
  constraints : List String := []
deriving DecidableEq, Repr

def Entry.isActive (e : Entry) : Bool := e.newLow != e.low || e.newHigh != e.high

def Entry.isWritable (e : Entry) : Bool :=
  [e.normal, e.low, e.high, e.newLow, e.newHigh].all Text.isShort

/-- The value nearest to `v` within the bounds to use; the lower one wins if they cross. -/
def Entry.clamp (e : Entry) (v : Int) : Int := max e.newLow (min e.newHigh v)

abbrev Table := List Entry

namespace Table

def get? (t : Table) (name : String) : Option Entry := t.find? fun e => e.name == name

def put (t : Table) (e : Entry) : Table :=
  if (t.get? e.name).isSome then t.map fun old => if old.name = e.name then e else old
  else t ++ [e]

def activeCount (t : Table) : Nat := t.countP Entry.isActive

/-! ## Tables as text -/

def header : List String :=
  ["Name", "NormalValue", "MinValue", "MaxValue", "OverrideMin", "OverrideMax", "TestConstraint"]

def cell (row : Csv.Row) (name default : String) : Outcome String :=
  match row.get? name with
  | none => .ok (Text.strip default)
  | some (some s) => .ok (Text.strip s)
  | some none => .error (.noAttribute "NoneType" "strip")

def integerOf (s : String) : Outcome Int :=
  match Text.integer s with
  | .ok n => .ok n
  | .error _ => (Decimal.read s).bind Decimal.truncated

def constraintsOf (s : String) : List String :=
  ((Text.splitOn ";" s).map Text.strip).filter fun c => !c.isEmpty

def entryOf (row : Csv.Row) : Outcome (Option Entry) := do
  let name ← cell row "Name" ""
  if name.isEmpty then return none
  let listed ← cell row "TestConstraint" ""
  let normal ← integerOf (← cell row "NormalValue" "0")
  let lowText ← cell row "MinValue" "0"
  let low ← integerOf lowText
  let highText ← cell row "MaxValue" "0"
  let high ← integerOf highText
  let newLow ← integerOf (← cell row "OverrideMin" lowText)
  let newHigh ← integerOf (← cell row "OverrideMax" highText)
  return some { name, normal, low, high, newLow, newHigh, constraints := constraintsOf listed }

/-- The table of a text. Of two rows with one name the second counts, at the place of the first. -/
def ofCsv (text : String) : Outcome Table := do
  return ((← (Csv.rows text).mapM entryOf).filterMap id).foldl put []

def toCsv (t : Table) : String :=
  Csv.write (header :: t.map fun e =>
    [e.name, toString e.normal, toString e.low, toString e.high, toString e.newLow,
      toString e.newHigh, Text.join " ; " e.constraints])

/-! ## Tables for a reader -/

def summaryRow (name low high newLow newHigh changed : String) : String :=
  s!"  {Text.padRight 25 name} {Text.padLeft 10 low} {Text.padLeft 10 high} "
    ++ s!"{Text.padLeft 10 newLow} {Text.padLeft 10 newHigh} {Text.padLeft 8 changed}"

def entryRow (e : Entry) : String :=
  summaryRow e.name (toString e.low) (toString e.high) (toString e.newLow) (toString e.newHigh)
    (if e.isActive then "YES" else "no")

def summary (t : Table) (all : Bool) : List String :=
  let rule := Text.rule '=' 90
  let dashes := fun n => Text.rule '-' n
  ["", rule, "PARAMETER RANGE OVERRIDES", rule,
    summaryRow "Name" "OrigMin" "OrigMax" "OvrMin" "OvrMax" "Changed",
    "  " ++ Text.join " " [dashes 25, dashes 10, dashes 10, dashes 10, dashes 10, dashes 8]]
    ++ (t.filter fun e => all || e.isActive).map entryRow
    ++ ["", s!"  Active overrides: {t.activeCount}/{t.length}", rule, ""]

/-! ## Tables in files -/

def load (path : String) : Run Table := do
  if !(← Run.isThere path) then throw (.missing s!"Override CSV not found: {path}")
  Run.ofOutcome (ofCsv (← Run.readRaw path))

/-- Writes the table to a file. An integer with too many digits ends it; the entries before stay. -/
def save (t : Table) (path : String) : Run Unit := do
  Run.writeFile path (toCsv (t.takeWhile Entry.isWritable))
  if !t.all Entry.isWritable then throw (.badValue Text.tooManyDigits)

end Table

end Stimulus.Override
