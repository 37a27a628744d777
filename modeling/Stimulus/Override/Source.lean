import Stimulus.Model.Scan
import Stimulus.Override.Table

/-!
# Overrides in source text
-/

namespace Stimulus.Override

open Pattern Model.Scan

/-- A line that bounds one field from both sides. Kept are the blanks before it, the field, the two
bounds and what stands behind it. -/
def rangeLine : Pattern :=
  first ++ group 1 blanks ++ lit "(" ++ blanks ++ group 2 word ++ blanks ++ lit ">=" ++ blanks
    ++ group 3 signedDigits ++ blanks ++ lit "&&" ++ blanks ++ same 2 ++ blanks ++ lit "<="
    ++ blanks ++ group 4 signedDigits ++ blanks ++ lit ")" ++ blanks ++ lit ";" ++ blanks
    ++ group 5 (run notNewline 0 true) ++ last

/-- What became of a line. -/
structure Patched where
  line : String
  matched : Bool := false
  updated : Bool := false
deriving DecidableEq, Repr

def rebound (e : Entry) (m : Match) (newline : String) : Outcome Patched := do
  let trail := Text.strip (m.group 5)
  let range := s!"{m.group 1}({e.name} >= {e.newLow} && {e.name} <= {e.newHigh});"
  let line := (if trail.isEmpty then range else s!"{range} {trail}") ++ newline
  let low ← Text.integer (m.group 3)
  let high ← Text.integer (m.group 4)
  return { line, matched := true, updated := low != e.newLow || high != e.newHigh }

def Table.patchLine (t : Table) (line : String) : Outcome Patched :=
  let newline := if Text.endsWith "\n" line then "\n" else ""
  let body := Text.take (line.length - newline.length) line
  match rangeLine.atStart? body with
  | none => .ok { line }
  | some m =>
    match t.get? (m.group 2) with
    | none => .ok { line, matched := true }
    | some e => rebound e m newline

def Table.patchLines (t : Table) (lines : List String) : Outcome (List Patched) :=
  lines.mapM t.patchLine

/-- Gives the range constraints of a class source the bounds of a table: how many there are, and how
many changed. If any did, the old text goes to a second file, if `backup`. -/
def Table.applyToSource (t : Table) (path : String) (backup : Bool) : Run (Nat × Nat) := do
  if !(← Run.isThere path) then
    throw (.missing s!"SystemVerilog source not found: {path}")
  let lines := Text.fileLines (← Run.readFile path)
  let patched ← Run.ofOutcome (t.patchLines lines)
  let updated := patched.countP (·.updated)
  if updated > 0 then
    if backup then Run.writeFile (path ++ ".bak") (String.join lines)
    Run.writeFile path (String.join (patched.map (·.line)))
  return (patched.countP (·.matched), updated)

/-! ## Tables of models -/

def typeBounds (signed : Bool) (width : Nat) : Int × Int :=
  let half : Int := Decimal.pow2 (width - 1)
  if signed then (-half, half - 1) else (0, (Decimal.pow2 width : Int) - 1)

def boundsOfType : Option FieldType → Int × Int
  | none => typeBounds false 32
  | some type => typeBounds type.signed type.width

/-- The entry of a field with its bounds from the model. What a user set for it before is kept. -/
def entryFor (known : Table) (name : String) (low high : Int) : Entry :=
  match known.get? name with
  | some e => { e with low, high }
  | none => { name, normal := 0, low, high, newLow := low, newHigh := high }

def declaredBounds (fields : List (String × Option FieldType)) : List (String × Int × Int) :=
  fields.foldl (fun kept (name, type?) =>
    let bounds := boundsOfType type?
    if (kept.lookup name).isSome then
      kept.map fun (n, old) => if n = name then (n, bounds) else (n, old)
    else kept ++ [(name, bounds)]) []

def modelBounds (text : String) : Outcome (List (String × Int × Int)) := do
  let fields := declaredBounds (← declarations text)
  return (← ranges text).foldl (fun kept (name, bounds) =>
    kept.map fun (n, old) => if n = name then (n, bounds) else (n, old)) fields

/-- The table of the fields of a model text, and then of the names that were known before and that
the model lacks. -/
def Table.ofModel (text : String) (known : Table) : Outcome Table := do
  let fields ← modelBounds text
  let own := fields.map fun (name, low, high) => entryFor known name low high
  return own ++ known.filter fun e => (fields.lookup e.name).isNone

def Table.generate (model target : String) (known : Table) : Run Table := do
  if !(← Run.isThere model) then throw (.missing s!"PyVSC source not found: {model}")
  let t ← Run.ofOutcome (Table.ofModel (← Run.readFile model) known)
  t.save target
  Run.sayLine s!"Generated override CSV with {t.length} fields: {target}"
  return t

end Stimulus.Override
