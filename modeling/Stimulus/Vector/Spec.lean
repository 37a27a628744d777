import Stimulus.Model.Scan
import Stimulus.Run.Basic

/-!
# Specifications of fields

What the text of a model says about the bits and the range of each field.
-/

namespace Stimulus.Vector

/-- What a model says about a field. -/
structure Spec where
  name : String
  width : Int := 32
  signed : Bool := false
  range : Option (Int × Int) := none
  typeName : String := ""
deriving DecidableEq, Repr

abbrev Specs := List Spec

namespace Specs

def get? (specs : Specs) (name : String) : Option Spec := specs.find? fun s => s.name == name

def put (specs : Specs) (spec : Spec) : Specs :=
  if (specs.get? spec.name).isSome then
    specs.map fun old => if old.name = spec.name then spec else old
  else specs ++ [spec]

open Model.Scan Pattern

/-- The specification of a declared field. One of an unknown type has 32 bits and a sign. -/
def ofDeclaration (name : String) : Option FieldType → Spec
  | some type => { name, width := type.width, signed := type.signed, typeName := type.title }
  | none => { name, signed := true, typeName := "unknown" }

/-- Sets a range. A name that is not declared gets a specification only if `more`. -/
def putRange (more : Bool) (specs : Specs) (name : String) (range : Int × Int) : Specs :=
  match specs.get? name with
  | some spec => specs.put { spec with range := some range }
  | none => if more then specs.put { name, range := some range } else specs

def addRange (more : Bool) (specs : Specs) (name : String) (range : Int × Int) : Specs :=
  match (specs.get? name).bind (·.range) with
  | some _ => specs
  | none => specs.putRange more name range

def choice : Pattern :=
  lit "self." ++ group 1 word ++ blanks1 ++ lit "in" ++ blanks1 ++ lit "vsc.rangelist("
    ++ group 2 (run (· != ')') 1 true
      ++ star (lit "(" ++ run (· != ')') 0 true ++ lit ")" ++ run (· != ')') 0 true))
    ++ lit ")"

def memberName : Pattern := word ++ lit "." ++ group 1 word

/-- The number of a listed value. The number of a member is where its name is first set in the text;
a value that is neither has none. -/
def valueOf? (text value : String) : Outcome (Option Int) :=
  match Text.integer value with
  | .ok n => .ok (some n)
  | .error _ =>
    match memberName.search? value with
    | none => .ok none
    | some m =>
      let setting := lit (m.group 1) ++ blanks ++ lit "=" ++ blanks ++ group 1 signedDigits
      match setting.search? text with
      | none => .ok none
      | some m => do return some (← Text.integer (m.group 1))

def extent? : List Int → Option (Int × Int)
  | [] => none
  | n :: rest => some (rest.foldl min n, rest.foldl max n)

def choiceRange? (text list : String) : Outcome (Option (Int × Int)) := do
  if Text.contains "vsc.rng" list then return none
  let values ← ((Text.splitOn "," list).map Text.strip).mapM (valueOf? text)
  return extent? (values.filterMap id)

def choices (text : String) : Outcome (List (String × Int × Int)) := do
  let found ← (choice.findAll text).mapM fun m => do
    return (m.group 1, ← choiceRange? text (m.group 2))
  return found.filterMap fun (name, range?) => range?.map (name, ·)

/-- The specifications of a model text. Ranges win over listed values, and later ranges over earlier
ones. Names that are not declared count only if `more`. -/
def read (more : Bool) (text : String) : Outcome Specs := do
  let declared := (← declarations text).foldl (fun (specs : Specs) (name, type?) =>
    specs.put (ofDeclaration name type?)) []
  let bounded := (← ranges text).foldl (fun specs (name, range) =>
    putRange more specs name range) declared
  return (← choices text).foldl (fun specs (name, range) => addRange more specs name range) bounded

/-! ## Files -/

open Run

def sayMissing (path : String) : Run Unit :=
  sayLine s!"Warning: Could not find PyVSC source file: {path}"

def boundText : Option Int → String
  | some n => toString n
  | none => "None"

def sampleLine (spec : Spec) : String :=
  let low := boundText (spec.range.map (·.1))
  let high := boundText (spec.range.map (·.2))
  let signed := if spec.signed then "True" else "False"
  s!"    {spec.name}: bits={spec.width}, signed={signed}, range=[{low}, {high}]"

def sample (specs : Specs) (path : String) : List String :=
  s!"  Parsed {specs.length} field specifications from {path}" ::
    if specs.isEmpty then []
    else ["  Sample specs:"] ++ (specs.take 5).map sampleLine
      ++ if specs.length > 5 then [s!"    ... and {specs.length - 5} more"] else []

def modulePath (module extension : String) : String := Text.replace "." "/" module ++ extension

def ofModule (module : String) : Run Specs := do
  let path := modulePath module ".py"
  if !(← isThere path) then
    sayMissing path
    return []
  let specs ← ofOutcome (read true (← readFile path))
  sayLines (specs.sample path)
  return specs

/-- The specifications of a file, of declared fields only, with what is found on the way. -/
def list (module : String) : Run Specs := do
  let path := module ++ ".py"
  if !(← isThere path) then
    sayMissing path
    return []
  let text ← readFile path
  sayLine s!"File size: {text.length} bytes"
  sayLine s!"Found {declaration.countIn text} field declarations"
  let _ ← ofOutcome (declarations text)
  sayLine s!"Found {range.countIn text} range constraints"
  let specs ← ofOutcome (read false text)
  sayLine "Processed discrete value constraints"
  return specs

end Specs

end Stimulus.Vector
