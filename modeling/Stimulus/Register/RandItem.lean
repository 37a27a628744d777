import Stimulus.Register.TopParam

/-!
# Random items

A register description becomes a class of random fields: one for each parameter and field, bounded
if the description gives bounds, with its test constraints.
-/

namespace Stimulus.Register

/-! ## Character entities

Five characters of XML text are written as entities. Decoding goes over a text once, so what an
entity stands for is not looked at again.
-/

def entities : List (String × Char) :=
  [("&lt;", '<'), ("&gt;", '>'), ("&amp;", '&'), ("&apos;", Char.ofNat 39), ("&quot;", '"')]

/-- The entity at the start of a text: its character and how many more characters it has. -/
def entityAt? (cs : List Char) : Option (Char × Nat) :=
  entities.findSome? fun (name, c) =>
    if Text.beginsWith name.toList cs then some (c, name.length - 1) else none

/-- Decodes a text after passing `skip` characters, which belong to an entity. -/
def decodeFrom : (skip : Nat) → List Char → List Char
  | _, [] => []
  | skip + 1, _ :: cs => decodeFrom skip cs
  | 0, c :: cs =>
    match entityAt? (c :: cs) with
    | some (d, skip) => d :: decodeFrom skip cs
    | none => c :: decodeFrom 0 cs

def decode (s : String) : String := String.ofList (decodeFrom 0 s.toList)

/-! ## Random items -/

/-- What a block adds to the class. -/
structure Fragment where
  declarations : List String := []
  registrations : List String := []
  ranges : List String := []
  constraints : List String := []
deriving DecidableEq, Repr

def Fragment.concat (parts : List Fragment) : Fragment where
  declarations := parts.flatMap (·.declarations)
  registrations := parts.flatMap (·.registrations)
  ranges := parts.flatMap (·.ranges)
  constraints := parts.flatMap (·.constraints)

def declaration (name : String) (low : Int) : String :=
  if low ≥ 0 then s!" rand bit [31:0] {name};\n" else s!" rand bit signed [31:0] {name};\n"

def constraintBlock (name : String) (lines : List String) : List String :=
  [s!"   constraint {name}\n", "     \x7b\n"] ++ lines ++ ["     \x7d\n\n"]

/-- What a field adds: its declaration, its range if it is bounded, and its test constraints under
their number. -/
def Fragment.of (name : String) (bounds : Bounds) (number : Int) (lines : List String) :
    Fragment where
  declarations := [declaration name bounds.low]
  registrations := [s!" `uvm_field_int({name}, UVM_DEFAULT)\n"]
  ranges := if bounds.bounded then
      constraintBlock s!"CR_VAR_RANGE_{name}"
        [s!"       ({name} >= {bounds.low} && {name} <= {bounds.high});\n"]
    else []
  constraints := if lines.isEmpty then [] else constraintBlock s!"cr{number}" lines

def Fragment.ofBlock (kind : Kind) (number : Int) (block : List String) : Outcome Fragment := do
  match ← nameOf kind block with
  | none => return {}
  | some name => return .of name (← rangeOf block) number (namedConstraints name block)

/-- What blocks of a kind add, with numbers from `number` on. -/
def Fragment.ofBlocks (kind : Kind) (number : Nat) : List (List String) → Outcome (List Fragment)
  | [] => return []
  | block :: rest => do
    let part ← Fragment.ofBlock kind number block
    return part :: (← Fragment.ofBlocks kind (number + 1) rest)

def opensSim (line : String) : Bool := Text.startsWith "<SimParameter" (Text.strip line)

def closesSim (line : String) : Bool := Text.startsWith "</SimParameter" (Text.strip line)

/-- What is found while the lines are looked through. -/
structure Scan where
  /-- The name of the block of registers, in small letters. -/
  ip : String := ""
  inSim : Bool := false
  parameters : List (List String) := []
  fields : List (List String) := []
deriving DecidableEq, Repr

def quotedName (line : String) : Outcome String :=
  match (Text.splitOn "\"" line)[1]? with
  | some name => .ok (Text.lower name)
  | none => .error .listTooShort

def ipAfter (ip line : String) : Outcome String :=
  if Text.contains "FunctionMap IP" line then quotedName line else .ok ip

/-- The lines from `i` up to the next line after it with the closing tag, or all further lines. -/
def blockFrom (lines : List String) (index : List Nat) (i : Nat) : List String :=
  let stop := (closeAfter? index i).getD lines.length
  (lines.take (stop + 1)).drop i

/-- Looks at line `i`; the blocks of parameters and fields end on the lines of the two indices. -/
def Scan.look (lines : List String) (parameterEnds fieldEnds : List Nat) (s : Scan) (line : String)
    (i : Nat) : Outcome Scan := do
  let ip ← ipAfter s.ip line
  let inSim := !closesSim line && (s.inSim || opensSim line)
  let parameters := if !inSim && Kind.parameter.opening.occursIn line then
      s.parameters ++ [blockFrom lines parameterEnds i] else s.parameters
  let fields := if Text.contains "Field name" line then
      s.fields ++ [blockFrom lines fieldEnds i] else s.fields
  return { ip, inSim, parameters, fields }

def scan (lines : List String) : Outcome Scan :=
  let parameterEnds := closeIndex lines "</Parameter>"
  let fieldEnds := closeIndex lines "</Field>"
  lines.zipIdx.foldlM (fun (s : Scan) l => s.look lines parameterEnds fieldEnds l.1 l.2) {}

def itemLines (ip : String) (all : Fragment) : List String :=
  [s!"class {ip}_rand_item extends uvm_sequence_item;\n\n"] ++ all.declarations
    ++ ["\n", s!"`uvm_object_utils_begin({ip}_rand_item)\n"] ++ all.registrations
    ++ ["`uvm_object_utils_end\n"] ++ all.ranges ++ all.constraints ++ ["endclass\n"]

def itemText (ip : String) (all : Fragment) : String := String.join (itemLines ip all)

/-- The class of what was found. Fields are numbered after the parameters, with a gap of one. -/
def Scan.itemText (s : Scan) : Outcome String := do
  let parameters ← Fragment.ofBlocks .parameter 0 s.parameters
  let fields ← Fragment.ofBlocks .field (s.parameters.length + 1) s.fields
  return Register.itemText s.ip (.concat (parameters ++ fields))

def linesOf (text : String) : List String :=
  (Text.fileLines (String.ofList (text.toList.filter fun c => c.toNat < 128))).map decode

end Stimulus.Register
