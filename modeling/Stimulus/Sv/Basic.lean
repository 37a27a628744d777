/-!
# Declarations of a SystemVerilog source

What a source declares as far as random stimulus is concerned: enumerations, and classes with
fields, constraint blocks and randomisation hooks.
-/

namespace Stimulus.Sv

/-- How a field takes part in randomisation. -/
inductive Mode where
  | rand
  /-- Random, each value once per cycle. -/
  | randc
  /-- Not random. -/
  | plain
deriving DecidableEq, Repr

def Mode.ofKeyword : Option String → Mode
  | some "rand" => rand
  | some "randc" => randc
  | _ => plain

/-- The type of a field. -/
inductive DataType where
  | bit
  | logic
  | byte
  | shortint
  | int
  | longint
  /-- Any other type, by its name. -/
  | named (name : String)
deriving DecidableEq, Repr

namespace DataType

def ofName : String → DataType
  | "bit" => bit
  | "logic" => logic
  | "byte" => byte
  | "shortint" => shortint
  | "int" => int
  | "longint" => longint
  | name => named name

def name : DataType → String
  | bit => "bit"
  | logic => "logic"
  | byte => "byte"
  | shortint => "shortint"
  | int => "int"
  | longint => "longint"
  | named name => name

def fixedWidth? : DataType → Option Nat
  | byte => some 8
  | shortint => some 16
  | int => some 32
  | longint => some 64
  | _ => none

end DataType

/-- How many values a field holds. -/
inductive Extent where
  /-- One. -/
  | single
  | fixed (size : Int)
  /-- An array whose size may change. -/
  | dynamic
deriving DecidableEq, Repr

/-- What a declaration says of a field apart from its name. -/
structure FieldShape where
  width : Int
  mode : Mode
  extent : Extent := .single
  /-- The name of the enumeration, if its values are those of one. It is empty if the name is not
  known. -/
  enumType : Option String := none
  source : String := ""
  dataType : DataType := .bit
  signed : Bool := false
deriving DecidableEq, Repr

/-- A field of a class. -/
structure Field extends FieldShape where
  name : String
deriving DecidableEq, Repr

/-- The kinds of construct that a constraint body may hold. -/
inductive Construct where
  | solveOrder
  | soft
  | unique
  | foreach
  | distribution
  | inside
  | implication
  | conditional
  | equality
  | inequality
  | relational
deriving DecidableEq, Repr

/-- A constraint block. -/
structure Constraint where
  name : String
  /-- The text between the braces, without blanks at its ends. -/
  body : String
  source : String := ""
  /-- The constructs found in the body, each with the text that shows it. -/
  constructs : List (Construct × String) := []
  warnings : List String := []
deriving DecidableEq, Repr

/-- An enumeration. -/
structure Enum where
  name : String
  /-- The members, each with its value if one is given. -/
  members : List (String × Option Int)
  width : Int := 32
  source : String := ""
deriving DecidableEq, Repr

/-- A class. -/
structure ClassDecl where
  name : String
  parent : Option String
  /-- The fields, in order of declaration. -/
  fields : List Field
  /-- The constraint blocks, in order of declaration. -/
  constraints : List Constraint
  source : String
  /-- The body of the hook that runs before randomisation. -/
  preRandomize : Option String := none
  /-- The body of the hook that runs after randomisation. -/
  postRandomize : Option String := none
deriving DecidableEq, Repr

/-- All declarations of a source text. -/
structure Source where
  enums : List Enum
  classes : List ClassDecl
deriving DecidableEq, Repr

end Stimulus.Sv
