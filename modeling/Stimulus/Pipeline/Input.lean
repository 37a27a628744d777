import Stimulus.Pattern.Match
import Stimulus.Pipeline.Project

/-!
# The input of the pipeline

The input is a file with declarations, or a register description from which such a file is made.
-/

namespace Stimulus.Pipeline

/-- What kind of file the input is. -/
inductive InputKind where
  /-- There is no input. -/
  | absent
  | declarations
  | registers
  /-- A file with another extension. -/
  | other (extension : String)
deriving DecidableEq, Repr

/-- The input, with the files made from it. -/
structure Input where
  kind : InputKind := .absent
  source : String := ""
  model : String := ""
deriving DecidableEq, Repr

def InputKind.ofExtension (extension : String) : InputKind :=
  match Text.lower extension with
  | ".xml" => .registers
  | ".sv" => .declarations
  | unknown => .other unknown

def stem (path : String) : String := (Path.splitExt (Path.baseName path)).1

/-- The input of a path. Only declarations made from registers stand in the output directory. -/
def Input.of (path : String) : Input :=
  let kind := InputKind.ofExtension (Path.splitExt path).2
  let made := fun extension => Path.joined Project.output (stem path ++ extension)
  { kind, source := if kind = .registers then made ".sv" else path, model := made ".py" }

open Pattern in
def classStart : Pattern := lit "class" ++ blanks1 ++ group 1 word

/-- The name of the class in the model: its parts between underscores, each with a capital first
letter. -/
def modelName (name : String) : String :=
  String.join ((Text.splitOn "_" name).map Text.capitalize)

def classIn? (text : String) : Option String := (classStart.search? text).map (·.group 1)

end Stimulus.Pipeline

/-!
## Fields of the hardware

A list names the fields of the hardware, one per line; each should be a random field of the
declarations.
-/

namespace Stimulus.Pipeline.HwFields

open Pattern

def ofLine? (line : String) : Option String :=
  let line := Text.strip line
  if Text.startsWith "#" line then none
  else (Text.words (Text.partition "#" line).1).head?

def listed (text : String) : List String := Text.distinct ((Text.fileLines text).filterMap ofLine?)

def ofWidth : Pattern :=
  edge ++ .alt (lit "rand") (lit "randc") ++ blanks1
    ++ ["logic", "int", "byte", "shortint", "longint", "integer"].foldl
      (fun p name => .alt p (lit name)) (lit "bit")
    ++ edge ++ run (· != ';') 0 false ++ group 1 word ++ blanks ++ lit ";"

def ofNamedType : Pattern :=
  edge ++ lit "rand" ++ blanks1 ++ word ++ blanks1 ++ group 1 word ++ blanks ++ lit ";"

def declared (text : String) : List String :=
  Text.distinct ((ofWidth.findAll text ++ ofNamedType.findAll text).map (·.group 1))

def unknown (listed declared : List String) : List String :=
  Text.sorted (listed.filter fun f => !declared.contains f)

end Stimulus.Pipeline.HwFields
