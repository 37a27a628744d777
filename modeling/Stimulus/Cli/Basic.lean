import Stimulus.Run.Basic

/-!
# Command lines

A command has options, which are named, and operands, which are found by their place. Its arguments
are a list of texts.
-/

namespace Stimulus.Cli

/-! ## How a command is called -/

def lineWidth : Nat := 78

/-- Puts parts into lines. The next part of the first line would start at `column`, and later lines
start at `margin`. A part that is too long for the rest of a line starts a new one. -/
def wrapped (margin : Nat) :
    (column : Nat) → (line : List String) → List String → List (List String)
  | _, line, [] => if line.isEmpty then [] else [line]
  | column, line, part :: rest =>
    if column + part.length > lineWidth && !line.isEmpty then
      line :: wrapped margin (margin + part.length + 1) [part] rest
    else wrapped margin (column + part.length + 1) (line ++ [part]) rest

/-- How a command is called: in one line if it fits; otherwise the operands start a line of their
own, and all lines but the first stand below the first option. -/
def usageLines (name : String) (options operands : List String) : List String :=
  let start := "usage: "
  let whole := start ++ Text.join " " (name :: options ++ operands)
  if whole.length ≤ lineWidth then [whole]
  else
    let margin := start.length + name.length + 1
    let indented := fun (parts : List String) => Text.rule ' ' margin ++ Text.join " " parts
    let first := match wrapped margin start.length [] (name :: options) with
      | [] => []
      | line :: more => (start ++ Text.join " " line) :: more.map indented
    first ++ (wrapped margin margin [] operands).map indented

/-! ## Commands -/

/-- What a value has to be. -/
inductive Kind where
  | text
  | integer
  | oneOf (choices : List String)
deriving DecidableEq, Repr

/-- What an option does. -/
inductive Effect where
  /-- Asks for the help text. -/
  | help
  /-- Asks for the version, which is this text. -/
  | version (text : String)
  | flag (on : Bool)
  /-- Is given as it is, or with `no-` before its name. -/
  | toggle
  | value (kind : Kind)
  | values (kind : Kind)
deriving DecidableEq, Repr

/-- An option. -/
structure Opt where
  key : String
  /-- Its spellings: a dash and a letter, or two dashes and a name. -/
  names : List String
  effect : Effect
deriving DecidableEq, Repr

/-- An operand. -/
structure Operand where
  /-- The key under which it is found, and its name in messages. -/
  key : String
  kind : Kind := .text
  required : Bool := false
deriving DecidableEq, Repr

/-- A command. Its optional operands come last. -/
structure Command where
  name : String
  /-- Its own options, without the one for help. -/
  options : List Opt
  operands : List Operand
  /-- Its options as its usage shows them. -/
  optionMarks : List String
  /-- Its operands as its usage shows them. -/
  operandMarks : List String := []
  /-- The lines that describe it, after the usage. -/
  description : List String
deriving DecidableEq, Repr

def helpOption : Opt := { key := "help", names := ["-h", "--help"], effect := .help }

def Command.allOptions (c : Command) : List Opt := helpOption :: c.options

def Command.usage (c : Command) : List String :=
  usageLines c.name ("[-h]" :: c.optionMarks) c.operandMarks

def Command.help (c : Command) : List String := c.usage ++ c.description

/-- What an option or operand was given. -/
inductive Value where
  | text (s : String)
  | integer (n : Int)
  | flag (b : Bool)
  | texts (ss : List String)
deriving DecidableEq, Repr

abbrev Arguments := List (String × Value)

namespace Arguments

def set (args : Arguments) (key : String) (v : Value) : Arguments :=
  (key, v) :: args.filter fun (k, _) => k != key

def text? (args : Arguments) (key : String) : Option String :=
  match args.lookup key with
  | some (.text s) => some s
  | _ => none

def integer? (args : Arguments) (key : String) : Option Int :=
  match args.lookup key with
  | some (.integer n) => some n
  | _ => none

def flag? (args : Arguments) (key : String) : Option Bool :=
  match args.lookup key with
  | some (.flag b) => some b
  | _ => none

def flag (args : Arguments) (key : String) : Bool := (args.flag? key).getD false

def texts? (args : Arguments) (key : String) : Option (List String) :=
  match args.lookup key with
  | some (.texts ss) => some ss
  | _ => none

end Arguments

/-- How a program ends. -/
inductive Exit where
  | code (n : Int)
  /-- With a message in place of a code. -/
  | message (text : String)
deriving DecidableEq, Repr

def Exit.ok : Exit := .code 0

def Exit.number : Exit → Int
  | code n => n
  | message _ => 1

end Stimulus.Cli
