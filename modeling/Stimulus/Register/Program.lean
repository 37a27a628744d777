import Stimulus.Cli.Basic
import Stimulus.Register.RandItem
import Stimulus.Run.Basic

/-!
# From register descriptions to classes

The program that reads a description and writes the class of random fields, and the table of
top-level parameters if there are any.
-/

namespace Stimulus.Register

open Run

def defaultTablePath (classPath : String) : String :=
  Path.child (Path.parent classPath) (Path.stem classPath ++ "_top_params.csv")

/-- Reads the description at `source` and writes the class to `target`. A description that cannot be
read is reported and nothing else happens. -/
def convert (source target : String) (table : String := "") : Run Unit := do
  say s!"Processing file: {source} … "
  match ← attempt (readFile source) with
  | .error e => sayLine s!"failed ({e.message})"
  | .ok text =>
    sayLine "opened"
    let lines := linesOf text
    let params ← ofOutcome (topParams lines)
    if !params.isEmpty then
      writeFile (if table.isEmpty then defaultTablePath target else table) (exportTable params)
    let found ← ofOutcome (scan lines)
    sayLine ""
    writeFile target (← ofOutcome found.itemText)
    sayLine s!"Generated {target}"

/-- The program: a description, the place for the class and, if wanted, the place for the table. -/
def program : List String → Run Cli.Exit
  | source :: target :: rest => do
    convert source target (rest.headD "")
    return .ok
  | _ => pure <| .message
      "Usage: python XML_to_sv_Converter.py <source_xml> <dest_sv> [top_params.csv]"

end Stimulus.Register
