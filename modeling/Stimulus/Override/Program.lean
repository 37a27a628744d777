import Stimulus.Cli.Read
import Stimulus.Override.Source

/-!
# The program for override tables

Shows a table, lets a user edit it line by line, or makes one for a model.
-/

namespace Stimulus.Override

open Run

def command (name : String) : Cli.Command where
  name
  operands := [{ key := "csv_path" }]
  options := [
    { key := "edit", names := ["--edit"], effect := .flag true },
    { key := "all", names := ["--all"], effect := .flag true },
    { key := "generate_from", names := ["--generate-from"], effect := .value .text },
    { key := "output", names := ["-o", "--output"], effect := .value .text },
    { key := "merge", names := ["--merge"], effect := .value .text }]
  optionMarks := ["[--edit]", "[--all]", "[--generate-from PYVSC_FILE]", "[-o CSV]",
    "[--merge EXISTING_CSV]"]
  operandMarks := ["[csv_path]"]
  description := [
    "",
    "View, edit, or generate a parameter override CSV.",
    "",
    "positional arguments:",
    "  csv_path              Path to override CSV (for view/edit)",
    "",
    "options:",
    "  -h, --help            show this help message and exit",
    "  --edit                Interactive edit mode (set OverrideMin/Max)",
    "  --all                 Show all parameters (not just overridden)",
    "  --generate-from PYVSC_FILE",
    "                        Generate override CSV from a PyVSC source file",
    "  -o CSV, --output CSV  Output CSV path (for --generate-from)",
    "  --merge EXISTING_CSV  Merge with existing CSV (preserves user edits)",
    "",
    "Examples:",
    s!"  {name} overrides.csv                          # print summary",
    s!"  {name} overrides.csv --all                    # show all parameters",
    s!"  {name} overrides.csv --edit                   # interactive edit",
    s!"  {name} --generate-from model.py -o out.csv    # generate from PyVSC file",
    s!"  {name} --generate-from model.py -o out.csv --merge existing.csv",
    "        "]

def askBound (title : String) (old : Int) : Run Int := do
  let answer := Text.strip (← ask s!"    {title} [{old}]: ")
  if answer.isEmpty then return old
  match Text.integer answer with
  | .ok n => return n
  | .error _ =>
    sayLine s!"    Invalid — keeping {old}"
    return old

def editEntry (e : Entry) : Run Entry := do
  sayLine s!"  {e.name}  (current: [{e.newLow}, {e.newHigh}])"
  let newLow ← askBound "OverrideMin" e.newLow
  let newHigh ← askBound "OverrideMax" e.newHigh
  sayLine ""
  return { e with newLow, newHigh }

def edit (t : Table) (path : String) : Run Unit := do
  sayLines ["Enter new OverrideMin and OverrideMax for each parameter.",
    "Press Enter to keep current value, or type a number to change.", ""]
  let t : Table ← t.mapM editEntry
  t.save path
  sayLine s!"Saved to {path}"
  sayLines (t.summary true)

def given? (args : Cli.Arguments) (key : String) : Option String :=
  (args.text? key).filter fun s => !s.isEmpty

def generateTable (model : String) (args : Cli.Arguments) : Run Unit := do
  let stem := (Path.splitExt (Path.baseName model)).1
  let target := (given? args "output").getD s!"{stem}_overrides.csv"
  let known ← match given? args "merge" with
    | none => pure []
    | some path => do
      let known ← Table.load path
      sayLine s!"Merging with {known.length} existing overrides from {path}"
      pure known
  let t ← Table.generate model target known
  sayLines (t.summary true)

def program (name : String) (args : List String) : Run Cli.Exit :=
  (command name).run args fun args => do
    match given? args "generate_from", given? args "csv_path" with
    | some model, _ =>
      generateTable model args
      return .ok
    | none, none =>
      sayLines (command name).help
      return .code 1
    | none, some path =>
      let t ← Table.load path
      let editing := args.flag "edit"
      sayLines (t.summary (args.flag "all" || editing))
      if editing then edit t path
      return .ok

end Stimulus.Override
