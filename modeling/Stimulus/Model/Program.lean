import Stimulus.Cli.Read
import Stimulus.Glob
import Stimulus.Model.Report
import Stimulus.Sanity

/-!
# The program that writes models

Takes one class source, a directory of them or a pattern, and writes a model for each.
-/

namespace Stimulus.Model

open Run

def defaultTarget : String := "example_sv_classes.py"

def command : Cli.Command where
  name := "sv_to_pyvsc.py"
  operands := [{ key := "input" }]
  options := [
    { key := "output", names := ["-o", "--output"], effect := .value .text },
    { key := "jobs", names := ["-j", "--jobs"], effect := .value .integer },
    { key := "class_jobs", names := ["--class-jobs"], effect := .value .integer },
    { key := "progress", names := ["--progress", "--no-progress"], effect := .toggle },
    { key := "report", names := ["-r", "--report"], effect := .flag true }]
  optionMarks := ["[-o OUTPUT]", "[-j JOBS]", "[--class-jobs CLASS_JOBS]",
    "[--progress | --no-progress]", "[-r]"]
  operandMarks := ["[input]"]
  description := [
    "",
    "SystemVerilog to pyvsc Translation Assistant",
    "",
    "positional arguments:",
    "  input                 Input SystemVerilog file, directory, or glob pattern",
    "                        (default: example_sv_classes.sv)",
    "",
    "options:",
    "  -h, --help            show this help message and exit",
    "  -o OUTPUT, --output OUTPUT",
    "                        Output Python file (default: example_sv_classes.py)",
    "  -j JOBS, --jobs JOBS  Number of worker threads (0 = auto)",
    "  --class-jobs CLASS_JOBS",
    "                        Number of worker threads per file for class",
    "                        translation (0 = auto)",
    "  --progress, --no-progress",
    "                        Show progress bar (requires tqdm)",
    "  -r, --report          Print translation report",
    "",
    "Default behavior:",
    "  sv_to_pyvsc.py                     -> input.sv -> output.py",
    "",
    "Examples:",
    "  sv_to_pyvsc.py input.sv",
    "  sv_to_pyvsc.py input.sv -o out.py",
    "  sv_to_pyvsc.py -r"]

/-- The files that the input stands for: those that fit a pattern, those below a directory, or the
one file. -/
def inputs (s : Store) (input : String) : List String :=
  if Glob.isPattern input then (s.matching input).map Path.tidy
  else
    let path := Path.tidy input
    if s.isDir path then s.endingIn path ".sv" else [path]

/-- The target of each file, if there are several: in the directory given, or beside the file. -/
def targets (dir? : Option String) (inputs : List String) : List (String × String) :=
  inputs.map fun path => (path, match dir? with
    | some dir => Path.child dir (Path.stem path ++ ".py")
    | none => Path.withSuffix path ".py")

def noProgressBar : Run Unit := complain "Progress disabled: tqdm not installed"

def tell (r : Sanity.Report) : Run Unit := do
  match r.log with
  | some entry => appendFile "sanity_check.log" entry
  | none => pure ()
  say r.printed

/-- How files are written. -/
structure Manner where
  settings : Settings := {}
  /-- How many classes are written at a time. -/
  jobs : Int := 1
  progress : Bool := false
  named : Bool := true
  parse : Sanity.Parser := Sanity.lenient

def writeFile (m : Manner) (path target : String) : Run Draft := do
  let text ← readFile path
  if m.progress then noProgressBar
  let d ← ofOutcome (ofText m.settings m.jobs text)
  tell (← ofOutcome (Sanity.reportOn m.parse d))
  Run.writeFile target d.code
  if m.named then sayLine s!"Output written to: {target}"
  return d

def stop (text : String) : Run Cli.Exit := do
  complain ("Error" ++ text)
  return .code 1

/-- Writes the model of the only file. The report is on a writer that has written nothing. -/
def writeOne (m : Manner) (path target : String) : Run Cli.Exit := do
  match ← attempt (writeFile m path target) with
  | .error e => stop s!" during translation: {e.message}"
  | .ok d =>
    if m.settings.verbose then
      sayLines reportStart
      sayLines (← ofOutcome (report .unwritten d.journal))
    return .ok

/-- Writes the models of several files. All are tried; those that failed are reported at the end. A
failure that has no message does not count. -/
def writeAll (m : Manner) (files : List (String × String)) : Run Cli.Exit := do
  let failed ← files.filterMapM fun (path, target) => do
    match ← attempt (writeFile m path target) with
    | .ok _ => return none
    | .error e =>
      return if e.message.isEmpty then none
        else some s!"Error during translation of {path}: {e.message}"
  failed.forM complain
  return if failed.isEmpty then .ok else .code 1

def writeSeveral (parse : Sanity.Parser) (args : Cli.Arguments) (progress : Bool) (target : String)
    (files : List String) : Run Cli.Exit := do
  let dir? := if target = defaultTarget then none else some (Path.tidy target)
  match dir? with
  | some dir =>
    if !(Path.suffix dir).isEmpty then
      return ← stop ": Output must be a directory when translating multiple files."
    makeDirs dir
  | none => pure ()
  if args.flag "report" then
    complain "Note: --report is only shown for single-file translations."
  if progress then noProgressBar
  let jobs := ((args.integer? "class_jobs").filter (0 < ·)).getD 1
  writeAll { settings := { metrics := false }, jobs, named := !progress, parse } (targets dir? files)

def program (args : List String) (parse : Sanity.Parser := Sanity.lenient) : Run Cli.Exit :=
  command.run args fun args => do
    let input := (args.text? "input").getD "example_sv_classes.sv"
    let target := (args.text? "output").getD defaultTarget
    let progress := (args.flag? "progress").getD true
    let files ← look (inputs · input)
    match ← look fun s => files.find? fun f => !s.exists f with
    | some path => return ← stop s!": File not found: {path}"
    | none => pure ()
    match ← look fun s => files.find? fun f => !s.isFile f with
    | some path => return ← stop s!": Input is not a regular file: {path}"
    | none => pure ()
    match files with
    | [] => stop s!": No input files found for '{input}'"
    | [path] =>
      let verbose := args.flag "report"
      let jobs := ((args.integer? "class_jobs").filter (0 < ·)).getD
        (((args.integer? "jobs").filter (0 < ·)).getD 1)
      writeOne { settings := { verbose, metrics := verbose }, jobs, progress, parse } path
        (Path.tidy target)
    | files => writeSeveral parse args progress target files

end Stimulus.Model
