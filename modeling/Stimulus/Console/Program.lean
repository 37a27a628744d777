import Stimulus.Console.Job

/-!
# The pipeline on the console
-/

namespace Stimulus.Console

open Pipeline Run

/-- What the machine is like. -/
structure Machine where
  platform : String := "linux"
  clock : String
  terminal : Bool := false
deriving DecidableEq, Repr

def version : String := "1.2.0"

def command : Cli.Command where
  name := "sv_to_pyvsc_console"
  operands := [{ key := "input" }]
  options := [
    { key := "step", names := ["--step"], effect := .values .text },
    { key := "hw_field", names := ["--hw-field"], effect := .value .text },
    { key := "output_dir", names := ["-o", "--output-dir"], effect := .value .text },
    { key := "overrides", names := ["--overrides", "--top-params"], effect := .value .text },
    { key := "class_name", names := ["--class-name"], effect := .value .text },
    { key := "num_vectors", names := ["--num-vectors"], effect := .value .integer },
    { key := "seed", names := ["--seed"], effect := .value .integer },
    { key := "use_wsl", names := ["--wsl"], effect := .flag true },
    { key := "use_wsl", names := ["--no-wsl"], effect := .flag false },
    { key := "no_save", names := ["--no-save"], effect := .flag true },
    { key := "reset_config", names := ["--reset-config"], effect := .flag true },
    { key := "no_color", names := ["--no-color"], effect := .flag true },
    { key := "verbose", names := ["-v", "--verbose"], effect := .flag true },
    { key := "quiet", names := ["-q", "--quiet"], effect := .flag true },
    { key := "version", names := ["--version"]
      effect := .version s!"sv_to_pyvsc_console {version}" }]
  optionMarks := ["[--step N [N ...]]", "[--hw-field HW_FIELD]", "[-o OUTPUT_DIR]",
    "[--overrides CSV]", "[--class-name CLASS_NAME]", "[--num-vectors NUM_VECTORS]",
    "[--seed SEED]", "[--wsl]", "[--no-wsl]", "[--no-save]", "[--reset-config]", "[--no-color]",
    "[-v]", "[-q]", "[--version]"]
  operandMarks := ["[input]"]
  description := [
    "",
    "SV / XML to PyVSC Translation Pipeline (Console)",
    "",
    "positional arguments:",
    "  input                 Input file (.sv or .xml). Uses saved config if",
    "                        omitted.",
    "",
    "options:",
    "  -h, --help            show this help message and exit",
    "  --step N [N ...]      Steps to run: 0 1 2 3 or 'all' (default: all)",
    "  --hw-field HW_FIELD   Path to hw_field.txt",
    "  -o OUTPUT_DIR, --output-dir OUTPUT_DIR",
    "                        Output directory for test vectors",
    "  --overrides CSV, --top-params CSV",
    "                        Parameter override CSV for range overrides (auto-",
    "                        detected from XML step)",
    "  --class-name CLASS_NAME",
    "                        PyVSC class name (auto-detected if omitted)",
    "  --num-vectors NUM_VECTORS",
    "                        Number of test vectors (default: 10)",
    "  --seed SEED           Random seed (default: 12345)",
    "  --wsl                 Use WSL for PyVSC execution (default)",
    "  --no-wsl              Disable WSL execution",
    "  --no-save             Do not persist settings",
    "  --reset-config        Clear saved config and use defaults",
    "  --no-color            Disable coloured output",
    "  -v, --verbose         Show full subprocess command strings",
    "  -q, --quiet           Suppress subprocess stdout",
    "  --version             show program's version number and exit",
    "",
    "examples:",
    "  sv_to_pyvsc_console example_sv_classes.sv",
    "  sv_to_pyvsc_console input.xml --hw-field hw_field.txt --num-vectors 100",
    "  sv_to_pyvsc_console --step 1 2",
    "  sv_to_pyvsc_console example_sv_classes.sv -v --step all"]

def stepNames : List String := ["0", "1", "2", "3", "all"]

def stepsOf (names : List String) : List Step :=
  if names.contains "all" then Step.all
  else Step.all.filter fun s => names.contains (toString s.number)

/-! ## Messages -/

def tellBanner (l : Look) : Run Unit :=
  let bar := l.paint .cyan (Text.rule '=' 80)
  sayLines ["", bar,
    l.paint .boldCyan "  SV / XML  to  PyVSC  Translation Pipeline  (Console)",
    l.paint .grey s!"  Version {version}", bar, ""]

def shownOr (words : String) (v : Json) : String := if v.isVoid then words else v.shown

def kindName : InputKind → String
  | .absent => "N/A"
  | .registers => "XML"
  | _ => "SV"

def tellSettings (m : Machine) (j : Job) : Run Unit := do
  let s := j.settings
  j.tell .header "Configuration:"
  let line := fun (name value : String) => j.tell .info s!"  {Text.padRight 12 name} : {value}"
  line "Input file" (shownOr "(none)" s.input)
  line "Input type" (kindName j.input.kind)
  line "SV file" j.input.source
  line "PyVSC output" j.input.model
  line "HW field" (shownOr "(none)" s.hwFields)
  line "Class name" (shownOr "(auto-detect)" s.className)
  line "Num vectors" s.vectors.shown
  line "Random seed" s.seed.shown
  line "Output dir" s.outputDir.shown
  line "Overrides" (shownOr "(none)" s.overrides)
  line "Platform" m.platform
  line "Use WSL" s.subsystem.shown
  if j.inSubsystem then
    let value := fun name => (j.environment.get? name).getD "N/A"
    line "WSL distro" (value "WSL_DISTRO")
    line "WSL project" (value "WSL_PROJECT_PATH")
    line "WSL venv" (value "WSL_VENV_PATH")
  else line "Python" s!"{runner} (native, no venv)"
  line "Steps" ("[" ++ Text.join ", " (j.steps.map fun s => toString s.number) ++ "]")
  j.tell .info ""

def summaryRow (s : Step) (v : Verdict) : String × Tone :=
  let (word, tone, time) : String × Tone × String := match v with
    | .skipped => ("SKIP", .warning, "     --")
    | .passed => ("PASS", .success, "  0.00s")
    | .failed => ("FAIL", .error, "  0.00s")
  let cells := [Text.padRight 28 s.title, Text.padRight 8 word, Text.padLeft 8 time]
  (Text.join " | " (s!"   {s.number}  " :: cells), tone)

def tellSummary (j : Job) (verdicts : List (Step × Verdict)) : Run Unit := do
  let bar := Text.rule '=' 80
  let line := fun n => Text.rule '-' n
  let middle := s!" {line 5}-+-{line 28}-+-{line 8}-+-{line 8}"
  j.tell .info ""
  j.tell .header bar
  j.tell .header (Text.center 80 "PIPELINE SUMMARY")
  j.tell .header bar
  j.tell .header (" Step  | " ++ Text.padRight 28 "Name" ++ " | Status   |     Time")
  j.tell .header middle
  verdicts.forM fun (s, v) =>
    let (row, tone) := summaryRow s v
    j.tell tone row
  j.tell .header middle
  j.tell .header (" " ++ Text.rule ' ' 37 ++ " Total:    0.00s")
  j.tell .info ""
  j.tell .info s!" Output directory : {Project.output}"
  if verdicts.any fun (s, v) => s = .vectors && v != .skipped then
    j.tell .info s!" Test vectors     : {j.settings.outputDir.shown}"
  j.tell .header bar
  j.tell .info ""

/-! ## The program -/

def environment (l : Look) : Run Env.Settings := do
  let (settings, trouble) ← Project.readSettings
  match trouble with
  | some .missing => l.tell .warning s!"Warning: Env.csh not found at {Project.settingsFile}"
  | some (.unreadable e) => l.tell .warning s!"Warning: Error reading Env.csh: {e.message}"
  | none => pure ()
  return Project.withDefaults settings

def inputOf (l : Look) (path : String) : Run Input := do
  if path.isEmpty then return {}
  let input := Input.of path
  match input.kind with
  | .other extension =>
    l.tell .warning s!"Warning: Unknown extension '{extension}', treating as SV."
  | _ => pure ()
  return input

def jobOf (l : Look) (args : Cli.Arguments) (steps : List Step) : Run Job := do
  makeDirs Project.output
  let environment ← environment l
  let saved ← if args.flag "reset_config" then pure (.obj []) else readSaved
  let list := Project.place "hw_field.txt"
  let list := if ← isThere list then list else ""
  let settings ← ofOutcome (Settings.of args saved list)
  let input ← inputOf l (pathOf settings.input)
  let job : Job := { look := l, verbose := args.flag "verbose", quiet := args.flag "quiet"
                     settings, environment, input, steps }
  if settings.className.isVoid then job.withDetectedClass else return job

def save (j : Job) : Run Unit := do
  match ← attempt (writeFile savedFile j.settings.toJson.pretty) with
  | .ok _ => pure ()
  | .error e => j.tell .warning s!"Warning: Could not save config: {e.message}"
  j.tell .info s!"Settings saved to {savedFile}"

def runJob (m : Machine) (keep : Bool) (j : Job) : Run Cli.Exit := do
  tellBanner j.look
  tellSettings m j
  j.checkFields
  let (j, verdicts) ← j.performAll j.steps
  tellSummary j verdicts
  if keep then save j
  return .code (if verdicts.any fun (_, v) => v = .failed then 1 else 0)

def program (m : Machine) (args : List String) : Run Cli.Exit :=
  command.run args fun args => do
    let names := (args.texts? "step").getD ["all"]
    match names.find? fun n => !stepNames.contains n with
    | some name => command.refuse s!"Invalid step '{name}'.  Choose from: 0, 1, 2, 3, all"
    | none =>
      let l : Look := { clock := m.clock, coloured := m.terminal && !args.flag "no_color" }
      let job ← jobOf l args (stepsOf names)
      runJob m (!args.flag "no_save") job

end Stimulus.Console
