import Stimulus.Console.Look
import Stimulus.Console.Settings
import Stimulus.Pipeline.Input

/-!
# The steps of the pipeline

A job runs steps one after the other: declarations are made from registers, a model from
declarations, the model is tried, and vectors are drawn from it. Each step is a command.
-/

namespace Stimulus.Console

open Pipeline Run

/-- A step of the pipeline. -/
inductive Step where
  | convert
  | model
  | trial
  | vectors
deriving DecidableEq, Repr

namespace Step

def all : List Step := [convert, model, trial, vectors]

def number : Step → Nat
  | convert => 0
  | model => 1
  | trial => 2
  | vectors => 3

def title : Step → String
  | convert => "XML -> SV Conversion"
  | model => "SV -> PyVSC Translation"
  | trial => "PyVSC Randomization Test"
  | vectors => "Test Vector Generation"

end Step

/-- How a step ended. -/
inductive Verdict where
  | passed
  | failed
  | skipped
deriving DecidableEq, Repr

/-- What the steps work on. -/
structure Job where
  look : Look
  verbose : Bool
  quiet : Bool
  settings : Settings
  environment : Env.Settings
  input : Input
  steps : List Step

def runner : String := "python3"

namespace Job

def tell (j : Job) (tone : Tone) (text : String) : Run Unit := j.look.tell tone text

def inSubsystem (j : Job) : Bool := !j.settings.subsystem.isVoid

def detectClass (j : Job) : Run (Option String) := do
  if !(← isThere j.input.source) then return none
  match ← attempt (readFile j.input.source) with
  | .ok text => return (classIn? text).map modelName
  | .error _ => return none

def withDetectedClass (j : Job) : Run Job := do
  match ← j.detectClass with
  | none | some "" => return j
  | some name => return { j with settings := { j.settings with className := .str name } }

/-! ## Hardware fields -/

def compareFields (j : Job) (listed : List String) : Run Unit := do
  match ← attempt (readFile j.input.source) with
  | .error e => j.tell .error s!"Could not parse SV file: {e.message}"
  | .ok text =>
    match HwFields.unknown listed (HwFields.declared text) with
    | [] =>
      j.tell .success s!"HW field validation: all {listed.length} field(s) found in SV."
    | missing =>
      let names := Text.join ", " missing
      j.tell .warning s!"HW field validation: {missing.length} field(s) NOT in SV: {names}"

def checkFields (j : Job) : Run Unit := do
  let list := pathOf j.settings.hwFields
  if !(← isThere j.input.source) || !(← isThere list) then return
  match ← attempt (readFile list) with
  | .error e => j.tell .error s!"Could not read HW field file: {e.message}"
  | .ok text =>
    match HwFields.listed text with
    | [] => j.tell .warning "Warning: HW field file is empty."
    | listed => j.compareFields listed

/-! ## Commands -/

def runLine (j : Job) (subsystem : Bool) (dir line : String) : Run Bool := do
  let (mark, full) :=
    if subsystem then ("WSL> ", Project.subsystemLine j.environment line) else ("CMD> ", line)
  if j.verbose then j.tell .command (mark ++ line)
  match ← attempt (start { line := .shell full, dir := some dir, unbuffered := true }) with
  | .error e =>
    j.tell .error s!"Error running command: {e.message}"
    return false
  | .ok reply =>
    if !j.quiet then
      reply.lines.forM fun line =>
        let line := Text.stripRight line
        j.tell (.ofOutput line) ("  " ++ line)
    return reply.code == 0

def tellTitle (j : Job) (s : Step) : Run Unit := do
  let inner := s!" Step {s.number}: {s.title} "
  let width := max inner.length 60
  let bar := "+" ++ Text.rule '=' width ++ "+"
  j.tell .info ""
  j.tell .header bar
  j.tell .header ("|" ++ Text.padRight width inner ++ "|")
  j.tell .header bar

def tellVerdict (j : Job) (s : Step) (passed : Bool) : Run Unit := do
  let (word, tone) : String × Tone := if passed then ("PASSED", .success) else ("FAILED", .error)
  j.tell tone s!"  Step {s.number} {word}  [0.00s]"
  j.tell .info ""

/-- Runs the command of a step, and then, if it succeeded, `after`. -/
def command (j : Job) (s : Step) (subsystem : Bool) (dir line : String) (after : Run Job) :
    Run (Job × Verdict) := do
  j.tellTitle s
  let passed ← j.runLine subsystem dir line
  let j ← if passed then after else pure j
  j.tellVerdict s passed
  return (j, if passed then .passed else .failed)

def fail (j : Job) (why : String) : Run (Job × Verdict) := do
  j.tell .error why
  return (j, .failed)

def skip (j : Job) (tone : Tone) (why : String) : Run (Job × Verdict) := do
  j.tell tone why
  return (j, .skipped)

/-! ## Steps -/

def withTable (j : Job) (table : String) : Run Job := do
  if !(← isThere table) then return j
  j.tell .success s!"Override CSV: {table}"
  return { j with settings := { j.settings with overrides := .str table } }

def convert (j : Job) : Run (Job × Verdict) := do
  if j.input.kind != .registers then
    return ← j.skip .info "Input is SV file. Skipping XML->SV conversion."
  let file := pathOf j.settings.input
  if !(← isThere file) then return ← j.fail s!"Error: XML file not found: {file}"
  let tool := Project.place "XML_to_sv_Converter.py"
  if !(← isThere tool) then return ← j.fail "Error: XML_to_sv_Converter.py not found!"
  let source := j.input.source
  let table := Path.joined (Path.dirName source) (stem source ++ "_top_params.csv")
  let line := s!"{runner} \"{tool}\" \"{file}\" \"{source}\" \"{table}\""
  j.command .convert false Project.root line do
    j.tell .success s!"SV file generated: {source}"
    (← j.withTable table).withDetectedClass

def makeModel (j : Job) : Run (Job × Verdict) := do
  let source := j.input.source
  if !(← isThere source) then return ← j.fail s!"Error: SV file not found: {source}"
  let tool := Project.place "sv_to_pyvsc.py"
  let line := s!"{runner} \"{tool}\" \"{source}\" -o \"{j.input.model}\""
  j.command .model false Project.root line do
    j.tell .success s!"PyVSC output: {j.input.model}"
    j.withDetectedClass

def modelDir (j : Job) : String := if j.inSubsystem then Project.root else Project.output

def tryModel (j : Job) : Run (Job × Verdict) := do
  if !(← isThere j.input.model) then
    return ← j.fail "Error: PyVSC file not found. Run translation first."
  let file := Path.baseName j.input.model
  let line :=
    if j.inSubsystem then s!"cd {Path.mounted Project.output} && python {file}"
    else s!"{runner} \"{file}\""
  j.command .trial j.inSubsystem j.modelDir line (pure j)

def tableArguments (j : Job) : Run String := do
  let table := pathOf j.settings.overrides
  if !(← isThere table) then return ""
  if j.inSubsystem then return s!" --overrides {Path.mounted table}"
  return s!" --overrides \"{table}\""

def vectorLine (j : Job) (table : String) : Outcome String := do
  let s := j.settings
  let list := pathOf s.hwFields
  let model := s!"{stem j.input.model} {s.className.shown}"
  let count := s.vectors.shown
  let seed := s!"--seed {s.seed.shown}{table}"
  let tool := "generate_test_vectors.py"
  if j.inSubsystem then
    let dir ← mountedDir s.outputDir
    return s!"cd {Path.mounted Project.output} && python {Path.mounted Project.root}/{tool} "
      ++ s!"{model} {Path.mounted list} {count} {dir} {seed}"
  return s!"{runner} \"{Project.place tool}\" {model} \"{list}\" {count} {s.outputDir.shown} {seed}"

def drawVectors (j : Job) : Run (Job × Verdict) := do
  if !(← isThere j.input.model) then return ← j.fail "Error: PyVSC file not found."
  if !(← isThere (pathOf j.settings.hwFields)) then
    return ← j.skip .warning "Skipping: HW field file not specified or not found."
  if j.settings.className.isVoid then
    return ← j.skip .warning "Skipping: Class name not specified."
  let line ← ofOutcome (j.vectorLine (← j.tableArguments))
  j.command .vectors j.inSubsystem j.modelDir line (pure j)

def perform (j : Job) : Step → Run (Job × Verdict)
  | .convert => j.convert
  | .model => j.makeModel
  | .trial => j.tryModel
  | .vectors => j.drawVectors

def performAll (j : Job) : List Step → Run (Job × List (Step × Verdict))
  | [] => pure (j, [])
  | s :: rest => do
    let (j, verdict) ← j.perform s
    if verdict = .failed then
      j.tell .error s!"Step {s.number} failed. Stopping pipeline."
      return (j, (s, verdict) :: rest.map fun s => (s, Verdict.skipped))
    let (j, verdicts) ← j.performAll rest
    return (j, (s, verdict) :: verdicts)

end Job

end Stimulus.Console
