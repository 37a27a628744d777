import Stimulus.Window.Files

/-!
# The steps of the pipeline in the window

Each step runs one command and shows what it prints. The `run…` acts do the step; the others first
check that it can be done, and tell the user if not.
-/

namespace Stimulus.Window

open Pipeline

/-! ## Commands -/

def runLine (title : String) (subsystem : Bool) (line : String) : Act Bool := do
  let bar := Text.rule '=' 50
  tell .header bar
  tell .header title
  tell .header bar
  let environment := (← get).window.environment
  let full := if subsystem then Project.subsystemLine environment line else line
  tell .command ((if subsystem then "Command (WSL): " else "Command: ") ++ line)
  tell .info ""
  let command : Command := { line := .shell full, dir := some Project.root, unbuffered := true }
  match ← attempt (onDesk (Run.start command)) with
  | .error e =>
    tell .error s!"Error running command: {e.message}"
    return false
  | .ok reply =>
    reply.lines.forM fun line =>
      let line := Text.stripRight line
      tell (.ofOutput line) line
    if reply.code == 0 then
      tell .success s!"\n{title} - COMPLETED SUCCESSFULLY"
      return true
    tell .error s!"\n{title} - FAILED (exit code: {reply.code})"
    return false

/-! ## Steps -/

def converter : String := Project.place "XML_to_sv_Converter.py"

def converterThere : Act Bool := do
  if ← onDesk (Run.isThere converter) then return true
  tell .error "ERROR: XML_to_sv_Converter.py not found in project directory!"
  tell .error s!"Expected at: {converter}"
  return false

def runConverter (input : Json) : Act Bool := do
  let source := (← read .source).shown
  let line := s!"python \"{converter}\" \"{input.shown}\" \"{source}\""
  let passed ← runLine "Step 0: XML to SV Conversion" false line
  if passed then tell .success s!"SV file generated: {source}"
  return passed

def runConvert : Act Bool := do
  let input ← read .input
  if !(← isRegisters input) then
    tell .info "Input is SV file. Skipping XML→SV conversion."
    return true
  if !(← leadsSomewhere input) then
    tell .error "Error: XML file not found."
    return false
  if !(← converterThere) then return false
  let passed ← runConverter input
  if passed then detectClass
  return passed

def runMakeModel : Act Bool := do
  let source ← read .source
  let model ← read .model
  let tool := Project.place "sv_to_pyvsc.py"
  let line := s!"python \"{tool}\" \"{source.shown}\" -o \"{model.shown}\""
  let passed ← runLine "Step 1: SV to PyVSC Translation" false line
  if passed then
    summarize s!"Translation completed!\nOutput: {model.shown}"
    detectClass
  return passed

def runTryModel : Act Bool := do
  let model ← read .model
  let place := Path.mounted (← outputPlace)
  let line := s!"cd {place} && python {Path.baseName (pathOf model)}"
  let passed ← runLine "Step 2: PyVSC Randomization Test (from Output/)" true line
  summarize (if passed then "PyVSC randomization test passed!"
    else "PyVSC randomization test had issues. Check log for details.")
  return passed

def runDrawVectors : Act Bool := do
  let model ← read .model
  let list ← read .hwFields
  let className ← read .className
  let count ← read .vectors
  let seed ← read .seed
  let dir ← read .outputDir
  let place := Path.mounted (← outputPlace)
  let target ← onDesk (Run.ofOutcome (mountedDir dir))
  let tool := Path.mounted Project.root ++ "/generate_test_vectors.py"
  let line := s!"cd {place} && python {tool} {stem (pathOf model)} {className.shown} "
    ++ s!"{Path.mounted (pathOf list)} {count.shown} {target} --seed {seed.shown}"
  let passed ← runLine "Step 3: Test Vector Generation" true line
  if passed then
    summarize ("Test vector generation completed!\n"
      ++ s!"Generated: {count.shown} vectors\nOutput directory: {dir.shown}")
  return passed

/-! ## Actions for single steps -/

def refuse (why : String) : Act Unit := present (.error "Error" why)

def convert : Act Unit := do
  let input ← read .input
  if !(← leadsSomewhere input) then return ← refuse "Please select a valid input file."
  if !(← isRegisters input) then
    return ← present (.info "Info" "Input is already an SV file. Skipping XML→SV conversion.")
  atWork "Converting XML to SV..." do
    if !(← converterThere) then return
    if ← runConverter input then
      let source := (← read .source).shown
      summarize s!"XML→SV conversion completed!\nOutput: {source}"
      detectClass
    else tell .error "XML to SV conversion failed."

def makeModel : Act Unit := do
  if !(← leadsSomewhere (← read .source)) then
    return ← refuse "SV file not found. If using XML input, run 'XML→SV' first."
  atWork "Running translation..." (discard runMakeModel)

def tryModel : Act Unit := do
  if !(← leadsSomewhere (← read .model)) then
    return ← refuse "Please run translation first or select a valid Python file."
  if (← read .subsystem).isVoid then
    present (.warning "Warning" "PyVSC tests require WSL. Enabling WSL mode.")
    write .subsystem (.bool true)
  atWork "Running PyVSC test..." (discard runTryModel)

def drawVectors : Act Unit := do
  if !(← leadsSomewhere (← read .model)) then return ← refuse "Please run translation first."
  if !(← leadsSomewhere (← read .hwFields)) then
    return ← refuse "Please select a valid HW field file."
  if (← read .className).isVoid then return ← refuse "Please specify the PyVSC class name."
  atWork "Generating test vectors..." (discard runDrawVectors)

/-! ## All steps -/

/-- How the steps went that were run after declarations were there. -/
structure Outcomes where
  /-- The input was a register description. -/
  registers : Bool
  tried : Bool
  drawn : Bool
deriving DecidableEq, Repr

def sumUp (o : Outcomes) : Act Unit := do
  let bar := Text.rule '=' 50
  let word := fun (passed : Bool) (other : String) => if passed then "PASS" else other
  let tone := fun (passed : Bool) => if passed then Tone.success else Tone.warning
  let tried := word o.tried "FAIL/WARNINGS"
  let drawn := word o.drawn "SKIPPED/FAIL"
  tell .header ("\n" ++ bar)
  tell .header "SUMMARY"
  tell .header bar
  if o.registers then tell .success "Step 0 (XML→SV):         PASS"
  tell .success "Step 1 (Translation):     PASS"
  tell (tone o.tried) s!"Step 2 (PyVSC Test):      {tried}"
  tell (tone o.drawn) s!"Step 3 (Vector Gen):      {drawn}"
  let place ← outputPlace
  tell .info s!"\nOutput directory: {place}"
  let skipped := word o.drawn "SKIPPED"
  let dir := (← read .outputDir).shown
  summarize ((if o.registers then "XML→SV: PASS\n" else "")
    ++ s!"Translation: PASS\nPyVSC Test: {tried}\nVector Generation: {skipped}\nOutput: {place}"
    ++ (if o.drawn then s!"\nVectors: {dir}" else ""))

/-- Draws vectors if there is a list of hardware fields and a class: whether it succeeded. -/
def drawIfPossible : Act Bool := do
  if ← leadsSomewhere (← read .hwFields) then
    if !(← read .className).isVoid then return ← runDrawVectors
  tell .warning "Skipping vector generation (missing HW field file or class name)"
  return false

def runAll : Act Unit :=
  atWork "Running all steps..." do
    change fun w => { w with log := [] }
    let input ← read .input
    let registers ← if input.isVoid then pure false else isRegisters input
    if !(← leadsSomewhere input) then
      tell .error "Error: Please select a valid input file (.sv or .xml)."
      return
    if registers then
      if !(← runConvert) then
        tell .error "XML→SV conversion failed. Stopping."
        return
    let source ← read .source
    if !(← leadsSomewhere source) then
      tell .error s!"Error: SV file not found at {source.shown}"
      return
    if !(← runMakeModel) then
      tell .error "Translation failed. Stopping."
      return
    let tried ← runTryModel
    let drawn ← drawIfPossible
    sumUp { registers, tried, drawn }

end Stimulus.Window
