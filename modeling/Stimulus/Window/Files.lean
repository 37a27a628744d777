import Stimulus.Json.Read
import Stimulus.Pipeline.Input
import Stimulus.Window.Basic

/-!
# The files of the window
-/

namespace Stimulus.Window

open Pipeline

/-! ## Input -/

def detectClass : Act Unit := do
  let source ← read .source
  if !(← leadsSomewhere source) then
    let input ← read .input
    if ← leadsSomewhere input then
      if ← isRegisters input then
        tell .info ("SV file not generated yet. Class name will be detected after "
          ++ "XML→SV conversion.")
    return
  match ← attempt (onDesk (Run.readFile (pathOf source))) with
  | .error e => tell .warning s!"Could not detect class name: {e.message}"
  | .ok text =>
    match classIn? text with
    | none => return
    | some name =>
      write .className (.str (modelName name))
      tell .info s!"Detected class: {name} -> {modelName name}"

def outputPlace : Act String := do
  onDesk (Run.makeDirs Project.output)
  return Project.output

def choose (path : String) (loud : Bool) : Act Unit := do
  discard outputPlace
  let input := Input.of path
  let made := fun extension => s!"Output/{stem path}{extension}"
  let (name, lines) : String × List (Tone × String) := match input.kind with
    | .registers =>
      ("XML", [(.info, s!"XML file selected: {Path.baseName path}"),
        (.info, "  SV output -> " ++ made ".sv"), (.info, "  PyVSC output -> " ++ made ".py")])
    | .other extension =>
      ("N/A", [(.warning, s!"Unknown file type: {extension}. Treating as SV.")])
    | _ =>
      ("SV", [(.info, s!"SV file selected: {Path.baseName path}"),
        (.info, "  PyVSC output -> " ++ made ".py")])
  write .inputKind (.str name)
  write .source (.str input.source)
  write .model (.str input.model)
  if loud then lines.forM fun (tone, text) => tell tone text
  detectClass

/-! ## Hardware fields -/

def compareFields (listed : List String) (source : String) : Act Unit := do
  match ← attempt (onDesk (Run.readFile source)) with
  | .error e => tell .error s!"Could not parse SV file for field names: {e.message}"
  | .ok text =>
    match HwFields.unknown listed (HwFields.declared text) with
    | [] => tell .success s!"HW field validation: all {listed.length} field(s) found in SV."
    | missing =>
      let names := Text.join ", " missing
      tell .warning s!"HW field validation: {missing.length} field(s) not found in SV: {names}"
      present (.warning "HW Field Validation"
        (s!"{missing.length} field(s) in hw_field.txt are NOT present in the selected SV file:\n\n"
          ++ s!"{names}\n\nPlease check hw_field.txt for typos or stale entries."))

def checkFields (list : String) : Act Unit := do
  let source ← read .source
  if !(← leadsSomewhere source) then
    tell .info "SV file not available yet; skipping HW field validation."
    return
  match ← attempt (onDesk (Run.readFile list)) with
  | .error e => tell .error s!"Could not read HW field file: {e.message}"
  | .ok text =>
    match HwFields.listed text with
    | [] =>
      present (.warning "HW Field Validation"
        ("The HW field file is empty or contains no field entries.\n\n"
          ++ "Please check the file format:\n  field_name default_value"))
    | listed => compareFields listed (pathOf source)

/-! ## Settings -/

def savedFile : String := Project.place "gui_config.json"

def savedVars : List Var := [.input, .hwFields, .className, .vectors, .seed, .outputDir, .subsystem]

def save : Act Unit := do
  let fields ← savedVars.mapM fun v => return (v.name, ← read v)
  match ← attempt (onDesk (Run.writeFile savedFile (Json.obj fields).pretty)) with
  | .ok _ => return
  | .error e => print s!"[WARNING] Could not save GUI config: {e.message}"

def useDefaults : Act Unit := do
  let source := Project.place "isp_yuv2rgb.sv"
  let list := Project.place "hw_field.txt"
  if ← onDesk (Run.isThere source) then
    write .input (.str source)
    choose source false
  if ← onDesk (Run.isThere list) then write .hwFields (.str list)

def restore : Act Unit := do
  let text ← onDesk (Run.readFile savedFile)
  let saved ← match Json.read text with
    | .ok v => pure v
    | .error f => throw (.badValue (f.message text))
  let value := fun (v : Var) => onDesk (Run.ofOutcome (savedValue saved v.name v.start))
  let input ← value .input
  if ← leadsSomewhere input then
    write .input input
    choose (pathOf input) false
  else useDefaults
  let list ← value .hwFields
  if ← leadsSomewhere list then write .hwFields list
  [Var.className, .vectors, .seed, .outputDir, .subsystem].forM fun v => do write v (← value v)
  tell .info "Loaded previous session settings from gui_config.json"

def load : Act Bool := do
  if !(← onDesk (Run.isThere savedFile)) then return false
  match ← attempt restore with
  | .ok _ => return true
  | .error e =>
    print s!"[WARNING] Could not load GUI config: {e.message}"
    return false

def loadEnvironment : Act Unit := do
  let (settings, trouble) ← onDesk Project.readSettings
  match trouble with
  | some .missing =>
    print s!"[WARNING] Env.csh not found at: {Project.settingsFile}"
    print "          Using fallback defaults. Create Env.csh to configure paths."
  | trouble =>
    if let some (.unreadable e) := trouble then
      print s!"[WARNING] Error reading Env.csh: {e.message}"
    (Project.missingFrom settings).forM fun (name, value) =>
      print s!"[WARNING] {name} not found in Env.csh, using default: {value}"
  change fun w => { w with environment := Project.withDefaults settings }

end Stimulus.Window
