import Stimulus.Window.Form
import Stimulus.Window.Steps

/-!
# The window at work
-/

namespace Stimulus.Window

open Pipeline

def start : Act Unit := do
  loadEnvironment
  discard outputPlace
  if !(← load) then useDefaults

def browseInput : Act Unit := do
  present (.openFile "Select SystemVerilog or XML File" [("SV / XML files", "*.sv *.xml"),
    ("SystemVerilog files", "*.sv"), ("XML files", "*.xml"), ("All files", "*.*")])
  let path := (← get).answer
  if path.isEmpty then return
  write .input (.str path)
  choose path true

def browseHwFields : Act Unit := do
  present (.openFile "Select HW Field File" [("Text files", "*.txt"), ("All files", "*.*")])
  let path := (← get).answer
  if path.isEmpty then return
  write .hwFields (.str path)
  checkFields path

def browseOutputDir : Act Unit := do
  present (.chooseDir "Select Output Directory")
  let path := (← get).answer
  if !path.isEmpty then write .outputDir (.str path)

def openOutput : Act Unit := do
  let place ← outputPlace
  let tool := if (← get).platform = "darwin" then "open" else "xdg-open"
  match ← attempt (onDesk (Run.start { line := .words [tool, place] })) with
  | .ok _ => return
  | .error e => tell .warning s!"Could not open output folder: {e.message}"

def about : Act Unit :=
  present (.info "About"
    ("SV / XML to PyVSC Translation Tool\n\nVersion: 2.1\n\n"
      ++ "This tool converts SystemVerilog or XML constraint models to PyVSC Python code and "
      ++ "generates randomized test vectors.\n\nPipeline:\n"
      ++ "  XML → SV → PyVSC (.py) → Test → Vectors\n\nFeatures:\n"
      ++ "- XML to SV conversion (via XML_to_sv_Converter.py)\n- SV to PyVSC translation\n"
      ++ "- PyVSC randomization testing\n- Bulk test vector generation\n"
      ++ "- All output in: Output/\n- Session settings saved automatically\n\n"
      ++ "Developed for Samsung Hardware Verification"))

def close : Act Unit := do
  save
  change fun w => { w with closed := true }

def perform : Action → Act Unit
  | .browseInput => browseInput
  | .browseHwFields => browseHwFields
  | .browseOutputDir => browseOutputDir
  | .openOutput => openOutput
  | .close => close
  | .convert => convert
  | .makeModel => makeModel
  | .tryModel => tryModel
  | .drawVectors => drawVectors
  | .runAll => runAll
  | .about => about
  | .detectClass => detectClass
  | .clearLog => change fun w => { w with log := [] }
  | .showMessages | .showEnd => return

/-- Performs the action of the `n`-th of the things with a label. -/
def performNth (things : List (String × Action)) (label : String) (n : Nat) : Act Unit :=
  match (things.filter fun (l, _) => l = label)[n]? with
  | some (_, a) => perform a
  | none => return

def press (label : String) (n : Nat) : Act Unit := performNth (form []).buttons label n

def pick (label : String) : Act Unit := performNth (form []).entries label 0

end Stimulus.Window
