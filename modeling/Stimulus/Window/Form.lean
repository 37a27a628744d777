import Stimulus.Window.Layout

/-!
# The form

The widgets of the window: its menus, the panel with the settings and buttons, the log, the summary
and the line that says what it is doing.
-/

namespace Stimulus.Window.Form

open Build

/-! ## Menus -/

def entry (menu : Nat) (label : String) (a : Action) : Build Unit :=
  call menu "add_command" [] [("label", .text label), ("command", .action a)]

def line (menu : Nat) : Build Unit := call menu "add_separator" [] []

/-- A menu in the bar; `build` adds its entries. -/
def menu (bar : Nat) (label : String) (build : Nat → Build Unit) : Build Unit := do
  let menu ← add .menu (some bar) [("tearoff", .number 0)]
  call bar "add_cascade" [] [("label", .text label), ("menu", .widget menu)]
  build menu

def menus (window : Nat) : Build Unit := do
  let bar ← add .menu (some window) []
  configure window [("menu", .widget bar)]
  menu bar "File" fun m => do
    entry m "Open SV/XML File..." .browseInput
    entry m "Open HW Field File..." .browseHwFields
    line m
    entry m "Open Output Folder" .openOutput
    line m
    entry m "Exit" .close
  menu bar "Actions" fun m => do
    entry m "Convert XML to SV" .convert
    entry m "Translate SV to PyVSC" .makeModel
    entry m "Test PyVSC Randomization" .tryModel
    entry m "Generate Test Vectors" .drawVectors
    line m
    entry m "Run All Steps" .runAll
  menu bar "Help" fun m => entry m "About" .about

/-! ## The panel with the settings -/

def put (widget : Nat) (row : Int) (options : Options) : Build Unit :=
  call widget "grid" [] (("row", .number row) :: options)

def sectionTitle (panel : Nat) (row : Int) (title : String) : Build Unit := do
  let label ← add .label (some panel) [("text", .text title), ("font", font "Helvetica" 10 true)]
  put label row (spanning 0 3 ++ [("sticky", .text "w"), ("pady", pair 0 5)])

def label (panel : Nat) (row : Int) (title : String) : Build Unit := do
  let label ← add .label (some panel) [("text", .text title)]
  put label row [("column", .number 0), ("sticky", .text "w"), ("pady", .number 2)]

def wideEntry (panel : Nat) (row : Int) (v : Var) : Build Nat := do
  let entry ← add .entry (some panel) [("textvariable", .var v), ("width", .number 40)]
  put entry row (spanning 0 2 ++ [("sticky", .text "ew"), ("pady", .number 2)])
  return entry

def showEnd (entry : Nat) : Build Unit := call entry "xview_moveto" [.decimal 1.0] []

def pathEntry (panel : Nat) (row : Int) (v : Var) : Build Unit := do
  let entry ← wideEntry panel row v
  call entry "after_idle" [.action .showEnd] []
  showEnd entry

def sideButton (panel : Nat) (row : Int) (title : String) (a : Action) : Build Unit := do
  let button ← add .button (some panel) [("text", .text title), ("command", .action a)]
  put button row [("column", .number 2), ("padx", pair 5 0), ("pady", .number 2)]

def separator (panel : Nat) (row : Int) : Build Unit := do
  let line ← add .separator (some panel) [("orient", .text "horizontal")]
  put line row (spanning 0 3 ++ [("sticky", .text "ew"), ("pady", .number 10)])

def putWide (widget : Nat) (row padding : Int) : Build Unit :=
  put widget row (spanning 0 3 ++ [("sticky", .text "ew"), ("pady", .number padding)])

def rowButton (frame : Nat) (title : String) (a : Action) : Build Unit := do
  let button ← add .button (some frame)
    [("text", .text title), ("command", .action a), ("width", .number 15)]
  call button "pack" [] [("side", .text "left"), ("padx", .number 2)]

def wideButton (panel : Nat) (row padding : Int) (title : String) (a : Action) : Build Unit := do
  let button ← add .button (some panel)
    [("text", .text title), ("command", .action a), ("width", .number 47)]
  putWide button row padding

def files (panel : Nat) : Build Unit := do
  sectionTitle panel 0 "Input Files"
  let frame ← add .frame (some panel) []
  put frame 1 (spanning 0 3 ++ [("sticky", .text "w"), ("pady", .number 2)])
  let title ← add .label (some frame) [("text", .text "Input File (.sv / .xml):")]
  call title "pack" [] [("side", .text "left")]
  let kind ← add .label (some frame) [("textvariable", .var .inputKind),
    ("foreground", .text "#569cd6"), ("font", font "Helvetica" 9 true)]
  call kind "pack" [] [("side", .text "left"), ("padx", pair 10 0)]
  pathEntry panel 2 .input
  sideButton panel 2 "Browse..." .browseInput
  label panel 3 "HW Field File:"
  pathEntry panel 4 .hwFields
  sideButton panel 4 "Browse..." .browseHwFields
  separator panel 5

def vectors (panel : Nat) : Build Unit := do
  let second : Options := [("column", .number 1), ("sticky", .text "w"), ("pady", .number 2)]
  sectionTitle panel 6 "Test Vector Generation"
  label panel 7 "PyVSC Class Name:"
  discard (wideEntry panel 8 .className)
  sideButton panel 8 "Detect" .detectClass
  label panel 9 "Number of Vectors:"
  let count ← add .spinbox (some panel) [("from_", .number 1), ("to", .number 10000),
    ("textvariable", .var .vectors), ("width", .number 10)]
  put count 9 second
  label panel 10 "Random Seed:"
  let seed ← add .entry (some panel) [("textvariable", .var .seed), ("width", .number 12)]
  put seed 10 second
  label panel 11 "Output Directory:"
  pathEntry panel 12 .outputDir
  sideButton panel 12 "Browse..." .browseOutputDir
  separator panel 13

def actions (panel : Nat) : Build Unit := do
  sectionTitle panel 14 "Options"
  let box ← add .checkbutton (some panel)
    [("text", .text "Use WSL for PyVSC execution"), ("variable", .var .subsystem)]
  put box 15 (spanning 0 2 ++ [("sticky", .text "w"), ("pady", .number 2)])
  separator panel 16
  sectionTitle panel 17 "Actions"
  let first ← add .frame (some panel) []
  putWide first 18 2
  rowButton first "0. XML→SV" .convert
  rowButton first "1. Translate" .makeModel
  rowButton first "2. Test PyVSC" .tryModel
  let second ← add .frame (some panel) []
  putWide second 19 2
  rowButton second "3. Generate" .drawVectors
  wideButton panel 20 10 "Run All Steps" .runAll
  wideButton panel 21 2 "Clear Log" .clearLog

/-! ## Log and summary -/

def colour (tone : String) (code : String) (bold : Bool) : String × Options :=
  (tone, ("foreground", .text code) :: if bold then [("font", font "Consolas" 9 true)] else [])

def tones : List (String × Options) := [
  colour "info" "#d4d4d4" false, colour "success" "#4ec9b0" false,
  colour "warning" "#dcdcaa" false, colour "error" "#f14c4c" false,
  colour "header" "#569cd6" true, colour "command" "#ce9178" false]

def whole : Options := [("fill", .text "both"), ("expand", .flag true)]

def panes (panel : Nat) (results : String) : Build Unit := do
  let frame ← add .labelFrame (some panel) [("text", .text "Log Output"), ("padding", .text "5")]
  call frame "pack" [] whole
  let log ← add .scrolledText (some frame) [("wrap", .text "word"),
    ("font", font "Consolas" 9 false), ("bg", .text "#1e1e1e"), ("fg", .text "#d4d4d4"),
    ("insertbackground", .text "white")]
  call log "pack" [] whole
  tones.forM fun (tone, options) => call log "tag_configure" [.text tone] options
  let frame ← add .labelFrame (some panel)
    [("text", .text "Results Summary"), ("padding", .text "5")]
  call frame "pack" [] [("fill", .text "x"), ("pady", pair 5 0)]
  let pane ← add .text (some frame) [("height", .number 4), ("font", font "Consolas" 9 false),
    ("bg", .text "#252526"), ("fg", .text "#d4d4d4")]
  call pane "pack" [] [("fill", .text "x")]
  call pane "insert" [.text "end", .text results] []
  configure pane [("state", .text "disabled")]

def panels (window : Nat) (results : String) : Build Unit := do
  let main ← add .frame (some window) [("padding", .text "10")]
  call main "pack" [] whole
  let left ← add .labelFrame (some main)
    [("text", .text "Configuration"), ("padding", .text "10")]
  call left "pack" [] [("side", .text "left"), ("fill", .text "both"), ("expand", .flag false),
    ("padx", pair 0 5)]
  files left
  vectors left
  actions left
  let right ← add .frame (some main) []
  call right "pack" [] (whole ++ [("side", .text "right"), ("padx", pair 5 0)])
  panes right results

def statusBar (window : Nat) : Build Unit := do
  let bar ← add .label (some window) [("textvariable", .var .status), ("relief", .text "sunken"),
    ("anchor", .text "w"), ("padding", pair 5 2)]
  call bar "pack" [] [("side", .text "bottom"), ("fill", .text "x")]

/-! ## The whole form -/

def following? (l : Layout) (v : Var) : Option Nat :=
  let follows := fun (c : Call) => c.method = "after_idle" && match l.widgets[c.widget]? with
    | some w => match w.options.lookup "textvariable" with
      | some (.var u) => u = v
      | _ => false
    | none => false
  (l.calls.find? follows).map (·.widget)

/-- The layout; `written` are the variables set before the window was shown, each of which moves the
entry that follows it. -/
def build (written : List Var) : Build Unit := do
  let window ← add .window none []
  let style ← add .style none []
  call style "theme_use" [.text "clam"] []
  call window "title" [.text "SV / XML to PyVSC Translation Tool"] []
  call window "geometry" [.text "1200x800"] []
  call window "minsize" [.number 900, .number 600] []
  menus window
  panels window ({} : State).results
  statusBar window
  call window "after" [.number 100, .action .showMessages] []
  let layout : Layout ← get
  (written.filterMap (following? layout)).forM showEnd
  call window "protocol" [.text "WM_DELETE_WINDOW", .action .close] []
  call window "mainloop" [] []

end Stimulus.Window.Form

namespace Stimulus.Window

def form (written : List Var) : Layout := ((Form.build written).run {}).2

end Stimulus.Window
