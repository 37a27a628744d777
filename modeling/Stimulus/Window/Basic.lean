import Stimulus.Pipeline.Project
import Stimulus.Pipeline.Tone

/-!
# The window of the pipeline

The window shows the settings of the pipeline, a log and a summary. A user acts on it by buttons and
menus, and is asked and told things by dialogs.
-/

namespace Stimulus.Window

open Pipeline

/-- What the window shows and a user may change. -/
inductive Var where
  | input
  /-- The path of the declarations. -/
  | source
  | model
  /-- The path of the list of hardware fields. -/
  | hwFields
  | className
  /-- How many vectors to draw. -/
  | vectors
  /-- The seed of the random numbers. -/
  | seed
  /-- The directory for the vectors. -/
  | outputDir
  /-- Models are run in the subsystem. -/
  | subsystem
  | inputKind
  /-- What the window is doing. -/
  | status
deriving DecidableEq, Repr

namespace Var

def all : List Var :=
  [input, source, model, hwFields, className, vectors, seed, outputDir, subsystem, inputKind,
    status]

def name : Var → String
  | input => "input_file_path"
  | source => "sv_file_path"
  | model => "output_py_path"
  | hwFields => "hw_field_path"
  | className => "class_name"
  | vectors => "num_vectors"
  | seed => "random_seed"
  | outputDir => "output_dir"
  | subsystem => "use_wsl"
  | inputKind => "input_type"
  | status => "status_var"

def start : Var → Json
  | vectors => .int 10
  | seed => .int 12345
  | outputDir => .str "./test_vectors"
  | subsystem => .bool true
  | inputKind => .str "N/A"
  | status => .str "Ready"
  | _ => .str ""

end Var

/-- What the window does when it is told to. -/
inductive Action where
  | browseInput
  | browseHwFields
  | browseOutputDir
  | openOutput
  | close
  | convert
  | makeModel
  | tryModel
  | drawVectors
  | runAll
  | about
  | detectClass
  | clearLog
  | showMessages
  /-- Moves an entry so that the end of its text is seen. -/
  | showEnd
deriving DecidableEq, Repr

/-- What a user is asked or told. -/
inductive Dialog where
  /-- Asks for a file; `types` are titles with the names that fit. -/
  | openFile (title : String) (types : List (String × String))
  /-- Asks for a directory. -/
  | chooseDir (title : String)
  | info (title text : String)
  | warning (title text : String)
  | error (title text : String)
deriving DecidableEq, Repr

/-- What there is to see. -/
structure State where
  vars : Var → Json := Var.start
  log : List (String × Tone) := []
  results : String := "No results yet. Run the translation and tests to see results here."
  /-- The buttons for steps are on, if they have been switched. -/
  enabled : Option Bool := none
  dialogs : List Dialog := []
  /-- The variables that were set, in order. -/
  written : List Var := []
  closed : Bool := false
  environment : Env.Settings := []

/-- A window with the files behind it. -/
structure Scene where
  window : State := {}
  desk : Desk := {}
  platform : String := "linux"
  clock : String
  /-- What the user answers when asked for a file or directory; nothing, to cancel. -/
  answer : String := ""

abbrev Act := ExceptT Failure (StateM Scene)

def onDesk {α : Type} (r : Run α) : Act α := do
  let scene ← get
  let (result, desk) := r.on scene.desk
  set { scene with desk }
  match result with
  | .ok a => return a
  | .error e => throw e

def change (f : State → State) : Act Unit := modify fun s => { s with window := f s.window }

def read (v : Var) : Act Json := return (← get).window.vars v

def write (v : Var) (value : Json) : Act Unit :=
  change fun w =>
    { w with vars := fun u => if u = v then value else w.vars u, written := w.written ++ [v] }

def tell (tone : Tone) (text : String) : Act Unit := do
  let line := s!"[{(← get).clock}] {text}\n"
  change fun w => { w with log := w.log ++ [(line, tone)] }

def present (d : Dialog) : Act Unit := change fun w => { w with dialogs := w.dialogs ++ [d] }

def summarize (text : String) : Act Unit := change fun w => { w with results := text }

def print (line : String) : Act Unit := onDesk (Run.sayLine line)

def attempt {α : Type} (a : Act α) : Act (Outcome α) := do
  try
    return .ok (← a)
  catch e => return .error e

def leadsSomewhere (v : Json) : Act Bool :=
  match v with
  | .str s => onDesk (Run.isThere s)
  | .int _ | .bool _ => return false
  | v =>
    if v.isVoid then return false
    else
      throw (.badOperand ("stat: path should be string, bytes, os.PathLike or integer, not "
        ++ v.typeName))

def isRegisters (v : Json) : Act Bool :=
  match v with
  | .str s => return Text.endsWith ".xml" (Text.lower s)
  | v => throw (.noAttribute v.typeName "lower")

def atWork (status : String) (work : Act Unit) : Act Unit := do
  let enable := fun on => change fun w => { w with enabled := some on }
  write .status (.str status)
  enable false
  discard (attempt work)
  write .status (.str "Ready")
  enable true

end Stimulus.Window
