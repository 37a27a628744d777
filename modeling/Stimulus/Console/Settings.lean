import Stimulus.Cli.Read
import Stimulus.Json.Read
import Stimulus.Pipeline.Project

/-!
# Settings of a run

A run is set up by its arguments; what they leave open is taken from the settings saved by the run
before, and then from the defaults. Saved values count as they are, of whatever type.
-/

namespace Stimulus.Console

open Pipeline Run

/-- What a run is set up with. -/
structure Settings where
  input : Json
  /-- The path of the list of hardware fields. -/
  hwFields : Json
  className : Json
  vectors : Json
  seed : Json
  outputDir : Json
  subsystem : Json
  overrides : Json

def savedFile : String := Project.place "console_config.json"

def readSaved : Run Json := do
  match ← attempt (readFile savedFile) with
  | .ok text => return (Json.read? text).getD (.obj [])
  | .error _ => return .obj []

/-- The text of an argument, or else a saved value. An empty text is as good as none. -/
def textOr (args : Cli.Arguments) (key : String) (saved : Outcome Json) : Outcome Json :=
  match args.text? key with
  | none | some "" => saved
  | some s => .ok (.str s)

def integerOr (args : Cli.Arguments) (key : String) (saved : Outcome Json) : Outcome Json :=
  match args.integer? key with
  | some n => .ok (.int n)
  | none => saved

def flagOr (args : Cli.Arguments) (key : String) (saved : Outcome Json) : Outcome Json :=
  match args.flag? key with
  | some b => .ok (.bool b)
  | none => saved

def absolutePath (v : Json) : Outcome Json :=
  match v with
  | .str "" => .ok v
  | .str s => .ok (.str (if Path.isAbsolute s then s else Path.absolute s))
  | v =>
    if v.isVoid then .ok v
    else .error (.badOperand s!"expected str, bytes or os.PathLike object, not {v.typeName}")

/-- The settings for arguments; `hwFields` is the list of hardware fields if nothing names one. -/
def Settings.of (args : Cli.Arguments) (saved : Json) (hwFields : String) : Outcome Settings := do
  let input ← textOr args "input" (savedValue saved "input_file_path" (.str ""))
  let hw ← textOr args "hw_field" (savedValue saved "hw_field_path" (.str ""))
  let className ← textOr args "class_name" (savedValue saved "class_name" (.str ""))
  let vectors ← integerOr args "num_vectors" (savedValue saved "num_vectors" (.int 10))
  let seed ← integerOr args "seed" (savedValue saved "random_seed" (.int 12345))
  let outputDir ← textOr args "output_dir" (savedValue saved "output_dir" (.str "./test_vectors"))
  let subsystem ← flagOr args "use_wsl" (savedValue saved "use_wsl" (.bool false))
  let overrides ← textOr args "overrides" (savedValue saved "overrides_csv" (.str ""))
  return {
    input := ← absolutePath input
    hwFields := ← absolutePath (if hw.isVoid then .str hwFields else hw)
    overrides := ← absolutePath overrides
    className, vectors, seed, outputDir, subsystem }

def Settings.toJson (s : Settings) : Json :=
  .obj [("input_file_path", s.input), ("hw_field_path", s.hwFields), ("class_name", s.className),
    ("num_vectors", s.vectors), ("random_seed", s.seed), ("output_dir", s.outputDir),
    ("use_wsl", s.subsystem), ("overrides_csv", s.overrides)]

end Stimulus.Console
