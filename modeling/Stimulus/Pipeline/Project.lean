import Stimulus.Env.Basic
import Stimulus.Json.Literal
import Stimulus.Json.Order
import Stimulus.Path.Drive
import Stimulus.Run.Basic

/-!
# The project directory

The tools stand in one directory, together with a settings file for the subsystem and the directory
for what they make.
-/

namespace Stimulus.Pipeline.Project

open Run

def root : String := Path.home

def place (name : String) : String := Path.joined root name

def output : String := place "Output"

def settingsFile : String := place "Env.csh"

/-- What was wrong with the settings file. -/
inductive Trouble where
  | missing
  | unreadable (why : Failure)
deriving DecidableEq, Repr

/-- The name and the value of a settings line: the text on either side of its first equals sign. -/
def assignment? (line : String) : Option (String × String) :=
  let line := Text.strip line
  if Text.startsWith "#" line then none
  else
    match Text.partition "=" line with
    | (name, some value) =>
      let name := Text.strip name
      let value := Text.strip value
      if name.isEmpty || value.isEmpty then none else some (name, value)
    | _ => none

def settingsOf (text : String) : Env.Settings :=
  ((Text.fileLines text).filterMap assignment?).foldl (fun s (name, value) => s.set name value) []

def readSettings : Run (Env.Settings × Option Trouble) := do
  if !(← isThere settingsFile) then return ([], some .missing)
  match ← attempt (readFile settingsFile) with
  | .ok text => return (settingsOf text, none)
  | .error e => return ([], some (.unreadable e))

def defaults : Env.Settings := [
  ("WIN_PROJECT_PATH", root),
  ("WSL_PROJECT_PATH", Path.mounted root),
  ("WSL_VENV_PATH", ".wsl_venv"),
  ("WSL_DISTRO", "Ubuntu"),
  ("WSL_PYTHON_VERSION", "3.10")]

def missingFrom (s : Env.Settings) : Env.Settings := defaults.filter fun (n, _) => (s.get? n).isNone

def withDefaults (s : Env.Settings) : Env.Settings := s ++ missingFrom s

/-- A command line that has the subsystem run a line in the project and in its environment. -/
def subsystemLine (s : Env.Settings) (line : String) : String :=
  let value := fun name => (s.get? name).getD ""
  let distribution := value "WSL_DISTRO"
  let project := value "WSL_PROJECT_PATH"
  let environment := value "WSL_VENV_PATH"
  s!"wsl -d {distribution} -- bash -lc "
    ++ s!"\"cd {project} && source {environment}/bin/activate && {line}\""

end Stimulus.Pipeline.Project

/-!
## Saved values

Settings are saved as an object. A saved value counts as it is, of whatever type.
-/

namespace Stimulus.Pipeline

def savedValue (saved : Json) (name : String) (default : Json) : Outcome Json :=
  match saved with
  | .obj _ => .ok ((saved.get? name).getD default)
  | v => .error (.noAttribute v.typeName "get")

def pathOf : Json → String
  | .str s => s
  | _ => ""

/-- A directory as the subsystem finds it; only a path with a drive letter changes. A number is no
directory, nor is a list that looks like such a path. -/
def mountedDir (v : Json) : Outcome String :=
  match v with
  | .str s => .ok (if (s.toList.drop 1).head? == some ':' then Path.mounted s else s)
  | .arr (_ :: .str ":" :: _) => .error (.noAttribute v.typeName "replace")
  | .int _ | .bool _ | .decimal _ =>
    if v.isVoid then .ok v.shown
    else .error (.badOperand s!"object of type '{v.typeName}' has no len()")
  | v => .ok v.shown

end Stimulus.Pipeline
