import Stimulus.Cli.Read
import Stimulus.Env.Basic
import Stimulus.Path.Drive

/-!
# The program for settings files

Puts the place of the project into a settings file and has the subsystem make an environment there.
-/

namespace Stimulus.Shell

def isPlain (c : Char) : Bool := c.isAlphanum || "_@%+=:,./-".toList.contains c

/-- A text as one word of a shell line. It stands between single quotes unless all its characters
are plain; a single quote is closed, written between double quotes and opened again. -/
def quoted (s : String) : String :=
  if !s.isEmpty && s.toList.all isPlain then s
  else
    let quote := String.ofList [Text.singleQuote]
    quote ++ Text.replace quote (quote ++ "\"" ++ quote ++ "\"" ++ quote) s ++ quote

end Stimulus.Shell

namespace Stimulus.Env

open Run

def mountedPath (system : Path.System) (path : String) : Outcome String :=
  let (drive, rest) := system.splitDrive (system.absolute path)
  match drive.toList with
  | letter :: ':' :: _ =>
    .ok ("/mnt/" ++ Text.lower (String.ofList [letter]) ++ Text.replace "\\" "/" rest)
  | _ => .error (.badValue s!"Expected a drive-letter Windows path, got: {path}")

def environmentLine (project environment : String) (version : Option String) : String :=
  let place := Shell.quoted environment
  let plain := s!"python3 -m venv {place}"
  let create := match version with
    | none | some "" => plain
    | some version => s!"python{Shell.quoted version} -m venv {place} || {plain}"
  s!"cd {Shell.quoted project} && if [ -d {place} ]; then "
    ++ s!"echo 'WSL venv already present: {environment}'; else {create}; fi"

def ensureEnvironment (distribution project environment : String) (version : Option String) :
    Run Unit := do
  let line := environmentLine project environment version
  let reply ← start { line := .words ["wsl", "-d", distribution, "--", "bash", "-lc", line] }
  if reply.code != 0 then throw (.exitCode "wsl" reply.code)

def command : Cli.Command where
  name := "update_env_csh.py"
  operands := []
  options := [
    { key := "env_file", names := ["--env-file"], effect := .value .text },
    { key := "win_path", names := ["--win-path"], effect := .value .text }]
  optionMarks := ["[--env-file ENV_FILE]", "[--win-path WIN_PATH]"]
  description := [
    "",
    "Update Env.csh and ensure WSL venv exists.",
    "",
    "options:",
    "  -h, --help           show this help message and exit",
    "  --env-file ENV_FILE  Path to Env.csh",
    "  --win-path WIN_PATH  Windows project path (defaults to current directory)"]

def updateFile (file project place : String) : Run Cli.Exit := do
  let lines := Text.linesKeepEnds (← readFile file)
  let settings := read lines
  let new := update lines [("WIN_PROJECT_PATH", project), ("WSL_PROJECT_PATH", place)]
  writeFile file (Text.join "" new)
  let distribution := (settings.get? "WSL_DISTRO").getD "Ubuntu"
  let environment := (settings.get? "WSL_VENV_PATH").getD ".wsl_venv"
  sayLines ["Updated Env.csh:",
    s!"  WIN_PROJECT_PATH = {project}",
    s!"  WSL_PROJECT_PATH = {place}",
    s!"  WSL_DISTRO       = {distribution}",
    s!"  WSL_VENV_PATH    = {environment}"]
  let version := settings.get? "WSL_PYTHON_VERSION"
  match ← attempt (ensureEnvironment distribution place environment version) with
  | .error e@(.exitCode _ code) =>
    complain s!"[ERROR] Failed to ensure WSL venv: {e.message}"
    return .code code
  | .error e => throw e
  | .ok _ =>
    sayLine "Done."
    return .ok

def program (system : Path.System) (args : List String) : Run Cli.Exit :=
  command.run args fun args => do
    let file := Path.absolute ((args.text? "env_file").getD "Env.csh")
    if !(← isThere file) then
      complain s!"[ERROR] Env file not found: {file}"
      return .code 1
    let given := (args.text? "win_path").filter fun s => !s.isEmpty
    let project := system.absolute (given.getD system.start)
    match mountedPath system project with
    | .error e =>
      complain s!"[ERROR] {e.message}"
      return .code 1
    | .ok place => updateFile file project place

end Stimulus.Env
