import Stimulus.Env.Program
import Stimulus.Register.Program
import Stimulus.Validation.Program
import Stimulus.Vector.Listing
import Stimulus.Vector.Program

/-!
# The command line

`stimulus PROGRAM ARGUMENTS` runs a program on the files below the working directory. The files are
read first, the program runs on them, and what it changed is written back.
-/

namespace Stimulus.Main

def program? : String → Option (List String → Run Cli.Exit)
  | "model" => some fun args => Model.program args
  | "registers" => some Register.program
  | "overrides" => some (Override.program "overrides")
  | "vectors" => some (Vector.program { time := "" })
  | "environment" => some (Env.program .posix)
  | "specifications" => some fun _ => Vector.listSample
  | "checks" => some fun _ => Validation.program
  | _ => none

def usage : String :=
  "usage: stimulus (model | registers | overrides | vectors | environment | specifications"
    ++ " | checks) ..."

/-- The files and directories of a directory, by their paths from the working directory on. Hidden
ones are left out, and so are files that are no text. -/
partial def load (place : String) (s : Store) (dir : String) : IO Store := do
  let here ← IO.FS.realPath dir
  let entries ← here.readDir
  entries.toList.foldlM (fun (s : Store) entry => do
    if Text.startsWith "." entry.fileName then return s
    let key := if place.isEmpty then entry.fileName else place ++ "/" ++ entry.fileName
    if ← entry.path.isDir then load key (s.putDir key) key
    else
      try return s.put key (← IO.FS.readFile key)
      catch _ => return s) s

def store (old new : Store) : IO Unit := do
  (new.dirs.filter fun d => !old.dirs.contains d).forM fun d => IO.FS.createDirAll d
  (Store.changes old new).forM fun (key, text) => IO.FS.writeFile key text

partial def inputLines (input : IO.FS.Stream) : IO (List String) := do
  let line ← input.getLine
  if line.isEmpty then return []
  return Text.take (line.length - (if Text.endsWith "\n" line then 1 else 0)) line
    :: (← inputLines input)

def runOn (program : List String → Run Cli.Exit) (args : List String) : IO UInt32 := do
  let old ← load "" {} "."
  let input ← if args.contains "--edit" then inputLines (← IO.getStdin) else pure []
  let (result, desk) := (program args).on { store := old, input }
  store old desk.store
  IO.print desk.out
  IO.eprint desk.err
  match result with
  | .ok (.code n) => return n.toNat.toUInt32
  | .ok (.message text) =>
    IO.eprintln text
    return 1
  | .error e =>
    IO.eprintln e.message
    return 1

end Stimulus.Main

def main (args : List String) : IO UInt32 :=
  match args with
  | name :: rest =>
    match Stimulus.Main.program? name with
    | some program => Stimulus.Main.runOn program rest
    | none => do
      IO.eprintln Stimulus.Main.usage
      return 2
  | [] => do
    IO.eprintln Stimulus.Main.usage
    return 2
