import Stimulus.Failure
import Stimulus.Path

/-!
# Files

The files and directories below the working directory. Paths are resolved name by name, so a path
through a missing directory or through a file leads nowhere.
-/

namespace Stimulus

/-- Files and directories below the working directory. -/
structure Store where
  /-- Each file with its text, by its path from the working directory on. -/
  files : List (String × String) := []
  /-- The directories other than the working directory. -/
  dirs : List String := []
deriving DecidableEq, Repr

namespace Store

/-- What a path leads to. -/
inductive Place where
  | dir (path : String)
  | file (path : String)
  /-- Nothing, but a file could be made there. -/
  | free (path : String)
  /-- Nothing, and only a directory could be made there. -/
  | vacant
deriving DecidableEq, Repr

def get? (s : Store) (key : String) : Option String := s.files.lookup key

def hasDir (s : Store) (key : String) : Bool := key.isEmpty || s.dirs.contains key

/-- Follows names; `above` are the directories passed, last one first. -/
def follow (s : Store) (path : String) (above : List String) : List String → Outcome Place
  | [] => .ok (.dir (Text.join "/" above.reverse))
  | n :: rest =>
    if n.isEmpty || n = "." then follow s path above rest
    else if n = ".." then
      match above with
      | [] => .error (.noSuchFile path)
      | _ :: up => follow s path up rest
    else
      let key := Text.join "/" (n :: above).reverse
      if s.hasDir key then follow s path (n :: above) rest
      else if (s.get? key).isSome then
        if rest.isEmpty then .ok (.file key) else .error (.notDirectory path)
      else if rest.isEmpty then .ok (.free key)
      else if rest.all (·.isEmpty) then .ok .vacant
      else .error (.noSuchFile path)

def place (s : Store) (path : String) : Outcome Place :=
  if path.isEmpty then .error (.noSuchFile path)
  else if Path.isAbsolute path then
    match Text.dropStart? (Path.home ++ "/").toList (Path.tidy path ++ "/").toList with
    | some rest => follow s path [] (Text.splitOn "/" (String.ofList rest.dropLast))
    | none => .error (.noSuchFile path)
  else follow s path [] (Text.splitOn "/" path)

def «exists» (s : Store) (path : String) : Bool :=
  match s.place path with
  | .ok (.dir _) | .ok (.file _) => true
  | _ => false

def isFile (s : Store) (path : String) : Bool :=
  match s.place path with
  | .ok (.file _) => true
  | _ => false

def isDir (s : Store) (path : String) : Bool :=
  match s.place path with
  | .ok (.dir _) => true
  | _ => false

def readRaw (s : Store) (path : String) : Outcome String := do
  match ← s.place path with
  | .dir _ => throw (.isDirectory path)
  | .free _ | .vacant => throw (.noSuchFile path)
  | .file key => return (s.get? key).getD ""

def read (s : Store) (path : String) : Outcome String :=
  (s.readRaw path).map Text.unifyNewlines

def put (s : Store) (key text : String) : Store :=
  if (s.get? key).isSome then
    { s with files := s.files.map fun (k, old) => if k = key then (k, text) else (k, old) }
  else { s with files := s.files ++ [(key, text)] }

def write (s : Store) (path text : String) : Outcome Store := do
  match ← s.place path with
  | .dir _ | .vacant => throw (.isDirectory path)
  | .free key | .file key => return s.put key text

def append (s : Store) (path text : String) : Outcome Store := do
  match ← s.place path with
  | .dir _ | .vacant => throw (.isDirectory path)
  | .free key | .file key => return s.put key ((s.get? key).getD "" ++ text)

def putDir (s : Store) (key : String) : Store :=
  if s.hasDir key then s else { s with dirs := s.dirs ++ [key] }

/-- Makes the directories of a path that are missing; `above` are those passed, last one first. -/
def makeFrom (s : Store) (path : String) (above : List String) : List String → Outcome Store
  | [] => .ok s
  | n :: rest =>
    let key := Text.join "/" (n :: above).reverse
    if s.hasDir key then makeFrom s path (n :: above) rest
    else if (s.get? key).isSome then
      .error (if rest.isEmpty then .alreadyExists path else .notDirectory path)
    else makeFrom (s.putDir key) path (n :: above) rest

def namesBelow? (path : String) : Option (List String) :=
  let full := Path.absolute path
  if full = Path.home then some []
  else (Text.dropStart? (Path.home ++ "/").toList full.toList).map fun rest =>
    Text.splitOn "/" (String.ofList rest)

def makeDirs (s : Store) (path : String) : Outcome Store :=
  match namesBelow? path with
  | some names => if path.isEmpty then .error (.noSuchFile path) else makeFrom s path [] names
  | none => .error (.noSuchFile path)

def putBelow (s : Store) (key text : String) : Store :=
  let names := (Path.names key).dropLast
  let made := (List.range names.length).foldl
    (fun s i => s.putDir (Text.join "/" (names.take (i + 1)))) s
  made.put key text

/-- The store of files, each with the directories above it, and of further directories. -/
def ofFiles (files : List (String × String)) (dirs : List String) : Store :=
  let above := files.flatMap fun (key, _) =>
    let names := (Text.splitOn "/" key).dropLast
    (List.range names.length).map fun i => Text.join "/" (names.take (i + 1))
  let further := dirs.flatMap fun key =>
    let names := Path.names key
    (List.range names.length).map fun i => Text.join "/" (names.take (i + 1))
  { files, dirs := Text.distinct (above ++ further) }

def changes (old new : Store) : List (String × String) :=
  (new.files.filter fun (key, text) => old.get? key != some text).mergeSort
    fun a b => decide (a.1 ≤ b.1)

end Store

end Stimulus
