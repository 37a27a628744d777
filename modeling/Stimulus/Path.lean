import Stimulus.Text.Basic

/-!
# Path texts

Paths as text, with names between slashes. None of these functions looks at files.
-/

namespace Stimulus.Path

/-- The slashes that a path starts with, as far as they matter: three and more count as one. -/
def rootOf (path : String) : String :=
  match path.toList.takeWhile (· == '/') with
  | [] => ""
  | ['/', '/'] => "//"
  | _ => "/"

def names (path : String) : List String :=
  (Text.splitOn "/" path).filter fun n => !n.isEmpty && n != "."

def ofNames (root : String) (names : List String) : String :=
  let path := root ++ Text.join "/" names
  if path.isEmpty then "." else path

def tidy (path : String) : String := ofNames (rootOf path) (names path)

def name (path : String) : String := (names path).getLast?.getD ""

def extensionDot? (name : String) : Option Nat :=
  let tail := name.toList.reverse.takeWhile (· != '.')
  let dot := name.length - tail.length
  if 1 < dot ∧ dot < name.length then some (dot - 1) else none

def stem (path : String) : String :=
  match extensionDot? (name path) with
  | some i => Text.take i (name path)
  | none => name path

def suffix (path : String) : String :=
  match extensionDot? (name path) with
  | some i => Text.drop i (name path)
  | none => ""

def parent (path : String) : String := ofNames (rootOf path) (names path).dropLast

def child (dir path : String) : String :=
  if (rootOf path).isEmpty then ofNames (rootOf dir) (names dir ++ names path) else tidy path

def withSuffix (path extension : String) : String :=
  child (parent path) (stem path ++ extension)

/-! ## Paths as they are written -/

def isAbsolute (path : String) : Bool := Text.startsWith "/" path

def joined (dir path : String) : String :=
  if isAbsolute path then path
  else if dir.isEmpty || Text.endsWith "/" dir then dir ++ path
  else dir ++ "/" ++ path

def baseName (path : String) : String :=
  String.ofList (path.toList.reverse.takeWhile (· != '/')).reverse

/-- The text before the last slash; slashes at its end go, unless there is nothing else. -/
def dirName (path : String) : String :=
  let head := Text.take (path.length - (baseName path).length) path
  if head.toList.all (· == '/') then head else Text.stripRightOf '/' head

/-- The text before the extension, and the extension with its dot. Dots at the start of a name are
part of it. -/
def splitExt (path : String) : String × String :=
  let base := baseName path
  let tail := base.toList.reverse.takeWhile (· != '.')
  let dot := base.length - tail.length
  let head := base.toList.take (dot - 1)
  if dot = 0 || head.all (· == '.') then (path, "")
  else
    let cut := path.length - tail.length - 1
    (Text.take cut path, Text.drop cut path)

/-- The names of a path with `..` taken back as far as possible; `above` are the names before, last
one first. -/
def withoutUps (absolute : Bool) (above : List String) : List String → List String
  | [] => above.reverse
  | ".." :: rest =>
    match above with
    | [] => if absolute then withoutUps absolute [] rest else withoutUps absolute [".."] rest
    | ".." :: _ => withoutUps absolute (".." :: above) rest
    | _ :: up => withoutUps absolute up rest
  | n :: rest => withoutUps absolute (n :: above) rest

def normal (path : String) : String :=
  let root := rootOf path
  ofNames root (withoutUps (!root.isEmpty) [] (names path))

def home : String := "/work"

def absolute (path : String) : String := normal (joined home path)

end Stimulus.Path
