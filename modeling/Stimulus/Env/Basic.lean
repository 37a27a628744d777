import Stimulus.Text.Blank

/-!
# Settings files

A settings file has lines of the form `name = value`; other lines are comments.
-/

namespace Stimulus.Env

abbrev Settings := List (String × String)

def Settings.get? (s : Settings) (name : String) : Option String := s.lookup name

def Settings.set (s : Settings) (name value : String) : Settings :=
  if (s.get? name).isSome then s.map fun (n, v) => if n = name then (n, value) else (n, v)
  else s ++ [(name, value)]

def isNameStart (c : Char) : Bool := c.isAlpha || c == '_'

def isNameChar (c : Char) : Bool := c.isAlphanum || c == '_'

def assignment? (line : String) : Option (String × String) :=
  let cs := line.toList.dropWhile Text.isBlank
  let name := cs.takeWhile isNameChar
  match (cs.dropWhile isNameChar).dropWhile Text.isBlank with
  | '=' :: value =>
    if name.head?.any isNameStart then
      some (String.ofList name, Text.strip (String.ofList value))
    else none
  | _ => none

def read (lines : List String) : Settings :=
  lines.foldl (fun s line =>
    match assignment? line with
    | some (name, value) => s.set name value
    | none => s) []

def line (name value : String) : String := s!"{name} = {value}\n"

def updateLine (new : Settings) (old : String) : String :=
  match assignment? old with
  | some (name, _) =>
    match new.get? name with
    | some value => line name value
    | none => old
  | none => old

def addLine (lines : List String) (name value : String) : List String :=
  let gap := if lines.getLast?.any Text.hasInk then ["\n"] else []
  lines ++ gap ++ [line name value]

/-- The lines with new values in place; a name that no line sets gets a line at the end. -/
def update (lines : List String) (new : Settings) : List String :=
  let known := (lines.filterMap assignment?).map Prod.fst
  let missing := new.filter fun (name, _) => !known.contains name
  missing.foldl (fun ls (name, value) => addLine ls name value) (lines.map (updateLine new))

end Stimulus.Env
