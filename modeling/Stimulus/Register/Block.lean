import Stimulus.Pattern.Match
import Stimulus.Text.Integer

/-!
# Parameter and field blocks

A register description is read line by line. A parameter or a field is a block of lines, from the
one with its name up to the one with its closing tag.
-/

namespace Stimulus.Register

open Pattern

/-- What a block describes. -/
inductive Kind where
  | parameter
  | field
deriving DecidableEq, Repr

def Kind.tag : Kind → String
  | parameter => "Parameter"
  | field => "Field"

def Kind.opening (kind : Kind) : Pattern :=
  lit ("<" ++ kind.tag) ++ run (· != '>') 0 true ++ lit "name=\"" ++ group 1 (some1Not '"')
    ++ lit "\""

def nameOf (kind : Kind) (block : List String) : Outcome (Option String) :=
  match block with
  | [] => .error .listTooShort
  | line :: _ => .ok <| ((kind.opening.search? line).map fun m => m.group 1).filter fun name =>
    !(Text.contains "." name || Text.contains "|" name)

def element (tag : String) : Pattern :=
  lit s!"<{tag}>" ++ group 1 someLazy ++ lit s!"</{tag}>"

def elementText? (tag line : String) : Option String :=
  ((element tag).search? line).map fun m => m.group 1

/-- The bounds that a block gives. -/
structure Bounds where
  low : Int := 0
  high : Int := 0
  bounded : Bool := false
deriving DecidableEq, Repr

def Bounds.addLow (b : Bounds) (line : String) : Outcome Bounds :=
  match elementText? "MinValue" line with
  | some value => (Text.integer value).map fun low => { b with low, bounded := true }
  | none => .ok b

def Bounds.addHigh (b : Bounds) (line : String) : Outcome Bounds :=
  match elementText? "MaxValue" line with
  | some value => (Text.integer value).map fun high => { b with high }
  | none => .ok b

def Bounds.addLine (b : Bounds) (line : String) : Outcome Bounds := do
  (← b.addLow line).addHigh line

def rangeOf (block : List String) : Outcome Bounds := block.foldlM Bounds.addLine {}

def closesConstraint (line : String) : Bool := Text.contains "</TestConstraint>" line

/-- The lines of a test constraint that starts on `first` and ends on `final`. -/
def constraintOver (first : String) (middle : List String) (final : String) : List String :=
  let head := Text.strip (Text.replace "<TestConstraint>" "" first)
  let tail := match (group 1 (run notNewline 0 false) ++ lit "</TestConstraint>").search? final with
    | some m => ["       " ++ m.group 1]
    | none => []
  s!"       {head}\n" :: middle.map (fun line => s!"       {Text.strip line}\n") ++ tail ++ ["\n"]

def constraintOn (line : String) : List String :=
  match (lit "<TestConstraint>" ++ group 1 (run notNewline 0 false)
      ++ lit "</TestConstraint>").search? line with
  | some m => ["       " ++ m.group 1, "\n"]
  | none => []

/-- The lines of all test constraints of a block. One that is never closed does not count. -/
def testConstraints : List String → List String
  | [] => []
  | line :: rest =>
    if Text.contains "<TestConstraint>" line then
      if closesConstraint line then constraintOn line ++ testConstraints rest
      else match rest.findIdx? closesConstraint with
        | none => testConstraints rest
        | some n =>
          constraintOver line (rest.take n) (rest[n]?.getD "")
            ++ testConstraints (rest.drop (n + 1))
    else testConstraints rest
termination_by lines => lines.length

/-! ## Where blocks end -/

/-- The numbers of the lines with a tag, from `i` on. -/
def closeIndexFrom (tag : String) (i : Nat) : List String → List Nat
  | [] => []
  | line :: rest =>
    if Text.contains tag line then i :: closeIndexFrom tag (i + 1) rest
    else closeIndexFrom tag (i + 1) rest

def closeIndex (lines : List String) (tag : String) : List Nat := closeIndexFrom tag 0 lines

/-- The first place between `low` and `high` whose number is at least `start`, by halving. -/
def firstAtLeast (numbers : Array Int) (start : Int) (low high : Nat) : Nat :=
  if _h : low < high then
    let middle := (low + high) / 2
    if (numbers[middle]?).getD 0 < start then firstAtLeast numbers start (middle + 1) high
    else firstAtLeast numbers start low middle
  else low
termination_by high - low

def findClose? (numbers : List Int) (start : Int) : Option Int :=
  let numbers := numbers.toArray
  numbers[firstAtLeast numbers start 0 numbers.size]?

/-- The lines from `start` up to the next line after it with the tag; `none` if there is no such
line. -/
def closeAfter? (index : List Nat) (start : Nat) : Option Nat :=
  (findClose? (index.map Int.ofNat) (start + 1 : Nat)).map Int.toNat

end Stimulus.Register
