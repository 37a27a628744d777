import Stimulus.Text.Blank
import Stimulus.Text.Case
import Stimulus.Text.Quoted
import Stimulus.Text.Word

/-!
# Texts

Searching, splitting, replacing and padding. All counts and positions are in characters.
-/

namespace Stimulus.Text

/-- The rest of `cs` after `start`, if `cs` begins with it. -/
def dropStart? : List Char → List Char → Option (List Char)
  | [], cs => some cs
  | _ :: _, [] => none
  | a :: as, c :: cs => if a = c then dropStart? as cs else none

theorem length_of_dropStart? {start cs rest : List Char} (h : dropStart? start cs = some rest) :
    rest.length + start.length = cs.length := by
  induction start generalizing cs with
  | nil => simp_all [dropStart?]
  | cons a as ih =>
    cases cs with
    | nil => simp [dropStart?] at h
    | cons c cs =>
      simp only [dropStart?] at h
      split at h
      · have := ih h; simp; omega
      · cases h

/-- `cs` begins with `start`. -/
def beginsWith (start cs : List Char) : Bool :=
  (dropStart? start cs).isSome

/-- The text begins with `start`. -/
def startsWith (start s : String) : Bool :=
  beginsWith start.toList s.toList

/-- The text ends with `tail`. -/
def endsWith (tail s : String) : Bool :=
  beginsWith tail.toList.reverse s.toList.reverse

/-- The first position at which `needle` stands in `cs`, counted from `pos`. -/
def findFrom (needle : List Char) (pos : Nat) : List Char → Option Nat
  | [] => if needle.isEmpty then some pos else none
  | c :: cs => if beginsWith needle (c :: cs) then some pos else findFrom needle (pos + 1) cs

def find? (needle s : String) : Option Nat :=
  findFrom needle.toList 0 s.toList

/-- The first position not before `start` at which `needle` stands in `s`. -/
def findAfter? (needle s : String) (start : Nat) : Option Nat :=
  findFrom needle.toList start (s.toList.drop start)

def contains (needle s : String) : Bool :=
  (find? needle s).isSome

/-- The pieces of `cs` between the occurrences of `sep`; `piece` is the piece under way, last
character first. With an empty `sep` nothing is cut. -/
def splitAux (sep : List Char) (piece : List Char) (cs : List Char) : List (List Char) :=
  match cs with
  | [] => [piece.reverse]
  | c :: rest =>
    match _h : dropStart? sep (c :: rest) with
    | some after =>
      if sep.isEmpty then splitAux sep (c :: piece) rest
      else piece.reverse :: splitAux sep [] after
    | none => splitAux sep (c :: piece) rest
termination_by cs.length
decreasing_by
  · simp
  · have hlen := length_of_dropStart? _h
    have : 0 < sep.length := by
      cases sep with
      | nil => simp_all
      | cons => simp
    simp only [List.length_cons] at hlen ⊢
    omega
  · simp

def splitOn (sep s : String) : List String :=
  (splitAux sep.toList [] s.toList).map String.ofList

def count (needle s : String) : Nat :=
  (splitAux needle.toList [] s.toList).length - 1

def replace (old new s : String) : String :=
  String.intercalate new (splitOn old s)

/-- The text before the first `sep` and the text after it; the second is `none` if there is no
`sep`. -/
def partition (sep s : String) : String × Option String :=
  match find? sep s with
  | some i =>
    (String.ofList (s.toList.take i), some (String.ofList (s.toList.drop (i + sep.length))))
  | none => (s, none)

/-- The first `n` characters. -/
def take (n : Nat) (s : String) : String :=
  String.ofList (s.toList.take n)

/-- All but the first `n` characters. -/
def drop (n : Nat) (s : String) : String :=
  String.ofList (s.toList.drop n)

/-- The characters from position `i` up to but not including position `j`. -/
def slice (i j : Nat) (s : String) : String :=
  String.ofList ((s.toList.take j).drop i)

/-- `n` copies of a text. -/
def repeated (n : Nat) (s : String) : String :=
  String.join (List.replicate n s)

/-- A text of `n` equal characters. -/
def rule (c : Char) (n : Nat) : String :=
  String.ofList (List.replicate n c)

def padLeft (width : Nat) (s : String) : String :=
  rule ' ' (width - s.length) ++ s

def padRight (width : Nat) (s : String) : String :=
  s ++ rule ' ' (width - s.length)

/-- Fills up on both sides. If one more blank is needed on one side, the left side gets it when
the width is odd. -/
def center (width : Nat) (s : String) : String :=
  let room := width - s.length
  let left := room / 2 + (room % 2) * (width % 2)
  rule ' ' left ++ s ++ rule ' ' (room - left)

/-- Joins texts with `sep` between them. -/
def join (sep : String) (parts : List String) : String :=
  String.intercalate sep parts

def unlines (lines : List String) : String :=
  String.join (lines.map (· ++ "\n"))

def distinct (xs : List String) : List String :=
  xs.foldl (fun seen x => if seen.contains x then seen else seen ++ [x]) []

def sorted (xs : List String) : List String :=
  xs.mergeSort fun a b => decide (a ≤ b)

end Stimulus.Text
