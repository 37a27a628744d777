import Stimulus.Pattern.Match
import Stimulus.Sv.Basic
import Stimulus.Text.Integer

/-!
# Enumeration declarations

`typedef enum [base type [range]] { members } name;`
-/

namespace Stimulus.Sv

open Pattern

/-! ## Number literals

A literal may have a width before an apostrophe, and a letter for its base: `8'hFF`, `4'b1010`,
`hFF`, `12`.
-/

def widthMark : Pattern := first ++ digits ++ lit "'"

def baseOfLetter? (c : Char) : Option Nat :=
  match c.toLower with
  | 'h' => some 16
  | 'b' => some 2
  | 'o' => some 8
  | 'd' => some 10
  | _ => none

def readNumber (s : String) : Outcome Int :=
  let digits := widthMark.removeAll (Text.strip s)
  match digits.toList with
  | [] => Text.integer digits
  | c :: rest =>
    match baseOfLetter? c with
    | some base => Text.readInteger base (String.ofList rest)
    | none => Text.integer digits

/-! ## Enumerations -/

def enumDecl : Pattern :=
  lit "typedef" ++ blanks1 ++ lit "enum"
    ++ opt (blanks1 ++ word ++ blanks ++ opt (lit "[" ++ group 1 digits ++ lit ":0]"))
    ++ blanks ++ lit "\x7b" ++ group 2 (some1Not '}') ++ lit "\x7d" ++ blanks ++ group 3 word
    ++ blanks ++ lit ";"

def readMember (s : String) : Outcome (String × Option Int) :=
  match Text.partition "=" s with
  | (name, some value) => do return (Text.strip name, some (← readNumber (Text.strip value)))
  | (name, none) => return (name, none)

def readMembers (s : String) : Outcome (List (String × Option Int)) :=
  (((Text.splitOn "," s).map Text.strip).filter (! ·.isEmpty)).mapM readMember

def Enum.ofMatch (m : Match) : Outcome Enum := do
  let width ← match m.group? 1 with
    | some hi => do pure ((← Text.integer hi) + 1)
    | none => pure 32
  return { name := m.group 3, members := ← readMembers (m.group 2), width, source := m.text }

def readEnums (s : String) : Outcome (List Enum) :=
  (enumDecl.findAll s).mapM Enum.ofMatch

end Stimulus.Sv
