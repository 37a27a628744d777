import Stimulus.Sv.ConstraintDecl
import Stimulus.Sv.EnumDecl
import Stimulus.Sv.FieldDecl

/-!
# Class declarations

`class name [extends parent]; body endclass`. The body ends at the first `endclass`.
-/

namespace Stimulus.Sv

open Pattern

def classDecl : Pattern :=
  lit "class" ++ blanks1 ++ group 1 word
    ++ opt (blanks1 ++ lit "extends" ++ blanks1 ++ group 2 word) ++ blanks ++ lit ";"
    ++ group 3 upTo ++ lit "endclass"

def functionDecl (name : String) : Pattern :=
  lit "function" ++ blanks1 ++ opt (lit "void" ++ blanks1) ++ lit name ++ blanks ++ lit "("
    ++ blanks ++ lit ")" ++ blanks ++ lit ";" ++ group 1 upTo ++ lit "endfunction"

def readFunction (body name : String) : Option String :=
  ((functionDecl name).search? body).map fun m => Text.strip (m.group 1)

def ClassDecl.ofMatch (m : Match) : Outcome ClassDecl := do
  let body := m.group 3
  return { name := m.group 1, parent := m.group? 2, fields := ← readFields body
           constraints := readConstraints body, source := m.text
           preRandomize := readFunction body "pre_randomize"
           postRandomize := readFunction body "post_randomize" }

def readClasses (s : String) : Outcome (List ClassDecl) :=
  (classDecl.findAll s).mapM ClassDecl.ofMatch

def read (s : String) : Outcome Source := do
  let bare := dropComments s
  let enums ← readEnums bare
  return { enums, classes := ← readClasses bare }

end Stimulus.Sv
