import Stimulus.Pattern.Match

/-!
# Names in expressions

A name in an expression is a field, the index of a loop, a member of an enumeration, or a word
of the language. Fields are reached through `self`, members through their enumeration.
-/

namespace Stimulus.Expr

open Pattern

/-- The names that are no fields. -/
structure Scope where
  /-- The class of each member of an enumeration. -/
  members : List (String × String) := []
  classes : List String := []
  loopVars : List String := []
deriving DecidableEq, Repr

def Scope.classOf? (scope : Scope) (name : String) : Option String :=
  scope.members.lookup name

def reservedWords : List String :=
  ["if", "else", "for", "while", "in", "not", "and", "or", "True", "False", "None", "pass", "break",
    "continue", "return", "inside", "dist", "solve", "before", "soft", "unique", "foreach", "vsc",
    "self", "with", "as", "begin", "end"]

def afterDot (m : Match) : Bool := m.before.head? == some '.'

def capitals : Pattern :=
  edge ++ one Char.isUpper ++ run (fun c => c.isUpper || c.isDigit || c == '_') 0 true ++ edge

def qualified (scope : Scope) (e : String) : String :=
  capitals.replaceAll (fun m =>
    match scope.classOf? m.text with
    | some cls => if afterDot m then m.text else s!"{cls}.{m.text}"
    | none => m.text) e

def plainWord : Pattern := edge ++ identifier ++ edge

def reached (scope : Scope) (m : Match) : String :=
  let name := m.text
  if reservedWords.contains name || scope.loopVars.contains name || afterDot m then name
  else match scope.classOf? name with
    | some cls => s!"{cls}.{name}"
    | none =>
      if scope.classes.contains name && m.after.head? == some '.' then name else s!"self.{name}"

/-- The library's name, reached through `self` by mistake. -/
def selfLibrary : Pattern := lit "self.vsc" ++ edge

def selfPrefixed (scope : Scope) (e : String) : String :=
  let prefixed := plainWord.replaceAll (reached scope) e
  selfLibrary.replaceAll (fun _ => "vsc") (Text.replace "self.self." "self." prefixed)

end Stimulus.Expr
