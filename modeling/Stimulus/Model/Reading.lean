import Stimulus.Model.Expression
import Stimulus.Pattern.Match

/-!
# Reading models

The classes that the text of a model declares.
-/

namespace Stimulus.Model

/-- A line of a model: how far it stands from the left, and what it says. -/
structure Line where
  indent : Nat
  text : String
deriving DecidableEq, Repr

def linesOf (s : String) : List Line :=
  let line := fun (l : String) =>
    { indent := (l.toList.takeWhile (· == ' ')).length, text := Text.strip l : Line }
  ((Text.lines s).map line).filter fun l => !l.text.isEmpty && !Text.startsWith "#" l.text

/-! ## Statements -/

def between? (start stop s : String) : Option String :=
  if Text.startsWith start s && Text.endsWith stop s then
    some (Text.slice start.length (s.length - stop.length) s)
  else none

def Statement.ofLine? (s : String) (body : List Statement) : Option Statement :=
  if s = "with vsc.else_then:" then some (.elseThen body)
  else
    match between? "with vsc.if_then(" "):" s, between? "with vsc.else_if(" "):" s with
    | some c, _ => (Term.read? c).map (.ifThen · body)
    | none, some c => (Term.read? c).map (.elseIf · body)
    | none, none => (Term.read? s).map .holds

def Statement.readAll : List Line → List Statement
  | [] => []
  | l :: rest =>
    let inner := fun (k : Line) => decide (l.indent < k.indent)
    let body := Statement.readAll (rest.takeWhile inner)
    (Statement.ofLine? l.text body).toList ++ Statement.readAll (rest.dropWhile inner)
termination_by ls => ls.length
decreasing_by
  · exact Nat.lt_succ_of_le (List.takeWhile_sublist _).length_le
  · exact Nat.lt_succ_of_le (List.dropWhile_sublist _).length_le

/-! ## Classes -/

open Pattern in
def classLine : Pattern :=
  first ++ lit "class " ++ group 1 word ++ opt (lit "(" ++ group 2 word ++ lit ")") ++ lit ":"
    ++ last

open Pattern in
def methodLine : Pattern := first ++ lit "def " ++ group 1 word ++ lit "(self):" ++ last

open Pattern in
def fieldPattern : Pattern :=
  first ++ lit "self." ++ group 1 word ++ lit " = vsc." ++ group 2 word ++ lit "(" ++ group 3 digits
    ++ lit ")"

def FieldView.ofLine? (l : Line) : Option FieldView :=
  (fieldPattern.atStart? l.text).map fun m =>
    { name := m.group 1, type := m.group 2, width := (m.group 3).toNat?.getD 0 }

def constraintsOf : List Line → List (String × List Statement)
  | [] => []
  | l :: rest =>
    match rest with
    | [] => []
    | head :: body =>
      match methodLine.atStart? head.text with
      | some m =>
        if l.text = "@vsc.constraint" then
          (m.group 1, Statement.readAll (body.takeWhile fun k => decide (head.indent < k.indent)))
            :: constraintsOf rest
        else constraintsOf rest
      | none => constraintsOf rest

def ClassView.ofLines : List Line → List ClassView
  | [] => []
  | l :: rest =>
    match classLine.atStart? l.text with
    | none => ClassView.ofLines rest
    | some m =>
      let inner := rest.takeWhile fun k => decide (l.indent < k.indent)
      { name := m.group 1, base := m.group? 2, fields := inner.filterMap FieldView.ofLine?
        constraints := constraintsOf inner } :: ClassView.ofLines rest

def ClassView.readAll (s : String) : List ClassView := ClassView.ofLines (linesOf s)

end Stimulus.Model
