import Stimulus.Failure
import Stimulus.Pattern.Match
import Stimulus.Text.Closing

/-!
# Logical operators

The solver's expressions use `&` and `|`; a negated comparison becomes the opposite comparison and
a negated name a comparison with zero.
-/

namespace Stimulus.Expr

open Pattern

/-- The comparisons, each with its opposite, in the order in which they are looked for. -/
def oppositeOf : List (String × String) :=
  [("==", "!="), ("!=", "=="), (">", "<="), ("<", ">="), (">=", "<"), ("<=", ">")]

/-- The opposite of the text between the parentheses of a negation. The first comparison of the
list that occurs is the one turned round; without one, all bits are inverted. -/
def opposite (inner : String) : String :=
  match oppositeOf.findSome? fun (op, inverse) =>
      match Text.partition op inner with
      | (left, some right) => some s!"({Text.strip left} {inverse} {Text.strip right})"
      | (_, none) => none with
  | some turned => turned
  | none => s!"~({inner})"

def negatedParen : Pattern := lit "!(" ++ group 1 (run notNewline 0 false) ++ lit ")"

def negatedWord : Pattern := lit "!" ++ notAhead (lit "=") ++ group 1 (edge ++ word ++ edge)

def solverLogic (e : String) : String :=
  let joined := Text.replace "||" " | " (Text.replace "&&" " & " e)
  let turned := negatedParen.replaceAll (fun m => opposite (Text.strip (m.group 1))) joined
  negatedWord.replaceAll (fun m => s!"({m.group 1} == 0)") turned

/-! ## Parentheses around joined comparisons -/

def parenthesizedOperand (part : String) : String :=
  let part := Text.strip part
  if Text.startsWith "(" part && Text.endsWith ")" part then part
  else if oppositeOf.any fun (op, _) => Text.contains op part then s!"({part})"
  else part

/-- Splits an expression at the logical operators outside parentheses: the operands, and the
operators between them. `part` is the operand under way, last character first. -/
def splitLogic (depth : Int) (part : List Char) : List Char → List String × List String
  | [] => ([String.ofList part.reverse], [])
  | '&' :: '&' :: cs =>
    if depth = 0 then
      let (parts, ops) := splitLogic 0 [] cs
      (String.ofList part.reverse :: parts, " & " :: ops)
    else splitLogic depth ('&' :: '&' :: part) cs
  | '|' :: '|' :: cs =>
    if depth = 0 then
      let (parts, ops) := splitLogic 0 [] cs
      (String.ofList part.reverse :: parts, " | " :: ops)
    else splitLogic depth ('|' :: '|' :: part) cs
  | c :: cs =>
    let depth := if c = '(' then depth + 1 else if c = ')' then depth - 1 else depth
    splitLogic depth (c :: part) cs

/-- The expression with the solver's operators, and parentheses around the comparisons that they
join. Without such an operator the expression stays as it is. -/
def parenthesized (e : String) : String :=
  match splitLogic 0 [] e.toList with
  | (head :: rest, ops@(_ :: _)) =>
    parenthesizedOperand head
      ++ String.join (List.zipWith (fun op part => op ++ parenthesizedOperand part) ops rest)
  | _ => e

/-! ## Balanced negations -/

def comparison (op : String) : Pattern :=
  first ++ group 1 someLazy ++ blanks ++ lit op ++ blanks ++ group 2 someGreedy ++ last

def oppositeLine (inner : String) : Outcome String :=
  match someGreedy.atStart? inner with
  | none => .error (.noAttribute "NoneType" "group")
  | some m =>
    let line := m.text
    let turned := oppositeOf.findSome? fun (op, inverse) =>
      ((comparison op).atStart? line).map fun m => s!"({m.group 1} {inverse} {m.group 2})"
    .ok (turned.getD s!"~({line})")

def oppositeOrInverted (inner : String) : Outcome String :=
  if Text.contains "!" inner || Text.contains " & " inner || Text.contains " | " inner then
    .ok s!"~({inner})"
  else oppositeLine inner

def turnNegations (cs : List Char) : Outcome String :=
  match cs with
  | [] => .ok ""
  | '!' :: '(' :: cs =>
    match _h : Text.closing? '(' ')' 0 [] cs with
    | some (inner, rest) => do
      let turned ← oppositeOrInverted (String.ofList inner)
      return turned ++ (← turnNegations rest)
    | none => do return "!" ++ (← turnNegations ('(' :: cs))
  | c :: cs => do return String.singleton c ++ (← turnNegations cs)
termination_by cs.length
decreasing_by
  · have := Text.length_closing? _h
    simp only [List.length_cons]
    simp only at this
    omega
  · simp
  · simp

def oppositeComparisons (e : String) : Outcome String :=
  turnNegations e.toList

/-! ## Bare conditions -/

def bareField : Pattern := first ++ group 1 (lit "self." ++ word) ++ last

def invertedField : Pattern := first ++ lit "~" ++ blanks ++ group 1 (lit "self." ++ word) ++ last

def comparedWithZero (e : String) : String :=
  if ["==", "!=", "<", ">"].any (Text.contains · e) || Text.contains "vsc." e then e
  else match invertedField.atStart? (Text.strip e) with
    | some m => s!"({m.group 1} == 0)"
    | none =>
      match bareField.atStart? (Text.strip e) with
      | some m => s!"({m.group 1} != 0)"
      | none => e

end Stimulus.Expr
