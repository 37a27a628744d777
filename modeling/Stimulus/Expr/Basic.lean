import Stimulus.Expr.Inside
import Stimulus.Expr.Logic
import Stimulus.Expr.Ternary

/-!
# Expressions

A SystemVerilog expression becomes a solver expression by a fixed sequence of changes, each of
which looks at the text only.
-/

namespace Stimulus.Expr

open Pattern

/-! ## Arithmetic

A literal on the left of a shift, or of an arithmetic operator before a name or a parenthesis, has to
be a solver value: it is wrapped in `vsc.unsigned`. Division becomes integer division.
-/

def shiftContext : Pattern :=
  first <|> one fun c => Text.isBlank c || "([\x7b=,:!~&|^<>+-*/%".toList.contains c

def literalShift : Pattern :=
  group 1 shiftContext ++ group 2 integerLiteral ++ blanks ++ group 3 (lit "<<" <|> lit ">>")

def solverValue (literal : String) : String := s!"vsc.unsigned({literal})"

def wrapShifts (e : String) : String :=
  literalShift.replaceAll (fun m => m.group 1 ++ solverValue (m.group 2) ++ " " ++ m.group 3) e

/-- A literal that starts a number, is not wrapped yet and stands before an arithmetic operator. -/
def literalOperand : Pattern :=
  notBehind "vsc.unsigned(".toList ++ notAfter (fun c => c == '.' || Text.isWordChar c)
    ++ group 1 integerLiteral ++ blanks ++ group 2 (oneOf "-+*/") ++ blanks

def literalBeforeName : Pattern :=
  literalOperand
    ++ group 3 (one (fun c => c.isAlpha || c == '_') ++ run Text.isWordChar 0 true)

def literalBeforeParen : Pattern := literalOperand ++ group 3 (lit "(")

def wrapOperands (e : String) : String :=
  let wrap := fun (m : Match) => solverValue (m.group 1) ++ " " ++ m.group 2 ++ " " ++ m.group 3
  literalBeforeParen.replaceAll wrap (literalBeforeName.replaceAll wrap e)

def loneSlash : Pattern :=
  notAfter (· == '/') ++ lit "/" ++ notAhead (oneOf "/=")

def integerDivision (e : String) : String :=
  loneSlash.replaceAll (fun _ => "//") e

/-! ## Conversion -/

/-- The solver expression of an expression. In a condition a bare field is compared with zero. -/
def convert (scope : Scope) (e : String) (isCondition : Bool := false) : String :=
  let plain := integerDivision (wrapOperands (wrapShifts (plainChoices (plainNumbers e))))
  let named := selfPrefixed scope
    (qualified scope (insideCalls scope isCondition (solverLogic plain)))
  if isCondition then comparedWithZero named else named

end Stimulus.Expr
