import Stimulus.Model.Count
import Stimulus.Model.Journal
import Stimulus.Stmt.Basic
import Stimulus.Sv.Basic

/-!
# Constraint methods

A constraint block becomes a method of the model. A block that only bounds one field from both sides
gives a single line instead; those lines share one method.
-/

namespace Stimulus.Model

open Pattern Sv

/-- How much is written and counted. -/
structure Settings where
  /-- The source and its counts stand beside what was made of them. -/
  verbose : Bool := false
  /-- Counts are taken, and the result is checked against the source. -/
  metrics : Bool := true
deriving DecidableEq, Repr

def isBalanced (depth : Nat) : List Char → Bool
  | [] => depth == 0
  | '(' :: cs => isBalanced (depth + 1) cs
  | ')' :: cs => match depth with
    | 0 => false
    | depth + 1 => isBalanced depth cs
  | _ :: cs => isBalanced depth cs

/-- The text without the parentheses around all of it, as long as what is inside is balanced. -/
def withoutOuterParens : (fuel : Nat) → String → String
  | 0, s => s
  | fuel + 1, s =>
    let inner := Text.slice 1 (s.length - 1) s
    if Text.startsWith "(" s && Text.endsWith ")" s && isBalanced 0 inner.toList then
      withoutOuterParens fuel (Text.strip inner)
    else s

/-- Two bounds on one field and nothing else; the field is kept under 1, the bounds under 2 and 3.
-/
def wholeBounds (firstMark secondMark : String) : Pattern :=
  first ++ group 1 word ++ blanks ++ lit firstMark ++ blanks ++ group 2 signedDigits ++ blanks
    ++ (lit "&&" <|> lit "&") ++ blanks ++ same 1 ++ blanks ++ lit secondMark ++ blanks
    ++ group 3 signedDigits ++ last

def rangeOnly? (body : String) : Option String :=
  let s := Stmt.bare body
  let inner := withoutOuterParens s.length s
  let line := fun (name low high : String) =>
    s!"self.{name} in vsc.rangelist(vsc.rng({low}, {high}))"
  match (wholeBounds ">=" "<=").atStart? inner with
  | some m => some (line (m.group 1) (m.group 2) (m.group 3))
  | none =>
    ((wholeBounds "<=" ">=").atStart? inner).map fun m =>
      line (m.group 1) (m.group 3) (m.group 2)

def quotedList (xs : List String) : String :=
  "[" ++ Text.join ", " (xs.map Text.quoted) ++ "]"

def occurring (counts : List (String × Nat × Nat)) : List String :=
  (counts.filter fun (_, n, _) => n > 0).map fun (name, n, m) => s!"{name}: {n}->{m}"

def countLines (src : BodyCounts) (out : ModelCounts) (names : NameComparison) : List String :=
  let c := src.constructs
  let constructs := occurring
    [("inside", c.inside, out.rangelist), ("implies", c.implies, out.implies),
      ("dist", c.dist, out.dist), ("solve", c.solveOrder, out.solveOrder),
      ("foreach", c.foreach, out.foreach), ("unique", c.unique, out.unique),
      ("soft", c.soft, out.soft)]
  let special :=
    ([("bit_slices", c.bitSlices), ("number_formats", c.numberFormats)].filter fun (_, n) => n > 0)
      |>.map fun (name, n) => s!"{name}: {n}"
  [s!"Lines: {src.lines} | Variables: {src.names.length}"]
    ++ (if src.conditionals > 0 || src.elses > 0 then
      [s!"Conditionals: {src.conditionals} (if: {src.ifs}, else-if: {src.elseIfs}, "
        ++ s!"else: {src.elses}) -> Output: if_then: {out.ifThen}, else_if: {out.elseIf}, "
        ++ s!"else_then: {out.elseThen}"] else [])
    ++ (if src.logical > 0 then
      [s!"Logical Ops: {src.logical} (&&: {src.ands}, ||: {src.ors}, !: {src.nots}) -> Output: "
        ++ s!"and: {out.ands}, or: {out.ors}, not: {out.nots}"] else [])
    ++ (if constructs.isEmpty then [] else
      ["Constructs (SV->Py): " ++ Text.join ", " constructs])
    ++ (if special.isEmpty then [] else ["Special: " ++ Text.join ", " special])
    ++ (if names.missing.isEmpty then [] else
      ["MISSING VARS: " ++ Text.join ", " (Text.sorted names.missing)])
    ++ (if names.changed.isEmpty then [] else ["NAME CHANGES: " ++ quotedList names.changed])

def constraintDoc (body : String) (counts : List String) : List String :=
  let source := ((Text.splitOn "\n" body).filter Text.hasInk).map Text.strip
  ["\"\"\"", "Original SV constraint:"] ++ source ++ ["", "--- Constraint Metrics ---"] ++ counts
    ++ ["\"\"\""]

def nameWarnings (constraint : String) (names : NameComparison) : List String :=
  (if names.missing.isEmpty then [] else
    [s!"Constraint '{constraint}': Variables missing in output: "
      ++ Text.join ", " (Text.sorted names.missing)])
    ++ (if names.changed.isEmpty then [] else
      [s!"Constraint '{constraint}': Variable names may have changed"])

/-- The lines of a constraint body in a scope, with the points to look at in the journal. The indices
of the loops that are open are in scope too. -/
def writeBody (scope : Expr.Scope) (body : String) : Writing (List String) := do
  let j ← get
  let (lines, ctx) := (Stmt.convertBody body).run
    { scope := { scope with loopVars := j.loopVars }, review := j.review }
  set { j with review := ctx.review, loopVars := ctx.scope.loopVars }
  return lines

def writeConstraint (settings : Settings) (scope : Expr.Scope) (name body : String) :
    Writing (List String) := do
  let lines ← writeBody scope body
  let code := Text.join "\n" lines
  let src := BodyCounts.of body
  let names := compareNames code src.names
  let doc :=
    if settings.verbose then constraintDoc body (countLines src (.of code) names) else []
  if settings.metrics then modify (Journal.warnAll (nameWarnings name names))
  if lines.isEmpty then modify (Journal.ask s!"Constraint '{name}' requires manual translation")
  let body := if lines.isEmpty then ["pass  # TODO: Manual translation required"] else lines
  return ["    @vsc.constraint", s!"    def {name}(self):"]
    ++ (doc ++ body).map fun line => "        " ++ line

end Stimulus.Model
