import Stimulus.Pattern.Match
import Stimulus.Sv.Basic
import Stimulus.Text.Closing

/-!
# Constraint blocks

`constraint name { body }`, where the braces of the body are balanced. A block whose closing brace
is missing is passed over, and the search goes on after its opening brace.
-/

namespace Stimulus.Sv

open Pattern

def constructPatterns : List (Construct × Pattern) :=
  [(.solveOrder, lit "solve" ++ blanks1 ++ word ++ blanks1 ++ lit "before" ++ blanks1 ++ word),
    (.soft, lit "soft" ++ blanks1),
    (.unique, lit "unique" ++ blanks ++ lit "\x7b"),
    (.foreach, lit "foreach" ++ blanks ++ lit "("),
    (.distribution, edge ++ lit "dist" ++ blanks ++ lit "\x7b"),
    (.inside, edge ++ lit "inside" ++ blanks ++ lit "\x7b"),
    (.implication, lit "->"),
    (.conditional, edge ++ lit "if" ++ blanks ++ lit "("),
    (.equality, one (fun c => !"!<>=".toList.contains c) ++ lit "==" ++ one (· != '=')),
    (.inequality, lit "!="),
    (.relational, oneOf "<>" ++ opt (lit "="))]

/-- The constructs that a constraint body holds, each with the text that shows it first. -/
def constructsOf (body : String) : List (Construct × String) :=
  constructPatterns.filterMap fun (construct, p) =>
    (p.search? body).map fun m => (construct, m.text)

def warningPatterns : List (Pattern × String) :=
  [(word ++ lit "[" ++ digits ++ lit ":" ++ digits ++ lit "]",
      "Bit slicing detected - requires manual conversion to shifts/masks"),
    (lit "<->", "Bidirectional implication detected - needs two vsc.implies() calls"),
    (lit "$urandom", "$urandom detected - use Python random module in post_randomize"),
    (lit "$" ++ word, "System function detected - may need manual handling")]

def warningsOf (body : String) : List String :=
  (warningPatterns.filter fun (p, _) => p.occursIn body).map Prod.snd

def constraintHead : Pattern :=
  lit "constraint" ++ blanks1 ++ group 1 word ++ blanks ++ lit "\x7b"

def Constraint.ofText (name head : String) (inner : List Char) : Constraint :=
  let body := Text.strip (String.ofList inner)
  { name, body, source := head ++ String.ofList inner ++ "\x7d"
    constructs := constructsOf body, warnings := warningsOf body }

/-- The constraint blocks of a text; `fuel` bounds the number of heads looked at. -/
def readConstraintsFrom : (fuel : Nat) → List Char → List Constraint
  | 0, _ => []
  | fuel + 1, cs =>
    match searchFrom constraintHead [] 0 cs with
    | none => []
    | some (a, b) =>
      let head := Match.between a b
      match Text.closing? '{' '}' 0 [] b.after with
      | some (inner, rest) =>
        Constraint.ofText (head.group 1) head.text inner :: readConstraintsFrom fuel rest
      | none => readConstraintsFrom fuel b.after

def readConstraints (body : String) : List Constraint :=
  readConstraintsFrom (body.length + 1) body.toList

end Stimulus.Sv
