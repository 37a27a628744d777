import Stimulus.Model.Count
import Stimulus.Sv.Basic

/-!
# Checks of a model text

Signs that something of the source is missing from the text made of it, or that source syntax is
left in it. They are hints for a reader, found by looking at the text only.
-/

namespace Stimulus.Model

open Pattern Sv

/-- `solve a before b`, with both names kept. -/
def solvePair : Pattern :=
  lit "solve" ++ blanks1 ++ group 1 word ++ blanks1 ++ lit "before" ++ blanks1 ++ group 2 word

/-- `v inside {…}`, with the name kept. -/
def insideOf : Pattern :=
  group 1 word ++ blanks1 ++ lit "inside" ++ blanks ++ lit "\x7b" ++ some1Not '}' ++ lit "\x7d"

/-- The part of a class text after the docstring of a constraint method. It ends before the next
method. Without a docstring there is none. -/
def methodCode? (code constraint : String) : Option String := do
  let start ← Text.find? s!"def {constraint}(self):" code
  let stop := ((Text.findAfter? "\n    def " code (start + 1)).or
    (Text.findAfter? "\n# ===" code (start + 1))).getD code.length
  let section_ := Text.slice start stop code
  let opened := ((Text.find? "\"\"\"" section_).map (· + 3)).getD 2
  let closed ← Text.findAfter? "\"\"\"" section_ opened
  return Text.drop (closed + 3) section_

def missingOfConstraint (name body code : String) (fields : List String) : List String :=
  let solves := solvePair.findAll body
  let present := Text.count "vsc.solve_order(" code
  let lost := if present < solves.length then
      s!"Constraint '{name}': {solves.length - present} solve_order statement(s) may be missing"
        :: (solves.filter fun m => !Text.contains s!"vsc.solve_order(self.{m.group 1}" code).map
          fun m => s!"  - Missing: solve {m.group 1} before {m.group 2}"
    else []
  let sets := (insideOf.findAll body).filterMap fun m =>
    let found := lit s!"self.{m.group 1}" ++ blanks1 ++ lit "in" ++ blanks1 ++ lit "vsc.rangelist"
    if found.occursIn code then none
    else some s!"Constraint '{name}': 'inside' for '{m.group 1}' may be missing"
  let names := (plainWords body).filterMap fun w =>
    if languageWords.contains w || !fields.contains w then none
    else (methodCode? code name).bind fun part =>
      if Text.contains w part then none
      else some s!"Constraint '{name}': variable '{w}' may be missing from translated code"
  lost ++ sets ++ names

def missingParts (c : ClassDecl) (code : String) : List String :=
  let fields := Text.distinct (c.fields.map (·.name))
  let undeclared := (fields.filter fun f => !Text.contains s!"self.{f} = vsc." code).map fun f =>
    s!"Field '{f}' may be missing from __init__"
  undeclared ++ c.constraints.flatMap fun k =>
    (if Text.contains s!"def {k.name}(self):" code then [] else
      [s!"Constraint '{k.name}' missing from generated code"])
      ++ missingOfConstraint k.name k.body code fields

/-! ## Leftover syntax -/

def docMarks : List String := ["\"\"\"", "'''"]

/-- The lines with their numbers, from `n` on, that are neither comments nor in docstrings, each
without its comment. `doc?` is the mark of the docstring that is open. -/
def codeLinesFrom (n : Nat) (doc? : Option String) : List String → List (Nat × String)
  | [] => []
  | line :: rest =>
    let inner := Text.strip line
    match doc? with
    | some mark =>
      codeLinesFrom (n + 1) (if Text.contains mark inner then none else some mark) rest
    | none =>
      match docMarks.find? fun mark => Text.startsWith mark inner with
      | some mark =>
        codeLinesFrom (n + 1) (if Text.count mark inner = 1 then some mark else none) rest
      | none =>
        let part := Text.strip (Text.partition "#" line).1
        if part.isEmpty then codeLinesFrom (n + 1) none rest
        else (n, part) :: codeLinesFrom (n + 1) none rest

def codeLines (lines : List String) : List (Nat × String) := codeLinesFrom 1 none lines

def leftover? (part : String) : Option String :=
  let has := fun (s : String) => Text.contains s part
  if has "inside \x7b" && !has "vsc.rangelist" then some "SV 'inside' syntax found in code"
  else if has "dist \x7b" && !has "vsc.dist" then some "SV 'dist' syntax found in code"
  else if (digits ++ lit "'" ++ oneOf "hHbBdD").occursIn part then
    some "SV number format found in code"
  else if (lit "'" ++ oneOf "hHbBdDoO" ++ oneOf "0123456789abcdefABCDEF").occursIn part then
    some "Malformed SV number literal with stray apostrophe"
  else if has " && " then some "SV '&&' operator - should be '&'"
  else if has " || " then some "SV '||' operator - should be '|'"
  else if (lit "self.d" ++ run Text.isDecimal 4 true).occursIn part then
    some "self-prefixed numeric token (malformed literal)"
  else if has "?" && has ":" && !has " if "
      && (one (!Text.isBlank ·) ++ blanks ++ lit "?" ++ blanks ++ one (!Text.isBlank ·)).occursIn
        part then
    some "Possible SV ternary '? :' not converted"
  else none

def leftovers (code : String) : List String :=
  (codeLines (Text.splitOn "\n" code)).filterMap fun (n, part) =>
    (leftover? part).map fun found => s!"Line {n}: {found}"

end Stimulus.Model
