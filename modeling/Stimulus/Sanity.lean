import Stimulus.Model.Basic

/-!
# The sanity check

A model text is looked through for source syntax that must not be left in it. A text that does not
parse gets that verdict alone. Issues are reported with the lines of the model and of the source.
-/

namespace Stimulus.Sanity

open Pattern

/-- Why a text does not parse: the line, zero if it is unknown, and the text that stands there. -/
structure Fault where
  line : Int
  text : String
deriving DecidableEq, Repr

/-- What is asked whether a text parses: it finds a fault or none, or fails itself. -/
abbrev Parser := String → Outcome (Option Fault)

/-- Finds no fault. -/
def lenient : Parser := fun _ => .ok none

/-- Something wrong in a line. -/
structure Issue where
  line : Int
  message : String
  content : String
deriving DecidableEq, Repr

def severity : String := "ERROR"

def forbidden : List (Pattern × String) :=
  [(edge ++ lit "inside" ++ blanks ++ lit "\x7b", "SV inside \x7b...\x7d block detected"),
    (edge ++ lit "dist" ++ blanks ++ lit "\x7b", "SV dist \x7b...\x7d block detected"),
    (edge ++ lit "solve" ++ blanks1 ++ word ++ blanks1 ++ lit "before" ++ edge,
      "SV solve-before syntax detected"),
    (edge ++ lit "foreach" ++ blanks ++ lit "(", "SV foreach(...) syntax detected"),
    (edge ++ lit "unique" ++ blanks ++ lit "\x7b", "SV unique \x7b...\x7d syntax detected"),
    (edge ++ lit "constraint" ++ blanks1 ++ word, "SV constraint block detected"),
    (edge ++ lit "class" ++ blanks1 ++ word ++ blanks ++ lit ";",
      "SV class declaration syntax detected"),
    (digits ++ lit "'" ++ blanks ++ oneOf "hHbBdDoO", "SV number literal (e.g. 8'hFF) detected"),
    (lit "$" ++ word, "SV system function (e.g. $urandom) detected"),
    (one Text.isBlank ++ lit "&&" ++ one Text.isBlank, "SV logical '&&' detected"),
    (one Text.isBlank ++ lit "||" ++ one Text.isBlank, "SV logical '||' detected"),
    (lit "!" ++ blanks ++ notAhead (lit "="), "SV logical '!' detected (should be 'not')")]

def leaks (code : String) : List Issue :=
  (Model.codeLines (Text.lines code)).flatMap fun (n, part) =>
    forbidden.filterMap fun (p, message) =>
      if p.occursIn part then some { line := n, message, content := part } else none

def issues (code : String) (fault? : Option Fault) : List Issue :=
  match fault? with
  | some fault =>
    [{ line := fault.line, message := "Generated Python is syntactically invalid"
       content := fault.text }]
  | none => leaks code

def lineText (lines : List String) (n : Int) : String :=
  if n ≤ 0 then "<line unavailable>"
  else match lines[n.toNat - 1]? with
    | none => "<line unavailable>"
    | some line =>
      let text := Text.stripRight line
      if text.isEmpty then "<blank line>" else text

def issueText (code : List String) (source : List String) (i : Issue) : String :=
  let input := if source.isEmpty then "<original SV not available>" else lineText source i.line
  s!"[{severity}] Line {i.line}: {i.message}\n" ++ s!"    Input  (SV L{i.line}): {input}\n"
    ++ s!"    Output (PY L{i.line}): {lineText code i.line}"

/-- What a check says. -/
structure Report where
  printed : String
  log : Option String := none
deriving DecidableEq, Repr

def check (code : String) (source : String) (fault? : Option Fault) : Report :=
  let found := issues code fault?
  if found.isEmpty then { printed := "Sanity check passed. No SV syntax leaks detected.\n" }
  else
    let rule := Text.rule '=' 80
    let entry := Text.join "\n" (["\n" ++ rule, "[WARNING] SANITY CHECK FAILED", rule]
      ++ found.map (issueText (Text.lines code) (Text.lines source))
      ++ ["\n" ++ rule, "Sanity issues detected. PyVSC file still generated.", rule ++ "\n"])
    { printed := entry ++ "\nSanity check issues have been saved to sanity_check.log\n"
      log := some entry }

/-- Checks a model against its source. Where there were no classes there is nothing to say. -/
def ofDraft (d : Model.Draft) (fault? : Option Fault) : Report :=
  match d.counting with
  | .unwritten => { printed := "" }
  | _ => check d.code d.source fault?

/-- Has a model parsed and checks it. A model without classes is not parsed. -/
def reportOn (parse : Parser) (d : Model.Draft) : Outcome Report :=
  match d.counting with
  | .unwritten => .ok (ofDraft d none)
  | _ => (parse d.code).map (ofDraft d)

end Stimulus.Sanity
