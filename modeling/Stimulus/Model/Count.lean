import Stimulus.Expr.Names
import Stimulus.Sv.Basic

/-!
# Counts of constructs

How often each construct occurs in a constraint body and in the model made of it, so that a reader
can compare the two.
-/

namespace Stimulus.Model

open Pattern

def keywordOpen (keyword mark : String) : Pattern := edge ++ lit keyword ++ blanks ++ lit mark

/-- How often the constructs of constraints occur. -/
structure ConstructCounts where
  inside : Nat := 0
  implies : Nat := 0
  dist : Nat := 0
  solveOrder : Nat := 0
  foreach : Nat := 0
  unique : Nat := 0
  soft : Nat := 0
  bitSlices : Nat := 0
  numberFormats : Nat := 0
deriving DecidableEq, Repr

def ConstructCounts.of (body : String) : ConstructCounts where
  inside := (keywordOpen "inside" "\x7b").countIn body
  implies := Text.count "->" body
  dist := (keywordOpen "dist" "\x7b").countIn body
  solveOrder :=
    (edge ++ lit "solve" ++ blanks1 ++ word ++ blanks1 ++ lit "before" ++ edge).countIn body
  foreach := (keywordOpen "foreach" "(").countIn body
  unique := (keywordOpen "unique" "\x7b").countIn body
  soft := (edge ++ lit "soft" ++ blanks1).countIn body
  bitSlices := (word ++ lit "[" ++ digits ++ lit ":" ++ digits ++ lit "]").countIn body
  numberFormats := (digits ++ lit "'" ++ oneOf "hHbBdDoO").countIn body

def ConstructCounts.add (a b : ConstructCounts) : ConstructCounts where
  inside := a.inside + b.inside
  implies := a.implies + b.implies
  dist := a.dist + b.dist
  solveOrder := a.solveOrder + b.solveOrder
  foreach := a.foreach + b.foreach
  unique := a.unique + b.unique
  soft := a.soft + b.soft
  bitSlices := a.bitSlices + b.bitSlices
  numberFormats := a.numberFormats + b.numberFormats

def ifMark : Pattern := keywordOpen "if" "("

def elseIfMark : Pattern := edge ++ lit "else" ++ blanks1 ++ lit "if" ++ blanks ++ lit "("

def languageWords : List String :=
  ["if", "else", "inside", "dist", "solve", "before", "foreach", "unique", "soft", "constraint",
    "rand", "randc", "bit", "logic", "int", "byte", "size"]

def plainWords (s : String) : List String :=
  Text.distinct ((Expr.plainWord.findAll s).map Match.text)

/-- What a constraint body holds. -/
structure BodyCounts where
  lines : Nat
  names : List String
  ifs : Nat
  elseIfs : Nat
  elses : Nat
  ands : Nat
  ors : Nat
  nots : Nat
  constructs : ConstructCounts
deriving DecidableEq, Repr

namespace BodyCounts

def of (body : String) : BodyCounts where
  lines := ((Text.splitOn "\n" body).filter Text.hasInk).length
  names := (plainWords body).filter fun w => !languageWords.contains w && w != "this"
  ifs := ifMark.countIn body
  elseIfs := elseIfMark.countIn body
  elses :=
    let noIf := lit "else" ++ edge ++ notAhead (blanks ++ lit "if")
    (lit "\x7d" ++ blanks ++ lit "else" ++ blanks ++ lit "\x7b").countIn body
      + (lit ";" ++ blanks ++ noIf).countIn body + (lit "\n" ++ blanks ++ noIf).countIn body
  ands := Text.count "&&" body
  ors := Text.count "||" body
  nots := (lit "!" ++ blanks ++ one (fun c => c == '(' || Text.isWordChar c)).countIn body
  constructs := .of body

/-- The branches with a condition; a further branch counts as one and as a new conditional. -/
def conditionals (c : BodyCounts) : Nat := c.ifs + c.elseIfs

def logical (c : BodyCounts) : Nat := c.ands + c.ors + c.nots

end BodyCounts

/-- How often the constructs of the solver occur in a model text. -/
structure ModelCounts where
  ifThen : Nat := 0
  elseIf : Nat := 0
  elseThen : Nat := 0
  rangelist : Nat := 0
  implies : Nat := 0
  dist : Nat := 0
  solveOrder : Nat := 0
  foreach : Nat := 0
  unique : Nat := 0
  soft : Nat := 0
  ands : Nat := 0
  ors : Nat := 0
  nots : Nat := 0
deriving DecidableEq, Repr

def wholeWord (w : String) : Pattern := edge ++ lit w ++ edge

def ModelCounts.of (code : String) : ModelCounts where
  ifThen := Text.count "vsc.if_then(" code
  elseIf := Text.count "vsc.else_if(" code
  elseThen := Text.count "vsc.else_then" code
  rangelist := Text.count "vsc.rangelist(" code
  implies := Text.count "vsc.implies(" code
  dist := Text.count "vsc.dist(" code
  solveOrder := Text.count "vsc.solve_order(" code
  foreach := Text.count "vsc.foreach(" code
  unique := Text.count "vsc.unique(" code
  soft := Text.count "vsc.soft(" code
  ands := (wholeWord "and").countIn code
  ors := (wholeWord "or").countIn code
  nots := (wholeWord "not").countIn code

/-- The fields that a model text reaches through `self`, each once. -/
def selfFields (code : String) : List String :=
  Text.distinct (((lit "self." ++ group 1 identifier).findAll code).map fun m => m.group 1)

def loopIndices (code : String) : List String :=
  ((lit "as" ++ blanks1 ++ group 1 word ++ lit ":").findAll code).map fun m => m.group 1

def literalLike : Pattern :=
  first ++ oneOf "hbdHBD" ++ run (fun c => c.isDigit || "abcdefABCDEF".toList.contains c) 1 true
    ++ last

def looseName (name : String) : String :=
  (lit "_" ++ group 1 (one Text.isDecimal)).replaceAll (fun m => m.group 1) name

/-- The names of a body that a model text lacks, and those that it spells otherwise. -/
structure NameComparison where
  missing : List String := []
  changed : List String := []
deriving DecidableEq, Repr

def isExempt (loops : List String) (name : String) : Bool :=
  literalLike.fitsStart name || ["i", "j", "k", "idx", "index"].contains name || loops.contains name
    || Text.isUpper name

def compareNames (code : String) (names : List String) : NameComparison :=
  let present := selfFields code
  let loops := loopIndices code
  names.foldl (fun cmp name =>
    if isExempt loops name || present.contains name then cmp
    else match present.find? fun p => looseName p == looseName name with
      | some p => { cmp with changed := cmp.changed ++ [s!"{name}->{p}"] }
      | none =>
        if (one Text.isDecimal).fitsStart name then cmp
        else { cmp with missing := cmp.missing ++ [name] }) {}

/-!
## Metrics of a run

What the classes of a source hold and what the model made of them holds, for the report.
-/

open Sv

/-- What the classes of a source hold. -/
structure SourceMetrics where
  lines : Nat := 0
  /-- The fields and the names in constraints, each once. -/
  names : List String := []
  conditionals : Nat := 0
  ands : Nat := 0
  ors : Nat := 0
  nots : Nat := 0
  constructs : ConstructCounts := {}
deriving DecidableEq, Repr

namespace SourceMetrics

def addBody (m : SourceMetrics) (body : String) : SourceMetrics where
  lines := m.lines
  names := Text.distinct
    (m.names ++ (plainWords body).filter fun w => !languageWords.contains w)
  conditionals := m.conditionals + ifMark.countIn body + elseIfMark.countIn body
  ands := m.ands + Text.count "&&" body
  ors := m.ors + Text.count "||" body
  nots := m.nots + (lit "!" ++ blanks ++ lit "(").countIn body
    + (lit "!" ++ blanks ++ one Text.isWordChar).countIn body
  constructs := m.constructs.add (.of body)

def addClass (m : SourceMetrics) (c : ClassDecl) : SourceMetrics :=
  let fields := c.fields.map (·.name)
  let m := { m with lines := m.lines + Text.count "\n" c.source + 1
                    names := Text.distinct (m.names ++ fields) }
  c.constraints.foldl (fun m k => m.addBody k.body) m

def of (classes : List ClassDecl) : SourceMetrics := classes.foldl addClass {}

end SourceMetrics

/-- What a source and the model made of it hold. -/
structure Metrics where
  source : SourceMetrics
  lines : Nat
  /-- The fields that the model text reaches, each once. -/
  names : List String
  counts : ModelCounts
deriving DecidableEq, Repr

def Metrics.of (classes : List ClassDecl) (code : String) : Metrics where
  source := .of classes
  lines := Text.count "\n" code + 1
  names := selfFields code
  counts := .of code

end Stimulus.Model
