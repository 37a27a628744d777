import Stimulus.Stmt.Conditional
import Stimulus.Stmt.Form
import Stimulus.Stmt.Split

/-!
# Constraint statements

The statements of a constraint body become lines of a solver model. Loops and conditionals hold
further statements, so the three converters call each other; each call is on a shorter text, and
the length of the text bounds the depth.
-/

namespace Stimulus.Stmt

open Pattern Stimulus.Expr

/-- What conversion reads and notes down. -/
structure Context where
  scope : Scope := {}
  /-- The points for a reader to look at, in order of their first mention. -/
  review : List String := []
deriving DecidableEq, Repr

namespace Context

def note (item : String) (ctx : Context) : Context :=
  if ctx.review.contains item then ctx else { ctx with review := ctx.review ++ [item] }

def enterLoop (index : String) (ctx : Context) : Context :=
  if ctx.scope.loopVars.contains index then ctx
  else { ctx with scope := { ctx.scope with loopVars := ctx.scope.loopVars ++ [index] } }

def leaveLoop (index : String) (ctx : Context) : Context :=
  { ctx with scope := { ctx.scope with loopVars := ctx.scope.loopVars.filter (· != index) } }

end Context

abbrev Conversion := StateM Context

def convertCondition (e : String) : Conversion String :=
  return Expr.convert (← get).scope e true

def collect {α : Type} (f : α → Conversion (List String)) : List α → Conversion (List String)
  | [] => return []
  | x :: xs => do
    let lines ← f x
    return lines ++ (← collect f xs)

def bare (s : String) : String := Text.strip (Text.stripRightOf ';' (Text.strip s))

def tidyLines (lines : List String) : List String :=
  (lines.filter fun line => Text.hasInk line && Text.strip line != ";").map fun line =>
    Text.stripRight (Text.stripRightOf ';' line)

/-- `foreach (a[i]) {…}`: the array, the index and the body are kept. -/
def loopHead : Pattern :=
  lit "foreach" ++ blanks ++ lit "(" ++ group 1 word ++ blanks ++ lit "[" ++ group 2 word
    ++ lit "])" ++ blanks ++ lit "\x7b" ++ group 3 bulk ++ lit "\x7d"

/-- `a[i] inside {…}` in a loop with index `i`. -/
def elementInside (index : String) : Pattern :=
  group 1 word ++ lit s!"[{index}]" ++ blanks1 ++ insideSet 2

/-- The index of a loop, reached through `self` by mistake. -/
def selfIndex (index : String) : Pattern :=
  edge ++ lit s!"self.{index}" ++ edge

def loopStatement (index : String) (statement : String → Conversion (List String)) (s : String) :
    Conversion (List String) := do
  let s := bare s
  if s.isEmpty then return []
  match (elementInside index).atStart? s with
  | some m =>
    let values := rangeList (← get).scope (m.group 2)
    return [s!"    self.{m.group 1}[{index}] in vsc.rangelist({values})"]
  | none =>
    return (← statement s).map fun line =>
      "    " ++ (selfIndex index).replaceAll (fun _ => index) line

def loopLines (statement : String → Conversion (List String)) (m : Match) :
    Conversion (List String) := do
  let index := m.group 2
  modify (Context.enterLoop index)
  let body ← collect (loopStatement index statement) (split (m.group 3))
  modify (Context.leaveLoop index)
  return s!"with vsc.foreach(self.{m.group 1}, idx=True) as {index}:"
    :: (if body.isEmpty then ["    pass"] else body)

def indent (level : Nat) : String := Text.repeated level "    "

/-- The head and body of a branch, given how bodies are converted; an empty body passes. -/
def branchLines (block : String → Conversion (List String)) (level : Nat) (head body : String) :
    Conversion (List String) := do
  let lines ← block body
  return (indent level ++ head)
    :: (if lines.isEmpty then [indent (level + 1) ++ "pass"] else lines)

def furtherBranches (block : String → Conversion (List String)) (level : Nat) :
    (fuel : Nat) → String → Conversion (List String)
  | 0, _ => return []
  | fuel + 1, rest => do
    match elseIfBranch? rest with
    | some branch =>
      let cond ← convertCondition branch.condition
      let lines ← branchLines block level s!"with vsc.else_if({cond}):" branch.body
      return lines ++ (← furtherBranches block level fuel branch.rest)
    | none =>
      match elseBranch? rest with
      | some (body, rest) =>
        let lines ← branchLines block level "with vsc.else_then:" body
        return lines ++ (← furtherBranches block level fuel rest)
      | none => return []

def unreadConditional (s : String) : List String :=
  "# TODO: Complex conditional - manual translation needed"
    :: ((Text.splitOn "\n" s).filter Text.hasInk).map (fun line => s!"# {Text.strip line}")
    ++ ["pass"]

/-- The parts of a body that are converted one by one: a conditional at its start, and then the
statements. -/
def blockParts (body : String) : List String :=
  if ifHead.fitsStart body then
    let n := conditionalEnd body
    Text.strip (Text.take n body) :: (split (Text.strip (Text.drop n body))).map bare
  else (split body).map bare

def conditionalNote : String :=
  "Conditional constraint detected - verify if/else_if/else_then structure"

/-- The lines of a statement, given how those in a loop and how conditionals are converted. -/
def statementLines (statement conditional : String → Conversion (List String)) (s : String) :
    Conversion (List String) := do
  let s := Text.strip (Text.stripRightOf ';' s)
  if s.isEmpty then return []
  let scope := (← get).scope
  match firstForm? leadingForms scope s with
  | some lines => return tidyLines lines
  | none =>
    match loopHead.atStart? s with
    | some m => return tidyLines (← loopLines statement m)
    | none =>
      match firstForm? valueForms scope s with
      | some lines => return tidyLines lines
      | none =>
        if (blanks ++ ifHead).fitsStart s then
          modify (Context.note conditionalNote)
          let lines ← conditional s
          if !lines.isEmpty then return tidyLines lines
          modify (Context.note "Conditional parsing could not build a valid chain")
          return tidyLines (unreadConditional s)
        else
          return tidyLines ((firstForm? trailingForms scope s).getD (expressionLines scope s))

/-- The lines of a conditional at a level, or none if its first branch cannot be read, given how
bodies are converted. -/
def chainLines (block : String → Conversion (List String)) (level : Nat) (s : String) :
    Conversion (List String) := do
  match ifBranch? s with
  | none => return []
  | some branch =>
    let cond ← convertCondition branch.condition
    let lines ← branchLines block level s!"with vsc.if_then({cond}):" branch.body
    return lines ++ (← furtherBranches block level s.length branch.rest)

def relined (level : Nat) (lines : List String) : List String :=
  (lines.map fun line => Text.strip (Text.stripRightOf ';' line)).filterMap fun line =>
    if line.isEmpty then none else some (indent level ++ line)

/-- The lines of a part of the body of a branch at a level, given how statements and conditionals
are converted. -/
def partLines (statement conditional : String → Conversion (List String)) (level : Nat)
    (part : String) : Conversion (List String) := do
  if part.isEmpty then return []
  if ifHead.fitsStart part then conditional part
  else return relined level (← statement part)

mutual

def convertWithin : (fuel : Nat) → String → Conversion (List String)
  | 0, _ => return []
  | fuel + 1, s => statementLines (convertWithin fuel) (conditionalWithin fuel · 0) s

/-- The lines of a conditional at a level, or none if its first branch cannot be read. -/
def conditionalWithin : (fuel : Nat) → String → (level : Nat) → Conversion (List String)
  | 0, _, _ => return []
  | fuel + 1, s, level => chainLines (blockWithin fuel · (level + 1)) level s

def blockWithin : (fuel : Nat) → String → (level : Nat) → Conversion (List String)
  | 0, _, _ => return []
  | fuel + 1, body, level =>
    collect (partLines (convertWithin fuel) (conditionalWithin fuel · level) level)
      (blockParts (Text.strip body))

end

section Step

variable (fuel level : Nat) (s : String)

theorem convertWithin_succ : convertWithin (fuel + 1) s =
    statementLines (convertWithin fuel) (conditionalWithin fuel · 0) s := rfl

theorem conditionalWithin_succ : conditionalWithin (fuel + 1) s level =
    chainLines (blockWithin fuel · (level + 1)) level s := rfl

theorem blockWithin_succ : blockWithin (fuel + 1) s level =
    collect (partLines (convertWithin fuel) (conditionalWithin fuel · level) level)
      (blockParts (Text.strip s)) := rfl

end Step

def depthBound (s : String) : Nat := s.length + 4

def convert (s : String) : Conversion (List String) := convertWithin (depthBound s) s

def conditionalLines (s : String) (level : Nat) : Conversion (List String) :=
  conditionalWithin (depthBound s) s level

def blockLines (body : String) (level : Nat) : Conversion (List String) :=
  blockWithin (depthBound body) body level

def isOrdering (line : String) : Bool := Text.contains "vsc.solve_order(" line

def convertBody (body : String) : Conversion (List String) := do
  let lines ← collect convert (split body)
  let (orderings, others) := lines.partition isOrdering
  return orderings ++ others

end Stimulus.Stmt
