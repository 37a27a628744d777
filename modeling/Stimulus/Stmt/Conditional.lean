import Stimulus.Pattern.Match
import Stimulus.Stmt.Delimiter

/-!
# The text of conditionals

A branch is a block in braces, a block between `begin` and `end`, or one statement up to its
semicolon. A branch may itself be a conditional.
-/

namespace Stimulus.Stmt

open Pattern

def ifHead : Pattern := lit "if" ++ blanks ++ lit "("

def elseIfHead : Pattern := lit "else" ++ blanks ++ ifHead

/-- The start of such a branch, with a blank after `else`. -/
def spacedElseIfHead : Pattern := lit "else" ++ blanks1 ++ ifHead

/-- The length of the text up to and including its first semicolon, or the whole length. -/
def semicolonEnd (cs : List Char) : Nat :=
  match Text.findFrom [';'] 0 cs with
  | some i => i + 1
  | none => cs.length

/-- How many of `cs` a branch takes, given how far a conditional reaches; `none` if its closing
brace is missing. -/
def branchLength? (conditional : List Char → Nat) (cs : List Char) : Option Nat :=
  let rest := cs.dropWhile Text.isBlank
  let blank := cs.length - rest.length
  match rest with
  | '{' :: inner => (Text.closing? '{' '}' 0 [] inner).map fun (body, _) => blank + body.length + 2
  | _ =>
    if (blanks ++ ifHead).fitsStart (String.ofList rest) then some (blank + conditional rest)
    else some (blank + semicolonEnd rest)

/-- How far a chain of branches reaches that goes on at `rest`, `pos` characters into a text. A
delimiter that is never closed takes all of the text. -/
def chainEnd : (fuel : Nat) → (pos : Nat) → List Char → Nat
  | 0, pos, _ => pos
  | fuel + 1, pos, cs =>
    let rest := cs.dropWhile Text.isBlank
    let here := pos + (cs.length - rest.length)
    let text := String.ofList rest
    match (ifHead.atStart? text).or (spacedElseIfHead.atStart? text) with
    | some head =>
      match Text.closing? '(' ')' 0 [] head.after with
      | none => here + rest.length
      | some (cond, after) =>
        match branchLength? (chainEnd fuel 0) after with
        | none => here + rest.length
        | some n => chainEnd fuel (here + head.stop + cond.length + 1 + n) (after.drop n)
    | none =>
      match (lit "else" ++ blanks ++ notAhead (lit "if")).atStart? text with
      | some head =>
        match branchLength? (chainEnd fuel 0) head.after with
        | none => here + rest.length
        | some n => here + head.stop + n
      | none => here

def conditionalEnd (s : String) : Nat :=
  chainEnd (s.length + 1) 0 s.toList

def statementEnd (s : String) : Nat :=
  if (blanks ++ ifHead).fitsStart s then conditionalEnd s else semicolonEnd s.toList

/-- The statement at the start of a text, without its semicolon, and the text after it. -/
def inlineStatement (s : String) : String × String :=
  let s := Text.strip s
  if ifHead.fitsStart s then
    let n := conditionalEnd s
    (Text.strip (Text.take n s), Text.strip (Text.drop n s))
  else match Text.partition ";" s with
    | (statement, some rest) => (Text.strip statement, Text.strip rest)
    | (statement, none) => (statement, "")

def branchBody? (cs : List Char) : Option (String × String) :=
  let pair := fun ((body, rest) : List Char × List Char) =>
    (Text.strip (String.ofList body), Text.strip (String.ofList rest))
  let cs := cs.dropWhile Text.isBlank
  match cs with
  | '{' :: inner => (Text.closing? '{' '}' 0 [] inner).map pair
  | _ =>
    match Text.dropStart? "begin".toList cs with
    | some inner => (blockEnd? 0 [] (some 'n') inner).map pair
    | none => some (inlineStatement (String.ofList cs))

/-- A branch with a condition: the condition, the body and the text after them. -/
structure Branch where
  condition : String
  body : String
  rest : String
deriving DecidableEq, Repr

/-- The branch whose condition starts after `head`. -/
def conditionedBranch? (head : Match) : Option Branch := do
  let (cond, after) ← Text.closing? '(' ')' 0 [] head.after
  let (body, rest) ← branchBody? after
  return { condition := Text.strip (String.ofList cond), body, rest }

def ifBranch? (s : String) : Option Branch :=
  (ifHead.atStart? (Text.strip s)).bind conditionedBranch?

def elseIfBranch? (s : String) : Option Branch :=
  (elseIfHead.atStart? (Text.strip s)).bind conditionedBranch?

def elseBranch? (s : String) : Option (String × String) :=
  ((lit "else" ++ blanks ++ notAhead (blanks ++ lit "if")).atStart? (Text.strip s)).bind
    fun head => branchBody? head.after

end Stimulus.Stmt
