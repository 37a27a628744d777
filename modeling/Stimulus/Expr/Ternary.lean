import Stimulus.Text.Basic

/-!
# Choices

`c ? a : b` becomes `(a if c else b)`. The leftmost question mark that stands between a condition
and two values is changed first, and then the next one, at most `mostChoices` times.
-/

namespace Stimulus.Expr

/-- Splits the text before a question mark, nearest character first, into the condition and what
stands before it. `depth` counts the closing parentheses that wait for their opening one. -/
def condition (depth : Nat) (cond : List Char) : List Char → List Char × List Char
  | [] => (cond, [])
  | c :: cs =>
    if c = ')' then condition (depth + 1) (c :: cond) cs
    else if c = '(' then
      match depth with
      | 0 => (cond, c :: cs)
      | depth + 1 => condition depth (c :: cond) cs
    else if depth = 0 ∧ ",;{}".toList.contains c then (cond, c :: cs)
    else condition depth (c :: cond) cs

/-- Splits the text after a question mark at its colon. `value` is the text passed so far, last
character first. -/
def upToColon? (depth : Nat) (value : List Char) : List Char → Option (List Char × List Char)
  | [] => none
  | c :: cs =>
    if c = '(' then upToColon? (depth + 1) (c :: value) cs
    else if c = ')' then
      match depth with
      | 0 => none
      | depth + 1 => upToColon? depth (c :: value) cs
    else if c = ':' ∧ depth = 0 then some (value.reverse, cs)
    else if c = ';' ∧ depth = 0 then none
    else upToColon? depth (c :: value) cs

def otherwiseValue (depth : Nat) (value : List Char) : List Char → List Char × List Char
  | [] => (value.reverse, [])
  | c :: cs =>
    if c = '(' then otherwiseValue (depth + 1) (c :: value) cs
    else if c = ')' then
      match depth with
      | 0 => (value.reverse, c :: cs)
      | depth + 1 => otherwiseValue depth (c :: value) cs
    else if depth = 0 ∧ ";,\x7d".toList.contains c then (value.reverse, c :: cs)
    else otherwiseValue depth (c :: value) cs

/-- The whole text with the choice at a question mark changed, if it has all its parts. -/
def choiceAt? (before after : List Char) : Option (List Char) :=
  let (cond, front) := condition 0 [] before
  let cond := Text.dropEnds Text.isBlank cond
  if cond.isEmpty then none
  else match upToColon? 0 [] after with
    | none => none
    | some (yes, rest) =>
      let (no, back) := otherwiseValue 0 [] rest
      let yes := Text.dropEnds Text.isBlank yes
      let no := Text.dropEnds Text.isBlank no
      if yes.isEmpty || no.isEmpty then none
      else some (front.reverse ++ '(' :: yes ++ " if ".toList ++ cond ++ " else ".toList ++ no
        ++ ')' :: back)

/-- The text with its leftmost choice changed. Two question marks in a row are passed over. -/
def choiceStep? (before : List Char) : List Char → Option (List Char)
  | [] => none
  | '?' :: '?' :: cs => choiceStep? ('?' :: '?' :: before) cs
  | '?' :: cs =>
    match choiceAt? before cs with
    | some new => some new
    | none => choiceStep? ('?' :: before) cs
  | c :: cs => choiceStep? (c :: before) cs

def mostChoices : Nat := 20

/-- Changes up to `n` choices. -/
def changeChoices : (n : Nat) → List Char → List Char
  | 0, cs => cs
  | n + 1, cs =>
    match choiceStep? [] cs with
    | some new => changeChoices n new
    | none => cs

def plainChoices (e : String) : String :=
  String.ofList (changeChoices mostChoices e.toList)

end Stimulus.Expr
