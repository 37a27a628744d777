import Stimulus.Expr.Names
import Stimulus.Pattern.Match

/-!
# Value sets

`v inside {1, [4:8]}` becomes membership in a range list.
-/

/-!
## Number literals in expressions

A sized literal such as `8'hFF` becomes a plain integer literal, `0xFF`. So does one whose width is
missing, so that no apostrophe is left. Underscores between digits go.
-/

namespace Stimulus.Expr

open Pattern

def baseLetter : Pattern := oneOf "hHbBdDoO"

def literalDigits : Pattern := run (fun c => c.isDigit || "abcdefABCDEF_".toList.contains c) 1 true

def literalMark (letter : String) : String :=
  match Text.lower letter with
  | "h" => "0x"
  | "b" => "0b"
  | "o" => "0o"
  | _ => ""

def plainLiteral (letter digits : String) : String :=
  literalMark letter ++ Text.replace "_" "" digits

def sizedLiteral : Pattern :=
  digits ++ lit "'" ++ group 1 baseLetter ++ group 2 literalDigits

def unsizedLiteral : Pattern :=
  lit "'" ++ group 1 baseLetter ++ group 2 literalDigits

def plainNumbers (e : String) : String :=
  let plain := fun (m : Match) => plainLiteral (m.group 1) (m.group 2)
  unsizedLiteral.replaceAll plain (sizedLiteral.replaceAll plain e)

def integerLiteral : Pattern :=
  (lit "0x" ++ run (fun c => c.isDigit || "abcdefABCDEF".toList.contains c) 1 true)
    <|> (lit "0b" ++ run (fun c => c == '0' || c == '1') 1 true)
    <|> (lit "0o" ++ run (fun c => '0' ≤ c && c ≤ '7') 1 true)
    <|> digits

/-! ## Sets -/

/-- The items between the commas outside brackets; `item` is the item under way, last character
first. A blank last item is left out. -/
def setItemsFrom (depth : Int) (item : List Char) : List Char → List String
  | [] =>
    let final := Text.strip (String.ofList item.reverse)
    if final.isEmpty then [] else [final]
  | c :: cs =>
    if c = '[' then setItemsFrom (depth + 1) (c :: item) cs
    else if c = ']' then setItemsFrom (depth - 1) (c :: item) cs
    else if c = ',' ∧ depth = 0 then
      Text.strip (String.ofList item.reverse) :: setItemsFrom 0 [] cs
    else setItemsFrom depth (c :: item) cs

def setItems (body : String) : List String :=
  setItemsFrom 0 [] body.toList

def valueRange : Pattern :=
  lit "[" ++ group 1 someLazy ++ lit ":" ++ group 2 someLazy ++ lit "]"

def setValue (scope : Scope) (value : String) : String :=
  qualified scope (plainNumbers value)

def valueOrRange (scope : Scope) (item : String) : String :=
  match valueRange.atStart? item with
  | some m =>
    let low := setValue scope (Text.strip (m.group 1))
    let high := setValue scope (Text.strip (m.group 2))
    s!"vsc.rng({low}, {high})"
  | none => setValue scope item

def rangeList (scope : Scope) (body : String) : String :=
  Text.join ", " ((setItems body).map (valueOrRange scope))

/-- The word `inside` and a value set, which is kept under a number. -/
def insideSet (n : Nat) : Pattern :=
  lit "inside" ++ blanks ++ lit "\x7b" ++ group n (some1Not '}') ++ lit "\x7d"

/-- The expression with its value sets changed. In a condition, and after a parenthesis, membership
is a method call, because there an operator would be evaluated at once. -/
def insideCalls (scope : Scope) (isCondition : Bool) (e : String) : String :=
  let values := fun (m : Match) => rangeList scope (m.group 2)
  let call := fun (m : Match) => s!"{m.group 1}.inside(vsc.rangelist({values m}))"
  let operator := fun (m : Match) => s!"{m.group 1} in vsc.rangelist({values m})"
  let member := if isCondition then call else operator
  let afterParen := group 1 (lit "(" ++ some1Not ')' ++ lit ")") ++ blanks1 ++ insideSet 2
  let afterMethod := group 1 (word ++ lit "." ++ word ++ lit "()") ++ blanks1 ++ insideSet 2
  let afterWord := group 1 word ++ blanks1 ++ insideSet 2
  afterWord.replaceAll member (afterMethod.replaceAll member (afterParen.replaceAll call e))

end Stimulus.Expr
