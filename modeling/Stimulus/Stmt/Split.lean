import Stimulus.Stmt.Delimiter

/-!
# Statements of a constraint body

A statement ends at a semicolon, a closing brace or an `end` outside all delimiters, unless an
`else` follows: then the conditional goes on.
-/

namespace Stimulus.Stmt

/-- How many delimiters of each kind are open. Unbalanced text makes a count negative. -/
structure Depths where
  brace : Int := 0
  paren : Int := 0
  block : Int := 0
deriving DecidableEq, Repr

def Depths.isOuter (d : Depths) : Bool := d.brace == 0 && d.paren == 0 && d.block == 0

/-- An `else` follows after blanks. -/
def elseFollows (cs : List Char) : Bool :=
  Text.beginsWith "else".toList (cs.dropWhile Text.isBlank)

/-- An `else` follows after blanks and at most one semicolon. -/
def elseFollowsBlock (cs : List Char) : Bool :=
  match cs.dropWhile Text.isBlank with
  | ';' :: rest => elseFollows rest
  | rest => Text.beginsWith "else".toList rest

/-- The statement collected, last character first, in front of the others, unless it is blank. -/
def finish (current : List Char) (others : List String) : List String :=
  let statement := Text.strip (String.ofList current.reverse)
  if statement.isEmpty then others else statement :: others

/-- Splits the rest of a body. `current` is the statement under way, last character first, and
`prev` the character before the rest. -/
def splitFrom (d : Depths) (current : List Char) (prev : Option Char) (cs : List Char) :
    List String :=
  match cs with
  | [] => finish current []
  | c :: rest =>
    match _hb : wordAt? "begin".toList prev (c :: rest) with
    | some after =>
      splitFrom { d with block := d.block + 1 } ("nigeb".toList ++ current) (some 'n') after
    | none =>
      match _he : wordAt? "end".toList prev (c :: rest) with
      | some after =>
        let d := { d with block := d.block - 1 }
        let current := "dne".toList ++ current
        if d.isOuter && !elseFollows after then
          finish current (splitFrom d [] (some 'd') after)
        else splitFrom d current (some 'd') after
      | none =>
        let current := c :: current
        if c = '{' then splitFrom { d with brace := d.brace + 1 } current (some c) rest
        else if c = '}' then
          let d := { d with brace := d.brace - 1 }
          if d.isOuter && !elseFollowsBlock rest then
            finish current (splitFrom d [] (some c) rest)
          else splitFrom d current (some c) rest
        else if c = '(' then splitFrom { d with paren := d.paren + 1 } current (some c) rest
        else if c = ')' then splitFrom { d with paren := d.paren - 1 } current (some c) rest
        else if c = ';' && d.isOuter && !elseFollows rest then
          finish current (splitFrom d [] (some c) rest)
        else splitFrom d current (some c) rest
termination_by cs.length
decreasing_by
  · have := length_wordAt? _hb
    simp at this ⊢
    omega
  · have := length_wordAt? _he
    simp at this ⊢
    omega
  · have := length_wordAt? _he
    simp at this ⊢
    omega
  all_goals simp

def split (body : String) : List String :=
  splitFrom {} [] none body.toList

end Stimulus.Stmt
