import Stimulus.Text.Basic
import Stimulus.Text.Closing

/-!
# Delimiters

The delimiter or word that closes an open one. `begin` and `end` count where they are words, and
letters and digits of any script make a word longer.
-/

namespace Stimulus.Stmt

def closingIndex? (opener closer : Char) (text : List Char) (start : Nat) : Option Nat :=
  match text.drop start with
  | [] => none
  | c :: cs =>
    if c = opener then
      (Text.closing? opener closer 0 [] cs).map fun (inner, _) => start + 1 + inner.length
    else none

/-- The text after a keyword, if it stands at the start of `cs` as a word; `prev` is the character
before. -/
def wordAt? (keyword : List Char) (prev : Option Char) (cs : List Char) : Option (List Char) :=
  if prev.any Text.isAlphanumeric then none
  else (Text.dropStart? keyword cs).filter fun rest => !rest.head?.any Text.isAlphanumeric

theorem length_wordAt? {keyword cs rest : List Char} {prev : Option Char}
    (h : wordAt? keyword prev cs = some rest) : rest.length + keyword.length = cs.length := by
  unfold wordAt? at h
  split at h
  · cases h
  · exact Text.length_of_dropStart? (Option.filter_eq_some_iff.1 h).1

/-- The text up to the `end` that closes `depth + 1` open blocks, and the text after it. -/
def blockEnd? (depth : Nat) (inner : List Char) (prev : Option Char) :
    List Char → Option (List Char × List Char)
  | [] => none
  | c :: cs =>
    if (wordAt? "begin".toList prev (c :: cs)).isSome then
      blockEnd? (depth + 1) (c :: inner) (some c) cs
    else match wordAt? "end".toList prev (c :: cs) with
      | none => blockEnd? depth (c :: inner) (some c) cs
      | some rest =>
        match depth with
        | 0 => some (inner.reverse, rest)
        | depth + 1 => blockEnd? depth (c :: inner) (some c) cs

def blockEndIndex? (text : List Char) (start : Nat) : Option Nat :=
  (blockEnd? 0 [] text[start + 4]? (text.drop (start + 5))).map fun (inner, _) =>
    start + 5 + inner.length + 2

end Stimulus.Stmt
