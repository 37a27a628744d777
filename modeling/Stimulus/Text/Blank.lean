import Stimulus.Text.Table

/-!
# Blanks and line ends

White space of every script, stripping it, splitting at it, and the characters that end a line.
-/

namespace Stimulus.Text

def blankSpans : Array (Nat × Nat) := #[
  (0x85, 0x85), (0xA0, 0xA0), (0x1680, 0x1680), (0x2000, 0x200A), (0x2028, 0x2029),
  (0x202F, 0x202F), (0x205F, 0x205F), (0x3000, 0x3000)
  ]

def isBlank (c : Char) : Bool :=
  if c.toNat < 128 then (9 ≤ c.toNat && c.toNat ≤ 13) || (28 ≤ c.toNat && c.toNat ≤ 32)
  else inSpans blankSpans c

def isLineEnd (c : Char) : Bool :=
  let n := c.toNat
  (10 ≤ n && n ≤ 13) || (28 ≤ n && n ≤ 30) || n == 0x85 || n == 0x2028 || n == 0x2029

/-- Drops the trailing characters that satisfy `p`. -/
def dropTail (p : Char → Bool) (cs : List Char) : List Char :=
  (cs.reverse.dropWhile p).reverse

/-- Drops the leading and trailing characters that satisfy `p`. -/
def dropEnds (p : Char → Bool) (cs : List Char) : List Char :=
  dropTail p (cs.dropWhile p)

def strip (s : String) : String :=
  String.ofList (dropEnds isBlank s.toList)

def stripLeft (s : String) : String :=
  String.ofList (s.toList.dropWhile isBlank)

def stripRight (s : String) : String :=
  String.ofList (dropTail isBlank s.toList)

/-- The text without trailing copies of `c`. -/
def stripRightOf (c : Char) (s : String) : String :=
  String.ofList (dropTail (· == c) s.toList)

def hasInk (s : String) : Bool :=
  s.toList.any fun c => !isBlank c

/-- Collects the words of a text; `word` is the word under way, last character first. -/
def wordsAux (word : List Char) : List Char → List String
  | [] => if word.isEmpty then [] else [String.ofList word.reverse]
  | c :: cs =>
    if isBlank c then
      if word.isEmpty then wordsAux [] cs else String.ofList word.reverse :: wordsAux [] cs
    else wordsAux (c :: word) cs

def words (s : String) : List String :=
  wordsAux [] s.toList

/-- Collects lines with their ends; `line` is the line under way, last character first. A
carriage return and a newline after it are one end. -/
def linesAux (line : List Char) : List Char → List (String × String)
  | [] => if line.isEmpty then [] else [(String.ofList line.reverse, "")]
  | '\r' :: '\n' :: cs => (String.ofList line.reverse, "\r\n") :: linesAux [] cs
  | c :: cs =>
    if isLineEnd c then (String.ofList line.reverse, String.singleton c) :: linesAux [] cs
    else linesAux (c :: line) cs

def linesWithEnds (s : String) : List (String × String) :=
  linesAux [] s.toList

def lines (s : String) : List String :=
  (linesWithEnds s).map Prod.fst

def linesKeepEnds (s : String) : List String :=
  (linesWithEnds s).map fun (line, ending) => line ++ ending

def cutAfterNewlines (line : List Char) : List Char → List String
  | [] => if line.isEmpty then [] else [String.ofList line.reverse]
  | c :: cs =>
    if c == '\n' then String.ofList ('\n' :: line).reverse :: cutAfterNewlines [] cs
    else cutAfterNewlines (c :: line) cs

def fileLines (s : String) : List String :=
  cutAfterNewlines [] s.toList

def unifyNewlinesAux : List Char → List Char
  | [] => []
  | '\r' :: '\n' :: cs => '\n' :: unifyNewlinesAux cs
  | c :: cs => (if c == '\r' then '\n' else c) :: unifyNewlinesAux cs

def unifyNewlines (s : String) : String :=
  String.ofList (unifyNewlinesAux s.toList)

end Stimulus.Text
