import Stimulus.Text.CaseTable

/-!
# Letter case

Lower-casing and capitalising follow the full case mappings: a letter may become several, and a
capital sigma at the end of a word becomes a final sigma.
-/

namespace Stimulus.Text

def isUpperChar (c : Char) : Bool :=
  if c.toNat < 128 then c.isUpper else inRuns upperRuns c

def isLowerChar (c : Char) : Bool :=
  if c.toNat < 128 then c.isLower else inRuns lowerRuns c

def isTitleChar (c : Char) : Bool :=
  128 ≤ c.toNat && inSpans titleSpans c

def isCaseIgnorable (c : Char) : Bool :=
  if c.toNat < 128 then "'.:^`".toList.contains c else inSpans caseIgnorableSpans c

def isCased (c : Char) : Bool :=
  isUpperChar c || isLowerChar c || isTitleChar c

def nextIsCased (cs : List Char) : Bool :=
  match cs.dropWhile isCaseIgnorable with
  | [] => false
  | c :: _ => isCased c

/-- The lower-case form of a character between `before` (nearest first) and `after`. -/
def lowerChar (before : List Char) (c : Char) (after : List Char) : List Char :=
  if c.toNat < 128 then [c.toLower]
  else if c.toNat == 0x3A3 then
    if nextIsCased before && !nextIsCased after then [Char.ofNat 0x3C2] else [Char.ofNat 0x3C3]
  else if c.toNat == 0x130 then ['i', Char.ofNat 0x307]
  else [(shifted? toLowerRuns c).getD c]

/-- Lower case of the text `after`, which follows `before` (nearest first). -/
def lowerAfter (before : List Char) : List Char → List Char
  | [] => []
  | c :: after => lowerChar before c after ++ lowerAfter (c :: before) after

def titleChar (c : Char) : List Char :=
  if c.toNat < 128 then [c.toUpper]
  else match toTitleTexts.find? fun (n, _) => n == c.toNat with
    | some (_, text) => text.toList
    | none => [(shifted? toTitleRuns c).getD c]

def lower (s : String) : String :=
  String.ofList (lowerAfter [] s.toList)

def capitalize (s : String) : String :=
  match s.toList with
  | [] => ""
  | c :: rest => String.ofList (titleChar c ++ lowerAfter [c] rest)

def isUpper (s : String) : Bool :=
  s.toList.any isUpperChar && !s.toList.any fun c => isLowerChar c || isTitleChar c

end Stimulus.Text
