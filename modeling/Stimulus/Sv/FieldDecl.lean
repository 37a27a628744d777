import Stimulus.Pattern.Match
import Stimulus.Sv.Basic
import Stimulus.Sv.Comment
import Stimulus.Text.Integer

/-!
# Field declarations

Declarations are looked for outside constraint, function and task blocks. One declaration may
name several fields of a bit type or of an integer type.
-/

namespace Stimulus.Sv

open Pattern

/-! ## Lines outside blocks -/

def opensBlock (line : String) : Bool :=
  ["constraint", "function", "task"].any fun keyword =>
    (blanks ++ lit keyword ++ blanks1 ++ word).fitsStart line

def mayCloseBlock (line : String) : Bool :=
  ["\x7d", "endfunction", "endtask"].any (Text.contains · line)

/-- The lines that belong to no block. `depth?` is the number of braces open in the block under
way, if there is one. -/
def linesOutside (depth? : Option Int) : List String → List String
  | [] => []
  | line :: rest =>
    let bare := Text.strip line
    match (if depth?.isNone && opensBlock bare then some 0 else depth?) with
    | some depth =>
      let depth := depth + (Text.count "\x7b" bare : Int) - (Text.count "\x7d" bare : Int)
      linesOutside (if depth ≤ 0 && mayCloseBlock bare then none else some depth) rest
    | none => line :: linesOutside none rest

def outsideBlocks (body : String) : String :=
  Text.join "\n" (linesOutside none (Text.splitOn "\n" body))

/-! ## Names -/

def reservedNames : List String :=
  ["format", "before", "inside", "solve", "if", "else", "constraint", "function", "endfunction",
    "return", "this", "begin", "end"]

/-- A name that a field may have: an identifier that is not reserved and does not start with an
underscore. -/
def isFieldName (name : String) : Bool :=
  (first ++ identifier ++ last).fitsStart name && !reservedNames.contains name
    && !Text.startsWith "_" name

/-! ## One declaration -/

def modeKeyword : Pattern := opt (group 1 (lit "rand" <|> lit "randc"))

def bitType : Pattern := group 2 (lit "bit" <|> lit "logic")

def intType : Pattern :=
  group 2 (lit "int" <|> lit "byte" <|> lit "shortint" <|> lit "longint")

def bitRange : Pattern := opt (lit "[" ++ group 4 digits ++ lit ":0]")

def wordList : Pattern :=
  let next := blanks ++ lit "," ++ blanks ++ word
  word ++ next ++ star next

def bitFields : Pattern :=
  first ++ blanks ++ modeKeyword ++ blanks ++ bitType ++ edge ++ blanks
    ++ opt (group 3 (lit "signed")) ++ blanks ++ bitRange ++ blanks1 ++ group 5 wordList ++ blanks
    ++ last

def intFields : Pattern :=
  first ++ blanks ++ modeKeyword ++ blanks ++ intType ++ edge ++ blanks
    ++ opt (group 3 (lit "signed" <|> lit "unsigned")) ++ blanks1 ++ group 4 wordList ++ blanks
    ++ last

def bitField : Pattern :=
  first ++ blanks ++ modeKeyword ++ blanks ++ bitType ++ edge ++ blanks
    ++ opt (group 3 (lit "signed")) ++ blanks ++ bitRange ++ blanks ++ group 5 word ++ blanks
    ++ opt ((lit "[" ++ group 6 digits ++ lit "]") <|> lit "[]") ++ blanks ++ last

def intField : Pattern :=
  first ++ blanks ++ modeKeyword ++ blanks ++ intType ++ edge
    ++ opt (blanks1 ++ group 3 (lit "signed" <|> lit "unsigned")) ++ blanks1 ++ group 4 word
    ++ blanks ++ last

/-- A field of an enumeration, whose name ends in `_e` or `_t`. -/
def enumField : Pattern :=
  first ++ blanks ++ modeKeyword ++ blanks ++ group 2 (word ++ lit "_" ++ oneOf "et") ++ blanks1
    ++ group 3 word ++ blanks ++ last

/-- The patterns of a declaration of one field, each with the number of pieces that it keeps. -/
def fieldPatterns : List (Pattern × Nat) :=
  [(bitField, 6), (intField, 4), (enumField, 3)]

def pieceAt (pieces : List (Option String)) (i : Nat) : Outcome (Option String) :=
  match pieces[i]? with
  | some piece => .ok piece
  | none => .error .listTooShort

def filledPiece (pieces : List (Option String)) (i : Nat) : Option String :=
  (pieces[i]?.join).filter (! ·.isEmpty)

def looksNumeric (s : String) : Bool :=
  !s.isEmpty && s.toList.all Text.isDigitLike

/-- A field of a bit type, from mode, type, sign, width, name and array size. With four pieces the
fourth is both the width and the name. -/
def bitShape (pieces : List (Option String)) (source : String) (mode : Mode) (type : DataType) :
    Outcome (Option String × FieldShape) := do
  let width ← match filledPiece pieces 3 with
    | some hi => do pure ((← Text.integer hi) + 1)
    | none => pure 1
  let name ← if 4 < pieces.length then pieceAt pieces 4 else pieceAt pieces 3
  let extent ← match filledPiece pieces 5 with
    | some size => do pure (Extent.fixed (← Text.integer size))
    | none => pure (if Text.contains "[]" source then .dynamic else .single)
  return (name, { width, mode, extent, source, dataType := type,
                  signed := pieces[2]? == some (some "signed") })

/-- The name and shape that the pieces of a declaration give: mode, type and then what the type
asks for. -/
def FieldShape.ofPieces (pieces : List (Option String)) (source : String) :
    Outcome (Option (Option String × FieldShape)) := do
  if pieces.length < 3 then return none
  let mode := Mode.ofKeyword pieces[0]?.join
  match pieces[1]?.join with
  | none => throw (.noAttribute "NoneType" "endswith")
  | some typeName =>
    let type := DataType.ofName typeName
    if type = .bit ∨ type = .logic then
      if ((filledPiece pieces 3).any (! looksNumeric ·)) then return none
      if ((filledPiece pieces 5).any (! looksNumeric ·)) then return none
      return some (← bitShape pieces source mode type)
    match type.fixedWidth? with
    | some width =>
      match filledPiece pieces 3 with
      | none => return none
      | some name =>
        return some (name, { width, mode, source, dataType := type,
                             signed := pieces[2]? != some (some "unsigned") })
    | none =>
      if Text.endsWith "_e" typeName || Text.endsWith "_t" typeName then
        match filledPiece pieces 2 with
        | none => return none
        | some name =>
          return some (name, { width := 32, mode, source, dataType := type,
                               enumType := some typeName })
      else return none

/-! ## All declarations of a class body -/

def nonFieldMarks : List String :=
  ["solve ", "inside ", "dist ", " before ", "foreach", "unique", "constraint ", "function ",
    "endfunction", "if ", "else", "return", "==", "!=", "<=", ">=", "->"]

def fieldNames (list : String) : List String :=
  ((Text.splitOn "," list).map Text.strip).filter isFieldName

def Field.ofBitFields (m : Match) : Outcome (List Field) := do
  let width ← match m.group? 4 with
    | some hi => do pure ((← Text.integer hi) + 1)
    | none => pure 1
  let signed := m.group? 3 == some "signed"
  let mark := if signed then "signed " else ""
  return (fieldNames (m.group 5)).map fun name =>
    { name, width, mode := Mode.ofKeyword (m.group? 1), signed
      dataType := DataType.ofName (m.group 2)
      source := Text.strip (m.group 1 ++ " " ++ m.group 2 ++ " " ++ mark
        ++ s!"[{width - 1}:0] {name};") }

def Field.ofIntFields (m : Match) : List Field :=
  let type := DataType.ofName (m.group 2)
  let sign := (m.group? 3).getD "signed"
  (fieldNames (m.group 4)).map fun name =>
    { name, width := (type.fixedWidth?.getD 0 : Nat), mode := Mode.ofKeyword (m.group? 1)
      dataType := type, signed := m.group? 3 != some "unsigned"
      source := Text.strip (m.group 1 ++ " " ++ m.group 2 ++ " " ++ sign ++ " " ++ name ++ ";") }

/-- The field of a declaration that names one. Only the first pattern that fits is asked. -/
def Field.ofDeclaration (line : String) : Outcome (List Field) := do
  match fieldPatterns.findSome? fun (p, n) => (p.atStart? line).map fun m => (m, n) with
  | none => return []
  | some (m, n) =>
    match ← FieldShape.ofPieces ((List.range n).map fun i => m.group? (i + 1)) (line ++ ";") with
    | some (some name, shape) => return if isFieldName name then [{ shape with name }] else []
    | _ => return []

def Field.ofStatement (text : String) : Outcome (List Field) := do
  let line := Text.strip (dropLineComments text)
  if line.isEmpty || nonFieldMarks.any (Text.contains · line) then return []
  match bitFields.atStart? line with
  | some m => Field.ofBitFields m
  | none =>
    match intFields.atStart? line with
    | some m => return Field.ofIntFields m
    | none => Field.ofDeclaration line

def readFields (body : String) : Outcome (List Field) :=
  return ((← (Text.splitOn ";" (outsideBlocks body)).mapM Field.ofStatement)).flatten

end Stimulus.Sv
