import Stimulus.Decimal.Read
import Stimulus.Json.Basic

/-!
# Reading JSON

A text is one value with blanks around it. A key that occurs twice has its last value, at the place
of its first.
-/

namespace Stimulus.Json

/-- What is wrong with a text. -/
inductive Problem where
  /-- It starts with a byte order mark. -/
  | marked
  /-- Something stands after the value. -/
  | more
  | noValue
  /-- The name of a field is missing. -/
  | noName
  /-- The colon after a name is missing. -/
  | noColon
  /-- The comma after an item is missing. -/
  | noComma
  /-- A string does not end. -/
  | openString
  /-- A string has a control character. -/
  | control
  /-- A string has an unknown escape. -/
  | badEscape
  /-- The code of a character lacks digits. -/
  | badCode
deriving DecidableEq, Repr

def Problem.words : Problem → String
  | marked => "Unexpected UTF-8 BOM (decode using utf-8-sig)"
  | more => "Extra data"
  | noValue => "Expecting value"
  | noName => "Expecting property name enclosed in double quotes"
  | noColon => "Expecting ':' delimiter"
  | noComma => "Expecting ',' delimiter"
  | openString => "Unterminated string starting at"
  | control => "Invalid control character at"
  | badEscape => "Invalid \\escape"
  | badCode => "Invalid \\uXXXX escape"

/-- What is wrong, and the text from there on. -/
structure Fault where
  problem : Problem
  rest : List Char
deriving DecidableEq, Repr

/-- The words in which a fault in a text is reported, with its line and its place in the line. -/
def Fault.message (f : Fault) (s : String) : String :=
  let pos := s.length - f.rest.length
  let before := s.toList.take pos
  let line := (before.filter (· == '\n')).length + 1
  let column := (before.reverse.takeWhile (· != '\n')).length + 1
  s!"{f.problem.words}: line {line} column {column} (char {pos})"

def isGap (c : Char) : Bool := c == ' ' || c == '\t' || c == '\n' || c == '\r'

def skipGaps (cs : List Char) : List Char := cs.dropWhile isGap

def hexValue? (c : Char) : Option Nat :=
  if '0' ≤ c ∧ c ≤ '9' then some (c.toNat - '0'.toNat)
  else if 'a' ≤ c ∧ c ≤ 'f' then some (c.toNat - 'a'.toNat + 10)
  else if 'A' ≤ c ∧ c ≤ 'F' then some (c.toNat - 'A'.toNat + 10)
  else none

/-- The value of four hexadecimal digits, and the text after them, which has to be there. -/
def unit? : List Char → Option (Nat × List Char)
  | a :: b :: c :: d :: e :: rest => do
    let n := ((← hexValue? a) * 16 + (← hexValue? b)) * 256 + (← hexValue? c) * 16 + (← hexValue? d)
    return (n, e :: rest)
  | _ => none

def escapeOf? (c : Char) : Option Char :=
  match c with
  | '"' => some '"'
  | '\\' => some '\\'
  | '/' => some '/'
  | 'b' => some (Char.ofNat 8)
  | 'f' => some (Char.ofNat 12)
  | 'n' => some '\n'
  | 'r' => some '\r'
  | 't' => some '\t'
  | _ => none

/-- The second half of a character outside of the first plane, and the text after it. -/
def lowHalf? (cs : List Char) : Option (Nat × List Char) :=
  match cs with
  | '\\' :: 'u' :: rest => (unit? rest).filter fun (n, _) => 0xdc00 ≤ n && n < 0xe000
  | _ => none

/-- The character with a code, whose second half may follow; half a character stands for an unknown
one. -/
def charOf (n : Nat) (rest : List Char) : Char × List Char :=
  if 0xd800 ≤ n ∧ n < 0xdc00 then
    match lowHalf? rest with
    | some (low, rest) => (Char.ofNat (0x10000 + (n - 0xd800) * 0x400 + (low - 0xdc00)), rest)
    | none => (Char.ofNat 0xfffd, rest)
  else (Char.ofNat (if 0xdc00 ≤ n ∧ n < 0xe000 then 0xfffd else n), rest)

/-- The rest of a string after its opening quote, at which the text `start` begins. `read` is what
was read so far, last character first. -/
def readString (start : List Char) : (fuel : Nat) → (read : List Char) → List Char →
    Except Fault (String × List Char)
  | 0, _, _ => .error ⟨.openString, start⟩
  | _ + 1, _, [] => .error ⟨.openString, start⟩
  | fuel + 1, read, c :: cs =>
    if c = '"' then .ok (String.ofList read.reverse, cs)
    else if c.toNat < 32 then .error ⟨.control, c :: cs⟩
    else if c = '\\' then
      match cs with
      | [] => .error ⟨.openString, start⟩
      | 'u' :: rest =>
        match unit? rest with
        | none => .error ⟨.badCode, cs⟩
        | some (n, rest) =>
          let (decoded, rest) := charOf n rest
          readString start fuel (decoded :: read) rest
      | e :: rest =>
        match escapeOf? e with
        | none => .error ⟨.badEscape, c :: cs⟩
        | some decoded => readString start fuel (decoded :: read) rest
    else readString start fuel (c :: read) cs

def takeDigits (cs : List Char) : List Char × List Char := cs.span Char.isDigit

def takeExponent? (cs : List Char) : Option (Int × List Char) :=
  match cs with
  | e :: cs =>
    if e = 'e' ∨ e = 'E' then
      let (negative, cs) := match cs with
        | '-' :: cs => (true, cs)
        | '+' :: cs => (false, cs)
        | cs => (false, cs)
      match takeDigits cs with
      | ([], _) => none
      | (digits, rest) =>
        let n : Int := Decimal.digitsValue digits
        some (if negative then -n else n, rest)
    else none
  | [] => none

/-- A number at the start of a text, and the text after it. A number with a fraction or an exponent
is a decimal. -/
def readNumber (cs : List Char) : Option (Json × List Char) :=
  let (negative, cs) := match cs with
    | '-' :: cs => (true, cs)
    | cs => (false, cs)
  let (whole, rest) := match cs with
    | '0' :: rest => (['0'], rest)
    | cs => takeDigits cs
  if whole.isEmpty then none
  else
    let (fraction, rest) := match rest with
      | '.' :: more => match takeDigits more with
        | ([], _) => ([], rest)
        | (digits, more) => (digits, more)
      | _ => ([], rest)
    let exponent? := takeExponent? rest
    let rest := (exponent?.map Prod.snd).getD rest
    if fraction.isEmpty && exponent?.isNone then
      let n : Int := Decimal.digitsValue whole
      some (int (if negative then -n else n), rest)
    else
      let e := (exponent?.map Prod.fst).getD 0 - fraction.length
      let x := Decimal.ofDigits (Decimal.digitsValue (whole ++ fraction)) e
      some (decimal (if negative then -x else x), rest)

def readName (cs : List Char) : Option (Json × List Char) :=
  let names : List (String × Json) :=
    [("null", null), ("true", bool true), ("false", bool false), ("NaN", decimal (0.0 / 0.0)),
      ("Infinity", decimal (1.0 / 0.0)), ("-Infinity", decimal (-1.0 / 0.0))]
  names.findSome? fun (name, v) => (Text.dropStart? name.toList cs).map fun rest => (v, rest)

def setField (key : String) (v : Json) : List (String × Json) → List (String × Json)
  | [] => [(key, v)]
  | (k, w) :: rest => if k = key then (k, v) :: rest else (k, w) :: setField key v rest

def takeString (cs : List Char) : Except Fault (String × List Char) :=
  readString cs (cs.length + 1) [] cs.tail

mutual

def readValue : (fuel : Nat) → List Char → Except Fault (Json × List Char)
  | 0, cs => .error ⟨.noValue, cs⟩
  | fuel + 1, cs =>
    match cs with
    | '"' :: _ => (takeString cs).map fun (s, rest) => (str s, rest)
    | '[' :: rest =>
      match skipGaps rest with
      | ']' :: rest => .ok (arr [], rest)
      | rest => readItems fuel [] rest
    | '{' :: rest =>
      match skipGaps rest with
      | '}' :: rest => .ok (obj [], rest)
      | rest => readFields fuel [] rest
    | cs =>
      match (readName cs).or (readNumber cs) with
      | some found => .ok found
      | none => .error ⟨.noValue, cs⟩

/-- The items of a list up to its closing bracket; `items` are those read, last one first. -/
def readItems : (fuel : Nat) → (items : List Json) → List Char →
    Except Fault (Json × List Char)
  | 0, _, cs => .error ⟨.noValue, cs⟩
  | fuel + 1, items, cs => do
    let (v, rest) ← readValue fuel cs
    match skipGaps rest with
    | ',' :: rest => readItems fuel (v :: items) (skipGaps rest)
    | ']' :: rest => return (arr (v :: items).reverse, rest)
    | rest => throw ⟨.noComma, rest⟩

/-- The fields of an object up to its closing brace; `fields` are those read. -/
def readFields : (fuel : Nat) → (fields : List (String × Json)) → List Char →
    Except Fault (Json × List Char)
  | 0, _, cs => .error ⟨.noName, cs⟩
  | fuel + 1, fields, cs =>
    match cs with
    | '"' :: _ => do
      let (key, rest) ← takeString cs
      match skipGaps rest with
      | ':' :: rest =>
        let (v, rest) ← readValue fuel (skipGaps rest)
        let fields := setField key v fields
        match skipGaps rest with
        | ',' :: rest => readFields fuel fields (skipGaps rest)
        | '}' :: rest => return (obj fields, rest)
        | rest => throw ⟨.noComma, rest⟩
      | rest => throw ⟨.noColon, rest⟩
    | cs => .error ⟨.noName, cs⟩

end

def read (s : String) : Except Fault Json := do
  if s.toList.head? = some (Char.ofNat 0xfeff) then throw ⟨.marked, s.toList⟩
  let (v, rest) ← readValue (s.length + 1) (skipGaps s.toList)
  match skipGaps rest with
  | [] => return v
  | rest => throw ⟨.more, rest⟩

def read? (s : String) : Option Json := (read s).toOption

end Stimulus.Json
