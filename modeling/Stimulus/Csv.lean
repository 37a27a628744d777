import Stimulus.Text.Basic

/-!
# Comma-separated tables

Fields stand between commas, records on lines. A field in quotes may hold commas, line ends and, if
they are doubled, quotes.
-/

namespace Stimulus.Csv

/-- Where the reader stands. -/
inductive Mode where
  | record
  /-- Before a field, after a comma. -/
  | field
  /-- In a field without quotes, or after its quotes. -/
  | plain
  | quoted
  | quote
deriving DecidableEq, Repr

/-- The record of fields, the last of which is under way; both have their last item first. -/
def close (field : List Char) (fields : List String) : List String :=
  (String.ofList field.reverse :: fields).reverse

def readFrom (mode : Mode) (field : List Char) (fields : List String) :
    List Char → List (List String)
  | [] => if mode = .record then [] else [close field fields]
  | '\r' :: '\n' :: cs =>
    if mode = .quoted then readFrom .quoted ('\n' :: '\r' :: field) fields cs
    else (if mode = .record then [] else close field fields) :: readFrom .record [] [] cs
  | c :: cs =>
    match mode with
    | .quoted =>
      if c = '"' then readFrom .quote field fields cs else readFrom .quoted (c :: field) fields cs
    | mode =>
      if c = '\n' ∨ c = '\r' then
        (if mode = .record then [] else close field fields) :: readFrom .record [] [] cs
      else if c = ',' then readFrom .field [] (String.ofList field.reverse :: fields) cs
      else if c = '"' ∧ (mode = .record ∨ mode = .field) then readFrom .quoted field fields cs
      else if c = '"' ∧ mode = .quote then readFrom .quoted (c :: field) fields cs
      else readFrom .plain (c :: field) fields cs

def read (s : String) : List (List String) := readFrom .record [] [] s.toList

def needsQuotes (s : String) : Bool :=
  s.toList.any fun c => c == ',' || c == '"' || c == '\r' || c == '\n'

def writeField (s : String) : String :=
  if needsQuotes s then "\"" ++ Text.replace "\"" "\"\"" s ++ "\"" else s

/-- A record as it is written. A single empty field has quotes, to tell it from a blank line. -/
def writeRecord (fields : List String) : String :=
  match fields with
  | [""] => "\"\"\r\n"
  | fields => Text.join "," (fields.map writeField) ++ "\r\n"

def write (records : List (List String)) : String := String.join (records.map writeRecord)

/-- A record below a header. -/
structure Row where
  header : List String
  fields : List String
deriving DecidableEq, Repr

/-- The field of a name: `none` if the header lacks the name, `some none` if the record is too
short. Of several columns with one name the last one counts. -/
def Row.get? (row : Row) (name : String) : Option (Option String) :=
  let columns := row.header.zip
    (row.fields.map some ++ List.replicate (row.header.length - row.fields.length) none)
  (columns.reverse.find? fun (n, _) => n == name).map Prod.snd

def rows (s : String) : List Row :=
  match read s with
  | [] => []
  | header :: records =>
    (records.filter fun r => !r.isEmpty).map fun fields => { header, fields }

end Stimulus.Csv
