import Stimulus.Decimal.Shortest
import Stimulus.Text.Quoted

/-!
# JSON values

Values as they stand in configuration files. Integers have any size and are told from decimals.
-/

namespace Stimulus

/-- A JSON value. The fields of an object keep their order. -/
inductive Json where
  | null
  | bool (b : Bool)
  | int (n : Int)
  | decimal (x : Float)
  | str (s : String)
  | arr (items : List Json)
  | obj (fields : List (String × Json))
deriving Inhabited

namespace Json

/-- A character of a string in plain ASCII. Characters outside of the first plane take two units. -/
def escaped (c : Char) : String :=
  let unit := fun (n : Nat) => "\\u" ++ Text.hexDigits 4 n
  if c = '"' then "\\\""
  else if c = '\\' then "\\\\"
  else if c = '\n' then "\\n"
  else if c = '\r' then "\\r"
  else if c = '\t' then "\\t"
  else if c = Char.ofNat 8 then "\\b"
  else if c = Char.ofNat 12 then "\\f"
  else if 32 ≤ c.toNat ∧ c.toNat < 127 then c.toString
  else if c.toNat < 0x10000 then unit c.toNat
  else
    let rest := c.toNat - 0x10000
    unit (0xd800 + rest / 0x400) ++ unit (0xdc00 + rest % 0x400)

def quote (s : String) : String :=
  "\"" ++ String.join (s.toList.map escaped) ++ "\""

def decimalText (x : Float) : String :=
  match Decimal.Binary.ofFloat x with
  | .undefined => "NaN"
  | .infinite negative => if negative then "-Infinity" else "Infinity"
  | .finite .. => Decimal.text x

/-- The text of a value, given what goes after an opening bracket, between items and before a
closing bracket at a level, and between a key and its value. -/
def render (start sep stop : Nat → String) (colon : String) (level : Nat) : Json → String
  | null => "null"
  | bool b => if b then "true" else "false"
  | int n => toString n
  | decimal x => decimalText x
  | str s => quote s
  | arr [] => "[]"
  | arr items =>
    "[" ++ start level
      ++ (sep level).intercalate (renderItems start sep stop colon (level + 1) items)
      ++ stop level ++ "]"
  | obj [] => "\x7b\x7d"
  | obj fields =>
    "\x7b" ++ start level
      ++ (sep level).intercalate (renderFields start sep stop colon (level + 1) fields)
      ++ stop level ++ "\x7d"
where
  renderItems (start sep stop : Nat → String) (colon : String) (level : Nat) :
      List Json → List String
    | [] => []
    | v :: rest =>
      render start sep stop colon level v :: renderItems start sep stop colon level rest
  renderFields (start sep stop : Nat → String) (colon : String) (level : Nat) :
      List (String × Json) → List String
    | [] => []
    | (key, v) :: rest =>
      (quote key ++ colon ++ render start sep stop colon level v)
        :: renderFields start sep stop colon level rest

def text (v : Json) : String :=
  render (fun _ => "") (fun _ => ", ") (fun _ => "") ": " 0 v

def pretty (v : Json) : String :=
  let line := fun (level : Nat) => "\n" ++ "".pushn ' ' (2 * level)
  render (fun level => line (level + 1)) (fun level => "," ++ line (level + 1)) line ": " 0 v

def get? (v : Json) (key : String) : Option Json :=
  match v with
  | obj fields => fields.lookup key
  | _ => none

end Json

end Stimulus
