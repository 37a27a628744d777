import Stimulus.Json.Basic
import Stimulus.Text.Basic

/-!
# Looking into values

What a value is or has, with something plain in place of what is not there.
-/

namespace Stimulus.Json

def field (j : Json) (key : String) : Json := (j.get? key).getD null

def asStr? : Json → Option String
  | str s => some s
  | _ => none

def asStr (j : Json) : String := j.asStr?.getD ""

def asBool : Json → Bool
  | bool b => b
  | int n => n != 0
  | _ => false

def asInt : Json → Int
  | int n => n
  | bool b => if b then 1 else 0
  | _ => 0

def asList : Json → List Json
  | arr items => items
  | _ => []

def asFields : Json → List (String × Json)
  | obj fields => fields
  | _ => []

def asStrs (j : Json) : List String := j.asList.map asStr

def asTexts (j : Json) : List (String × String) := j.asFields.map fun (key, v) => (key, v.asStr)

def item (j : Json) (i : Nat) : Json := j.asList[i]?.getD null

def getStr (j : Json) (key : String) (default : String := "") : String :=
  match j.get? key with
  | some (str s) => s
  | _ => default

def getBool (j : Json) (key : String) (default : Bool := false) : Bool :=
  match j.get? key with
  | some (bool b) => b
  | _ => default

def getInt (j : Json) (key : String) (default : Int := 0) : Int :=
  match j.get? key with
  | some (int n) => n
  | _ => default

/-! ## Making values -/

def strs (texts : List String) : Json := arr (texts.map str)

def texts (fields : List (String × String)) : Json := obj (fields.map fun (key, s) => (key, str s))

def nat (n : Nat) : Json := int n

def opt {α : Type} (f : α → Json) : Option α → Json
  | none => null
  | some a => f a

mutual

def tagged : Json → Json
  | decimal x => obj [("float", str (Decimal.text x))]
  | arr items => arr (taggedItems items)
  | obj fields => obj (taggedFields fields)
  | v => v

def taggedItems : List Json → List Json
  | [] => []
  | v :: rest => tagged v :: taggedItems rest

def taggedFields : List (String × Json) → List (String × Json)
  | [] => []
  | (key, v) :: rest => (key, tagged v) :: taggedFields rest

end

end Stimulus.Json
