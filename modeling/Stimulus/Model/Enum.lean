import Stimulus.Expr.Names
import Stimulus.Model.Journal
import Stimulus.Model.Field
import Stimulus.Sv.Basic

/-!
# Enumerations in a model

An enumeration becomes an integer enumeration. A member without a value is one more than the member
before it, and the first one is zero. A member that two enumerations share belongs to the first.
-/

namespace Stimulus.Model

open Sv

/-- The members with their values, if the next one without a value gets `next`. -/
def numbered (next : Int) : List (String × Option Int) → List (String × Int)
  | [] => []
  | (name, value?) :: rest =>
    let value := value?.getD next
    (name, value) :: numbered (value + 1) rest

def enumText (e : Enum) : String :=
  Text.join "\n" (s!"class {className e.name}(IntEnum):"
    :: s!"    \"\"\"Translated from SV enum: {e.name}\"\"\""
    :: (numbered 0 e.members).map fun (name, value) => s!"    {name} = {value}")

def enumIsPrintable (e : Enum) : Bool := (numbered 0 e.members).all fun m => Text.isShort m.2

def writeEnum (e : Enum) : Writing String := do
  modify (Journal.note s!"Enum '{e.name}' -> IntEnum '{className e.name}'")
  return enumText e

/-- Adds the members of an enumeration to the scope; one that is taken already is warned of. -/
def addMembers (cls : String) : List String → Expr.Scope → Journal → Expr.Scope × Journal
  | [], scope, j => (scope, j)
  | name :: rest, scope, j =>
    match scope.classOf? name with
    | none => addMembers cls rest { scope with members := scope.members ++ [(name, cls)] } j
    | some owner =>
      if owner = cls then addMembers cls rest scope j
      else addMembers cls rest scope
        (j.warn s!"Enum value '{name}' appears in multiple enums; using '{owner}'")

def scopeOf (enums : List Enum) (j : Journal) : Expr.Scope × Journal :=
  enums.foldl (fun (scope, j) e =>
    let cls := className e.name
    let classes := if scope.classes.contains cls then scope.classes else scope.classes ++ [cls]
    addMembers cls (e.members.map Prod.fst) { scope with classes } j) ({}, j)

def distinctEnums (enums : List Enum) : List Enum :=
  enums.foldl (fun seen e => if seen.any (·.name == e.name) then seen else seen ++ [e]) []

end Stimulus.Model
