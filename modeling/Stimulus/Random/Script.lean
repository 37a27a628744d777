import Stimulus.Json.Access
import Stimulus.Random.Object

/-!
# Scripts for random objects

A script is an object with the fields at first, what each randomisation sets, and why the object
cannot be made, if so. A randomisation that is a text fails with it. A field known by reference is
an object with its value under `val`. -/

namespace Stimulus.Random

def Value.ofJson (j : Json) : Value :=
  match j with
  | .obj [("val", v)] => .cell v
  | v => .plain v

def Value.toJson : Value → Json
  | plain v => v.tagged
  | cell v => .obj [("val", v.tagged)]

def fieldsOf (j : Json) : List (String × Value) := j.asFields.map fun (k, v) => (k, .ofJson v)

def Draw.ofJson : Json → Draw
  | .str text => .fails text
  | j => .sets (fieldsOf j)

def Recipe.ofJson (j : Json) : Recipe :=
  let runs := match j.get? "runs" with
    | some (.arr runs) => runs.map Draw.ofJson
    | _ => [.sets []]
  { fault := (j.field "init_error").asStr?
    object := { fields := fieldsOf (j.field "fields"), runs } }

def Object.toJson (obj : Object) : Json :=
  .obj ((obj.fields.filter fun (k, _) => !Text.startsWith "_" k).map fun (k, v) => (k, v.toJson))

end Stimulus.Random
