import Stimulus.Json.Access
import Stimulus.Vector.Draw
import Stimulus.Vector.Series

/-!
# Specifications, series and fields as values
-/

namespace Stimulus.Vector

open Json (opt strs tagged)

def Spec.toJson (s : Spec) : Json :=
  .obj [("name", .str s.name), ("bit_width", .int s.width), ("is_signed", .bool s.signed),
    ("spec_min", opt (fun (r : Int × Int) => .int r.1) s.range),
    ("spec_max", opt (fun (r : Int × Int) => .int r.2) s.range), ("type_name", .str s.typeName)]

def Spec.ofJson (j : Json) : Spec :=
  let range := match j.field "spec_min", j.field "spec_max" with
    | .int a, .int b => some (a, b)
    | _, _ => none
  { name := j.getStr "name", width := j.getInt "bit_width" 32, signed := j.getBool "is_signed"
    range, typeName := j.getStr "type_name" }

def Specs.toJson (specs : Specs) : Json := .arr (specs.map Spec.toJson)

def Series.toJson (s : Series) : Outcome Json := do
  let m ← s.summary
  return .obj [("name", .str s.name), ("values", .arr (s.values.map tagged)),
    ("min_val", opt (fun (r : Int × Int) => .int r.1) m.range),
    ("max_val", opt (fun (r : Int × Int) => .int r.2) m.range), ("bit_width", .nat m.width),
    ("is_signed", .bool m.signed), ("unique_count", .nat m.unique),
    ("spec", opt Spec.toJson s.spec)]

def Series.ofJson (j : Json) : Series :=
  let spec := (j.get? "spec").bind fun k => if k.isVoid then none else some (Spec.ofJson k)
  { name := j.getStr "name", values := (j.field "values").asList, spec }

def Field.listOfJson (j : Json) : List Field :=
  j.asList.map fun f => { name := (f.item 0).asStr, default := (f.item 1).asStr }

def Field.listToJson (fields : List Field) : Json :=
  .arr (fields.map fun f => strs [f.name, f.default])

end Stimulus.Vector
