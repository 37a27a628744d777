import Stimulus.Pattern.Match
import Stimulus.Sv.Basic
import Stimulus.Text.Integer

/-!
# Fields in a model

Each field becomes a declaration with the solver type of its width and sign. The solver has no
signed bit vectors, so those become integers.
-/

/-!
## Class names

The name of a declared type as a class name: its parts between underscores, each with a capital
first letter, without the mark `_t` or `_e` of a type or enumeration.
-/

namespace Stimulus.Model

open Pattern Sv

def typeMark : Pattern := lit "_" ++ oneOf "te" ++ last

def className (name : String) : String :=
  String.join ((Text.splitOn "_" (typeMark.removeAll name)).map Text.capitalize)

/-! ## Declarations -/

def valueType (f : FieldShape) : String :=
  let sign := if f.signed then "" else "u"
  match f.dataType with
  | .bit | .logic => if f.signed then s!"int_t({f.width})" else s!"bit_t({f.width})"
  | .byte => s!"{sign}int8_t()"
  | .shortint => s!"{sign}int16_t()"
  | .int => s!"{sign}int32_t()"
  | .longint => s!"{sign}int64_t()"
  | .named _ => s!"bit_t({f.width})"

def fieldType (f : FieldShape) : String :=
  match f.mode with
  | .randc => s!"vsc.randc_bit_t({f.width})"
  | .rand => "vsc.rand_" ++ valueType f
  | .plain => "vsc." ++ valueType f

def sizeArgument : Extent → String
  | .fixed size => if size = 0 then "" else s!", sz={size}"
  | _ => ""

def fieldValue (f : FieldShape) : String :=
  let random := if f.mode = .rand then "rand_" else ""
  match f.enumType, f.extent with
  | some type, _ =>
    let known := if type.isEmpty then "UnknownEnum" else type
    s!"vsc.{random}enum_t({className known})"
  | none, .single => fieldType f
  | none, extent => s!"vsc.{random}list_t(vsc.{valueType f}{sizeArgument extent})"

/-- The numbers that stand in a value type. -/
def valueNumbers (f : FieldShape) : List Int :=
  match f.dataType with
  | .bit | .logic | .named _ => [f.width]
  | _ => []

/-- The numbers that stand in the declaration of a field. -/
def fieldNumbers (f : FieldShape) : List Int :=
  match f.enumType, f.extent with
  | some _, _ => []
  | none, .single => if f.mode = .randc then [f.width] else valueNumbers f
  | none, .fixed size => valueNumbers f ++ [size]
  | none, .dynamic => valueNumbers f

def fieldIsPrintable (f : FieldShape) : Bool := (fieldNumbers f).all Text.isShort

/-- The declaration of a field; with `verbose` its source stands behind it. -/
def fieldLine (verbose : Bool) (f : Field) : String :=
  let comment := if verbose && !f.source.isEmpty then s!"  # {Text.strip f.source}" else ""
  s!"self.{f.name} = {fieldValue f.toFieldShape}{comment}"

end Stimulus.Model
