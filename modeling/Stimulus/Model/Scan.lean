import Stimulus.Pattern.Match
import Stimulus.Text.Integer

/-!
# Reading a model's text

The fields of a model and their ranges, found again in its text.
-/

namespace Stimulus.Model.Scan

open Pattern

/-- A type of random fields. -/
structure FieldType where
  title : String
  signed : Bool
  width : Nat
deriving DecidableEq, Repr

/-- How the types are written: first those that give a width, which is kept under 1, and then those
that have one of their own. -/
def typePatterns : List (Pattern × FieldType) :=
  let plain := fun (name : String) => lit s!"vsc.rand_{name}_t()"
  let sized := fun (name : String) => lit s!"vsc.{name}_t(" ++ group 1 digits ++ lit ")"
  [(sized "rand_bit", ⟨"bit", false, 0⟩), (sized "randc_bit", ⟨"randc_bit", false, 0⟩),
    (plain "uint8", ⟨"uint8", false, 8⟩), (plain "uint16", ⟨"uint16", false, 16⟩),
    (plain "uint32", ⟨"uint32", false, 32⟩), (plain "uint64", ⟨"uint64", false, 64⟩),
    (plain "int8", ⟨"int8", true, 8⟩), (plain "int16", ⟨"int16", true, 16⟩),
    (plain "int32", ⟨"int32", true, 32⟩), (plain "int64", ⟨"int64", true, 64⟩),
    (lit "vsc.rand_enum_t(" ++ word ++ lit ")", ⟨"enum", false, 32⟩)]

def FieldType.of? (s : String) : Outcome (Option FieldType) :=
  match typePatterns.findSome? fun (p, type) => (p.search? s).map fun m => (m, type) with
  | none => .ok none
  | some (m, type) =>
    match m.group? 1 with
    | none => .ok (some type)
    | some width => do return some { type with width := (← Text.integer width).toNat }

def declaration : Pattern :=
  lit "self." ++ group 1 word ++ blanks ++ lit "=" ++ blanks
    ++ group 2 (lit "vsc." ++ word ++ opt (lit "_t") ++ lit "(" ++ run (· != ')') 0 true ++ lit ")")

def declarations (s : String) : Outcome (List (String × Option FieldType)) :=
  (declaration.findAll s).mapM fun m => do return (m.group 1, ← FieldType.of? (m.group 2))

def range : Pattern :=
  lit "self." ++ group 1 word ++ blanks1 ++ lit "in" ++ blanks1 ++ lit "vsc.rangelist(vsc.rng("
    ++ group 2 signedDigits ++ lit "," ++ blanks ++ group 3 signedDigits ++ lit "))"

def ranges (s : String) : Outcome (List (String × Int × Int)) :=
  (range.findAll s).mapM fun m => do
    return (m.group 1, ← Text.integer (m.group 2), ← Text.integer (m.group 3))

end Stimulus.Model.Scan
