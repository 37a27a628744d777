import Stimulus.Cli.Basic
import Stimulus.Vector.Tables

/-!
# The program that lists specifications

Reads the model of the sample classes and lists the first specifications in a table.
-/

namespace Stimulus.Vector

open Run

def listingRow (name type width signed low high : String) : String :=
  columns 35 name [] ++ " "
    ++ columns 10 type [(6, width), (8, signed), (10, low), (10, high)]

def Spec.row (s : Spec) : String :=
  listingRow s.name s.typeName (toString s.width) (if s.signed then "Yes" else "No")
    (orNone (s.range.map (·.1))) (orNone (s.range.map (·.2)))

def listed : Nat := 20

def Specs.table (specs : Specs) : List String :=
  let rule := Text.rule '-' 80
  ["", s!"Parsed {specs.length} field specifications:", rule,
      listingRow "Field Name" "Type" "Bits" "Signed" "Min" "Max", rule]
    ++ (specs.take listed).map Spec.row
    ++ if specs.length > listed then [s!"... and {specs.length - listed} more fields"] else []

def listSample : Run Cli.Exit := do
  sayLines ["Testing PyVSC file parsing...", Text.rule '=' 60]
  let specs ← Specs.list "example_sv_classes"
  sayLines specs.table
  return .ok

end Stimulus.Vector
