import Stimulus.Json.Literal
import Stimulus.Vector.Draw
import Stimulus.Vector.Series

/-!
# Files of test vectors
-/

namespace Stimulus.Vector

def vectorText (values : Values) : String :=
  Text.unlines (values.map fun (name, v) => s!"{name} {v.shown}")

def overriddenText (time : String) (run : Nat) (values : Values) : String :=
  Text.unlines [s!"# Override Parameter Values - Run {run}", s!"# Generated: {time}", "#"]
    ++ vectorText values

def orNone : Option Int → String
  | some n => toString n
  | none => "N/A"

/-- A field with its series and what that series has in common. -/
structure Observed where
  series : Series
  summary : Summary

namespace Observed

def specWidth (o : Observed) : Option Int := o.series.spec.map (·.width)

def specLow (o : Observed) : Option Int := o.series.spec.bind fun s => s.range.map (·.1)

def specHigh (o : Observed) : Option Int := o.series.spec.bind fun s => s.range.map (·.2)

def specSigned (o : Observed) : Bool := o.series.spec.any (·.signed)

def low (o : Observed) : Option Int := o.summary.range.map (·.1)

def high (o : Observed) : Option Int := o.summary.range.map (·.2)

end Observed

def observe (all : AllSeries) (fields : List Field) : Outcome (List (Field × Option Observed)) :=
  fields.mapM fun f => do
    match all.get? f.name with
    | none => return (f, none)
    | some series => return (f, some { series, summary := ← series.summary })

def vectorRows (fields : List Field) (vectors : List Values) : List String :=
  ("run_id," ++ Text.join "," (fields.map (·.name))) ::
    (vectors.zipIdx.map fun (values, run) =>
      let cells := fields.map fun f => ((values.lookup f.name).map Json.shown).getD ""
      s!"{run}," ++ Text.join "," cells)

def summaryTable (fields : List Field) (vectors : List Values) : String :=
  Text.unlines (vectorRows fields vectors)

def yesNo (b : Bool) : String := if b then "Yes" else "No"

def statisticsTable (observed : List (Field × Option Observed)) : String :=
  Text.unlines (("Field_Name,Reg_Bit_Width,Spec_Min,Spec_Max,Spec_Signed,Obs_Min,Obs_Max,"
      ++ "Obs_Bit_Width,Obs_Signed,Unique_Values,Total_Samples") ::
    observed.filterMap fun (f, o?) => o?.map fun o =>
      Text.join "," [f.name, orNone o.specWidth, orNone o.specLow, orNone o.specHigh,
        yesNo o.specSigned, orNone o.low, orNone o.high, toString o.summary.width,
        yesNo o.summary.signed, toString o.summary.unique, toString o.series.values.length])

def columns (width : Nat) (first : String) (rest : List (Nat × String)) : String :=
  Text.join " " (Text.padRight width first :: rest.map fun (w, s) => Text.padLeft w s)

def statisticsReport (time : String) (count : Nat) (observed : List (Field × Option Observed)) :
    String :=
  let rule := Text.rule '=' 140
  Text.unlines ([rule, "FIELD STATISTICS REPORT", s!"Generated: {time}",
      s!"Total Test Vectors: {count}", rule, "",
      columns 35 "Field Name" [(8, "RegBits"), (12, "SpecMin"), (12, "SpecMax"), (12, "ObsMin"),
        (12, "ObsMax"), (8, "ObsBits"), (8, "Unique")],
      Text.rule '-' 140]
    ++ (observed.filterMap fun (f, o?) => o?.map fun o =>
      columns 35 f.name [(8, orNone o.specWidth), (12, orNone o.specLow), (12, orNone o.specHigh),
        (12, orNone o.low), (12, orNone o.high), (8, toString o.summary.width),
        (8, toString o.summary.unique)])
    ++ ["", rule, "LEGEND:",
      "  RegBits   : Register bit width from PyVSC type declaration (e.g., rand_int32_t = 32 bits)",
      "  SpecMin   : Minimum value from PyVSC constraint (vsc.rangelist or vsc.rng)",
      "  SpecMax   : Maximum value from PyVSC constraint (vsc.rangelist or vsc.rng)",
      "  ObsMin    : Minimum value observed across all test vectors",
      "  ObsMax    : Maximum value observed across all test vectors",
      "  ObsBits   : Minimum bit width required to represent the observed range",
      "  Unique    : Number of unique values observed", rule])

def signWord (signed : Bool) : String := if signed then "signed" else "unsigned"

def extendedTable (observed : List (Field × Option Observed)) (vectors : List Values) : String :=
  let fields := observed.map (·.1)
  let row := fun (title : String) (cell : Observed → Option String) =>
    title ++ "," ++ Text.join "," (observed.map fun (_, o?) => (o?.bind cell).getD "N/A")
  let number := fun (n : Option Int) => n.map toString
  Text.unlines (["# FIELD SPECIFICATIONS (from PyVSC file)",
      "field_name," ++ Text.join "," (fields.map (·.name)),
      row "reg_bit_width" fun o => number (o.specWidth.filter (· != 0)),
      row "spec_min" fun o => number o.specLow,
      row "spec_max" fun o => number o.specHigh,
      row "spec_signedness" fun o => o.series.spec.map fun s => signWord s.signed,
      "#", "# OBSERVED STATISTICS (from randomization)",
      row "obs_min" fun o => number o.low,
      row "obs_max" fun o => number o.high,
      row "obs_bit_width" fun o => some (toString o.summary.width),
      row "obs_signedness" fun o => some (signWord o.summary.signed),
      row "obs_unique" fun o => some (toString o.summary.unique),
      "#", "# TEST VECTORS"]
    ++ vectorRows fields vectors)

/-! ## Writing them -/

open Run

def writeNamed (title dir name text : String) : Run Unit := do
  let path := Path.joined dir name
  writeFile path text
  sayLine s!"{title} written to: {path}"

def writeTables (time dir : String) (fields : List Field) (all : AllSeries)
    (vectors : List Values) : Run Unit := do
  writeNamed "Summary" dir "test_vectors_summary.csv" (summaryTable fields vectors)
  let observed ← ofOutcome (observe all fields)
  writeNamed "Statistics" dir "field_statistics.csv" (statisticsTable observed)
  writeNamed "Report" dir "field_statistics_report.txt"
    (statisticsReport time vectors.length observed)
  writeNamed "Extended summary" dir "test_vectors_extended.csv" (extendedTable observed vectors)

end Stimulus.Vector
