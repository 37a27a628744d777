import Stimulus.Model.Basic

/-!
# The report of a run

What became of a source, in numbers and lists.
-/

namespace Stimulus.Model

def column (width n : Nat) : String := Text.padLeft width (toString n)

def heading (title : String) : List String :=
  ["", Text.rule '-' 80, title, Text.rule '-' 80]

def itemSection (title : String) (items : List String) : List String :=
  if items.isEmpty then [] else heading title ++ items.map ("   * " ++ ·)

def constructRow (name : String) (source model : Nat) : String :=
  s!"     {Text.padRight 20 name} {column 12 source} {column 18 model}"

/-- A row of the table of operators: the operator, the spaces after its name, and its counts. -/
def operatorRow (left right : String) (source model : Nat) : String :=
  s!"     {left}{column 4 source}  ->  {right}{column 4 model}"

def metricLines (m : Metrics) : List String :=
  let s := m.source
  let c := s.constructs
  let out := m.counts
  heading "CONVERSION METRICS" ++
  ["", "  Lines:",
    s!"     Source SV:     {column 6 s.lines}",
    s!"     Output Python: {column 6 m.lines}",
    "", "  Variables:",
    s!"     Detected in SV:     {column 6 s.names.length}",
    s!"     Present in Python:  {column 6 m.names.length}",
    "", "  Conditionals:",
    s!"     Detected (if/else if): {column 6 s.conditionals}",
    s!"     Converted (if_then/else_if): {column 6 (out.ifThen + out.elseIf)}",
    "", "  Logical Operators:",
    operatorRow "&& detected:  " "'and' converted: " s.ands out.ands,
    operatorRow "|| detected:  " "'or' converted:  " s.ors out.ors,
    operatorRow "!  detected:  " "'not' converted: " s.nots out.nots,
    operatorRow "Total:        " "Total:           " (s.ands + s.ors + s.nots)
      (out.ands + out.ors + out.nots),
    "", "  Constraint Constructs:",
    "     Construct             SV Detected   Python Generated",
    "     " ++ Text.join " " ([20, 12, 18].map (Text.rule '-')),
    constructRow "inside" c.inside out.rangelist,
    constructRow "implication (->)" c.implies out.implies,
    constructRow "dist" c.dist out.dist,
    constructRow "solve_order" c.solveOrder out.solveOrder,
    constructRow "foreach" c.foreach out.foreach,
    constructRow "unique" c.unique out.unique,
    constructRow "soft" c.soft out.soft,
    "", "  Special Conversions:",
    s!"     Bit slices detected:   {column 6 c.bitSlices}",
    s!"     Number formats (N'h):  {column 6 c.numberFormats}"]

def tallyLines (t : Tally) : List String :=
  heading "TRANSLATION STATISTICS" ++
  [s!"   * Classes: {t.classes}", s!"   * Fields: {t.fields}",
    s!"   * Constraints: {t.constraints}", s!"   * Enums: {t.enums}"]

def outputLines (out : ModelCounts) : List String :=
  heading "OUTPUT VALIDATION" ++
  [("if_then blocks:      ", out.ifThen), ("else_if blocks:      ", out.elseIf),
    ("else_then blocks:    ", out.elseThen), ("rangelist (inside):  ", out.rangelist),
    ("implies:             ", out.implies), ("dist:                ", out.dist),
    ("solve_order:         ", out.solveOrder), ("foreach:             ", out.foreach),
    ("unique:              ", out.unique), ("soft:                ", out.soft)].map
      fun (label, n) => s!"   * {label}{column 6 n}"

def reportHead : List String :=
  ["", Text.rule '=' 80, "SV TO PYVSC TRANSLATION REPORT", Text.rule '=' 80]

def reportStart : List String := reportHead ++ heading "CONVERSION METRICS"

def reportLines (m : Metrics) (j : Journal) : List String :=
  reportHead ++ metricLines m ++ tallyLines j.tally ++ itemSection "MAPPING NOTES" j.notes
    ++ itemSection "WARNINGS" j.warnings ++ itemSection "MANUAL REVIEW REQUIRED" j.review
    ++ outputLines m.counts ++ ["", Text.rule '=' 80]

def report (counting : Counting) (j : Journal) : Outcome (List String) :=
  match counting with
  | .unwritten => .error (.noAttribute "PyVSCGenerator" "metrics")
  | .uncounted => .error (.missingKey "sv_lines")
  | .counted m => .ok (reportLines m j)

end Stimulus.Model
