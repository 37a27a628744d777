import Stimulus.Model.Program
import Stimulus.Override.Program
import Stimulus.Vector.Tables

/-!
# The program that draws test vectors

Reads a list of fields, randomises a model and writes the vectors with their statistics. Overrides
change the class source first, if it is there, and the model is written anew.
-/

namespace Stimulus.Run

def hold {α : Type} (t : Random.Trial α) (obj : Random.Object) :
    Run (Outcome α × Random.Object) := do
  let (result, stand) := t.on obj
  say stand.out
  return (result, stand.object)

end Stimulus.Run

namespace Stimulus.Vector

open Run Override

/-- The class that a module holds. -/
structure Library where
  className : String
  recipe : Random.Recipe

def Library.class? (lib : Library) (module className : String) : Outcome Random.Recipe :=
  if className = lib.className then .ok lib.recipe
  else .error (.noMember module className)

/-- Runs that finish in their order. -/
def inTurn (runs : Nat) : { order : List Nat // order.Perm (List.range runs) } :=
  ⟨List.range runs, List.Perm.refl _⟩

/-- The machine and the models that there are. -/
structure Setting where
  /-- What every module holds; without it no module can be loaded. -/
  library : Option Library := none
  solver : Bool := false
  overrides : Bool := true
  processors : Int := 4
  time : String
  /-- The order in which workers finish their runs. -/
  finished : (runs : Nat) → { order : List Nat // order.Perm (List.range runs) } := inTurn
  /-- What is asked whether the text of a model parses. -/
  parse : Sanity.Parser := Sanity.lenient

def command : Cli.Command where
  name := "generate_test_vectors.py"
  operands := [
    { key := "pyvsc_module", required := true },
    { key := "class_name", required := true },
    { key := "hw_field_file", required := true },
    { key := "num_runs", kind := .integer, required := true },
    { key := "output_dir" }]
  options := [
    { key := "seed", names := ["--seed"], effect := .value .integer },
    { key := "prefix", names := ["--prefix"], effect := .value .text },
    { key := "format", names := ["--format"], effect := .value (.oneOf ["txt", "csv", "both"]) },
    { key := "jobs", names := ["--jobs", "-j"], effect := .value .integer },
    { key := "overrides", names := ["--overrides", "--top-params"], effect := .value .text }]
  optionMarks := ["[--seed SEED]", "[--prefix PREFIX]", "[--format \x7btxt,csv,both\x7d]",
    "[--jobs JOBS]", "[--overrides CSV]"]
  operandMarks := ["pyvsc_module", "class_name", "hw_field_file", "num_runs", "[output_dir]"]
  description := [
    "",
    "Generate randomized test vectors using PyVSC constraint model",
    "",
    "positional arguments:",
    "  pyvsc_module          Python module name containing the PyVSC class (without",
    "                        .py)",
    "  class_name            Name of the @vsc.randobj class to instantiate",
    "  hw_field_file         Text file with field names and initial values",
    "  num_runs              Number of randomized configurations to generate",
    "  output_dir            Output directory for test vector files (default:",
    "                        ./test_vectors)",
    "",
    "options:",
    "  -h, --help            show this help message and exit",
    "  --seed SEED           Random seed for reproducibility",
    "  --prefix PREFIX       Prefix for output files (default: config)",
    "  --format \x7btxt,csv,both\x7d",
    "                        Output format (default: both)",
    "  --jobs JOBS, -j JOBS  Number of parallel workers (default: 1, use -1 for all",
    "                        cores)",
    "  --overrides CSV, --top-params CSV",
    "                        Parameter override CSV file for range overrides",
    "                        (exported by XML_to_sv_Converter or param_override.py)",
    "",
    "Examples:",
    "  generate_test_vectors.py example_sv_classes IspYuv2rgbCfg hw_field.txt 10",
    "  generate_test_vectors.py example_sv_classes IspYuv2rgbCfg hw_field.txt 100 ./output",
    "  generate_test_vectors.py my_constraints MyClass fields.txt 50 --seed 12345",
    "  generate_test_vectors.py example_sv_classes IspYuv2rgbCfg hw_field.txt 100 -j -1"
      ++ "  # all cores",
    "        "]

/-- What the program was asked to do. -/
structure Order where
  module : String
  className : String
  fieldFile : String
  runs : Int
  dir : String
  seed : Option Int
  stem : String
  files : Bool
  tables : Bool
  jobs : Int
  overrides : Option String

def Order.ofArguments (args : Cli.Arguments) : Order :=
  let format := (args.text? "format").getD "both"
  { module := (args.text? "pyvsc_module").getD ""
    className := (args.text? "class_name").getD ""
    fieldFile := (args.text? "hw_field_file").getD ""
    runs := (args.integer? "num_runs").getD 0
    dir := (args.text? "output_dir").getD "./test_vectors"
    seed := args.integer? "seed"
    stem := (args.text? "prefix").getD "config"
    files := format != "csv"
    tables := format != "txt"
    jobs := (args.integer? "jobs").getD (-1)
    overrides := given? args "overrides" }

def Order.lines (o : Order) : List String :=
  let rule := Text.rule '=' 50
  ["Test Vector Generator", rule, s!"PyVSC Module : {o.module}", s!"Class Name   : {o.className}",
      s!"Field File   : {o.fieldFile}", s!"Num Runs     : {o.runs}", s!"Output Dir   : {o.dir}"]
    ++ ((o.seed.filter (· != 0)).map fun n => s!"Random Seed  : {n}").toList
    ++ [s!"Jobs         : {o.jobs}"]
    ++ (o.overrides.map fun path => s!"Overrides    : {path}").toList ++ [rule]

/-! ## Overrides -/

def renewModel (parse : Sanity.Parser) (module : String) : Run Unit := do
  let source := Specs.modulePath module ".sv"
  let target := Specs.modulePath module ".py"
  let (result, out, err) ← apart (Model.program [source, "-o", target, "--no-progress"] parse)
  match ← ofOutcome result with
  | .code 0 => return ()
  | exit =>
    let detail := if (Text.strip err).isEmpty then Text.strip out else Text.strip err
    throw (.reported
      s!"SV->PyVSC translation failed for {source} (exit={exit.number}): {detail}")

/-- Gives the bounds of a table to the class source of a module and writes its model anew. -/
def applyOverrides (parse : Sanity.Parser) (t : Table) (module : String) : Run Unit := do
  let source := Specs.modulePath module ".sv"
  let (matched, updated) ← t.applyToSource source true
  sayLine (s!"  Applied overrides to SV source: {updated} updated "
    ++ s!"(matched {matched} range constraints) [{source}]")
  if updated > 0 then
    sayLine s!"  Backup written to: {source}.bak"
    renewModel parse module
    sayLine "  Regenerated PyVSC from updated SV."
  else sayLine "  No SV range changes detected; skipping translation."

def loadOverrides (parse : Sanity.Parser) (path module : String) : Run Table := do
  if !(← isThere path) then
    sayLine s!"Warning: Override CSV not found: {path}"
    return []
  let t ← Table.load path
  sayLines ["", s!"Loaded {t.length} parameter override(s)"]
  let source := Specs.modulePath module ".sv"
  if ← isThere source then
    match ← attempt (applyOverrides parse t module) with
    | .ok _ => pure ()
    | .error e => sayLine s!"Warning: Failed SV override/translation flow: {e.message}"
  else
    sayLine (s!"Warning: SV source not found ({source}). "
      ++ "Overrides will apply only at randomization time.")
  return t

def overrideLines (t : Table) (obj : Random.Object) : List String :=
  let listed := fun (title : String) (entries : Table) =>
    if entries.isEmpty then [] else [title ++ Text.join ", " (entries.map (·.name))]
  let present := t.filter fun e => obj.has e.name
  let active := present.filter Entry.isActive
  listed "  Applicable to model: " present
    ++ listed "  Not in model (ignored): " (t.filter fun e => !obj.has e.name)
    ++ listed "  Active overrides: " active
    ++ (active.map fun e => s!"    {e.name}: [{e.low},{e.high}] -> [{e.newLow},{e.newHigh}]")
    ++ t.summary true

/-! ## Vectors -/

/-- What has been drawn. -/
structure Batch where
  vectors : List Values := []
  overridden : List Values := []
  series : AllSeries
  solved : Nat := 0

def Batch.add (b : Batch) (fields : List Field) (counted : Values) (v : Vectors) (solved : Bool) :
    Batch :=
  { vectors := b.vectors ++ [v.listed]
    overridden := b.overridden ++ [v.overridden]
    series := fields.foldl (fun all f =>
      all.add f.name ((counted.lookup f.name).getD (.str ""))) b.series
    solved := if solved then b.solved + 1 else b.solved }

def isMilestone (done runs : Nat) : Bool := done % max 1 (runs / 10) == 0 || done == runs

def runNumber (run : Nat) : String :=
  let digits := toString run
  Text.rule '0' (4 - digits.length) ++ digits

def writeRun (o : Order) (time : String) (t : Table) (run : Nat) (listed overridden : Values) :
    Run Unit := do
  if o.files then
    let stem := s!"{o.stem}_{runNumber run}"
    writeFile (Path.joined o.dir s!"{stem}.txt") (vectorText listed)
    if !t.isEmpty && !overridden.isEmpty then
      writeFile (Path.joined o.dir s!"{stem}_overrides.txt") (overriddenText time run overridden)

def drawInTurn (s : Setting) (o : Order) (t : Table) (fields : List Field) (runs : Nat) :
    List Nat → Random.Object → Batch → Run Batch
  | [], _, b => return b
  | run :: rest, obj, b => do
    let (result, obj) ← hold (draw s.solver t fields run) obj
    let (drawn, v) ← ofOutcome result
    writeRun o s.time t run v.listed v.overridden
    if isMilestone (run + 1) runs then
      sayLine s!"  Generated {run + 1}/{runs} vectors (0.000s this iter)"
    drawInTurn s o t fields runs rest obj (b.add fields drawn v true)

/-- Draws the vectors of runs in the order in which the runs finish. -/
def drawAllApart (recipe : Random.Recipe) (bounds : List Bounds) (fields : List Field)
    (runs : Nat) : List Nat → Batch → Run Batch
  | [], b => return b
  | run :: rest, b => do
    let obj ← ofOutcome recipe.make
    let (result, _) ← hold (drawApart bounds fields run) obj
    let (failed, v) ← ofOutcome result
    let done := runs - rest.length
    if isMilestone done runs then sayLine s!"  Generated {done}/{runs} vectors"
    drawAllApart recipe bounds fields runs rest (b.add fields v.listed v (!failed))

/-- What runs have given, in the order of the runs. -/
def inPlace {α : Type} (order : List Nat) (given : List α) : List α :=
  (List.range order.length).filterMap fun run => (order.zip given).lookup run

def Batch.placed (b : Batch) (order : List Nat) : Batch :=
  { b with vectors := inPlace order b.vectors, overridden := inPlace order b.overridden }

def drawByWorkers (s : Setting) (o : Order) (recipe : Random.Recipe) (t : Table)
    (fields : List Field) (runs : Nat) (b : Batch) : Run Batch := do
  let bounds := (t.filter Entry.isActive).map fun e =>
    { name := e.name, low := e.newLow, high := e.newHigh : Bounds }
  let order := (s.finished runs).1
  let b := (← drawAllApart recipe bounds fields runs order b).placed order
  ((b.vectors.zip b.overridden).zipIdx).forM fun ((listed, overridden), run) =>
    writeRun o s.time t run listed overridden
  return b

def tryModel (s : Setting) (t : Table) (runs : Int) (jobs : Int) (obj : Random.Object) :
    Run Random.Object := do
  sayLines ["", "Validating PyVSC model (single randomize)..."]
  let (result, obj) ← hold (randomizeWith s.solver false t) obj
  let result := result.bind fun ok =>
    if ok then .ok () else .error (.reported "randomize_with_overrides returned False")
  match result with
  | .ok _ =>
    sayLine "  Validation OK (0.000s per randomize)"
    sayLine s!"  Estimated serial time for {runs} runs: 0.0s"
    if jobs > 1 then sayLine s!"  Using {jobs} parallel workers (est: 0.0s)"
  | .error e =>
    sayLine s!"  WARNING: Validation randomize failed: {e.message}"
    sayLine "  Proceeding anyway — some runs may fail."
  return obj

def workers (processors jobs runs : Int) : Int :=
  min (if jobs = -1 then processors else max 1 jobs) runs

/-! ## The end -/

def closingTable (observed : List (Field × Option Observed)) : List String :=
  let row := fun (name bits low high seenLow seenHigh : String) =>
    columns 30 name [(8, bits), (10, low), (10, high), (10, seenLow), (10, seenHigh)]
  let rule := Text.rule '=' 100
  let more := observed.length - 15
  ["", rule, "FIELD STATISTICS SUMMARY (Spec from PyVSC, Observed from randomization)", rule,
      row "Field Name" "RegBits" "SpecMin" "SpecMax" "ObsMin" "ObsMax", Text.rule '-' 100]
    ++ ((observed.take 15).map fun (f, o?) =>
      let cell := fun (get : Observed → Option Int) => orNone (o?.bind get)
      row f.name (cell Observed.specWidth) (cell Observed.specLow) (cell Observed.specHigh)
        (cell Observed.low) (cell Observed.high))
    ++ if more > 0 then [s!"  ... and {more} more fields (see field_statistics.csv)"] else []

def closingFiles (o : Order) (t : Table) : List String :=
  ["", "Output files:",
      s!"  - {o.stem}_NNNN.txt              : Config file per run (hw_field values)"]
    ++ (if t.isEmpty then []
      else [s!"  - {o.stem}_NNNN_overrides.txt   : Override parameter values per run"])
    ++ ["  - test_vectors_summary.csv     : Basic CSV with all vectors",
      "  - test_vectors_extended.csv    : CSV with statistics header",
      "  - field_statistics.csv         : Statistics per field",
      "  - field_statistics_report.txt  : Human-readable report"]

def finish (s : Setting) (o : Order) (t : Table) (fields : List Field) (b : Batch) : Run Unit := do
  b.series.forM fun series => discard (ofOutcome series.summary)
  if o.tables then writeTables s.time o.dir fields b.series b.vectors
  sayLines ["", "Generation complete!", s!"  Successful: {b.solved}/{o.runs}",
    "  Wall time : 0.00s", "  Solve time: 0.00s (avg 0.000s/run)", s!"  Output dir: {o.dir}"]
  sayLines (closingTable (← ofOutcome (observe b.series fields)))
  sayLines (closingFiles o t)

def emptySeries (specs : Specs) (fields : List Field) : AllSeries :=
  fields.foldl (fun all f => all.put { name := f.name, spec := specs.get? f.name }) []

/-- Draws the vectors of a model, in turn or by workers, after the model was tried once. -/
def drawBatch (s : Setting) (o : Order) (recipe : Random.Recipe) (t : Table) (specs : Specs)
    (fields : List Field) (obj : Random.Object) : Run Batch := do
  let jobs := workers s.processors o.jobs o.runs
  let obj ← tryModel s t o.runs jobs obj
  sayLines ["", s!"Generating {o.runs} test vectors (jobs={jobs})..."]
  let start : Batch := { series := emptySeries specs fields }
  let runs := o.runs.toNat
  if jobs > 1 then drawByWorkers s o recipe t fields runs start
  else drawInTurn s o t fields runs (List.range runs) obj start

def drawAll (s : Setting) (o : Order) (recipe : Random.Recipe) (t : Table) (specs : Specs)
    (fields : List Field) (obj : Random.Object) : Run Unit := do
  if !t.isEmpty then sayLines (overrideLines t obj)
  finish s o t fields (← drawBatch s o recipe t specs fields obj)

def findClass (s : Setting) (o : Order) : Except String Random.Recipe :=
  match s.library with
  | none =>
    let top := (Text.partition "." o.module).1
    .error s!"Error: Could not import module '{o.module}': No module named '{top}'"
  | some lib =>
    match lib.class? o.module o.className with
    | .ok recipe => .ok recipe
    | .error e =>
      .error (s!"Error: Class '{o.className}' not found in module '{o.module}': " ++ e.message)

def refuse (text : String) : Run Cli.Exit := do
  sayLine text
  return .code 1

def fulfil (s : Setting) (o : Order) : Run Cli.Exit := do
  if !(← isThere o.fieldFile) then
    return ← refuse s!"Error: Field file not found: {o.fieldFile}"
  if o.runs < 1 then return ← refuse "Error: Number of runs must be at least 1"
  if o.seed.isSome && !s.solver then sayLine "Warning: PyVSC not imported for seed setup"
  makeDirs o.dir
  sayLines o.lines
  let fields ← Field.loadList o.fieldFile
  sayLines ["", s!"Loaded {fields.length} fields from {o.fieldFile}"]
  let t ← match o.overrides with
    | none => pure []
    | some path =>
      if s.overrides then loadOverrides s.parse path o.module
      else do
        sayLine "Warning: param_override module not found — ignoring --overrides"
        pure []
  sayLines ["", "Parsing PyVSC source file for field specifications..."]
  let specs ← Specs.ofModule o.module
  sayLine s!"Loading PyVSC class '{o.className}' from '{o.module}'..."
  match findClass s o with
  | .error text => refuse text
  | .ok recipe =>
    match recipe.make with
    | .error e => refuse s!"Error: Could not instantiate class: {e.message}"
    | .ok obj =>
      sayLine "PyVSC object created successfully"
      drawAll s o recipe t specs fields obj
      return .ok

def program (s : Setting) (args : List String) : Run Cli.Exit :=
  command.run args fun args => fulfil s (.ofArguments args)

end Stimulus.Vector
