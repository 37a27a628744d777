import Stimulus.Proofs.Model.Task
import Stimulus.Proofs.Run.Files

/-!
# Several files in one run

The program on several files writes to each target the model of its own source, or nothing if there
is none, and reports the sources without a model. So does every other order of the work on them.
-/

open List

namespace Stimulus.Model

open Run

def outDir? (a : Cli.Arguments) : Option String :=
  let target := (a.text? "output").getD defaultTarget
  if target = defaultTarget then none else some (Path.tidy target)

def sources (a : Cli.Arguments) (s : Store) : List String :=
  inputs s ((a.text? "input").getD "example_sv_classes.sv")

/-- The files that the arguments stand for, each with its target. -/
def plan (a : Cli.Arguments) (s : Store) : List (String × String) := targets (outDir? a) (sources a s)

def readied? (a : Cli.Arguments) (s : Store) : Option Store :=
  match outDir? a with
  | none => some s
  | some dir => if (Path.suffix dir).isEmpty then (s.makeDirs dir).toOption else none

theorem extends_readied {a : Cli.Arguments} {s t : Store} (h : readied? a s = some t) : t.Extends s := by
  unfold readied? at h
  split at h
  · obtain rfl := Option.some.inj h
    exact ⟨fun _ => rfl, id⟩
  · split at h
    · exact Store.extends_makeDirs (Outcome.toOption_eq_some.1 h)
    · cases h

theorem suffix_targets {dir? : Option String} {files : List String} {f : String × String}
    (hf : f ∈ targets dir? files) : ".py".toList <:+ f.2.toList := by
  have hend : Path.IsEnd ".py".toList := ⟨by decide, by decide⟩
  obtain ⟨path, -, rfl⟩ := mem_map.1 hf
  have hname : ".py".toList <:+ (Path.stem path ++ ".py").toList := by
    rw [String.toList_append]
    exact suffix_append _ _
  cases dir? with
  | none =>
    simp only [Path.withSuffix]
    exact Path.suffix_child hend _ hname
  | some dir =>
    simp only
    exact Path.suffix_child hend dir hname

theorem apart_targets {s : Store} {dir? : Option String} {files : List String}
    (h : Separate s (targets dir? files)) (hfiles : ∀ f ∈ files, s.isFile f = true) :
    Apart s (targets dir? files) where
  toSeparate := h
  isFile f hf := by
    obtain ⟨path, hpath, rfl⟩ := mem_map.1 hf
    exact hfiles path hpath
  target_ne_log f hf hkey := by
    have hend : Path.IsEnd ".py".toList := ⟨by decide, by decide⟩
    have hlog := Store.suffix_key hend (suffix_targets hf) hkey
    revert hlog
    decide

/-- Tries to write the model of a file: what is said of it if that failed. -/
def tryFile (m : Manner) (f : String × String) : Run (Option String) := do
  match ← attempt (writeFile m f.1 f.2) with
  | .ok _ => return none
  | .error e =>
    return if e.message.isEmpty then none
      else some s!"Error during translation of {f.1}: {e.message}"

theorem on_tryFile (m : Manner) (f : String × String) (d : Desk) : (tryFile m f).on d =
    (.ok (complaint? f.1 ((writeFile m f.1 f.2).on d).1), ((writeFile m f.1 f.2).on d).2) := by
  rw [tryFile, on_bind, on_attempt]
  cases ((writeFile m f.1 f.2).on d).1 <;> rfl

theorem writeAll_eq (m : Manner) (files : List (String × String)) :
    writeAll m files = files.filterMapM (tryFile m) >>= fun failed => do
      failed.forM complain
      return if failed.isEmpty then .ok else .code 1 := rfl

/-- What is reported of files. -/
def complaints (parse : Sanity.Parser) (s : Store) (files : List (String × String)) : List String :=
  files.filterMap fun f => complaint? f.1 (s.read f.1 >>= codeOf parse s)

theorem on_writeAll {files : List (String × String)} {d : Desk} (h : Apart d.store files) (jobs : Int)
    (named : Bool) (parse : Sanity.Parser) : ∃ e, (writeAll (side jobs named parse) files).on d =
      (.ok (if (complaints parse d.store files).isEmpty then .ok else .code 1), e) ∧
      e.err = d.err ++ Text.unlines (complaints parse d.store files) ∧
      Written parse d.store files e.store := by
  obtain ⟨e, tasks, hrun, hreach, hended⟩ :=
    exists_filterMapM (m := side jobs named parse) rfl (on_tryFile _) files [] d
  have hkept := Kept.reach h (h.kept rfl) hreach
  have hcomplaints := hkept.complaints hended
  rw [nil_append] at hcomplaints
  rw [writeAll_eq, on_bind, hrun, hcomplaints]
  simp only [on_bind, on_complainAll, on_pure]
  exact ⟨_, rfl, congrArg (· ++ _) hkept.err, hkept.written hended⟩

/-- What is printed for errors before several files are written. -/
def progressNote (a : Cli.Arguments) : String :=
  if (a.flag? "progress").getD true then "Progress disabled: tqdm not installed\n" else ""

theorem on_writeSeveral {a : Cli.Arguments} {d : Desk} {s : Store} {target : String}
    (hreport : a.flag "report" = false) (htarget : (a.text? "output").getD defaultTarget = target)
    (hready : readied? a d.store = some s) (parse : Sanity.Parser) (files : List String) :
    ∃ jobs named, (writeSeveral parse a ((a.flag? "progress").getD true) target files).on d =
      (writeAll (side jobs named parse) (targets (outDir? a) files)).on
        { d with store := s, err := d.err ++ progressNote a } := by
  subst htarget
  refine ⟨((a.integer? "class_jobs").filter (0 < ·)).getD 1, !(a.flag? "progress").getD true, ?_⟩
  unfold writeSeveral progressNote
  unfold readied? at hready
  have hdir : (if (a.text? "output").getD defaultTarget = defaultTarget then none
      else some (Path.tidy ((a.text? "output").getD defaultTarget))) = outDir? a := rfl
  simp only [hdir, hreport, Bool.false_eq_true, if_false]
  cases hout : outDir? a with
  | none =>
    rw [hout] at hready
    obtain rfl := Option.some.inj hready
    cases (a.flag? "progress").getD true with
    | false => simp [side]
    | true =>
      simp only [if_true, noProgressBar, on_bind, on_complain]
      rw [String.append_assoc]
      rfl
  | some dir =>
    rw [hout] at hready
    obtain ⟨hsuffix, hmake⟩ : (Path.suffix dir).isEmpty = true ∧ d.store.makeDirs dir = .ok s := by
      simpa [Option.ite_none_right_eq_some, Outcome.toOption_eq_some] using hready
    simp only [hsuffix, Bool.not_true, Bool.false_eq_true, if_false, makeDirs, on_bind, on_change,
      hmake]
    cases (a.flag? "progress").getD true with
    | false => simp [side]
    | true =>
      simp only [if_true, noProgressBar, on_bind, on_complain]
      rw [String.append_assoc]
      rfl

theorem on_program {args : List String} {a : Cli.Arguments} {d : Desk} {s : Store}
    (hread : command.read args = .ok a) (hreport : a.flag "report" = false)
    (hready : readied? a d.store = some s) (htwo : 2 ≤ (sources a d.store).length)
    (hfiles : ∀ f ∈ sources a d.store, d.store.isFile f = true) (parse : Sanity.Parser) :
    ∃ jobs named, (program args parse).on d = (writeAll (side jobs named parse) (plan a d.store)).on
      { d with store := s, err := d.err ++ progressNote a } := by
  have hthere : (sources a d.store).find? (fun f => !d.store.exists f) = none := by
    rw [find?_eq_none]
    intro f hf
    simpa using Store.exists_of_isFile (hfiles f hf)
  have hregular : (sources a d.store).find? (fun f => !d.store.isFile f) = none := by
    rw [find?_eq_none]
    intro f hf
    simpa using hfiles f hf
  obtain ⟨jobs, named, hseveral⟩ := on_writeSeveral hreport rfl hready parse (sources a d.store)
  refine ⟨jobs, named, ?_⟩
  rw [plan, ← hseveral]
  unfold program Cli.Command.run
  rw [hread]
  unfold sources at hthere hregular htwo ⊢
  simp only [on_bind, on_look, hthere, hregular]
  generalize inputs d.store ((a.text? "input").getD "example_sv_classes.sv") = files at htwo ⊢
  match files, htwo with
  | f :: g :: files, _ => rfl

/-- The sources in a directory, if the directory lists them in order. -/
theorem sources_of_dir {a : Cli.Arguments} {s : Store} {input dir : String} {found : List String}
    (hinput : a.text? "input" = some input) (hpattern : Glob.isPattern input = false)
    (hpath : (Path.tidy input).isEmpty = false) (hplace : s.place (Path.tidy input) = .ok (.dir dir))
    (hfound : ((s.below dir).filter fun k => Text.endsWith ".sv" k).map (Path.child (Path.tidy input)) =
      found)
    (hsorted : found.Pairwise fun a b => Store.namesInOrder (Path.names a) (Path.names b) = true) :
    sources a s = found := by
  have hdir : s.isDir (Path.tidy input) = true := by rw [Store.isDir, hplace]
  unfold sources inputs
  simp only [hinput, Option.getD_some, hpattern, hdir, Bool.false_eq_true, if_false, if_true]
  rw [Store.endingIn, hpath]
  simp only [Bool.false_eq_true, if_false, hplace]
  rw [hfound]
  exact mergeSort_of_pairwise hsorted

/-- Finds a fault in every text. -/
def strict : Sanity.Parser := fun _ => .ok (some { line := 1, text := "" })

/-- A class, a source that cannot be read and an old target. -/
def sampleDesk : Desk where
  store := {
    files := [("d/a.sv", "class a;\nendclass\n"), ("d/b.sv", "typedef enum \x7bA=q\x7d x;\n"),
      ("out/b.py", "old")]
    dirs := ["d", "out"] }

theorem sources_sample : sources [("jobs", .integer 3), ("output", .text "out"), ("input", .text "d")]
    sampleDesk.store = ["d/a.sv", "d/b.sv"] :=
  @sources_of_dir _ _ "d" "d" _ rfl (by decide) (by decide +kernel) (by decide +kernel) (by decide +kernel)
    (by decide +kernel)

theorem obstacle?_verbose (verbose : Bool) (src : Sv.Source) :
    obstacle? { verbose, metrics := verbose } src =
      if Printable src then none else some (.badValue Text.tooManyDigits) :=
  obstacle?_of_counts (fun _ => by cases verbose <;> rfl) src

theorem ofText_counts {text : String} {src : Sv.Source} (hread : Sv.read text = .ok src) (verbose : Bool)
    (jobs : Int) (hprintable : src.classes ≠ [] → Printable src) :
    ∃ d, ofText { verbose, metrics := verbose } jobs text = .ok d ∧
      d.counting = (if src.classes.isEmpty then .unwritten
        else if verbose then .counted (.of src.classes d.code) else .uncounted) := by
  unfold ofText
  rw [hread, Outcome.ok_bind]
  by_cases hempty : src.classes.isEmpty = true
  · exact ⟨emptyDraft, by rw [if_pos hempty]; rfl, by rw [if_pos hempty]; rfl⟩
  · have hobstacle : obstacle? { verbose, metrics := verbose } src = none := by
      rw [obstacle?_verbose, if_pos (hprintable (by simpa using hempty))]
    refine ⟨_, by rw [if_neg hempty, write_of_none hobstacle], ?_⟩
    rw [if_neg hempty]
    rfl

theorem ofText_of_not_printable {text : String} {src : Sv.Source} (hread : Sv.read text = .ok src)
    (verbose : Bool) (jobs : Int) (hempty : src.classes ≠ []) (h : ¬ Printable src) :
    ofText { verbose, metrics := verbose } jobs text = .error (.badValue Text.tooManyDigits) := by
  unfold ofText
  rw [hread, Outcome.ok_bind, if_neg (by simpa using hempty), write, obstacle?_verbose, if_neg h]

theorem report_eq_ok {counting : Counting} {j : Journal} {lines : List String} :
    report counting j = .ok lines ↔ ∃ m, counting = .counted m ∧ lines = reportLines m j := by
  cases counting with
  | unwritten => simp [report]
  | uncounted => simp [report]
  | counted m => simp [report, eq_comm]

/-! ## The program on one file -/

def oneManner (a : Cli.Arguments) (parse : Sanity.Parser) : Manner where
  settings := { verbose := true, metrics := true }
  jobs := ((a.integer? "class_jobs").filter (0 < ·)).getD (((a.integer? "jobs").filter (0 < ·)).getD 1)
  progress := (a.flag? "progress").getD true
  parse

/-- Where the arguments have the model of the only file written. -/
def oneTarget (a : Cli.Arguments) : String := Path.tidy ((a.text? "output").getD defaultTarget)

theorem on_program_one {args : List String} {a : Cli.Arguments} {d : Desk} {path : String}
    (hread : command.read args = .ok a) (hreport : a.flag "report" = true)
    (hsources : sources a d.store = [path]) (hfile : d.store.isFile path = true)
    (parse : Sanity.Parser) :
    (program args parse).on d = (writeOne (oneManner a parse) path (oneTarget a)).on d := by
  unfold program Cli.Command.run
  rw [hread]
  unfold sources at hsources
  simp only [on_bind, on_look, hsources, find?_cons, Store.exists_of_isFile hfile, hfile,
    Bool.not_true, find?_nil, hreport]
  rfl

theorem on_writeOne {m : Manner} {path target : String} {d e : Desk} {draft : Draft}
    (hm : m.settings.verbose = true) (hwrite : (writeFile m path target).on d = (.ok draft, e)) :
    (writeOne m path target).on d = (.error (.noAttribute "PyVSCGenerator" "metrics"),
      { e with out := e.out ++ Text.unlines reportStart }) := by
  unfold writeOne
  rw [on_bind, on_attempt, hwrite]
  simp only [hm, if_true, on_bind, sayLines, on_say, on_ofOutcome, report]

/-- Every source that can be read has a model, unless it has classes and a number in it has too many
digits. There is a report on the model if and only if it was asked for and there are classes, and then
it is on the counts of these classes and of the text of the model. The program never gets to the report:
it writes the model of its only file and ends with a failure. -/
theorem report_iff (verbose : Bool) (jobs : Int) :
    (∀ (text : String) (src : Sv.Source), Sv.read text = .ok src →
      (src.classes ≠ [] → ¬ Printable src →
        ofText { verbose, metrics := verbose } jobs text = .error (.badValue Text.tooManyDigits)) ∧
      ((src.classes ≠ [] → Printable src) →
        ∃ d, ofText { verbose, metrics := verbose } jobs text = .ok d ∧
          ((∃ lines, report d.counting d.journal = .ok lines) ↔ verbose = true ∧ src.classes ≠ []) ∧
          ∀ lines, report d.counting d.journal = .ok lines →
            lines = reportLines (.of src.classes d.code) d.journal)) ∧
    ∀ (args : List String) (a : Cli.Arguments) (d e : Desk) (path : String) (draft : Draft)
      (parse : Sanity.Parser),
      command.read args = .ok a → a.flag "report" = true → sources a d.store = [path] →
      d.store.isFile path = true →
      (writeFile (oneManner a parse) path (oneTarget a)).on d = (.ok draft, e) →
      (program args parse).on d = (.error (.noAttribute "PyVSCGenerator" "metrics"),
        { e with out := e.out ++ Text.unlines reportStart }) := by
  refine ⟨fun text src hread => ⟨ofText_of_not_printable hread verbose jobs, fun hprintable => ?_⟩, ?_⟩
  · obtain ⟨d, hd, hcounting⟩ := ofText_counts hread verbose jobs hprintable
    refine ⟨d, hd, ?_, fun lines hlines => ?_⟩
    · simp only [report_eq_ok, hcounting]
      cases verbose <;> cases src.classes <;> simp
    · obtain ⟨m, hm, rfl⟩ := report_eq_ok.1 hlines
      rw [hcounting] at hm
      repeat' split at hm
      all_goals cases hm
      rfl
  · intro args a d e path draft parse hread hreport hsources hfile hwrite
    rw [on_program_one hread hreport hsources hfile]
    exact on_writeOne rfl hwrite

/-- A class has a report if one is asked for; on a file without classes the program fails after it has
written the target. -/
theorem report_iff_sample :
    let d : Desk := { store := { files := [("a.sv", "")] } }
    (∃ draft, ofText { verbose := true, metrics := true } 2 "class a;\nendclass\n" = .ok draft ∧
      ∃ lines, report draft.counting draft.journal = .ok lines) ∧
    ∃ e, (program ["a.sv", "-o", "a.py", "-r", "--no-progress"]).on d =
        (.error (.noAttribute "PyVSCGenerator" "metrics"), e) ∧
      e.store.get? "a.py" = some "# No classes found in input" := by
  refine ⟨?_, ?_⟩
  · have hread : (Sv.read "class a;\nendclass\n").map
        (fun src => (src.classes.length, decide (Printable src))) = .ok (1, true) := by decide +kernel
    obtain ⟨src, hsrc, hsrc'⟩ := Outcome.map_eq_ok.1 hread
    obtain ⟨hone, hprintable⟩ := Prod.mk.inj hsrc'
    obtain ⟨draft, hdraft, hiff, -⟩ := ((report_iff true 2).1 _ src hsrc).2 fun _ => of_decide_eq_true hprintable
    exact ⟨draft, hdraft, hiff.2 ⟨rfl, List.ne_nil_of_length_eq_add_one hone⟩⟩
  · let done : Desk := {
      store := { files := [("a.sv", ""), ("a.py", "# No classes found in input")] }
      out := "Output written to: a.py\n" }
    exact ⟨_, (report_iff true 1).2 _ [("progress", .flag false), ("report", .flag true),
      ("output", .text "a.py"), ("input", .text "a.sv")] _ done "a.sv" emptyDraft _ (by decide +kernel) (by decide +kernel) (by decide +kernel)
      (by decide +kernel) (by decide +kernel), by decide +kernel⟩

end Stimulus.Model
