import Mathlib.Tactic.SplitIfs
import Stimulus.Console.Program
import Stimulus.Proofs.Run.Files
import Stimulus.Proofs.Vector.Batch

/-!
# Settings in a run

A step that converts registers or makes a model takes the name of the class from the source that it leaves,
and a conversion takes the table that it leaves, whatever the settings were before. All other steps keep
the settings.
-/

namespace Stimulus

/-! ## Programs that print and start commands -/

namespace Run

variable {α β : Type}

/-- A program that only prints. -/
def Prints (r : Run Unit) : Prop := ∀ d, ∃ out, r.on d = (.ok (), { d with out })

theorem prints_pure : Prints (pure ()) := fun d => ⟨d.out, rfl⟩

theorem Prints.bind {r s : Run Unit} (hr : Prints r) (hs : Prints s) : Prints (r >>= fun _ => s) := by
  intro d
  obtain ⟨out, hout⟩ := hr d
  obtain ⟨out', hout'⟩ := hs { d with out }
  exact ⟨out', by rw [on_bind, hout]; exact hout'⟩

theorem prints_forM {f : α → Run Unit} (h : ∀ x, Prints (f x)) (xs : List α) : Prints (xs.forM f) := by
  induction xs with
  | nil => exact prints_pure
  | cons x xs ih => exact (h x).bind ih

/-- A program that starts these commands, however it ends. -/
def Starts (r : Run α) (cs : List Command) : Prop := ∀ d, (r.on d).2.commands = d.commands ++ cs

theorem starts_pure (a : α) : Starts (pure a) [] := fun d => (List.append_nil d.commands).symm

theorem starts_start (c : Command) : Starts (start c) [c] := by
  have hset (e d : Desk) : (set e : Run Unit).on d = (.ok (), e) := rfl
  intro d
  unfold start
  simp only [on_bind, on_get, hset]
  cases (d.replies.headD {}).fault <;> rfl

theorem Starts.attempt {r : Run α} {cs : List Command} (h : Starts r cs) : Starts (attempt r) cs := by
  intro d
  rw [on_attempt]
  exact h d

/-- What comes after a program that started commands starts none. -/
theorem Starts.bind {r : Run α} {f : α → Run β} {cs : List Command} (hr : Starts r cs)
    (hf : ∀ a, Starts (f a) []) : Starts (r >>= f) cs := by
  intro d
  have hcommands := hr d
  rw [on_bind]
  cases hd : r.on d with
  | mk result e =>
    rw [hd] at hcommands
    cases result with
    | error _ => exact hcommands
    | ok a => exact ((hf a e).trans (List.append_nil _)).trans hcommands

theorem Prints.starts {r : Run Unit} (h : Prints r) : Starts r [] := by
  intro d
  obtain ⟨out, hout⟩ := h d
  rw [hout, List.append_nil]

theorem Prints.bind_starts {r : Run Unit} (hr : Prints r) {f : Unit → Run β} {cs : List Command}
    (hf : Starts (f ()) cs) : Starts (r >>= f) cs := by
  intro d
  obtain ⟨out, hout⟩ := hr d
  rw [on_bind, hout]
  exact hf { d with out }

theorem Prints.ite_starts {r : Run Unit} (hr : Prints r) {p : Prop} [Decidable p] {f : Unit → Run β}
    {cs : List Command} (hf : Starts (f ()) cs) : Starts (if p then r >>= f else f ()) cs := by
  split
  · exact hr.bind_starts hf
  · exact hf

end Run

namespace Console

open Pipeline Run

/-- The class that a source names on a desk. -/
def named? (d : Desk) (source : String) : Option String :=
  match d.store.read source with
  | .ok text => ((classIn? text).map modelName).filter (· != "")
  | .error _ => none

namespace Job

variable (j : Job)

/-- The table that a conversion leaves beside the source. -/
def table : String := Path.joined (Path.dirName j.input.source) (stem j.input.source ++ "_top_params.csv")

/-- The name of a class that a passed step takes from the source. -/
def foundClass? (d : Desk) : Step → Option Json
  | .convert | .model => (named? d j.input.source).map .str
  | .trial | .vectors => none

/-- The table that a passed step takes for the overrides. -/
def foundTable? (d : Desk) : Step → Option Json
  | .convert => if d.store.exists j.table then some (.str j.table) else none
  | .model | .trial | .vectors => none

/-- The job after a step that passed and left the desk `d`. -/
def settled (d : Desk) (s : Step) : Job :=
  { j with settings := { j.settings with
      className := (j.foundClass? d s).getD j.settings.className
      overrides := (j.foundTable? d s).getD j.settings.overrides } }

/-- A step that was performed: the job, its verdict and the desk that it left. -/
structure Performed where
  step : Step
  job : Job
  verdict : Verdict
  desk : Desk

/-- The steps that a run performs, up to the first that fails. -/
def trace (j : Job) (d : Desk) : List Step → List Performed
  | [] => []
  | s :: rest => match (j.perform s).on d with
    | (.ok (j', v), d') => ⟨s, j', v, d'⟩ :: if v = .failed then [] else j'.trace d' rest
    | (.error _, _) => []

/-! ## Parts of a step -/

theorem on_detectClass (d : Desk) : ∃ name?, j.detectClass.on d = (.ok name?, d) ∧
    name?.filter (· != "") = named? d j.input.source := by
  unfold detectClass named?
  simp only [on_bind, on_isThere]
  cases hread : d.store.read j.input.source with
  | ok text =>
    rw [Store.exists_of_read hread]
    exact ⟨_, by simp [on_bind, hread], rfl⟩
  | error f =>
    cases d.store.exists j.input.source with
    | false => exact ⟨none, rfl, rfl⟩
    | true => exact ⟨none, by simp [on_bind, hread], rfl⟩

theorem on_withDetectedClass (d : Desk) : j.withDetectedClass.on d =
    (.ok (j.settled d .model), d) := by
  obtain ⟨name?, hon, hnamed⟩ := j.on_detectClass d
  rw [withDetectedClass, on_bind, hon, settled, foundClass?, foundTable?, ← hnamed]
  dsimp only
  split
  · rfl
  · rfl
  · next name hne =>
    have : (name != "") = true := by simpa using hne
    simp [Option.filter, this]

theorem on_withTable (d : Desk) : ∃ e, (j.withTable j.table).on d =
    (.ok { j with settings := { j.settings with
      overrides := if d.store.exists j.table then .str j.table else j.settings.overrides } }, e) ∧
    e.store = d.store := by
  unfold withTable
  simp only [on_bind, on_isThere]
  cases d.store.exists j.table with
  | false => exact ⟨d, rfl, rfl⟩
  | true => exact ⟨_, rfl, rfl⟩

theorem settled_congr {d e : Desk} (h : d.store = e.store) (s : Step) : j.settled d s = j.settled e s := by
  cases s <;> simp only [settled, foundClass?, foundTable?, named?, h]

/-- A part of a step leaves the job as it was, or passes and settles it. -/
def Settles (s : Step) (r : Run (Job × Verdict)) : Prop :=
  ∀ d j' v d', r.on d = (.ok (j', v), d') → j' = if v = .passed then j.settled d' s else j

variable {j} {s : Step}

theorem Settles.bind {α : Type} {r : Run α} {f : α → Run (Job × Verdict)} (h : ∀ a, j.Settles s (f a)) :
    j.Settles s (r >>= f) := by
  intro d j' v d' hon
  obtain ⟨a, e, -, hf⟩ := on_bind_eq_ok.1 hon
  exact h a _ _ _ _ hf

theorem Settles.ite {p : Prop} [Decidable p] {r t : Run (Job × Verdict)} (hr : j.Settles s r)
    (ht : j.Settles s t) : j.Settles s (if p then r else t) := by
  split
  · exact hr
  · exact ht

theorem settles_fail (why : String) : j.Settles s (j.fail why) :=
  .bind fun _ _ _ _ _ h => by cases h; rfl

theorem settles_skip (tone : Tone) (why : String) : j.Settles s (j.skip tone why) :=
  .bind fun _ _ _ _ _ h => by cases h; rfl

/-- A command settles the job if the rest of its step does. -/
theorem settles_command {sub : Bool} {dir line : String} {after : Run Job}
    (hafter : ∀ {d k e}, after.on d = (.ok k, e) → k = j.settled e s) :
    j.Settles s (j.command s sub dir line after) := by
  refine .bind fun _ => .bind fun passed => ?_
  have hverdict (k : Job) : KeepsFiles (k.tellVerdict s passed) := by
    cases passed <;> exact fun _ => rfl
  intro d j' v d' h
  cases passed with
  | false =>
    obtain ⟨k, e, hk, h⟩ := on_bind_eq_ok.1 h
    obtain ⟨_, e', -, h⟩ := on_bind_eq_ok.1 h
    cases h
    cases hk
    rfl
  | true =>
    obtain ⟨k, e, hk, h⟩ := on_bind_eq_ok.1 h
    obtain ⟨_, e', htell, h⟩ := on_bind_eq_ok.1 h
    have hstore := hverdict k e
    rw [htell] at hstore
    cases h
    rw [hafter hk, settled_congr j hstore]
    rfl

/-- Every step settles the job. -/
theorem settles_perform : j.Settles s (j.perform s) := by
  cases s with
  | convert =>
    refine .ite (settles_skip _ _) (.bind fun _ => .ite (settles_fail _) (.bind fun _ =>
      .ite (settles_fail _) (settles_command fun h => ?_)))
    obtain ⟨_, d₁, -, h⟩ := on_bind_eq_ok.1 h
    obtain ⟨k, d₂, hk, h⟩ := on_bind_eq_ok.1 h
    obtain ⟨e, hon, hstore⟩ := j.on_withTable d₁
    cases hon.symm.trans hk
    rw [on_withDetectedClass] at h
    cases h
    simp only [settled, foundClass?, foundTable?, hstore]
    cases d₁.store.exists j.table <;> rfl
  | model =>
    refine .bind fun _ => .ite (settles_fail _) (settles_command fun h => ?_)
    obtain ⟨_, d₁, -, h⟩ := on_bind_eq_ok.1 h
    rw [on_withDetectedClass] at h
    cases h
    rfl
  | trial => exact .bind fun _ => .ite (settles_fail _) (settles_command fun h => by cases h; rfl)
  | vectors =>
    exact .bind fun _ => .ite (settles_fail _) (.bind fun _ => .ite (settles_skip _ _) (.ite (settles_skip _ _)
      (.bind fun _ => .bind fun _ => settles_command fun h => by cases h; rfl)))

/-! ## Runs -/

/-- A run ends with the job of the last step that it performed. -/
theorem getLastD_trace {j j' : Job} {d d' : Desk} {steps : List Step} {verdicts : List (Step × Verdict)}
    (h : (j.performAll steps).on d = (.ok (j', verdicts), d')) :
    ((j.trace d steps).map (·.job)).getLastD j = j' := by
  induction steps generalizing j d verdicts with
  | nil =>
    cases h
    rfl
  | cons s rest ih =>
    obtain ⟨⟨k, v⟩, e, hk, h⟩ := on_bind_eq_ok.1 h
    rw [trace, hk]
    dsimp only at h ⊢
    split_ifs at h ⊢ with hv
    · obtain ⟨_, _, -, h⟩ := on_bind_eq_ok.1 h
      cases h
      rfl
    · obtain ⟨⟨k', vs⟩, e', hk', h⟩ := on_bind_eq_ok.1 h
      cases h
      rw [List.map_cons, List.getLastD_cons]
      exact ih hk'

/-- A setting that only passed steps change, to what they find, is kept in a run if and only if each passed
step that finds a value finds the setting itself. -/
theorem forall_trace_iff (get : Settings → Json) (found? : Desk → Step → Option Json) {j : Job} {d : Desk}
    {steps : List Step} (hsettled : ∀ (k : Job) d s, k.input = j.input →
      get (k.settled d s).settings = (found? d s).getD (get k.settings)) :
    (∀ p ∈ j.trace d steps, get p.job.settings = get j.settings) ↔
      ∀ p ∈ j.trace d steps, p.verdict = .passed → ∀ v ∈ found? p.desk p.step, v = get j.settings := by
  -- Up to the first step that finds another value, all jobs have the input and the setting of the first.
  generalize hg : get j.settings = value
  generalize hi : j.input = input at hsettled
  induction steps generalizing j d with
  | nil => simp [trace]
  | cons s rest ih =>
    rw [trace]
    rcases hon : (j.perform s).on d with ⟨_ | ⟨k, v⟩, e⟩
    · simp
    have hk : k = _ := settles_perform d k v e hon
    have hinput : k.input = input := by
      rw [hk, ← hi]
      split <;> rfl
    have hvalue : get k.settings = value ↔ (v = .passed → ∀ x ∈ found? e s, x = value) := by
      rw [hk]
      split
      · next hv =>
        rw [hsettled j e s hi, hg]
        cases found? e s <;> simp [hv]
      · next hv => simp [hg, hv]
    simp only [List.forall_mem_cons, hvalue]
    refine and_congr_right fun hfound => ?_
    split
    · simp
    · exact ih (hvalue.2 hfound) hinput

/-! ## Commands -/

section Command

variable (j : Job)

theorem prints_tell (tone : Tone) (text : String) : Prints (j.tell tone text) := fun _ => ⟨_, rfl⟩

theorem starts_runLine (subsystem : Bool) (dir line : String) : Starts (j.runLine subsystem dir line)
    [⟨.shell (if subsystem then Project.subsystemLine j.environment line else line), some dir, true⟩] := by
  unfold runLine
  cases subsystem
  all_goals
    refine Prints.ite_starts (j.prints_tell _ _) ((starts_start _).attempt.bind fun reply? => ?_)
    cases reply? with
    | error e => exact (j.prints_tell _ _).starts.bind fun _ => starts_pure _
    | ok reply => exact Prints.ite_starts (prints_forM (fun _ => j.prints_tell _ _) _) (starts_pure _)

theorem starts_command (s : Step) (subsystem : Bool) (dir line : String) :
    Starts (j.command s subsystem dir line (pure j))
      [⟨.shell (if subsystem then Project.subsystemLine j.environment line else line), some dir, true⟩] := by
  refine Prints.bind_starts ?_ ((j.starts_runLine subsystem dir line).bind fun passed => ?_)
  · exact (j.prints_tell _ _).bind ((j.prints_tell _ _).bind ((j.prints_tell _ _).bind (j.prints_tell _ _)))
  · have hverdict (k : Job) : Prints (k.tellVerdict s passed) := by
      cases passed <;> exact (k.prints_tell _ _).bind (k.prints_tell _ _)
    cases passed <;> exact (starts_pure j).bind fun k => (hverdict k).starts.bind fun _ => starts_pure _

/-- How the table of the overrides is handed on. -/
def tableWord : String :=
  if j.inSubsystem then Path.mounted (pathOf j.settings.overrides) else s!"\"{pathOf j.settings.overrides}\""

/-- The line names the class of the settings, and the table of the overrides if it is there. -/
structure Names (d : Desk) (line : String) : Prop where
  className : s!"{stem j.input.model} {j.settings.className.shown} ".toList <:+: line.toList
  overrides : d.store.exists (pathOf j.settings.overrides) = true →
    s!" --overrides {j.tableWord}".toList <:+: line.toList

theorem infix_of_eq {line : String} (front mid back : String) (h : line = front ++ mid ++ back) :
    mid.toList <:+: line.toList :=
  ⟨front.toList, back.toList, by rw [h, String.toList_append, String.toList_append]⟩

theorem infix_vectorLine {table line : String} (h : j.vectorLine table = .ok line) :
    s!"{stem j.input.model} {j.settings.className.shown} ".toList <:+: line.toList ∧
      table.toList <:+: line.toList := by
  obtain ⟨front, mid, hline⟩ : ∃ front mid,
      line = front ++ s!"{stem j.input.model} {j.settings.className.shown} " ++ (mid ++ table) := by
    unfold vectorLine at h
    cases hsub : j.inSubsystem with
    | false =>
      simp only [hsub, Bool.false_eq_true, if_false] at h
      refine ⟨runner ++ " \"" ++ Project.place "generate_test_vectors.py" ++ "\" ",
        s!"\"{pathOf j.settings.hwFields}\" {j.settings.vectors.shown} {j.settings.outputDir.shown} " ++
          s!"--seed {j.settings.seed.shown}", ?_⟩
      rw [← Except.ok.inj h]
      simp [← String.toList_inj, toString]
    | true =>
      simp only [hsub, if_true] at h
      obtain ⟨dir, -, h⟩ := Outcome.bind_eq_ok.1 h
      refine ⟨s!"cd {Path.mounted Project.output} && python " ++
          s!"{Path.mounted Project.root}/generate_test_vectors.py ",
        s!"{Path.mounted (pathOf j.settings.hwFields)} {j.settings.vectors.shown} {dir} " ++
          s!"--seed {j.settings.seed.shown}", ?_⟩
      rw [← Except.ok.inj h]
      simp [← String.toList_inj, toString]
  refine ⟨infix_of_eq _ _ _ hline, ?_⟩
  rw [hline, ← String.append_assoc, String.toList_append]
  exact (List.suffix_append _ _).isInfix

theorem infix_subsystemLine (s : Env.Settings) (line : String) :
    line.toList <:+: (Project.subsystemLine s line).toList := by
  refine infix_of_eq ("wsl -d " ++ (s.get? "WSL_DISTRO").getD "" ++ " -- bash -lc \"cd " ++
    (s.get? "WSL_PROJECT_PATH").getD "" ++ " && source " ++ (s.get? "WSL_VENV_PATH").getD "" ++
    "/bin/activate && ") line "\"" ?_
  simp [Project.subsystemLine, ← String.toList_inj, toString]

theorem on_tableArguments (d : Desk) : j.tableArguments.on d =
    (.ok (if d.store.exists (pathOf j.settings.overrides) then s!" --overrides {j.tableWord}" else ""), d) := by
  unfold tableArguments tableWord
  rw [on_bind, on_isThere]
  cases d.store.exists (pathOf j.settings.overrides) <;> cases j.inSubsystem <;> rfl

theorem starts_drawVectors (d : Desk) : (j.drawVectors.on d).2.commands = d.commands ∨
    ∃ line, j.Names d line ∧
      (j.drawVectors.on d).2.commands = d.commands ++ [⟨.shell line, some j.modelDir, true⟩] := by
  unfold drawVectors
  simp only [on_bind, on_isThere]
  cases d.store.exists j.input.model with
  | false => exact .inl rfl
  | true =>
    simp only [Bool.not_true, Bool.false_eq_true, if_false, on_bind, on_isThere]
    cases d.store.exists (pathOf j.settings.hwFields) with
    | false => exact .inl rfl
    | true =>
      simp only [Bool.not_true, Bool.false_eq_true, if_false]
      cases j.settings.className.isVoid with
      | true => exact .inl rfl
      | false =>
        simp only [Bool.false_eq_true, if_false, on_bind, on_tableArguments, on_ofOutcome]
        cases hline : j.vectorLine
            (if d.store.exists (pathOf j.settings.overrides) then s!" --overrides {j.tableWord}" else "") with
        | error f => exact .inl rfl
        | ok line =>
          obtain ⟨hclass, htable⟩ := j.infix_vectorLine hline
          refine .inr ⟨_, ?_, j.starts_command .vectors j.inSubsystem j.modelDir line d⟩
          have hfull : line.toList <:+: (if j.inSubsystem then
              Project.subsystemLine j.environment line else line).toList := by
            split
            · exact infix_subsystemLine j.environment line
            · exact List.infix_rfl
          exact ⟨hclass.trans hfull, fun hthere => by rw [if_pos hthere] at htable; exact htable.trans hfull⟩

/-- What is performed in a run is performed on some desk. -/
theorem exists_of_mem_trace {j : Job} {d : Desk} {steps : List Step} {p : Performed}
    (h : p ∈ j.trace d steps) :
    ∃ (k : Job) (d₀ : Desk), (k.perform p.step).on d₀ = (.ok (p.job, p.verdict), p.desk) := by
  induction steps generalizing j d with
  | nil => cases h
  | cons s rest ih =>
    rw [trace] at h
    rcases hon : (j.perform s).on d with ⟨_ | ⟨k, v⟩, e⟩
    · simp [hon] at h
    rw [hon] at h
    rcases List.mem_cons.1 h with rfl | h
    · exact ⟨j, d, hon⟩
    · split at h
      · cases h
      · exact ih h

/-- If the last step of a run starts a command, the line names the class and the table of the job. -/
theorem names_of_mem_trace {j : Job} {d : Desk} {steps : List Step} {p : Performed}
    (h : p ∈ j.trace d steps) (hstep : p.step = .vectors) : ∃ d₀,
      (p.job.perform .vectors).on d₀ = (.ok (p.job, p.verdict), p.desk) ∧
      (p.desk.commands = d₀.commands ∨ ∃ line, p.job.Names d₀ line ∧
        p.desk.commands = d₀.commands ++ [⟨.shell line, some p.job.modelDir, true⟩]) := by
  obtain ⟨k, d₀, hon⟩ := exists_of_mem_trace h
  rw [hstep] at hon
  have hjob : p.job = k := by
    rw [settles_perform d₀ p.job p.verdict p.desk hon]
    split <;> rfl
  rw [hjob] at hon ⊢
  have hdesk : (k.drawVectors.on d₀).2 = p.desk := congrArg Prod.snd hon
  exact ⟨d₀, hon, hdesk ▸ k.starts_drawVectors d₀⟩

end Command

end Job

/-! ## Arguments -/

theorem textOr_of_ne {args : Cli.Arguments} {key text : String} (h : args.text? key = some text)
    (hne : text ≠ "") (saved : Outcome Json) : textOr args key saved = .ok (.str text) := by
  simp only [textOr, h]

/-- Arguments that are not empty win over saved settings. -/
theorem Settings.of_arguments {args : Cli.Arguments} {saved : Json} {list : String} {t : Settings}
    (h : Settings.of args saved list = .ok t) :
    (∀ name ≠ "", args.text? "class_name" = some name → t.className = .str name) ∧
    ∀ path ≠ "", args.text? "overrides" = some path →
      t.overrides = .str (if Path.isAbsolute path then path else Path.absolute path) := by
  obtain ⟨_, -, h⟩ := Outcome.bind_eq_ok.1 h
  obtain ⟨_, -, h⟩ := Outcome.bind_eq_ok.1 h
  obtain ⟨className, hclass, h⟩ := Outcome.bind_eq_ok.1 h
  obtain ⟨_, -, h⟩ := Outcome.bind_eq_ok.1 h
  obtain ⟨_, -, h⟩ := Outcome.bind_eq_ok.1 h
  obtain ⟨_, -, h⟩ := Outcome.bind_eq_ok.1 h
  obtain ⟨_, -, h⟩ := Outcome.bind_eq_ok.1 h
  obtain ⟨overrides, hoverrides, h⟩ := Outcome.bind_eq_ok.1 h
  obtain ⟨_, -, h⟩ := Outcome.bind_eq_ok.1 h
  obtain ⟨_, -, h⟩ := Outcome.bind_eq_ok.1 h
  obtain ⟨whole, hwhole, h⟩ := Outcome.bind_eq_ok.1 h
  cases h
  refine ⟨fun name hne harg => ?_, fun path hne harg => ?_⟩
  · rw [textOr_of_ne harg hne] at hclass
    exact (Except.ok.inj hclass).symm
  · rw [textOr_of_ne harg hne] at hoverrides
    cases hoverrides
    simpa only [absolutePath, Except.ok.injEq, eq_comm] using hwhole

/-- A job starts with the settings that its arguments give; a class is only looked for if they name none. -/
theorem exists_of_jobOf {l : Look} {args : Cli.Arguments} {steps : List Step} {d d' : Desk} {j : Job}
    (h : (jobOf l args steps).on d = (.ok j, d')) : ∃ saved list t, Settings.of args saved list = .ok t ∧
      j.settings.overrides = t.overrides ∧ (t.className.isVoid = false → j.settings = t) := by
  obtain ⟨_, _, -, h⟩ := on_bind_eq_ok.1 h
  obtain ⟨_, _, -, h⟩ := on_bind_eq_ok.1 h
  split at h
  all_goals
    obtain ⟨saved, _, -, h⟩ := on_bind_eq_ok.1 h
    obtain ⟨_, _, -, h⟩ := on_bind_eq_ok.1 h
    obtain ⟨t, _, ht, h⟩ := on_bind_eq_ok.1 h
    obtain ⟨_, _, -, h⟩ := on_bind_eq_ok.1 h
    rw [on_ofOutcome] at ht
    refine ⟨saved, _, t, congrArg Prod.fst ht, ?_⟩
    dsimp only at h
    split at h
    · next hvoid =>
      rw [Job.on_withDetectedClass] at h
      cases h
      exact ⟨rfl, fun hfull => by simp [hvoid] at hfull⟩
    · cases h
      exact ⟨rfl, fun _ => rfl⟩

/-- In a run the name of the class is the argument's at every step if and only if no passed conversion or
translation leaves a source that names another class; and the overrides are the argument's if and only if
no passed conversion leaves another table. A command that draws vectors names the class and the table that
the job has at that step. -/
theorem arguments_win_iff {l : Look} {args : Cli.Arguments} {steps : List Step} {d d' : Desk} {j : Job}
    (h : (jobOf l args steps).on d = (.ok j, d')) (e : Desk) :
    (∀ name ≠ "", args.text? "class_name" = some name →
      j.settings.className = .str name ∧
      ((∀ p ∈ j.trace e steps, p.job.settings.className = .str name) ↔
        ∀ p ∈ j.trace e steps, p.verdict = .passed → p.step = .convert ∨ p.step = .model →
          ∀ found ∈ named? p.desk j.input.source, found = name)) ∧
    (∀ path ≠ "", args.text? "overrides" = some path → ∃ whole,
      whole = (if Path.isAbsolute path then path else Path.absolute path) ∧
      j.settings.overrides = .str whole ∧
      ((∀ p ∈ j.trace e steps, p.job.settings.overrides = .str whole) ↔
        ∀ p ∈ j.trace e steps, p.verdict = .passed → p.step = .convert →
          p.desk.store.exists j.table = true → j.table = whole)) ∧
    (∀ {j' verdicts e'}, (j.performAll steps).on e = (.ok (j', verdicts), e') →
      ((j.trace e steps).map (·.job)).getLastD j = j') ∧
    ∀ p ∈ j.trace e steps, p.step = .vectors → ∃ d₀,
      (p.job.perform .vectors).on d₀ = (.ok (p.job, p.verdict), p.desk) ∧
      (p.desk.commands = d₀.commands ∨ ∃ line, p.job.Names d₀ line ∧
        p.desk.commands = d₀.commands ++ [⟨.shell line, some p.job.modelDir, true⟩]) := by
  obtain ⟨saved, list, t, ht, hoverrides, hclass⟩ := exists_of_jobOf h
  obtain ⟨hname, hpath⟩ := Settings.of_arguments ht
  refine ⟨fun name hne harg => ?_, fun path hne harg => ⟨_, rfl, ?_⟩, Job.getLastD_trace,
    fun p hp => Job.names_of_mem_trace hp⟩
  · have hstart : j.settings.className = .str name := by
      rw [hclass (by simpa [hname name hne harg, Json.isVoid] using hne), hname name hne harg]
    refine ⟨hstart, ?_⟩
    rw [← hstart, Job.forall_trace_iff (·.className) j.foundClass? fun k d s hk => by
      cases s <;> simp only [Job.settled, Job.foundClass?, hk]]
    refine forall₃_congr fun p _ _ => ?_
    rw [hstart]
    cases p.step <;> simp [Job.foundClass?]
  · have hstart := hoverrides.trans (hpath path hne harg)
    refine ⟨hstart, ?_⟩
    have htable {k : Job} (hk : k.input = j.input) : k.table = j.table := by rw [Job.table, hk, Job.table]
    rw [← hstart, Job.forall_trace_iff (·.overrides) j.foundTable? fun k d s hk => by
      cases s <;> simp only [Job.settled, Job.foundTable?, htable hk]]
    refine forall₃_congr fun p _ _ => ?_
    rw [hstart]
    cases p.step <;> simp [Job.foundTable?]

/-- Arguments that name a class. -/
def wantedArguments : Cli.Arguments := [("input", .text "d.sv"), ("class_name", .text "Wanted")]

/-- A source that declares another class. -/
def foundDesk : Desk := { store := { files := [("d.sv", "class found;\nrand bit x;\nendclass\n")] } }

/-- The translation passes and the source still names the class `Found`. -/
def namesFound : Outcome Job × Desk → Bool
  | (.ok j, d') => match (j.perform .model).on d' with
    | (.ok (_, v), e) => decide (v = .passed ∧ named? e j.input.source = some "Found")
    | _ => false
  | _ => false

/-- The source still names the class after the translation of `foundDesk` passed. -/
theorem named?_foundDesk : ∃ j d' k e,
    (jobOf ⟨"", false⟩ wantedArguments [.model]).on foundDesk = (.ok j, d') ∧
    (j.perform .model).on d' = (.ok (k, .passed), e) ∧ named? e j.input.source = some "Found" := by
  have hrun : namesFound ((jobOf ⟨"", false⟩ wantedArguments [.model]).on foundDesk) = true := by
    decide +kernel
  rcases hj : (jobOf ⟨"", false⟩ wantedArguments [.model]).on foundDesk with ⟨_ | j, d'⟩
  · simp [hj, namesFound] at hrun
  rcases hk : (j.perform .model).on d' with ⟨_ | ⟨k, v⟩, e⟩
  · simp [hj, namesFound, hk] at hrun
  simp only [hj, namesFound, hk, decide_eq_true_eq] at hrun
  exact ⟨j, d', k, e, rfl, hrun.1 ▸ hk, hrun.2⟩

/-- The name of the argument does not last beyond the translation. -/
theorem arguments_win_found : ∃ j d',
    (jobOf ⟨"", false⟩ wantedArguments [.model]).on foundDesk = (.ok j, d') ∧
    j.settings.className = .str "Wanted" ∧
    ¬ ∀ p ∈ j.trace d' [.model], p.job.settings.className = .str "Wanted" := by
  obtain ⟨j, d', k, e, hj, hk, hfound⟩ := named?_foundDesk
  obtain ⟨hstart, hiff⟩ := (arguments_win_iff hj d').1 "Wanted" (by decide) rfl
  refine ⟨j, d', hj, hstart, fun hall => ?_⟩
  have hmem : ⟨.model, k, .passed, e⟩ ∈ j.trace d' [.model] := by simp [Job.trace, hk]
  exact absurd (hiff.1 hall _ hmem rfl (.inr rfl) "Found" hfound) (by decide)

end Console

end Stimulus
