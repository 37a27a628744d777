import Mathlib.Data.List.Nodup
import Mathlib.Logic.Relation
import Stimulus.Model.Program
import Stimulus.Proofs.Model.Writing
import Stimulus.Proofs.Run.Files

/-!
# Files written side by side

The work on a file reads the source, keeps what the check finds in the log, and writes the target.
The work on several files may be taken up in any order and left at any step: the files share nothing
but the log, and nobody reads the log.
-/

open List

namespace Stimulus.Model

open Run

/-- The file in which checks keep what they find. -/
def logFile : String := "sanity_check.log"

/-- How several files are written. -/
def side (jobs : Int) (named : Bool) (parse : Sanity.Parser) : Manner :=
  { settings := { metrics := false }, jobs, named, parse }

/-! ## The text of a model -/

/-- The text that a source comes to, where the log may be a directory. -/
def codeOf (parse : Sanity.Parser) (s : Store) (text : String) : Outcome String := do
  let d ← ofText { metrics := false } 1 text
  let r ← Sanity.reportOn parse d
  if r.log.isSome && s.hasDir logFile then throw (.isDirectory logFile)
  return d.code

theorem counting_of_write {settings : Settings} {jobs : Int} {src : Sv.Source} {d : Draft}
    (h : write settings jobs src = .ok d) :
    d.counting = (if settings.metrics then .counted (.of src.classes d.code) else .uncounted) ∧
      d.source = Text.join "\n\n" (src.classes.map (·.source)) := by
  obtain ⟨-, rfl⟩ := eq_draft_of_write h
  exact ⟨rfl, rfl⟩

theorem ofText_jobs (jobs : Int) (text : String) :
    (∃ e, ofText { metrics := false } jobs text = .error e ∧
      ofText { metrics := false } 1 text = .error e) ∨
    ∃ d d₁, ofText { metrics := false } jobs text = .ok d ∧
      ofText { metrics := false } 1 text = .ok d₁ ∧ d.code = d₁.code ∧
      ∀ parse, Sanity.reportOn parse d = Sanity.reportOn parse d₁ := by
  unfold ofText
  cases Sv.read text with
  | error e => exact .inl ⟨e, rfl, rfl⟩
  | ok src =>
    simp only [Outcome.ok_bind]
    split
    · exact .inr ⟨_, _, rfl, rfl, rfl, fun _ => rfl⟩
    cases hobstacle : obstacle? { metrics := false } src with
    | some e => exact .inl ⟨e, by rw [write, hobstacle], by rw [write, hobstacle]⟩
    | none =>
      obtain ⟨code, base, more, hdraft⟩ := exists_draft hobstacle
      obtain ⟨d, hd, hcode, -⟩ := hdraft jobs
      obtain ⟨d₁, hd₁, hcode₁, -⟩ := hdraft 1
      obtain ⟨hcounting, hsource⟩ := counting_of_write hd
      obtain ⟨hcounting₁, hsource₁⟩ := counting_of_write hd₁
      refine .inr ⟨d, d₁, hd, hd₁, hcode.trans hcode₁.symm, fun parse => ?_⟩
      unfold Sanity.reportOn Sanity.ofDraft
      rw [hcounting, hcounting₁, hcode, hcode₁, hsource, hsource₁]

theorem codeOf_eq (parse : Sanity.Parser) (s : Store) (jobs : Int) (text : String) :
    codeOf parse s text = ofText { metrics := false } jobs text >>= fun d =>
      Sanity.reportOn parse d >>= fun r =>
        if r.log.isSome && s.hasDir logFile then .error (.isDirectory logFile) else .ok d.code := by
  unfold codeOf
  obtain ⟨e, he, he₁⟩ | ⟨d, d₁, hd, hd₁, hcode, hcheck⟩ := ofText_jobs jobs text
  · rw [he, he₁]
    rfl
  · rw [hd, hd₁, Outcome.ok_bind, Outcome.ok_bind, hcode, hcheck]
    cases Sanity.reportOn parse d₁ with
    | error e => rfl
    | ok r =>
      simp only [Outcome.ok_bind]
      split <;> rfl

/-- What a file comes to, from the model that is made of it. -/
theorem read_codeOf (parse : Sanity.Parser) (s : Store) (jobs : Int) (path : String) :
    s.read path >>= codeOf parse s = s.read path >>= ofText { metrics := false } jobs >>= fun d =>
      Sanity.reportOn parse d >>= fun r =>
        if r.log.isSome && s.hasDir logFile then .error (.isDirectory logFile) else .ok d.code := by
  cases s.read path with
  | error e => rfl
  | ok text => rw [Outcome.ok_bind, Outcome.ok_bind, codeOf_eq parse s jobs]

/-! ## Tasks -/

/-- How far the work on a file has come. -/
inductive Stage where
  | waiting
  /-- The source is read and its model made. -/
  | drafted (d : Draft)
  /-- What the check found is kept. -/
  | checked (d : Draft)
  | ended (result : Outcome Draft)

/-- A file, its target and how far the work on it has come. -/
structure Task where
  path : String
  target : String
  stage : Stage := .waiting

/-- Goes on after a part of the work, or ends the work with its failure. -/
def Stage.after {α : Type} (r : Outcome α × Desk) (next : α → Stage) : Stage × Desk :=
  match r with
  | (.ok a, d) => (next a, d)
  | (.error e, d) => (.ended (.error e), d)

def Task.step (m : Manner) (t : Task) (d : Desk) : Stage × Desk :=
  match t.stage with
  | .waiting =>
    Stage.after ((do ofOutcome (ofText m.settings m.jobs (← readFile t.path)) : Run Draft).on d) .drafted
  | .drafted draft =>
    Stage.after ((do tell (← ofOutcome (Sanity.reportOn m.parse draft)) : Run Unit).on d)
      fun _ => .checked draft
  | .checked draft =>
    Stage.after ((do
      Run.writeFile t.target draft.code
      if m.named then sayLine s!"Output written to: {t.target}" : Run Unit).on d)
      fun _ => .ended (.ok draft)
  | .ended result => (.ended result, d)

/-- The work on one of several files takes a step. -/
inductive Step (m : Manner) : Desk × List Task → Desk × List Task → Prop
  | mk (d : Desk) (front : List Task) (t : Task) (back : List Task) :
    Step m (d, front ++ t :: back)
      ((t.step m d).2, front ++ { t with stage := (t.step m d).1 } :: back)

/-- Any number of steps. -/
abbrev Reach (m : Manner) : Desk × List Task → Desk × List Task → Prop :=
  Relation.ReflTransGen (Step m)

/-! ## The parts of the work -/

theorem place_logFile (s : Store) : s.place logFile =
    if s.hasDir logFile then .ok (.dir logFile)
    else if (s.get? logFile).isSome then .ok (.file logFile) else .ok (.free logFile) := by
  have hempty : logFile.isEmpty = false := by decide
  have habsolute : Path.isAbsolute logFile = false := by decide
  have hsplit : Text.splitOn "/" logFile = [logFile] := by
    simp [logFile, Text.splitOn, Text.splitAux, Text.dropStart?]
  have hdot : logFile ≠ "." := by decide
  have hup : logFile ≠ ".." := by decide
  have hjoin : Text.join "/" [logFile] = logFile := by decide
  simp [Store.place, Store.follow, hempty, habsolute, hsplit, hdot, hup, hjoin]

theorem append_logFile (s : Store) (entry : String) : s.append logFile entry =
    if s.hasDir logFile then .error (.isDirectory logFile)
    else .ok (s.put logFile ((s.get? logFile).getD "" ++ entry)) := by
  rw [Store.append, place_logFile]
  split
  · rfl
  · split <;> rfl

theorem on_tell (r : Sanity.Report) (d : Desk) : (tell r).on d =
    if r.log.isSome && d.store.hasDir logFile then (.error (.isDirectory logFile), d)
    else (.ok (), { d with
      store := match r.log with
        | some entry => d.store.put logFile ((d.store.get? logFile).getD "" ++ entry)
        | none => d.store
      out := d.out ++ r.printed }) := by
  unfold tell
  cases r.log with
  | none => rfl
  | some entry =>
    simp only [on_bind, appendFile, on_change, Option.isSome_some, Bool.true_and]
    rw [show d.store.append "sanity_check.log" entry = _ from append_logFile d.store entry]
    cases d.store.hasDir logFile <;> rfl

theorem on_check (parse : Sanity.Parser) (draft : Draft) (d : Desk) :
    (do tell (← ofOutcome (Sanity.reportOn parse draft)) : Run Unit).on d =
      match Sanity.reportOn parse draft with
      | .error e => (.error e, d)
      | .ok r => (tell r).on d := by
  rw [on_bind, on_ofOutcome]
  cases Sanity.reportOn parse draft <;> rfl

/-- The text that the work on a file has given its target. -/
def Stage.text? : Stage → Option String
  | .ended (.ok d) => some d.code
  | _ => none

/-- How far the work on a file has come agrees with what the file comes to in `s`. -/
def Stage.Follows (jobs : Int) (parse : Sanity.Parser) (s : Store) (path : String) : Stage → Prop
  | .waiting => True
  | .drafted d => s.read path >>= ofText { metrics := false } jobs = .ok d
  | .checked d => s.read path >>= codeOf parse s = .ok d.code
  | .ended result => s.read path >>= codeOf parse s = result.map Draft.code

theorem on_draft (settings : Settings) (jobs : Int) (path : String) (d : Desk) :
    (do ofOutcome (ofText settings jobs (← readFile path)) : Run Draft).on d =
      (d.store.read path >>= ofText settings jobs, d) := by
  rw [on_bind, on_readFile]
  cases d.store.read path with
  | error e => rfl
  | ok text => simp only [Outcome.ok_bind, on_ofOutcome]

section Step

variable {s : Store} {jobs : Int} {named : Bool} {parse : Sanity.Parser} {t : Task} {d e : Desk}
  {stage : Stage} {key : String}

theorem Task.step_cases (hstep : t.step (side jobs named parse) d = (stage, e))
    (hkey : d.store.key? t.target = some key) (hread : d.store.read t.path = s.read t.path)
    (hlog : d.store.hasDir logFile = s.hasDir logFile) (h : t.stage.Follows jobs parse s t.path) :
    stage.Follows jobs parse s t.path ∧ e.err = d.err ∧
    ((stage.text? = t.stage.text? ∧
        (e.store = d.store ∨ ∃ text, e.store = d.store.put logFile text)) ∨
      ∃ text, stage.text? = some text ∧ e.store = d.store.put key text) := by
  obtain ⟨path, target, old⟩ := t
  cases old with
  | waiting =>
    simp only [Task.step, side, on_draft, hread] at hstep
    cases hdraft : s.read path >>= ofText { metrics := false } jobs with
    | ok draft =>
      rw [hdraft] at hstep
      obtain ⟨rfl, rfl⟩ := Prod.mk.inj hstep
      exact ⟨hdraft, rfl, .inl ⟨rfl, .inl rfl⟩⟩
    | error f =>
      rw [hdraft] at hstep
      obtain ⟨rfl, rfl⟩ := Prod.mk.inj hstep
      refine ⟨?_, rfl, .inl ⟨rfl, .inl rfl⟩⟩
      show s.read path >>= codeOf parse s = .error f
      rw [read_codeOf parse s jobs, hdraft, Outcome.error_bind]
  | drafted draft =>
    have hdraft : s.read path >>= ofText { metrics := false } jobs = .ok draft := h
    have hcode := read_codeOf parse s jobs path
    rw [hdraft, Outcome.ok_bind] at hcode
    simp only [Task.step, side, on_check] at hstep
    cases hreport : Sanity.reportOn parse draft with
    | error f =>
      rw [hreport] at hstep hcode
      obtain ⟨rfl, rfl⟩ := Prod.mk.inj hstep
      exact ⟨hcode, rfl, .inl ⟨rfl, .inl rfl⟩⟩
    | ok r =>
      rw [hreport] at hstep hcode
      simp only [on_tell, hlog] at hstep
      rw [Outcome.ok_bind] at hcode
      split at hcode
      · next hfails =>
        rw [if_pos hfails] at hstep
        obtain ⟨rfl, rfl⟩ := Prod.mk.inj hstep
        exact ⟨hcode, rfl, .inl ⟨rfl, .inl rfl⟩⟩
      · next hpasses =>
        rw [if_neg hpasses] at hstep
        obtain ⟨rfl, rfl⟩ := Prod.mk.inj hstep
        refine ⟨hcode, rfl, .inl ⟨rfl, ?_⟩⟩
        cases r.log with
        | none => exact .inl rfl
        | some entry => exact .inr ⟨_, rfl⟩
  | checked draft =>
    simp only [Task.step, side, on_bind, on_writeFile, Store.write_of_key hkey] at hstep
    cases named with
    | false =>
      obtain ⟨rfl, rfl⟩ := Prod.mk.inj hstep
      exact ⟨h, rfl, .inr ⟨draft.code, rfl, rfl⟩⟩
    | true =>
      obtain ⟨rfl, rfl⟩ := Prod.mk.inj hstep
      exact ⟨h, rfl, .inr ⟨draft.code, rfl, rfl⟩⟩
  | ended result =>
    obtain ⟨rfl, rfl⟩ := Prod.mk.inj hstep
    exact ⟨h, rfl, .inl ⟨rfl, .inl rfl⟩⟩

end Step

/-! ## Any order of steps -/

/-- Every target can be written and is neither a file nor the target of another file, and the log is
none of the files. -/
structure Separate (s : Store) (files : List (String × String)) : Prop where
  isSome_target : ∀ f ∈ files, (s.key? f.2).isSome = true
  nodup : (files.map fun f => s.key? f.2).Nodup
  target_ne_file : ∀ f ∈ files, ∀ g ∈ files, s.key? f.2 ≠ s.key? g.1
  file_ne_log : ∀ f ∈ files, s.key? f.1 ≠ some logFile

/-- Files that are there and share nothing. -/
structure Apart (s : Store) (files : List (String × String)) : Prop extends Separate s files where
  isFile : ∀ f ∈ files, s.isFile f.1 = true
  target_ne_log : ∀ f ∈ files, s.key? f.2 ≠ some logFile

/-- What every step keeps: the targets hold what the work on them has written or what they held in
`s`, and no other file has changed but the log. -/
structure Kept (jobs : Int) (parse : Sanity.Parser) (s : Store) (err : String)
    (files : List (String × String)) (d : Desk) (tasks : List Task) : Prop where
  tasks_eq : tasks.map (fun t => (t.path, t.target)) = files
  key? : ∀ path, d.store.key? path = s.key? path
  hasDir : d.store.hasDir logFile = s.hasDir logFile
  err : d.err = err
  follows : ∀ t ∈ tasks, t.stage.Follows jobs parse s t.path
  target : ∀ t ∈ tasks, ∀ key, s.key? t.target = some key →
    d.store.get? key = t.stage.text?.or (s.get? key)
  other : ∀ key, key ≠ logFile → (∀ f ∈ files, s.key? f.2 ≠ some key) →
    d.store.get? key = s.get? key

section Reach

variable {s : Store} {files : List (String × String)} {jobs : Int} {named : Bool}
  {parse : Sanity.Parser} {err : String} {d e : Desk} {tasks rest : List Task}

theorem Apart.kept (h : Apart s files) (hstore : d.store = s) :
    Kept jobs parse s d.err files d (files.map fun f => { path := f.1, target := f.2 }) := by
  subst hstore
  refine ⟨?_, fun _ => rfl, rfl, rfl, ?_, ?_, fun _ _ _ => rfl⟩
  · rw [map_map]
    exact map_id files
  · rintro t ht
    obtain ⟨f, -, rfl⟩ := mem_map.1 ht
    trivial
  · rintro t ht key -
    obtain ⟨f, -, rfl⟩ := mem_map.1 ht
    rfl

theorem Kept.read_eq (hapart : Apart s files) (h : Kept jobs parse s err files d tasks) {t : Task}
    (ht : t ∈ tasks) : d.store.read t.path = s.read t.path := by
  have hfile : (t.path, t.target) ∈ files := h.tasks_eq ▸ mem_map_of_mem ht
  obtain ⟨key, hkey⟩ := Store.exists_key_of_isFile (hapart.isFile _ hfile)
  have hget := h.other key
    (fun hlog => hapart.file_ne_log _ hfile (hlog ▸ hkey))
    fun f hf htarget => hapart.target_ne_file f hf _ hfile (htarget.trans hkey.symm)
  rw [Store.read, Store.read, Store.readRaw_of_key hkey,
    Store.readRaw_of_key ((h.key? _).trans hkey), hget]

theorem Kept.step (hapart : Apart s files) (h : Kept jobs parse s err files d tasks)
    (hstep : Step (side jobs named parse) (d, tasks) (e, rest)) : Kept jobs parse s err files e rest := by
  generalize hp : (d, tasks) = p at hstep
  generalize hq : (e, rest) = q at hstep
  obtain ⟨d, front, t, back⟩ := hstep
  obtain ⟨rfl, rfl⟩ := Prod.mk.inj hp
  obtain ⟨rfl, rfl⟩ := Prod.mk.inj hq
  have ht : t ∈ front ++ t :: back := by simp
  have hfile : (t.path, t.target) ∈ files := h.tasks_eq ▸ mem_map_of_mem ht
  obtain ⟨key, hkey⟩ := Option.isSome_iff_exists.1 (hapart.isSome_target _ hfile)
  have hlog : key ≠ logFile := fun hlog => hapart.target_ne_log _ hfile (hlog ▸ hkey)
  obtain ⟨⟨stage, e⟩, hs⟩ : ∃ r, t.step (side jobs named parse) d = r := ⟨_, rfl⟩
  obtain ⟨hfollows, herr, hcases⟩ := Task.step_cases hs ((h.key? _).trans hkey)
    (h.read_eq hapart ht) h.hasDir (h.follows t ht)
  rw [hs]
  -- seen from outside, a step changes the text of its own target and that of the log
  obtain ⟨hplaces, hdir, hself, hothers⟩ : (∀ path, e.store.key? path = s.key? path) ∧
      e.store.hasDir logFile = s.hasDir logFile ∧
      e.store.get? key = stage.text?.or (s.get? key) ∧
      ∀ k, k ≠ key → k ≠ logFile → e.store.get? k = d.store.get? k := by
    have hold := h.target t ht key hkey
    obtain ⟨htext, hstore | ⟨text, hstore⟩⟩ | ⟨text, htext, hstore⟩ := hcases
    · rw [hstore, htext]
      exact ⟨h.key?, h.hasDir, hold, fun _ _ _ => rfl⟩
    · rw [hstore, htext]
      exact ⟨fun path => (Store.key?_put ..).trans (h.key? path), h.hasDir ▸ Store.hasDir_put ..,
        (Store.get?_put_of_ne hlog).trans hold, fun _ _ hk => Store.get?_put_of_ne hk⟩
    · rw [hstore, htext]
      exact ⟨fun path => (Store.key?_put ..).trans (h.key? path), h.hasDir ▸ Store.hasDir_put ..,
        Store.get?_put_self .., fun _ hk _ => Store.get?_put_of_ne hk⟩
  have hapartKeys : ∀ u ∈ front ++ back, s.key? u.target ≠ some key := by
    have hnodup := hapart.nodup
    rw [← h.tasks_eq, map_map, map_append, map_cons, nodup_middle,
      nodup_cons, ← map_append] at hnodup
    intro u hu hsame
    exact hnodup.1 (mem_map.2 ⟨u, hu, hsame.trans hkey.symm⟩)
  have hrest : ∀ u ∈ front ++ { t with stage } :: back, u = { t with stage } ∨ u ∈ front ++ back := by
    intro u hu
    simp only [mem_append, mem_cons] at hu ⊢
    tauto
  have hkeep : ∀ u ∈ front ++ back, u ∈ front ++ t :: back := by
    intro u hu
    simp only [mem_append, mem_cons] at hu ⊢
    tauto
  refine ⟨by simpa using h.tasks_eq, hplaces, hdir, herr.trans h.err, ?_, ?_, ?_⟩
  · intro u hu
    rcases hrest u hu with rfl | hu
    · exact hfollows
    · exact h.follows u (hkeep u hu)
  · intro u hu k hk
    rcases hrest u hu with rfl | hu
    · obtain rfl : key = k := Option.some.inj (hkey.symm.trans hk)
      exact hself
    · have hne : k ≠ key := fun hsame => hapartKeys u hu (hsame ▸ hk)
      have hfile' : (u.path, u.target) ∈ files := h.tasks_eq ▸ mem_map_of_mem (hkeep u hu)
      rw [hothers k hne fun hlog => hapart.target_ne_log _ hfile' (hlog ▸ hk)]
      exact h.target u (hkeep u hu) k hk
  · intro k hk hnone
    have hne : k ≠ key := fun hsame => hnone _ hfile (hsame ▸ hkey)
    rw [hothers k hne hk]
    exact h.other k hk hnone

theorem Kept.reach (hapart : Apart s files) (h : Kept jobs parse s err files d tasks)
    (hreach : Reach (side jobs named parse) (d, tasks) (e, rest)) : Kept jobs parse s err files e rest := by
  generalize hp : (d, tasks) = p at hreach
  generalize hq : (e, rest) = q at hreach
  induction hreach generalizing e rest with
  | refl =>
    obtain ⟨rfl, rfl⟩ := Prod.mk.inj (hp.trans hq.symm)
    exact h
  | tail _ hstep ih =>
    obtain rfl := hq
    exact (ih rfl).step hapart hstep

/-- What is said of a file if the work on it failed. -/
def complaint? {α : Type} (path : String) : Outcome α → Option String
  | .ok _ => none
  | .error e =>
    if e.message.isEmpty then none else some s!"Error during translation of {path}: {e.message}"

/-- What is said of a file at the end of the work on it. -/
def Task.complaint? (t : Task) : Option String :=
  match t.stage with
  | .ended result => Model.complaint? t.path result
  | _ => none

/-- Every target holds the model of its own source, or what it held in `s` if there is none, and no
other file has changed but the log. -/
structure Written (parse : Sanity.Parser) (s : Store) (files : List (String × String))
    (after : Store) : Prop where
  target : ∀ f ∈ files, ∀ key, s.key? f.2 = some key →
    after.get? key = match s.read f.1 >>= codeOf parse s with
      | .ok code => some code
      | .error _ => s.get? key
  other : ∀ key, key ≠ logFile → (∀ f ∈ files, s.key? f.2 ≠ some key) → after.get? key = s.get? key

theorem Kept.written (h : Kept jobs parse s err files d tasks)
    (hended : ∀ t ∈ tasks, ∃ result, t.stage = .ended result) : Written parse s files d.store := by
  refine ⟨fun f hf key hkey => ?_, h.other⟩
  rw [← h.tasks_eq] at hf
  obtain ⟨t, ht, rfl⟩ := mem_map.1 hf
  obtain ⟨result, hresult⟩ := hended t ht
  have hfollows := h.follows t ht
  rw [h.target t ht key hkey, hresult]
  rw [hresult] at hfollows
  have hcode : s.read t.path >>= codeOf parse s = result.map Draft.code := hfollows
  simp only [hcode]
  cases result <;> rfl

theorem Kept.complaints (h : Kept jobs parse s err files d tasks)
    (hended : ∀ t ∈ tasks, ∃ result, t.stage = .ended result) :
    tasks.filterMap Task.complaint? =
      files.filterMap fun f => complaint? f.1 (s.read f.1 >>= codeOf parse s) := by
  rw [← h.tasks_eq, filterMap_map]
  refine filterMap_congr fun t ht => ?_
  obtain ⟨result, hresult⟩ := hended t ht
  have hfollows := h.follows t ht
  rw [hresult] at hfollows
  have hcode : s.read t.path >>= codeOf parse s = result.map Draft.code := hfollows
  simp only [Task.complaint?, hresult, Function.comp, hcode]
  cases result <;> rfl

end Reach

/-! ## One file after the other -/

theorem on_writeModel {m : Manner} (hm : m.progress = false) (path target : String) (d : Desk) :
    (writeFile m path target).on d =
      match d.store.read path >>= ofText m.settings m.jobs with
      | .error e => (.error e, d)
      | .ok draft =>
        match (do tell (← ofOutcome (Sanity.reportOn m.parse draft)) : Run Unit).on d with
        | (.error e, d) => (.error e, d)
        | (.ok _, d) =>
          match (do
            Run.writeFile target draft.code
            if m.named then sayLine s!"Output written to: {target}" : Run Unit).on d with
          | (.error e, d) => (.error e, d)
          | (.ok _, d) => (.ok draft, d) := by
  unfold writeFile
  rw [on_bind, on_readFile]
  cases d.store.read path with
  | error e => rfl
  | ok text =>
    simp only [hm, Bool.false_eq_true, if_false, on_bind, on_ofOutcome, Outcome.ok_bind]
    cases ofText m.settings m.jobs text with
    | error e => rfl
    | ok draft =>
      simp only
      cases Sanity.reportOn m.parse draft with
      | error e => rfl
      | ok r =>
        simp only
        rcases (tell r).on d with ⟨_ | _, d⟩
        · rfl
        · simp only [on_writeFile]
          cases d.store.write target draft.code with
          | error e => rfl
          | ok store => cases m.named <;> rfl

section Serial

variable {m : Manner} (hm : m.progress = false)

include hm

theorem reach_writeFile (path target : String) (front back : List Task) (d : Desk) :
    Reach m (d, front ++ { path, target } :: back)
      (((writeFile m path target).on d).2,
        front ++ { path, target, stage := .ended ((writeFile m path target).on d).1 } :: back) := by
  have hfirst := Step.mk (m := m) d front { path, target } back
  rw [on_writeModel hm]
  simp only [Task.step, on_draft] at hfirst
  cases hdraft : d.store.read path >>= ofText m.settings m.jobs with
  | error e =>
    rw [hdraft] at hfirst
    exact .single hfirst
  | ok draft =>
    rw [hdraft] at hfirst
    refine .head hfirst ?_
    have hsecond := Step.mk (m := m) d front { path, target, stage := .drafted draft } back
    simp only [Task.step] at hsecond
    rcases htell : (do tell (← ofOutcome (Sanity.reportOn m.parse draft)) : Run Unit).on d
      with ⟨e | _, d'⟩
    · rw [htell] at hsecond
      simp only [htell]
      exact .single hsecond
    · rw [htell] at hsecond
      simp only [htell]
      refine .head hsecond ?_
      have hthird := Step.mk (m := m) d' front { path, target, stage := .checked draft } back
      simp only [Task.step] at hthird
      split
      · next hwrite =>
        rw [hwrite] at hthird
        exact .single hthird
      · next hwrite =>
        rw [hwrite] at hthird
        exact .single hthird

theorem exists_filterMapM {f : String × String → Run (Option String)}
    (hf : ∀ x d, (f x).on d =
      (.ok (complaint? x.1 ((writeFile m x.1 x.2).on d).1), ((writeFile m x.1 x.2).on d).2))
    (files : List (String × String)) (front : List Task) (d : Desk) :
    ∃ e tasks, (files.filterMapM f).on d = (.ok (tasks.filterMap Task.complaint?), e) ∧
      Reach m (d, front ++ files.map fun f => { path := f.1, target := f.2 }) (e, front ++ tasks) ∧
      ∀ t ∈ tasks, ∃ result, t.stage = .ended result := by
  induction files generalizing front d with
  | nil => exact ⟨d, [], rfl, .refl, by simp⟩
  | cons x files ih =>
    obtain ⟨path, target⟩ := x
    obtain ⟨result, d', hwrite⟩ : ∃ r d', (writeFile m path target).on d = (r, d') := ⟨_, _, rfl⟩
    have hfirst := hf (path, target) d
    have hreach := reach_writeFile hm path target front
      (files.map fun f => { path := f.1, target := f.2 }) d
    rw [hwrite] at hfirst hreach
    obtain ⟨e, tasks, hrest, hreach', hended⟩ :=
      ih (front ++ [{ path, target, stage := .ended result }]) d'
    refine ⟨e, { path, target, stage := .ended result } :: tasks, ?_, ?_, ?_⟩
    · rw [filterMapM_cons, on_bind, hfirst]
      rw [filterMap_cons]
      cases hsaid : complaint? path result with
      | none =>
        simp only [Task.complaint?, hsaid]
        exact hrest
      | some text =>
        simp only [Task.complaint?, hsaid, on_bind, on_pure, hrest]
    · rw [append_assoc, append_assoc] at hreach'
      exact hreach.trans hreach'
    · exact forall_mem_cons.2 ⟨⟨result, rfl⟩, hended⟩

end Serial

end Stimulus.Model
