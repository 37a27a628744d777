import Stimulus.Model.Basic
import Stimulus.Model.Session
import Stimulus.Proofs.Stmt.Frame

/-!
# What writing depends on

Writing a part of a model reads nothing of the journal but the loops that are open, and leaves none
open. So its text is the same whatever was written before, and so is what it adds to the journal.
-/

open List

namespace Stimulus.Model

open Sv Stmt

/-- The journal `after` is `before` with the texts of `more`, in no given order where texts are noted
down once, and no loop is open. -/
structure Adds (before more after : Journal) : Prop where
  warnings : ∀ t, t ∈ after.warnings ↔ t ∈ before.warnings ∨ t ∈ more.warnings
  review : ∀ t, t ∈ after.review ↔ t ∈ before.review ∨ t ∈ more.review
  notes : after.notes = before.notes ++ more.notes
  loopVars : after.loopVars = []

theorem Adds.trans {j k l more more' : Journal} (h : Adds j more k) (h' : Adds k more' l) :
    Adds j (more.append more' false) l where
  warnings t := by rw [h'.warnings, h.warnings, Journal.append, mem_append, or_assoc]
  review t := by rw [h'.review, h.review, Journal.append, mem_append, or_assoc]
  notes := by rw [h'.notes, h.notes, Journal.append, append_assoc]
  loopVars := h'.loopVars

theorem Adds.refl {j : Journal} (h : j.loopVars = []) : Adds j {} j where
  warnings _ := by simp
  review _ := by simp
  notes := by simp
  loopVars := h

/-- Whatever the journal, without open loops the writing gives this result and adds these texts. -/
def Logs {α : Type} (w : Writing α) (a : α) (more : Journal) : Prop :=
  ∀ j, j.loopVars = [] → (w.run j).1 = a ∧ Adds j more (w.run j).2

/-- The writing depends on no journal without open loops. -/
def Steady {α : Type} (w : Writing α) : Prop := ∃ a more, Logs w a more

section Rules

variable {α β : Type} {w : Writing α} {f : α → Writing β} {a : α} {b : β} {more more' : Journal}

theorem logs_pure (a : α) : Logs (pure a) a {} := fun _ hj => ⟨rfl, .refl hj⟩

theorem Logs.bind (hw : Logs w a more) (hf : Logs (f a) b more') :
    Logs (w >>= f) b (more.append more' false) := by
  intro j hj
  obtain ⟨ha, hadds⟩ := hw j hj
  obtain ⟨hb, hadds'⟩ := hf (w.run j).2 hadds.loopVars
  have hrun : (w >>= f).run j = (f a).run (w.run j).2 := by rw [StateT.run_bind, ← ha]; rfl
  rw [hrun]
  exact ⟨hb, hadds.trans hadds'⟩

theorem steady_pure (a : α) : Steady (pure a) := ⟨a, _, logs_pure a⟩

theorem Steady.bind (hw : Steady w) (hf : ∀ a, Steady (f a)) : Steady (w >>= f) := by
  obtain ⟨a, more, hw⟩ := hw
  obtain ⟨b, more', hf⟩ := hf a
  exact ⟨b, _, hw.bind hf⟩

theorem Steady.map (hw : Steady w) (g : α → β) : Steady (do return g (← w)) :=
  hw.bind fun a => steady_pure (g a)

theorem steady_when {c : Prop} [Decidable c] {u : Writing PUnit} (hu : Steady u) (hw : Steady w) :
    Steady (if c then do u; w else w) := by
  split
  · exact hu.bind fun _ => hw
  · exact hw

theorem logs_modify {change : Journal → Journal}
    (h : ∀ j, j.loopVars = [] → Adds j more (change j)) : Logs (modify change) () more :=
  fun j hj => ⟨rfl, h j hj⟩

end Rules

/-! ## The journal -/

section Journal

variable (j : Journal)

theorem warn_eq (text : String) : j.warn text = { j with warnings := noted j.warnings text } := by
  unfold Journal.warn noted
  split <;> rfl

theorem warnAll_eq (texts : List String) :
    j.warnAll texts = { j with warnings := texts.foldl noted j.warnings } := by
  induction texts generalizing j with
  | nil => rfl
  | cons text texts ih =>
    have hcons : j.warnAll (text :: texts) = (j.warn text).warnAll texts := rfl
    rw [hcons, ih, warn_eq, foldl_cons]

theorem ask_eq (text : String) : j.ask text = { j with review := noted j.review text } := by
  unfold Journal.ask noted
  split <;> rfl

variable {j} (hj : j.loopVars = [])

include hj

theorem adds_warnAll (texts : List String) : Adds j { warnings := texts } (j.warnAll texts) := by
  rw [warnAll_eq]
  exact ⟨fun t => mem_foldl_noted, fun t => by simp, by simp, hj⟩

theorem adds_ask (text : String) : Adds j { review := [text] } (j.ask text) := by
  rw [ask_eq]
  exact ⟨fun t => by simp, fun t => by rw [mem_noted, mem_singleton], by simp, hj⟩

theorem adds_note (text : String) : Adds j { notes := [text] } (j.note text) :=
  ⟨fun t => by simp [Journal.note], fun t => by simp [Journal.note], rfl, hj⟩

theorem adds_tally (tally : Tally) : Adds j {} { j with tally } :=
  ⟨fun t => by simp, fun t => by simp, by simp, hj⟩

end Journal

/-! ## Parts of a model -/

theorem steady_warnAll (texts : List String) : Steady (modify (Journal.warnAll texts)) :=
  ⟨(), _, logs_modify fun _ hj => adds_warnAll hj texts⟩

theorem steady_ask (text : String) : Steady (modify (Journal.ask text)) :=
  ⟨(), _, logs_modify fun _ hj => adds_ask hj text⟩

theorem steady_note (text : String) : Steady (modify (Journal.note text)) :=
  ⟨(), _, logs_modify fun _ hj => adds_note hj text⟩

theorem steady_countFields (n : Nat) : Steady (modify (Journal.countFields n)) :=
  ⟨(), _, logs_modify fun _ hj => adds_tally hj _⟩

theorem steady_countConstraint : Steady (modify Journal.countConstraint) :=
  ⟨(), _, logs_modify fun _ hj => adds_tally hj _⟩

theorem logs_countClasses (n : Nat) : Logs (modify (Journal.countClasses n)) () {} :=
  logs_modify fun _ hj => adds_tally hj _

theorem steady_writeBody (scope : Expr.Scope) (body : String) : Steady (writeBody scope body) := by
  obtain ⟨lines, points, vars, hvars, hrun⟩ :=
    framed_convertBody body { scope with loopVars := [] }
  refine ⟨lines, { review := points }, fun j hj => ?_⟩
  obtain ⟨warnings, review, notes, tally, _⟩ := j
  obtain rfl := hj
  have hbody : (writeBody scope body).run ⟨warnings, review, notes, tally, []⟩ =
      (lines, ⟨warnings, points.foldl noted review, notes, tally, vars⟩) := by
    have hget : (writeBody scope body).run ⟨warnings, review, notes, tally, []⟩ =
        let r := (convertBody body).run ⟨{ scope with loopVars := [] }, review⟩
        (r.1, ⟨warnings, r.2.review, notes, tally, r.2.scope.loopVars⟩) := rfl
    rw [hget, hrun]
  rw [hbody]
  exact ⟨rfl, fun t => by simp, fun t => mem_foldl_noted, by simp, subset_nil.1 hvars⟩

section Class

variable (settings : Settings) (scope : Expr.Scope)

theorem steady_writeConstraint (name body : String) :
    Steady (writeConstraint settings scope name body) := by
  unfold writeConstraint
  refine (steady_writeBody scope body).bind fun lines => ?_
  exact steady_when (steady_warnAll _) (steady_when (steady_ask _) (steady_pure _))

theorem steady_writeConstraints : ∀ cs, Steady (writeConstraints settings scope cs)
  | [] => steady_pure []
  | c :: cs => (steady_writeConstraint settings scope c.name c.body).bind fun _ =>
    steady_countConstraint.bind fun _ => (steady_warnAll c.warnings).bind fun _ =>
      (steady_writeConstraints cs).map _

theorem steady_writeHook? (name : String) (body? : Option String) :
    Steady (writeHook? name body?) := by
  cases body? with
  | none => exact steady_pure []
  | some body =>
    unfold writeHook?
    dsimp only
    split
    · exact steady_pure []
    · exact ((steady_ask _).map _).map _

theorem steady_members (c : ClassDecl) (text : List String → List String → List String → String) :
    Steady (do
      modify (Journal.countFields c.fields.length)
      if !(c.constraints.filterMap fun k => rangeOnly? k.body).isEmpty then
        modify Journal.countConstraint
      let methods ← writeConstraints settings scope
        (c.constraints.filter fun k => (rangeOnly? k.body).isNone)
      let pre ← writeHook? "pre_randomize" c.preRandomize
      let post ← writeHook? "post_randomize" c.postRandomize
      return text methods pre post) := by
  refine (steady_countFields _).bind fun _ => steady_when steady_countConstraint ?_
  exact (steady_writeConstraints settings scope _).bind fun methods =>
    (steady_writeHook? _ _).bind fun pre => (steady_writeHook? _ _).map _

theorem steady_writeClass (c : ClassDecl) : Steady (writeClass settings scope c) := by
  unfold writeClass
  dsimp only
  split
  · exact (steady_note _).bind fun _ => steady_members settings scope c _
  · exact steady_members settings scope c _

theorem steady_writeChecked (c : ClassDecl) : Steady (writeChecked settings scope c) := by
  unfold writeChecked
  exact (steady_writeClass settings scope c).bind fun text =>
    steady_when (steady_warnAll _) (steady_pure text)

end Class

/-! ## Classes in turn and apart -/

section Classes

variable (settings : Settings) (scope : Expr.Scope)

theorem Adds.append {j more own : Journal} (hj : j.loopVars = []) (h : Adds {} more own)
    (counted : Bool) : Adds j more (j.append own counted) where
  warnings t := by simp [Journal.append, h.warnings]
  review t := by simp [Journal.append, h.review]
  notes := by simp [Journal.append, h.notes]
  loopVars := hj

theorem logs_writeInTurn : ∀ classes : List ClassDecl, ∃ more,
    Logs (writeInTurn settings scope classes)
      (classes.map fun c => ((writeChecked settings scope c).run {}).1) more ∧
    ∀ j, j.loopVars = [] → Adds j more (classes.foldl (fun j c =>
      j.append ((writeChecked settings scope c).run {}).2 settings.metrics) j)
  | [] => ⟨{}, logs_pure [], fun _ => .refl⟩
  | c :: rest => by
    obtain ⟨text, more, hc⟩ := steady_writeChecked settings scope c
    obtain ⟨more', hrest, hparts⟩ := logs_writeInTurn rest
    obtain ⟨htext, hadds⟩ := hc {} rfl
    have hmore : more.append (({} : Journal).append (more'.append {} false) false) false =
        more.append more' false := by simp [Journal.append]
    refine ⟨more.append more' false, ?_, fun j hj => ?_⟩
    · rw [map_cons, htext, ← hmore]
      exact hc.bind ((logs_countClasses 1).bind (hrest.bind (logs_pure _)))
    · have happend := hadds.append hj settings.metrics
      exact happend.trans (hparts _ happend.loopVars)

theorem logs_classes (classes : List ClassDecl) : ∃ texts more,
    Logs (writeInTurn settings scope classes) texts more ∧
      Logs (writeApart settings scope classes) texts more := by
  obtain ⟨more, hturn, hparts⟩ := logs_writeInTurn settings scope classes
  refine ⟨_, more, hturn, fun j hj => ⟨?_, ?_⟩⟩
  · exact map_map
  · have hrun : ((writeApart settings scope classes).run j).2 =
        ((classes.map fun c => (writeChecked settings scope c).run {}).foldl (fun j part =>
          j.append part.2 settings.metrics) j).countClasses classes.length := rfl
    obtain ⟨hwarnings, hreview, hnotes, hvars⟩ := hparts j hj
    rw [hrun, foldl_map]
    exact ⟨hwarnings, hreview, hnotes, hvars⟩

end Classes

/-! ## Models -/

theorem steady_writeEnums : ∀ es, Steady (writeEnums es)
  | [] => steady_pure []
  | _ :: es => by
    have hcount : Steady (modify Journal.countEnum) :=
      ⟨(), _, logs_modify fun _ hj => adds_tally hj _⟩
    exact ((steady_note _).map _).bind fun _ => hcount.bind fun _ => (steady_writeEnums es).map _

theorem adds_noteStubs (parents : List String) : ∃ more, ∀ j, j.loopVars = [] →
    Adds j more (parents.foldl (fun j p => noteStub p j) j) := by
  induction parents with
  | nil => exact ⟨{}, fun _ => .refl⟩
  | cons p parents ih =>
    obtain ⟨more, hparents⟩ := ih
    have hstub : ∀ j, j.loopVars = [] → Adds j _ (noteStub p j) := fun j hj =>
      (adds_ask hj _).trans (adds_note (adds_ask hj _).loopVars _)
    exact ⟨_, fun j hj => (hstub j hj).trans (hparents _ (hstub j hj).loopVars)⟩

theorem steady_writeStubs (parents : List String) : Steady (writeStubs parents) := by
  obtain ⟨more, hadds⟩ := adds_noteStubs (Text.sorted (Text.distinct parents))
  exact Steady.map ⟨(), more, logs_modify hadds⟩ _

theorem logs_writeParts (settings : Settings) (scope : Expr.Scope) (src : Source) : ∃ parts more,
    ∀ jobs, Logs (writeParts settings jobs scope src) parts more := by
  obtain ⟨enums, start, henums⟩ := steady_writeEnums (distinctEnums src.enums)
  obtain ⟨texts, more, hturn, hapart⟩ := logs_classes settings scope src.classes
  have hclasses : ∀ (stubs : List String) (jobs : Int), Logs
      (if jobs > 1 && src.classes.length > 1 then do
        return enums ++ stubs ++ (← writeApart settings scope src.classes)
      else do return enums ++ stubs ++ (← writeInTurn settings scope src.classes))
      (enums ++ stubs ++ texts) (more.append {} false) := by
    intro stubs jobs
    split
    · exact hapart.bind (logs_pure _)
    · exact hturn.bind (logs_pure _)
  unfold writeParts
  by_cases hparents : (undeclaredParents src.classes).isEmpty = true
  · refine ⟨enums ++ [] ++ texts, start.append (Journal.append {} (more.append {} false) false) false,
      fun jobs => henums.bind ?_⟩
    dsimp only
    rw [if_pos hparents]
    exact (logs_pure []).bind (hclasses [] jobs)
  · obtain ⟨stubs, added, hstubs⟩ := steady_writeStubs (undeclaredParents src.classes)
    refine ⟨enums ++ [stubs] ++ texts,
      start.append ((added.append {} false).append (more.append {} false) false) false,
      fun jobs => henums.bind ?_⟩
    dsimp only
    rw [if_neg hparents, ← bind_pure_comp]
    exact (hstubs.bind (logs_pure [stubs])).bind (hclasses [stubs] jobs)

theorem loopVars_addMembers (cls : String) (names : List String) (scope : Expr.Scope) (j : Journal) :
    (addMembers cls names scope j).2.loopVars = j.loopVars := by
  induction names generalizing scope j with
  | nil => rfl
  | cons name names ih =>
    rw [addMembers]
    split
    · exact ih _ _
    · split
      · exact ih _ _
      · rw [ih, warn_eq]

theorem loopVars_scopeOf (enums : List Enum) (j : Journal) :
    (scopeOf enums j).2.loopVars = j.loopVars := by
  unfold scopeOf
  generalize ({} : Expr.Scope) = scope
  induction enums generalizing scope j with
  | nil => rfl
  | cons e enums ih => rw [foldl_cons, ih, loopVars_addMembers]

theorem write_of_none {settings : Settings} {src : Source} (h : obstacle? settings src = none)
    (jobs : Int) : write settings jobs src = .ok (draft settings jobs src) := by
  rw [write, h]

theorem eq_draft_of_write {settings : Settings} {jobs : Int} {src : Source} {d : Draft}
    (h : write settings jobs src = .ok d) :
    obstacle? settings src = none ∧ d = draft settings jobs src := by
  unfold write at h
  split at h
  · cases h
  · next hnone => exact ⟨hnone, (Except.ok.inj h).symm⟩

/-- Whatever the number of jobs, a model has the same text, and the same is added to the journal. -/
theorem exists_draft {settings : Settings} {src : Source}
    (h : obstacle? settings src = none) : ∃ code base more, ∀ jobs,
      ∃ d, write settings jobs src = .ok d ∧ d.code = code ∧ Adds base more d.journal := by
  have hvars : (scopeOf src.enums {}).2.loopVars = [] := loopVars_scopeOf src.enums {}
  obtain ⟨⟨scope, base⟩, hscope⟩ : ∃ start, scopeOf src.enums {} = start := ⟨_, rfl⟩
  rw [hscope] at hvars
  obtain ⟨parts, more, hparts⟩ := logs_writeParts settings scope src
  obtain ⟨code, hcode⟩ : ∃ code, code = narrowed (Text.join "\n\n" (([headText, importText] ++
    parts ++ [usageText src.classes]).filter fun part => !part.isEmpty)) := ⟨_, rfl⟩
  refine ⟨code, base,
    more.append { warnings := if settings.metrics then leftovers code else [] } false, fun jobs => ?_⟩
  obtain ⟨⟨parts', journal⟩, hrun⟩ : ∃ r, (writeParts settings jobs scope src).run base = r :=
    ⟨_, rfl⟩
  obtain ⟨hresult, hadds⟩ := hparts jobs base hvars
  rw [hrun] at hresult hadds
  obtain rfl : parts' = parts := hresult
  refine ⟨_, write_of_none h jobs, ?_⟩
  unfold draft
  rw [hscope]
  dsimp only
  rw [hrun]
  dsimp only
  rw [← hcode]
  refine ⟨rfl, hadds.trans ?_⟩
  split
  · exact adds_warnAll hadds.loopVars _
  · exact .refl hadds.loopVars

/-- Every number that a model of the declarations shows can be printed. -/
def Printable (src : Source) : Prop :=
  (∀ e ∈ distinctEnums src.enums, enumIsPrintable e = true) ∧
    ∀ c ∈ src.classes, ∀ f ∈ c.fields, fieldIsPrintable f.toFieldShape = true

instance (src : Source) : Decidable (Printable src) := inferInstanceAs (Decidable (_ ∧ _))

theorem obstacle?_of_counts {settings : Settings} (h : ∀ c, lacksCounts settings c = false)
    (src : Source) : obstacle? settings src =
      if Printable src then none else some (.badValue Text.tooManyDigits) := by
  have hclasses (cs : List ClassDecl) : cs.findSome? (classObstacle? settings) =
      if cs.all fun c => c.fields.all fun f => fieldIsPrintable f.toFieldShape then none
      else some (.badValue Text.tooManyDigits) := by
    induction cs with
    | nil => rfl
    | cons c cs ih =>
      rw [List.findSome?_cons, List.all_cons, classObstacle?, h c]
      cases c.fields.all fun f => fieldIsPrintable f.toFieldShape with
      | false => rfl
      | true => exact ih
  simp only [obstacle?, hclasses, Printable, ← List.all_eq_true]
  cases (distinctEnums src.enums).all enumIsPrintable <;> simp

/-- The number of jobs changes neither the text nor the notes, and neither the warnings nor the points
to look at, apart from their order and from how often each is given. There is no model, whatever the
number of jobs, exactly if a number in an enumeration or a field has too many digits. -/
theorem write_agrees (metrics : Bool) (jobs : Int) (src : Source) :
    if Printable src then
      ∃ d e, write { verbose := false, metrics } jobs src = .ok d ∧
        write { verbose := false, metrics } 1 src = .ok e ∧
        d.code = e.code ∧ d.journal.notes = e.journal.notes ∧
        (∀ t, t ∈ d.journal.warnings ↔ t ∈ e.journal.warnings) ∧
        ∀ t, t ∈ d.journal.review ↔ t ∈ e.journal.review
    else write { verbose := false, metrics } jobs src = .error (.badValue Text.tooManyDigits) ∧
      write { verbose := false, metrics } 1 src = .error (.badValue Text.tooManyDigits) := by
  have hobstacle := @obstacle?_of_counts { verbose := false, metrics } (fun _ => rfl) src
  split
  · next hprintable =>
    rw [if_pos hprintable] at hobstacle
    obtain ⟨code, base, more, hdraft⟩ := exists_draft hobstacle
    obtain ⟨d, hd, hcode, hadds⟩ := hdraft jobs
    obtain ⟨e, he, hcode', hadds'⟩ := hdraft 1
    refine ⟨d, e, hd, he, hcode.trans hcode'.symm, hadds.notes.trans hadds'.notes.symm,
      fun t => ?_, fun t => ?_⟩
    · rw [hadds.warnings, hadds'.warnings]
    · rw [hadds.review, hadds'.review]
  · next hlong =>
    rw [if_neg hlong] at hobstacle
    simp only [write, hobstacle, and_self]

/-!
## Sessions keep nothing

What a session keeps of earlier sources is read by no later one: the only part of it that writing
reads is the loops that are open, and after every source none are.
-/

/-- The outcomes of sources read one after the other with some numbers of jobs, each with the session
after it. -/
def Session.trace (s : Session) : List (Int × String) → List (Outcome Draft × Session)
  | [] => []
  | (jobs, text) :: rest => s.step jobs text :: (s.step jobs text).2.trace rest

theorem loopVars_of_write {settings : Settings} {jobs : Int} {src : Source} {d : Draft}
    (h : write settings jobs src = .ok d) : d.journal.loopVars = [] := by
  obtain ⟨code, base, more, hdraft⟩ := exists_draft (eq_draft_of_write h).1
  obtain ⟨e, he, -, hadds⟩ := hdraft jobs
  obtain rfl : e = d := Except.ok.inj (he.symm.trans h)
  exact hadds.loopVars

section Step

variable {s t : Session} (jobs : Int) (text : String)

theorem settings_step : (s.step jobs text).2.settings = s.settings := by
  unfold Session.step
  dsimp only
  repeat' split
  all_goals rfl

theorem loopVars_step (h : s.loopVars = []) : (s.step jobs text).2.loopVars = [] := by
  unfold Session.step
  dsimp only
  split
  · exact h
  split
  · exact h
  split
  · exact h
  split
  · exact h
  · next hwrite =>
    rw [h] at hwrite
    exact loopVars_of_write hwrite

theorem step_eq_ofText (h : s.loopVars = []) :
    (s.step jobs text).1 = ofText s.settings jobs text := by
  unfold Session.step ofText Sv.read
  rw [h]
  dsimp only
  cases readEnums (dropComments text) with
  | error e => rfl
  | ok enums =>
    cases readClasses (dropComments text) with
    | error e => rfl
    | ok classes =>
      show (if classes.isEmpty then _ else _ : Outcome Draft × Session).1 =
        if classes.isEmpty then _ else _
      split
      · rfl
      · split
        · next hwrite => exact hwrite.symm
        · next hwrite => exact hwrite.symm

end Step

/-- In a session every source has the outcome that it has in a new session, and leaves no loop
open. -/
theorem trace_outcomes (settings : Settings) (calls : List (Int × String)) :
    (Session.trace { settings } calls).map Prod.fst =
        calls.map (fun (jobs, text) => (Session.step { settings } jobs text).1) ∧
      ∀ r ∈ Session.trace { settings } calls, r.2.loopVars = [] := by
  -- what is kept of earlier sources is arbitrary, as long as no loop is open
  suffices ∀ s : Session, s.settings = settings → s.loopVars = [] →
      (s.trace calls).map Prod.fst = calls.map (fun (jobs, text) => ofText settings jobs text) ∧
        ∀ r ∈ s.trace calls, r.2.loopVars = [] by
    obtain ⟨houtcomes, hvars⟩ := this { settings } rfl rfl
    refine ⟨houtcomes.trans (List.map_congr_left fun (jobs, text) _ => ?_), hvars⟩
    exact (step_eq_ofText (s := { settings }) jobs text rfl).symm
  induction calls with
  | nil => exact fun s _ _ => ⟨rfl, by simp [Session.trace]⟩
  | cons call calls ih =>
    intro s hsettings hvars
    obtain ⟨jobs, text⟩ := call
    have hnext := loopVars_step jobs text hvars
    obtain ⟨houtcomes, hrest⟩ := ih _ ((settings_step jobs text).trans hsettings) hnext
    rw [Session.trace, List.map_cons, List.map_cons, houtcomes, step_eq_ofText jobs text hvars,
      hsettings]
    exact ⟨rfl, List.forall_mem_cons.2 ⟨hnext, hrest⟩⟩

end Stimulus.Model
