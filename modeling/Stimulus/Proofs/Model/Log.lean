import Stimulus.Proofs.Model.Program
import Stimulus.Proofs.Register.ClassCode

/-!
# The log among the sources

Checks add to the log. If the log is itself a source, the model written for it is that of the log with
what the checks of the files before it have found, which need not be the model of the log.
-/

open List hiding count splitOn
open String (ofList toList_ofList)

namespace Stimulus.Model

open Run Text Sv Register Pattern

/-! ## A text that opens a class -/

theorem newline_narrowed {s : String} (h : '\n' ∈ s.toList) : '\n' ∈ (narrowed s).toList := by
  obtain ⟨u, v, hs, hu⟩ := eq_append_cons_of_mem h
  obtain ⟨front, last, hv, -⟩ := @exists_last_splitAux '\n' v [] [] (by simp) (by simp)
  obtain ⟨l, ls, hls⟩ := exists_cons_of_ne_nil (show front ++ [last] ≠ [] by simp)
  have hsplit : splitOn "\n" s = ofList u :: ofList l :: ls.map ofList :=
    calc splitOn "\n" s = (splitAux ['\n'] [] s.toList).map ofList := rfl
      _ = _ := by rw [hs, splitAux_append_cons hu, hv, hls]; rfl
  rw [narrowed, hsplit, map_cons, map_cons, toList_join_newline, map_cons, lined_cons]
  exact mem_append_right _ mem_cons_self

theorem code_draft_ne (settings : Settings) (jobs : Int) (src : Source) :
    (draft settings jobs src).code ≠ emptyDraft.code := by
  intro heq
  have hnewline : '\n' ∈ (draft settings jobs src).code.toList := by
    have hhead : '\n' ∈ headText.toList := by
      rw [headText, toList_join_newline, map_cons, map_cons, lined_cons]
      exact mem_append_right _ mem_cons_self
    rw [code_draft]
    refine newline_narrowed ((infix_join_of_mem (s := headText) ?_).subset hhead)
    refine mem_filter.2 ⟨by simp, ?_⟩
    rw [Bool.not_eq_true', ← Bool.not_eq_true, String.isEmpty_iff]
    intro hempty
    simp [hempty] at hhead
  rw [heq] at hnewline
  revert hnewline
  decide

/-- Where a class is opened and ended, a class is found, whatever follows. -/
theorem findAll_classDecl_ne_nil {ip body : List Char} (hip : ∀ c ∈ ip, nameTail c = true)
    (hfirst : ∀ a b, body = a ++ b → b ≠ [] → ¬ classEnd <+: b ++ classEnd) (tail : List Char) :
    classDecl.findAll (ofList (headerChars ip ++ (body ++ (classEnd ++ tail)))) ≠ [] := by
  intro hnil
  have hfound := finds_classDecl hip hfirst [] 0 tail
  simp only [append_assoc] at hfound
  rw [← findAll_eq, hnil] at hfound
  simp at hfound

/-- A text that opens a class and has the end of a class in its front is not one without classes,
whatever stands behind the front. -/
theorem code_ne_of_header {ip front rest : List Char} (hip : ∀ c ∈ ip, nameTail c = true)
    (hslash : '/' ∉ front) (hreturn : '\r' ∉ front) (hend : classEnd <:+: front) {jobs : Int} {d : Draft}
    (h : ofText { metrics := false } jobs
      (unifyNewlines (ofList (headerChars ip ++ (front ++ rest)))) = .ok d) :
    d.code ≠ emptyDraft.code := by
  have hname {c : Char} (hc : nameTail c = false) : c ∉ ip := fun hmem => by simp [hip c hmem] at hc
  have hslash' : '/' ∉ headerChars ip ++ front := by
    have hfree : '/' ∉ ip := hname (by decide)
    simp [headerChars, hslash, hfree]
  have hreturn' : '\r' ∉ headerChars ip ++ front := by
    have hfree : '\r' ∉ ip := hname (by decide)
    simp [headerChars, hreturn, hfree]
  obtain ⟨kept, hcomments⟩ := dropComments_of_front hslash' (unifyNewlinesAux rest)
  rw [← append_assoc, unifyNewlines, toList_ofList, unifyNewlinesAux_of_front hreturn'] at h
  obtain ⟨body, tail, hcut, hfirst⟩ :=
    exists_first_infix (hend.trans (prefix_append front kept).isInfix)
  have hfirst' : ∀ a b, body = a ++ b → b ≠ [] → ¬ classEnd <+: b ++ classEnd := by
    intro a b hab hb hpre
    exact hfirst a b hab hb (by
      rw [← append_assoc]
      exact hpre.trans (prefix_append _ _))
  have hfind := findAll_classDecl_ne_nil hip hfirst' tail
  obtain ⟨src, hsrc, h⟩ := Outcome.bind_eq_ok.1 h
  obtain ⟨enums, -, hsrc⟩ := Outcome.bind_eq_ok.1 hsrc
  obtain ⟨classes, hclasses, hsrc⟩ := Outcome.bind_eq_ok.1 hsrc
  obtain rfl := Except.ok.inj hsrc
  rw [hcomments, append_assoc, hcut] at hclasses
  have hsome : classes ≠ [] := by
    rintro rfl
    exact hfind (forall₂_nil_right_iff.1 (Outcome.mapM_eq_ok.1 hclasses))
  rw [if_neg (by simpa using hsome)] at h
  obtain ⟨-, rfl⟩ := eq_draft_of_write h
  exact code_draft_ne _ _ _

/-! ## The files after a run on several of them -/

section Store

variable {jobs : Int} {named : Bool} {parse : Sanity.Parser} {path target key : String} {d : Desk}

theorem store_writeFile {draft : Draft} {r : Sanity.Report}
    (hdraft : d.store.read path >>= ofText { metrics := false } jobs = .ok draft)
    (hreport : Sanity.reportOn parse draft = .ok r) (hdir : d.store.hasDir logFile = false)
    (hkey : d.store.key? target = some key) :
    ((writeFile (side jobs named parse) path target).on d).2.store =
      (match r.log with
        | some entry => d.store.put logFile ((d.store.get? logFile).getD "" ++ entry)
        | none => d.store).put key draft.code := by
  rw [on_writeModel rfl]
  simp only [side, on_check]
  rw [hdraft]
  simp only [hreport, on_tell, hdir, Bool.and_false, Bool.false_eq_true, if_false, on_bind, on_writeFile]
  cases r.log with
  | none =>
    simp only [Store.write_of_key hkey]
    cases named <;> rfl
  | some entry =>
    have hkey' : (d.store.put logFile ((d.store.get? logFile).getD "" ++ entry)).key? target =
        some key := by simpa using hkey
    simp only [Store.write_of_key hkey']
    cases named <;> rfl

theorem get?_writeFile (hfree : d.store.get? key = none) (hdir : d.store.hasDir logFile = false)
    (hkey : d.store.key? target = some key) :
    ((writeFile (side jobs named parse) path target).on d).2.store.get? key = none ∨
      ∃ draft, d.store.read path >>= ofText { metrics := false } jobs = .ok draft ∧
        ((writeFile (side jobs named parse) path target).on d).2.store.get? key = some draft.code := by
  cases hdraft : d.store.read path >>= ofText { metrics := false } jobs with
  | error e =>
    rw [on_writeModel rfl]
    simp only [side]
    rw [hdraft]
    exact .inl hfree
  | ok draft =>
    cases hreport : Sanity.reportOn parse draft with
    | error e =>
      rw [on_writeModel rfl]
      simp only [side, on_check]
      rw [hdraft]
      simp only [hreport]
      exact .inl hfree
    | ok r => exact .inr ⟨draft, rfl, by rw [store_writeFile hdraft hreport hdir hkey, Store.get?_put_self]⟩

end Store

theorem store_writeAll (m : Manner) (files : List (String × String)) (d : Desk) :
    ((writeAll m files).on d).2.store =
      (files.foldl (fun d f => ((writeFile m f.1 f.2).on d).2) d).store := by
  have hfiles (d : Desk) : ∃ failed, (files.filterMapM (tryFile m)).on d =
      (.ok failed, files.foldl (fun d f => ((writeFile m f.1 f.2).on d).2) d) := by
    induction files generalizing d with
    | nil => exact ⟨[], rfl⟩
    | cons f files ih =>
      obtain ⟨failed, hfailed⟩ := ih ((writeFile m f.1 f.2).on d).2
      rw [filterMapM_cons, on_bind, on_tryFile, foldl_cons]
      cases complaint? f.1 ((writeFile m f.1 f.2).on d).1 with
      | none => exact ⟨failed, hfailed⟩
      | some text =>
        simp only [on_bind, hfailed]
        exact ⟨_, rfl⟩
  obtain ⟨failed, hfailed⟩ := hfiles d
  rw [writeAll_eq, on_bind, hfailed]
  simp only [on_bind, on_complainAll]
  rfl

theorem key?_logFile {s : Store} (h : s.hasDir logFile = false) : s.key? logFile = some logFile := by
  rw [Store.key?, place_logFile, h]
  cases (s.get? logFile).isSome <;> rfl

/-- The target of the log gets no model of the log if the file before it has the end of a class in its
entry, and the log opens a class. -/
theorem get?_writeAll_log {jobs : Int} {named : Bool} {parse : Sanity.Parser}
    {path target target' key key' : String} {d : Desk} {draft : Draft} {r : Sanity.Report}
    {ip front : List Char} {entry : String} (hip : ∀ c ∈ ip, nameTail c = true)
    (hdraft : d.store.read path >>= ofText { metrics := false } jobs = .ok draft)
    (hreport : Sanity.reportOn parse draft = .ok r) (hentry : r.log = some entry)
    (hfront : front <+: entry.toList) (hdir : d.store.hasDir logFile = false)
    (hlog : d.store.get? logFile = some (ofList (headerChars ip)))
    (hkey : d.store.key? target = some key) (hkey' : d.store.key? target' = some key')
    (hne : key ≠ logFile) (hne' : key' ≠ logFile) (hfree : d.store.get? key' = none)
    (hapart : key' ≠ key) (hslash : '/' ∉ front) (hreturn : '\r' ∉ front)
    (hend : classEnd <:+: front) :
    ((writeAll (side jobs named parse) [(path, target), (logFile, target')]).on d).2.store.get? key' ≠
      some emptyDraft.code := by
  obtain ⟨rest, hrest⟩ := hfront
  rw [store_writeAll, foldl_cons, foldl_cons, foldl_nil]
  have hfirst := @store_writeFile jobs named parse path target key d draft r hdraft hreport hdir hkey
  generalize ((writeFile (side jobs named parse) path target).on d).2 = d' at hfirst
  simp only [hentry, hlog, Option.getD_some] at hfirst
  have hdir' : d'.store.hasDir logFile = false := by simpa [hfirst] using hdir
  have hread : d'.store.read logFile =
      .ok (unifyNewlines (ofList (headerChars ip ++ (front ++ rest)))) := by
    have hget : d'.store.get? logFile = some (ofList (headerChars ip ++ (front ++ rest))) := by
      rw [hfirst, Store.get?_put_of_ne (Ne.symm hne), Store.get?_put_self, hrest, String.ofList_append,
        String.ofList_toList]
    rw [Store.read, Store.readRaw_of_key (key?_logFile hdir'), hget]
    rfl
  have hfree' : d'.store.get? key' = none := by
    rw [hfirst, Store.get?_put_of_ne hapart, Store.get?_put_of_ne hne', hfree]
  obtain hnone | ⟨draft', hmodel, hsome⟩ := @get?_writeFile jobs named parse logFile target' key' d'
    hfree' hdir' (by simpa [hfirst] using hkey')
  · rw [hnone]
    exact fun heq => by cases heq
  · rw [hread, Outcome.ok_bind] at hmodel
    rw [hsome]
    exact fun heq => code_ne_of_header hip hslash hreturn hend hmodel (Option.some.inj heq)

/-! ## A source whose check ends a class -/

/-- A class whose model does not parse in the line in which the class ends. -/
def crossText : String :=
  "class a;\nconstraint c \x7b q ==; \x7d" ++ rule '\n' 27 ++ "endclass\n"

/-- Its class. -/
def crossSource : String := "class a;\nconstraint c \x7b q ==; \x7d" ++ rule '\n' 27 ++ "endclass"

/-- Finds a fault in its model alone. -/
def crossParse : Sanity.Parser := fun code =>
  .ok (if (ofText { metrics := false } 1 crossText).map Draft.code = .ok code then
    some { line := 29, text := "self.q ==" } else none)

/-- What the log says before the line of the source. -/
def crossFront : String :=
  join "\n" ["\n" ++ rule '=' 80, "[WARNING] SANITY CHECK FAILED", rule '=' 80,
    "[ERROR] Line 29: Generated Python is syntactically invalid", "    Input  (SV L29): endclass"]

theorem log_crossSource (code : String) : ∃ entry,
    (Sanity.check code crossSource (some { line := 29, text := "self.q ==" })).log = some entry ∧
      crossFront.toList <+: entry.toList := by
  have hline : Sanity.lineText (lines crossSource) 29 = "endclass" := by decide
  have hsome : (lines crossSource).isEmpty = false := by decide
  have hissue : (Sanity.issueText (lines code) (lines crossSource)
      { line := 29, message := "Generated Python is syntactically invalid", content := "self.q ==" }).toList =
        "[ERROR] Line 29: Generated Python is syntactically invalid".toList ++
          '\n' :: ("    Input  (SV L29): endclass".toList ++
            ("\n    Output (PY L29): " ++ Sanity.lineText (lines code) 29).toList) := by
    have hnumber : toString (29 : Int) = "29" := by decide
    simp only [Sanity.issueText, hsome, hline, hnumber, Sanity.severity, Bool.false_eq_true, if_false]
    simp [toString]
  refine ⟨_, rfl, ("\n    Output (PY L29): " ++ Sanity.lineText (lines code) 29).toList ++
    lined (["\n" ++ rule '=' 80, "Sanity issues detected. PyVSC file still generated.",
      rule '=' 80 ++ "\n"].map String.toList), ?_⟩
  simp only [Sanity.issues, map_cons, map_nil, cons_append, nil_append, crossFront, toList_join_newline,
    lined_cons, hissue, append_assoc]
  rfl

theorem report_crossText (jobs : Int) : ∃ d, ofText { metrics := false } jobs crossText = .ok d ∧
    Sanity.reportOn crossParse d =
      .ok (Sanity.check d.code crossSource (some { line := 29, text := "self.q ==" })) := by
  have hread : (Sv.read crossText).map (fun src =>
      (src.classes.map (·.source), decide (Printable src))) = .ok ([crossSource], true) := by
    decide +kernel
  obtain ⟨src, hsrc, hparts⟩ := Outcome.map_eq_ok.1 hread
  obtain ⟨hsource, hprintable⟩ := Prod.mk.inj hparts
  have hsome : ¬ src.classes.isEmpty = true := by
    intro hempty
    simp [List.isEmpty_iff.1 hempty] at hsource
  have hwrite (jobs : Int) : ofText { metrics := false } jobs crossText =
      .ok (draft { metrics := false } jobs src) := by
    have hnone : obstacle? { metrics := false } src = none := by
      rw [obstacle?_of_counts fun _ => rfl, if_pos (of_decide_eq_true hprintable)]
    rw [ofText, hsrc, Outcome.ok_bind, if_neg hsome, write_of_none hnone]
  refine ⟨_, hwrite jobs, ?_⟩
  have hcode : (ofText { metrics := false } 1 crossText).map Draft.code =
      .ok (draft { metrics := false } jobs src).code := by
    obtain ⟨e, he, -⟩ | ⟨d, d₁, hd, hd₁, hcode, -⟩ := ofText_jobs jobs crossText
    · cases (hwrite jobs).symm.trans he
    · obtain rfl := Except.ok.inj ((hwrite jobs).symm.trans hd)
      rw [hd₁, hcode]
      rfl
  have hfault : crossParse (draft { metrics := false } jobs src).code =
      .ok (some { line := 29, text := "self.q ==" }) := by
    rw [crossParse, if_pos hcode]
  have hjoin : join "\n\n" (src.classes.map (·.source)) = crossSource := by
    rw [hsource]
    rfl
  show (crossParse (draft { metrics := false } jobs src).code).map
    (Sanity.check _ (join "\n\n" (src.classes.map (·.source)))) = _
  rw [hfault, hjoin]
  rfl

/-- A directory with the source and a log that opens a class. -/
def crossDesk : Desk where
  store := {
    files := [("a.sv", crossText),
      ("sanity_check.log", "class z_rand_item extends uvm_sequence_item;")] }

/-- The sources that fit a pattern, if they are found in order. -/
theorem sources_of_pattern {a : Cli.Arguments} {s : Store} {input : String} {found : List String}
    (hinput : a.text? "input" = some input) (hpattern : Glob.isPattern input = true)
    (hplain : Path.isAbsolute input = false) (hfound : s.matchingFrom [""] (splitOn "/" input) = found)
    (hsorted : found.Pairwise fun a b => decide (a ≤ b) = true) : sources a s = found.map Path.tidy := by
  unfold sources inputs
  simp only [hinput, Option.getD_some, hpattern, if_true]
  rw [Store.matching, if_neg (by simp [hplain]), hfound, sorted, mergeSort_of_pairwise hsorted]

theorem sources_cross : sources [("jobs", .integer 1), ("input", .text "*")] crossDesk.store =
    ["a.sv", "sanity_check.log"] := by
  have hfound : crossDesk.store.matchingFrom [""] (splitOn "/" "*") = ["a.sv", "sanity_check.log"] := by
    decide +kernel
  rw [sources_of_pattern rfl (by decide) (by decide) hfound (by decide +kernel)]
  decide +kernel

end Stimulus.Model
