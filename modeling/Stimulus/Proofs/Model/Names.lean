import Mathlib.Data.List.Flatten
import Stimulus.Proofs.Register.ClassCode
import Stimulus.Proofs.Stmt.Frame

/-!
# The classes of a model

A model defines a class for each enumeration, for each parent that is not declared and for each class.
-/

open List hiding removeAll splitOn
open String (ofList toList_ofList)

namespace Stimulus.Model

open Pattern Text Sv

variable {cs : List Char}

variable {name : String} {ls : List String} {src : Source}

/-! ## The classes that a text defines -/

/-- The name after `class` at the start of a line. -/
def heading? (line : String) : Option String :=
  (dropStart? "class ".toList line.toList).map fun rest => ofList (rest.takeWhile isWordChar)

def headings (code : String) : List String := (splitOn "\n" code).filterMap heading?

/-- The names of the classes that a part of a model defines once it is narrowed. -/
def partHeadings (part : String) : List String :=
  (splitOn "\n" part).filterMap fun line => heading? (halveIndent line)

theorem splitOn_newline (s : String) :
    splitOn "\n" s = (splitAux ['\n'] [] s.toList).map ofList := rfl

theorem splitAux_ne_nil (piece cs : List Char) : splitAux ['\n'] piece cs ≠ [] := by
  obtain ⟨front, last, hsplit, -⟩ :=
    @exists_last_splitAux '\n' cs piece [] (by simp) nil_suffix
  simp [hsplit]

theorem splitOn_newline_append (p q : String) :
    splitOn "\n" (p ++ "\n" ++ q) = splitOn "\n" p ++ splitOn "\n" q := by
  have hchars : (p ++ "\n" ++ q).toList = p.toList ++ '\n' :: q.toList := by simp
  rw [splitOn_newline, hchars, splitAux_append_sep, map_append]
  rfl

theorem splitOn_of_not_mem {line : String} (h : '\n' ∉ line.toList) : splitOn "\n" line = [line] := by
  rw [splitOn_newline, splitAux_of_not_mem h]
  simp

theorem join_cons_cons (sep p q : String) (ps : List String) :
    join sep (p :: q :: ps) = p ++ sep ++ join sep (q :: ps) := by
  rw [← String.toList_inj]
  simp only [join, String.toList_intercalate, String.toList_append, map_cons, intercalate_cons]
  simp

theorem splitOn_join (hne : ls ≠ []) :
    splitOn "\n" (join "\n" ls) = ls.flatMap (splitOn "\n") := by
  obtain ⟨l, ls, rfl⟩ := exists_cons_of_ne_nil hne
  induction ls generalizing l with
  | nil => simp [join]
  | cons m ls ih =>
    rw [join_cons_cons, splitOn_newline_append, ih m (by simp)]
    rfl

theorem headings_narrowed (code : String) : headings (narrowed code) = partHeadings code := by
  have hne : (splitOn "\n" code).map halveIndent ≠ [] := by
    rw [splitOn_newline, Ne, map_eq_nil_iff, map_eq_nil_iff]
    exact splitAux_ne_nil _ _
  have hlines : ∀ l ∈ (splitOn "\n" code).map halveIndent, '\n' ∉ l.toList := by
    intro l hl
    obtain ⟨line, hline, rfl⟩ := mem_map.1 hl
    rw [splitOn_newline] at hline
    obtain ⟨w, hw, rfl⟩ := mem_map.1 hline
    have hnot : '\n' ∉ w := not_mem_of_mem_splitAux (by simp) hw
    obtain ⟨n, hn⟩ := toList_halveIndent (ofList w)
    rw [hn, toList_ofList, mem_append, mem_replicate]
    rintro (⟨-, hblank⟩ | hmem)
    · cases hblank
    · exact hnot ((dropWhile_suffix _).subset hmem)
  simp only [headings, partHeadings, narrowed, splitOn_join_newline hne hlines, filterMap_map,
    Function.comp_def]

theorem sublist_partHeadings (parts : List String) :
    (parts.flatMap partHeadings).Sublist (partHeadings (join "\n\n" parts)) := by
  induction parts with
  | nil => exact nil_sublist _
  | cons p parts ih =>
    cases parts with
    | nil => simp [join]
    | cons q parts =>
      have hbreak : join "\n\n" (p :: q :: parts) =
          p ++ "\n" ++ ("" ++ "\n" ++ join "\n\n" (q :: parts)) := by
        rw [join_cons_cons, String.empty_append, show "\n\n" = "\n" ++ "\n" from rfl]
        simp only [String.append_assoc]
      rw [hbreak, partHeadings, splitOn_newline_append, splitOn_newline_append, filterMap_append,
        filterMap_append, flatMap_cons]
      exact (List.Sublist.refl _).append (ih.trans (sublist_append_right _ _))

theorem partHeadings_join (hne : ls ≠ []) :
    partHeadings (join "\n" ls) = ls.flatMap partHeadings := by
  rw [partHeadings, splitOn_join hne, filterMap_flatMap]
  rfl

theorem heading?_line {rest : String} (hname : IsIdent name) (hrest : Bounded rest.toList) :
    heading? (halveIndent ("class " ++ name ++ rest)) = some name := by
  have hchars : ("class " ++ name ++ rest).toList = "class ".toList ++ (name.toList ++ rest.toList) := by
    simp
  have hblanks : ("class " ++ name ++ rest).toList.dropWhile (· == ' ') =
      ("class " ++ name ++ rest).toList := by
    rw [hchars]
    rfl
  have hhalf : halveIndent ("class " ++ name ++ rest) = "class " ++ name ++ rest := by
    simp only [halveIndent, hblanks, String.length_toList, Nat.sub_self, String.ofList_toList]
    exact String.empty_append
  rw [hhalf, heading?, hchars, dropStart?_append, Option.map_some,
    (takeWhile_append_stop (fun c hc => isWordChar_of_nameTail (hname c hc)) hrest).1,
    String.ofList_toList]

theorem partHeadings_line {rest : String} (hname : IsIdent name) (hrest : Bounded rest.toList)
    (hline : '\n' ∉ rest.toList) :
    partHeadings ("class " ++ name ++ rest) = [name] := by
  have hnot : '\n' ∉ ("class " ++ name ++ rest).toList := by
    simp only [String.toList_append, mem_append, not_or]
    exact ⟨⟨by decide, hname.not_mem (by decide)⟩, hline⟩
  simp [partHeadings, splitOn_of_not_mem hnot, heading?_line hname hrest]

theorem sublist_of_line {line : String} (hmem : line ∈ ls)
    (hline : partHeadings line = [name]) : [name].Sublist (ls.flatMap partHeadings) := by
  rw [singleton_sublist]
  exact mem_flatMap.2 ⟨line, hmem, by simp [hline]⟩

/-- Parts that are written one after another, each with the name of its own among its headings. -/
theorem sublist_flatMap_partHeadings {α : Type} {name : α → String} {xs : List α}
    {f : List α → Journal → List String} (h : ∀ x ∈ xs, ∀ rest j, ∃ part j',
      f (x :: rest) j = part :: f rest j' ∧ [name x].Sublist (partHeadings part))
    (j : Journal) : (xs.map name).Sublist ((f xs j).flatMap partHeadings) := by
  induction xs generalizing j with
  | nil => exact nil_sublist _
  | cons x xs ih =>
    obtain ⟨hx, hxs⟩ := forall_mem_cons.1 h
    obtain ⟨part, j', hf, hpart⟩ := hx xs j
    rw [hf, flatMap_cons]
    exact hpart.append (ih hxs j')

theorem flatMap_partHeadings_filter (parts : List String) :
    (parts.filter fun part => !part.isEmpty).flatMap partHeadings = parts.flatMap partHeadings := by
  induction parts with
  | nil => rfl
  | cons p parts ih =>
    by_cases hp : p.isEmpty = true
    · obtain rfl := String.isEmpty_iff.1 hp
      rw [filter_cons_of_neg (by simp), flatMap_cons, ih,
        show partHeadings "" = [] by decide +kernel, nil_append]
    · rw [filter_cons_of_pos (by simpa using hp), flatMap_cons, flatMap_cons, ih]

/-! ## The classes of a model -/

theorem bounded_open {cs : List Char} : Bounded ('(' :: cs) := bounded_cons.2 (by decide)

theorem bounded_colon : Bounded [':'] := bounded_cons.2 (by decide)

theorem partHeadings_enumText {e : Enum} (he : IsIdent e.name) :
    [className e.name].Sublist (partHeadings (enumText e)) := by
  rw [enumText, partHeadings_join (by simp)]
  exact sublist_of_line mem_cons_self
    (partHeadings_line (isIdent_className he) bounded_open (by decide))

theorem partHeadings_stubs {parents : List String} (h : ∀ p ∈ parents, IsIdent p) :
    (parents.map className).Sublist (partHeadings (join "\n" (stubHead ++ parents.flatMap stubLines))) := by
  rw [partHeadings_join (by simp [stubHead]), flatMap_append, flatMap_assoc]
  refine List.Sublist.trans ?_ (sublist_append_right _ _)
  induction parents with
  | nil => exact nil_sublist _
  | cons p parents ih =>
    obtain ⟨hp, hparents⟩ := forall_mem_cons.1 h
    have hstub : [className p].Sublist ((stubLines p).flatMap partHeadings) :=
      sublist_of_line (mem_cons_of_mem _ mem_cons_self)
        (partHeadings_line (isIdent_className hp) bounded_colon (by decide))
    exact hstub.append (ih hparents)

section Class

variable (settings : Settings) (scope : Expr.Scope)

variable {classes : List ClassDecl}

/-- The line that starts a class. -/
def startLine (c : ClassDecl) : String :=
  "class " ++ className c.name ++ (c.parent.map fun p => "(" ++ className p ++ ")").getD "" ++ ":"

theorem exists_writeClass (c : ClassDecl) (j : Journal) : ∃ more,
    ((writeClass settings scope c).run j).1 = join "\n" ("@vsc.randobj" :: startLine c :: more) := by
  unfold writeClass
  dsimp only
  split <;> split <;> exact ⟨_, rfl⟩

variable {settings scope}

/-- The class and its parent have plain names. -/
def IsNamed (c : ClassDecl) : Prop := IsIdent c.name ∧ ∀ p ∈ c.parent, IsIdent p

theorem partHeadings_startLine {c : ClassDecl} (hc : IsNamed c) :
    partHeadings (startLine c) = [className c.name] := by
  obtain ⟨hname, hparent⟩ := hc
  unfold startLine
  rw [String.append_assoc]
  cases hp : c.parent with
  | none => exact partHeadings_line (isIdent_className hname) bounded_colon (by decide)
  | some p =>
    have hline : '\n' ∉ (className p).toList := (isIdent_className (hparent p hp)).not_mem (by decide)
    refine partHeadings_line (isIdent_className hname) ?_ ?_
    · rw [Option.map_some, Option.getD_some, String.append_assoc, String.append_assoc,
        String.toList_append]
      exact bounded_open
    · simpa using hline

theorem partHeadings_writeClass {c : ClassDecl} (hc : IsNamed c) (j : Journal) :
    [className c.name].Sublist (partHeadings ((writeChecked settings scope c).run j).1) := by
  obtain ⟨more, htext⟩ := exists_writeClass settings scope c j
  rw [run_writeChecked, htext, partHeadings_join (by simp)]
  exact sublist_of_line (mem_cons_of_mem _ mem_cons_self) (partHeadings_startLine hc)

theorem partHeadings_writeInTurn (h : ∀ c ∈ classes, IsNamed c)
    (j : Journal) : (classes.map fun c => className c.name).Sublist
      (((writeInTurn settings scope classes).run j).1.flatMap partHeadings) :=
  sublist_flatMap_partHeadings (f := fun cs j => ((writeInTurn settings scope cs).run j).1)
    (fun c hc _ j => ⟨_, _, rfl, partHeadings_writeClass (h c hc) j⟩) j

theorem partHeadings_writeApart (h : ∀ c ∈ classes, IsNamed c)
    (j : Journal) : (classes.map fun c => className c.name).Sublist
      (((writeApart settings scope classes).run j).1.flatMap partHeadings) :=
  sublist_flatMap_partHeadings (f := fun cs j => ((writeApart settings scope cs).run j).1)
    (fun c hc _ j => ⟨_, j, rfl, partHeadings_writeClass (h c hc) {}⟩) j

theorem partHeadings_writeClasses (h : ∀ c ∈ classes, IsNamed c)
    (jobs : Int) (j : Journal) : (classes.map fun c => className c.name).Sublist
      (((if jobs > 1 && classes.length > 1 then writeApart settings scope classes
        else writeInTurn settings scope classes).run j).1.flatMap partHeadings) := by
  split
  · exact partHeadings_writeApart h j
  · exact partHeadings_writeInTurn h j

end Class

theorem partHeadings_writeEnums {enums : List Enum} (h : ∀ e ∈ enums, IsIdent e.name) (j : Journal) :
    (enums.map fun e => className e.name).Sublist
      (((writeEnums enums).run j).1.flatMap partHeadings) :=
  sublist_flatMap_partHeadings (f := fun es j => ((writeEnums es).run j).1)
    (fun e he _ _ => ⟨_, _, rfl, partHeadings_enumText (h e he)⟩) j

/-- The parents that get a stub, in order. -/
def stubParents (src : Source) : List String := Text.sorted (distinct (undeclaredParents src.classes))

/-- The names of the types that get a class in the model, in order: each enumeration once, the parents
that are not declared, and the classes. -/
def typeNames (src : Source) : List String :=
  (distinctEnums src.enums).map (·.name) ++ stubParents src ++ src.classes.map (·.name)

/-- The names of the classes of the model. A source without classes has a model without any. -/
def definedNames (src : Source) : List String :=
  if src.classes.isEmpty then [] else (typeNames src).map className

theorem mem_stubParents {c : ClassDecl} {p : String} (hc : c ∈ src.classes)
    (hp : c.parent = some p) (hnot : src.classes.any (·.name == p) = false) : p ∈ stubParents src := by
  have hmem : p ∈ undeclaredParents src.classes :=
    mem_filterMap.2 ⟨c, hc, by simp [hp, Option.filter, hnot]⟩
  exact mem_mergeSort.2 (Stmt.mem_foldl_noted.2 (.inr hmem))

theorem isNamed_of_mem (h : ∀ n ∈ typeNames src, IsIdent n) {c : ClassDecl}
    (hc : c ∈ src.classes) : IsNamed c := by
  have hclass {d : ClassDecl} (hd : d ∈ src.classes) : IsIdent d.name :=
    h _ (mem_append_right _ (mem_map_of_mem hd))
  refine ⟨hclass hc, fun p hp => ?_⟩
  by_cases hdeclared : src.classes.any (·.name == p) = true
  · obtain ⟨d, hd, hname⟩ := any_eq_true.1 hdeclared
    exact beq_iff_eq.1 hname ▸ hclass hd
  · exact h p (mem_append_left _ (mem_append_right _
      (mem_stubParents hc hp (Bool.eq_false_iff.2 hdeclared))))

/-- The text of the stubs, if there are any. -/
def stubTexts (src : Source) : List String :=
  if (undeclaredParents src.classes).isEmpty then []
  else [join "\n" (stubHead ++ (stubParents src).flatMap stubLines)]

theorem partHeadings_stubTexts (h : ∀ p ∈ stubParents src, IsIdent p) :
    ((stubParents src).map className).Sublist ((stubTexts src).flatMap partHeadings) := by
  unfold stubTexts
  split
  · next hnone =>
    have hnil : stubParents src = [] := by
      rw [stubParents, List.isEmpty_iff.1 hnone]
      simp [Text.sorted, distinct]
    simp [hnil]
  · rw [flatMap_singleton]
    exact partHeadings_stubs h

section Model

variable {settings : Settings} {scope : Expr.Scope} {src : Source} {jobs : Int} {d : Draft}

theorem run_writeParts_texts (settings : Settings) (scope : Expr.Scope) (src : Source) (jobs : Int)
    (j : Journal) : ∃ j', ((writeParts settings jobs scope src).run j).1 =
    ((writeEnums (distinctEnums src.enums)).run j).1 ++ stubTexts src ++
      ((if jobs > 1 && src.classes.length > 1 then writeApart settings scope src.classes
        else writeInTurn settings scope src.classes).run j').1 := by
  unfold writeParts stubTexts
  dsimp only
  split <;> split
  · exact ⟨j, rfl⟩
  · exact ⟨_, rfl⟩
  · exact ⟨j, rfl⟩
  · exact ⟨_, rfl⟩

theorem partHeadings_writeParts (h : ∀ n ∈ typeNames src, IsIdent n) (j : Journal) :
    ((typeNames src).map className).Sublist
      (((writeParts settings jobs scope src).run j).1.flatMap partHeadings) := by
  obtain ⟨j', hrun⟩ := run_writeParts_texts settings scope src jobs j
  have henums : ∀ e ∈ distinctEnums src.enums, IsIdent e.name := fun e he =>
    h _ (mem_append_left _ (mem_append_left _ (mem_map_of_mem he)))
  have hstubs : ∀ p ∈ stubParents src, IsIdent p := fun p hp =>
    h p (mem_append_left _ (mem_append_right _ hp))
  have hclasses : ∀ c ∈ src.classes, IsNamed c := fun c => isNamed_of_mem h
  rw [hrun, typeNames, map_append, map_append, map_map, map_map,
    flatMap_append, flatMap_append]
  exact ((partHeadings_writeEnums henums j).append (partHeadings_stubTexts hstubs)).append
    (partHeadings_writeClasses hclasses jobs j')

theorem exists_code_write (hwrite : write settings jobs src = .ok d) : ∃ scope j,
    d.code = narrowed (join "\n\n" (([headText, importText] ++
      ((writeParts settings jobs scope src).run j).1 ++ [usageText src.classes]).filter
        fun part => !part.isEmpty)) := by
  obtain ⟨-, rfl⟩ := eq_draft_of_write hwrite
  exact ⟨_, _, rfl⟩

theorem sublist_headings_write (h : ∀ n ∈ typeNames src, IsIdent n)
    (hwrite : write settings jobs src = .ok d) :
    ((typeNames src).map className).Sublist (headings d.code) := by
  obtain ⟨scope, j, hcode⟩ := exists_code_write hwrite
  rw [hcode, headings_narrowed]
  refine List.Sublist.trans ?_ (sublist_partHeadings _)
  rw [flatMap_partHeadings_filter, flatMap_append, flatMap_append]
  exact ((partHeadings_writeParts h j).trans (sublist_append_right _ _)).trans
    (sublist_append_left _ _)

theorem nodup_className_iff {names : List String} (h : ∀ n ∈ names, IsIdent n) :
    (names.map className).Nodup ↔ names.Pairwise fun a b => ¬ Alike a b := by
  rw [List.Nodup, pairwise_map]
  exact ⟨fun hpairs => hpairs.imp_of_mem fun ha hb hne halike =>
      hne ((className_eq_iff (h _ ha) (h _ hb)).2 halike),
    fun hpairs => hpairs.imp_of_mem fun ha hb halike heq =>
      halike ((className_eq_iff (h _ ha) (h _ hb)).1 heq)⟩

/-- The model of a source defines a class for every enumeration, every parent that is not declared
and every class. They have different names exactly if no two names of the types are alike. -/
theorem class_headings_nodup_iff {text : String} (hread : Sv.read text = .ok src)
    (hmodel : ofText settings jobs text = .ok d) (hnames : ∀ n ∈ typeNames src, IsIdent n) :
    (definedNames src).Sublist (headings d.code) ∧
      ((definedNames src).Nodup ↔
        src.classes = [] ∨ (typeNames src).Pairwise fun a b => ¬ Alike a b) := by
  unfold ofText at hmodel
  rw [hread] at hmodel
  by_cases hclasses : src.classes = []
  · simp [definedNames, hclasses]
  · have hnone : src.classes.isEmpty = false := List.isEmpty_eq_false_iff.2 hclasses
    have hwrite : write settings jobs src = .ok d := by
      simpa [hclasses] using hmodel
    simp only [definedNames, hnone, hclasses, false_or, Bool.false_eq_true, if_false]
    exact ⟨sublist_headings_write hnames hwrite, nodup_className_iff hnames⟩

end Model

/-- An enumeration and a class whose names differ by the mark of a type. -/
def twinText : String := "typedef enum \x7bA\x7d mode_t;\nclass mode;\nendclass\n"

/-- What `twinText` declares. -/
def twinSource : Source where
  enums := [{ name := "mode_t", members := [("A", none)], source := "typedef enum \x7bA\x7d mode_t;" }]
  classes := [{ name := "mode", parent := none, fields := [], constraints := []
                source := "class mode;\nendclass" }]

/-- Of two classes with one name the second hides the enumeration. -/
theorem class_headings_of_twins : (typeNames twinSource).Nodup ∧ ∃ d, ofText {} 1 twinText = .ok d ∧
    (definedNames twinSource).Sublist (headings d.code) ∧ ¬ (definedNames twinSource).Nodup := by
  have hread : Sv.read twinText = .ok twinSource := by decide +kernel
  have hnames : typeNames twinSource = ["mode_t", "mode"] := by cbv
  have hidents : ∀ n ∈ typeNames twinSource, IsIdent n := by
    rw [hnames]
    decide
  have halike : ¬ (typeNames twinSource).Pairwise fun a b => ¬ Alike a b := by
    rw [hnames]
    decide
  have hmodel : ofText {} 1 twinText = .ok (draft {} 1 twinSource) := by
    have hnone : obstacle? {} twinSource = none := by decide +kernel
    rw [ofText, hread, Outcome.ok_bind, if_neg (by simp [twinSource]), write_of_none hnone]
  obtain ⟨hsub, hiff⟩ := class_headings_nodup_iff hread hmodel hidents
  refine ⟨by rw [hnames]; decide, _, hmodel, hsub, fun hnodup => ?_⟩
  rcases hiff.1 hnodup with hclasses | hpairs
  · cases hclasses
  · exact halike hpairs

end Stimulus.Model
