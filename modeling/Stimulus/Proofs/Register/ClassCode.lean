import Stimulus.Proofs.Model.Writing
import Stimulus.Proofs.Register.ClassModel

/-!
# The text of the model of a class

* `Inert`: a line of a model in which no field is named.
* `IsModel`: a text of lines that declares the fields of items and bounds some of them, and that names
  no fields elsewhere.
* `ofText_classText`: the model of a class text is such a text.
-/

open List
open String (ofList toList_ofList)

namespace Stimulus.Model

open Pattern Text Sv Register

/-! ## Lines of a model -/

theorem toList_halveIndent (line : String) : ∃ n, (halveIndent line).toList =
    List.replicate n ' ' ++ line.toList.dropWhile (· == ' ') := by
  rw [halveIndent, String.toList_append, rule, toList_ofList, toList_ofList]
  exact ⟨_, rfl⟩

theorem halveIndent_four (cs : List Char) (h : ∀ c ∈ cs.head?, c ≠ ' ') :
    halveIndent ("        " ++ ofList cs) = "    " ++ ofList cs := by
  have hrest : ("        " ++ ofList cs).toList.dropWhile (· == ' ') = cs := by
    rw [String.toList_append, @toList_ofList cs, dropWhile_append_of_pos (by decide),
      dropWhile_of_head (by simpa using h)]
  have hblanks : ("        " ++ ofList cs).length - cs.length = 8 := by
    simp [String.length_append, String.length_ofList]
    rfl
  simp only [halveIndent, hrest, hblanks]
  rfl

theorem narrowed_join {ls : List String} (hne : ls ≠ []) (h : ∀ l ∈ ls, '\n' ∉ l.toList) :
    narrowed (join "\n" ls) = join "\n" (ls.map halveIndent) := by
  rw [narrowed, splitOn_join_newline hne h]

/-- A line in which no field is named, whatever follows. -/
structure Inert (line : String) : Prop where
  single : '\n' ∉ line.toList
  shuns : Shuns "self.".toList (line.toList ++ ['\n'])

theorem inert_of_no_dot {line : String} (hline : '\n' ∉ line.toList) (hdot : '.' ∉ line.toList) :
    Inert line :=
  ⟨hline, shuns_of_stop (by decide) (by decide) hdot⟩

/-- Fixed lines. -/
def inertCheck (line : String) : Bool :=
  !line.toList.contains '\n' && shunsCheck "self.".toList (line.toList ++ ['\n'])

theorem inert_of_check {line : String} (h : inertCheck line = true) : Inert line := by
  rw [inertCheck, Bool.and_eq_true, Bool.not_eq_true', contains_eq_mem, decide_eq_false_iff_not] at h
  exact ⟨h.1, shuns_of_check h.2⟩

/-- A line with one dot, after a name that does not end like `self`. -/
theorem inert_of_dot {line : String} {u v : List Char} {c : Char} (h : line.toList = u ++ c :: '.' :: v)
    (hline : '\n' ∉ line.toList) (hc : c ≠ 'f') (hu : '.' ∉ u ++ [c]) (hv : '.' ∉ v) : Inert line := by
  have hcut : line.toList ++ ['\n'] = (u ++ [c] ++ ['.']) ++ (v ++ ['\n']) := by simp [h]
  refine ⟨hline, hcut ▸ Shuns.append ?_ (shuns_of_stop (by decide) (by decide) hv)⟩
  intro a b z hab hb hpre
  obtain ⟨b, e, rfl⟩ := eq_nil_or_concat b |>.resolve_left hb
  rw [concat_eq_append, ← append_assoc] at hab
  obtain ⟨hrest, he⟩ := append_inj' hab rfl
  obtain rfl : '.' = e := by simpa using he
  obtain ⟨t, ht⟩ := hpre
  have hbdot : '.' ∉ b := fun hmem => hu (hrest ▸ mem_append_right a hmem)
  have hself : "self".toList ++ '.' :: t = b ++ '.' :: z := by simpa using ht
  obtain ⟨rfl, -⟩ := append_cons_inj (by decide) hbdot hself
  have hlast := congrArg List.getLast? hrest
  exact hc (by simpa using hlast)

theorem Inert.halveIndent {line : String} (h : Inert line) : Inert (halveIndent line) := by
  obtain ⟨n, hn⟩ := toList_halveIndent line
  have hsuffix := dropWhile_suffix (· == ' ') (l := line.toList)
  refine ⟨?_, ?_⟩
  · rw [hn, mem_append, mem_replicate]
    rintro (⟨-, hc⟩ | hmem)
    · cases hc
    · exact h.single (hsuffix.mem hmem)
  · obtain ⟨a, ha⟩ := hsuffix
    have hblanks : Shuns "self.".toList (List.replicate n ' ') :=
      @shuns_of_not_mem "elf.".toList _ 's' (by simp)
    rw [hn, append_assoc]
    refine hblanks.append fun x y z hxy hy => ?_
    refine h.shuns (a ++ x) y z ?_ hy
    rw [← ha, append_assoc, hxy, append_assoc]

section Class

variable {c : ClassDecl} {ip : List Char} {items kept : List Register.Item}

/-- A text of inert lines. -/
def IsInert (text : String) : Prop :=
  ∃ ls, 1 < ls.length ∧ text = join "\n" ls ∧ ∀ k ∈ ls, Inert k

theorem isInert_headText : IsInert headText := by
  refine ⟨_, ?_, rfl, fun k hk => inert_of_check ?_⟩
  · decide
  · revert k
    decide

theorem isInert_importText : IsInert importText := by
  refine ⟨_, ?_, rfl, fun k hk => inert_of_check ?_⟩
  · decide
  · revert k
    decide

theorem isIdent_parent : IsIdent (className "uvm_sequence_item") := isIdent_className (by decide)

theorem isIdent_class (hip : ∀ c ∈ ip, nameTail c = true) (hc : IsClass c ip items kept) :
    IsIdent c.name := by
  rw [IsIdent, hc.name, toList_ofList]
  exact (nameTail_itemName hip).chars

theorem inert_nil : Inert "" := inert_of_check (by decide)

theorem isInert_stubs : IsInert (join "\n" (stubHead ++ stubLines "uvm_sequence_item")) := by
  have hhead : ∀ k ∈ stubHead, inertCheck k = true := by decide
  have hall : ∀ k ∈ stubHead ++ stubLines "uvm_sequence_item", Inert k := by
    refine forall_mem_append.2 ⟨fun k hk => inert_of_check (hhead k hk), ?_⟩
    unfold stubLines
    simp only [forall_mem_cons]
    refine ⟨inert_of_check (by decide), inert_of_no_dot ?_ ?_,
      inert_of_check (by decide), inert_of_check (by decide),
      inert_of_check (by decide), inert_of_check (by decide),
      inert_of_check (by decide), inert_of_check (by decide), inert_nil, by simp⟩
    · simp [toString, isIdent_parent.not_mem (c := '\n') (by decide)]
    · simp [toString, isIdent_parent.not_mem (c := '.') (by decide)]
  exact ⟨_, by decide, rfl, hall⟩

/-- The first lines of how a class is used. -/
def drawLines (c : ClassDecl) : List String :=
  let cls := className c.name
  let var := Text.lower c.name
  [s!"    # Create and randomize {cls}", s!"    {var} = {cls}()", s!"    {var}_randomized = False",
    s!"    {var}.randomize()", s!"    {var}_randomized = True",
    s!"    print(f'{cls} randomized successfully')"]

/-- The lines that show the first fields. -/
def showLines (c : ClassDecl) : List String :=
  let var := Text.lower c.name
  "" :: s!"    if {var}_randomized:" :: "        # Print field values" :: (c.fields.take 5).map fun f =>
    s!"        print(f'  {f.name} = " ++ "\x7b" ++ s!"{var}.{f.name}" ++ "\x7d')"

theorem usageLines_eq (c : ClassDecl) :
    usageLines c = drawLines c ++ (if c.fields.isEmpty then [] else showLines c) ++ [""] := by
  unfold usageLines
  split
  · rfl
  · simp [drawLines, showLines]

theorem usageLines_class (hip : ∀ c ∈ ip, nameTail c = true) (hc : IsClass c ip items kept) :
    ∃ ls, usageLines c = ls ++ [""] ∧ ∀ k ∈ ls, Inert k := by
  have hclass := isIdent_className (isIdent_class hip hc)
  obtain ⟨low, hlow, hvar⟩ : ∃ low : List Char, (∀ d ∈ low, nameTail d = true) ∧
      (Text.lower c.name).toList = low ++ "_rand_item".toList := by
    refine ⟨ip.map Char.toLower, ?_, ?_⟩
    · simpa using fun d hd => nameTail_toLower (hip d hd)
    · rw [hc.name, lower_plain (nameTail_itemName hip), toList_ofList, map_append]
      rfl
  have hnot {d : Char} (hd : nameTail d = false) : d ∉ low :=
    fun hmem => by simp [hlow d hmem] at hd
  have hdot : nameTail '.' = false := by decide
  have hnewline : nameTail '\n' = false := by decide
  have hfields : ∀ f ∈ c.fields.take 5, ∃ x : Register.Item, f.name.toList = x.name.chars := by
    intro f hf
    have hmem := mem_of_mem_take hf
    rw [hc.fields] at hmem
    obtain ⟨x, -, rfl⟩ := mem_map.1 hmem
    exact ⟨x, toList_ofList⟩
  have hdraw : ∀ k ∈ drawLines c, Inert k := by
    simp only [drawLines, forall_mem_cons]
    refine ⟨inert_of_no_dot ?_ ?_, inert_of_no_dot ?_ ?_, inert_of_no_dot ?_ ?_,
      @inert_of_dot _ ("    ".toList ++ (low ++ "_rand_ite".toList)) "randomize()".toList 'm' ?_ ?_
        (by decide) ?_ (by decide), inert_of_no_dot ?_ ?_, inert_of_no_dot ?_ ?_, by simp⟩
    all_goals simp [toString, hvar, hclass.not_mem hdot, hclass.not_mem hnewline, hnot hdot, hnot hnewline]
  have hshow : ∀ k ∈ showLines c, Inert k := by
    simp only [showLines, forall_mem_cons, forall_mem_map]
    refine ⟨inert_nil, inert_of_no_dot ?_ ?_, inert_of_check (by decide), fun f hf => ?_⟩
    · simp [toString, hvar, hnot hnewline]
    · simp [toString, hvar, hnot hdot]
    · obtain ⟨x, hx⟩ := hfields f hf
      refine @inert_of_dot _ ("        print(f'  ".toList ++ (x.name.chars ++ (" = \x7b".toList ++ (low ++
        "_rand_ite".toList)))) (x.name.chars ++ "\x7d')".toList) 'm' ?_ ?_ (by decide) ?_ ?_
      · simp [toString, hx, hvar]
      · simp [toString, hx, hvar, x.name.plain.not_mem hnewline, hnot hnewline]
      · simp [x.name.plain.not_mem hdot, hnot hdot]
      · simp [x.name.plain.not_mem hdot]
  refine ⟨_, usageLines_eq c, forall_mem_append.2 ⟨hdraw, ?_⟩⟩
  split
  · simp
  · exact hshow

/-- The lines above the uses. -/
def usageHead : List String :=
  ["# " ++ Text.rule '=' 77, "# USAGE EXAMPLE", "# " ++ Text.rule '=' 77, "",
    "if __name__ == '__main__':", "    # Set seed for reproducibility (optional)",
    "    # vsc.set_randstate(12345)", ""]

theorem usageText_singleton (c : ClassDecl) :
    usageText [c] = join "\n" (usageHead ++ usageLines c) := by
  unfold usageText usageHead
  rw [if_neg (by simp), flatMap_singleton]

theorem usageText_class (hip : ∀ c ∈ ip, nameTail c = true) (hc : IsClass c ip items kept) :
    ∃ ls, 1 < ls.length ∧ usageText [c] = join "\n" (ls ++ [""]) ∧ ∀ k ∈ ls, Inert k := by
  obtain ⟨ls, hls, hinert⟩ := usageLines_class hip hc
  have hhead : ∀ k ∈ usageHead, inertCheck k = true := by decide
  refine ⟨usageHead ++ ls, ?_, ?_,
    forall_mem_append.2 ⟨fun k hk => inert_of_check (hhead k hk), hinert⟩⟩
  · simp [usageHead]
  · rw [usageText_singleton, hls, append_assoc]

/-- The fields of items are declared, the ranges of some of them are given, and fields are named nowhere
else. -/
def IsModel (code : String) (items kept : List Register.Item) : Prop :=
  ∃ start mid stop : List String, (∀ l ∈ start ++ mid ++ stop, Inert l) ∧
    code.toList = (start ++ items.map (fun x => "    " ++ ofList x.fieldCode) ++ mid
      ++ kept.map (fun x => "    " ++ ofList x.rangeCode) ++ stop).flatMap fun l => l.toList ++ ['\n']

theorem setupLines_class (hc : IsClass c ip items kept) : ∃ start, (∀ l ∈ start, Inert l) ∧
    setupLines false c = start ++ items.map fun x => "        " ++ ofList x.fieldCode := by
  have hfields : c.fields.map (fieldLine false) = items.map fun x => ofList x.fieldCode := by
    rw [hc.fields, map_map]
    exact map_congr_left fun x _ => x.fieldLine_field
  have hstart : ∀ l ∈ ["    def __init__(self):", "        " ++ "super().__init__()",
      "        " ++ "pass  # No fields found"], inertCheck l = true := by decide
  unfold setupLines
  rw [hc.parent, hfields]
  cases items with
  | nil =>
    have hempty : c.fields.isEmpty = true := by simp [hc.fields]
    rw [if_pos hempty]
    exact ⟨_, fun l hl => inert_of_check (hstart l hl), by simp⟩
  | cons x items =>
    have hempty : ¬ c.fields.isEmpty = true := by simp [hc.fields]
    rw [if_neg hempty]
    exact ⟨["    def __init__(self):", "        " ++ "super().__init__()"],
      fun l hl => inert_of_check (hstart l (mem_append_left _ hl)), by simp⟩

theorem rangeMethod_class (kept : List Register.Item) : ∃ mid, (∀ l ∈ mid, Inert l) ∧
    rangeMethod (kept.map fun x => ofList x.rangeCode) =
      mid ++ kept.map fun x => "        " ++ ofList x.rangeCode := by
  unfold rangeMethod
  cases kept with
  | nil => exact ⟨[], by simp, rfl⟩
  | cons x kept =>
    rw [if_neg (by simp), map_map]
    exact ⟨_, fun l hl => inert_of_check (by revert l; decide), rfl⟩

theorem inert_openingLines (hip : ∀ c ∈ ip, nameTail c = true) (hc : IsClass c ip items kept) :
    ∀ l ∈ openingLines c.name, Inert l := by
  have hname := isIdent_class hip hc
  have hclass := isIdent_className hname
  have hdot : nameTail '.' = false := by decide
  have hnewline : nameTail '\n' = false := by decide
  simp only [openingLines, forall_mem_cons]
  refine ⟨inert_of_check (by decide), inert_of_no_dot ?_ ?_, inert_of_no_dot ?_ ?_, inert_nil,
    by simp⟩
  · simp [toString, hclass.not_mem hnewline, isIdent_parent.not_mem hnewline]
  · simp [toString, hclass.not_mem hdot, isIdent_parent.not_mem hdot]
  · simp [toString, hname.not_mem hnewline]
  · simp [toString, hname.not_mem hdot]

theorem isEmpty_join {ls : List String} (h : 1 < ls.length) : (join "\n" ls).isEmpty = false := by
  obtain ⟨l, m, ls, rfl⟩ : ∃ l m ks, ls = l :: m :: ks := by
    match ls, h with
    | l :: m :: ks, _ => exact ⟨l, m, ks, rfl⟩
  rw [← Bool.not_eq_true, String.isEmpty_iff, ← String.toList_inj, toList_join_newline, map_cons, lined_cons]
  simp


theorem map_halveIndent {f : Register.Item → List Char} (hf : ∀ x, ∀ c ∈ (f x).head?, c ≠ ' ')
    (xs : List Register.Item) : (xs.map fun x => "        " ++ ofList (f x)).map halveIndent =
      xs.map fun x => "    " ++ ofList (f x) := by
  rw [map_map]
  exact map_congr_left fun x _ => halveIndent_four (f x) (hf x)

theorem filter_blocks {bs : List (List String)} (h : ∀ b ∈ bs, 1 < b.length) :
    (bs.map (join "\n")).filter (fun part => !part.isEmpty) = bs.map (join "\n") := by
  refine filter_eq_self.2 fun part hpart => ?_
  obtain ⟨b, hb, rfl⟩ := mem_map.1 hpart
  rw [isEmpty_join (h b hb)]
  rfl

theorem code_draft (settings : Settings) (jobs : Int) (src : Source) :
    (draft settings jobs src).code = narrowed (join "\n\n" (([headText, importText] ++
      ((writeParts settings jobs (scopeOf src.enums {}).1 src).run (scopeOf src.enums {}).2).1 ++
      [usageText src.classes]).filter fun part => !part.isEmpty)) := rfl

theorem write_class (hc : IsClass c ip items kept) (metrics : Bool) (jobs : Int) :
    write { metrics } jobs { enums := [], classes := [c] } =
      .ok (draft { metrics } jobs { enums := [], classes := [c] }) := by
  refine write_of_none ?_ jobs
  have hwidth : isShort 32 = true := isShort_eq_true.2 (by decide)
  rw [obstacle?_of_counts fun _ => by simp [lacksCounts], if_pos]
  simp [Printable, hc.fields, distinctEnums, fieldIsPrintable, fieldNumbers, valueNumbers, Item.field, hwidth]

theorem isModel_write (hip : ∀ c ∈ ip, nameTail c = true) (hc : IsClass c ip items kept)
    (metrics : Bool) (jobs : Int) :
    ∃ d, write { metrics } jobs { enums := [], classes := [c] } = .ok d ∧ IsModel d.code items kept := by
  obtain ⟨head, hhead, hheadText, ihead⟩ := isInert_headText
  obtain ⟨imports, himports, himportText, iimports⟩ := isInert_importText
  obtain ⟨stubs, hstubs, hstubText, istubs⟩ := isInert_stubs
  obtain ⟨usage, husage, husageText, iusage⟩ := usageText_class hip hc
  obtain ⟨start, istart, hstart⟩ := setupLines_class hc
  obtain ⟨mid, imid, hmid⟩ := rangeMethod_class kept
  have hcode := code_draft { metrics } jobs { enums := [], classes := [c] }
  generalize (scopeOf _ {}).1 = scope, (scopeOf _ {}).2 = j at hcode
  let fields := items.map fun x => "        " ++ ofList x.fieldCode
  let ranges := kept.map fun x => "        " ++ ofList x.rangeCode
  let front := head ++ ([imports, stubs].flatMap ("" :: ·) ++ "" :: (openingLines c.name ++ start))
  have hinert : ∀ l ∈ front ++ mid ++ "" :: usage, Inert l := by
    simp only [front, flatMap_cons, flatMap_nil, append_nil, forall_mem_append,
      forall_mem_cons]
    exact ⟨⟨⟨ihead, ⟨⟨inert_nil, iimports⟩, inert_nil, istubs⟩, inert_nil, inert_openingLines hip hc,
      istart⟩, imid⟩, inert_nil, iusage⟩
  have hblocks : [headText, importText] ++
      ((writeParts { metrics } jobs scope { enums := [], classes := [c] }).run j).1 ++
      [usageText [c]] = [head, imports, stubs, openingLines c.name ++ start ++ fields ++ mid ++ ranges,
        usage ++ [""]].map (join "\n") := by
    rw [run_writeParts hc, hheadText, himportText, hstubText, husageText, hstart, hmid]
    simp [fields, ranges]
  have hlong : ∀ b ∈ [head, imports, stubs, openingLines c.name ++ start ++ fields ++ mid ++ ranges,
      usage ++ [""]], 1 < b.length := by
    simp only [forall_mem_cons]
    refine ⟨hhead, himports, hstubs, ?_, ?_, by simp⟩
    · simp [openingLines]
    · simp
      omega
  refine ⟨_, write_class hc metrics jobs, front.map halveIndent, mid.map halveIndent, ("" :: usage).map halveIndent, ?_, ?_⟩
  · rw [← map_append, ← map_append]
    exact forall_mem_map.2 fun l hl => (hinert l hl).halveIndent
  have hpos : ∀ b ∈ [head, imports, stubs, openingLines c.name ++ start ++ fields ++ mid ++ ranges,
      usage ++ [""]], b ≠ [] := fun b hb => ne_nil_of_length_pos (by have := hlong b hb; omega)
  obtain ⟨hpos, hposs⟩ := forall_mem_cons.1 hpos
  have hall : head ++ [imports, stubs, openingLines c.name ++ start ++ fields ++ mid ++ ranges,
      usage ++ [""]].flatMap ("" :: ·) = (front ++ fields ++ mid ++ ranges ++ "" :: usage) ++ [""] := by
    simp [front]
  have hsingle : ∀ l ∈ (front ++ fields ++ mid ++ ranges ++ "" :: usage) ++ [""], '\n' ∉ l.toList := by
    simp only [forall_mem_append] at hinert ⊢
    refine ⟨⟨⟨⟨⟨fun l hl => (hinert.1.1 l hl).single, ?_⟩, fun l hl => (hinert.1.2 l hl).single⟩, ?_⟩,
      fun l hl => (hinert.2 l hl).single⟩, by simp⟩
    · simp [fields, Register.Item.not_newline_fieldCode]
    · simp [ranges, Register.Item.not_newline_rangeCode]
  have hnil : halveIndent "" = "" := by decide
  rw [hcode, hblocks, filter_blocks hlong, join_blocks hpos hposs, hall,
    narrowed_join (by simp) hsingle, map_append, map_singleton, hnil, toList_join_concat]
  simp only [map_append, fields, ranges, map_halveIndent Register.Item.head_fieldCode,
    map_halveIndent Register.Item.head_rangeCode]

theorem ofText_classText (hip : ∀ c ∈ ip, nameTail c = true) (hitems : ∀ x ∈ items, Usable x.name)
    (metrics : Bool) (jobs : Int) :
    ∃ d, ofText { metrics } jobs (classText ip items) = .ok d ∧
      IsModel d.code items (if classEnd <:+: ip then [] else items) := by
  obtain ⟨c, hread, hc⟩ := read_classText hip hitems
  obtain ⟨d, hd, hmodel⟩ := isModel_write hip hc metrics jobs
  refine ⟨d, ?_, hmodel⟩
  rw [ofText, hread, Outcome.ok_bind, if_neg (by simp), hd]

end Class

end Stimulus.Model
