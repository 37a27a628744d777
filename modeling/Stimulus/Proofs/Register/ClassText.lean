import Stimulus.Proofs.Register.Item
import Stimulus.Proofs.Sv.Comment
import Stimulus.Proofs.Sv.Constraints
import Stimulus.Sv.ClassDecl

/-!
# The text of a class of bounded fields

A class of fields that are all bounded, and that have no other constraints, as a list of lines.
-/

open List

namespace Stimulus.Register

open Pattern Text Sv

/-! ## Items -/

/-- A field that is bounded from both sides. -/
structure Item where
  name : Label
  signed : Bool
  low : Int
  high : Int
deriving DecidableEq

namespace Item

variable (x : Item)

/-- The declaration. -/
def declarationLine : List Char :=
  typeChars x.signed ++ ("[31:0] ".toList ++ (x.name.chars ++ [';']))

/-- The entry in the list of fields. -/
def entryLine : List Char := " `uvm_field_int(".toList ++ (x.name.chars ++ ", UVM_DEFAULT)".toList)

/-- The first line of the block of the range. -/
def headLine : List Char := "   constraint CR_VAR_RANGE_".toList ++ x.name.chars

/-- The line of the range. -/
def boundsLine : List Char :=
  "       (".toList ++ (rangeChars x.name x.low x.high ++ ");".toList)

/-- The block of the range. -/
def blockLines : List (List Char) :=
  [x.headLine, "     \x7b".toList, x.boundsLine, "     \x7d".toList, []]

/-- The item of a field with bounds. -/
def ofField (f : Label × Bounds) : Item := ⟨f.1, decide (f.2.low < 0), f.2.low, f.2.high⟩

end Item

/-! ## Classes -/

/-- The first line of a class, up to its semicolon. -/
def headerChars (ip : List Char) : List Char :=
  "class ".toList ++ (ip ++ "_rand_item extends uvm_sequence_item;".toList)

/-- The line that opens the list of fields. -/
def beginLine (ip : List Char) : List Char :=
  "`uvm_object_utils_begin(".toList ++ (ip ++ "_rand_item)".toList)

/-- The lines from the header to the list of fields. -/
def frontLines (items : List Item) : List (List Char) :=
  [] :: (items.map Item.declarationLine ++ [[]])

/-- The lines from the list of fields to the end of the class. -/
def backLines (items : List Item) : List (List Char) :=
  items.map Item.entryLine ++ ("`uvm_object_utils_end".toList :: items.flatMap Item.blockLines)

def classLines (ip : List Char) (items : List Item) : List (List Char) :=
  headerChars ip :: (frontLines items ++ beginLine ip :: backLines items ++ ["endclass".toList])

/-- The characters of a class of items. -/
def classChars (ip : List Char) (items : List Item) : List Char :=
  (classLines ip items).flatMap (· ++ ['\n'])

def classText (ip : List Char) (items : List Item) : String := String.ofList (classChars ip items)

theorem declaration_item (f : Label × Bounds) :
    (declaration f.1.name f.2.low).toList = (Item.ofField f).declarationLine ++ ['\n'] := by
  rw [toList_declaration]
  simp [Item.declarationLine, Item.ofField]

theorem registrations_item (f : Label × Bounds) : (fieldOf f).registrations.flatMap String.toList =
    (Item.ofField f).entryLine ++ ['\n'] := by
  unfold Item.entryLine
  simp [registrations_fieldOf, Item.ofField, toString, Label.name]

theorem ranges_item {f : Label × Bounds} (h : f.2.bounded = true) :
    (fieldOf f).ranges.flatMap String.toList =
      (Item.ofField f).blockLines.flatMap (· ++ ['\n']) := by
  rw [ranges_fieldOf, if_pos h]
  unfold Item.blockLines Item.headLine Item.boundsLine
  simp [Item.ofField, toList_rangeLine, toString, Label.name]

theorem itemText_bounded {ip : String} {fs : List (Label × Bounds)}
    (h : ∀ f ∈ fs, f.2.bounded = true) :
    itemText ip (.concat (fs.map fieldOf)) = classText ip.toList (fs.map Item.ofField) := by
  have hdecls : ((fs.map fieldOf).flatMap (·.declarations)).flatMap String.toList =
      (fs.map Item.ofField).flatMap fun x => x.declarationLine ++ ['\n'] := by
    rw [flatMap_assoc, flatMap_map, flatMap_map]
    refine flatMap_congr fun f _ => ?_
    simpa [fieldOf, Fragment.of] using declaration_item f
  have hentries : ((fs.map fieldOf).flatMap (·.registrations)).flatMap String.toList =
      (fs.map Item.ofField).flatMap fun x => x.entryLine ++ ['\n'] := by
    rw [flatMap_assoc, flatMap_map, flatMap_map]
    exact flatMap_congr fun f _ => registrations_item f
  have hranges : ((fs.map fieldOf).flatMap (·.ranges)).flatMap String.toList =
      (fs.map Item.ofField).flatMap fun x => x.blockLines.flatMap (· ++ ['\n']) := by
    rw [flatMap_assoc, flatMap_map, flatMap_map]
    exact flatMap_congr fun f hf => ranges_item (h f hf)
  have hnone : (fs.map fieldOf).flatMap (·.constraints) = [] := by
    simp [flatMap_map, fieldOf, Fragment.of]
  rw [itemText, classText, ← String.toList_inj, String.toList_join, String.toList_ofList, itemLines]
  simp only [Fragment.concat, hnone, flatMap_append, hdecls, hentries, hranges]
  unfold classChars classLines frontLines backLines headerChars beginLine
  simp [flatMap_assoc, flatMap_map, Function.comp_def, toString]

/-! ## The body of a class -/

/-- The lines of a class after its header, without the last one. -/
def bodyLines (ip : List Char) (items : List Item) : List (List Char) :=
  frontLines items ++ beginLine ip :: (backLines items ++ [[]])

/-- The text from the header up to the name in the list of fields. -/
def frontChars (items : List Item) : List Char :=
  lined (frontLines items) ++ "\n`uvm_object_utils_begin(".toList

/-- The list of fields, from the name on. -/
def listChars (ip : List Char) (items : List Item) : List Char :=
  (ip ++ "_rand_item)".toList) ++
    (lined (items.map Item.entryLine) ++ "\n`uvm_object_utils_end\n".toList)

/-- The blocks of the ranges. -/
def blockChars (items : List Item) : List Char :=
  items.flatMap fun x => x.blockLines.flatMap (· ++ ['\n'])

theorem lined_bodyLines (ip : List Char) (items : List Item) :
    lined (bodyLines ip items) = frontChars items ++ (listChars ip items ++ blockChars items) := by
  have hblocks : lined (items.flatMap Item.blockLines ++ [[]]) = '\n' :: blockChars items := by
    rw [lined_concat_nil, blockChars, flatMap_assoc]
  unfold bodyLines frontChars listChars beginLine backLines
  rw [append_assoc, cons_append, lined_append, lined_cons, lined_append, lined_cons,
    hblocks]
  simp

theorem classChars_eq (ip : List Char) (items : List Item) : classChars ip items =
    headerChars ip ++ (lined (bodyLines ip items) ++ ("endclass".toList ++ ['\n'])) := by
  have hbody : bodyLines ip items = (frontLines items ++ beginLine ip :: backLines items) ++ [[]] := by
    simp [bodyLines]
  rw [hbody, lined_concat_nil, classChars, classLines]
  simp

/-! ## Pieces of a class -/

/-- The fixed texts of a class between its header and its end, but for the heads of blocks. -/
def fixedPieces : List (List Char) :=
  ["\n", "\n rand bit [31:0] ", "\n rand bit signed [31:0] ", "\n\n`uvm_object_utils_begin(",
    "\n `uvm_field_int(", " UVM_DEFAULT)", "\n`uvm_object_utils_end\n", "\n       (", "= ", " && ",
    ");\n     \x7d\n\n"].map String.toList

/-- What follows a name in a class. -/
def gaps : List (List Char) := [";", ",", ")", "\n     \x7b", " >", " <"].map String.toList

/-- The start of a block, up to the name of its field. -/
def blockStart : List Char := "   constraint CR_VAR_RANGE_".toList

/-- A property of texts that the pieces of a class have, and hence the texts made of them. Names have
the property `N`. -/
structure Passes (P N : List Char → Prop) : Prop where
  nil : P []
  append {u v : List Char} : P u → P v → P (u ++ v)
  fixed : ∀ l ∈ fixedPieces, P l
  name {n : List Char} : N n → ∀ g ∈ gaps, P (n ++ g)
  int (v : Int) : P (intChars v)

namespace Passes

variable {P N : List Char → Prop} (h : Passes P N)
include h

theorem flatMap {α : Type} {f : α → List Char} {xs : List α} (hxs : ∀ x ∈ xs, P (f x)) :
    P (xs.flatMap f) := by
  induction xs with
  | nil => exact h.nil
  | cons x xs ih =>
    obtain ⟨hx, hxs⟩ := forall_mem_cons.1 hxs
    exact h.append hx (ih hxs)

theorem front {items : List Item} (hitems : ∀ x ∈ items, N x.name.chars) : P (frontChars items) := by
  have hline (x : Item) : '\n' :: x.declarationLine =
      '\n' :: (typeChars x.signed ++ "[31:0] ".toList) ++ (x.name.chars ++ ";".toList) := by
    simp [Item.declarationLine]
  have hdecls : P (lined (items.map Item.declarationLine)) := by
    rw [lined, flatMap_map]
    refine h.flatMap fun x hx => ?_
    rw [hline]
    refine h.append (h.fixed _ ?_) (h.name (hitems x hx) _ (by decide))
    cases x.signed <;> decide
  have hfront : frontChars items = "\n".toList ++ (lined (items.map Item.declarationLine)
      ++ "\n\n`uvm_object_utils_begin(".toList) := by
    unfold frontChars
    rw [frontLines, lined_cons, lined_append]
    simp [lined]
  rw [hfront]
  exact h.append (h.fixed _ (by decide)) (h.append hdecls (h.fixed _ (by decide)))

theorem list {ip : List Char} (hip : N (ip ++ "_rand_item".toList)) {items : List Item}
    (hitems : ∀ x ∈ items, N x.name.chars) : P (listChars ip items) := by
  have hline (x : Item) : '\n' :: x.entryLine =
      "\n `uvm_field_int(".toList ++ (x.name.chars ++ ",".toList ++ " UVM_DEFAULT)".toList) := by
    unfold Item.entryLine
    simp
  have hentries : P (lined (items.map Item.entryLine)) := by
    rw [lined, flatMap_map]
    refine h.flatMap fun x hx => ?_
    rw [hline]
    exact h.append (h.fixed _ (by decide))
      (h.append (h.name (hitems x hx) _ (by decide)) (h.fixed _ (by decide)))
  have hcut : listChars ip items = (ip ++ "_rand_item".toList) ++ ")".toList
      ++ (lined (items.map Item.entryLine) ++ "\n`uvm_object_utils_end\n".toList) := by
    unfold listChars
    simp
  rw [hcut]
  exact h.append (h.name hip _ (by decide)) (h.append hentries (h.fixed _ (by decide)))

theorem range {n : Label} (hn : N n.chars) (low high : Int) : P (rangeChars n low high) := by
  have hcut : rangeChars n low high = n.chars ++ " >".toList ++ ("= ".toList ++ (intChars low
      ++ (" && ".toList ++ (n.chars ++ " <".toList ++ ("= ".toList ++ intChars high))))) := by
    simp [rangeChars]
  rw [hcut]
  exact h.append (h.name hn _ (by decide)) (h.append (h.fixed _ (by decide)) (h.append (h.int low)
    (h.append (h.fixed _ (by decide)) (h.append (h.name hn _ (by decide))
      (h.append (h.fixed _ (by decide)) (h.int high))))))

theorem blocks (hstart : P blockStart) {items : List Item} (hitems : ∀ x ∈ items, N x.name.chars) :
    P (blockChars items) := by
  have hcut (x : Item) : x.blockLines.flatMap (· ++ ['\n']) = blockStart ++
      (x.name.chars ++ "\n     \x7b".toList ++ ("\n       (".toList ++
        (rangeChars x.name x.low x.high ++ ");\n     \x7d\n\n".toList))) := by
    unfold Item.blockLines Item.headLine Item.boundsLine blockStart
    simp
  rw [blockChars]
  refine h.flatMap fun x hx => ?_
  rw [hcut]
  exact h.append hstart (h.append (h.name (hitems x hx) _ (by decide))
    (h.append (h.fixed _ (by decide))
      (h.append (h.range (hitems x hx) x.low x.high) (h.fixed _ (by decide)))))

end Passes

/-! ## Characters of a class -/

theorem not_mem_line {c : Char} (hc : c = '\n' ∨ c = '\r' ∨ c = '/') {ip : List Char}
    (hip : ∀ c ∈ ip, nameTail c = true) {items : List Item} {l : List Char}
    (h : l ∈ classLines ip items) : c ∉ l := by
  have hplain : nameTail c = false := by rcases hc with rfl | rfl | rfl <;> decide
  have hname (n : Label) : c ∉ n.chars := n.plain.not_mem hplain
  have hipc : c ∉ ip := fun hmem => by simp [hip c hmem] at hplain
  have hrange (x : Item) : c ∉ rangeChars x.name x.low x.high := by
    rcases hc with rfl | rfl | rfl <;>
      exact not_mem_rangeChars (by decide) (by decide) (by decide) x.name x.low x.high
  unfold classLines frontLines backLines at h
  simp only [mem_cons, mem_append, mem_map, mem_flatMap, not_mem_nil,
    or_false] at h
  rcases h with rfl | ((rfl | ⟨x, -, rfl⟩ | rfl) | rfl | ⟨x, -, rfl⟩ | rfl | ⟨x, -, h⟩) | rfl
  · unfold headerChars
    rcases hc with rfl | rfl | rfl <;> simp [hipc]
  · simp
  · unfold Item.declarationLine typeChars
    rcases hc with rfl | rfl | rfl <;> cases x.signed <;> simp [hname]
  · simp
  · unfold beginLine
    rcases hc with rfl | rfl | rfl <;> simp [hipc]
  · unfold Item.entryLine
    rcases hc with rfl | rfl | rfl <;> simp [hname]
  · rcases hc with rfl | rfl | rfl <;> simp
  · unfold Item.blockLines Item.headLine Item.boundsLine at h
    simp only [mem_cons, not_mem_nil, or_false] at h
    rcases h with rfl | rfl | rfl | rfl | rfl <;> rcases hc with rfl | rfl | rfl <;>
      simp [hname, hrange]
  · rcases hc with rfl | rfl | rfl <;> simp

/-! ## Words that open declarations -/

/-- The words that open declarations. -/
def openers : List (List Char) := ["typedef", "class", "constraint", "function"].map String.toList

/-- The pattern starts with a word that opens declarations, blanks and another word. -/
def Opens (p : Pattern) (w : List Char) : Prop := w ∈ openers ∧ Jumps p w isWordChar

theorem spells_word {t : List Char} (h : Spells word t) :
    ∃ d r, t = d :: r ∧ isWordChar d = true ∧ isBlank d = false := by
  obtain ⟨hchars, hlen⟩ := h
  obtain ⟨d, r, rfl⟩ := exists_cons_of_ne_nil (ne_nil_of_length_pos hlen)
  exact ⟨d, r, rfl, hchars d (by simp), isBlank_of_isWordChar (hchars d (by simp))⟩

theorem spells_lit_word {l : String} (h : ∃ d r, l.toList = d :: r ∧ isWordChar d = true)
    {t : List Char} (ht : Spells (lit l) t) :
    ∃ d r, t = d :: r ∧ isWordChar d = true ∧ isBlank d = false := by
  obtain ⟨d, r, hl, hd⟩ := h
  exact ⟨d, r, ht.trans hl, hd, isBlank_of_isWordChar hd⟩

theorem opens_enumDecl : Opens enumDecl "typedef".toList := by
  refine ⟨by decide, ?_⟩
  have hbase : Jumps (lit "typedef" ++ blanks1 ++ lit "enum") "typedef".toList isWordChar :=
    jumps_lit fun t ht => spells_lit_word ⟨'e', _, rfl, by decide⟩ ht
  exact hbase.seq.seq.seq.seq.seq.seq.seq.seq.seq

theorem opens_classDecl : Opens classDecl "class".toList := by
  refine ⟨by decide, ?_⟩
  have hbase : Jumps (lit "class" ++ blanks1 ++ group 1 word) "class".toList isWordChar :=
    jumps_lit fun t ht => spells_word ht
  exact hbase.seq.seq.seq.seq.seq

theorem opens_constraintHead : Opens constraintHead "constraint".toList := by
  refine ⟨by decide, ?_⟩
  have hbase : Jumps (lit "constraint" ++ blanks1 ++ group 1 word) "constraint".toList isWordChar :=
    jumps_lit fun t ht => spells_word ht
  exact hbase.seq.seq

theorem opens_functionDecl {name : String} (h : ∃ d r, name.toList = d :: r ∧ isWordChar d = true) :
    Opens (functionDecl name) "function".toList := by
  refine ⟨by decide, ?_⟩
  have hbase : Jumps (lit "function" ++ blanks1 ++ (opt (lit "void" ++ blanks1) ++ lit name))
      "function".toList isWordChar := by
    refine jumps_lit ?_
    rintro t ⟨a, b, rfl, ⟨c, d, rfl, hc, -⟩ | rfl, hb⟩
    · obtain ⟨e, r, rfl, he⟩ := spells_lit_word ⟨'v', _, rfl, by decide⟩ hc
      exact ⟨e, r ++ d ++ b, by simp, he⟩
    · exact spells_lit_word h hb
  have hassoc : Jumps (lit "function" ++ blanks1 ++ opt (lit "void" ++ blanks1) ++ lit name)
      "function".toList isWordChar := by
    rintro t ⟨a, b, rfl, ⟨c, d, rfl, hc, hd⟩, hb⟩
    exact hbase _ ⟨c, d ++ b, by simp, hc, d, b, rfl, hd, hb⟩
  exact hassoc.seq.seq.seq.seq.seq.seq.seq.seq

section Lines

variable {p : Pattern} {w : List Char} (h : Opens p w)
include h

theorem Opens.skips_fixed {u : List Char} (hu : ∀ w ∈ openers, shunsCheck w u = true) : Skips p u :=
  h.2.leads.skips (shuns_of_check (hu w h.1))

theorem Opens.isPlain : IsPlain w := by
  have hw := h.1
  simp only [openers, map_cons, map_nil, mem_cons, not_mem_nil, or_false] at hw
  rcases hw with rfl | rfl | rfl | rfl <;> exact ⟨by decide, by decide⟩

theorem Opens.skips_name {n g : List Char} (hn : ∀ c ∈ n, nameTail c = true) (hg : Blank g) {c : Char}
    (hblank : isBlank c = false) (hc : isWordChar c = false) : Skips p (n ++ (g ++ [c])) := by
  have hplain : nameTail c = false := by
    cases hn : nameTail c with
    | false => rfl
    | true => rw [isWordChar_of_nameTail hn] at hc; cases hc
  exact h.2.skips_word h.isPlain hn hg hplain hblank hc

theorem Opens.skips_int (v : Int) : Skips p (intChars v) := by
  refine h.2.leads.skips ?_
  have hw := h.1
  simp only [openers, map_cons, map_nil, mem_cons, not_mem_nil, or_false] at hw
  have hnot {c : Char} (hc : c ≠ '-') (hd : c.isDigit = false) (r : List Char) :
      Shuns (c :: r) (intChars v) := shuns_of_not_mem (not_mem_intChars hc hd)
  rcases hw with rfl | rfl | rfl | rfl <;> exact hnot (by decide) (by decide) _

theorem Opens.passes : Passes (Skips p) fun n => ∀ c ∈ n, nameTail c = true where
  nil := skips_nil
  append := Skips.append
  fixed := by
    have hcheck : ∀ w ∈ openers, ∀ l ∈ fixedPieces, shunsCheck w l = true := by decide
    exact fun l hl => h.skips_fixed fun w hw => hcheck w hw l hl
  name := by
    intro n hn g hg
    simp only [gaps, map_cons, map_nil, mem_cons, not_mem_nil, or_false] at hg
    rcases hg with rfl | rfl | rfl | rfl | rfl | rfl
    · exact h.skips_name (g := []) hn (by decide) (by decide) (by decide)
    · exact h.skips_name (g := []) hn (by decide) (by decide) (by decide)
    · exact h.skips_name (g := []) hn (by decide) (by decide) (by decide)
    · exact h.skips_name (g := "\n     ".toList) (c := '\x7b') hn (by decide) (by decide) (by decide)
    · exact h.skips_name (g := [' ']) (c := '>') hn (by decide) (by decide) (by decide)
    · exact h.skips_name (g := [' ']) (c := '<') hn (by decide) (by decide) (by decide)
  int := h.skips_int

end Lines

/-! ## The class -/

theorem nameTail_itemName {ip : List Char} (hip : ∀ c ∈ ip, nameTail c = true) :
    IsPlain (ip ++ "_rand_item".toList) :=
  ⟨by simp, forall_mem_append.2 ⟨hip, by decide⟩⟩

theorem reads_classDecl {ip body : List Char} (hip : ∀ c ∈ ip, nameTail c = true)
    (hfirst : ∀ a b, body = a ++ b → b ≠ [] → ¬ "endclass".toList <+: b ++ "endclass".toList)
    (before rest : List Char) :
    Reads classDecl before [] (headerChars ip ++ (body ++ "endclass".toList)) rest
      [(3, body), (2, "uvm_sequence_item".toList), (1, ip ++ "_rand_item".toList)] := by
  have hname := nameTail_itemName hip
  have hcut : headerChars ip ++ (body ++ "endclass".toList) = "class".toList ++ (" ".toList ++
      ((ip ++ "_rand_item".toList) ++ ((" ".toList ++ ("extends".toList ++ (" ".toList ++
        "uvm_sequence_item".toList))) ++ ([] ++ (";".toList ++ (body ++ "endclass".toList)))))) := by
    unfold headerChars
    simp
  have hparent {before z : List Char} {kept : List (Nat × List Char)} :
      Reads (blanks1 ++ (lit "extends" ++ (blanks1 ++ group 2 word))) before kept
        (" ".toList ++ ("extends".toList ++ (" ".toList ++ "uvm_sequence_item".toList)))
        (';' :: z) ((2, "uvm_sequence_item".toList) :: kept) := by
    refine (reads_run (by decide) (by simp; decide) (by decide)).seq (reads_lit.seq ?_)
    exact (reads_run (by decide) (by simp; decide) (by decide)).seq
      ((reads_run (by decide) (by simp; decide) (by decide)).group 2)
  have hbody {before : List Char} {kept : List (Nat × List Char)} :
      Reads (group 3 Pattern.upTo ++ lit "endclass") before kept (body ++ "endclass".toList) rest
        ((3, body) :: kept) := by
    refine reads_creep (by simp) (by simp) reads_lit fun a b hab hb s hs => fails_lit fun hpre => ?_
    refine hfirst a b hab hb (prefix_of_prefix_length_le hpre ⟨rest, ?_⟩ ?_)
    · rw [hs, append_assoc]
    · simp
  show Reads (lit "class" ++ (blanks1 ++ (group 1 word ++ (opt (blanks1 ++ (lit "extends" ++
    (blanks1 ++ group 2 word))) ++ (blanks ++ (lit ";" ++ (group 3 Pattern.upTo ++
      lit "endclass"))))))) _ _ _ _ _
  rw [hcut]
  refine reads_lit.seq ((reads_run (by decide) ?_ (by decide)).seq
    (((reads_word hname.isWord (by simp; decide)).group 1).seq
      (hparent.opt.seq ((reads_blanks blank_nil (by simp; decide)).seq (reads_lit.seq hbody)))))
  rw [append_assoc]
  exact head_word hname.isWord

/-! ## Constraints -/

namespace Item

variable (x : Item)

/-- The constraint of an item, without the blanks around it. -/
def condition : List Char := '(' :: (rangeChars x.name x.low x.high ++ [')', ';'])

/-- The head of the block, up to its brace. -/
def headChars : List Char :=
  "constraint".toList ++ (" ".toList ++ (("CR_VAR_RANGE_".toList ++ x.name.chars) ++
    ("\n     ".toList ++ "\x7b".toList)))

/-- The text between the braces of the block. -/
def innerChars : List Char :=
  "\n       ".toList ++ ('(' :: rangeChars x.name x.low x.high ++ [')']) ++ ";\n     ".toList

theorem flatMap_blockLines : x.blockLines.flatMap (· ++ ['\n']) =
    "   ".toList ++ (x.headChars ++ (x.innerChars ++ '\x7d' :: ['\n', '\n'])) := by
  unfold blockLines headLine boundsLine headChars innerChars
  simp

theorem closed_innerChars : Closed x.innerChars := by
  have hrange : Closed (rangeChars x.name x.low x.high) := by
    refine closed_of_forall fun c hc hmem => ?_
    simp only [delimiters, mem_cons, not_mem_nil, or_false] at hmem
    rcases hmem with rfl | rfl | rfl | rfl <;>
      exact not_mem_rangeChars (by decide) (by decide) (by decide) x.name x.low x.high hc
  exact .append (.append (closed_of_forall (by decide)) (.paren hrange)) (closed_of_forall (by decide))

/-- The block as one that is read. -/
def block : ConstraintText where
  gap := " ".toList
  name := "CR_VAR_RANGE_".toList ++ x.name.chars
  space := "\n     ".toList
  body := x.innerChars
  gap_ne_nil := by decide
  blank_gap := by decide
  name_ne_nil := by simp
  word_name := forall_mem_append.2 ⟨by decide, x.name.plain.isWord.chars⟩
  blank_space := by decide
  balanced := balancedFrom_of_closing? (by decide) (closing?_closed (.inr ⟨rfl, rfl⟩) x.closed_innerChars [])

theorem trim_condition : Trim x.condition := by
  have htrim : Trim ('(' :: (rangeChars x.name x.low x.high ++ [')']) ++ [';']) :=
    trim_of_ends (by decide) (by decide)
  simpa [condition] using htrim

theorem strip_innerChars : strip (String.ofList x.innerChars) = String.ofList x.condition := by
  have hpad : x.innerChars = "\n       ".toList ++ x.condition ++ "\n     ".toList := by
    unfold innerChars condition
    simp
  rw [hpad, strip_append (by decide) x.trim_condition (by decide)]

end Item

theorem bodies_readConstraintsFrom {u e : List Char} (hu : Skips constraintHead u)
    (he : Lacks constraintHead e) (items : List Item) {fuel : Nat} (hfuel : items.length < fuel) :
    (readConstraintsFrom fuel (u ++ (blockChars items ++ e))).map Constraint.body =
      items.map fun x => String.ofList x.condition := by
  induction items generalizing u fuel with
  | nil =>
    obtain ⟨fuel, rfl⟩ : ∃ n, fuel = n + 1 := ⟨fuel - 1, by simp at hfuel; omega⟩
    have hnone : searchFrom constraintHead [] 0 (u ++ e) = none := by
      rw [hu.searchFrom, searchFrom_of_none he]
    simp [readConstraintsFrom, blockChars, hnone]
  | cons x items ih =>
    obtain ⟨fuel, rfl⟩ : ∃ n, fuel = n + 1 := ⟨fuel - 1, by simp at hfuel; omega⟩
    have hindent : Skips constraintHead (u ++ "   ".toList) :=
      hu.append (opens_constraintHead.skips_fixed (by decide))
    have hnewlines : Skips constraintHead ['\n', '\n'] :=
      opens_constraintHead.skips_fixed (by decide)
    have hcut : u ++ (blockChars (x :: items) ++ e) = (u ++ "   ".toList) ++ (x.block.head ++
        (x.block.body ++ '\x7d' :: (['\n', '\n'] ++ (blockChars items ++ e)))) := by
      rw [blockChars, flatMap_cons, x.flatMap_blockLines, show x.block.head = x.headChars from rfl,
        show x.block.body = x.innerChars from rfl]
      simp [blockChars]
    rw [hcut, readConstraintsFrom_block x.block fuel fun a b => hindent a b _, map_cons,
      ih hnewlines (by simpa using hfuel), map_cons]
    exact congrArg (· :: _) x.strip_innerChars

end Stimulus.Register
