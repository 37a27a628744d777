import Stimulus.Proofs.Outcome
import Stimulus.Proofs.Register.ClassText
import Stimulus.Proofs.Sv.Comment
import Stimulus.Proofs.Text.Lines
import Stimulus.Sv.FieldDecl

/-!
# The fields of a class of bounded fields

The declarations stand before the first block. What is left of the blocks and of the list of fields
is no declaration.
-/

open List hiding contains contains_iff splitOn
open String (ofList toList_ofList)

namespace Stimulus

namespace Sv

open Text

/-- What is read of a line that holds no mark of other statements. -/
def lineFields (line : String) : Outcome (List Field) :=
  match bitFields.atStart? line with
  | some m => Field.ofBitFields m
  | none =>
    match intFields.atStart? line with
    | some m => .ok (Field.ofIntFields m)
    | none => Field.ofDeclaration line

/-- A statement is read as its line without blanks around it. -/
theorem ofStatement_eq {b cs : List Char} (hb : Blank b) (htrim : Trim cs) (hne : cs ≠ [])
    (hslash : '/' ∉ cs) : Field.ofStatement (ofList (b ++ cs)) =
      if ∃ mark ∈ nonFieldMarks, mark.toList <:+: cs then .ok [] else lineFields (ofList cs) := by
  have hslash : '/' ∉ b ++ cs := by
    rw [mem_append, not_or]
    exact ⟨fun hmem => absurd (hb _ hmem) (by decide), hslash⟩
  have hline : strip (dropLineComments (ofList (b ++ cs))) = ofList cs := by
    rw [dropLineComments_of_not_mem hslash, strip_left hb htrim]
  have hempty : (ofList cs).isEmpty = false := by
    rw [Bool.eq_false_iff, Ne, String.isEmpty_iff]
    exact fun h => hne (String.ofList_eq_empty_iff.1 h)
  have hmarks : (nonFieldMarks.any fun mark => contains mark (ofList cs)) =
      decide (∃ mark ∈ nonFieldMarks, mark.toList <:+: cs) := by
    rw [Bool.eq_iff_iff, decide_eq_true_iff]
    simp only [any_eq_true, contains_iff, toList_ofList]
  unfold Field.ofStatement
  simp only [hline, hempty, Bool.false_or, hmarks, decide_eq_true_eq]
  rfl

theorem linesOutside_pass {line : String} (h : opensBlock (strip line) = false) (rest : List String) :
    linesOutside none (line :: rest) = line :: linesOutside none rest := by
  simp [linesOutside, h]

theorem linesOutside_append {lines : List String} (h : ∀ l ∈ lines, opensBlock (strip l) = false)
    (rest : List String) : linesOutside none (lines ++ rest) = lines ++ linesOutside none rest := by
  induction lines with
  | nil => rfl
  | cons l lines ih =>
    obtain ⟨hl, hlines⟩ := forall_mem_cons.1 h
    rw [cons_append, linesOutside_pass hl, ih hlines, cons_append]

end Sv

namespace Register

open Pattern Text Sv

variable {cs : List Char} {p q : Pattern}

/-! ## Lines outside blocks -/

theorem opensBlock_eq_false
    (h : ∀ c ∈ cs.head?, isBlank c = false ∧ c ∉ ['c', 'f', 't']) :
    opensBlock (ofList cs) = false := by
  have hkeyword {kw : String} (hkw : ∃ c r, kw.toList = c :: r ∧ c ∈ ['c', 'f', 't']) :
      (blanks ++ lit kw ++ blanks1 ++ word).fitsStart (ofList cs) = false := by
    refine fitsStart_eq_false ?_
    rintro w ⟨_, _, rfl, ⟨_, _, rfl, ⟨bl, _, rfl, hbl, rfl⟩, -⟩, -⟩ ⟨t, ht⟩
    obtain ⟨c, r, hkw, hc⟩ := hkw
    rw [← ht] at h
    cases bl with
    | nil => exact (h c (by simp [hkw])).2 hc
    | cons d bl =>
      have := (h d (by simp)).1
      rw [hbl.1 d (by simp)] at this
      cases this
  simp only [opensBlock, any_cons, any_nil, Bool.or_false, Bool.or_eq_false_iff]
  exact ⟨hkeyword ⟨'c', _, rfl, by decide⟩, hkeyword ⟨'f', _, rfl, by decide⟩,
    hkeyword ⟨'t', _, rfl, by decide⟩⟩

theorem count_of_not_mem {c : Char} {l : String} (hl : l.toList = [c]) (h : c ∉ cs) :
    Text.count l (ofList cs) = 0 := by
  rw [Text.count, hl, toList_ofList, splitAux_of_not_mem h]
  rfl

theorem linesOutside_inside {depth? : Option Int} {depth : Int} {opened closed : Nat} {closes : Bool}
    {line : String}
    (hdepth : (if depth?.isNone && opensBlock (strip line) then some 0 else depth?) = some depth)
    (hopened : Text.count "\x7b" (strip line) = opened)
    (hclosed : Text.count "\x7d" (strip line) = closed)
    (hcloses : mayCloseBlock (strip line) = closes) (rest : List String) :
    linesOutside depth? (line :: rest) =
      linesOutside (if depth + opened - closed ≤ 0 ∧ closes = true then none
        else some (depth + opened - closed)) rest := by
  rw [linesOutside]
  simp only [hdepth, hopened, hclosed, hcloses]
  simp only [Bool.and_eq_true, decide_eq_true_eq]

namespace Item

variable (x : Item)

theorem strip_headLine :
    strip (ofList x.headLine) = ofList ("constraint CR_VAR_RANGE_".toList ++ x.name.chars) := by
  have htrim : Trim ("constraint CR_VAR_RANGE_".toList ++ x.name.chars) := by
    refine ⟨by simp; decide, fun c hc => ?_⟩
    rw [getLast?_append_of_ne_nil _ x.name.plain.ne_nil] at hc
    exact x.name.plain.trim.last c hc
  have hpad : x.headLine = "   ".toList ++ ("constraint CR_VAR_RANGE_".toList ++ x.name.chars) := by
    unfold headLine
    simp
  rw [hpad, strip_left (by decide) htrim]

theorem opensBlock_headLine : opensBlock (strip (ofList x.headLine)) = true := by
  have hname : IsPlain ("CR_VAR_RANGE_".toList ++ x.name.chars) :=
    ⟨by simp, forall_mem_append.2 ⟨by decide, x.name.plain.chars⟩⟩
  have hreads : Reads (blanks ++ (lit "constraint" ++ (blanks1 ++ word))) [] []
      ([] ++ ("constraint".toList ++ (" ".toList ++ ("CR_VAR_RANGE_".toList ++ x.name.chars)))) [] [] := by
    exact (reads_blanks blank_nil (by simp; decide)).seq (reads_lit.seq
      ((reads_run (by decide) (head_word hname.isWord) (by decide)).seq
        (reads_word hname.isWord (by simp))))
  obtain ⟨m, hm, -⟩ := hreads.atStart?
  have hfits : (blanks ++ lit "constraint" ++ blanks1 ++ word).fitsStart
      (ofList ("constraint CR_VAR_RANGE_".toList ++ x.name.chars)) = true := by
    have hcut : "constraint CR_VAR_RANGE_".toList ++ x.name.chars = [] ++ ("constraint".toList ++
        (" ".toList ++ ("CR_VAR_RANGE_".toList ++ x.name.chars))) ++ [] := by simp
    rw [fitsStart, Option.isSome_iff_exists, hcut]
    exact ⟨m, hm⟩
  rw [strip_headLine, opensBlock, any_cons, hfits, Bool.true_or]

theorem mayCloseBlock_headLine (h : contains "endfunction" x.name.name = false) :
    mayCloseBlock (strip (ofList x.headLine)) = contains "endtask" x.name.name := by
  have hbrace : contains "\x7d" (strip (ofList x.headLine)) = false := by
    rw [contains_eq_false_iff, strip_headLine, toList_ofList]
    intro hin
    have := hin.subset (show '\x7d' ∈ "\x7d".toList by decide)
    simp [x.name.plain.not_mem (c := '\x7d') (by decide)] at this
  have hword {w : String} (hw : shunsCheck w.toList "constraint CR_VAR_RANGE_".toList = true) :
      contains w (strip (ofList x.headLine)) = contains w x.name.name := by
    rw [Bool.eq_iff_iff, contains_iff, contains_iff, strip_headLine, toList_ofList,
      (shuns_of_check hw).infix_iff, Label.name, toList_ofList]
  simp [mayCloseBlock, hbrace, hword (w := "endfunction") (by decide),
    hword (w := "endtask") (by decide), h]

/-- What is left of the block: its head may end with a word that closes blocks. -/
def leftLines : List (List Char) :=
  if contains "endtask" x.name.name then ["     \x7b".toList, x.boundsLine, "     \x7d".toList, []]
  else [[]]

theorem strip_boundsLine : strip (ofList x.boundsLine) = ofList x.condition := by
  have hpad : x.boundsLine = "       ".toList ++ x.condition := by
    unfold boundsLine condition
    simp
  rw [hpad, strip_left (by decide) x.trim_condition]

theorem opensBlock_boundsLine : opensBlock (strip (ofList x.boundsLine)) = false := by
  rw [strip_boundsLine]
  exact opensBlock_eq_false (by simp [condition]; decide)

theorem linesOutside_block (h : contains "endfunction" x.name.name = false) (rest : List String) :
    linesOutside none (x.blockLines.map ofList ++ rest) =
      x.leftLines.map ofList ++ linesOutside none rest := by
  have hcount {c : Char} {l : String} (hl : l.toList = [c]) (hc : c ∈ ['\x7b', '\x7d']) :
      Text.count l (strip (ofList x.headLine)) = 0 ∧
        Text.count l (strip (ofList x.boundsLine)) = 0 := by
    have hname : c ∉ x.name.chars ∧ c ∉ rangeChars x.name x.low x.high ∧
        c ∉ "constraint CR_VAR_RANGE_();".toList := by
      rcases mem_pair.1 hc with rfl | rfl <;> exact ⟨x.name.plain.not_mem (by decide),
        not_mem_rangeChars (by decide) (by decide) (by decide) x.name x.low x.high, by decide⟩
    rw [strip_headLine, strip_boundsLine]
    exact ⟨count_of_not_mem hl (by simp_all), count_of_not_mem hl (by simp_all [condition])⟩
  have hhead (rest : List String) : linesOutside none (ofList x.headLine :: rest) =
      linesOutside (if contains "endtask" x.name.name then none else some 0) rest := by
    rw [linesOutside_inside (by rw [opensBlock_headLine]; rfl) (hcount rfl (by decide)).1
      (hcount rfl (by decide)).1 (x.mayCloseBlock_headLine h)]
    simp
  rw [blockLines, map_cons, cons_append, hhead, leftLines]
  split
  · -- The rest of the block stands outside.
    simp only [map_cons, map_nil, cons_append, nil_append]
    rw [linesOutside_pass (by decide), linesOutside_pass x.opensBlock_boundsLine,
      linesOutside_pass (by decide), linesOutside_pass (by decide)]
  · have hbrace (rest : List String) : linesOutside (some 0)
        (ofList "     \x7b".toList :: rest) = linesOutside (some 1) rest := by
      rw [linesOutside_inside rfl (show _ = 1 by decide +kernel) (show _ = 0 by decide +kernel) rfl]
      simp
    have hbounds (rest : List String) : linesOutside (some 1) (ofList x.boundsLine :: rest) =
        linesOutside (some 1) rest := by
      rw [linesOutside_inside rfl (hcount rfl (by decide)).2 (hcount rfl (by decide)).2 rfl]
      simp
    have hlast (rest : List String) : linesOutside (some 1)
        (ofList "     \x7d".toList :: rest) = linesOutside none rest := by
      rw [linesOutside_inside rfl (show _ = 0 by decide +kernel) (show _ = 1 by decide +kernel)
        (show _ = true by decide)]
      simp
    simp only [map_cons, map_nil, cons_append, nil_append]
    rw [hbrace, hbounds, hlast, linesOutside_pass (by decide)]

end Item

/-! ## Texts that declare nothing -/

/-- The text starts with no word, blanks apart, and holds no comment. -/
structure Calm (cs : List Char) : Prop where
  head : ∀ c ∈ (cs.dropWhile isBlank).head?, isWordChar c = false
  slash : '/' ∉ cs

theorem Calm.append {u v : List Char} (hu : Calm u) (hv : Calm v) : Calm (u ++ v) := by
  refine ⟨?_, by simp [hu.slash, hv.slash]⟩
  cases hdrop : u.dropWhile isBlank with
  | nil =>
    have hblank : Blank u := dropWhile_eq_nil_iff.1 hdrop
    rw [dropWhile_blank_append hblank]
    exact hv.head
  | cons c r =>
    rw [dropWhile_append, hdrop]
    simpa [hdrop] using hu.head

/-- The text starts with a word, blanks apart. -/
def Wordy (t : List Char) : Prop := ∃ b c r, t = b ++ c :: r ∧ Blank b ∧ isWordChar c = true

theorem Calm.atStart? (h : Calm cs) (hp : ∀ t, Spells p t → Wordy t) :
    p.atStart? (ofList cs) = none := by
  refine atStart?_eq_none fun t ht hpre => ?_
  obtain ⟨b, c, r, rfl, hb, hc⟩ := hp t ht
  obtain ⟨z, rfl⟩ := hpre
  have hhead := h.head c
  rw [append_assoc, dropWhile_gap hb (by simpa using isBlank_of_isWordChar hc)] at hhead
  rw [hhead rfl] at hc
  cases hc

theorem wordy_of_mode (hq : ∀ t, Spells q t → Wordy t) (t : List Char)
    (h : Spells (first ++ blanks ++ modeKeyword ++ blanks ++ q) t) : Wordy t := by
  obtain ⟨_, t, rfl, ⟨_, b', rfl, ⟨_, m, rfl, ⟨_, b, rfl, rfl, hb⟩, hm⟩, hb'⟩, ht⟩ := h
  obtain ⟨b'', c, r, rfl, hb'', hc⟩ := hq t ht
  rcases hm with (hm | hm) | hm
  · exact ⟨b, 'r', "and".toList ++ (b' ++ (b'' ++ c :: r)), by simp [show m = _ from hm], hb.1,
      by decide⟩
  · exact ⟨b, 'r', "andc".toList ++ (b' ++ (b'' ++ c :: r)), by simp [show m = _ from hm], hb.1,
      by decide⟩
  · obtain rfl : m = [] := hm
    refine ⟨b ++ (b' ++ b''), c, r, by simp, ?_, hc⟩
    exact forall_mem_append.2 ⟨hb.1, forall_mem_append.2 ⟨hb'.1, hb''⟩⟩

theorem Wordy.append {u : List Char} (h : Wordy u) (v : List Char) : Wordy (u ++ v) := by
  obtain ⟨b, c, r, rfl, hb, hc⟩ := h
  exact ⟨b, c, r ++ v, by simp, hb, hc⟩

theorem wordy_seq (hp : ∀ t, Spells p t → Wordy t) (t : List Char)
    (h : Spells (p ++ q) t) : Wordy t := by
  obtain ⟨u, v, rfl, hu, -⟩ := h
  exact (hp u hu).append v

theorem wordy_lit {l : String} (h : ∃ c r, l.toList = c :: r ∧ isWordChar c = true) (t : List Char)
    (ht : Spells (lit l) t) : Wordy t := by
  obtain ⟨c, r, hl, hc⟩ := h
  exact ⟨[], c, r, ht.trans hl, blank_nil, hc⟩

theorem wordy_alt (hp : ∀ t, Spells p t → Wordy t) (hq : ∀ t, Spells q t → Wordy t)
    (t : List Char) (h : Spells (p <|> q) t) : Wordy t := h.elim (hp t) (hq t)

theorem wordy_declarations
    (h : p ∈ [bitFields, intFields, bitField, intField, enumField]) (t : List Char)
    (ht : Spells p t) : Wordy t := by
  have hbit : ∀ t, Spells (first ++ blanks ++ modeKeyword ++ blanks ++ bitType) t → Wordy t :=
    wordy_of_mode (wordy_alt (wordy_lit ⟨'b', _, rfl, by decide⟩) (wordy_lit ⟨'l', _, rfl, by decide⟩))
  have hint : ∀ t, Spells (first ++ blanks ++ modeKeyword ++ blanks ++ intType) t → Wordy t :=
    wordy_of_mode (wordy_alt (wordy_lit ⟨'i', _, rfl, by decide⟩) (wordy_alt
      (wordy_lit ⟨'b', _, rfl, by decide⟩) (wordy_alt (wordy_lit ⟨'s', _, rfl, by decide⟩)
        (wordy_lit ⟨'l', _, rfl, by decide⟩))))
  have henum : ∀ t, Spells (first ++ blanks ++ modeKeyword ++ blanks ++
      group 2 (word ++ lit "_" ++ oneOf "et")) t → Wordy t := by
    refine wordy_of_mode (wordy_seq (wordy_seq fun t ht => ?_))
    obtain ⟨c, r, rfl, hc, -⟩ := spells_word ht
    exact ⟨[], c, r, rfl, blank_nil, hc⟩
  simp only [mem_cons, not_mem_nil, or_false] at h
  rcases h with rfl | rfl | rfl | rfl | rfl <;> revert t
  · iterate 9 refine wordy_seq ?_
    exact hbit
  · iterate 7 refine wordy_seq ?_
    exact hint
  · iterate 11 refine wordy_seq ?_
    exact hbit
  · iterate 6 refine wordy_seq ?_
    exact hint
  · iterate 4 refine wordy_seq ?_
    exact henum

theorem Calm.strip (h : Calm cs) : Calm (dropEnds isBlank cs) := by
  have hpre := dropEnds_prefix isBlank cs
  refine ⟨fun c hc => h.head c ?_, fun hmem => h.slash ?_⟩
  · rw [dropWhile_of_head (trim_dropEnds cs).head] at hc
    obtain ⟨z, hz⟩ := hpre
    rw [← hz, head?_append_of_ne_nil _ (by rintro h0; simp [h0] at hc)]
    exact hc
  · exact (dropWhile_suffix isBlank).subset (hpre.subset hmem)

theorem Calm.ofStatement (h : Calm cs) :
    Field.ofStatement (ofList cs) = .ok [] := by
  have hnone {p : Pattern} (hp : p ∈ [bitFields, intFields, bitField, intField, enumField]) :
      p.atStart? (ofList (dropEnds isBlank cs)) = none :=
    h.strip.atStart? (wordy_declarations hp)
  have hsingle : Field.ofDeclaration (ofList (dropEnds isBlank cs)) = .ok [] := by
    simp [Field.ofDeclaration, fieldPatterns, hnone]
    rfl
  have hline : Text.strip (dropLineComments (ofList cs)) = ofList (dropEnds isBlank cs) := by
    rw [dropLineComments_of_not_mem h.slash, Text.strip, toList_ofList]
  unfold Field.ofStatement
  simp only [hline, hnone (p := bitFields) (by simp), hnone (p := intFields) (by simp), hsingle]
  split <;> rfl

/-! ## Pieces between semicolons -/

/-- A line that is calm, up to a semicolon at its end. -/
def Quiet (l : List Char) : Prop := ∃ body, Calm body ∧ ';' ∉ body ∧ (l = body ∨ l = body ++ [';'])

theorem calm_newline {l : List Char} (h : Calm l) : Calm ('\n' :: l) :=
  Calm.append (u := ['\n']) ⟨by simp [isBlank], by simp⟩ h

theorem calm_of_mem_splitAux {u piece : List Char} {ls : List (List Char)} (hu : Calm u)
    (hsemi : ';' ∉ u) (hls : ∀ l ∈ ls, Quiet l) (h : piece ∈ splitAux [';'] [] (u ++ lined ls)) :
    Calm piece := by
  induction ls generalizing u with
  | nil =>
    rw [lined, flatMap_nil, append_nil, splitAux_of_not_mem hsemi] at h
    obtain rfl : piece = u := by simpa using h
    exact hu
  | cons l ls ih =>
    obtain ⟨⟨body, hbody, hsemi', hl⟩, hrest⟩ := forall_mem_cons.1 hls
    have hfront : Calm (u ++ '\n' :: body) := hu.append (calm_newline hbody)
    have hsemi'' : ';' ∉ u ++ '\n' :: body := by simp [hsemi, hsemi']
    rcases hl with rfl | rfl
    · exact ih hfront hsemi'' hrest (by simpa [lined_cons] using h)
    · have hcut : u ++ lined ((body ++ [';']) :: ls) = (u ++ '\n' :: body) ++ ';' :: lined ls := by
        simp [lined_cons]
      rw [hcut, splitAux_append_cons hsemi''] at h
      rcases mem_cons.1 h with h | h
      · obtain rfl : piece = u ++ '\n' :: body := by simpa using h
        exact hfront
      · exact ih (u := []) ⟨by simp, by simp⟩ (by simp) hrest h

/-! ## Declarations -/

/-- Words that a name must not hold, since declarations with them are passed over. -/
def blockers : List String := ["endclass", "foreach", "unique", "endfunction", "else", "return"]

/-- A name that a field may have and that holds none of the words that hide a declaration. -/
def Usable (n : Label) : Prop :=
  isFieldName n.name = true ∧ ∀ w ∈ blockers, contains w n.name = false

instance (n : Label) : Decidable (Usable n) := inferInstanceAs (Decidable (_ ∧ _))

/-- The type of a declaration, up to its width. -/
def kindChars (signed : Bool) : List Char :=
  if signed then "rand bit signed ".toList else "rand bit ".toList

namespace Item

variable (x : Item)

/-- The declaration without the blank before it and the semicolon after it. -/
def declChars : List Char := kindChars x.signed ++ ("[31:0] ".toList ++ x.name.chars)

theorem declarationLine_eq : x.declarationLine = ' ' :: (x.declChars ++ [';']) := by
  unfold declarationLine declChars typeChars kindChars
  cases x.signed <;> simp

/-- The field that the declaration gives. -/
def field : Field where
  name := x.name.name
  width := 32
  mode := .rand
  source := ofList x.declChars ++ ";"
  dataType := .bit
  signed := x.signed

theorem trim_declChars : Trim x.declChars := by
  refine ⟨?_, fun c hc => ?_⟩
  · unfold declChars kindChars
    cases x.signed <;> simp <;> decide
  · unfold declChars at hc
    rw [getLast?_append_of_ne_nil _ (by simp), getLast?_append_of_ne_nil _ x.name.plain.ne_nil] at hc
    exact x.name.plain.trim.last c hc

theorem not_mem_declChars {c : Char} (hname : nameTail c = false)
    (hfixed : c ∉ "[31:0] ".toList) : c ∉ x.declChars := by
  have hkind (signed : Bool) : ∀ c ∈ kindChars signed, nameTail c = true ∨ c = ' ' := by
    cases signed <;> decide
  intro hmem
  rw [declChars, mem_append, mem_append] at hmem
  rcases hmem with hmem | hmem | hmem
  · rcases hkind x.signed c hmem with h | rfl
    · rw [h] at hname
      cases hname
    · exact hfixed (by decide)
  · exact hfixed hmem
  · exact x.name.plain.not_mem hname hmem

theorem reads_fieldName (before : List Char) (kept : List (Nat × List Char)) :
    Reads (blanks ++ (group 5 word ++ (blanks ++
      (opt ((lit "[" ++ group 6 digits ++ lit "]") <|> lit "[]") ++ (blanks ++ last))))) before kept
      (" ".toList ++ (x.name.chars ++ ([] ++ ([] ++ ([] ++ []))))) [] ((5, x.name.chars) :: kept) := by
  have hnone (s : Spot) (hs : s.after = []) {l : String} (hl : l.toList ≠ []) : Fails (lit l) s :=
    fails_lit fun hpre => hl (prefix_nil.1 (hs ▸ hpre))
  refine (reads_blanks (by decide) ?_).seq (((reads_word x.name.plain.isWord (by simp)).group 5).seq
    ((reads_blanks blank_nil (by simp)).seq ((reads_opt_none fun s hs => ?_).seq
      ((reads_blanks blank_nil (by simp)).seq reads_last))))
  · rw [append_assoc]
    exact head_word x.name.plain.isWord
  · exact ((hnone s hs (by decide)).seq.seq).either (hnone s hs (by decide))

theorem reads_bitField : Reads bitField [] [] x.declChars []
    ((5, x.name.chars) :: (4, "31".toList) ::
      ((if x.signed then [(3, "signed".toList)] else []) ++ [(2, "bit".toList), (1, "rand".toList)])) := by
  have hrange {before z : List Char} {kept : List (Nat × List Char)} :
      Reads bitRange before kept ("[".toList ++ "31".toList ++ ":0]".toList) z ((4, "31".toList) :: kept) :=
    ((reads_lit.seq ((reads_run (by decide) (by simp; decide) (by decide)).group 4)).seq reads_lit).opt
  have hfront {z : List Char} (hz : ∀ c ∈ z.head?, isBlank c = false) :
      Reads (first ++ (blanks ++ (modeKeyword ++ (blanks ++ (bitType ++ (edge ++ blanks)))))) [] []
        ([] ++ ([] ++ ("rand".toList ++ (" ".toList ++ ("bit".toList ++ ([] ++ " ".toList)))))) z
        [(2, "bit".toList), (1, "rand".toList)] := by
    refine reads_first.seq ((reads_blanks blank_nil (by simp; decide)).seq
      (((reads_lit.alt.group 1).opt).seq ((reads_blanks (by decide) (by simp; decide)).seq
        ((reads_lit.alt.group 2).seq ((reads_edge (by simp; decide) (by simp [Bounded]; decide)).seq
          (reads_blanks (by decide) hz))))))
  show Reads (first ++ (blanks ++ (modeKeyword ++ (blanks ++ (bitType ++ (edge ++ blanks))))) ++
    (opt (group 3 (lit "signed")) ++ (blanks ++ (bitRange ++ (blanks ++ (group 5 word ++ (blanks ++
      (opt ((lit "[" ++ group 6 digits ++ lit "]") <|> lit "[]") ++ (blanks ++ last))))))))) _ _ _ _ _
  have hcut : x.declChars = ([] ++ ([] ++ ("rand".toList ++ (" ".toList ++ ("bit".toList ++ ([] ++
      " ".toList)))))) ++ ((if x.signed then "signed".toList else []) ++
        ((if x.signed then " ".toList else []) ++ (("[".toList ++ "31".toList ++ ":0]".toList) ++
          (" ".toList ++ (x.name.chars ++ ([] ++ ([] ++ ([] ++ [])))))))) := by
    cases hsigned : x.signed <;> simp [declChars, kindChars, hsigned]
  rw [hcut]
  cases x.signed with
  | false =>
    refine (hfront (by simp; decide)).seq ((reads_opt_none fun s hs => ?_).seq
      ((reads_blanks blank_nil (by simp; decide)).seq (hrange.seq (x.reads_fieldName _ _))))
    refine (fails_lit fun hpre => ?_).group 3
    rw [hs] at hpre
    simp at hpre
  | true =>
    exact (hfront (by simp; decide)).seq ((reads_lit.group 3).opt.seq
      ((reads_blanks (by decide) (by simp; decide)).seq (hrange.seq (x.reads_fieldName _ _))))

/-- No mark of other statements stands in the declaration: those that end with a blank would have to
stand before the name, and the others before it or in it. -/
theorem marks_declChars (h : Usable x.name) :
    ¬ ∃ mark ∈ nonFieldMarks, mark.toList <:+: x.declChars := by
  have hfront (signed : Bool) : ∀ mark ∈ nonFieldMarks,
      ¬ mark.toList <:+: kindChars signed ++ "[31:0] ".toList := by
    cases signed <;> decide +kernel
  have hkinds : ∀ mark ∈ nonFieldMarks, mark.toList.getLast? = some ' ' ∨ (' ' ∉ mark.toList ∧
      (mark ∈ blockers ∨ (mark.toList.any fun c => !nameTail c) = true)) := by decide
  have hblank : ' ' ∉ x.name.chars := x.name.plain.not_mem (by decide)
  rintro ⟨mark, hmark, hin⟩
  rcases hkinds mark hmark with hlast | ⟨hno, hother⟩
  · obtain ⟨w, hw⟩ := getLast?_eq_some_iff.1 hlast
    refine hfront x.signed mark hmark ?_
    rw [declChars, ← append_assoc] at hin
    rw [hw] at hin ⊢
    exact infix_of_infix_append hblank hin
  · have hcut : x.declChars = (kindChars x.signed ++ "[31:0]".toList) ++ ' ' :: x.name.chars := by
      simp [declChars]
    rw [hcut] at hin
    rcases infix_append_cons hno hin with hin | hin
    · refine hfront x.signed mark hmark (hin.trans ⟨[], [' '], by simp⟩)
    · rcases hother with hmem | hany
      · have := h.2 mark hmem
        rw [contains_eq_false_iff, Label.name, toList_ofList] at this
        exact this hin
      · obtain ⟨c, hc, hplain⟩ := any_eq_true.1 hany
        exact x.name.plain.not_mem (by simpa using hplain) (hin.subset hc)

theorem dynamic_declChars : contains "[]" (ofList x.declChars ++ ";") = false := by
  have hfront (signed : Bool) :
      Shuns "[]".toList (kindChars signed ++ "[31:0] ".toList) := by
    cases signed <;> exact shuns_of_check (by decide)
  have hback : Shuns ('[' :: [']']) (x.name.chars ++ [';']) :=
    shuns_of_not_mem (by simp [x.name.plain.not_mem (c := '[') (by decide)])
  have hcut : (ofList x.declChars ++ ";").toList =
      kindChars x.signed ++ "[31:0] ".toList ++ (x.name.chars ++ [';']) := by
    simp [declChars]
  rw [contains_eq_false_iff, hcut]
  exact ((hfront x.signed).append hback).absent (by decide)

theorem ofDeclaration_declChars (h : Usable x.name) :
    Field.ofDeclaration (ofList x.declChars) = .ok [x.field] := by
  obtain ⟨m, hm, hpieces⟩ := x.reads_bitField.atStart?
  rw [append_nil] at hm
  have hgroups : (List.range 6).map (fun i => m.group? (i + 1)) = [some "rand", some "bit",
      if x.signed then some "signed" else none, some "31", some x.name.name, none] := by
    cases hsigned : x.signed <;>
      simp [List.range, List.range.loop, Match.group?_eq, hpieces, hsigned, Label.name]
  have hwidth : Text.integer "31" = .ok 31 := by decide
  have hfilled : Option.filter (fun s : String => !s.isEmpty) (some "31") = some "31" := by
    decide
  have hshape : FieldShape.ofPieces ((List.range 6).map fun i => m.group? (i + 1))
      (ofList x.declChars ++ ";") =
      .ok (some (some x.name.name, x.field.toFieldShape)) := by
    rw [hgroups]
    simp only [FieldShape.ofPieces, bitShape, filledPiece, pieceAt]
    simp only [length_cons, length_nil, getElem?_cons_succ, getElem?_cons_zero,
      Option.join_some, hfilled, hwidth, x.dynamic_declChars]
    cases hsigned : x.signed <;> simp [field, hsigned] <;> rfl
  unfold Field.ofDeclaration
  simp only [fieldPatterns, findSome?_cons, hm, Option.map_some, hshape]
  simp only [Outcome.ok_bind, h.1]
  rfl

theorem ofStatement_declaration (h : Usable x.name) {b : List Char} (hb : Blank b) :
    Field.ofStatement (ofList (b ++ x.declChars)) = .ok [x.field] := by
  have hcomma : ',' ∉ x.declChars := x.not_mem_declChars (by decide) (by decide)
  have hlist (n : Nat) : Needs (group n wordList) ',' :=
    ((needs_lit (by decide)).right.left.left).right.left
  have hbits : bitFields.atStart? (ofList x.declChars) = none :=
    atStart?_of_needs ((hlist 5).right.left.left) hcomma
  have hints : intFields.atStart? (ofList x.declChars) = none :=
    atStart?_of_needs ((hlist 4).right.left.left) hcomma
  rw [ofStatement_eq hb x.trim_declChars (by simp [declChars])
    (x.not_mem_declChars (by decide) (by decide)), if_neg (x.marks_declChars h), lineFields, hbits,
    hints]
  exact x.ofDeclaration_declChars h

end Item

/-! ## All fields of a class -/

theorem opensBlock_frontLines {items : List Item} {l : List Char} (h : l ∈ frontLines items) :
    opensBlock (strip (ofList l)) = false := by
  rw [frontLines, mem_cons, mem_append, mem_singleton, mem_map] at h
  rcases h with rfl | ⟨x, -, rfl⟩ | rfl
  · decide
  · have htrim : Trim (x.declChars ++ [';']) := by
      refine ⟨fun c hc => x.trim_declChars.head c ?_, by simp; decide⟩
      rwa [head?_append_of_ne_nil _ (by simp [Item.declChars])] at hc
    have hstrip : strip (ofList x.declarationLine) = ofList (x.declChars ++ [';']) := by
      rw [x.declarationLine_eq]
      exact strip_left (a := [' ']) (by decide) htrim
    rw [hstrip]
    refine opensBlock_eq_false ?_
    unfold Item.declChars kindChars
    cases x.signed <;> simp <;> decide
  · decide

theorem mapM_ofStatement {items : List Item} (hitems : ∀ x ∈ items, Usable x.name)
    {left : List (List Char)} (hleft : ∀ l ∈ left, Quiet l) {b : List Char} (hb : Blank b)
    (hsemi : ';' ∉ b) :
    ((splitAux [';'] [] (b ++ (lined (items.map Item.declarationLine) ++ lined left))).map
      ofList).mapM Field.ofStatement >>= (fun fields => .ok fields.flatten) =
      (.ok (items.map Item.field) : Outcome (List Field)) := by
  have hslash {b : List Char} (hb : Blank b) : '/' ∉ b := fun hmem => by simpa [isBlank] using hb _ hmem
  induction items generalizing b with
  | nil =>
    have hcalm : Calm b := by
      refine ⟨?_, hslash hb⟩
      simp [dropWhile_eq_nil_iff.2 hb]
    have hall : ∀ s ∈ (splitAux [';'] [] (b ++ lined left)).map ofList,
        Field.ofStatement s = .ok ((fun _ => []) s) := by
      intro s hs
      obtain ⟨piece, hpiece, rfl⟩ := mem_map.1 hs
      exact (calm_of_mem_splitAux hcalm hsemi hleft hpiece).ofStatement
    rw [map_nil, lined, flatMap_nil, nil_append, Outcome.mapM_ok hall,
      Outcome.ok_bind]
    simp
  | cons x items ih =>
    obtain ⟨hx, hitems⟩ := forall_mem_cons.1 hitems
    have hblank : Blank (b ++ ['\n', ' ']) := forall_mem_append.2 ⟨hb, by decide⟩
    have hfirst : ';' ∉ (b ++ ['\n', ' ']) ++ x.declChars := by
      simp [hsemi, x.not_mem_declChars (c := ';') (by decide) (by decide)]
    have hcut : b ++ (lined ((x :: items).map Item.declarationLine) ++ lined left) =
        ((b ++ ['\n', ' ']) ++ x.declChars) ++ ';' ::
          ([] ++ (lined (items.map Item.declarationLine) ++ lined left)) := by
      simp [lined_cons, x.declarationLine_eq]
    have hrest := ih hitems (b := []) blank_nil (by simp)
    obtain ⟨fields, hfields, hflat⟩ := Outcome.bind_eq_ok.1 hrest
    rw [hcut, splitAux_append_cons hfirst, map_cons, mapM_cons, reverse_nil,
      nil_append, x.ofStatement_declaration hx hblank, Outcome.ok_bind, hfields]
    rw [Except.ok.injEq] at hflat
    simp [← hflat]

theorem readFields_lined {items : List Item} (hitems : ∀ x ∈ items, Usable x.name)
    {tail left : List (List Char)} (hnewline : ∀ l ∈ frontLines items ++ tail, '\n' ∉ l)
    (houtside : linesOutside none (tail.map ofList) = left.map ofList)
    (hquiet : ∀ l ∈ left, Quiet l) :
    readFields (ofList (lined (frontLines items ++ tail))) = .ok (items.map Item.field) := by
  have hlines : Text.splitOn "\n" (ofList (lined (frontLines items ++ tail))) =
      ([] :: (frontLines items ++ tail)).map ofList := by
    rw [splitOn, toList_ofList, toList_ofList]
    exact congrArg _ (splitAux_lined (u := []) (by simp) hnewline)
  have hkept : linesOutside none (([] :: (frontLines items ++ tail)).map ofList) =
      ([] :: (frontLines items ++ left)).map ofList := by
    rw [map_cons, linesOutside_pass (by decide), map_append, linesOutside_append,
      houtside, ← map_append, ← map_cons]
    simpa using fun l hl => opensBlock_frontLines hl
  have hbody : outsideBlocks (ofList (lined (frontLines items ++ tail))) =
      ofList (['\n'] ++ (lined (items.map Item.declarationLine) ++ lined ([] :: left))) := by
    rw [outsideBlocks, hlines, hkept, join_ofList]
    simp [frontLines, lined]
  have hcalm : ∀ l ∈ [] :: left, Quiet l :=
    forall_mem_cons.2 ⟨⟨[], ⟨by simp, by simp⟩, by simp, .inl rfl⟩, hquiet⟩
  have hfields := mapM_ofStatement hitems hcalm (b := ['\n']) (by decide) (by decide)
  rw [readFields, hbody, splitOn, toList_ofList, toList_ofList]
  exact hfields

end Register

end Stimulus
