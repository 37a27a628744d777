import Stimulus.Proofs.Register.Block
import Stimulus.Proofs.Run.Basic
import Stimulus.Register.Program

/-!
# The class of a description

Each block of rows gives a field: its declaration, its registration and, if it is bounded, the block
of its range.
-/

open List

namespace Stimulus.Register

open Pattern Text Sv

variable {rows : List Row} {n : Label} {c : Char} {ip l : String}

/-! ## Fields -/

def seen (rows : List Row) : List (Label × Bounds) := (blocks rows).map fun b => (b.1, boundsOf b.2)

/-- What a field without test constraints adds to the class. -/
def fieldOf (f : Label × Bounds) : Fragment := .of f.1.name f.2 0 []

theorem mem_blocks {block : List Row} :
    (n, block) ∈ blocks rows ↔
      ∃ front r back, rows = front ++ r :: back ∧ r.name? = some n ∧ block = r :: upToStop back := by
  constructor
  · intro h
    induction rows with
    | nil => cases h
    | cons r rows ih =>
      have hlater (h : (n, block) ∈ blocks rows) : ∃ front s back, r :: rows = front ++ s :: back ∧
          s.name? = some n ∧ block = s :: upToStop back := by
        obtain ⟨front, s, back, rfl, hs⟩ := ih h
        exact ⟨r :: front, s, back, rfl, hs⟩
      rw [blocks] at h
      split at h
      · next m hm =>
        rcases mem_cons.1 h with h | h
        · cases h
          exact ⟨[], r, rows, rfl, hm, rfl⟩
        · exact hlater h
      · exact hlater h
  · rintro ⟨front, r, back, rfl, hname, rfl⟩
    induction front with
    | nil => simp [blocks, hname]
    | cons s front ih =>
      rw [cons_append, blocks]
      split
      · exact mem_cons_of_mem _ ih
      · exact ih

theorem contains_label {needle : String} (n : Label) (h : ∃ c ∈ needle.toList, nameTail c = false) :
    contains needle n.name = false := by
  obtain ⟨c, hc, hmark⟩ := h
  rw [contains_eq_false_iff, Label.name, String.toList_ofList]
  exact fun hin => n.plain.not_mem hmark (hin.subset hc)

theorem nameOf_rows {r : Row} (h : r.name? = some n) (more : List Row) :
    nameOf .parameter ((r :: more).map Row.line) = .ok (some n.name) := by
  have hdot : contains "." n.name = false := contains_label n ⟨'.', by decide, by decide⟩
  have hbar : contains "|" n.name = false := contains_label n ⟨'|', by decide, by decide⟩
  rw [map_cons, nameOf, search?_opening, h]
  simp [Option.filter, hdot, hbar]

theorem ofBlock_rows {block : List Row} (h : (n, block) ∈ blocks rows)
    (number : Int) :
    Fragment.ofBlock .parameter number (block.map Row.line) =
      (rangeOf (block.map Row.line)).map fun b => fieldOf (n, b) := by
  obtain ⟨front, r, back, -, hname, rfl⟩ := mem_blocks.1 h
  have hnamed : namedConstraints n.name ((r :: upToStop back).map Row.line) = [] := by
    rw [namedConstraints, testConstraints_rows, map_nil]
  unfold Fragment.ofBlock
  rw [nameOf_rows hname]
  cases rangeOf ((r :: upToStop back).map Row.line) with
  | error e => rfl
  | ok b =>
    change Except.ok (Fragment.of n.name b number (namedConstraints n.name _)) = _
    rw [hnamed]
    rfl

theorem ofBlocks_rows {bs : List (Label × List Row)} (hbs : ∀ b ∈ bs, ∃ rows, b ∈ blocks rows)
    (h : ∀ b ∈ bs, Ordered b.2) (hread : ∀ b ∈ bs, Readable b.2) (number : Nat) :
    Fragment.ofBlocks .parameter number (bs.map fun b => b.2.map Row.line) =
      .ok (bs.map fun b => fieldOf (b.1, boundsOf b.2)) := by
  induction bs generalizing number with
  | nil => rfl
  | cons b bs ih =>
    obtain ⟨⟨rows, hb⟩, hbs⟩ := forall_mem_cons.1 hbs
    obtain ⟨hordered, h⟩ := forall_mem_cons.1 h
    obtain ⟨hb', hread⟩ := forall_mem_cons.1 hread
    rw [map_cons, Fragment.ofBlocks, ofBlock_rows hb, rangeOf_rows hordered hb',
      ih hbs h hread]
    rfl

theorem readable_of_ofBlocks {bs : List (Label × List Row)} (hbs : ∀ b ∈ bs, ∃ rows, b ∈ blocks rows)
    (h : ∀ b ∈ bs, Ordered b.2) {number : Nat} {parts : List Fragment}
    (hok : Fragment.ofBlocks .parameter number (bs.map fun b => b.2.map Row.line) = .ok parts) :
    ∀ b ∈ bs, Readable b.2 := by
  induction bs generalizing number parts with
  | nil => simp
  | cons b bs ih =>
    obtain ⟨⟨rows, hb⟩, hbs⟩ := forall_mem_cons.1 hbs
    obtain ⟨hordered, h⟩ := forall_mem_cons.1 h
    rw [map_cons, Fragment.ofBlocks, ofBlock_rows hb] at hok
    cases hrange : rangeOf (b.2.map Row.line) with
    | error e => rw [hrange] at hok; cases hok
    | ok c =>
      cases hrest : Fragment.ofBlocks .parameter (number + 1) (bs.map fun b => b.2.map Row.line) with
      | error e => rw [hrange, hrest] at hok; cases hok
      | ok more =>
        exact forall_mem_cons.2 ⟨readable_of_rangeOf hordered hrange, ih hbs h hrest⟩

theorem upToStop_subset (rows : List Row) : upToStop rows ⊆ rows := by
  induction rows with
  | nil => exact List.Subset.refl _
  | cons r rows ih =>
    rw [upToStop]
    split
    · simp
    · exact cons_subset_cons r ih

theorem subset_of_mem_blocks {b : Label × List Row} (h : b ∈ blocks rows) :
    b.2 ⊆ rows := by
  obtain ⟨front, r, back, rfl, -, hb⟩ := mem_blocks.1 (show (b.1, b.2) ∈ blocks rows from h)
  rw [hb]
  exact List.Subset.trans (cons_subset_cons r (upToStop_subset back))
    (subset_append_right _ _)

theorem Ordered.block (h : Ordered rows) {b : Label × List Row}
    (hb : b ∈ blocks rows) : Ordered b.2 := fun r hr => h r (subset_of_mem_blocks hb hr)

theorem itemText_rows (h : Ordered rows) (hread : ∀ b ∈ blocks rows, Readable b.2) :
    (scan (rows.map Row.line)).bind Scan.itemText =
      .ok (Register.itemText (ipOf "" rows) (.concat ((seen rows).map fieldOf))) := by
  have hparts := ofBlocks_rows (fun b hb => ⟨rows, hb⟩) (fun b hb => h.block hb) hread 0
  rw [scan_rows]
  change ((Fragment.ofBlocks .parameter 0 _).bind fun parameters =>
    (Fragment.ofBlocks .field _ []).bind fun fields => _) = _
  rw [hparts]
  simp [Except.bind, Fragment.ofBlocks, seen, pure, Except.pure, Function.comp_def]

theorem readable_of_itemText (h : Ordered rows) {text : String}
    (hok : (scan (rows.map Row.line)).bind Scan.itemText = .ok text) :
    ∀ b ∈ blocks rows, Readable b.2 := by
  rw [scan_rows] at hok
  cases hparts : Fragment.ofBlocks .parameter 0 ((blocks rows).map fun b => b.2.map Row.line) with
  | error e =>
    change ((Fragment.ofBlocks .parameter 0 _).bind fun parameters => _) = _ at hok
    rw [hparts] at hok
    cases hok
  | ok parts => exact readable_of_ofBlocks (fun b hb => ⟨rows, hb⟩) (fun b hb => h.block hb) hparts

/-! ## The lines of a class -/

/-- The condition of a range, between its parentheses. -/
def rangeChars (n : Label) (low high : Int) : List Char :=
  n.chars ++ " >= ".toList ++ intChars low ++ " && ".toList ++ n.chars ++ " <= ".toList
    ++ intChars high

theorem not_mem_rangeChars (hname : nameTail c = false) (hminus : c ≠ '-')
    (hfixed : c ∉ " >=&<".toList) (n : Label) (low high : Int) : c ∉ rangeChars n low high := by
  have hint (v : Int) : c ∉ intChars v := by
    refine not_mem_intChars hminus (Bool.eq_false_iff.2 fun hd => ?_)
    rw [nameTail_of_isDigit hd] at hname
    cases hname
  simp only [rangeChars, mem_append, n.plain.not_mem hname, hint, or_false, false_or]
  simp at hfixed ⊢
  tauto

theorem rangeChars_injective {m : Label} {a b c d : Int}
    (h : rangeChars m a b = rangeChars n c d) : m = n ∧ a = c ∧ b = d := by
  have hname (n : Label) : ' ' ∉ n.chars := n.plain.not_mem (by decide)
  have hint (v : Int) : ' ' ∉ intChars v := not_mem_intChars (by decide) (by decide)
  simp only [rangeChars, append_assoc] at h
  obtain ⟨hmn, h⟩ := append_cons_inj (hname m) (hname n) h
  obtain ⟨hac, h⟩ := append_cons_inj (hint a) (hint c)
    (append_cancel_left (show ">= ".toList ++ _ = ">= ".toList ++ _ from h))
  obtain ⟨-, h⟩ := append_cons_inj (hname m) (hname n)
    (append_cancel_left (show "&& ".toList ++ _ = "&& ".toList ++ _ from h))
  have hbd := append_cancel_left (show "<= ".toList ++ _ = "<= ".toList ++ _ from h)
  exact ⟨Label.ext hmn, intChars_injective hac, intChars_injective hbd⟩

/-- The type of a declaration, up to its width. -/
def typeChars (signed : Bool) : List Char :=
  if signed then " rand bit signed ".toList else " rand bit ".toList

/-- The line of a range. -/
def rangeLine (f : Label × Bounds) : String :=
  s!"       ({f.1.name} >= {f.2.low} && {f.1.name} <= {f.2.high});\n"

theorem toList_rangeLine (f : Label × Bounds) : (rangeLine f).toList =
    "       ".toList ++ '(' :: (rangeChars f.1 f.2.low f.2.high ++ [')', ';', '\n']) := by
  rw [rangeChars, ← toList_toString_int, ← toList_toString_int]
  unfold rangeLine
  simp [toString, Label.name]

theorem toList_declaration (n : Label) (low : Int) : (declaration n.name low).toList =
    typeChars (low < 0) ++ '[' :: ("31:0] ".toList ++ (n.chars ++ [';', '\n'])) := by
  unfold declaration typeChars
  by_cases h : low < 0
  · rw [if_neg (by omega), if_pos (by simpa using h)]
    simp [toString, Label.name]
  · rw [if_pos (by omega), if_neg (by simpa using h)]
    simp [toString, Label.name]

/-- The lines of a class that are there whatever its fields are. -/
def frameLines (ip : String) : List String :=
  [s!"class {ip}_rand_item extends uvm_sequence_item;\n\n", "\n",
    s!"`uvm_object_utils_begin({ip}_rand_item)\n", "`uvm_object_utils_end\n", "endclass\n"]

/-- The lines of the class for one field. -/
def fieldLines (f : Label × Bounds) : List String :=
  (fieldOf f).declarations ++ (fieldOf f).registrations ++ (fieldOf f).ranges

theorem mem_itemLines {fs : List (Label × Bounds)} :
    l ∈ itemLines ip (.concat (fs.map fieldOf)) ↔ l ∈ frameLines ip ∨ ∃ f ∈ fs, l ∈ fieldLines f := by
  have hall {part : Fragment → List String} :
      l ∈ (fs.map fieldOf).flatMap part ↔ ∃ f ∈ fs, l ∈ part (fieldOf f) := by
    simp only [flatMap_map, mem_flatMap]
  have hnone : ¬ ∃ f ∈ fs, l ∈ (fieldOf f).constraints := by
    rintro ⟨f, -, hl⟩
    cases hl
  simp only [itemLines, frameLines, fieldLines, Fragment.concat, mem_append, mem_cons,
    not_mem_nil, or_false, hall, and_or_left, exists_or, hnone]
  grind

theorem registrations_fieldOf (f : Label × Bounds) :
    (fieldOf f).registrations = [s!" `uvm_field_int({f.1.name}, UVM_DEFAULT)\n"] := rfl

theorem ranges_fieldOf (f : Label × Bounds) : (fieldOf f).ranges =
    if f.2.bounded then [s!"   constraint CR_VAR_RANGE_{f.1.name}\n", "     \x7b\n", rangeLine f,
      "     \x7d\n\n"] else [] := rfl

theorem not_mem_frameLines (hip : ∀ c ∈ ip.toList, nameTail c = true)
    (h : l ∈ frameLines ip) (hc : c = '&' ∨ c = '[') : c ∉ l.toList := by
  have hname : c ∉ ip.toList := by
    intro hmem
    have := hip c hmem
    rcases hc with rfl | rfl <;> revert this <;> decide
  simp only [frameLines, mem_cons, not_mem_nil, or_false] at h
  rcases h with rfl | rfl | rfl | rfl | rfl <;> rcases hc with rfl | rfl <;>
    simp [toString, hname]

theorem of_mem_fieldLines {f : Label × Bounds} (h : l ∈ fieldLines f)
    (hc : c = '&' ∨ c = '[') (hmem : c ∈ l.toList) :
    (l = declaration f.1.name f.2.low ∧ c = '[') ∨
      (l = rangeLine f ∧ f.2.bounded = true ∧ c = '&') := by
  have hname : c ∉ f.1.chars := by
    refine f.1.plain.not_mem ?_
    rcases hc with rfl | rfl <;> decide
  have hint (v : Int) : c ∉ intChars v := by
    rcases hc with rfl | rfl <;> exact not_mem_intChars (by decide) (by decide)
  rw [fieldLines, mem_append, mem_append, registrations_fieldOf, ranges_fieldOf] at h
  rcases h with (h | h) | h
  · obtain rfl : l = declaration f.1.name f.2.low := mem_singleton.1 h
    refine .inl ⟨rfl, hc.resolve_left ?_⟩
    rintro rfl
    rw [toList_declaration] at hmem
    revert hmem
    unfold typeChars
    split <;> simp [hname]
  · obtain rfl := mem_singleton.1 h
    refine absurd hmem ?_
    rcases hc with rfl | rfl <;> simp [toString, Label.name, hname]
  · split at h
    · next hbounded =>
      simp only [mem_cons, not_mem_nil, or_false] at h
      rcases h with rfl | rfl | rfl | rfl
      · refine absurd hmem ?_
        rcases hc with rfl | rfl <;> simp [toString, Label.name, hname]
      · exact absurd hmem (by rcases hc with rfl | rfl <;> decide)
      · refine .inr ⟨rfl, hbounded, hc.resolve_right ?_⟩
        rintro rfl
        rw [toList_rangeLine, rangeChars] at hmem
        simp [hname, hint] at hmem
      · exact absurd hmem (by rcases hc with rfl | rfl <;> decide)
    · cases h

theorem newline_itemLines {fs : List (Label × Bounds)}
    (h : l ∈ itemLines ip (.concat (fs.map fieldOf))) : ∃ u, l.toList = u ++ ['\n'] := by
  rw [← getLast?_eq_some_iff]
  rcases mem_itemLines.1 h with h | ⟨f, -, h⟩
  · simp only [frameLines, mem_cons, not_mem_nil, or_false] at h
    rcases h with rfl | rfl | rfl | rfl | rfl <;> simp [toString, getLast?_cons]
  · rw [fieldLines, mem_append, mem_append, registrations_fieldOf, ranges_fieldOf] at h
    rcases h with (h | h) | h
    · obtain rfl : l = declaration f.1.name f.2.low := mem_singleton.1 h
      simp [toList_declaration, getLast?_cons]
    · obtain rfl := mem_singleton.1 h
      simp [toString, getLast?_cons]
    · split at h
      · simp only [mem_cons, not_mem_nil, or_false] at h
        rcases h with rfl | rfl | rfl | rfl <;>
          simp [toString, toList_rangeLine, getLast?_cons]
      · cases h

section Text

variable {ip : String} {fs : List (Label × Bounds)} (hip : ∀ c ∈ ip.toList, nameTail c = true)
include hip

theorem infix_itemText {w : List Char} (hnl : '\n' ∉ w) {c : Char} (hc : c = '&' ∨ c = '[')
    (hw : c ∈ w) (h : w <:+: (itemText ip (.concat (fs.map fieldOf))).toList) :
    ∃ f ∈ fs, (c = '[' ∧ w <:+: (declaration f.1.name f.2.low).toList) ∨
      (c = '&' ∧ f.2.bounded = true ∧ w <:+: (rangeLine f).toList) := by
  rw [itemText, infix_join_iff (fun l hl => newline_itemLines hl) (ne_nil_of_mem hw) hnl] at h
  obtain ⟨l, hl, hin⟩ := h
  rcases mem_itemLines.1 hl with hl | ⟨f, hf, hl⟩
  · exact absurd (hin.subset hw) (not_mem_frameLines hip hl hc)
  · refine ⟨f, hf, ?_⟩
    rcases of_mem_fieldLines hl hc (hin.subset hw) with ⟨rfl, rfl⟩ | ⟨rfl, hbounded, rfl⟩
    · exact .inl ⟨rfl, hin⟩
    · exact .inr ⟨rfl, hbounded, hin⟩

theorem infix_range_iff (n : Label) (low high : Int) :
    '(' :: (rangeChars n low high ++ [')', ';']) <:+:
        (itemText ip (.concat (fs.map fieldOf))).toList ↔ (n, ⟨low, high, true⟩) ∈ fs := by
  have hnl : '\n' ∉ '(' :: (rangeChars n low high ++ [')', ';']) := by
    simpa using not_mem_rangeChars (by decide) (by decide) (by decide) n low high
  constructor
  · intro h
    have hmem : '&' ∈ '(' :: (rangeChars n low high ++ [')', ';']) := by simp [rangeChars]
    obtain ⟨f, hf, ⟨h, -⟩ | ⟨-, hbounded, hin⟩⟩ := infix_itemText hip hnl (.inl rfl) hmem h
    · cases h
    · rw [toList_rangeLine, ← nil_append ('(' :: (rangeChars n low high ++ _))] at hin
      have hparen (m : Label) (a b : Int) {c : Char} (hc : c = '(' ∨ c = ')') :
          c ∉ rangeChars m a b := by
        rcases hc with rfl | rfl <;>
          exact not_mem_rangeChars (by decide) (by decide) (by decide) m a b
      obtain ⟨-, t, ht⟩ := infix_around (by decide)
        (by simpa using hparen f.1 f.2.low f.2.high (.inl rfl)) hin
      rw [append_assoc] at ht
      obtain ⟨hchars, -⟩ := append_cons_inj (hparen n low high (.inr rfl))
        (hparen f.1 f.2.low f.2.high (.inr rfl)) ht
      obtain ⟨rfl, rfl, rfl⟩ := rangeChars_injective hchars
      rwa [← hbounded]
  · intro h
    have hline : rangeLine (n, ⟨low, high, true⟩) ∈ itemLines ip (.concat (fs.map fieldOf)) := by
      refine mem_itemLines.2 (.inr ⟨_, h, ?_⟩)
      rw [fieldLines, ranges_fieldOf]
      simp
    rw [itemText, infix_join_iff (fun l hl => newline_itemLines hl) (by simp) hnl]
    refine ⟨_, hline, ?_⟩
    rw [toList_rangeLine]
    exact ⟨"       ".toList, ['\n'], by simp⟩

theorem infix_declaration_iff (n : Label) (signed : Bool) :
    typeChars signed ++ '[' :: ("31:0] ".toList ++ (n.chars ++ [';'])) <:+:
        (itemText ip (.concat (fs.map fieldOf))).toList ↔
      ∃ b, (n, b) ∈ fs ∧ decide (b.low < 0) = signed := by
  have hname {c : Char} (hc : nameTail c = false) (m : Label) : c ∉ m.chars := m.plain.not_mem hc
  have htype {c : Char} (hc : c = '[' ∨ c = '\n') (signed : Bool) : c ∉ typeChars signed := by
    rcases hc with rfl | rfl <;> cases signed <;> decide
  have hnl : '\n' ∉ typeChars signed ++ '[' :: ("31:0] ".toList ++ (n.chars ++ [';'])) := by
    simp [htype (.inr rfl) signed, hname (c := '\n') (by decide)]
  constructor
  · intro h
    obtain ⟨f, hf, ⟨-, hin⟩ | ⟨h, -⟩⟩ := infix_itemText hip hnl (.inr rfl) (by simp) h
    · rw [toList_declaration] at hin
      obtain ⟨htypes, t, ht⟩ := infix_around (htype (.inl rfl) _)
        (by simp [hname (c := '[') (by decide)]) hin
      refine ⟨f.2, ?_, ?_⟩
      · rw [append_assoc, append_cancel_left_eq, append_assoc] at ht
        obtain ⟨hchars, -⟩ := append_cons_inj (hname (by decide) n) (hname (by decide) f.1) ht
        rwa [Label.ext hchars]
      · revert htypes
        cases signed <;> cases decide (f.2.low < 0) <;> decide
    · cases h
  · rintro ⟨b, hb, rfl⟩
    have hline : declaration n.name b.low ∈ itemLines ip (.concat (fs.map fieldOf)) :=
      mem_itemLines.2 (.inr ⟨(n, b), hb, mem_cons_self⟩)
    rw [itemText, infix_join_iff (fun l hl => newline_itemLines hl) (by simp) hnl]
    refine ⟨_, hline, ?_⟩
    rw [toList_declaration]
    exact ⟨[], ['\n'], by simp⟩

end Text

/-! ## The run -/

theorem topParams_rows (rows : List Row) : topParams (rows.map Row.line) = .ok [] := by
  have hspans (i : Nat) : topSpansFrom i (rows.map Row.line) = [] := by
    induction rows generalizing i with
    | nil => rw [map_nil, topSpansFrom]
    | cons r rows ih =>
      have hopens : opensTop r.line = false := r.startsWith_strip (contains_stranger (by decide) r)
      rw [map_cons, topSpansFrom, if_neg (by simp [hopens]), ih]
  rw [topParams, topSpans, hspans]
  rfl

open Run

theorem on_convert {d : Desk} {source : String}
    (hread : d.store.read source = .ok (textOf rows)) (target table : String) :
    ∃ out, (convert source target table).on d =
      (do
        let sv ← ofOutcome ((scan (rows.map Row.line)).bind Scan.itemText)
        writeFile target sv
        sayLine s!"Generated {target}" : Run Unit).on { d with out } := by
  refine ⟨d.out ++ s!"Processing file: {source} … " ++ "opened\n" ++ "\n", ?_⟩
  unfold convert
  simp only [on_bind, on_say, on_attempt, on_readFile, hread, on_sayLine, linesOf_textOf,
    topParams_rows, on_ofOutcome, scan_rows, isEmpty_nil, Bool.not_true, Bool.false_eq_true,
    if_false]
  rfl

end Stimulus.Register
