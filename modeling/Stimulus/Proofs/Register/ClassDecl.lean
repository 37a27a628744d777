import Mathlib.Data.List.Infix
import Stimulus.Proofs.Register.ClassFields

/-!
# The class that a class text declares

The body of a class ends at the first `endclass`. If the name of the class holds that word, the body
ends in the line that opens the list of fields, before the ranges.
-/

open List
open String (ofList toList_ofList)

namespace Stimulus.Register

open Pattern Text Sv

/-- The word that ends a class. -/
def classEnd : List Char := "endclass".toList

/-- The class of items, with the constraints of those that are kept. -/
structure IsClass (c : ClassDecl) (ip : List Char) (items kept : List Item) : Prop where
  name : c.name = ofList (ip ++ "_rand_item".toList)
  parent : c.parent = some "uvm_sequence_item"
  fields : c.fields = items.map Item.field
  bodies : c.constraints.map Constraint.body = kept.map fun x => ofList x.condition
  pre : c.preRandomize = none
  post : c.postRandomize = none

/-! ## Where the class ends -/

theorem passes_classEnd : Passes (Shuns classEnd) fun n => ¬ classEnd <:+: n where
  nil := shuns_nil
  append := Shuns.append
  fixed := by
    have hcheck : ∀ l ∈ fixedPieces, shunsCheck classEnd l = true := by decide
    exact fun l hl => shuns_of_check (hcheck l hl)
  name := by
    intro n hn g hg
    have hgaps : ∀ g ∈ gaps, ∃ c r, g = c :: r ∧ c ∉ classEnd ∧ shunsCheck classEnd r = true := by
      simp only [gaps, map_cons, map_nil, forall_mem_cons]
      exact ⟨⟨_, _, rfl, by decide⟩, ⟨_, _, rfl, by decide⟩, ⟨_, _, rfl, by decide⟩,
        ⟨_, _, rfl, by decide⟩, ⟨_, _, rfl, by decide⟩, ⟨_, _, rfl, by decide⟩, by simp⟩
    obtain ⟨c, r, rfl, hc, hr⟩ := hgaps g hg
    have hcut : n ++ c :: r = (n ++ [c]) ++ r := by simp
    rw [hcut]
    exact (shuns_of_absent hc hn).append (shuns_of_check hr)
  int v := shuns_of_not_mem (not_mem_intChars (by decide) (by decide))

theorem not_classEnd_itemName {ip : List Char} (h : ¬ classEnd <:+: ip) :
    ¬ classEnd <:+: ip ++ "_rand_item".toList := by
  intro hin
  have hcut : ip ++ "_rand_item".toList = ip ++ '_' :: "rand_item".toList := rfl
  rw [hcut] at hin
  rcases infix_append_cons (by decide) hin with hin | hin
  · exact h hin
  · revert hin
    decide

section Body

variable {ip : List Char} {items : List Item}

theorem readEnums_classText (hip : ∀ c ∈ ip, nameTail c = true) :
    readEnums (classText ip items) = .ok [] := by
  have hopens := opens_enumDecl
  have hfixed {l : List Char} (hl : shunsCheck "typedef".toList l = true) : Skips enumDecl l :=
    hopens.2.leads.skips (shuns_of_check hl)
  have hname := nameTail_itemName hip
  have hnames : ∀ x ∈ items, ∀ c ∈ x.name.chars, nameTail c = true := fun x _ => x.name.plain.chars
  have hheader : Skips enumDecl (headerChars ip) := by
    have hend : ¬ "typedef".toList <:+ ip ++ "_rand_item".toList := by
      intro hsuffix
      have := suffix_of_suffix_length_le hsuffix (suffix_append ip _) (by decide)
      revert this
      decide
    have hcut : headerChars ip = "class ".toList ++ (((ip ++ "_rand_item".toList) ++ [' '])
        ++ "extends uvm_sequence_item;".toList) := by
      unfold headerChars
      simp
    rw [hcut]
    exact (hfixed (by decide)).append ((hopens.2.skips_other hopens.isPlain hname.chars hend
      (by decide)).append (hfixed (by decide)))
  have hall : Skips enumDecl (classChars ip items) := by
    rw [classChars_eq, lined_bodyLines]
    exact hheader.append (((hopens.passes.front hnames).append ((hopens.passes.list hname.chars
      hnames).append (hopens.passes.blocks (hfixed (by decide)) hnames))).append
        (hfixed (by decide)))
  have hnone := hall.findAll (hopens.2.leads.lacks_nil (by decide))
  rw [append_nil] at hnone
  rw [readEnums, classText, hnone]
  rfl

theorem finds_classDecl (hip : ∀ c ∈ ip, nameTail c = true) {body : List Char}
    (hfirst : ∀ a b, body = a ++ b → b ≠ [] → ¬ classEnd <+: b ++ classEnd) :
    Finds classDecl Match.pieces (headerChars ip ++ (body ++ classEnd))
      [[(3, body), (2, "uvm_sequence_item".toList), (1, ip ++ "_rand_item".toList)]] :=
  Reads.finds (by simp [headerChars]) (reads_classDecl hip hfirst) fun m hm => hm

theorem read_of_body (hip : ∀ c ∈ ip, nameTail c = true) {body u e : List Char} {kept : List Item}
    (hchars : classChars ip items = headerChars ip ++ (body ++ classEnd) ++ (u ++ e))
    (hfirst : ∀ a b, body = a ++ b → b ≠ [] → ¬ classEnd <+: b ++ classEnd)
    (hu : Skips classDecl u) (he : Lacks classDecl e)
    (hfields : readFields (ofList body) = .ok (items.map Item.field))
    (hbodies : (readConstraints (ofList body)).map Constraint.body =
      kept.map fun x => ofList x.condition)
    (hhooks : ∀ name ∈ ["pre_randomize", "post_randomize"],
      (functionDecl name).search? (ofList body) = none) :
    ∃ c, Sv.read (classText ip items) = .ok { enums := [], classes := [c] } ∧
      IsClass c ip items kept := by
  have hslash : '/' ∉ classChars ip items := by
    rw [classChars, mem_flatMap]
    rintro ⟨l, hl, hmem⟩
    have := not_mem_line (.inr (.inr rfl)) hip hl
    simp [this] at hmem
  have hfind : (classDecl.findAll (classText ip items)).map Match.pieces =
      [[(3, body), (2, "uvm_sequence_item".toList), (1, ip ++ "_rand_item".toList)]] := by
    rw [classText, hchars, ← append_assoc]
    exact ((finds_classDecl hip hfirst).append hu.finds).findAll he
  obtain ⟨m, hm, hpieces⟩ := map_eq_singleton_iff.1 hfind
  have hgroup1 : m.group 1 = ofList (ip ++ "_rand_item".toList) := by
    simp [Match.group_eq, hpieces]
  have hgroup2 : m.group? 2 = some "uvm_sequence_item" := by
    simp [Match.group?_eq, hpieces]
  have hgroup3 : m.group 3 = ofList body := by
    simp [Match.group_eq, hpieces]
  have hhook {name : String} (hname : name ∈ ["pre_randomize", "post_randomize"]) :
      readFunction (ofList body) name = none := by
    rw [readFunction, hhooks name hname, Option.map_none]
  refine ⟨⟨m.group 1, m.group? 2, items.map Item.field, readConstraints (ofList body), m.text,
    none, none⟩, ?_, ⟨hgroup1, hgroup2, rfl, hbodies, rfl, rfl⟩⟩
  have hcomments : dropComments (classText ip items) = classText ip items :=
    dropComments_of_not_mem hslash
  rw [Sv.read]
  simp only [hcomments, readEnums_classText hip, readClasses, hm, mapM_cons, mapM_nil,
    ClassDecl.ofMatch, hgroup3, hfields, hhook (mem_cons_self), hhook (mem_cons_of_mem _ mem_cons_self)]
  rfl

/-! ## The two places where a class may end -/

theorem Calm.opensBlock {l : List Char} (h : Calm l) : opensBlock (Text.strip (ofList l)) = false := by
  rw [Text.strip, toList_ofList]
  refine opensBlock_eq_false fun c hc => ?_
  have hblank := (trim_dropEnds l).head c hc
  have hword := h.strip.head c (by rwa [dropWhile_of_head (trim_dropEnds l).head])
  refine ⟨hblank, fun hmem => ?_⟩
  have hletters : ∀ c ∈ ['c', 'f', 't'], isWordChar c = true := by decide
  rw [hletters c hmem] at hword
  cases hword

theorem calm_marked {b l : List Char} {c : Char} (hb : Blank b) (hc : isWordChar c = false)
    (hblank : isBlank c = false) (hslash : '/' ∉ b ++ c :: l) : Calm (b ++ c :: l) := by
  refine ⟨?_, hslash⟩
  rw [dropWhile_gap hb (by simpa using hblank)]
  simpa using hc

theorem calm_nil : Calm [] := ⟨by simp, by simp⟩

theorem calm_beginLine (hip : ∀ c ∈ ip, nameTail c = true) : Calm (beginLine ip) := by
  have hslash : '/' ∉ ip := fun hmem => by simpa [nameTail] using hip _ hmem
  have hcut : beginLine ip =
      [] ++ '`' :: ("uvm_object_utils_begin(".toList ++ (ip ++ "_rand_item)".toList)) := by
    unfold beginLine
    simp
  rw [hcut]
  exact calm_marked blank_nil (by decide) (by decide) (by simp [hslash])

theorem calm_entryLine (x : Item) : Calm x.entryLine := by
  have hslash : '/' ∉ x.name.chars := x.name.plain.not_mem (by decide)
  have hcut : x.entryLine =
      [' '] ++ '`' :: ("uvm_field_int(".toList ++ (x.name.chars ++ ", UVM_DEFAULT)".toList)) := by
    unfold Item.entryLine
    simp
  rw [hcut]
  exact calm_marked (by decide) (by decide) (by decide) (by simp [hslash])

theorem calm_listEnd : Calm "`uvm_object_utils_end".toList := ⟨by decide, by decide⟩

theorem linesOutside_blocks (hitems : ∀ x ∈ items, Usable x.name) (rest : List String) :
    linesOutside none ((items.flatMap Item.blockLines).map ofList ++ rest) =
      (items.flatMap Item.leftLines).map ofList ++ linesOutside none rest := by
  induction items with
  | nil => rfl
  | cons x items ih =>
    obtain ⟨hx, hitems⟩ := forall_mem_cons.1 hitems
    rw [flatMap_cons, map_append, append_assoc,
      x.linesOutside_block (hx.2 _ (by decide)), ih hitems, flatMap_cons, map_append,
      append_assoc]

/-- The lines after the declarations that are left outside blocks. -/
def leftOver (ip : List Char) (items : List Item) : List (List Char) :=
  (beginLine ip :: (items.map Item.entryLine ++ ["`uvm_object_utils_end".toList])) ++
    (items.flatMap Item.leftLines ++ [[]])

theorem linesOutside_backLines (hip : ∀ c ∈ ip, nameTail c = true)
    (hitems : ∀ x ∈ items, Usable x.name) :
    linesOutside none ((beginLine ip :: (backLines items ++ [[]])).map ofList) =
      (leftOver ip items).map ofList := by
  have hcut : beginLine ip :: (backLines items ++ [[]]) = (beginLine ip :: (items.map Item.entryLine
      ++ ["`uvm_object_utils_end".toList])) ++ (items.flatMap Item.blockLines ++ [[]]) := by
    simp [backLines]
  have hcalm : ∀ l ∈ beginLine ip :: (items.map Item.entryLine ++ ["`uvm_object_utils_end".toList]),
      Calm l := by
    intro l hl
    simp only [mem_cons, mem_append, mem_map, not_mem_nil, or_false] at hl
    rcases hl with rfl | ⟨x, -, rfl⟩ | rfl
    · exact calm_beginLine hip
    · exact calm_entryLine x
    · exact calm_listEnd
  have hlast : linesOutside none ([[]].map ofList) = [[]].map ofList := by
    rw [map_cons, linesOutside_pass calm_nil.opensBlock]
    rfl
  rw [hcut, map_append, linesOutside_append, map_append, linesOutside_blocks hitems, hlast,
    leftOver, map_append, map_append]
  · intro l hl
    obtain ⟨cs, hcs, rfl⟩ := mem_map.1 hl
    exact (hcalm cs hcs).opensBlock

theorem quiet_boundsLine (x : Item) : Quiet x.boundsLine := by
  have hrange {c : Char} (hc : c = '/' ∨ c = ';') : c ∉ rangeChars x.name x.low x.high := by
    rcases hc with rfl | rfl <;>
      exact not_mem_rangeChars (by decide) (by decide) (by decide) x.name x.low x.high
  refine ⟨"       ".toList ++ '(' :: (rangeChars x.name x.low x.high ++ [')']), ?_, ?_, .inr ?_⟩
  · exact calm_marked (by decide) (by decide) (by decide) (by simp [hrange])
  · simp [hrange]
  · unfold Item.boundsLine
    simp

theorem quiet_leftOver (hip : ∀ c ∈ ip, nameTail c = true) {l : List Char}
    (h : l ∈ leftOver ip items) : Quiet l := by
  have hcalm {l : List Char} (hl : Calm l) (hsemi : ';' ∉ l) : Quiet l := ⟨l, hl, hsemi, .inl rfl⟩
  have hsemi {w : List Char} (hw : ∀ c ∈ w, nameTail c = true) : ';' ∉ w :=
    fun hmem => by simpa [nameTail] using hw _ hmem
  unfold leftOver Item.leftLines at h
  simp only [mem_cons, mem_append, mem_map, mem_flatMap, not_mem_nil,
    or_false] at h
  rcases h with (rfl | ⟨x, -, rfl⟩ | rfl) | ⟨x, -, h⟩ | rfl
  · refine hcalm (calm_beginLine hip) ?_
    unfold beginLine
    simp [hsemi hip]
  · refine hcalm (calm_entryLine x) ?_
    unfold Item.entryLine
    simp [hsemi x.name.plain.chars]
  · exact hcalm calm_listEnd (by decide)
  · split at h
    · simp only [mem_cons, not_mem_nil, or_false] at h
      rcases h with rfl | rfl | rfl | rfl
      · exact hcalm ⟨by decide, by decide⟩ (by decide)
      · exact quiet_boundsLine x
      · exact hcalm ⟨by decide, by decide⟩ (by decide)
      · exact hcalm calm_nil (by simp)
    · obtain rfl := mem_singleton.1 h
      exact hcalm calm_nil (by simp)
  · exact hcalm calm_nil (by simp)

theorem length_le_blockChars (items : List Item) : items.length ≤ (blockChars items).length := by
  induction items with
  | nil => simp
  | cons x items ih =>
    have hpos : 1 ≤ (x.blockLines.flatMap (· ++ ['\n'])).length := by
      simp [Item.blockLines]
      omega
    have hcons : blockChars (x :: items) =
        x.blockLines.flatMap (· ++ ['\n']) ++ blockChars items := by
      simp [blockChars]
    rw [hcons, length_append, length_cons]
    omega

theorem bodies_readConstraints {u e : List Char} (hu : Skips constraintHead u)
    (he : Lacks constraintHead e) (kept : List Item) :
    (readConstraints (ofList (u ++ (blockChars kept ++ e)))).map Constraint.body =
      kept.map fun x => ofList x.condition := by
  rw [readConstraints, toList_ofList]
  refine bodies_readConstraintsFrom hu he kept ?_
  have := length_le_blockChars kept
  simp [String.length_ofList]
  omega

theorem Usable.not_classEnd {n : Label} (h : Usable n) : ¬ classEnd <:+: n.chars := by
  have hno := h.2 "endclass" (by decide)
  have htext : n.name.toList = n.chars := by rw [Label.name, toList_ofList]
  rw [contains_eq_false_iff, htext] at hno
  exact hno

theorem functionDecl_opens : ∀ name ∈ ["pre_randomize", "post_randomize"],
    Opens (functionDecl name) "function".toList := by
  simp only [forall_mem_cons]
  exact ⟨opens_functionDecl ⟨'p', _, rfl, by decide⟩, opens_functionDecl ⟨'p', _, rfl, by decide⟩,
    by simp⟩

theorem not_newline_bodyLines (hip : ∀ c ∈ ip, nameTail c = true) {l : List Char}
    (h : l ∈ bodyLines ip items) : '\n' ∉ l := by
  have hmem : l ∈ classLines ip items ∨ l = [] := by
    simp only [bodyLines, classLines, mem_append, mem_cons, not_mem_nil] at h ⊢
    tauto
  rcases hmem with hmem | rfl
  · exact not_mem_line (.inl rfl) hip hmem
  · simp

theorem read_classText_whole (hip : ∀ c ∈ ip, nameTail c = true) (hend : ¬ classEnd <:+: ip)
    (hitems : ∀ x ∈ items, Usable x.name) :
    ∃ c, Sv.read (classText ip items) = .ok { enums := [], classes := [c] } ∧
      IsClass c ip items items := by
  have hname := nameTail_itemName hip
  have hnames : ∀ x ∈ items, ∀ c ∈ x.name.chars, nameTail c = true := fun x _ => x.name.plain.chars
  have hends : ∀ x ∈ items, ¬ classEnd <:+: x.name.chars := fun x hx => (hitems x hx).not_classEnd
  have hshuns : Shuns classEnd (lined (bodyLines ip items)) := by
    rw [lined_bodyLines]
    exact (passes_classEnd.front hends).append ((passes_classEnd.list (not_classEnd_itemName hend)
      hends).append (passes_classEnd.blocks (shuns_of_check (by decide)) hends))
  have hopening := opens_constraintHead
  refine @read_of_body _ _ hip (lined (bodyLines ip items)) [] ['\n'] items ?_
    (fun a b hab hb => hshuns a b classEnd hab hb) skips_nil
    (@Jumps.lacks _ [] _ _ opens_classDecl.2 _ (by simp) (by decide)) ?_ ?_ ?_
  · have hcut : classChars ip items =
        headerChars ip ++ (lined (bodyLines ip items) ++ (classEnd ++ ['\n'])) := classChars_eq ip items
    rw [hcut, nil_append]
    simp only [append_assoc]
  · exact readFields_lined hitems (fun l hl => not_newline_bodyLines hip hl)
      (linesOutside_backLines hip hitems) fun l hl => quiet_leftOver hip hl
  · have hbodies := bodies_readConstraints ((hopening.passes.front hnames).append
      (hopening.passes.list hname.chars hnames)) (hopening.2.leads.lacks_nil (by decide)) items
    rw [lined_bodyLines, ← append_assoc]
    rwa [append_nil] at hbodies
  · intro name hmem
    have hfunction := functionDecl_opens name hmem
    have hnone := ((hfunction.passes.front hnames).append ((hfunction.passes.list hname.chars
      hnames).append (hfunction.passes.blocks
        (hfunction.2.leads.skips (shuns_of_check (by decide))) hnames))).search?
        (hfunction.2.leads.lacks_nil (by decide))
    rwa [append_nil, ← lined_bodyLines] at hnone

/-- If the name of the class holds the word that ends classes, the class ends before its ranges. -/
theorem read_classText_cut (hip : ∀ c ∈ ip, nameTail c = true) (hend : classEnd <:+: ip)
    (hitems : ∀ x ∈ items, Usable x.name) :
    ∃ c, Sv.read (classText ip items) = .ok { enums := [], classes := [c] } ∧
      IsClass c ip items [] := by
  obtain ⟨x, y, hxy, hfirst⟩ := exists_first_infix hend
  have hx : ∀ c ∈ x, nameTail c = true := fun c hc => hip c (by simp [hxy, hc])
  have hy : ∀ c ∈ y, nameTail c = true := fun c hc => hip c (by simp [hxy, hc])
  have hnames : ∀ x ∈ items, ∀ c ∈ x.name.chars, nameTail c = true := fun x _ => x.name.plain.chars
  have hshuns : Shuns classEnd (frontChars items) :=
    passes_classEnd.front fun x hx => (hitems x hx).not_classEnd
  have hlacks {p : Pattern} {w : List Char} (hp : Opens p w) : Lacks p x := by
    have := @Jumps.lacks p x w _ hp.2 [] (fun c hc => isBlank_of_nameTail (hx c hc)) blank_nil
    rwa [append_nil] at this
  refine @read_of_body _ _ hip (frontChars items ++ x)
    (listChars y items ++ (blockChars items ++ "end".toList)) "class\n".toList [] ?_ ?_ ?_ ?_ ?_ ?_ ?_
  · have hlast : "endclass".toList ++ ['\n'] = "end".toList ++ "class\n".toList := rfl
    rw [classChars_eq, lined_bodyLines, listChars, listChars, hxy, hlast]
    simp only [append_assoc]
  · intro a b hab hb hpre
    rcases append_eq_append_iff.1 hab with ⟨c, rfl, rfl⟩ | ⟨c, hc, rfl⟩
    · refine hfirst c b rfl hb (hpre.trans ?_)
      rw [← append_assoc]
      exact prefix_append _ y
    · by_cases hempty : c = []
      · subst hempty
        refine hfirst [] x rfl (by simpa using hb) (hpre.trans ?_)
        rw [nil_append, ← append_assoc]
        exact prefix_append _ y
      · exact hshuns a c (x ++ classEnd) hc hempty (by rwa [← append_assoc])
  · have hopens := opens_classDecl
    exact (hopens.passes.list (nameTail_itemName hy).chars hnames).append ((hopens.passes.blocks
      (hopens.2.leads.skips (shuns_of_check (by decide))) hnames).append (hopens.skips_fixed (by decide)))
  · exact @Jumps.lacks _ "class".toList _ _ opens_classDecl.2 "\n".toList (by decide) (by decide)
  · have hbody : frontChars items ++ x =
        lined (frontLines items ++ ["`uvm_object_utils_begin(".toList ++ x]) := by
      unfold frontChars
      rw [lined_append, lined_cons]
      simp [lined]
    have hnot {c : Char} (hc : nameTail c = false) : c ∉ x := fun hmem => by simp [hx c hmem] at hc
    have hopening : Calm ("`uvm_object_utils_begin(".toList ++ x) := by
      have hslash : '/' ∉ [] ++ '`' :: ("uvm_object_utils_begin(".toList ++ x) := by
        simp [hnot (show nameTail '/' = false by decide)]
      exact calm_marked blank_nil (by decide) (by decide) hslash
    have hlines : ∀ l ∈ frontLines items ++ ["`uvm_object_utils_begin(".toList ++ x], '\n' ∉ l := by
      refine forall_mem_append.2 ⟨fun l hl => ?_, forall_mem_singleton.2 ?_⟩
      · exact not_newline_bodyLines hip (mem_append_left _ hl)
      · simp [hnot (show nameTail '\n' = false by decide)]
    have hsemi : ';' ∉ "`uvm_object_utils_begin(".toList ++ x := by
      simp [hnot (show nameTail ';' = false by decide)]
    rw [hbody]
    refine @readFields_lined items hitems ["`uvm_object_utils_begin(".toList ++ x]
      ["`uvm_object_utils_begin(".toList ++ x] hlines ?_ ?_
    · rw [map_cons, linesOutside_pass hopening.opensBlock]
      rfl
    · exact forall_mem_singleton.2 ⟨_, hopening, hsemi, .inl rfl⟩
  · have hopening := opens_constraintHead
    exact bodies_readConstraints (hopening.passes.front hnames) (hlacks hopening) []
  · intro name hmem
    have hfunction := functionDecl_opens name hmem
    exact (hfunction.passes.front hnames).search? (hlacks hfunction)

theorem read_classText (hip : ∀ c ∈ ip, nameTail c = true) (hitems : ∀ x ∈ items, Usable x.name) :
    ∃ c, Sv.read (classText ip items) = .ok { enums := [], classes := [c] } ∧
      IsClass c ip items (if classEnd <:+: ip then [] else items) := by
  split
  · next hend => exact read_classText_cut hip hend hitems
  · next hend => exact read_classText_whole hip hend hitems

end Body

end Stimulus.Register
