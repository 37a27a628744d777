import Stimulus.Proofs.Stmt.Reference

/-!
# The indentation of constraint bodies

Whether the lines of a constraint body are suites that an interpreter can read: a line that opens a
suite is followed by deeper ones, and no others are deeper than the line before.
-/

open List

namespace Stimulus.Stmt

open Text Sv Expr

/-! ## Suites -/

/-- The number of blanks before a line. -/
def depthOf (line : String) : Nat := (line.toList.takeWhile (· == ' ')).length

/-- The line opens a suite. -/
def opensSuite (line : String) : Bool := Text.endsWith ":" line

/-- The second of two lines can follow the first. -/
def Follows (a b : String) : Prop :=
  if opensSuite a then depthOf b = depthOf a + 4 else depthOf b ≤ depthOf a

/-- The lines are suites, from the margin on. -/
structure WellIndented (lines : List String) : Prop where
  first : ∀ line ∈ lines.head?, depthOf line = 0
  follows : lines.IsChain Follows
  last : ∀ line ∈ lines.getLast?, opensSuite line = false

end Stimulus.Stmt

namespace Stimulus.Sv

/-- The statement is no implication and no loop. -/
def Stmt.isFlat : Stmt → Bool
  | .leaf _ | .cond .. => true
  | .implies .. | .loop .. => false

/-- No statement of the block is an implication or a loop. -/
def Block.isFlat : Block → Bool
  | .nil => true
  | .cons s rest => s.isFlat && rest.isFlat

mutual

def Stmt.isEven : Stmt → Bool
  | .leaf _ | .implies .. => true
  | .loop _ _ body => body.isEven
  | .cond _ body more => (body.isFlat && body.isEven) && more.isEven

def Branches.isEven : Branches → Bool
  | .done => true
  | .elseIf _ body more => (body.isFlat && body.isEven) && more.isEven
  | .otherwise body => body.isFlat && body.isEven

def Block.isEven : Block → Bool
  | .nil => true
  | .cons s rest => s.isEven && rest.isEven

end

end Stimulus.Sv

namespace Stimulus.Stmt

open Text Sv Expr

/-! ## Lines and suites -/

namespace Line

/-- The line opens a suite. -/
def opens (l : Line) : Bool := l.code.getLast? == some ':'

theorem depthOf_text (l : Line) : depthOf l.text = l.depth := by
  obtain ⟨c, r, hcr, hc⟩ := l.starts
  have hspace : (c == ' ') = false := by
    refine beq_eq_false_iff_ne.2 ?_
    rintro rfl
    revert hc
    decide
  rw [depthOf, text, String.toList_ofList, hcr, takeWhile_append_of_pos, takeWhile_cons,
    hspace]
  · simp
  · intro d hd
    rw [eq_of_mem_replicate hd]
    rfl

theorem opensSuite_text (l : Line) : opensSuite l.text = l.opens := by
  obtain ⟨r, c, hrc, -⟩ := l.ends
  rw [opensSuite, endsWith, opens, text, hrc, String.toList_ofList, String.toList_ofList,
    ← append_assoc, reverse_concat, getLast?_concat, Bool.eq_iff_iff, beginsWith_iff, beq_iff_eq,
    Option.some.injEq]
  exact cons_prefix_cons.trans ⟨fun h => h.1.symm, fun h => ⟨h.symm, nil_prefix⟩⟩

end Line

/-- The second of two lines can follow the first. -/
def LineFollows (a b : Line) : Prop := if a.opens then b.depth = a.depth + 4 else b.depth ≤ a.depth

theorem isChain_texts {ls : List Line} : (texts ls).IsChain Follows ↔ ls.IsChain LineFollows := by
  have hline : ∀ a b : Line, Follows a.text b.text ↔ LineFollows a b := by
    intro a b
    rw [Follows, LineFollows, a.opensSuite_text, a.depthOf_text, b.depthOf_text]
  rw [texts, isChain_map]
  exact ⟨fun h => h.imp fun a b => (hline a b).1, fun h => h.imp fun a b => (hline a b).2⟩

/-- Lines that make up suites at a depth. -/
structure Suites (depth : Nat) (ls : List Line) : Prop where
  head : ∀ l ∈ ls.head?, l.depth = depth
  deep : ∀ l ∈ ls, depth ≤ l.depth
  follows : ls.IsChain LineFollows
  last : ∀ l ∈ ls.getLast?, l.opens = false

section Suites

variable {depth : Nat} {ls ms : List Line}

theorem suites_nil : Suites depth [] := ⟨by simp, by simp, isChain_nil, by simp⟩

theorem suites_single {l : Line} (hl : l.opens = false) (hdepth : l.depth = depth) :
    Suites depth [l] :=
  ⟨by simpa using hdepth, by simp [hdepth], isChain_singleton l, by simpa using hl⟩

theorem Suites.append (hl : Suites depth ls) (hm : Suites depth ms) : Suites depth (ls ++ ms) := by
  refine ⟨fun l h => ?_, forall_mem_append.2 ⟨hl.deep, hm.deep⟩,
    List.isChain_append.2 ⟨hl.follows, hm.follows, fun a ha b hb => ?_⟩, fun l h => ?_⟩
  · cases ls with
    | nil => exact hm.head l h
    | cons a ls => exact hl.head l h
  · -- the first suites are closed, and the others start at their depth
    rw [LineFollows, hl.last a ha, hm.head b hb]
    exact hl.deep a (mem_of_mem_getLast? ha)
  · rw [getLast?_append] at h
    cases hlast : ms.getLast? with
    | none => exact hl.last l (by simpa [hlast] using h)
    | some m => exact hm.last l (by simpa [hlast] using h)

theorem Suites.open {l : Line} (hl : l.opens = true) (hdepth : l.depth = depth)
    (h : Suites (depth + 4) ls) (hne : ls ≠ []) : Suites depth (l :: ls) := by
  refine ⟨by simpa using hdepth, forall_mem_cons.2 ⟨hdepth.ge, fun m hm => ?_⟩,
    isChain_cons.2 ⟨fun m hm => ?_, h.follows⟩, fun m hm => ?_⟩
  · have := h.deep m hm
    omega
  · rw [LineFollows, hl, h.head m hm, hdepth]
    rfl
  · rw [getLast?_cons_of_ne_nil hne] at hm
    exact h.last m hm

theorem Suites.wellIndented (h : Suites 0 ls) : WellIndented (texts ls) := by
  refine ⟨fun line hline => ?_, isChain_texts.2 h.follows, fun line hline => ?_⟩
  · rw [texts, head?_map] at hline
    obtain ⟨l, hl, rfl⟩ := Option.map_eq_some_iff.1 hline
    rw [l.depthOf_text, h.head l hl]
  · rw [texts, getLast?_map] at hline
    obtain ⟨l, hl, rfl⟩ := Option.map_eq_some_iff.1 hline
    rw [l.opensSuite_text, h.last l hl]

theorem LineFollows.of_shift {a b c d : Line} (hac : Shift a c) (hbd : Shift b d) :
    LineFollows c d ↔ LineFollows a b := by
  rw [LineFollows, LineFollows, Line.opens, Line.opens, hac.last, hac.depth, hbd.depth]
  split <;> omega

theorem isChain_shift (h : List.Forall₂ Shift ls ms) :
    ms.IsChain LineFollows ↔ ls.IsChain LineFollows := by
  induction h with
  | nil => exact Iff.rfl
  | cons hab h ih =>
    rw [isChain_cons, isChain_cons, ih]
    refine and_congr_left fun _ => ?_
    cases h with
    | nil => simp
    | cons hcd _ => simpa using LineFollows.of_shift hab hcd

theorem exists_shift_of_mem (h : List.Forall₂ Shift ls ms) {m : Line} (hm : m ∈ ms) :
    ∃ l ∈ ls, Shift l m := by
  induction h with
  | nil => cases hm
  | cons hab _ ih =>
    rcases mem_cons.1 hm with rfl | hm
    · exact ⟨_, mem_cons_self, hab⟩
    · obtain ⟨l, hl, hlm⟩ := ih hm
      exact ⟨l, mem_cons_of_mem _ hl, hlm⟩

theorem exists_shift_of_head (h : List.Forall₂ Shift ls ms) {m : Line} (hm : m ∈ ms.head?) :
    ∃ l ∈ ls.head?, Shift l m := by
  cases h with
  | nil => cases hm
  | cons hab _ =>
    obtain rfl := Option.some.inj hm
    exact ⟨_, rfl, hab⟩

theorem Suites.shift (hls : Suites depth ls) (h : List.Forall₂ Shift ls ms) :
    Suites (depth + 4) ms := by
  refine ⟨fun m hm => ?_, fun m hm => ?_, (isChain_shift h).2 hls.follows, fun m hm => ?_⟩
  · obtain ⟨l, hl, hlm⟩ := exists_shift_of_head h hm
    rw [hlm.depth, hls.head l hl]
  · obtain ⟨l, hl, hlm⟩ := exists_shift_of_mem h hm
    have := hls.deep l hl
    have := hlm.depth
    omega
  · rw [← head?_reverse] at hm
    obtain ⟨l, hl, hlm⟩ := exists_shift_of_head (forall₂_reverse_iff.2 h) hm
    rw [head?_reverse] at hl
    rw [Line.opens, hlm.last]
    exact hls.last l hl

end Suites

/-! ## Grades -/

/-- Lines that call no ordering and make up suites at a depth if `ok`; if not, some line cannot
follow the one before. -/
def Grade (ok : Bool) (depth : Nat) (lines : List String) : Prop :=
  ∃ ls, lines = texts ls ∧ (∀ l ∈ ls, Uncalled l.code) ∧
    if ok then Suites depth ls else ¬ ls.IsChain LineFollows

section Grade

variable {ok ok' : Bool} {depth : Nat} {x y : List String}

theorem grade_nil : Grade true depth [] := ⟨[], rfl, by simp, suites_nil⟩

theorem Grade.append (hx : Grade ok depth x) (hy : Grade ok' depth y) :
    Grade (ok && ok') depth (x ++ y) := by
  obtain ⟨ls, rfl, hls, hok⟩ := hx
  obtain ⟨ms, rfl, hms, hok'⟩ := hy
  refine ⟨ls ++ ms, (texts_append ls ms).symm, forall_mem_append.2 ⟨hls, hms⟩, ?_⟩
  cases ok with
  | false => exact fun h => hok (List.isChain_append.1 h).1
  | true =>
    cases ok' with
    | false => exact fun h => hok' (List.isChain_append.1 h).2.1
    | true => exact hok.append hok'

theorem Grade.open {l : Line} (hl : l.opens = true) (hdepth : l.depth = depth)
    (huncalled : Uncalled l.code) (h : Grade ok (depth + 4) x) (hne : x ≠ []) :
    Grade ok depth (l.text :: x) := by
  obtain ⟨ls, rfl, hls, hok⟩ := h
  refine ⟨l :: ls, rfl, forall_mem_cons.2 ⟨huncalled, hls⟩, ?_⟩
  cases ok with
  | false => exact fun h => hok h.of_cons
  | true => exact hok.open hl hdepth (by simpa [texts] using hne)

theorem grade_single {l : Line} (hl : l.opens = false) (hdepth : l.depth = depth)
    (huncalled : Uncalled l.code) : Grade true depth [l.text] :=
  ⟨[l], rfl, by simpa using huncalled, suites_single hl hdepth⟩

theorem Grade.tidyLines (h : Grade ok depth x) : Grade ok depth (tidyLines x) := by
  obtain ⟨ls, rfl, hls, hok⟩ := h
  exact ⟨ls, tidyLines_texts ls, hls, hok⟩

theorem Grade.shifted (h : Grade ok depth x) (i : Name) : Grade ok (depth + 4) (shifted i x) := by
  obtain ⟨ls, rfl, hls, hok⟩ := h
  obtain ⟨ms, hms, hshift⟩ := shifted_texts i ls
  refine ⟨ms, hms, fun m hm => ?_, ?_⟩
  · obtain ⟨l, hl, hlm⟩ := exists_shift_of_mem hshift hm
    exact hlm.uncalled (hls l hl)
  · cases ok with
    | false => exact fun h => hok ((isChain_shift hshift).1 h)
    | true => exact Suites.shift hok hshift

theorem uncalled_pass (depth : Nat) : Uncalled (Line.pass depth).code :=
  uncalled_of_not_mem (by simp [Line.pass])

/-- The suite of a line, with a line for an empty one. -/
def Line.suite (l : Line) (x : List String) : List String :=
  l.text :: if x.isEmpty then [(Line.pass (l.depth + 4)).text] else x

theorem Grade.headed {l : Line} (hl : l.opens = true) (huncalled : Uncalled l.code)
    (h : Grade ok (l.depth + 4) x) : Grade ok l.depth (l.suite x) := by
  unfold Line.suite
  split
  · next hx =>
    -- nothing is wrong with no lines
    obtain rfl := List.isEmpty_iff.1 hx
    obtain ⟨ls, hls, -, hok⟩ := h
    obtain rfl : ls = [] := map_eq_nil_iff.1 hls.symm
    cases ok with
    | false => exact absurd isChain_nil hok
    | true =>
      exact (grade_single (by simp [Line.opens, Line.pass]) rfl (uncalled_pass _)).open hl rfl
        huncalled (cons_ne_nil _ _)
  · next hx => exact h.open hl rfl huncalled (by simpa using hx)

theorem Grade.suite {l : Line} {level : Nat} {head : String} (hhead : indent level ++ head = l.text)
    (hl : l.opens = true) (hdepth : l.depth = 4 * level) (huncalled : Uncalled l.code)
    (h : Grade ok (4 * (level + 1)) x) : Grade ok (4 * level) (suite level head x) := by
  have hnext : 4 * (level + 1) = l.depth + 4 := by omega
  rw [Stmt.suite, hhead, pass_text, hnext, ← hdepth]
  exact Grade.headed hl huncalled (hnext ▸ h)

theorem Grade.isOrdering (h : Grade ok depth x) : ∀ line ∈ x, isOrdering line = false := by
  obtain ⟨ls, rfl, hls, -⟩ := h
  intro line hline
  obtain ⟨l, hl, rfl⟩ := mem_map.1 hline
  exact l.isOrdering_text (not_ordering_of_uncalled (hls l hl))

theorem Grade.wellIndented_iff (h : Grade ok 0 x) : WellIndented x ↔ ok = true := by
  obtain ⟨ls, rfl, -, hok⟩ := h
  cases ok with
  | true => exact iff_of_true hok.wellIndented rfl
  | false => exact iff_of_false (fun h => hok (isChain_texts.1 h.follows)) Bool.false_ne_true

/-- Lines of which the first opens a suite. -/
def Headed (lines : List String) : Prop :=
  ∃ l m ls, lines = texts (l :: m :: ls) ∧ l.opens = true ∧ ∀ k ∈ l :: m :: ls, Uncalled k.code

theorem Grade.isHeaded {l : Line} (hl : l.opens = true) (huncalled : Uncalled l.code)
    (h : Grade ok depth x) : Headed (l.suite x) := by
  obtain ⟨ls, rfl, hls, -⟩ := h
  cases ls with
  | nil =>
    refine ⟨l, .pass _, [], rfl, hl, forall_mem_cons.2 ⟨huncalled, ?_⟩⟩
    exact forall_mem_singleton.2 (uncalled_pass _)
  | cons m ls => exact ⟨l, m, ls, rfl, hl, forall_mem_cons.2 ⟨huncalled, hls⟩⟩

theorem Headed.tidyLines (h : Headed x) : Headed (tidyLines x) := by
  obtain ⟨l, m, ls, rfl, h⟩ := h
  exact ⟨l, m, ls, tidyLines_texts _, h⟩

theorem Headed.relined (h : Headed x) (level : Nat) : Grade false (4 * level) (relined level x) := by
  obtain ⟨l, m, ls, rfl, hl, huncalled⟩ := h
  refine ⟨_, relined_texts level _, fun k hk => ?_, fun hchain => ?_⟩
  · obtain ⟨j, hj, rfl⟩ := mem_map.1 hk
    exact huncalled j hj
  · have hfollows : LineFollows (l.moved (4 * level)) (m.moved (4 * level)) :=
      (isChain_cons_cons.1 hchain).1
    have hopens : (l.moved (4 * level)).opens = true := hl
    rw [LineFollows, if_pos hopens] at hfollows
    simp [Line.moved] at hfollows

end Grade

/-! ## What is written -/

theorem uncalled_append {as bs : List Char} (ha : Uncalled as) (hb : Uncalled bs)
    (h : ∀ c ∈ as.getLast?, c ≠ 'r') : Uncalled (as ++ bs) :=
  List.isChain_append.2 ⟨ha, hb, fun a hlast _ _ _ => h a hlast⟩

theorem Line.uncalled_head (depth : Nat) {name inner : List Char} (hname : '(' ∉ name)
    (hlast : ∀ c ∈ name.getLast?, c ≠ 'r') (h : Uncalled inner) :
    Uncalled (Line.head depth name inner).code := by
  have hwith : Uncalled withWord := uncalled_of_not_mem (by decide)
  have hrest : Uncalled (name ++ inner) := uncalled_append (uncalled_of_not_mem hname) h hlast
  have hcolon : Uncalled [':'] := isChain_singleton _
  refine List.isChain_append.2 ⟨uncalled_append hwith hrest (by decide), hcolon, ?_⟩
  rintro a - b hb rfl
  simp at hb

theorem uncalled_parens {cs : List Char} (h : Uncalled cs) : Uncalled ('(' :: cs ++ [')']) := by
  refine List.IsChain.cons (List.isChain_append.2 ⟨h, isChain_singleton _, ?_⟩) ?_
  · rintro a - b hb rfl
    simp at hb
  · rintro b - -
    decide

theorem Line.opens_head (depth : Nat) (name inner : List Char) :
    (Line.head depth name inner).opens = true := by
  simp [Line.opens, Line.head]

section Formula

variable {scope : Scope} (hs : scope.Proper) (f : Formula)

theorem Line.opens_ofFormula (depth : Nat) : (Line.ofFormula hs depth f).opens = false := by
  obtain ⟨r, c, hrc, hc⟩ := ends_solved scope false f
  have hcolon : c ≠ ':' := by
    rintro rfl
    rcases hc with hc | hc
    · revert hc
      decide
    · revert hc
      decide
  have hcode : (Line.ofFormula hs depth f).code = r ++ [c] := hrc
  rw [Line.opens, hcode, getLast?_concat]
  simpa using hcolon

theorem grade_ofFormula (depth : Nat) : Grade true depth [(Line.ofFormula hs depth f).text] :=
  grade_single (Line.opens_ofFormula hs f depth) rfl (uncalled_solved false hs f)

include hs in
theorem uncalled_branch {c : Condition} (hc : c.text = f.text) (depth : Nat) {name : List Char}
    (hname : '(' ∉ name) (hlast : ∀ c ∈ name.getLast?, c ≠ 'r') :
    Uncalled (Line.head depth name
      ('(' :: (Expr.convert scope (String.ofList c.text) true).toList ++ [')'])).code := by
  rw [hc, convert_formula hs, String.toList_ofList]
  exact Line.uncalled_head depth hname hlast (uncalled_parens (uncalled_solved true hs f))

end Formula

/-- The word of a loop. -/
def foreach : List Char := ['f', 'o', 'r', 'e', 'a', 'c', 'h']

/-- The array and the index of a loop. -/
def overIndex (x i : Name) : List Char :=
  '(' :: (['s', 'e', 'l', 'f', '.'] ++ (x.ident.chars ++
    ([',', ' ', 'i', 'd', 'x', '=', 'T', 'r', 'u', 'e', ')', ' ', 'a', 's', ' '] ++ i.ident.chars)))

theorem uncalled_overIndex (x i : Name) : Uncalled (overIndex x i) := by
  have hx : '(' ∉ x.ident.chars := x.ident.isPlain.not_mem (by decide)
  have hi : '(' ∉ i.ident.chars := i.ident.isPlain.not_mem (by decide)
  refine List.IsChain.cons (uncalled_of_not_mem ?_) fun _ _ _ => by decide
  simp [hx, hi]

theorem loopSuite_eq (x i : Name) (lines : List String) :
    loopSuite x i lines = (Line.head 0 foreach (overIndex x i)).suite lines := by
  rw [loopSuite, Line.suite, List.cons.injEq, ← String.toList_inj]
  refine ⟨?_, rfl⟩
  simp [Line.text, Line.head, withWord, foreach, overIndex, toString]

theorem proper_enterLoop {ctx : Context} (i : String) (h : ctx.scope.Proper) :
    (Context.enterLoop i ctx).scope.Proper := by
  unfold Context.enterLoop
  split <;> exact h

section Yields

variable {body : Conversion (List String)} {ok : Bool}

theorem yields_inLoop (x i : Name) (h : Yields Scope.Proper (Grade ok 4) body) :
    Yields Scope.Proper (fun lines => Grade ok 0 lines ∧ Headed lines) (inLoop x i body) := by
  intro ctx hctx
  obtain ⟨hgrade, hproper⟩ := h _ (proper_enterLoop (String.ofList i.ident.chars) hctx)
  have hopens := Line.opens_head 0 foreach (overIndex x i)
  have huncalled : Uncalled (Line.head 0 foreach (overIndex x i)).code :=
    Line.uncalled_head 0 (by decide) (by decide) (uncalled_overIndex x i)
  have hsuite : Grade ok 0 _ := Grade.headed hopens huncalled hgrade
  have hheaded := Grade.isHeaded hopens huncalled hgrade
  rw [← loopSuite_eq] at hsuite hheaded
  exact ⟨⟨hsuite.tidyLines, hheaded.tidyLines⟩, hproper⟩

theorem yields_arrow (a b : Relation) :
    Yields Scope.Proper (fun lines => Grade true 0 lines ∧ Headed lines) (arrowLines a b) := by
  intro ctx hs
  have hopens := Line.opens_head 0 implies
    ('(' :: spell (solved ctx.scope true a.formula.lexemes) ++ [')'])
  have huncalled := Line.uncalled_head 0 (by decide : '(' ∉ implies) (by decide)
    (uncalled_parens (uncalled_solved true hs a.formula))
  have hbody := grade_ofFormula hs b.formula 4
  rw [arrowLines_run hs]
  exact ⟨⟨Grade.headed hopens huncalled hbody, Grade.isHeaded hopens huncalled hbody⟩, hs⟩

theorem yields_comparison_grade (c : Sv.Comparison) (level : Nat) :
    Yields Scope.Proper (fun lines => Grade true 0 lines ∧ Grade true (4 * level) (relined level lines))
      (comparisonLines c) := by
  intro ctx hs
  rw [comparisonLines_run hs]
  exact ⟨⟨grade_ofFormula hs _ 0, relined_texts level _ ▸ grade_ofFormula hs _ (4 * level)⟩, hs⟩

end Yields

/-- The conditions are formulas. -/
def AllFormulas (cs : List Condition) : Prop := ∀ c ∈ cs, ∃ f : Formula, c.text = f.text

section Trees

variable {ok ok' : Bool} {a b : Conversion (List String)}

theorem yields_branch {c : Condition} (hc : ∃ f : Formula, c.text = f.text) {level : Nat}
    {line : String → String} {name : List Char} (hname : '(' ∉ name)
    (hlast : ∀ c ∈ name.getLast?, c ≠ 'r') (hline : ∀ cond, indent level ++ line cond =
      (Line.head (4 * level) name ('(' :: cond.toList ++ [')'])).text)
    (ha : Yields Scope.Proper (Grade ok (4 * (level + 1))) a)
    (hb : Yields Scope.Proper (Grade ok' (4 * level)) b) :
    Yields Scope.Proper (Grade (ok && ok') (4 * level)) (inBranch level line c a b) := by
  obtain ⟨f, hf⟩ := hc
  refine ha.inBranch hb fun scope hs x y hx hy => ?_
  have huncalled := uncalled_branch hs f hf (4 * level) hname hlast
  exact (hx.suite (hline _) (Line.opens_head _ _ _) rfl huncalled).append hy

mutual

theorem grade_write : ∀ s : Sv.Stmt, AllFormulas s.conditions →
    Yields Scope.Proper (Grade s.isEven 0) s.write
  | .leaf c, _ => by
    rw [Sv.Stmt.write, Sv.Stmt.isEven]
    exact (yields_comparison_grade c.comparison 0).mono fun _ h => h.1
  | .implies a b, _ => by
    rw [Sv.Stmt.write, Sv.Stmt.isEven]
    exact (yields_arrow a b).mono fun _ h => h.1
  | .loop x i body, h => by
    rw [Sv.Stmt.write, Sv.Stmt.isEven]
    exact (yields_inLoop x i (grade_writeEach body (fun _ _ h => h.shifted i) h)).mono fun _ h => h.1
  | .cond c body more, h => by
    rw [Sv.Stmt.conditions, AllFormulas, forall_mem_append, forall_mem_cons] at h
    rw [Sv.Stmt.write, Sv.Stmt.isEven]
    have hchain := yields_branch h.1.1 (by decide) (by decide) (ifLine_text 0)
      (grade_block body 1 h.1.2) (grade_branches more 0 h.2)
    exact (hchain.change fun _ h => h.tidyLines).note conditionalNote

theorem grade_writeIn : ∀ (s : Sv.Stmt) (level : Nat), AllFormulas s.conditions →
    Yields Scope.Proper (Grade (s.isFlat && s.isEven) (4 * level)) (s.writeIn level)
  | .leaf c, level, _ => by
    rw [Sv.Stmt.writeIn]
    exact (yields_comparison_grade c.comparison level).change fun _ h => h.2
  | .implies a b, level, _ => by
    rw [Sv.Stmt.writeIn]
    exact (yields_arrow a b).change fun _ h => h.2.relined level
  | .loop x i body, level, h => by
    rw [Sv.Stmt.writeIn]
    exact (yields_inLoop x i (grade_writeEach body (fun _ _ h => h.shifted i) h)).change
      fun _ h => h.2.relined level
  | .cond c body more, level, h => by
    rw [Sv.Stmt.conditions, AllFormulas, forall_mem_append, forall_mem_cons] at h
    rw [Sv.Stmt.writeIn, Sv.Stmt.isFlat, Sv.Stmt.isEven, Bool.true_and]
    exact yields_branch h.1.1 (by decide) (by decide) (ifLine_text level)
      (grade_block body (level + 1) h.1.2) (grade_branches more level h.2)

theorem grade_branches : ∀ (more : Branches) (level : Nat), AllFormulas more.conditions →
    Yields Scope.Proper (Grade more.isEven (4 * level)) (more.write level)
  | .done, level, _ => by
    rw [Branches.write, Branches.isEven]
    exact yields_pure grade_nil
  | .elseIf c body more, level, h => by
    rw [Branches.conditions, AllFormulas, forall_mem_append, forall_mem_cons] at h
    rw [Branches.write, Branches.isEven]
    exact yields_branch h.1.1 (by decide) (by decide) (elseIfLine_text level)
      (grade_block body (level + 1) h.1.2) (grade_branches more level h.2)
  | .otherwise body, level, h => by
    rw [Branches.write, Branches.isEven]
    have huncalled := Line.uncalled_head (4 * level) (by decide : '(' ∉ elseThen) (by decide)
      isChain_nil
    exact (grade_block body (level + 1) h).change fun _ hx =>
      hx.suite (elseLine_text level) (Line.opens_head _ _ _) rfl huncalled

theorem grade_block : ∀ (b : Block) (level : Nat), AllFormulas b.conditions →
    Yields Scope.Proper (Grade (b.isFlat && b.isEven) (4 * level)) (b.write level)
  | .nil, level, _ => by
    rw [Block.write]
    exact yields_pure grade_nil
  | .cons s rest, level, h => by
    rw [Block.conditions, AllFormulas, forall_mem_append] at h
    have hand : ∀ p q r s : Bool, (p && q && (r && s)) = (p && r && (q && s)) := by decide
    rw [Block.write, Block.isFlat, Block.isEven, hand]
    exact (grade_writeIn s level h.1).both (grade_block rest level h.2) fun _ _ => Grade.append

theorem grade_writeEach : ∀ (b : Block) {depth : Nat} {change : List String → List String},
    (∀ ok x, Grade ok 0 x → Grade ok depth (change x)) → AllFormulas b.conditions →
    Yields Scope.Proper (Grade b.isEven depth) (b.writeEach change)
  | .nil, depth, change, _, _ => by
    rw [Block.writeEach]
    exact yields_pure grade_nil
  | .cons s rest, depth, change, hchange, h => by
    rw [Block.conditions, AllFormulas, forall_mem_append] at h
    rw [Block.writeEach, Block.isEven]
    exact ((grade_write s h.1).change fun _ => hchange _ _).both
      (grade_writeEach rest hchange h.2) fun _ _ => Grade.append

end

end Trees

/-! ## Constraint bodies -/

/-- What conversion gives for a body are suites exactly if no block of a branch directly holds an
implication or a loop, those that are taken in apart. -/
theorem wellIndented_convertBody_iff (l : Layout) {ctx : Context} (hs : ctx.scope.Proper) {b : Block}
    (hb : AllFormulas b.conditions) :
    WellIndented ((convertBody (String.ofList (b.text l 0))).run ctx).1 ↔
      (b.pruned .later).isEven = true := by
  have hformulas : AllFormulas (b.pruned .later).conditions :=
    fun c hc => hb c (b.conditions_pruned .later hc)
  obtain ⟨hgrade, -⟩ := @grade_writeEach (b.pruned .later) 0 id (fun _ _ => id) hformulas ctx hs
  have hrun : ((convertBody (String.ofList (b.text l 0))).run ctx).1 =
      (((b.pruned .later).writeEach id).run ctx).1 := by
    rw [convertBody_text]
    exact filter_isOrdering_append hgrade.isOrdering
  rw [hrun]
  exact hgrade.wellIndented_iff

/-- `if (p == 1) {q == 2 -> r == 3;}` -/
def arrowInBranch : Block :=
  .cons (.cond (.ofFormula (.compare (letterIs 'p' 1)) (by decide) (by decide))
    (.cons (.implies ⟨.compare (letterIs 'q' 2), by decide, by decide⟩
      ⟨.compare (letterIs 'r' 3), by decide, by decide⟩) .nil) .done) .nil

theorem convertBody_flattens_arrow :
    String.ofList (arrowInBranch.text .fours 0) =
        "if (p == 1) \x7b\n    q == 2 -> r == 3;\n\x7d\n" ∧
      ((convertBody (String.ofList (arrowInBranch.text .fours 0))).run {}).1 =
        ["with vsc.if_then(self.p == 1):", "    with vsc.implies(self.q == 2):",
          "    self.r == 3"] ∧
      ¬ WellIndented ((convertBody (String.ofList (arrowInBranch.text .fours 0))).run {}).1 := by
  have hs : Scope.Proper {} := fun x cls h => by cases h
  have hformulas : AllFormulas arrowInBranch.conditions :=
    List.forall_mem_singleton.2 ⟨.compare (letterIs 'p' 1), rfl⟩
  have hiff := @wellIndented_convertBody_iff .fours {} hs arrowInBranch hformulas
  refine ⟨by decide +kernel, by decide +kernel, fun hlines => ?_⟩
  have heven := hiff.1 hlines
  revert heven
  decide

end Stimulus.Stmt
