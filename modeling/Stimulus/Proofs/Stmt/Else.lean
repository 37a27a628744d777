import Mathlib.Data.List.Basic
import Mathlib.Data.Nat.SuccPred
import Stimulus.Proofs.Stmt.Nested
import Stimulus.Proofs.Stmt.Reference

/-!
# Every `else` belongs to its `if`

The lines of statements without braces. The parts that are cut out of a conditional are conditionals
of the same kind, and conversion goes through them as through the tree.
-/

open List
open String (ofList)

namespace Stimulus.Sv.Nested

open Stimulus.Stmt Stimulus.Expr

/-- The head of a branch with a condition: the first one, or one after `else`. -/
def headLine (after : Bool) (cond : String) : String := if after then elseIfLine cond else ifLine cond

/-- The lines of a statement at a level, where it stands for itself or after an `else`. After an
`else`, a test is a branch of its own and a conditional is the next branch of the chain. -/
def lines (scope : Scope) {full : Bool} : Nested full → (after : Bool) → (level : Nat) → List String
  | leaf t, false, level => [indent level ++ convert scope (ofList t.text)]
  | leaf t, true, level =>
    [indent level ++ "with vsc.else_then:", indent (level + 1) ++ convert scope (ofList t.text)]
  | ifElse c body other, after, level =>
    (indent level ++ headLine after (convert scope (ofList c.text) true)) ::
      (body.lines scope false (level + 1) ++ other.lines scope true level)
  | ifThen c body, after, level =>
    (indent level ++ headLine after (convert scope (ofList c.text) true)) ::
      body.lines scope false (level + 1)

theorem lines_ne_nil (scope : Scope) {full : Bool} (s : Nested full) (after : Bool) (level : Nat) :
    s.lines scope after level ≠ [] := by
  cases s with
  | leaf => cases after <;> simp [lines]
  | ifElse | ifThen => simp [lines]

end Stimulus.Sv.Nested

namespace Stimulus.Stmt

open Text Sv Pattern Expr

/-! ## Lines of branches -/

section Lines

variable {scope : Scope}

theorem exists_texts_lines (hs : scope.Proper) {full : Bool} (s : Nested full) (after : Bool) (level : Nat) :
    ∃ ls, s.lines scope after level = texts ls := by
  have hhead : ∀ (after : Bool) (level : Nat) (cond : String),
      ∃ l : Line, indent level ++ Nested.headLine after cond = l.text := by
    intro after level cond
    cases after with
    | false => exact ⟨_, ifLine_text level cond⟩
    | true => exact ⟨_, elseIfLine_text level cond⟩
  induction s generalizing after level with
  | leaf t =>
    cases after with
    | false =>
      rw [Nested.lines, Test.text, comparison_text hs]
      exact ⟨[_], rfl⟩
    | true =>
      rw [Nested.lines, elseLine_text, Test.text, comparison_text hs]
      exact ⟨[_, _], rfl⟩
  | ifElse c body other ihb iho =>
    obtain ⟨l, hl⟩ := hhead after level (Expr.convert scope (ofList c.text) true)
    obtain ⟨ls, hls⟩ := ihb false (level + 1)
    obtain ⟨ms, hms⟩ := iho true level
    exact ⟨l :: (ls ++ ms), by rw [Nested.lines, hl, hls, hms, texts_cons, texts_append]⟩
  | ifThen c body ih =>
    obtain ⟨l, hl⟩ := hhead after level (Expr.convert scope (ofList c.text) true)
    obtain ⟨ls, hls⟩ := ih false (level + 1)
    exact ⟨l :: ls, by rw [Nested.lines, hl, hls, texts_cons]⟩

theorem isOrdering_lines (hs : scope.Proper) {full : Bool} (s : Nested full) (after : Bool) (level : Nat) :
    ∀ line ∈ s.lines scope after level, isOrdering line = false := by
  have htest : ∀ (level : Nat) (t : Test),
      isOrdering (indent level ++ Expr.convert scope (ofList t.text)) = false := by
    intro level t
    rw [Test.text, comparison_text hs]
    exact Line.isOrdering_text _ (not_ordering_of_uncalled (uncalled_solved false hs _))
  have hhead : ∀ (after : Bool) (level : Nat) (c : Test), isOrdering
      (indent level ++ Nested.headLine after (Expr.convert scope (ofList c.text) true)) =
        false := by
    intro after level c
    have hcond : isOrdering (Expr.convert scope (ofList c.text) true) = false := by
      have := isOrdering_formula hs true (.compare c.comparison)
      rwa [Formula.text_compare] at this
    cases after with
    | false => exact (isOrdering_head hcond level).1
    | true => exact (isOrdering_head hcond level).2
  induction s generalizing after level with
  | leaf t =>
    cases after with
    | false => simpa [Nested.lines] using htest level t
    | true => simpa [Nested.lines] using ⟨isOrdering_elseLine level, htest (level + 1) t⟩
  | ifElse c body other ihb iho =>
    rw [Nested.lines, forall_mem_cons, forall_mem_append]
    exact ⟨hhead after level c, ihb false (level + 1), iho true level⟩
  | ifThen c body ih =>
    rw [Nested.lines, forall_mem_cons]
    exact ⟨hhead after level c, ih false (level + 1)⟩

theorem suite_of_ne_nil {level : Nat} {head : String} {lines : List String} (h : lines ≠ []) :
    suite level head lines = (indent level ++ head) :: lines := by
  rw [suite, if_neg (by simpa using h)]

end Lines

/-! ## Conversion -/

section Conversion

variable {g : Gaps} {scope : Scope} {full : Bool}

theorem yields_collect {I : Scope → Prop} {P : List String → Prop} {α : Type}
    {f : α → Conversion (List String)} {x : α} (h : Yields I P (f x)) :
    Yields I P (collect f [x]) := by
  rw [collect_cons]
  refine h.both (Q := (· = [])) (yields_pure rfl) ?_
  rintro lines _ hlines rfl
  rwa [append_nil]

section Block

variable {e : List Char} (he : e = [] ∨ e = [';'])

include he

theorem yields_block_test (hs : scope.Proper) (t : Test) {fuel : Nat} (hf : 1 < fuel) (level : Nat) :
    Yields (· = scope) (· = Nested.lines scope (.leaf t) false level)
      (blockWithin fuel (ofList (t.text ++ e)) level) := by
  obtain ⟨fuel, rfl⟩ : ∃ n, fuel = n + 1 + 1 := ⟨fuel - 2, by omega⟩
  have hparts := blockParts_nested (g := .single) he (.leaf t)
  have htrim := trim_nested (g := .single) (.leaf t) (isBlank_stop he)
  have hstatement : convertWithin (fuel + 1) (ofList t.text) = comparisonLines t.comparison := by
    have := statementLines_comparison (convertWithin fuel) (conditionalWithin fuel · 0) t.comparison
      (.inl rfl)
    rwa [append_nil] at this
  have hif : ifHead.fitsStart (ofList t.text) = false := by
    have := fitsStart_nested (g := .single) (.leaf t) []
    rwa [append_nil] at this
  rw [Nested.chars] at hparts htrim
  rw [blockWithin_succ, strip_of_trim htrim, hparts]
  refine yields_collect ?_
  have hpart : partLines (convertWithin (fuel + 1)) (conditionalWithin (fuel + 1) · level) level
      (ofList (t.text ++ if Nested.isCond (.leaf t) then e else [])) =
        (do return relined level (← comparisonLines t.comparison)) := by
    rw [Nested.isCond, if_neg Bool.false_ne_true, append_nil, partLines,
      if_neg (isEmpty_of_starts t.starts), hif, if_neg Bool.false_ne_true, hstatement]
  rw [hpart]
  refine (yields_comparison hs t.comparison).change ?_
  rintro _ rfl
  rw [relined_texts, Nested.lines, Test.text, comparison_text hs]
  rfl

theorem yields_block_cond {s : Nested full} (hs : s.isCond = true) {P : List String → Prop}
    {fuel level : Nat}
    (h : Yields (· = scope) P (conditionalWithin fuel (ofList (s.chars g ++ e)) level)) :
    Yields (· = scope) P (blockWithin (fuel + 1) (ofList (s.chars g ++ e)) level) := by
  rw [blockWithin_succ, strip_of_trim (trim_nested s (isBlank_stop he)), blockParts_nested he,
    if_pos hs]
  refine yields_collect ?_
  have hpart : partLines (convertWithin fuel) (conditionalWithin fuel · level) level
      (ofList (s.chars g ++ e)) =
        conditionalWithin fuel (ofList (s.chars g ++ e)) level := by
    rw [partLines, if_neg (isEmpty_of_starts ((s.starts_chars g).append e)), fitsStart_nested,
      if_pos hs]
  rwa [hpart]

end Block

theorem yields_headed {block : String → Conversion (List String)} {more : Conversion (List String)}
    {level : Nat} {x y : List String} {body : String} (hx : x ≠ [])
    (hb : Yields (· = scope) (· = x) (block body)) (hm : Yields (· = scope) (· = y) more)
    (after : Bool) (c : Test) :
    Yields (· = scope) (· = (indent level ++ Nested.headLine after
        (Expr.convert scope (ofList c.text) true)) :: (x ++ y)) (do
      let cond ← convertCondition (ofList c.text)
      let lines ← branchLines block level (Nested.headLine after cond) body
      return lines ++ (← more)) := by
  rintro ctx rfl
  obtain ⟨hlines, hscope⟩ := hb ctx rfl
  obtain ⟨hrest, hscope'⟩ := hm _ hscope
  refine ⟨?_, hscope'⟩
  show suite level _ ((block body).run ctx).1 ++ (more.run ((block body).run ctx).2).1 = _
  rw [hlines, hrest, suite_of_ne_nil hx]
  rfl

variable (g scope) in
/-- What conversion gives for a conditional, and for a statement after `else`. -/
structure Converts (s : Nested full) : Prop where
  first : s.isCond = true → ∀ {fuel : Nat}, (s.chars g).length ≤ fuel → ∀ {e : List Char},
    e = [] ∨ e = [';'] → ∀ level, Yields (· = scope) (· = s.lines scope false level)
      (conditionalWithin fuel (ofList (s.chars g ++ e)) level)
  further : ∀ {fuel more : Nat}, (s.chars g).length < fuel → (s.chars g).length < more →
    ∀ {e : List Char}, e = [] ∨ e = [';'] → ∀ level,
    Yields (· = scope) (· = s.lines scope true level) (furtherBranches (blockWithin fuel · (level + 1))
      level more (ofList (g.elseHead ++ (s.chars g ++ e))))

theorem Converts.block {s : Nested full} (h : Converts g scope s) (hs : scope.Proper) {fuel : Nat}
    (hf : (s.chars g).length < fuel) {e : List Char} (he : e = [] ∨ e = [';']) (level : Nat) :
    Yields (· = scope) (· = s.lines scope false level)
      (blockWithin fuel (ofList (s.chars g ++ e)) level) := by
  obtain ⟨fuel, rfl⟩ := Nat.exists_eq_add_of_lt (Nat.zero_lt_of_lt hf)
  rw [Nat.zero_add] at hf ⊢
  cases s with
  | leaf t =>
    have hpos : 0 < t.text.length := length_pos_iff.2 t.starts.ne_nil
    rw [Nested.chars] at hf
    exact yields_block_test he hs t (by omega) level
  | ifElse | ifThen => exact yields_block_cond he rfl (h.first rfl (by omega) he level)

theorem converts_test (hs : scope.Proper) (t : Test) : Converts g scope (.leaf t) := by
  have hpos : 0 < t.text.length := length_pos_iff.2 t.starts.ne_nil
  constructor
  · intro h
    cases h
  · intro fuel more hf hmore e he level
    rw [Nested.chars] at hf hmore ⊢
    obtain ⟨more, rfl⟩ := Nat.exists_eq_add_of_lt (by omega : 0 < more)
    obtain ⟨hif, helse⟩ := elseBranch?_test (g := g) t he
    have hblock := yields_block_test (.inl rfl) hs t (by omega : 1 < fuel) (level + 1)
    rw [append_nil] at hblock
    rw [Nat.zero_add, furtherBranches, hif, helse]
    dsimp only
    rw [furtherBranches_inert inert_nil rfl]
    rintro ctx rfl
    obtain ⟨hlines, hscope⟩ := hblock ctx rfl
    refine ⟨?_, hscope⟩
    show suite level _ ((blockWithin fuel (ofList t.text) (level + 1)).run ctx).1 ++ [] = _
    rw [hlines, suite_of_ne_nil (Nested.lines_ne_nil _ _ _ _), append_nil]
    rfl

theorem converts_cond {full' : Bool} {s : Nested full} {body : Nested full'} {c : Test}
    {r : List Char → List Char} {l : Nat → List String} (hs : scope.Proper)
    (htext : ∀ e, s.chars g ++ e = g.cond c (body.chars g ++ r e))
    (hlines : ∀ after level, s.lines scope after level =
      (indent level ++ Nested.headLine after (Expr.convert scope (ofList c.text) true)) ::
        (body.lines scope false (level + 1) ++ l level))
    (hrest : ∀ {e}, e = [] ∨ e = [';'] →
      Trails full' (r e) ∧ ∀ c ∈ (r e).getLast?, isBlank c = false)
    (hbody : Converts g scope body)
    (hmore : ∀ {fuel more : Nat}, (s.chars g).length ≤ fuel + 1 → (s.chars g).length ≤ more →
      ∀ {e}, e = [] ∨ e = [';'] → ∀ level, Yields (· = scope) (· = l level)
        (furtherBranches (blockWithin fuel · (level + 1)) level more
          (strip (ofList ((r e).drop 1))))) : Converts g scope s := by
  have hlen : (body.chars g).length + 3 < (s.chars g).length := by
    have := congrArg List.length (htext [])
    have hpos : 0 < c.text.length := length_pos_iff.2 c.starts.ne_nil
    simp [Gaps.cond, Gaps.ifHead, Gaps.tested] at this
    omega
  -- what is converted for the body of the first branch
  have hblock : ∀ {fuel : Nat}, (s.chars g).length ≤ fuel + 1 → ∀ {e}, e = [] ∨ e = [';'] →
      ∀ level, Yields (· = scope) (· = body.lines scope false level)
        (blockWithin fuel (ofList (cutOut g body (r e))) level) := by
    intro fuel hf e he level
    refine hbody.block hs (by omega) ?_ level
    split
    · exact (hrest he).1.take_cases
    · exact .inl rfl
  constructor
  · intro _ fuel hf e he level
    obtain ⟨fuel, rfl⟩ := Nat.exists_eq_add_of_lt (by omega : 0 < fuel)
    rw [Nat.zero_add] at hf ⊢
    obtain ⟨htrails, hlast⟩ := hrest he
    rw [conditionalWithin_succ, chainLines, htext, ifBranch?_nested c body htrails hlast, hlines]
    refine yields_headed (Nested.lines_ne_nil _ _ _ _) (hblock (by omega) he (level + 1))
      (hmore (by omega) ?_ he level) false c
    rw [String.length_ofList, ← htext, length_append]
    omega
  · intro fuel more hf hmore' e he level
    obtain ⟨more, rfl⟩ := Nat.exists_eq_add_of_lt (by omega : 0 < more)
    obtain ⟨htrails, hlast⟩ := hrest he
    rw [Nat.zero_add, furtherBranches, htext, elseIfBranch?_nested c body htrails hlast, hlines]
    exact yields_headed (Nested.lines_ne_nil _ _ _ _) (hblock (by omega) he (level + 1))
      (hmore (by omega) (by omega) he level) true c

theorem converts (hs : scope.Proper) (s : Nested full) : Converts g scope s := by
  induction s with
  | leaf t => exact converts_test hs t
  | ifThen c body ih =>
    refine converts_cond (r := id) (l := fun _ => []) (c := c) hs
      (fun e => g.cond_append c _ e) (fun after level => by simp [Nested.lines])
      (fun he => ⟨trails_stop he, isBlank_stop he⟩) ih fun _ _ e he level => ?_
    have hnil : (id e).drop 1 = [] := by
      rcases he with rfl | rfl <;> rfl
    rw [hnil, furtherBranches_inert inert_nil (strip_strip _)]
    exact yields_pure rfl
  | ifElse c body other ihb iho =>
    have hnext : ∀ e, (g.orElse (other.chars g) ++ e).drop 1 =
        g.next ++ (g.elseHead ++ (other.chars g ++ e)) := by
      intro e
      simp [Gaps.orElse]
    have hends : ∀ {e}, e = [] ∨ e = [';'] → Trim (g.elseHead ++ (other.chars g ++ e)) := by
      intro e he
      refine ⟨by simp [Gaps.elseHead]; decide, fun d hd => ?_⟩
      rw [getLast?_append_of_ne_nil _ (by simp [(other.starts_chars g).ne_nil])] at hd
      exact (trim_nested other (isBlank_stop he)).last d hd
    refine converts_cond (r := fun e => g.orElse (other.chars g) ++ e) (l := other.lines scope true) (c := c) hs
      (fun e => by rw [Nested.chars, g.cond_append, append_assoc]) (fun after level => rfl)
      (fun {e} he => ⟨.stop (by simp), fun d hd => ?_⟩) ihb fun hfuel hmore e he level => ?_
    · have hsplit : g.orElse (other.chars g) ++ e =
          (';' :: g.next) ++ (g.elseHead ++ (other.chars g ++ e)) := by
        simp [Gaps.orElse]
      rw [hsplit, getLast?_append_of_ne_nil _ (by simp [Gaps.elseHead])] at hd
      exact (hends he).last d hd
    · have hstrip : strip (ofList ((g.orElse (other.chars g) ++ e).drop 1)) =
          ofList (g.elseHead ++ (other.chars g ++ e)) := by
        rw [hnext, strip_left g.blank_next (hends he)]
      have hlen : (other.chars g).length + 2 < (Nested.chars g (.ifElse c body other)).length := by
        simp [Nested.chars, Gaps.cond, Gaps.ifHead, Gaps.tested, Gaps.orElse]
        omega
      rw [hstrip]
      exact iho.further (by omega) (by omega) he level

theorem statementLines_nested {statement conditional : String → Conversion (List String)}
    {s : Nested full} (hs : s.isCond = true) :
    statementLines statement conditional (ofList (s.text g)) = (do
      modify (Context.note conditionalNote)
      let lines ← conditional (ofList (s.chars g))
      if !lines.isEmpty then return tidyLines lines
      modify (Context.note "Conditional parsing could not build a valid chain")
      return tidyLines (unreadConditional (ofList (s.chars g)))) := by
  have hhead : ∀ d ∈ (s.chars g).head?, d = 'i' := by
    rw [s.chars_of_isCond g hs]
    exact fun d hd => (Option.some.inj hd).symm
  have hbrace : '{' ∉ s.chars g :=
    s.not_mem_chars g (by decide) (by decide) (by decide) (by decide)
  have harrow : '-' ∉ s.chars g :=
    s.not_mem_chars g (by decide) (by decide) (by decide) (by decide)
  have hforms : ∀ scope, firstForm? leadingForms scope (ofList (s.chars g)) = none :=
    fun scope => leadingForms_of_head scope (fun d hd => by simp [hhead d hd])
      (fun d hd => by simp [hhead d hd])
  have hvalues : ∀ scope, firstForm? valueForms scope (ofList (s.chars g)) = none := by
    intro scope
    rw [valueForms_braceless scope hbrace, implies?_none scope harrow]
  have hif : (blanks ++ ifHead).fitsStart (ofList (s.chars g)) = true := by
    have := fitsStart_blanks (g := g) s []
    rwa [append_nil, hs] at this
  rw [statementLines, Nested.text, strip_nested (.inr rfl)]
  refine (if_neg (isEmpty_of_starts (s.starts_chars g))).trans ?_
  simp only [hforms, hvalues, loopHead_none hbrace, hif, if_true]
  rfl

theorem yields_tidy {m : Conversion (List String)} {lines : List String}
    (hm : Yields (· = scope) (· = lines) m) (hne : lines ≠ []) (htidy : tidyLines lines = lines)
    (other : Conversion (List String)) : Yields (· = scope) (· = lines) (do
      let found ← m
      if !found.isEmpty then return tidyLines found
      other) := by
  intro ctx hctx
  obtain ⟨hlines, hscope⟩ := hm ctx hctx
  have hpos : (!lines.isEmpty) = true := by simpa using hne
  have hrun : (do
      let found ← m
      if !found.isEmpty then return tidyLines found
      other : Conversion (List String)).run ctx = (lines, (m.run ctx).2) := by
    show (if !(m.run ctx).1.isEmpty then (pure (tidyLines (m.run ctx).1) : Conversion (List String))
      else other).run (m.run ctx).2 = _
    rw [hlines, if_pos hpos, htidy]
    rfl
  rw [hrun]
  exact ⟨rfl, hscope⟩

theorem yields_convert (hs : scope.Proper) (s : Nested full) :
    Yields (· = scope) (· = s.lines scope false 0) (convert (ofList (s.text g))) := by
  obtain ⟨fuel, hfuel⟩ : ∃ fuel, depthBound (ofList (s.text g)) = fuel + 1 := ⟨_, rfl⟩
  rw [convert, hfuel, convertWithin_succ]
  by_cases hcond : s.isCond = true
  · have hlen : (s.chars g).length ≤ fuel := by
      simp [depthBound, Nested.text] at hfuel
      omega
    have hlines := (converts hs s).first hcond hlen (.inl rfl) 0
    obtain ⟨ls, hls⟩ := exists_texts_lines hs s false 0
    rw [append_nil] at hlines
    rw [statementLines_nested hcond]
    exact (yields_tidy hlines (s.lines_ne_nil scope false 0) (hls ▸ tidyLines_texts ls) _).note
      conditionalNote
  · cases s with
    | ifElse | ifThen => exact absurd rfl hcond
    | leaf t =>
      have hstatement := statementLines_comparison (convertWithin fuel) (conditionalWithin fuel · 0)
        t.comparison (.inr rfl)
      rw [Nested.text, Nested.chars, Test.text, hstatement, Nested.lines, Test.text,
        comparison_text hs]
      exact yields_comparison hs t.comparison

end Conversion

/-- Conversion of a statement without braces gives the lines of its tree: every `else` belongs to its
own `if`, each branch is one level deeper, and a conditional after `else` goes on with the chain. -/
theorem convertBody_nested (g : Gaps) {ctx : Context} (hs : ctx.scope.Proper) {full : Bool}
    (s : Nested full) :
    ((convertBody (String.ofList (s.text g))).run ctx).1 = s.lines ctx.scope false 0 := by
  have hlines := (yields_collect (yields_convert (g := g) hs s) ctx rfl).1
  have hsplit : split (String.ofList (s.text g)) = [String.ofList (s.text g)] :=
    split_nested (.inr rfl) s
  rw [convertBody, hsplit]
  simp only [List.partition_eq_filter_filter]
  generalize collect convert [String.ofList (s.text g)] = m at hlines ⊢
  show List.filter isOrdering (m.run ctx).1 ++ List.filter _ (m.run ctx).1 = _
  rw [hlines]
  exact filter_isOrdering_append (isOrdering_lines hs s false 0)

/-- The letters that are fields on their own. -/
abbrev IsField (c : Char) : Prop :=
  nameHead c = true ∧ ofList [c] ∉ Expr.reservedWords ∧ Free blockWords [c]

/-- A field of one letter compared with a number. -/
def letterTest (c : Char) (n : Nat) (h : IsField c := by decide) : Test where
  var :=
    { chars := [c]
      shape := by simp [hasShape, h.1]
      unreserved := h.2.1
      free := h.2.2
      notIf := by simp
      notElse := by simp }
  rel := .eq
  value := n

/-- `if (a == 1) if (b == 2) c == 3; else d == 4;` -/
def danglingElse : Nested false :=
  .ifThen (letterTest 'a' 1)
    (.ifElse (letterTest 'b' 2) (.leaf (letterTest 'c' 3)) (.leaf (letterTest 'd' 4)))

theorem convertBody_danglingElse :
    String.ofList (danglingElse.text .single) = "if (a == 1) if (b == 2) c == 3; else d == 4;" ∧
      ((convertBody (String.ofList (danglingElse.text .single))).run {}).1 =
        ["with vsc.if_then(self.a == 1):", "    with vsc.if_then(self.b == 2):",
          "        self.c == 3", "    with vsc.else_then:", "        self.d == 4"] := by
  have hs : Scope.Proper {} := fun x cls h => by cases h
  have hlines := @convertBody_nested .single {} hs _ danglingElse
  refine ⟨by decide +kernel, hlines.trans ?_⟩
  decide +kernel

end Stimulus.Stmt
