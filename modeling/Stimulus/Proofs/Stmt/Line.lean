import Stimulus.Proofs.Expr.Shape
import Stimulus.Proofs.Stmt.Simulate

/-!
# Lines of code

A line is some blanks and code that starts and ends with ink and does not end with a semicolon. What
is written for a statement is made of such lines, and what is done to lines along the way keeps their
code.
-/

open List
open String (ofList toList_ofList)

namespace Stimulus.Stmt

open Text Sv Pattern Expr

/-! ## Lines -/

/-- The end of a line of code. -/
def IsLineEnd (c : Char) : Prop := isBlank c = false ∧ c ≠ ';'

/-- Blanks and code. -/
structure Line where
  depth : Nat
  code : List Char
  starts : Starts (isBlank · = false) code
  ends : Ends IsLineEnd code

namespace Line

/-- The text of a line. -/
def text (l : Line) : String := ofList (List.replicate l.depth ' ' ++ l.code)

/-- The line with other blanks. -/
def moved (l : Line) (depth : Nat) : Line := { l with depth }

theorem trim (l : Line) : Trim l.code := ⟨l.starts.head, (l.ends.mono fun _ h => h.1).last⟩

theorem blank_replicate (n : Nat) : Blank (List.replicate n ' ') := by
  intro c hc
  rw [eq_of_mem_replicate hc]
  decide

theorem strip_text (l : Line) : strip l.text = ofList l.code :=
  strip_left (blank_replicate l.depth) l.trim

theorem ends_text (l : Line) : Ends IsLineEnd (List.replicate l.depth ' ' ++ l.code) :=
  l.ends.append _

theorem stripRightOf_text (l : Line) : stripRightOf ';' l.text = l.text :=
  stripRightOf_of_last (l.ends_text.mono fun _ h => h.2).last

theorem stripRight_text (l : Line) : stripRight l.text = l.text :=
  stripRight_of_last (l.ends_text.mono fun _ h => h.1).last

theorem hasInk_text (l : Line) : hasInk l.text = true := by
  obtain ⟨c, r, hcr, hc⟩ := l.starts
  exact hasInk_ofList (c := c) (by simp [hcr]) hc

theorem code_ne_semicolon (l : Line) : l.code ≠ [';'] := by
  obtain ⟨r, c, hrc, -, hc⟩ := l.ends
  intro h
  rw [hrc, append_eq_singleton_iff] at h
  simp [hc] at h

end Line

def texts (ls : List Line) : List String := ls.map Line.text

@[simp] theorem texts_nil : texts [] = [] := rfl

@[simp] theorem texts_cons (l : Line) (ls : List Line) : texts (l :: ls) = l.text :: texts ls := rfl

@[simp] theorem texts_append (ls ms : List Line) : texts (ls ++ ms) = texts ls ++ texts ms :=
  map_append

theorem tidyLines_texts (ls : List Line) : tidyLines (texts ls) = texts ls := by
  have hkeep : ∀ line ∈ texts ls, (hasInk line && strip line != ";") = true := by
    intro line hline
    obtain ⟨l, -, rfl⟩ := mem_map.1 hline
    have hne : strip l.text ≠ ";" := by
      rw [l.strip_text]
      exact fun h => l.code_ne_semicolon (by rw [← toList_ofList (l := l.code), h]; rfl)
    rw [l.hasInk_text, Bool.true_and, bne_iff_ne]
    exact hne
  rw [tidyLines, filter_eq_self.2 hkeep, texts, map_map]
  refine map_congr_left fun l _ => ?_
  rw [Function.comp_apply, l.stripRightOf_text, l.stripRight_text]

theorem toList_indent (level : Nat) : (indent level).toList = List.replicate (4 * level) ' ' := by
  have hcopies : ∀ n, (List.replicate n "    ").flatMap String.toList =
      List.replicate (4 * n) ' ' := by
    intro n
    induction n with
    | zero => rfl
    | succ n ih =>
      rw [replicate_succ, flatMap_cons, ih, Nat.mul_succ, Nat.add_comm, replicate_add]
      rfl
  rw [indent, repeated, ← hcopies]
  simp

theorem indent_append (level : Nat) (cs : List Char) :
    indent level ++ ofList cs = ofList (List.replicate (4 * level) ' ' ++ cs) := by
  rw [← String.toList_inj, String.toList_append, toList_indent, toList_ofList,
    toList_ofList]

theorem relined_texts (level : Nat) (ls : List Line) :
    relined level (texts ls) = texts (ls.map (·.moved (4 * level))) := by
  induction ls with
  | nil => rfl
  | cons l ls ih =>
    obtain ⟨c, r, hcr, -⟩ := l.starts
    have hne : (ofList l.code).isEmpty = false := by simp [hcr]
    have hline : strip (stripRightOf ';' l.text) = ofList l.code := by
      rw [l.stripRightOf_text, l.strip_text]
    have hcons : relined level (l.text :: texts ls) =
        (indent level ++ ofList l.code) :: relined level (texts ls) := by
      rw [relined, map_cons, hline, filterMap_cons, hne]
      rfl
    rw [texts_cons, hcons, ih, indent_append]
    rfl

/-! ## Lines in a loop -/

/-- Some pieces `t` of a text are replaced by `r`. -/
inductive Rewrites (t r : List Char) : List Char → List Char → Prop where
  | nil : Rewrites t r [] []
  | keep (c : Char) {cs ds : List Char} (h : Rewrites t r cs ds) : Rewrites t r (c :: cs) (c :: ds)
  | change {cs ds : List Char} (h : Rewrites t r cs ds) : Rewrites t r (t ++ cs) (r ++ ds)

section Rewrites

variable {t r cs ds : List Char}

theorem rewrites_replaceFrom {p : Pattern} (hp : ∀ w, p.Spells w → w = t) (ht : t ≠ [])
    (before : List Char) (pos : Nat) (cs : List Char) :
    Rewrites t r cs (replaceFrom p (fun _ => ofList r) before pos cs) := by
  induction hn : cs.length using Nat.strong_induction_on generalizing cs before pos with
  | h n ih =>
    cases hw : walk p ⟨before, cs, pos, []⟩ some with
    | none =>
      cases cs with
      | nil =>
        rw [replaceFrom_nil hw]
        exact .nil
      | cons c cs =>
        rw [replaceFrom_skip hw]
        exact .keep c (ih cs.length (by simp at hn; omega) _ _ _ rfl)
    | some s =>
      obtain ⟨w, s', hpass, hspell, hs⟩ := spells_of_walk hw
      obtain rfl := Option.some.inj hs
      obtain rfl := hp w hspell
      have hcs : cs = w ++ s'.after := hpass.after
      have hpos : s'.pos = pos + w.length := hpass.pos
      have hlen := length_pos_iff.2 ht
      rw [replaceFrom_hit hw (by omega), toList_ofList]
      nth_rewrite 1 [hcs]
      exact .change (ih s'.after.length (by rw [← hn, hcs, length_append]; omega) _ _ _ rfl)

theorem Rewrites.blanks {n : Nat} (ht : ∀ c ∈ t.head?, c ≠ ' ') (hne : t ≠ [])
    (h : Rewrites t r (List.replicate n ' ' ++ cs) ds) :
    ∃ es, ds = List.replicate n ' ' ++ es ∧ Rewrites t r cs es := by
  induction n generalizing ds with
  | zero => exact ⟨ds, rfl, h⟩
  | succ n ih =>
    generalize hu : List.replicate (n + 1) ' ' ++ cs = u at h
    rw [replicate_succ, cons_append] at hu
    cases h with
    | nil => cases hu
    | keep c h =>
      obtain ⟨rfl, rfl⟩ := cons_eq_cons.1 hu
      obtain ⟨es, rfl, hes⟩ := ih h
      exact ⟨es, rfl, hes⟩
    | change h =>
      obtain ⟨c, t, rfl⟩ := exists_cons_of_ne_nil hne
      obtain ⟨rfl, -⟩ := cons_eq_cons.1 hu
      exact absurd rfl (ht ' ' rfl)

theorem Rewrites.starts {p : Char → Prop} (hr : Starts p r) (hs : Starts p cs)
    (h : Rewrites t r cs ds) : Starts p ds := by
  cases h with
  | nil => exact hs
  | keep c h =>
    obtain ⟨d, u, hdu, hd⟩ := hs
    obtain ⟨rfl, -⟩ := cons_eq_cons.1 hdu
    exact ⟨_, _, rfl, hd⟩
  | change h => exact hr.append _

theorem Rewrites.getLast? (hlast : t.getLast? = r.getLast?)
    (h : Rewrites t r cs ds) : ds.getLast? = cs.getLast? := by
  induction h with
  | nil => rfl
  | keep c h ih => rw [getLast?_cons, getLast?_cons, ih]
  | change h ih => rw [getLast?_append, getLast?_append, ih, hlast]

theorem Rewrites.ends {p : Char → Prop} (hlast : t.getLast? = r.getLast?)
    (hs : Ends p cs) (h : Rewrites t r cs ds) : Ends p ds := by
  have hds := h.getLast? hlast
  obtain ⟨u, c, rfl, hc⟩ := hs
  rw [getLast?_concat] at hds
  exact ⟨ds.dropLast, c, (dropLast_append_getLast? c hds).symm, hc⟩

theorem Rewrites.uncalled (hr : '(' ∉ r) (hne : r ≠ []) (hlast : t.getLast? = r.getLast?)
    (h : Rewrites t r cs ds) (hcs : Uncalled cs) : Uncalled ds := by
  -- a parenthesis at the start of the new text stood there before
  suffices Uncalled ds ∧ (ds.head? = some '(' → cs.head? = some '(') from this.1
  induction h with
  | nil => exact ⟨hcs, id⟩
  | keep c h ih =>
    obtain ⟨hds, hhead⟩ := ih hcs.of_cons
    refine ⟨List.IsChain.cons hds ?_, id⟩
    rintro d hd rfl
    exact (isChain_cons.1 hcs).1 '(' (hhead hd) rfl
  | change h ih =>
    obtain ⟨-, hrest, hjoin⟩ := List.isChain_append.1 hcs
    obtain ⟨hds, hhead⟩ := ih hrest
    refine ⟨List.isChain_append.2 ⟨uncalled_of_not_mem hr, hds, ?_⟩, fun h => ?_⟩
    · rintro a ha b hb rfl
      exact hjoin a (hlast ▸ ha) '(' (hhead hb) rfl
    · rw [head?_append_of_ne_nil _ hne] at h
      exact absurd (mem_of_mem_head? h) hr

end Rewrites

/-- What a loop does to a line. -/
structure Shift (l m : Line) : Prop where
  depth : m.depth = l.depth + 4
  last : m.code.getLast? = l.code.getLast?
  uncalled : Uncalled l.code → Uncalled m.code

/-- The index of a loop, reached as a field. -/
def selfName (i : Name) : List Char := ['s', 'e', 'l', 'f', '.'] ++ i.ident.chars

theorem spells_selfIndex {i : Name} {w : List Char}
    (h : (selfIndex (ofList i.ident.chars)).Spells w) : w = selfName i := by
  obtain ⟨u, v, rfl, ⟨a, b, rfl, rfl, rfl⟩, rfl⟩ := h
  simp [selfName, toString]

theorem exists_shift (i : Name) (l : Line) : ∃ m : Line, "    " ++
    (selfIndex (ofList i.ident.chars)).replaceAll (fun _ => ofList i.ident.chars)
      l.text = m.text ∧ Shift l m := by
  have hplain := i.ident.isPlain
  have hlast : (selfName i).getLast? = i.ident.chars.getLast? :=
    getLast?_append_of_ne_nil _ hplain.ne_nil
  have hrewrites := rewrites_replaceFrom (r := i.ident.chars) (fun w => spells_selfIndex (i := i))
    (cons_ne_nil _ _) [] 0 (List.replicate l.depth ' ' ++ l.code)
  obtain ⟨es, hes, hcode⟩ := hrewrites.blanks (t := 's' :: _) (by simp) (cons_ne_nil _ _)
  have hstarts : Starts (isBlank · = false) i.ident.chars :=
    starts_of_forall hplain.ne_nil fun c hc => isBlank_of_nameTail (hplain.chars c hc)
  refine ⟨⟨l.depth + 4, es, hcode.starts hstarts l.starts, hcode.ends hlast l.ends⟩, ?_, rfl,
    hcode.getLast? hlast, hcode.uncalled (hplain.not_mem (by decide)) hplain.ne_nil hlast⟩
  rw [Line.text, replaceAll_eq, toList_ofList, hes, Line.text, ← String.toList_inj]
  simp [Nat.add_comm l.depth, replicate_add]

theorem shifted_texts (i : Name) (ls : List Line) :
    ∃ ms, shifted i (texts ls) = texts ms ∧ List.Forall₂ Shift ls ms := by
  induction ls with
  | nil => exact ⟨[], rfl, .nil⟩
  | cons l ls ih =>
    obtain ⟨m, hm, hshift⟩ := exists_shift i l
    obtain ⟨ms, hms, hshifts⟩ := ih
    refine ⟨m :: ms, ?_, .cons hshift hshifts⟩
    rw [texts_cons, texts_cons, ← hms, ← hm]
    rfl

/-! ## Lines of expressions -/

theorem isLineEnd_of_isLast {c : Char} (h : IsLast c) : IsLineEnd c :=
  ⟨isBlank_of_isLast h, ne_semicolon_of_isLast h⟩

theorem convert_formula {scope : Scope} (hs : scope.Proper) (isCondition : Bool) (f : Formula) :
    Expr.convert scope (ofList f.text) isCondition =
      ofList (spell (solved scope isCondition f.lexemes)) :=
  Expr.convert_text hs isCondition f.separated f.exists_isAtom

/-- The line of an expression. -/
def Line.ofFormula {scope : Scope} (hs : scope.Proper) (depth : Nat) (f : Formula) : Line where
  depth := depth
  code := spell (solved scope false f.lexemes)
  starts := starts_solved false hs f
  ends := (ends_solved scope false f).mono fun _ => isLineEnd_of_isLast

/-- What the line before a suite starts with. -/
def withWord : List Char := ['w', 'i', 't', 'h', ' ', 'v', 's', 'c', '.']

/-- The word of a first branch. -/
def ifThen : List Char := ['i', 'f', '_', 't', 'h', 'e', 'n']

/-- The word of a further branch. -/
def elseIf : List Char := ['e', 'l', 's', 'e', '_', 'i', 'f']

/-- The word of a last branch. -/
def elseThen : List Char := ['e', 'l', 's', 'e', '_', 't', 'h', 'e', 'n']

/-- The word of an implication. -/
def implies : List Char := ['i', 'm', 'p', 'l', 'i', 'e', 's']

/-- The line before a suite. -/
def Line.head (depth : Nat) (name : List Char) (inner : List Char) : Line where
  depth := depth
  code := withWord ++ (name ++ inner) ++ [':']
  starts := ⟨'w', _, rfl, by decide⟩
  ends := ⟨_, ':', rfl, by decide, by decide⟩

/-- The line of an empty suite. -/
def Line.pass (depth : Nat) : Line where
  depth := depth
  code := ['p', 'a', 's', 's']
  starts := ⟨'p', _, rfl, by decide⟩
  ends := ⟨['p', 'a', 's'], 's', rfl, by decide, by decide⟩

theorem Line.text_eq (level : Nat) {l : Line} (h : l.depth = 4 * level) :
    l.text = indent level ++ ofList l.code := by
  rw [indent_append, Line.text, h]

section Heads

variable (level : Nat) (cond : String)

theorem pass_text : indent level ++ "pass" = (Line.pass (4 * level)).text :=
  (Line.text_eq level (l := .pass (4 * level)) rfl).symm

theorem head_text {line : String} {name : List Char}
    (h : line = ofList (withWord ++ name ++ ['(']) ++ cond ++ "):") :
    indent level ++ line = (Line.head (4 * level) name ('(' :: cond.toList ++ [')'])).text := by
  rw [Line.text_eq level (l := .head (4 * level) _ _) rfl, h]
  congr 1
  rw [← String.toList_inj]
  simp [Line.head]

theorem ifLine_text : indent level ++ ifLine cond =
    (Line.head (4 * level) ifThen ('(' :: cond.toList ++ [')'])).text :=
  head_text level cond rfl

theorem elseIfLine_text : indent level ++ elseIfLine cond =
    (Line.head (4 * level) elseIf ('(' :: cond.toList ++ [')'])).text :=
  head_text level cond rfl

theorem elseLine_text : indent level ++ "with vsc.else_then:" =
    (Line.head (4 * level) elseThen []).text :=
  (Line.text_eq level (l := .head (4 * level) elseThen []) rfl).symm

end Heads

theorem comparisonLines_run {ctx : Context} (hs : ctx.scope.Proper) (c : Sv.Comparison) :
    (comparisonLines c).run ctx = (texts [.ofFormula hs 0 (.compare c)], ctx) := by
  have hconvert := convert_formula hs false (.compare c)
  rw [Formula.text_compare] at hconvert
  have hlines : expressionLines ctx.scope (ofList c.text) =
      texts [.ofFormula hs 0 (.compare c)] := by
    rw [expressionLines, hconvert]
    exact if_pos (Line.ofFormula hs 0 (.compare c)).hasInk_text
  show (tidyLines (expressionLines ctx.scope (ofList c.text)), ctx) = _
  rw [hlines, tidyLines_texts]

theorem arrowLines_run {ctx : Context} (hs : ctx.scope.Proper) (a b : Relation) :
    (arrowLines a b).run ctx = (texts [.head 0 implies
      ('(' :: spell (solved ctx.scope true a.formula.lexemes) ++ [')']), .ofFormula hs 4 b.formula],
      ctx) := by
  have hhead : s!"with vsc.implies({Expr.convert ctx.scope (ofList a.text) true}):" =
      (Line.head 0 implies
        ('(' :: spell (solved ctx.scope true a.formula.lexemes) ++ [')'])).text := by
    rw [Relation.text, convert_formula hs true, ← String.toList_inj]
    simp [Line.text, Line.head, withWord, implies, toString]
  have hline : s!"    {Expr.convert ctx.scope (ofList b.text)}" =
      (Line.ofFormula hs 4 b.formula).text := by
    rw [Relation.text, convert_formula hs false, ← String.toList_inj]
    simp [Line.text, Line.ofFormula, toString]
  show (tidyLines [_, _], ctx) = _
  rw [hhead, hline]
  exact congrArg (·, ctx) (tidyLines_texts [_, _])

/-! ## What conversions give -/

/-- With names in scope of which `I` holds, the lines satisfy `P`, and `I` holds afterwards. -/
def Yields (I : Scope → Prop) (P : List String → Prop) (m : Conversion (List String)) : Prop :=
  ∀ ctx, I ctx.scope → P (m.run ctx).1 ∧ I (m.run ctx).2.scope

section Yields

variable {I : Scope → Prop} {P Q R : List String → Prop} {a b : Conversion (List String)}

theorem Yields.mono (ha : Yields I P a) (h : ∀ x, P x → Q x) : Yields I Q a := fun ctx hctx =>
  ⟨h _ (ha ctx hctx).1, (ha ctx hctx).2⟩

theorem yields_pure {lines : List String} (h : P lines) : Yields I P (return lines) :=
  fun _ hctx => ⟨h, hctx⟩

theorem Yields.change {f : List String → List String} (ha : Yields I P a)
    (h : ∀ x, P x → Q (f x)) : Yields I Q (do return f (← a)) := fun ctx hctx =>
  ⟨h _ (ha ctx hctx).1, (ha ctx hctx).2⟩

theorem Yields.both (ha : Yields I P a) (hb : Yields I Q b) (h : ∀ x y, P x → Q y → R (x ++ y)) :
    Yields I R (both a b) := by
  intro ctx hctx
  obtain ⟨hP, hI⟩ := ha ctx hctx
  obtain ⟨hQ, hI'⟩ := hb _ hI
  exact ⟨h _ _ hP hQ, hI'⟩

theorem Yields.inBranch (ha : Yields I P a) (hb : Yields I Q b) {level : Nat}
    {line : String → String} {c : Condition} (h : ∀ scope, I scope → ∀ x y, P x → Q y →
      R (suite level (line (Expr.convert scope (ofList c.text) true)) x ++ y)) :
    Yields I R (inBranch level line c a b) := by
  intro ctx hctx
  obtain ⟨hP, hI⟩ := ha ctx hctx
  obtain ⟨hQ, hI'⟩ := hb _ hI
  exact ⟨h ctx.scope hctx _ _ hP hQ, hI'⟩

theorem Yields.note (ha : Yields I P a) (item : String) :
    Yields I P (do modify (Context.note item); a) := by
  intro ctx hctx
  have hscope : (Context.note item ctx).scope = ctx.scope := by
    unfold Context.note
    split <;> rfl
  exact ha (Context.note item ctx) (hscope ▸ hctx)

end Yields

end Stimulus.Stmt
