import Stimulus.Proofs.Expr.Convert
import Stimulus.Proofs.Expr.Reading

/-!
# Conditions on fields

Comparisons of fields with numbers, joined by conjunction and disjunction: what they mean, how they
are written, and how a model reads what they are converted to.
-/

open List

namespace Stimulus.Expr

open Pattern Text Sv Model

variable {scope : Scope} {e : Cond} {w : List Char}

/-- Comparisons of fields with numbers, joined. -/
inductive Cond where
  | compare (x : Ident) (rel : Rel) (n : Nat)
  | and (a b : Cond)
  | or (a b : Cond)
deriving DecidableEq

namespace Cond

def holds (σ : String → Int) : Cond → Bool
  | compare x r n => r.holds (σ x.name) n
  | and a b => a.holds σ && b.holds σ
  | or a b => a.holds σ || b.holds σ

/-- The fields of a condition, in order. -/
def fields : Cond → List Ident
  | compare x _ _ => [x]
  | and a b | or a b => a.fields ++ b.fields

/-- An operand of a conjunction, given its text: a disjunction stands in parentheses. -/
def guard : Cond → Formula → Formula
  | or .., f => .paren f
  | _, f => f

/-- The condition with only the parentheses that it needs: conjunction binds tighter than
disjunction. -/
def formula : Cond → Formula
  | compare x r n => .compare ⟨.name x, r, .num n⟩
  | and a b => .and (a.guard a.formula) (b.guard b.formula)
  | or a b => .or a.formula b.formula

def text (e : Cond) : String := String.ofList (sourceText e.formula.lexemes)

end Cond

/-! ## Converting a condition -/

/-- The name is that of a field: no word of the language, no member and no index of a loop. -/
structure Scope.IsField (scope : Scope) (x : Ident) : Prop where
  notReserved : x.name ∉ reservedWords
  notMember : scope.classOf? x.name = none
  notIndex : x.name ∉ scope.loopVars

/-- A lexeme of a condition on fields. -/
def IsFieldLexeme (scope : Scope) : Lexeme → Prop
  | .compare ⟨.name x, _, .num _⟩ => scope.IsField x
  | .and | .or | .opening | .closing => True
  | _ => False

theorem isFieldLexeme_guard {f : Formula}
    (h : ∀ l ∈ f.lexemes, IsFieldLexeme scope l) :
    ∀ l ∈ (e.guard f).lexemes, IsFieldLexeme scope l := by
  cases e with
  | compare | and => exact h
  | or =>
    simp only [Cond.guard, Formula.lexemes, cons_append, forall_mem_cons,
      forall_mem_append]
    exact ⟨trivial, h, trivial, by simp⟩

theorem isFieldLexeme_formula (h : ∀ x ∈ e.fields, scope.IsField x) :
    ∀ l ∈ e.formula.lexemes, IsFieldLexeme scope l := by
  induction e with
  | compare x r n =>
    simpa [Cond.formula, Formula.lexemes, IsFieldLexeme] using h x (by simp [Cond.fields])
  | and a b ha hb =>
    obtain ⟨hfa, hfb⟩ := forall_mem_append.1 h
    exact forall_mem_append.2 ⟨isFieldLexeme_guard (ha hfa),
      forall_mem_cons.2 ⟨trivial, isFieldLexeme_guard (hb hfb)⟩⟩
  | or a b ha hb =>
    obtain ⟨hfa, hfb⟩ := forall_mem_append.1 h
    exact forall_mem_append.2 ⟨ha hfa, forall_mem_cons.2 ⟨trivial, hb hfb⟩⟩

/-- The text is empty or starts with a digit. -/
def DigitFirst (w : List Char) : Prop := ∀ c ∈ w.head?, c.isDigit = true

theorem digitFirst_digitsOf (n : Nat) : DigitFirst (digitsOf n) :=
  fun _ hc => isDigit_of_mem_digitsOf (mem_of_mem_head? hc)

theorem DigitFirst.hasShape_eq (hw : DigitFirst w) {head tail : Char → Bool}
    (h : ∀ c, head c = true → nameHead c = true) : hasShape head tail w = false := by
  cases w with
  | nil => rfl
  | cons c w =>
    have hdigit : c.isDigit = true := hw c rfl
    have hhead : head c = false := by
      by_contra hc
      have := isDigit_of_nameHead (h c (by simpa using hc))
      rw [hdigit] at this
      cases this
    rw [hasShape, hhead]
    rfl

theorem DigitFirst.memberOwner?_eq (hw : DigitFirst w) (scope : Scope) (d next : Bool) :
    memberOwner? scope d w next = none := by
  have hupper : ∀ c : Char, c.isUpper = true → nameHead c = true := by
    intro c hc
    simp [nameHead, isAlpha_of_isUpper hc]
  simp [memberOwner?, hw.hasShape_eq hupper]

theorem DigitFirst.fieldOwner?_eq (hw : DigitFirst w) (scope : Scope) (d next : Bool) :
    fieldOwner? scope d w next = none := by
  simp [fieldOwner?, hw.hasShape_eq fun _ h => h]

theorem memberOwner?_field {x : Ident} (h : scope.IsField x) (d next : Bool) :
    memberOwner? scope d x.chars next = none := by
  have hclass : scope.classOf? (String.ofList x.chars) = none := h.notMember
  simp [memberOwner?, hclass]

theorem fieldOwner?_field {x : Ident} (h : scope.IsField x) :
    fieldOwner? scope false x.chars false = some "self".toList := by
  have hclass : scope.classOf? (String.ofList x.chars) = none := h.notMember
  have hreserved : String.ofList x.chars ∉ reservedWords := h.notReserved
  have hindex : String.ofList x.chars ∉ scope.loopVars := h.notIndex
  simp [fieldOwner?, x.shape, hclass, hreserved, hindex]

/-- The solver's chunks of a lexeme of a condition on fields. -/
def fieldChunks : Lexeme → List Chunk
  | .compare c => .word "self".toList :: .mark '.' :: c.chunks
  | l => l.chunks solverJoints

theorem fieldChunks_of_not_isAtom (l : Lexeme) (hl : l.isAtom = false) :
    fieldChunks l = l.chunks solverJoints := by
  cases l with
  | compare | member => cases hl
  | and | or | arrow | opening | closing => rfl

theorem wellCut_fieldChunks {ls : List Lexeme} (hsep : Separated ls) :
    WellCut (ls.flatMap fieldChunks) := by
  refine wellCut_flatMap solverJoints (fun l hl => ?_) fieldChunks_of_not_isAtom hsep
  cases l with
  | compare c => exact ⟨⟨by decide, by decide⟩, bounded_cons.2 (by decide), by decide, c.wellCut⟩
  | member m => exact m.wellCut
  | and | or | arrow | opening | closing => cases hl

section Solved

variable {scope : Scope} {isCondition : Bool} {ls : List Lexeme}
  (h : ∀ l ∈ ls, IsFieldLexeme scope l)

include h

theorem unnamed_eq : unnamed scope isCondition ls = textWith solverJoints ls := by
  refine flatMap_congr fun l hl => ?_
  have := h l hl
  cases l with
  | member => cases this
  | compare | and | or | arrow | opening | closing => rfl

theorem word_mem_textWith {w : List Char} (hw : .word w ∈ textWith solverJoints ls) :
    (∃ x, scope.IsField x ∧ w = x.chars) ∨ ∃ n, w = digitsOf n := by
  obtain ⟨l, hl, hw⟩ := mem_flatMap.1 hw
  have := h l hl
  cases l with
  | member | arrow => cases this
  | and | or | opening | closing =>
    obtain ⟨c, -, hc⟩ := mem_map.1 hw
    cases hc
  | compare c =>
    obtain ⟨left, r, right⟩ := c
    cases left with
    | element => cases this
    | name x =>
      cases right with
      | ref => cases this
      | num n =>
        simp only [Lexeme.chunks, Sv.Comparison.chunks, Ref.chunks, Operand.chunks, mem_append,
          mem_singleton, Chunk.word.injEq] at hw
        rcases hw with (hw | hw) | hw
        · exact .inl ⟨x, this, hw⟩
        · obtain ⟨c, -, hc⟩ := mem_map.1 hw
          cases hc
        · exact .inr ⟨n, hw⟩

theorem halfNamed_eq : halfNamed scope isCondition ls = textWith solverJoints ls := by
  rw [halfNamed, unnamed_eq h]
  refine withOwners_eq_self fun d w n hw => ?_
  rcases word_mem_textWith h hw with ⟨x, hx, rfl⟩ | ⟨m, rfl⟩
  · exact memberOwner?_field hx d n
  · exact (digitFirst_digitsOf m).memberOwner?_eq scope d n

theorem solved_eq : solved scope isCondition ls = ls.flatMap fieldChunks := by
  rw [solved, halfNamed_eq h]
  induction ls with
  | nil => rfl
  | cons l ls ih =>
    have hl := h l mem_cons_self
    have hrest := ih fun l hl => h l (mem_cons_of_mem _ hl)
    rw [textWith_cons, flatMap_cons, ← hrest]
    cases l with
    | member | arrow => cases hl
    | and | or | opening | closing => exact withOwners_marks_of_not_mem (by decide) _
    | compare c =>
      obtain ⟨left, r, right⟩ := c
      cases left with
      | element => cases hl
      | name x =>
        cases right with
        | ref => cases hl
        | num n =>
          have hmarks : '.' ∉ ' ' :: r.chars ++ [' '] := by cases r <;> decide
          have hx : scope.IsField x := hl
          have hchunks : ∀ ks : List Chunk, Sv.Comparison.chunks ⟨.name x, r, .num n⟩ ++ ks =
              .word x.chars :: (marks (' ' :: r.chars ++ [' ']) ++ .word (digitsOf n) :: ks) := by
            intro ks
            simp [Sv.Comparison.chunks, Ref.chunks, Operand.chunks]
          have hnext : ∀ ks, dotNext (marks (' ' :: r.chars ++ [' ']) ++ ks) = false := fun _ => rfl
          rw [Lexeme.chunks, fieldChunks, cons_append, cons_append, hchunks, hchunks,
            withOwners, hnext, fieldOwner?_field hx]
          simp only
          rw [withOwners_marks_of_not_mem hmarks, withOwners,
            (digitFirst_digitsOf n).fieldOwner?_eq]

theorem convert_fields (hsep : Separated ls) (hatom : ∃ l ∈ ls, l.isAtom = true) :
    convert scope (String.ofList (sourceText ls)) isCondition =
      String.ofList (spell (ls.flatMap fieldChunks)) := by
  have hwell := wellCut_textWith solverJoints hsep
  have hsolved : solved scope isCondition ls = _ := solved_eq h
  rw [convert_of_wellCut hsep hatom (unnamed_eq h ▸ hwell) (halfNamed_eq h ▸ hwell)
    (hsolved ▸ wellCut_fieldChunks hsep), hsolved]

end Solved

/-! ## Reading a converted condition -/

/-- The tokens of a converted lexeme of a condition on fields. -/
def fieldTokens : Lexeme → List Token
  | .compare ⟨.name x, r, .num n⟩ =>
    [.word "self", .mark ".", .word x.name, .mark (String.ofList r.chars), .number n]
  | .and => [.mark "&"]
  | .or => [.mark "|"]
  | .opening => [.mark "("]
  | .closing => [.mark ")"]
  | _ => []

theorem tokensOf_fields {ls : List Lexeme} (h : ∀ l ∈ ls, IsFieldLexeme scope l)
    (hsep : Separated ls) : tokensOf (spell (ls.flatMap fieldChunks)) = ls.flatMap fieldTokens := by
  induction ls with
  | nil => rw [flatMap_nil, flatMap_nil, spell_nil, tokensOf]
  | cons l ls ih =>
    have hl := h l mem_cons_self
    have hrest := ih (fun l hl => h l (mem_cons_of_mem _ hl)) hsep.of_cons
    rw [flatMap_cons, flatMap_cons, spell_append, ← hrest]
    cases l with
    | member | arrow => cases hl
    | and | or =>
      simp only [fieldChunks, Lexeme.chunks, solverJoints, spell_marks, cons_append,
        nil_append, tokensOf_blank]
      rw [tokensOf_mark (by decide) (by decide) (by decide), tokensOf_blank, tokensOf_blank]
      rfl
    | opening | closing =>
      simp only [fieldChunks, Lexeme.chunks, spell_marks, cons_append, nil_append]
      rw [tokensOf_mark (by decide) (by decide) (by decide)]
      rfl
    | compare c =>
      obtain ⟨left, r, right⟩ := c
      cases left with
      | element => cases hl
      | name x =>
        cases right with
        | ref => cases hl
        | num n =>
          have hspell : ∀ rest, spell (fieldChunks (.compare ⟨.name x, r, .num n⟩)) ++ rest =
              "self".toList ++ '.' :: (x.chars ++ ' ' :: (r.chars ++ ' ' :: (digitsOf n ++ rest))) := by
            intro rest
            simp [fieldChunks, Sv.Comparison.chunks, Ref.chunks, Operand.chunks]
          have hstops := stops_of_bounded
            (bounded_flatMap solverJoints fieldChunks_of_not_isAtom hsep rfl)
          rw [hspell, tokensOf_name (by decide) (stops_cons.2 (by decide)),
            tokensOf_mark (by decide) (by decide) (by decide),
            tokensOf_name x.shape (stops_cons.2 (by decide)), tokensOf_blank, tokensOf_rel,
            tokensOf_digits n hstops]
          rfl

namespace Cond

/-- An operand of a conjunction in a frame, given how its text is read: a disjunction stands in
parentheses. -/
def place : Cond → (Frame → Frame × Reading) → Frame → Frame × Reading
  | or .., fill, f => (f, .group ((fill {}).1.close (fill {}).2))
  | _, fill, f => fill f

/-- What a converted condition leaves to be read: the frame, and the operand read last. -/
def fill : Cond → Frame → Frame × Reading
  | compare x r n, f => (f.compare (.field x.name) r, .number n)
  | and a b, f =>
    let p := a.place a.fill f
    b.place b.fill (p.1.conj p.2)
  | or a b, f =>
    let p := a.fill f
    b.fill (p.1.disj p.2)

def reading (e : Cond) : Reading := (e.fill {}).1.close (e.fill {}).2

/-- The tokens of a converted condition. -/
def tokens (e : Cond) : List Token := e.formula.lexemes.flatMap fieldTokens

end Cond

/-- Reading the tokens of `e` in a frame. -/
def ReadsAs (ts : List Token) (fill : Frame → Frame × Reading) : Prop :=
  ∀ outer f rest, readOn outer f none (ts ++ rest) = readOn outer (fill f).1 (some (fill f).2) rest

theorem readsAs_guard {f : Formula} {fill : Frame → Frame × Reading}
    (h : ReadsAs (f.lexemes.flatMap fieldTokens) fill) :
    ReadsAs ((e.guard f).lexemes.flatMap fieldTokens) (e.place fill) := by
  cases e with
  | compare | and => exact h
  | or a b =>
    intro outer g rest
    have hinner := h (g :: outer) {} (.mark ")" :: rest)
    simpa [Cond.guard, Cond.place, Formula.lexemes, fieldTokens, readOn] using hinner

theorem readsAs_tokens (e : Cond) : ReadsAs e.tokens e.fill := by
  induction e with
  | compare x r n =>
    intro outer f rest
    cases r <;> simp [Cond.tokens, Cond.formula, Formula.lexemes, fieldTokens, readOn, Cond.fill,
      Rel.chars, relOf?]
  | and a b ha hb =>
    intro outer f rest
    have hjoin := readsAs_guard (e := a) ha outer f
      (.mark "&" :: ((b.guard b.formula).lexemes.flatMap fieldTokens ++ rest))
    have hlast := readsAs_guard (e := b) hb outer
      ((a.place a.fill f).1.conj (a.place a.fill f).2) rest
    simp only [Cond.tokens, Cond.formula, Formula.lexemes, flatMap_append, flatMap_cons,
      append_assoc, fieldTokens, cons_append, nil_append]
    rw [hjoin, readOn]
    exact hlast
  | or a b ha hb =>
    intro outer f rest
    have hjoin := ha outer f (.mark "|" :: (b.tokens ++ rest))
    have hlast := hb outer ((a.fill f).1.disj (a.fill f).2) rest
    simp only [Cond.tokens, Cond.formula, Formula.lexemes, flatMap_append, flatMap_cons,
      append_assoc, fieldTokens, cons_append, nil_append] at hjoin hlast ⊢
    rw [hjoin, readOn]
    exact hlast

theorem read_convert (isCondition : Bool)
    (h : ∀ x ∈ e.fields, scope.IsField x) :
    read? (convert scope e.text isCondition) = some e.reading := by
  have hfields := isFieldLexeme_formula h
  have hsep := e.formula.separated
  have hread := readsAs_tokens e [] {} []
  rw [append_nil, Cond.tokens, ← tokensOf_fields hfields hsep] at hread
  rw [Cond.text, convert_fields hfields hsep e.formula.exists_isAtom, read?, String.toList_ofList,
    hread]
  rfl

end Stimulus.Expr
