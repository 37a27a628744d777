import Stimulus.Proofs.Pattern.Search
import Stimulus.Proofs.Sv.Lexeme
import Stimulus.Proofs.Text.Closed

/-!
# Statements in the source

Constraint bodies as trees of comparisons, implications, loops and conditionals, and their text with
one statement on a line.
-/

open List

namespace Stimulus.Sv

open Text Pattern

variable {v u : List Char}

/-! ## Ends of a text -/

/-- The text starts with such a character. -/
def Starts (p : Char → Prop) (cs : List Char) : Prop := ∃ c r, cs = c :: r ∧ p c

/-- The text ends with such a character. -/
def Ends (p : Char → Prop) (cs : List Char) : Prop := ∃ r c, cs = r ++ [c] ∧ p c

section Ends

variable {p q : Char → Prop} {u v : List Char}

theorem Starts.append (h : Starts p u) (v : List Char) : Starts p (u ++ v) := by
  obtain ⟨c, r, rfl, hc⟩ := h
  exact ⟨c, r ++ v, rfl, hc⟩

theorem Ends.append (h : Ends p v) (u : List Char) : Ends p (u ++ v) := by
  obtain ⟨r, c, rfl, hc⟩ := h
  exact ⟨u ++ r, c, by simp, hc⟩

theorem Starts.mono (h : Starts p u) (hpq : ∀ c, p c → q c) : Starts q u := by
  obtain ⟨c, r, hu, hc⟩ := h
  exact ⟨c, r, hu, hpq c hc⟩

theorem Ends.mono (h : Ends p u) (hpq : ∀ c, p c → q c) : Ends q u := by
  obtain ⟨r, c, hu, hc⟩ := h
  exact ⟨r, c, hu, hpq c hc⟩

theorem Starts.ne_nil (h : Starts p u) : u ≠ [] := by
  obtain ⟨c, r, rfl, -⟩ := h
  simp

theorem Starts.head (h : Starts p u) : ∀ c ∈ u.head?, p c := by
  obtain ⟨c, r, rfl, hc⟩ := h
  simpa using hc

theorem Ends.last (h : Ends p u) : ∀ c ∈ u.getLast?, p c := by
  obtain ⟨r, c, rfl, hc⟩ := h
  simpa using hc

theorem starts_of_forall (hne : u ≠ []) (h : ∀ c ∈ u, p c) : Starts p u := by
  obtain ⟨c, r, rfl⟩ := exists_cons_of_ne_nil hne
  exact ⟨c, r, rfl, h c mem_cons_self⟩

theorem ends_of_forall (hne : u ≠ []) (h : ∀ c ∈ u, p c) : Ends p u := by
  obtain rfl | ⟨r, c, rfl⟩ := eq_nil_or_concat u
  · exact absurd rfl hne
  · exact ⟨r, c, by simp, h c (by simp)⟩

theorem trim_of_starts_ends (hs : Starts (isBlank · = false) u) (he : Ends (isBlank · = false) u) :
    Trim u := ⟨hs.head, he.last⟩

end Ends

/-! ## Expressions in statements -/

def Comparison.text (c : Comparison) : List Char := spell c.chunks

def Formula.text (f : Formula) : List Char := sourceText f.lexemes

section Text

variable (f g : Formula)

theorem Formula.text_compare (c : Comparison) : (compare c).text = c.text := by
  simp [text, lexemes, sourceText, Lexeme.chunks, Comparison.text]

theorem Formula.text_member (m : Member) : (member m).text =
    m.subject.chars ++ " inside ".toList ++ ('{' :: spell (itemChunks m.first m.more) ++ ['}']) := by
  simp [text, lexemes, sourceText, Lexeme.chunks, Member.chunks, Member.setChunks]

theorem Formula.text_and : (f.and g).text = f.text ++ " && ".toList ++ g.text := by
  simp [text, lexemes, sourceText, Lexeme.chunks, Joints.source]

theorem Formula.text_or : (f.or g).text = f.text ++ " || ".toList ++ g.text := by
  simp [text, lexemes, sourceText, Lexeme.chunks, Joints.source]

theorem Formula.text_implies : (f.implies g).text = f.text ++ " -> ".toList ++ g.text := by
  simp [text, lexemes, sourceText, Lexeme.chunks]

theorem Formula.text_paren : (paren f).text = '(' :: f.text ++ [')'] := by
  simp [text, lexemes, sourceText, Lexeme.chunks]

end Text

/-- The marks of comparisons joined. -/
def joinedMarks : List Char := relationMarks ++ "&|()".toList

/-- The marks of conditions. -/
def conditionMarks : List Char := joinedMarks ++ "\x7b\x7d".toList

/-- Comparisons, joints and parentheses. -/
def Lexeme.isPlain : Lexeme → Bool
  | compare _ | and | or | opening | closing => true
  | member _ | arrow => false

theorem Lexeme.isOf_joinedMarks {l : Lexeme} (h : l.isPlain = true) :
    ∀ k ∈ l.chunks .source, IsOf joinedMarks k := by
  cases l with
  | compare c => exact fun k hk => (c.isOf k hk).mono (by decide)
  | and | or | opening | closing => exact isOf_marks (by decide)
  | member | arrow => cases h

theorem Lexeme.isOf_conditionMarks {l : Lexeme} (h : l ≠ .arrow) :
    ∀ k ∈ l.chunks .source, IsOf conditionMarks k := by
  cases l with
  | member m => exact fun k hk => (m.isOf k hk).mono (by decide)
  | arrow => exact absurd rfl h
  | compare | and | or | opening | closing =>
    exact fun k hk => (isOf_joinedMarks rfl k hk).mono (by decide)

variable {c : Char} {w inner : List Char}

theorem mem_sourceText {ls : List Lexeme} {ms : List Char}
    (h : ∀ l ∈ ls, ∀ k ∈ l.chunks .source, IsOf ms k) (hc : c ∈ sourceText ls) :
    nameTail c = true ∨ c ∈ ms := by
  refine mem_spell_of_isOf (fun k hk => ?_) hc
  obtain ⟨l, hl, hk⟩ := mem_flatMap.1 hk
  exact h l hl k hk

theorem not_delimiter_of_nameTail (h : nameTail c = true) : c ∉ delimiters := by
  intro hc
  revert h
  exact (by decide : ∀ c ∈ delimiters, ¬ nameTail c = true) c hc

theorem closed_spell {ms : List Char} (hms : ∀ c ∈ ms, c ∉ delimiters) {ks : List Chunk}
    (h : ∀ k ∈ ks, IsOf ms k) : Closed (spell ks) :=
  closed_of_forall fun c hc =>
    (mem_spell_of_isOf h hc).elim not_delimiter_of_nameTail (hms c)

theorem closed_ident (x : Ident) : Closed x.chars :=
  closed_of_forall fun c hc => not_delimiter_of_nameTail (x.isPlain.chars c hc)

theorem Comparison.closed_text (c : Comparison) : Closed c.text := closed_spell (by decide) c.isOf

theorem Formula.closed_text (f : Formula) : Closed f.text := by
  induction f with
  | compare c => exact text_compare c ▸ c.closed_text
  | member m =>
    rw [text_member]
    exact ((closed_ident _).append (closed_of_forall (by decide))).append
      (.brace (closed_spell (by decide) (isOf_itemChunks m.first m.more)))
  | and f g hf hg =>
    exact text_and f g ▸ (hf.append (closed_of_forall (by decide))).append hg
  | or f g hf hg =>
    exact text_or f g ▸ (hf.append (closed_of_forall (by decide))).append hg
  | implies f g hf hg =>
    exact text_implies f g ▸ (hf.append (closed_of_forall (by decide))).append hg
  | paren f hf => exact text_paren f ▸ hf.paren

/-- An expression starts with a name or with a parenthesis. -/
def IsFirst (c : Char) : Prop := nameHead c = true ∨ c = '('

/-- An expression ends with a word or with something closed. -/
def IsLast (c : Char) : Prop := nameTail c = true ∨ c ∈ [']', ')', '}']

theorem Ident.starts (x : Ident) : Starts (nameHead · = true) x.chars := by
  obtain ⟨c, cs, h, hc, -⟩ := x.exists_chars
  exact ⟨c, cs, h, hc⟩

theorem IsPlain.ends (h : IsPlain w) : Ends IsLast w :=
  ends_of_forall h.ne_nil fun c hc => .inl (h.chars c hc)

theorem Ref.starts (r : Ref) : Starts (nameHead · = true) (spell r.chunks) := by
  cases r with
  | name x | element x i => exact x.starts.append _

theorem Ref.ends (r : Ref) : Ends IsLast (spell r.chunks) := by
  cases r with
  | name x => simpa [chunks] using x.isPlain.ends
  | element x i => exact ⟨x.chars ++ '[' :: i.chars, ']', by simp [chunks], .inr (by decide)⟩

theorem Comparison.starts_text (c : Comparison) : Starts (nameHead · = true) c.text := by
  rw [text, chunks, spell_append, spell_append]
  exact (c.left.starts.append _).append _

theorem Comparison.ends_text (c : Comparison) : Ends IsLast c.text := by
  rw [text, chunks, spell_append]
  refine Ends.append ?_ _
  cases c.right with
  | num n => simpa [Operand.chunks] using (isPlain_digitsOf n).ends
  | ref r => exact r.ends

theorem Formula.starts_text (f : Formula) : Starts IsFirst f.text := by
  induction f with
  | compare c => exact text_compare c ▸ c.starts_text.mono fun _ => .inl
  | member m =>
    rw [text_member]
    exact ((m.subject.starts.mono fun _ => .inl).append _).append _
  | and f g hf _ => exact text_and f g ▸ (hf.append _).append _
  | or f g hf _ => exact text_or f g ▸ (hf.append _).append _
  | implies f g hf _ => exact text_implies f g ▸ (hf.append _).append _
  | paren f _ => exact text_paren f ▸ ⟨'(', f.text ++ [')'], rfl, .inr rfl⟩

/-- The text starts with a parenthesis or with a whole name. -/
def OpensWithName (cs : List Char) : Prop := (∃ r, cs = '(' :: r) ∨
  ∃ (x : Ident) (c : Char) (r : List Char), cs = x.chars ++ c :: r ∧ nameTail c = false

theorem OpensWithName.append {u : List Char} (h : OpensWithName u) (v : List Char) :
    OpensWithName (u ++ v) := by
  rcases h with ⟨r, rfl⟩ | ⟨x, c, r, rfl, hc⟩
  · exact .inl ⟨r ++ v, rfl⟩
  · exact .inr ⟨x, c, r ++ v, by simp, hc⟩

theorem isPlain_of_mem_keywords : ∀ kw ∈ keywords, IsPlain kw := by
  have h : ∀ kw ∈ keywords, kw ≠ [] ∧ ∀ c ∈ kw, nameTail c = true := by decide
  exact fun kw hkw => ⟨(h kw hkw).1, (h kw hkw).2⟩

theorem OpensWithName.not_keyword {cs : List Char} (h : OpensWithName cs) {t : List Char}
    (hw : w ∈ keywords) (ht : Stops t) : cs ≠ w ++ t := by
  have hplain := isPlain_of_mem_keywords w hw
  rcases h with ⟨r, rfl⟩ | ⟨x, c, r, rfl, hc⟩
  · intro h
    obtain ⟨d, w, rfl⟩ := exists_cons_of_ne_nil hplain.ne_nil
    obtain ⟨rfl, -⟩ := cons_eq_cons.1 h
    have := hplain.chars '(' mem_cons_self
    revert this
    decide
  · intro h
    have hx := x.isPlain.eq_of_append hplain (stops_cons.2 hc) ht h
    exact x.plain (hx ▸ hw)

theorem Comparison.opensWithName (c : Comparison) : OpensWithName c.text := by
  rw [text, chunks, spell_append, spell_append, spell_marks]
  refine OpensWithName.append ?_ _
  cases c.left with
  | name x => exact .inr ⟨x, ' ', c.rel.chars ++ [' '], by simp [Ref.chunks], by decide⟩
  | element x i =>
    exact .inr ⟨x, '[', i.chars ++ ']' :: ' ' :: c.rel.chars ++ [' '], by simp [Ref.chunks], by decide⟩

theorem Formula.opensWithName (f : Formula) : OpensWithName f.text := by
  induction f with
  | compare c => exact text_compare c ▸ c.opensWithName
  | member m =>
    rw [text_member, append_assoc]
    exact .inr ⟨m.subject, ' ', _, rfl, by decide⟩
  | and f g hf _ => exact text_and f g ▸ (hf.append _).append _
  | or f g hf _ => exact text_or f g ▸ (hf.append _).append _
  | implies f g hf _ => exact text_implies f g ▸ (hf.append _).append _
  | paren f _ => exact text_paren f ▸ .inl ⟨f.text ++ [')'], rfl⟩

theorem Formula.ends_text (f : Formula) : Ends IsLast f.text := by
  induction f with
  | compare c => exact text_compare c ▸ c.ends_text
  | member m =>
    rw [text_member]
    exact Ends.append ⟨_, '}', rfl, .inr (by decide)⟩ _
  | and f g _ hg => exact text_and f g ▸ hg.append _
  | or f g _ hg => exact text_or f g ▸ hg.append _
  | implies f g _ hg => exact text_implies f g ▸ hg.append _
  | paren f _ => exact text_paren f ▸ ⟨'(' :: f.text, ')', rfl, .inr (by decide)⟩

/-! ## Statements -/

/-- A name that holds no word of a block. -/
structure Name where
  ident : Ident
  free : Free branchWords ident.chars
deriving DecidableEq

/-- A comparison that holds no word of a block. -/
structure Leaf where
  comparison : Comparison
  free : Free branchWords comparison.text
deriving DecidableEq

/-- Comparisons joined, with no word of a block. -/
structure Relation where
  formula : Formula
  plain : ∀ l ∈ formula.lexemes, l.isPlain = true
  free : Free branchWords formula.text
deriving DecidableEq

/-- The mark of an implication. -/
def arrows : List (List Char) := [['-', '>']]

/-- A condition: a closed text without blanks at its ends that holds no arrow and no word of a
block. -/
structure Condition where
  text : List Char
  closed_text : Closed text
  trim_text : Trim text
  free : Free branchWords text
  arrowless : Free arrows text

def Leaf.text (c : Leaf) : List Char := c.comparison.text

def Relation.text (r : Relation) : List Char := r.formula.text

mutual

/-- A statement of a constraint body. -/
inductive Stmt where
  /-- `x == 1;` -/
  | leaf (c : Leaf)
  /-- `a -> b;` -/
  | implies (a b : Relation)
  /-- `foreach (x[i]) {…}` -/
  | loop (array index : Name) (body : Block)
  /-- `if (c) {…}` and its further branches. -/
  | cond (c : Condition) (body : Block) (more : Branches)

/-- The branches after the first one. -/
inductive Branches where
  | done
  /-- `else if (c) {…}` and the branches after it. -/
  | elseIf (c : Condition) (body : Block) (more : Branches)
  /-- `else {…}` -/
  | otherwise (body : Block)

/-- Statements, one after the other. -/
inductive Block where
  | nil
  | cons (s : Stmt) (rest : Block)

end

/-- The blanks before a line, by its depth. -/
structure Layout where
  margin : Nat → List Char
  blank : ∀ n, Blank (margin n)

/-- Four blanks for each level. -/
def Layout.fours : Layout where
  margin n := List.replicate (4 * n) ' '
  blank := by
    intro n c hc
    rw [eq_of_mem_replicate hc]
    decide

/-- A block in braces, given its text. -/
def Layout.braced (l : Layout) (n : Nat) (inner : List Char) : List Char :=
  '{' :: ('\n' :: inner ++ l.margin n) ++ ['}']

/-- A block in braces after a head in parentheses, given their texts. -/
def Layout.headed (l : Layout) (n : Nat) (word head inner : List Char) : List Char :=
  word ++ ('(' :: head ++ [')']) ++ ' ' :: l.braced n inner

/-- An implication, given the texts of its sides. -/
def arrowed (a b : List Char) : List Char := a ++ [' ', '-', '>', ' '] ++ b

/-- The word before a loop. -/
def loopWord : List Char := ['f', 'o', 'r', 'e', 'a', 'c', 'h', ' ']

/-- The word before a first branch. -/
def ifWord : List Char := ['i', 'f', ' ']

/-- The word before a last branch, and the first one before any further branch. -/
def elseWord : List Char := [' ', 'e', 'l', 's', 'e', ' ']

/-- The element that a loop is about, given the names of the array and of the index. -/
def indexed (x i : List Char) : List Char := x ++ '[' :: i ++ [']']

/-- What ends a statement. -/
def Stmt.stop : Stmt → List Char
  | .leaf _ | .implies .. => [';']
  | .loop .. | .cond .. => []

mutual

/-- The text of a statement at a depth, without its semicolon. -/
def Stmt.chars (l : Layout) (n : Nat) : Stmt → List Char
  | .leaf c => c.text
  | .implies a b => arrowed a.text b.text
  | .loop x i body =>
    l.headed n loopWord (indexed x.ident.chars i.ident.chars) (body.text l (n + 1))
  | .cond c body more => l.headed n ifWord c.text (body.text l (n + 1)) ++ more.chars l n

/-- The text of further branches at a depth. -/
def Branches.chars (l : Layout) (n : Nat) : Branches → List Char
  | .done => []
  | .elseIf c body more =>
    l.headed n (elseWord ++ ifWord) c.text (body.text l (n + 1)) ++ more.chars l n
  | .otherwise body => elseWord ++ l.braced n (body.text l (n + 1))

def Block.text (l : Layout) (n : Nat) : Block → List Char
  | .nil => []
  | .cons s rest => l.margin n ++ s.chars l n ++ s.stop ++ '\n' :: rest.text l n

end

def Stmt.text (l : Layout) (n : Nat) (s : Stmt) : List Char := s.chars l n ++ s.stop

/-- The statement is a conditional. -/
def Stmt.isCond : Stmt → Bool
  | .cond .. => true
  | _ => false

namespace Block

/-- The statements of a block. -/
def list : Block → List Stmt
  | .nil => []
  | .cons s rest => s :: rest.list

/-- The text of statements after another one. -/
def after (l : Layout) (n : Nat) : Block → List Char
  | .nil => []
  | .cons s rest => '\n' :: l.margin n ++ s.text l n ++ rest.after l n

/-- The text of a block without blanks at its ends. -/
def tight (l : Layout) (n : Nat) : Block → List Char
  | .nil => []
  | .cons s rest => s.text l n ++ rest.after l n

theorem cons_text (l : Layout) (n : Nat) : ∀ b : Block, '\n' :: b.text l n = b.after l n ++ ['\n']
  | .nil => rfl
  | .cons s rest => by
    have := rest.cons_text l n
    simp [text, after, Stmt.text, this]

/-- A text is that of a block, with blanks around it. -/
def Spread (l : Layout) (n : Nat) (b : Block) (cs : List Char) : Prop :=
  ∃ a z, Blank a ∧ Blank z ∧ cs = a ++ b.tight l n ++ z

end Block

/-! ## What readers rely on -/

theorem closed_blank {b : List Char} (hb : Blank b) : Closed b := by
  refine closed_of_forall fun c hc hmem => ?_
  have hblank := hb c hc
  revert hblank
  exact (by decide : ∀ c ∈ delimiters, ¬ isBlank c = true) c hmem

theorem Layout.closed_braced (l : Layout) (n : Nat) (h : Closed inner) : Closed (l.braced n inner) :=
  .brace (((Closed.char (by decide)).append h).append (closed_blank (l.blank n)))

theorem Layout.closed_headed (l : Layout) (n : Nat) {word head : List Char}
    (hw : Closed word) (hh : Closed head) (hi : Closed inner) :
    Closed (l.headed n word head inner) :=
  (hw.append hh.paren).append ((Closed.char (by decide)).append (l.closed_braced n hi))

theorem Stmt.closed_stop (s : Stmt) : Closed s.stop := by
  cases s with
  | leaf | implies => exact .char (by decide)
  | loop | cond => exact .nil

mutual

theorem Stmt.closed_chars (l : Layout) (n : Nat) : ∀ s : Stmt, Closed (s.chars l n)
  | .leaf c => c.comparison.closed_text
  | .implies a b =>
    (a.formula.closed_text.append (closed_of_forall (by decide))).append b.formula.closed_text
  | .loop x i body =>
    have hhead : Closed (indexed x.ident.chars i.ident.chars) :=
      ((closed_ident _).append ((Closed.char (by decide)).append (closed_ident _))).append
        (.char (by decide))
    l.closed_headed n (closed_of_forall (by decide)) hhead (body.closed_text l (n + 1))
  | .cond c body more =>
    (l.closed_headed n (closed_of_forall (by decide)) c.closed_text
      (body.closed_text l (n + 1))).append (more.closed_chars l n)

theorem Branches.closed_chars (l : Layout) (n : Nat) : ∀ b : Branches, Closed (b.chars l n)
  | .done => .nil
  | .elseIf c body more =>
    (l.closed_headed n (closed_of_forall (by decide)) c.closed_text
      (body.closed_text l (n + 1))).append (more.closed_chars l n)
  | .otherwise body =>
    (closed_of_forall (by decide)).append (l.closed_braced n (body.closed_text l (n + 1)))

theorem Block.closed_text (l : Layout) (n : Nat) : ∀ b : Block, Closed (b.text l n)
  | .nil => .nil
  | .cons s rest =>
    (((closed_blank (l.blank n)).append (s.closed_chars l n)).append s.closed_stop).append
      ((Closed.char (by decide)).append (rest.closed_text l n))

end

/-! ### Words of a block -/

theorem free_cons {kws : List (List Char)} (hnil : [] ∉ kws)
    (hc : ∀ kw ∈ kws, c ∉ kw) : Free kws (c :: v) ↔ Free kws v := by
  have := free_append_cons (u := []) (v := v) hc
  simpa [free_nil hnil] using this

theorem free_blank_append {b : List Char} (hb : Blank b) (hv : Free blockWords v) :
    Free blockWords (b ++ v) := by
  induction b with
  | nil => exact hv
  | cons c b ih =>
    obtain ⟨hc, hb⟩ := forall_mem_cons.1 hb
    refine (free_cons (by decide) fun kw hkw hmem => ?_).2 (ih hb)
    revert hc
    exact (by decide : ∀ kw ∈ blockWords, ∀ c ∈ kw, ¬ isBlank c = true) kw hkw c hmem

/-- No word of a block has this character. -/
def IsSeparator (c : Char) : Prop := ∀ kw ∈ blockWords, c ∉ kw

instance (c : Char) : Decidable (IsSeparator c) := inferInstanceAs (Decidable (∀ _ ∈ _, _))

theorem free_join (hc : IsSeparator c) (hu : Free blockWords u)
    (hv : Free blockWords v) : Free blockWords (u ++ c :: v) :=
  (free_append_cons hc).2 ⟨hu, hv⟩

theorem free_append (he : Ends IsSeparator u) (hu : Free blockWords u)
    (hv : Free blockWords v) : Free blockWords (u ++ v) := by
  obtain ⟨r, c, rfl, hc⟩ := he
  rw [append_assoc]
  exact free_join hc (hu.within ⟨[], [c], by simp⟩) hv

theorem free_between {d : Char} (hc : IsSeparator c) (hd : IsSeparator d)
    (h : Free blockWords w) : Free blockWords (c :: w ++ [d]) :=
  free_join hd ((free_cons (by decide) hc).2 h) (free_nil (by decide))

theorem Layout.free_braced (l : Layout) (n : Nat) (h : Free blockWords inner)
    (he : inner = [] ∨ Ends IsSeparator inner) : Free blockWords (l.braced n inner) := by
  have hmargin : Free blockWords (l.margin n) := by
    simpa using free_blank_append (l.blank n) (free_nil (by decide))
  refine free_between (by decide) (by decide) ((free_cons (by decide) (by decide)).2 ?_)
  rcases he with rfl | he
  · exact hmargin
  · exact free_append he h hmargin

theorem Layout.ends_braced (l : Layout) (n : Nat) (inner : List Char) :
    Ends (· = '}') (l.braced n inner) := ⟨_, '}', rfl, rfl⟩

theorem Layout.free_headed (l : Layout) (n : Nat) {word head : List Char}
    (hw : Free blockWords word) (hwe : Ends IsSeparator word) (hh : Free blockWords head)
    (hi : Free blockWords inner) (he : inner = [] ∨ Ends IsSeparator inner) :
    Free blockWords (l.headed n word head inner) :=
  free_join (by decide) (free_append hwe hw (free_between (by decide) (by decide) hh))
    (l.free_braced n hi he)

theorem Layout.ends_headed (l : Layout) (n : Nat) (word head inner : List Char) :
    Ends (· = '}') (l.headed n word head inner) :=
  Ends.append ((l.ends_braced n inner).append [' ']) _

theorem Block.ends_text (l : Layout) (n : Nat) : ∀ b : Block, b.text l n = [] ∨
    Ends (· = '\n') (b.text l n)
  | .nil => .inl rfl
  | .cons s rest => .inr (by
    rw [Block.text]
    refine Ends.append ?_ _
    rcases rest.ends_text l n with h | h
    · exact ⟨[], '\n', by simp [h], rfl⟩
    · exact h.append ['\n'])

theorem Block.ends_separator (l : Layout) (n : Nat) (b : Block) : b.text l n = [] ∨
    Ends IsSeparator (b.text l n) :=
  (b.ends_text l n).imp_right fun h => h.mono (by rintro _ rfl; decide)

theorem ends_separator_of_brace (h : Ends (· = '}') u) : Ends IsSeparator u :=
  h.mono (by rintro _ rfl; decide)

mutual

theorem Stmt.free_chars (l : Layout) (n : Nat) : ∀ s : Stmt, Free blockWords (s.chars l n)
  | .leaf c => c.free.block
  | .implies a b =>
    free_append ⟨_, ' ', (append_assoc a.text [' ', '-', '>'] [' ']).symm, by decide⟩
      (free_join (by decide) a.free.block (by decide)) b.free.block
  | .loop x i body =>
    l.free_headed n (by decide) ⟨['f', 'o', 'r', 'e', 'a', 'c', 'h'], ' ', rfl, by decide⟩
      (free_join (by decide) (free_join (by decide) x.free.block i.free.block) (free_nil (by decide)))
      (body.free_text l (n + 1)) (body.ends_separator l (n + 1))
  | .cond c body more =>
    free_append (ends_separator_of_brace (l.ends_headed n _ _ _))
      (l.free_headed n (by decide) ⟨['i', 'f'], ' ', rfl, by decide⟩ c.free.block
        (body.free_text l (n + 1)) (body.ends_separator l (n + 1))) (more.free_chars l n)

theorem Branches.free_chars (l : Layout) (n : Nat) : ∀ b : Branches, Free blockWords (b.chars l n)
  | .done => free_nil (by decide)
  | .elseIf c body more =>
    free_append (ends_separator_of_brace (l.ends_headed n _ _ _))
      (l.free_headed n (by decide) ⟨elseWord ++ ['i', 'f'], ' ', rfl, by decide⟩ c.free.block
        (body.free_text l (n + 1)) (body.ends_separator l (n + 1))) (more.free_chars l n)
  | .otherwise body =>
    free_append ⟨[' ', 'e', 'l', 's', 'e'], ' ', rfl, by decide⟩ (by decide)
      (l.free_braced n (body.free_text l (n + 1)) (body.ends_separator l (n + 1)))

theorem Block.free_text (l : Layout) (n : Nat) : ∀ b : Block, Free blockWords (b.text l n)
  | .nil => free_nil (by decide)
  | .cons s rest => by
    have hs : Free blockWords (s.chars l n ++ s.stop) := by
      cases s with
      | leaf | implies => exact free_join (by decide) (Stmt.free_chars l n _) (free_nil (by decide))
      | loop | cond =>
        rw [Stmt.stop, append_nil]
        exact Stmt.free_chars l n _
    have := free_blank_append (l.blank n) (free_join (c := '\n') (by decide) hs (rest.free_text l n))
    simpa [Block.text] using this

end

/-! ### Ends of a statement -/

theorem isBlank_of_isFirst (h : IsFirst c) : isBlank c = false := by
  rcases h with h | rfl
  · exact isBlank_of_nameTail (nameTail_of_nameHead h)
  · decide

theorem isBlank_of_isLast (h : IsLast c) : isBlank c = false := by
  rcases h with h | h
  · exact isBlank_of_nameTail h
  · exact (by decide : ∀ c ∈ [']', ')', '}'], isBlank c = false) c h

theorem Branches.ends_append (l : Layout) (n : Nat) : ∀ (b : Branches) {u : List Char},
    Ends (· = '}') u → Ends (· = '}') (u ++ b.chars l n)
  | .done, _, h => by simpa [Branches.chars] using h
  | .elseIf c body more, u, _ => (more.ends_append l n (l.ends_headed n _ _ _)).append u
  | .otherwise body, u, _ => ((l.ends_braced n _).append _).append u

/-- What ends a statement. -/
def IsEnd (c : Char) : Prop := c = ';' ∨ c = '}'

theorem isBlank_of_isEnd (h : IsEnd c) : isBlank c = false := by
  rcases h with rfl | rfl <;> decide

theorem isSeparator_of_isEnd (h : IsEnd c) : IsSeparator c := by
  rcases h with rfl | rfl <;> decide

theorem Formula.trim_text (f : Formula) : Trim f.text :=
  trim_of_starts_ends (f.starts_text.mono fun _ => isBlank_of_isFirst)
    (f.ends_text.mono fun _ => isBlank_of_isLast)

theorem Relation.trim_text (r : Relation) : Trim r.text := r.formula.trim_text

/-- Comparisons and memberships joined, as a condition. -/
def Condition.ofFormula (f : Formula) (h : Lexeme.arrow ∉ f.lexemes)
    (free : Free branchWords f.text) : Condition where
  text := f.text
  closed_text := f.closed_text
  trim_text := f.trim_text
  free := free
  arrowless := by
    intro kw hkw hin
    obtain rfl := mem_singleton.1 hkw
    have hlex : ∀ l ∈ f.lexemes, ∀ k ∈ l.chunks .source, IsOf conditionMarks k :=
      fun l hl => Lexeme.isOf_conditionMarks fun heq => h (heq ▸ hl)
    rcases mem_sourceText hlex (hin.subset mem_cons_self) with h | h
    · revert h
      decide
    · revert h
      decide

namespace Stmt

variable (l : Layout) (n : Nat) (s : Stmt)

theorem starts_chars : Starts IsFirst (s.chars l n) := by
  cases s with
  | leaf c => exact c.comparison.starts_text.mono fun _ => .inl
  | implies a b => exact (a.formula.starts_text.append _).append _
  | loop x i body => exact ⟨'f', _, rfl, .inl (by decide)⟩
  | cond c body more => exact ⟨'i', _, rfl, .inl (by decide)⟩

theorem ends_chars : Ends IsLast (s.chars l n) := by
  have hbrace : ∀ {u : List Char}, Ends (· = '}') u → Ends IsLast u := fun h =>
    h.mono (by rintro _ rfl; exact .inr (by decide))
  cases s with
  | leaf c => exact c.comparison.ends_text
  | implies a b => exact b.formula.ends_text.append _
  | loop x i body => exact hbrace (l.ends_headed n _ _ _)
  | cond c body more => exact hbrace (more.ends_append l n (l.ends_headed n _ _ _))

theorem trim_chars : Trim (s.chars l n) :=
  trim_of_starts_ends ((s.starts_chars l n).mono fun _ => isBlank_of_isFirst)
    ((s.ends_chars l n).mono fun _ => isBlank_of_isLast)

theorem ends_text : Ends IsEnd (s.text l n) := by
  have hbrace : ∀ {u : List Char}, Ends (· = '}') u → Ends IsEnd u := fun h => h.mono fun _ => .inr
  cases s with
  | leaf | implies => exact ⟨_, ';', rfl, .inl rfl⟩
  | loop x i body =>
    rw [text, stop, append_nil]
    exact hbrace (l.ends_headed n _ _ _)
  | cond c body more =>
    rw [text, stop, append_nil]
    exact hbrace (more.ends_append l n (l.ends_headed n _ _ _))

theorem starts_text : Starts IsFirst (s.text l n) := (s.starts_chars l n).append _

theorem trim_text : Trim (s.text l n) :=
  trim_of_starts_ends ((s.starts_text l n).mono fun _ => isBlank_of_isFirst)
    ((s.ends_text l n).mono fun _ => isBlank_of_isEnd)

theorem not_else_text (rest : List Char) : ¬ ['e', 'l', 's', 'e'] <+: s.text l n ++ rest := by
  intro h
  cases s with
  | leaf c =>
    rw [text, stop, append_assoc] at h
    exact c.free _ mem_cons_self (prefix_append_cons (by decide) h).isInfix
  | implies a b =>
    rw [text, chars, arrowed, append_assoc, append_assoc, append_assoc] at h
    exact a.free _ mem_cons_self (prefix_append_cons (by decide) h).isInfix
  | loop x i body | cond c body more =>
    have := cons_prefix_cons.1 h
    simp at this

end Stmt

/-! ### Blocks and the blanks around them -/

namespace Block

variable {l : Layout} {n : Nat} {b : Block} {cs : List Char}

theorem ends_after : ∀ (b : Block) {u : List Char}, Ends IsEnd u → Ends IsEnd (u ++ b.after l n)
  | .nil, _, h => by simpa [after] using h
  | .cons s rest, u, _ => by
    have := rest.ends_after ((s.ends_text l n).append ('\n' :: l.margin n))
    simpa [after] using this.append u

theorem ends_tight (b : Block) : b.tight l n = [] ∨ Ends IsEnd (b.tight l n) :=
  match b with
  | .nil => .inl rfl
  | .cons s rest => .inr (rest.ends_after (s.ends_text l n))

theorem trim_tight (b : Block) : Trim (b.tight l n) := by
  cases b with
  | nil => exact ⟨by simp [tight], by simp [tight]⟩
  | cons s rest =>
    exact trim_of_starts_ends (((s.starts_text l n).mono fun _ => isBlank_of_isFirst).append _)
      ((rest.ends_after (s.ends_text l n)).mono fun _ => isBlank_of_isEnd)

theorem spread_tight (b : Block) : b.Spread l n (b.tight l n) :=
  ⟨[], [], blank_nil, blank_nil, by simp⟩

theorem Spread.pad (h : b.Spread l n cs) {a z : List Char} (ha : Blank a) (hz : Blank z) :
    b.Spread l n (a ++ cs ++ z) := by
  obtain ⟨a', z', ha', hz', rfl⟩ := h
  exact ⟨a ++ a', z' ++ z, forall_mem_append.2 ⟨ha, ha'⟩, forall_mem_append.2 ⟨hz', hz⟩,
    by simp⟩

theorem spread_text (l : Layout) (n : Nat) (b : Block) : b.Spread l n (b.text l n) := by
  cases b with
  | nil => exact spread_tight .nil
  | cons s rest =>
    refine ⟨l.margin n, ['\n'], l.blank n, by decide, ?_⟩
    simp [text, tight, Stmt.text, cons_text]

theorem spread_inner (l : Layout) (n m : Nat) (b : Block) :
    b.Spread l n ('\n' :: b.text l n ++ l.margin m) :=
  (spread_text l n b).pad (a := ['\n']) (by decide) (l.blank m)

theorem Spread.strip (h : b.Spread l n cs) :
    Text.strip (String.ofList cs) = String.ofList (b.tight l n) := by
  obtain ⟨a, z, ha, hz, rfl⟩ := h
  exact strip_append ha b.trim_tight hz

theorem free_tight (l : Layout) (n : Nat) (b : Block) : Free blockWords (b.tight l n) := by
  obtain ⟨a, z, -, -, h⟩ := spread_text l n b
  exact (b.free_text l n).within ⟨a, z, h.symm⟩

theorem Spread.free (h : b.Spread l n cs) : Free blockWords cs := by
  obtain ⟨a, z, ha, hz, rfl⟩ := h
  have hfree : Free blockWords z := by simpa using free_blank_append hz (free_nil (by decide))
  rw [append_assoc]
  refine free_blank_append ha ?_
  rcases b.ends_tight with hnil | hends
  · rwa [hnil]
  · exact free_append (hends.mono fun _ => isSeparator_of_isEnd) (free_tight l n b) hfree

end Block

end Stimulus.Sv
