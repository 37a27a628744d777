import Mathlib.Data.List.Chain
import Stimulus.Proofs.Text.Basic
import Stimulus.Proofs.Text.Chunk

/-!
# The source of expressions

Expressions of constraint statements as trees, the pieces they are written in, and the text of
these pieces.
-/

open List

namespace Stimulus.Sv

open Pattern Text

variable {ms : List Char} {ks : List Chunk} {j : Joints}

/-! ## Names -/

/-- A character that can start a name. -/
def nameHead (c : Char) : Bool := c.isAlpha || c == '_'

/-- A character that can stand in a name. -/
def nameTail (c : Char) : Bool := c.isAlphanum || c == '_'

variable {c : Char} {w cs : List Char}

theorem nameTail_of_nameHead (h : nameHead c = true) : nameTail c = true := by
  simp only [nameHead, nameTail, Char.isAlphanum, Bool.or_eq_true] at h ⊢
  tauto

theorem nameTail_of_isDigit (h : c.isDigit = true) : nameTail c = true := by
  simp [nameTail, Char.isAlphanum, h]

theorem isAlpha_of_isUpper (h : c.isUpper = true) : c.isAlpha = true := by
  show (c.isUpper || c.isLower) = true
  rw [h, Bool.true_or]

theorem isAlpha_iff : c.isAlpha = true ↔
    (65 ≤ c.toNat ∧ c.toNat ≤ 90) ∨ (97 ≤ c.toNat ∧ c.toNat ≤ 122) := by
  show (decide (c.val ≥ 'A'.val ∧ c.val ≤ 'Z'.val) ||
    (decide (c.val ≥ 'a'.val) && decide (c.val ≤ 'z'.val))) = true ↔ _
  simp only [Bool.or_eq_true, decide_eq_true_eq, Bool.and_eq_true, ge_iff_le,
    UInt32.le_iff_toNat_le]
  rfl

theorem toNat_of_nameTail (h : nameTail c = true) : 48 ≤ c.toNat ∧ c.toNat < 128 := by
  simp only [nameTail, Char.isAlphanum, isAlpha_iff, Char.isDigit, Bool.or_eq_true,
    decide_eq_true_eq, Bool.and_eq_true, ge_iff_le, UInt32.le_iff_toNat_le, beq_iff_eq] at h
  change (((65 ≤ c.toNat ∧ c.toNat ≤ 90) ∨ (97 ≤ c.toNat ∧ c.toNat ≤ 122)) ∨
    (48 ≤ c.toNat ∧ c.toNat ≤ 57)) ∨ c = '_' at h
  rcases h with h | rfl
  · omega
  · decide

theorem isWordChar_of_nameTail (h : nameTail c = true) : isWordChar c = true := by
  have hlt := (toNat_of_nameTail h).2
  simp only [nameTail, Bool.or_eq_true] at h
  simp only [isWordChar, isAlphanumeric, hlt, if_true, Bool.or_eq_true]
  exact h.symm

theorem isBlank_of_nameTail (h : nameTail c = true) : isBlank c = false := by
  obtain ⟨hlow, hhigh⟩ := toNat_of_nameTail h
  simp only [isBlank, hhigh, if_true, Bool.or_eq_false_iff, Bool.and_eq_false_iff,
    decide_eq_false_iff_not]
  omega

theorem nameTail_of_isBlank (h : isBlank c = true) : nameTail c = false := by
  by_contra hc
  rw [isBlank_of_nameTail (by simpa using hc)] at h
  cases h

theorem inSpans_eq_false {s t : Array (Nat × Nat)}
    (h : ∀ a ∈ s.toList, ∀ b ∈ t.toList, a.2 < b.1 ∨ b.2 < a.1)
    (hc : inSpans s c = true) : inSpans t c = false := by
  refine Bool.eq_false_iff.2 fun hc' => ?_
  simp only [inSpans, ← Array.any_toList, any_eq_true, Bool.and_eq_true,
    decide_eq_true_eq] at hc hc'
  obtain ⟨a, ha, hlow, hhigh⟩ := hc
  obtain ⟨b, hb, hlow', hhigh'⟩ := hc'
  have := h a ha b hb
  omega

theorem isBlank_of_isWordChar (h : isWordChar c = true) : isBlank c = false := by
  by_cases hc : c.toNat < 128
  · have hname : nameTail c = true := by
      simpa [isWordChar, isAlphanumeric, hc, nameTail, or_comm] using h
    exact isBlank_of_nameTail hname
  · have hspan : inSpans alphanumericSpans c = true := by
      have hne : c ≠ '_' := by
        rintro rfl
        exact hc (by decide)
      simpa [isWordChar, isAlphanumeric, hc, hne] using h
    rw [isBlank, if_neg hc]
    exact inSpans_eq_false (by decide +kernel) hspan

theorem isWordChar_of_isBlank (c : Char) (h : isBlank c = true) : isWordChar c = false :=
  Bool.eq_false_iff.2 fun hw => by simp [isBlank_of_isWordChar hw] at h

theorem head_word {z : List Char} (h : IsWord w) : ∀ c ∈ (w ++ z).head?, isBlank c = false :=
  head_of_ne_nil h.ne_nil fun c hc => isBlank_of_isWordChar (h.chars c hc)

/-- The words that make up statements. -/
def keywords : List (List Char) :=
  ["if", "else", "begin", "end", "inside", "dist", "solve", "before", "foreach", "unique",
    "soft"].map String.toList

/-- A name of a field, an array, an index or a member of an enumeration. -/
structure Ident where
  chars : List Char
  shape : hasShape nameHead nameTail chars = true
  plain : chars ∉ keywords
deriving DecidableEq

namespace Ident

/-- The name as a text. -/
def name (x : Ident) : String := String.ofList x.chars

theorem exists_chars (x : Ident) :
    ∃ c cs, x.chars = c :: cs ∧ nameHead c = true ∧ ∀ d ∈ cs, nameTail d = true := by
  have h := x.shape
  cases hx : x.chars with
  | nil => simp [hx, hasShape] at h
  | cons c cs =>
    simp only [hx, hasShape, Bool.and_eq_true, all_eq_true] at h
    exact ⟨c, cs, rfl, h.1, h.2⟩

end Ident

/-- A word of plain letters, digits and underscores. -/
structure IsPlain (w : List Char) : Prop where
  ne_nil : w ≠ []
  chars : ∀ c ∈ w, nameTail c = true

theorem IsPlain.isWord (h : IsPlain w) : IsWord w :=
  ⟨h.ne_nil, fun c hc => isWordChar_of_nameTail (h.chars c hc)⟩

theorem IsPlain.trim (h : IsPlain w) : Trim w :=
  ⟨fun c hc => isBlank_of_nameTail (h.chars c (mem_of_mem_head? hc)),
    fun c hc => isBlank_of_nameTail (h.chars c (mem_of_mem_getLast? hc))⟩

theorem IsPlain.not_mem (h : IsPlain w) (hc : nameTail c = false) :
    c ∉ w := fun hmem => by simp [h.chars c hmem] at hc

theorem Ident.isPlain (x : Ident) : IsPlain x.chars := by
  obtain ⟨c, cs, hx, hc, hcs⟩ := x.exists_chars
  refine ⟨by simp [hx], ?_⟩
  rw [hx]
  exact forall_mem_cons.2 ⟨nameTail_of_nameHead hc, hcs⟩

/-- The next character is no part of a name. -/
def Stops (cs : List Char) : Prop := ∀ c ∈ cs.head?, nameTail c = false

theorem stops_cons : Stops (c :: cs) ↔ nameTail c = false := by
  simp [Stops]

theorem stops_of_bounded (h : Bounded cs) : Stops cs := by
  intro c hc
  by_contra hn
  have := isWordChar_of_nameTail (by simpa using hn)
  rw [h c hc] at this
  cases this

theorem IsPlain.eq_of_append {v r t : List Char} (hv : IsPlain v) (hw : IsPlain w) (hr : Stops r)
    (ht : Stops t) (h : v ++ r = w ++ t) : v = w := by
  have hvr := takeWhile_append_stop (z := r) hv.chars hr
  have hwt := takeWhile_append_stop (z := t) hw.chars ht
  rw [← hvr.1, h, hwt.1]

/-- The digits of a number. -/
def digitsOf (n : Nat) : List Char := Nat.toDigits 10 n

theorem isDigit_of_mem_digitsOf {n : Nat} (h : c ∈ digitsOf n) : c.isDigit = true :=
  Nat.isDigit_of_mem_toDigits (by decide) (by decide) h

theorem isPlain_digitsOf (n : Nat) : IsPlain (digitsOf n) :=
  ⟨Nat.toDigits_ne_nil, fun _ hc => nameTail_of_isDigit (isDigit_of_mem_digitsOf hc)⟩

/-! ## Atoms -/

/-- A number or a name. -/
inductive Value where
  | num (n : Nat)
  | name (x : Ident)
deriving DecidableEq

/-- A field, or an element of an array. -/
inductive Ref where
  | name (x : Ident)
  | element (x : Ident) (index : Value)
deriving DecidableEq

/-- What a reference is compared with. -/
inductive Operand where
  | num (n : Nat)
  | ref (r : Ref)
deriving DecidableEq

/-- The comparisons. -/
inductive Rel where
  | eq | ne | lt | gt | le | ge
deriving DecidableEq

/-- The mark of a comparison. -/
def Rel.chars : Rel → List Char
  | eq => ['=', '=']
  | ne => ['!', '=']
  | lt => ['<']
  | gt => ['>']
  | le => ['<', '=']
  | ge => ['>', '=']

/-- What a comparison says of two numbers. -/
def Rel.holds : Rel → Int → Int → Bool
  | eq, a, b => a == b
  | ne, a, b => a != b
  | lt, a, b => decide (a < b)
  | gt, a, b => decide (b < a)
  | le, a, b => decide (a ≤ b)
  | ge, a, b => decide (b ≤ a)

/-- A reference compared with a number or another reference. -/
structure Comparison where
  left : Ref
  rel : Rel
  right : Operand
deriving DecidableEq

/-- An item of a value set: a value, or a range of values. -/
inductive Item where
  | one (v : Value)
  | span (low high : Value)
deriving DecidableEq

/-- Membership of a field in a value set. -/
structure Member where
  subject : Ident
  first : Item
  more : List Item
deriving DecidableEq

/-- The characters of a value. -/
def Value.chars : Value → List Char
  | num n => digitsOf n
  | name x => x.chars

theorem Value.isPlain (v : Value) : IsPlain v.chars := by
  cases v with
  | num n => exact isPlain_digitsOf n
  | name x => exact x.isPlain

/-- The chunks of a reference. -/
def Ref.chunks : Ref → List Chunk
  | name x => [.word x.chars]
  | element x i => [.word x.chars, .mark '[', .word i.chars, .mark ']']

/-- The chunks of an operand. -/
def Operand.chunks : Operand → List Chunk
  | num n => [.word (digitsOf n)]
  | ref r => r.chunks

/-- The chunks of a comparison. -/
def Comparison.chunks (c : Comparison) : List Chunk :=
  c.left.chunks ++ marks (' ' :: c.rel.chars ++ [' ']) ++ c.right.chunks

/-- The chunks of an item. -/
def Item.chunks : Item → List Chunk
  | one v => [.word v.chars]
  | span low high => [.mark '[', .word low.chars, .mark ':', .word high.chars, .mark ']']

/-- Chunks with commas between them. -/
def listed {α : Type} (f : α → List Chunk) (first : α) (more : List α) : List Chunk :=
  f first ++ more.flatMap fun x => marks [',', ' '] ++ f x

/-- The chunks of the items of a value set. -/
def itemChunks (first : Item) (more : List Item) : List Chunk := listed Item.chunks first more

/-- The chunks of a value set, with its braces and the word before it. -/
def Member.setChunks (m : Member) : List Chunk :=
  .word "inside".toList :: .mark ' ' :: .mark '{' :: itemChunks m.first m.more ++ [.mark '}']

/-- The chunks of a membership. -/
def Member.chunks (m : Member) : List Chunk :=
  .word m.subject.chars :: .mark ' ' :: m.setChunks

/-! ## Lexemes -/

/-- A piece of an expression. -/
inductive Lexeme where
  | compare (c : Comparison)
  | member (m : Member)
  | and | or | arrow | opening | closing
deriving DecidableEq

variable {l : Lexeme} {ls : List Lexeme}

/-- The lexeme is an expression of its own. -/
def Lexeme.isAtom : Lexeme → Bool
  | compare _ | member _ => true
  | _ => false

/-- The mark of a conjunction or a disjunction: blanks, and then a sign. -/
structure IsJoint (cs : List Char) : Prop where
  sign : ∃ b c r, cs = b ++ c :: r ∧ b ≠ [] ∧ (∀ d ∈ b, d = ' ') ∧ (c = '&' ∨ c = '|')
  chars : ∀ c ∈ cs, c ∈ [' ', '&', '|']

/-- How conjunctions and disjunctions are written. -/
structure Joints where
  conj : List Char
  disj : List Char
  isJoint_conj : IsJoint conj
  isJoint_disj : IsJoint disj

/-- The joints of the source. -/
def Joints.source : Joints where
  conj := [' ', '&', '&', ' ']
  disj := [' ', '|', '|', ' ']
  isJoint_conj := ⟨⟨[' '], '&', _, rfl, by decide, by decide, by decide⟩, by decide⟩
  isJoint_disj := ⟨⟨[' '], '|', _, rfl, by decide, by decide, by decide⟩, by decide⟩

/-- The chunks of a lexeme. -/
def Lexeme.chunks (j : Joints) : Lexeme → List Chunk
  | compare c => c.chunks
  | member m => m.chunks
  | and => marks j.conj
  | or => marks j.disj
  | arrow => marks [' ', '-', '>', ' ']
  | opening => marks ['(']
  | closing => marks [')']

def textWith (j : Joints) (ls : List Lexeme) : List Chunk := ls.flatMap (Lexeme.chunks j)

@[simp] theorem textWith_nil (j : Joints) : textWith j [] = [] := rfl

@[simp] theorem textWith_cons (j : Joints) (l : Lexeme) (ls : List Lexeme) :
    textWith j (l :: ls) = l.chunks j ++ textWith j ls := rfl

@[simp] theorem textWith_append (j : Joints) (ls ms : List Lexeme) :
    textWith j (ls ++ ms) = textWith j ls ++ textWith j ms := by
  simp [textWith]

/-- The text of lexemes in the source. -/
def sourceText (ls : List Lexeme) : List Char := spell (textWith .source ls)

/-- No atom directly follows another. -/
def Separated (ls : List Lexeme) : Prop :=
  ls.IsChain fun l m => l.isAtom = true → m.isAtom = false

/-- An expression as it is written, parentheses included. -/
inductive Formula where
  | compare (c : Comparison)
  | member (m : Member)
  | and (f g : Formula)
  | or (f g : Formula)
  | implies (f g : Formula)
  | paren (f : Formula)
deriving DecidableEq

def Formula.lexemes : Formula → List Lexeme
  | compare c => [.compare c]
  | member m => [.member m]
  | and f g => f.lexemes ++ .and :: g.lexemes
  | or f g => f.lexemes ++ .or :: g.lexemes
  | implies f g => f.lexemes ++ .arrow :: g.lexemes
  | paren f => .opening :: f.lexemes ++ [.closing]

private theorem separated_join {ms : List Lexeme} (hl : l.isAtom = false)
    (h : Separated ls) (k : Separated ms) : Separated (ls ++ l :: ms) := by
  refine List.isChain_append.2 ⟨h, ?_, ?_⟩
  · exact List.IsChain.cons k fun m _ h => by simp [hl] at h
  · intro x _ y hy _
    obtain rfl : l = y := by simpa using hy
    exact hl

theorem Formula.separated (f : Formula) : Separated f.lexemes := by
  induction f with
  | compare | member => exact isChain_singleton _
  | and f g hf hg | or f g hf hg | implies f g hf hg => exact separated_join rfl hf hg
  | paren f hf =>
    have := separated_join (l := .opening) rfl isChain_nil hf
    exact separated_join rfl this isChain_nil

theorem Formula.exists_isAtom (f : Formula) : ∃ l ∈ f.lexemes, l.isAtom = true := by
  induction f with
  | compare | member => exact ⟨_, mem_singleton_self _, rfl⟩
  | and f g hf _ | or f g hf _ | implies f g hf _ =>
    obtain ⟨l, hl, hatom⟩ := hf
    exact ⟨l, mem_append_left _ hl, hatom⟩
  | paren f hf =>
    obtain ⟨l, hl, hatom⟩ := hf
    exact ⟨l, by simp [Formula.lexemes, hl], hatom⟩

/-! ## Characters of a text -/

/-- The marks of references and of the items of value sets. -/
def itemMarks : List Char := " []:,".toList

/-- The marks of memberships. -/
def setMarks : List Char := itemMarks ++ "\x7b\x7d".toList

/-- The marks of comparisons. -/
def relationMarks : List Char := itemMarks ++ "=!<>".toList

/-- The marks of atoms. -/
def atomMarks : List Char := setMarks ++ "=!<>".toList

/-- The marks of expressions. -/
def sourceMarks : List Char := atomMarks ++ "&|-()".toList

/-- A word of plain characters, or one of the given marks. -/
def IsOf (ms : List Char) : Chunk → Prop
  | .word w => IsPlain w
  | .mark c => c ∈ ms

theorem IsOf.mono {ns : List Char} (h : ∀ c ∈ ms, c ∈ ns) {k : Chunk} (hk : IsOf ms k) :
    IsOf ns k := by
  cases k with
  | word w => exact hk
  | mark c => exact h c hk

theorem isOf_marks (h : ∀ c ∈ cs, c ∈ ms) : ∀ k ∈ marks cs, IsOf ms k := by
  intro k hk
  obtain ⟨c, hc, rfl⟩ := mem_map.1 hk
  exact h c hc

theorem mem_spell_of_isOf (h : ∀ k ∈ ks, IsOf ms k)
    (hc : c ∈ spell ks) : nameTail c = true ∨ c ∈ ms := by
  obtain ⟨k, hk, hck⟩ := mem_flatMap.1 hc
  have := h k hk
  cases k with
  | word w => exact .inl (this.chars c hck)
  | mark d =>
    obtain rfl : c = d := by simpa [Chunk.chars] using hck
    exact .inr this

theorem mem_sourceMarks_of_atom : ∀ c ∈ atomMarks, c ∈ sourceMarks := by decide

theorem mem_relationMarks_of_item : ∀ c ∈ itemMarks, c ∈ relationMarks := by decide

theorem mem_atomMarks_of_relation : ∀ c ∈ relationMarks, c ∈ atomMarks := by decide

theorem mem_atomMarks_of_set : ∀ c ∈ setMarks, c ∈ atomMarks := by decide

theorem Rel.mem_relationMarks (r : Rel) : ∀ c ∈ ' ' :: r.chars ++ [' '], c ∈ relationMarks := by
  cases r <;> decide

theorem Rel.mem_sourceMarks (r : Rel) : ∀ c ∈ ' ' :: r.chars ++ [' '], c ∈ sourceMarks :=
  fun c hc => mem_sourceMarks_of_atom c (mem_atomMarks_of_relation c (r.mem_relationMarks c hc))

theorem Ref.isOf (r : Ref) : ∀ k ∈ r.chunks, IsOf itemMarks k := by
  cases r with
  | name x => simpa [Ref.chunks, IsOf] using x.isPlain
  | element x i =>
    simp only [Ref.chunks, forall_mem_cons, IsOf]
    exact ⟨x.isPlain, by decide, i.isPlain, by decide, by simp⟩

theorem Operand.isOf (o : Operand) : ∀ k ∈ o.chunks, IsOf itemMarks k := by
  cases o with
  | num n => simpa [Operand.chunks, IsOf] using isPlain_digitsOf n
  | ref r => exact r.isOf

theorem Item.isOf (i : Item) : ∀ k ∈ i.chunks, IsOf itemMarks k := by
  cases i with
  | one v => simpa [Item.chunks, IsOf] using v.isPlain
  | span low high =>
    simp only [Item.chunks, forall_mem_cons, IsOf]
    exact ⟨by decide, low.isPlain, by decide, high.isPlain, by decide, by simp⟩

theorem isOf_itemChunks (first : Item) (more : List Item) :
    ∀ k ∈ itemChunks first more, IsOf itemMarks k := by
  intro k hk
  rcases mem_append.1 hk with hk | hk
  · exact first.isOf k hk
  · obtain ⟨i, -, hk⟩ := mem_flatMap.1 hk
    rcases mem_append.1 hk with hk | hk
    · exact isOf_marks (by decide) k hk
    · exact i.isOf k hk

theorem Member.isOf (m : Member) : ∀ k ∈ m.chunks, IsOf setMarks k := by
  simp only [Member.chunks, Member.setChunks, cons_append, forall_mem_cons,
    forall_mem_append, IsOf]
  exact ⟨m.subject.isPlain, by decide, ⟨by decide, by decide⟩, by decide, by decide,
    fun k hk => (isOf_itemChunks m.first m.more k hk).mono (by decide), by decide, by simp⟩

theorem Comparison.isOf (c : Comparison) : ∀ k ∈ c.chunks, IsOf relationMarks k := by
  intro k hk
  rcases mem_append.1 hk with hk | hk
  · rcases mem_append.1 hk with hk | hk
    · exact (c.left.isOf k hk).mono mem_relationMarks_of_item
    · exact isOf_marks c.rel.mem_relationMarks k hk
  · exact (c.right.isOf k hk).mono mem_relationMarks_of_item

theorem Lexeme.isOf_of_isAtom (j : Joints) (h : l.isAtom = true) :
    ∀ k ∈ l.chunks j, IsOf atomMarks k := by
  cases l with
  | compare c => exact fun k hk => (c.isOf k hk).mono mem_atomMarks_of_relation
  | member m => exact fun k hk => (m.isOf k hk).mono mem_atomMarks_of_set
  | and | or | arrow | opening | closing => cases h

theorem IsJoint.mem_sourceMarks (h : IsJoint cs) : ∀ c ∈ cs, c ∈ sourceMarks :=
  fun c hc => (by decide : ∀ c ∈ [' ', '&', '|'], c ∈ sourceMarks) c (h.chars c hc)

theorem Lexeme.isOf (j : Joints) (l : Lexeme) : ∀ k ∈ l.chunks j, IsOf sourceMarks k := by
  cases l with
  | compare c =>
    intro k hk
    exact ((c.isOf k hk).mono mem_atomMarks_of_relation).mono mem_sourceMarks_of_atom
  | member m =>
    intro k hk
    exact ((m.isOf k hk).mono mem_atomMarks_of_set).mono mem_sourceMarks_of_atom
  | and => exact isOf_marks j.isJoint_conj.mem_sourceMarks
  | or => exact isOf_marks j.isJoint_disj.mem_sourceMarks
  | arrow | opening | closing => exact isOf_marks (by decide)

theorem mem_textWith
    (hc : c ∈ spell (textWith j ls)) : nameTail c = true ∨ c ∈ sourceMarks := by
  refine mem_spell_of_isOf (fun k hk => ?_) hc
  obtain ⟨l, -, hk⟩ := mem_flatMap.1 hk
  exact l.isOf j k hk

theorem not_mem_textWith (hc : nameTail c = false)
    (hm : c ∉ sourceMarks) : c ∉ spell (textWith j ls) := by
  intro hmem
  rcases mem_textWith hmem with h | h
  · simp [hc] at h
  · exact hm h

/-! ## Whole words -/

theorem not_isWordChar_of_mem_sourceMarks (h : c ∈ sourceMarks) : isWordChar c = false := by
  revert c
  decide

theorem bounded_mark (h : c ∈ sourceMarks) : Bounded (c :: cs) :=
  bounded_cons.2 (not_isWordChar_of_mem_sourceMarks h)

theorem Ref.wellCut (r : Ref) : WellCut r.chunks := by
  cases r with
  | name x => exact ⟨x.isPlain.isWord, bounded_nil, trivial⟩
  | element x i =>
    exact ⟨x.isPlain.isWord, bounded_mark (by decide), by decide, i.isPlain.isWord,
      bounded_mark (by decide), by decide, trivial⟩

theorem Operand.wellCut (o : Operand) : WellCut o.chunks := by
  cases o with
  | num n => exact ⟨(isPlain_digitsOf n).isWord, bounded_nil, trivial⟩
  | ref r => exact r.wellCut

theorem Item.wellCut (i : Item) : WellCut i.chunks := by
  cases i with
  | one v => exact ⟨v.isPlain.isWord, bounded_nil, trivial⟩
  | span low high =>
    exact ⟨by decide, low.isPlain.isWord, bounded_mark (by decide), by decide,
      high.isPlain.isWord, bounded_mark (by decide), by decide, trivial⟩

theorem wellCut_join (hne : w ≠ []) (hcs : ∀ c ∈ w, c ∈ sourceMarks)
    {l : List Chunk} (hk : WellCut ks) (hl : WellCut l) :
    WellCut (ks ++ (marks w ++ l)) := by
  have hmarks : WellCut (marks w ++ l) :=
    wellCut_marks (fun c hc => not_isWordChar_of_mem_sourceMarks (hcs c hc)) hl
  refine wellCut_append hk hmarks fun _ _ => ?_
  obtain ⟨c, w, rfl⟩ := exists_cons_of_ne_nil hne
  exact bounded_mark (hcs c mem_cons_self)

theorem Comparison.wellCut (c : Comparison) : WellCut c.chunks := by
  rw [Comparison.chunks, append_assoc]
  exact wellCut_join (by simp) c.rel.mem_sourceMarks
    c.left.wellCut c.right.wellCut

theorem wellCut_listed {α : Type} {f : α → List Chunk} (h : ∀ x, WellCut (f x)) (first : α)
    (more : List α) : WellCut (listed f first more) := by
  induction more generalizing first with
  | nil => simpa [listed] using h first
  | cons x more ih =>
    have := wellCut_join (w := [',', ' ']) (by simp) (by decide) (h first) (ih x)
    simpa [listed] using this

theorem Member.wellCut (m : Member) : WellCut m.chunks := by
  have hset : WellCut (itemChunks m.first m.more ++ [.mark '}']) := by
    exact wellCut_join (w := ['}']) (l := []) (by simp) (by decide)
      (wellCut_listed Item.wellCut m.first m.more) trivial
  exact ⟨m.subject.isPlain.isWord, bounded_mark (by decide), by decide, ⟨by decide, by decide⟩,
    bounded_mark (by decide), by decide, by decide, hset⟩

theorem IsJoint.ne_nil (h : IsJoint cs) : cs ≠ [] := by
  obtain ⟨b, c, r, rfl, -⟩ := h.sign
  simp

theorem Lexeme.chunks_of_not_isAtom (j : Joints) (h : l.isAtom = false) :
    ∃ c cs, l.chunks j = marks (c :: cs) ∧ ∀ d ∈ c :: cs, d ∈ sourceMarks := by
  cases l with
  | compare | member => cases h
  | and =>
    obtain ⟨c, cs, hc⟩ := exists_cons_of_ne_nil j.isJoint_conj.ne_nil
    exact ⟨c, cs, by rw [Lexeme.chunks, hc], hc ▸ j.isJoint_conj.mem_sourceMarks⟩
  | or =>
    obtain ⟨c, cs, hc⟩ := exists_cons_of_ne_nil j.isJoint_disj.ne_nil
    exact ⟨c, cs, by rw [Lexeme.chunks, hc], hc ▸ j.isJoint_disj.mem_sourceMarks⟩
  | arrow | opening | closing => exact ⟨_, _, rfl, by decide⟩

theorem bounded_flatMap (j : Joints) {f : Lexeme → List Chunk}
    (hmark : ∀ l, l.isAtom = false → f l = l.chunks j)
    (h : Separated (l :: ls)) (hl : l.isAtom = true) : Bounded (spell (ls.flatMap f)) := by
  cases ls with
  | nil => exact bounded_nil
  | cons m ls =>
    have hm := (isChain_cons_cons.1 h).1 hl
    obtain ⟨c, cs, hc, hmarks⟩ := m.chunks_of_not_isAtom j hm
    rw [flatMap_cons, hmark m hm, hc, spell_append, spell_marks]
    exact bounded_mark (hmarks c mem_cons_self)

theorem wellCut_flatMap (j : Joints) {f : Lexeme → List Chunk}
    (hatom : ∀ l, l.isAtom = true → WellCut (f l))
    (hmark : ∀ l, l.isAtom = false → f l = l.chunks j) (h : Separated ls) :
    WellCut (ls.flatMap f) := by
  induction ls with
  | nil => trivial
  | cons l ls ih =>
    have hls := ih h.of_cons
    rw [flatMap_cons]
    cases hl : l.isAtom with
    | false =>
      obtain ⟨c, cs, hc, hmarks⟩ := l.chunks_of_not_isAtom j hl
      rw [hmark l hl, hc]
      exact wellCut_marks (fun d hd => not_isWordChar_of_mem_sourceMarks (hmarks d hd)) hls
    | true => exact wellCut_append (hatom l hl) hls fun _ _ => bounded_flatMap j hmark h hl

theorem bounded_textWith (j : Joints) (h : Separated (l :: ls))
    (hl : l.isAtom = true) : Bounded (spell (textWith j ls)) :=
  bounded_flatMap j (fun _ _ => rfl) h hl

theorem wellCut_textWith (j : Joints) (h : Separated ls) : WellCut (textWith j ls) := by
  refine wellCut_flatMap j (fun l hl => ?_) (fun _ _ => rfl) h
  cases l with
  | compare c => exact c.wellCut
  | member m => exact m.wellCut
  | and | or | arrow | opening | closing => cases hl

theorem Lexeme.exists_head_of_isAtom (j : Joints) (h : l.isAtom = true) :
    ∃ c cs, spell (l.chunks j) = c :: cs ∧ nameHead c = true := by
  cases l with
  | compare cmp =>
    obtain ⟨left, rel, right⟩ := cmp
    cases left with
    | name x =>
      obtain ⟨c, cs, hx, hc, -⟩ := x.exists_chars
      exact ⟨c, _, by simp [Lexeme.chunks, Comparison.chunks, Ref.chunks, hx]; rfl, hc⟩
    | element x i =>
      obtain ⟨c, cs, hx, hc, -⟩ := x.exists_chars
      exact ⟨c, _, by simp [Lexeme.chunks, Comparison.chunks, Ref.chunks, hx]; rfl, hc⟩
  | member m =>
    obtain ⟨c, cs, hx, hc, -⟩ := m.subject.exists_chars
    exact ⟨c, _, by simp [Lexeme.chunks, Member.chunks, hx]; rfl, hc⟩
  | and | or | arrow | opening | closing => cases h

/-! ## Neighbours -/

/-- What can follow the first characters of comparisons and arrows. -/
def Next (a b : Char) : Prop :=
  (a = '<' ∨ a = '>' → b = ' ' ∨ b = '=') ∧ (a = '!' → b = '=') ∧ (a = '-' → b = '>')

/-- The character starts neither a comparison nor an arrow. -/
def isCalm (c : Char) : Bool := !(['<', '>', '!', '-'].contains c)

theorem next_of_isCalm {a b : Char} (h : isCalm a = true) : Next a b := by
  have ha : a ≠ '<' ∧ a ≠ '>' ∧ a ≠ '!' ∧ a ≠ '-' := by simpa [isCalm] using h
  simp [Next, ha]

theorem isChain_next_append {ds : List Char} (h : ∀ c ∈ w, isCalm c = true)
    (hd : ds.IsChain Next) : (w ++ ds).IsChain Next := by
  induction w with
  | nil => exact hd
  | cons c w ih =>
    exact (ih fun d hd => h d (mem_cons_of_mem _ hd)).cons fun _ _ =>
      next_of_isCalm (h c mem_cons_self)

theorem isCalm_of_nameTail (h : nameTail c = true) : isCalm c = true := by
  simp only [isCalm, Bool.not_eq_true', contains_eq_mem, decide_eq_false_iff_not]
  intro hc
  have := (by decide : ∀ c ∈ ['<', '>', '!', '-'], nameTail c = false) c hc
  simp [this] at h

theorem isCalm_spell (h : ∀ k ∈ ks, IsOf setMarks k) :
    ∀ c ∈ spell ks, isCalm c = true := by
  intro c hc
  rcases mem_spell_of_isOf h hc with h | h
  · exact isCalm_of_nameTail h
  · exact (by decide : ∀ c ∈ setMarks, isCalm c = true) c h

theorem IsJoint.isCalm (h : IsJoint cs) : ∀ c ∈ cs, isCalm c = true :=
  fun c hc => (by decide : ∀ c ∈ [' ', '&', '|'], Sv.isCalm c = true) c (h.chars c hc)

private theorem isChain_next_rel (r : Rel) (h : cs.IsChain Next) :
    (r.chars ++ ' ' :: cs).IsChain Next := by
  have hcs : (' ' :: cs).IsChain Next := isChain_next_append (w := [' ']) (by decide) h
  cases r <;> simp [Rel.chars, isChain_cons_cons, Next, hcs]

/-- Characters of a text of lexemes follow each other as `Next` says. -/
theorem isChain_next_textWith (j : Joints) (ls : List Lexeme) :
    (spell (textWith j ls)).IsChain Next := by
  induction ls with
  | nil => exact isChain_nil
  | cons l ls ih =>
    rw [textWith_cons, spell_append]
    cases l with
    | compare c =>
      have hitem : ∀ k, IsOf itemMarks k → IsOf setMarks k := fun k hk => hk.mono (by decide)
      have hright := isChain_next_append
        (isCalm_spell fun k hk => hitem k (c.right.isOf k hk)) ih
      have hrel := isChain_next_append (w := [' ']) (by decide) (isChain_next_rel c.rel hright)
      have := isChain_next_append (isCalm_spell fun k hk => hitem k (c.left.isOf k hk)) hrel
      simpa [Lexeme.chunks, Comparison.chunks] using this
    | member m => exact isChain_next_append (isCalm_spell m.isOf) ih
    | and =>
      rw [Lexeme.chunks, spell_marks]
      exact isChain_next_append j.isJoint_conj.isCalm ih
    | or =>
      rw [Lexeme.chunks, spell_marks]
      exact isChain_next_append j.isJoint_disj.isCalm ih
    | arrow =>
      have hcs := isChain_next_append (w := [' ']) (by decide) ih
      rw [Lexeme.chunks, spell_marks]
      simpa [isChain_cons_cons, Next] using hcs
    | opening | closing => exact isChain_next_append (w := [_]) (by decide) ih

theorem next_of_textWith {a b : Char} (h : [a, b] <:+: spell (textWith j ls)) : Next a b :=
  (isChain_cons_cons.1 ( List.IsChain.infix (isChain_next_textWith j ls) h)).1

end Stimulus.Sv
