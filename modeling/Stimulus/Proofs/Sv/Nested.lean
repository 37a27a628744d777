import Stimulus.Expr.Names
import Stimulus.Proofs.Pattern.Find
import Stimulus.Proofs.Sv.Statement

/-!
# Conditionals without braces

Statements in which a branch is a single statement. Where an `else` follows, the statement before it
has an `else` for each of its own conditionals, so that every `else` belongs to the nearest `if` that
can take it.
-/

open List

namespace Stimulus.Sv

open Text Pattern

/-! ## Tests -/

/-- The name of a field that is not reserved, holds no word of a block and does not start like a
branch. -/
structure Var where
  chars : List Char
  shape : hasShape nameHead nameTail chars = true
  unreserved : String.ofList chars ∉ Expr.reservedWords
  free : Free blockWords chars
  notIf : ¬ ['i', 'f'] <+: chars
  notElse : ¬ ['e', 'l', 's', 'e'] <+: chars

/-- Such a name is no word of a statement. -/
def Var.ident (x : Var) : Ident where
  chars := x.chars
  shape := x.shape
  plain := fun h =>
    x.unreserved ((by decide : ∀ kw ∈ keywords, String.ofList kw ∈ Expr.reservedWords) _ h)

/-- `x == 1`, or another comparison of a field with a number. -/
structure Test where
  var : Var
  rel : Rel
  value : Nat

namespace Test

variable (t : Test)

/-- The test as a comparison. -/
def comparison : Comparison := ⟨.name t.var.ident, t.rel, .num t.value⟩

def text : List Char := t.comparison.text

theorem text_eq : t.text = t.var.chars ++ ' ' :: (t.rel.chars ++ ' ' :: digitsOf t.value) := by
  simp [text, comparison, Comparison.text, Comparison.chunks, Ref.chunks, Operand.chunks, Var.ident]

theorem prefix_var {w z : List Char} (hw : ' ' ∉ w) (h : w <+: t.text ++ z) :
    w <+: t.var.chars := by
  rw [text_eq, append_assoc] at h
  exact prefix_append_cons hw h

theorem not_if (z : List Char) : ¬ ['i', 'f'] <+: t.text ++ z := fun h =>
  t.var.notIf (t.prefix_var (by decide) h)

theorem not_begin (z : List Char) : ¬ ['b', 'e', 'g', 'i', 'n'] <+: t.text ++ z := fun h =>
  t.var.free _ mem_cons_self (t.prefix_var (by decide) h).isInfix

theorem starts : Starts (nameHead · = true) t.text := t.comparison.starts_text

theorem ends : Ends IsLast t.text := t.comparison.ends_text

theorem not_mem {c : Char} (hn : nameTail c = false) (hm : c ∉ relationMarks) : c ∉ t.text := by
  intro hc
  rcases mem_spell_of_isOf t.comparison.isOf hc with h | h
  · simp [h] at hn
  · exact hm h

theorem free : Free blockWords t.text := by
  have hdigits : Free blockWords (digitsOf t.value) := by
    intro kw hkw hin
    have hletter : ∀ kw ∈ blockWords, 'e' ∈ kw := by decide
    exact absurd (isDigit_of_mem_digitsOf (hin.subset (hletter kw hkw))) (by decide)
  have hrel : Free blockWords t.rel.chars := by
    cases t.rel <;> decide
  rw [text_eq]
  exact free_join (by decide) t.var.free (free_join (by decide) hrel hdigits)

theorem closed : Closed t.text := t.comparison.closed_text

end Test

/-! ## Trees and their texts -/

/-- Statements without braces. In `Nested true` every `if` has its `else`. -/
inductive Nested : Bool → Type where
  /-- `x == 1;` -/
  | leaf (t : Test) : Nested true
  /-- `if (c) body else other`, where the body leaves no `if` open. -/
  | ifElse {full : Bool} (c : Test) (body : Nested true) (other : Nested full) : Nested full
  /-- `if (c) body` -/
  | ifThen {full : Bool} (c : Test) (body : Nested full) : Nested false

/-- The blanks after `if`, after a condition, before `else` and after it. -/
structure Gaps where
  head : List Char
  body : List Char
  next : List Char
  other : List Char
  blank_head : Blank head
  blank_body : Blank body
  blank_next : Blank next
  blank_other : Blank other
  other_ne_nil : other ≠ []

/-- One blank everywhere. -/
def Gaps.single : Gaps where
  head := [' ']
  body := [' ']
  next := [' ']
  other := [' ']
  blank_head := by decide
  blank_body := by decide
  blank_next := by decide
  blank_other := by decide
  other_ne_nil := by decide

namespace Gaps

variable (g : Gaps)

/-- The text from the parenthesis of a condition on, given the text of its branches. -/
def tested (c : Test) (z : List Char) : List Char := c.text ++ ')' :: (g.body ++ z)

/-- The start of a conditional, up to its parenthesis. -/
def ifHead : List Char := ['i', 'f'] ++ (g.head ++ ['('])

/-- The start of a last branch. -/
def elseHead : List Char := ['e', 'l', 's', 'e'] ++ g.other

/-- The text of a conditional, given the text of its branches. -/
def cond (c : Test) (z : List Char) : List Char := g.ifHead ++ g.tested c z

/-- What separates two branches, and the second branch. -/
def orElse (z : List Char) : List Char := ';' :: (g.next ++ (g.elseHead ++ z))

theorem cond_append (c : Test) (z rest : List Char) : g.cond c z ++ rest = g.cond c (z ++ rest) := by
  simp [cond, tested]

theorem starts_cond (c : Test) (z : List Char) : Starts (nameHead · = true) (g.cond c z) :=
  ⟨'i', _, rfl, by decide⟩

theorem ends_cond {p : Char → Prop} (c : Test) {z : List Char} (h : Ends p z) : Ends p (g.cond c z) := by
  have := ((h.append g.body).append [')']).append (g.ifHead ++ c.text)
  simpa [cond, tested] using this

theorem ends_orElse {p : Char → Prop} {z : List Char} (h : Ends p z) : Ends p (g.orElse z) := by
  have := (h.append g.elseHead).append (';' :: g.next)
  simpa [orElse] using this

theorem isSeparator_of_isBlank {c : Char} (h : isBlank c = true) : IsSeparator c := by
  intro kw hkw hc
  have := (by decide : ∀ kw ∈ blockWords, ∀ c ∈ kw, isBlank c = false) kw hkw c hc
  cases this.symm.trans h

theorem free_append_blank {w b : List Char} (hw : Free blockWords w) (hb : Blank b) :
    Free blockWords (w ++ b) := by
  cases b with
  | nil => rwa [append_nil]
  | cons c b =>
    have hrest : Free blockWords b := by
      simpa using free_blank_append (fun d hd => hb d (mem_cons_of_mem _ hd))
        (free_nil (by decide))
    exact free_join (isSeparator_of_isBlank (hb c mem_cons_self)) hw hrest

theorem free_cond (c : Test) {z : List Char} (h : Free blockWords z) : Free blockWords (g.cond c z) := by
  have htail : Free blockWords (g.tested c z) :=
    free_join (by decide) c.free (free_blank_append g.blank_body h)
  have := free_join (by decide : IsSeparator '(')
    (free_append_blank (w := ['i', 'f']) (by decide) g.blank_head) htail
  simpa [cond, ifHead] using this

theorem free_orElse {z : List Char} (h : Free blockWords z) : Free blockWords (g.orElse z) := by
  obtain ⟨b, c, hother⟩ := eq_nil_or_concat' g.other |>.resolve_left g.other_ne_nil
  have hblank : isBlank c = true := g.blank_other c (by simp [hother])
  have hword : Free blockWords (['e', 'l', 's', 'e'] ++ b) :=
    free_append_blank (by decide) fun x hx => g.blank_other x (by simp [hother, hx])
  have helse := free_join (isSeparator_of_isBlank hblank) hword h
  have := (free_cons (c := ';') (by decide) (by decide)).2 (free_blank_append g.blank_next helse)
  simpa [orElse, elseHead, hother] using this

end Gaps

namespace Nested

variable (g : Gaps) {full : Bool}

def chars {full : Bool} : Nested full → List Char
  | leaf t => t.text
  | ifElse c body other => g.cond c (body.chars ++ g.orElse other.chars)
  | ifThen c body => g.cond c body.chars

def text (s : Nested full) : List Char := s.chars g ++ [';']

/-- The statement is a conditional. -/
def isCond {full : Bool} : Nested full → Bool
  | leaf _ => false
  | ifElse .. | ifThen .. => true

/-- The text of a conditional after its parenthesis. -/
def tail {full : Bool} : Nested full → List Char
  | leaf _ => []
  | ifElse c body other => g.tested c (body.chars g ++ g.orElse (other.chars g))
  | ifThen c body => g.tested c (body.chars g)

theorem chars_of_isCond {s : Nested full} (h : s.isCond = true) :
    s.chars g = g.ifHead ++ s.tail g := by
  cases s with
  | leaf => cases h
  | ifElse | ifThen => rfl

theorem starts_chars (s : Nested full) : Starts (nameHead · = true) (s.chars g) := by
  cases s with
  | leaf t => exact t.starts
  | ifElse c body other => exact g.starts_cond c _
  | ifThen c body => exact g.starts_cond c _

theorem ends_chars (s : Nested full) : Ends IsLast (s.chars g) := by
  induction s with
  | leaf t => exact t.ends
  | ifElse c body other _ ih => exact g.ends_cond c ((g.ends_orElse ih).append _)
  | ifThen c body ih => exact g.ends_cond c ih

theorem free_chars (s : Nested full) : Free blockWords (s.chars g) := by
  induction s with
  | leaf t => exact t.free
  | ifThen c body ih => exact g.free_cond c ih
  | ifElse c body other ihf iho =>
    refine g.free_cond c ?_
    have := g.free_orElse iho
    exact free_join (by decide) ihf ((free_cons (by decide) (by decide)).1 this)

theorem not_mem_chars {c : Char} (hn : nameTail c = false) (hb : isBlank c = false)
    (hm : c ∉ relationMarks) (hs : c ∉ ['(', ')', ';']) (s : Nested full) : c ∉ s.chars g := by
  have hgap : ∀ b : List Char, Blank b → c ∉ b := fun b h hc => by cases hb.symm.trans (h c hc)
  have hword : ∀ w : List Char, (∀ d ∈ w, nameTail d = true) → c ∉ w := fun w h hc => by
    cases hn.symm.trans (h c hc)
  have hif := hword ['i', 'f'] (by decide)
  have helse := hword ['e', 'l', 's', 'e'] (by decide)
  have hcond : ∀ (t : Test) (z : List Char), c ∉ z → c ∉ g.cond t z := by
    intro t z hz
    simp only [mem_cons, not_mem_nil, or_false, not_or] at hs hif
    simp [Gaps.cond, Gaps.ifHead, Gaps.tested, hif, hs, hz, hgap _ g.blank_head,
      hgap _ g.blank_body, t.not_mem hn hm]
  induction s with
  | leaf t => exact t.not_mem hn hm
  | ifThen t body ih => exact hcond t _ ih
  | ifElse t body other ihf iho =>
    refine hcond t _ ?_
    simp only [mem_cons, not_mem_nil, or_false, not_or] at hs helse
    simp [Gaps.orElse, Gaps.elseHead, ihf, iho, hs, helse, hgap _ g.blank_next,
      hgap _ g.blank_other]

theorem trim_chars (s : Nested full) : Trim (s.chars g) :=
  ⟨((s.starts_chars g).mono fun _ h => isBlank_of_nameTail (nameTail_of_nameHead h)).head,
    ((s.ends_chars g).mono fun _ => isBlank_of_isLast).last⟩

end Nested

end Stimulus.Sv
