import Mathlib.Algebra.Order.Ring.Nat
import Mathlib.Data.Char
import Stimulus.Proofs.Expr.Literal
import Stimulus.Proofs.Expr.Negation
import Stimulus.Stmt.Form

/-!
# Memberships as statements and as expressions

`v inside {1, 8'hFF, [lo:hi]}` may be a statement of its own or an expression. Both make the same range
list of the items. The expression then puts an owner before every name, and the statement only before
the subject.
-/

open List
open String (ofList toList_ofList)

namespace Stimulus.Expr

open Pattern Text Sv

/-! ## Memberships -/

/-- A value of a set: a number, a name or a literal with a size. -/
inductive SetValue where
  | plain (v : Value)
  | sized (s : Sized)

namespace SetValue

def chars : SetValue → List Char
  | plain v => v.chars
  | sized s => s.chars

/-- The value without its size. -/
def word : SetValue → Word
  | plain v => ⟨v.chars, v.isPlain⟩
  | sized s => ⟨s.plain, s.isPlain⟩

theorem isValue (v : SetValue) : IsValue v.chars := by
  cases v with
  | plain v => exact isValue_of_isPlain v.isPlain
  | sized s => exact s.isValue

theorem plains (v : SetValue) : Plains v.chars v.word.chars := by
  cases v with
  | plain v => exact plains_of_not_mem (v.isPlain.not_mem (by decide))
  | sized s => simpa only [chars, word] using plains_sized s

theorem setValue_chars (scope : Scope) (v : SetValue) :
    setValue scope (ofList v.chars) = setValue scope (ofList v.word.chars) := by
  have hquote : '\'' ∉ v.word.chars := v.word.isPlain.not_mem (by decide)
  have hsame : plainNumbers (ofList v.chars) = plainNumbers (ofList v.word.chars) :=
    (plainNumbers_of_plains v.plains hquote).trans (plainNumbers_of_not_mem hquote).symm
  exact congrArg (qualified scope) hsame

end SetValue

/-- The entry with its values as words. -/
def plainEntry : Entry SetValue → Entry Word
  | .one v => .one v.word
  | .span low high => .span low.word high.word

theorem code_plainEntry (scope : Scope) (e : Entry SetValue) :
    e.code scope SetValue.chars = (plainEntry e).code scope Word.chars := by
  cases e <;> simp [Entry.code, plainEntry, SetValue.setValue_chars]

theorem plains_entry (e : Entry SetValue) :
    Plains (e.text SetValue.chars) ((plainEntry e).text Word.chars) := by
  have hend : Plains [']'] [']'] := plains_of_not_mem (by decide)
  cases e with
  | one v => exact v.plains
  | span low high =>
    have hhigh := (high.plains.append hend fun z => sep_cons (by decide)).marks [':'] (by decide)
    have hlow := low.plains.append hhigh fun z => sep_cons (by decide)
    simpa [Entry.text, plainEntry] using hlow.marks ['['] (by decide)

theorem plains_entries (first : Entry SetValue) (more : List (Entry SetValue)) :
    Plains (entriesText SetValue.chars first more)
      (entriesText Word.chars (plainEntry first) (more.map plainEntry)) := by
  induction more generalizing first with
  | nil => simpa [entriesText] using plains_entry first
  | cons e more ih =>
    have := (plains_entry first).append ((ih e).marks [',', ' '] (by decide))
      fun z => sep_cons (by decide)
    simpa [entriesText] using this

theorem mem_entriesText {α : Type} {text : α → List Char} {c : Char} {first : Entry α}
    {more : List (Entry α)} (h : c ∈ entriesText text first more) :
    (∃ v, c ∈ text v) ∨ c ∈ ['[', ']', ':', ',', ' '] := by
  have hentry (e : Entry α) (h : c ∈ e.text text) : (∃ v, c ∈ text v) ∨ c ∈ ['[', ']', ':', ',', ' '] := by
    cases e with
    | one v => exact .inl ⟨v, h⟩
    | span low high =>
      simp only [Entry.text, cons_append, mem_append, mem_cons, not_mem_nil,
        or_false] at h
      rcases h with rfl | (h | rfl | h) | rfl
      exacts [.inr (by decide), .inl ⟨low, h⟩, .inr (by decide), .inl ⟨high, h⟩, .inr (by decide)]
  simp only [entriesText, mem_append, mem_flatMap, mem_cons] at h
  rcases h with h | ⟨e, -, rfl | rfl | h⟩
  exacts [hentry _ h, .inr (by decide), .inr (by decide), hentry e h]

theorem not_mem_entriesText {α : Type} {text : α → List Char} (ht : ∀ v, IsValue (text v)) (first : Entry α)
    (more : List (Entry α)) : '}' ∉ entriesText text first more := by
  intro h
  rcases mem_entriesText h with ⟨v, hv⟩ | h
  · exact (ht v).not_mem (by decide) (by decide) hv
  · revert h
    decide

/-- The values of an entry. -/
def Entry.values {α : Type} : Entry α → List α
  | one v => [v]
  | span low high => [low, high]

/-- `v inside {B}`. -/
structure Inside where
  subject : Ident
  first : Entry SetValue
  more : List (Entry SetValue)

/-- The text of a membership between its subject and the end. -/
def setText {α : Type} (text : α → List Char) (subject : List Char) (first : Entry α)
    (more : List (Entry α)) : List Char :=
  subject ++ (" inside \x7b".toList ++ (entriesText text first more ++ ['}']))

namespace Inside

variable (i : Inside)

def text : List Char := setText SetValue.chars i.subject.chars i.first i.more

/-- The membership without the sizes of its literals. -/
def plain : Membership :=
  ⟨⟨i.subject.chars, i.subject.isPlain⟩, plainEntry i.first, i.more.map plainEntry⟩

def plainText : List Char := setText Word.chars i.subject.chars i.plain.first i.plain.more

theorem not_mem_plainText {c : Char} (hc : nameTail c = false)
    (hm : c ∉ ['[', ']', ':', ',', ' ', '{', '}']) : c ∉ i.plainText := by
  intro h
  rcases mem_append.1 h with h | h
  · exact i.subject.isPlain.not_mem hc h
  rcases mem_append.1 h with h | h
  · refine (by decide : ∀ d ∈ " inside \x7b".toList, nameTail d = true ∨ d ∈ [' ', '{']) c h |>.elim ?_ ?_
    · simp [hc]
    · exact fun h => hm (by simp at h ⊢; tauto)
  rcases mem_append.1 h with h | h
  · rcases mem_entriesText h with ⟨v, hv⟩ | h
    · exact v.isPlain.not_mem hc hv
    · exact hm (mem_append_left ['{', '}'] h)
  · exact hm (by simp_all)

theorem plainNumbers_text : plainNumbers (ofList i.text) = ofList i.plainText := by
  have hend := (plains_entries i.first i.more).append
    (plains_of_not_mem (u := ['}']) (by decide)) fun z => sep_cons (by decide)
  have hword : Plains i.subject.chars i.subject.chars :=
    plains_of_not_mem (i.subject.isPlain.not_mem (by decide))
  refine plainNumbers_of_plains ?_ (i.not_mem_plainText (by decide) (by decide))
  exact hword.append (hend.marks _ (by decide)) fun z => sep_cons (by decide)

theorem rangeList_text (scope : Scope) :
    rangeList scope (ofList (entriesText SetValue.chars i.first i.more)) =
      ofList (spell (rangeListChunks scope i.plain.first i.plain.more)) := by
  have hcode : Entry.code scope SetValue.chars = Entry.code scope Word.chars ∘ plainEntry :=
    funext (code_plainEntry scope)
  rw [← rangeList_words, rangeList_entries SetValue.isValue,
    rangeList_entries fun v : Word => isValue_of_isPlain v.isPlain, hcode, ← map_map]
  rfl

/-! ### The statement -/

/-- The chunks of a membership after its subject. -/
def rest (scope : Scope) : List Chunk :=
  .mark ' ' :: .word "in".toList :: .mark ' ' :: .word "vsc".toList :: .mark '.'
    :: .word "rangelist".toList :: .mark '(' :: rangeListChunks scope i.plain.first i.plain.more
      ++ [.mark ')']

theorem reads_insideSet {before items z : List Char} {kept : List (Nat × List Char)}
    (hne : items ≠ []) (hitems : '}' ∉ items) (n : Nat) :
    Reads (insideSet n) before kept ("inside".toList ++ ([' '] ++ ("\x7b".toList ++
      (items ++ "\x7d".toList)))) z ((n, items) :: kept) := by
  have hset : ∀ c ∈ items, (c != '}') = true := by
    intro c hc
    simpa using fun h : c = '}' => hitems (h ▸ hc)
  simp only [insideSet, reads_assoc]
  exact reads_lit.seq ((reads_run (by decide) (by simp; decide) (by simp)).seq (reads_lit.seq
    (((reads_run hset (by simp) (length_pos_iff.2 hne)).group n).seq reads_lit)))

theorem inside?_text (scope : Scope) : Stmt.inside? scope (ofList i.text) =
    some [ofList ("self.".toList ++ (i.subject.chars ++ spell (i.rest scope)))] := by
  have hitems := not_mem_entriesText SetValue.isValue i.first i.more
  have hne : entriesText SetValue.chars i.first i.more ≠ [] := by
    simp [entriesText, entry_ne_nil SetValue.isValue]
  have hreads : Reads (group 1 (word ++ opt (lit "." ++ word ++ lit "()")) ++ blanks1 ++ insideSet 2) [] []
      ((i.subject.chars ++ []) ++ ([' '] ++ ("inside".toList ++ ([' '] ++ ("\x7b".toList ++
        (entriesText SetValue.chars i.first i.more ++ "\x7d".toList)))))) []
      [(2, entriesText SetValue.chars i.first i.more), (1, i.subject.chars ++ [])] := by
    rw [reads_assoc]
    refine (Reads.group (Reads.seq (reads_run i.subject.isPlain.isWord.chars (by simp; decide)
      (length_pos_iff.2 i.subject.isPlain.ne_nil)) (reads_opt_none fun s hs => ?_)) 1).seq
        ((reads_run (by decide) (by simp; decide) (by simp)).seq (reads_insideSet hne hitems 2))
    refine (fails_lit fun hpre => ?_).seq.seq
    rw [hs] at hpre
    exact absurd (cons_prefix_cons.1 hpre).1 (by decide)
  obtain ⟨m, hm, hpieces⟩ := hreads.atStart?
  have htext : i.text = (i.subject.chars ++ []) ++ ([' '] ++ ("inside".toList ++ ([' '] ++ ("\x7b".toList ++
      (entriesText SetValue.chars i.first i.more ++ "\x7d".toList))))) ++ [] := by
    simp [text, setText]
  have hvar : Text.replace ".size()" ".size" (ofList i.subject.chars) = ofList i.subject.chars := by
    rw [replace_ofList, substitute_of_not_infix]
    exact fun h => i.subject.isPlain.not_mem (c := '.') (by decide) (h.subset (by decide))
  have h1 : m.group 1 = ofList i.subject.chars := by simp [Match.group_eq, hpieces]
  have h2 : m.group 2 = ofList (entriesText SetValue.chars i.first i.more) := by
    simp [Match.group_eq, hpieces]
  rw [Stmt.inside?, htext, hm]
  simp only [Option.map_some, h1, h2, hvar, i.rangeList_text scope]
  rw [Option.some.injEq, List.cons.injEq, ← String.toList_inj]
  simp [rest, toString]

/-! ### The expression -/

theorem plain_plainText : solverLogic (integerDivision (wrapOperands (wrapShifts (plainChoices
    (ofList i.plainText))))) = ofList i.plainText := by
  have hnot {c : Char} (hc : nameTail c = false := by decide)
      (hm : c ∉ ['[', ']', ':', ',', ' ', '{', '}'] := by decide) : c ∉ i.plainText :=
    i.not_mem_plainText hc hm
  have hshifts : wrapShifts (ofList i.plainText) = ofList i.plainText := by
    refine replaceAll_of_spells fun w hw hin => ?_
    obtain ⟨u, v, rfl, -, rfl | rfl⟩ := hw
    · exact (hnot : '<' ∉ i.plainText) (hin.subset (mem_append_right u (by decide)))
    · exact (hnot : '>' ∉ i.plainText) (hin.subset (mem_append_right u (by decide)))
  have hoperand {w v : List Char} (hw : Spells literalOperand w) : ¬ w ++ v <:+: i.plainText := by
    intro hin
    obtain ⟨u, c, b, rfl, hc, -⟩ := spells_literalOperand hw
    refine i.not_mem_plainText ?_ ?_ (hin.subset (by simp : c ∈ u ++ c :: b ++ v))
    · exact (by decide : ∀ c ∈ "-+*/".toList, nameTail c = false) c hc
    · exact (by decide : ∀ c ∈ "-+*/".toList, c ∉ ['[', ']', ':', ',', ' ', '{', '}']) c hc
  have hoperands : wrapOperands (ofList i.plainText) = ofList i.plainText := by
    rw [wrapOperands, replaceAll_of_spells (p := literalBeforeName), replaceAll_of_spells]
    · rintro w ⟨u, v, rfl, hu, -⟩
      exact hoperand hu
    · rintro w ⟨u, v, rfl, hu, -⟩
      exact hoperand hu
  have hsigns : Unnegated i.plainText := unnegated_of_not_mem hnot
  rw [plainChoices_of_not_mem hnot, hshifts, hoperands, integerDivision_of_not_mem hnot, solverLogic_eq,
    joined_of_not_mem hnot hnot, hsigns.negatedParen, hsigns.negatedWord]

theorem insideCalls_plainText (scope : Scope) : insideCalls scope false (ofList i.plainText) =
    ofList (spell (.word i.subject.chars :: i.rest scope)) := by
  have hparen : Needs (group 1 (lit "(" ++ some1Not ')' ++ lit ")") ++ blanks1 ++ insideSet 2) '(' :=
    Needs.left (Needs.left (needs_lit (t := "(") (by decide)).left.left)
  have hmethod : Needs (group 1 (word ++ lit "." ++ word ++ lit "()") ++ blanks1 ++ insideSet 2) '.' :=
    Needs.left (Needs.left (needs_lit (t := ".") (by decide)).right.left.left)
  have hitems := not_mem_entriesText (fun v : Word => isValue_of_isPlain v.isPlain) i.plain.first i.plain.more
  have hne : entriesText Word.chars i.plain.first i.plain.more ≠ [] := by
    simp [entriesText, entry_ne_nil fun v : Word => isValue_of_isPlain v.isPlain]
  have htext : i.plainText = i.subject.chars ++ " inside \x7b".toList ++
      entriesText Word.chars i.plain.first i.plain.more ++ '}' :: [] := by
    simp [plainText, setText]
  rw [insideCalls]
  simp only [hparen.replaceAll (i.not_mem_plainText (by decide) (by decide)),
    hmethod.replaceAll (i.not_mem_plainText (by decide) (by decide))]
  refine (replaceAll_eq (p := memberPattern) _).trans (congrArg _ ?_)
  rw [toList_ofList, htext]
  refine (becomes_nil.member i.subject.isPlain hitems hne (fun m hone htwo => ?_) [] 0).trans
    (append_nil _)
  simp [hone, htwo, rangeList_words, rest, toString]

theorem convert_inside (scope : Scope) (hs : scope.Proper) : convert scope (ofList i.text) =
    ofList (spell (withOwners (fieldOwner? scope) false (withOwners (memberOwner? scope) false
      (.word i.subject.chars :: i.rest scope)))) := by
  have hchunks : Chunk.word i.subject.chars :: i.rest scope = memberChunks scope false i.plain := rfl
  have hcut := wellCut_memberChunks hs false i.plain
  have hhalf : WellCut (withOwners (memberOwner? scope) false (memberChunks scope false i.plain)) :=
    wellCut_withOwners (isWord_of_memberOwner? hs) hcut
  have hdots (v : List Char) (hv : NeverDotted v) : NotDotted v false
      (withOwners (memberOwner? scope) false (memberChunks scope false i.plain)) :=
    (undotted_memberChunks hv scope false i.plain).inner.withOwners (ne_of_memberOwner? hv scope)
  rw [convert]
  simp only [i.plainNumbers_text, i.plain_plainText, i.insideCalls_plainText, Bool.false_eq_true, if_false]
  rw [hchunks, qualified_spell scope hcut]
  exact selfPrefixed_spell hhalf (wellCut_withOwners (isWord_of_fieldOwner? hs) hhalf)
    (hdots _ (.inl rfl)) (hdots _ (.inr rfl))

end Inside

/-! ## Names that only the expression reaches -/

/-- No word gets an owner. -/
def Free (owner? : Bool → List Char → Bool → Option (List Char)) : Bool → List Chunk → Prop
  | _, [] => True
  | dot, .word w :: ks => owner? dot w (dotNext ks) = none ∧ Free owner? false ks
  | _, .mark c :: ks => Free owner? (c == '.') ks

section Free

variable {o : Bool → List Char → Bool → Option (List Char)} {dot : Bool} {ks l : List Chunk}

theorem Free.withOwners_eq (h : Free o dot ks) : withOwners o dot ks = ks := by
  induction ks generalizing dot with
  | nil => rfl
  | cons k ks ih =>
    cases k with
    | mark c => exact congrArg _ (ih h)
    | word w => rw [withOwners, h.1, ih h.2]

theorem length_withOwners (dot : Bool) (ks : List Chunk) :
    (spell ks).length ≤ (spell (withOwners o dot ks)).length ∧
      ((spell (withOwners o dot ks)).length ≤ (spell ks).length → Free o dot ks) := by
  induction ks generalizing dot with
  | nil => exact ⟨Nat.le_refl _, fun _ => trivial⟩
  | cons k ks ih =>
    cases k with
    | mark c =>
      obtain ⟨hle, hfree⟩ := ih (c == '.')
      exact ⟨Nat.succ_le_succ hle, fun h => hfree (Nat.le_of_succ_le_succ h)⟩
    | word w =>
      obtain ⟨hle, hfree⟩ := ih false
      rw [withOwners]
      cases howner : o dot w (dotNext ks) with
      | none =>
        simp only [spell_word, length_append]
        exact ⟨by omega, fun h => ⟨howner, hfree (by omega)⟩⟩
      | some a =>
        simp only [spell_word, spell_mark, length_append, length_cons]
        exact ⟨by omega, fun h => absurd h (by omega)⟩

theorem free_append (hdot : ks = [] → dot = false) (hk : ks.getLast? ≠ some (.mark '.'))
    (hl : dotNext l = false) : Free o dot (ks ++ l) ↔ Free o dot ks ∧ Free o false l := by
  induction ks generalizing dot with
  | nil => simp [Free, hdot rfl]
  | cons k ks ih =>
    cases k with
    | mark c =>
      refine ih (fun hnil => ?_) fun h => hk ?_
      · subst hnil
        simpa using hk
      · rw [getLast?_cons, h]
        rfl
    | word w =>
      have hrest := @ih false (fun _ => rfl) fun h => hk (by rw [getLast?_cons, h]; rfl)
      have hnext : dotNext (ks ++ l) = dotNext ks := by
        cases ks with
        | nil => exact hl
        | cons k ks =>
          rw [cons_append]
          unfold dotNext
          split <;> simp_all
      simp only [cons_append, Free, hnext, hrest, and_assoc]

theorem free_listed {α : Type} {f : α → List Chunk} (hf : ∀ x, (f x).getLast? ≠ some (.mark '.'))
    (first : α) (more : List α) :
    Free o false (listed f first more) ↔ ∀ x ∈ first :: more, Free o false (f x) := by
  induction more generalizing first with
  | nil => simp [listed]
  | cons x more ih =>
    have hcut : listed f first (x :: more) = f first ++ (.mark ',' :: .mark ' ' :: listed f x more) := by
      simp [listed, marks]
    have := ih x
    rw [hcut, free_append (fun _ => rfl) (hf first) rfl]
    simp only [forall_mem_cons] at this ⊢
    exact and_congr_right fun _ => this

end Free

/-- The owner that a word gets in an expression. -/
def anyOwner? (scope : Scope) (dot : Bool) (w : List Char) (next : Bool) : Option (List Char) :=
  (memberOwner? scope dot w next).or (fieldOwner? scope dot w next)

section Owners

variable {scope : Scope}

theorem free_anyOwner? {dot : Bool} {ks : List Chunk} : Free (anyOwner? scope) dot ks ↔
    Free (memberOwner? scope) dot ks ∧ Free (fieldOwner? scope) dot ks := by
  induction ks generalizing dot with
  | nil => simp [Free]
  | cons k ks ih =>
    cases k with
    | mark c => exact ih
    | word w =>
      simp only [Free, ih, anyOwner?, Option.or_eq_none_iff]
      tauto

theorem spell_owners_iff {ks : List Chunk} :
    spell (withOwners (fieldOwner? scope) false (withOwners (memberOwner? scope) false ks)) = spell ks ↔
      Free (anyOwner? scope) false ks := by
  rw [free_anyOwner?]
  constructor
  · intro h
    have hmember := length_withOwners (o := memberOwner? scope) false ks
    have hfield := length_withOwners (o := fieldOwner? scope) false
      (withOwners (memberOwner? scope) false ks)
    rw [h] at hfield
    have hfree := hmember.2 hfield.1
    rw [hfree.withOwners_eq] at hfield
    exact ⟨hfree, hfield.2 (Nat.le_refl _)⟩
  · rintro ⟨hmember, hfield⟩
    rw [hmember.withOwners_eq, hfield.withOwners_eq]

/-- The classes of members are classes of the scope, and none of them is a member. -/
def Scope.ClassesApart (scope : Scope) : Prop :=
  ∀ x cls, scope.classOf? x = some cls → cls ∈ scope.classes ∧ scope.classOf? cls = none

/-- A name that a value set reaches through its class, or that nothing is put before: a member in capitals,
an index or a word of the language. -/
def Scope.Settles (scope : Scope) (x : Ident) : Prop :=
  x.name ∈ reservedWords ∨ x.name ∈ scope.loopVars ∨
    hasShape Char.isUpper capitalTail x.chars = true ∧ (scope.classOf? x.name).isSome = true

/-- The names of a value. -/
def SetValue.names : SetValue → List Ident
  | .plain (.name x) => [x]
  | _ => []

/-- The names in the set of a membership. -/
def Inside.names (i : Inside) : List Ident :=
  (i.first :: i.more).flatMap fun e => e.values.flatMap SetValue.names

theorem anyOwner?_dotted (w : List Char) (next : Bool) : anyOwner? scope true w next = none := by
  simp [anyOwner?, memberOwner?, fieldOwner?]

theorem anyOwner?_reserved {w : List Char} {next : Bool} (h : ofList w ∈ reservedWords)
    (hw : hasShape Char.isUpper capitalTail w = false) : anyOwner? scope false w next = none := by
  simp [anyOwner?, memberOwner?, fieldOwner?, h, hw]

theorem anyOwner?_class (hc : scope.ClassesApart) {w a : List Char} {dot next : Bool}
    (h : memberOwner? scope dot w next = some a) : anyOwner? scope false a true = none := by
  unfold memberOwner? at h
  split at h
  · cases h
  obtain ⟨cls, hcls, rfl⟩ := Option.map_eq_some_iff.1 h
  obtain ⟨hclass, hnone⟩ := hc _ _ hcls
  simp [anyOwner?, memberOwner?, fieldOwner?, hclass, hnone]

theorem free_valueChunks (hc : scope.ClassesApart) (v : Word) :
    Free (anyOwner? scope) false (valueChunks scope v) ↔
      (memberOwner? scope false v.chars false = none → fieldOwner? scope false v.chars false = none) := by
  have hnext : dotNext [] = false := rfl
  unfold valueChunks withOwners
  rw [hnext]
  cases hmember : memberOwner? scope false v.chars false with
  | none => simp [Free, withOwners, anyOwner?, hmember, hnext]
  | some a =>
    have hclass : anyOwner? scope false a (dotNext [.mark '.', .word v.chars]) = none :=
      anyOwner?_class hc hmember
    simp [Free, withOwners, hclass, anyOwner?_dotted]

theorem settles_iff (x : Ident) : scope.Settles x ↔
    (memberOwner? scope false x.chars false = none → fieldOwner? scope false x.chars false = none) := by
  have hname : ofList x.chars = x.name := rfl
  by_cases hreserved : x.name ∈ reservedWords
  · simp [Scope.Settles, fieldOwner?, hname, hreserved]
  by_cases hindex : x.name ∈ scope.loopVars
  · simp [Scope.Settles, fieldOwner?, hname, hindex]
  cases hclass : scope.classOf? x.name with
  | none => simp [Scope.Settles, memberOwner?, fieldOwner?, hname, hreserved, hindex, hclass, x.shape]
  | some cls => simp [Scope.Settles, memberOwner?, fieldOwner?, hname, hreserved, hindex, hclass, x.shape]

theorem free_setValue (hc : scope.ClassesApart) (v : SetValue) :
    Free (anyOwner? scope) false (valueChunks scope v.word) ↔ ∀ x ∈ v.names, scope.Settles x := by
  rw [free_valueChunks hc]
  cases v with
  | sized s =>
    have := s.digitFirst_plain.fieldOwner?_eq scope false false
    simp [SetValue.names, SetValue.word, this]
  | plain v =>
    cases v with
    | num n =>
      have := (digitFirst_digitsOf n).fieldOwner?_eq scope false false
      simp [SetValue.names, SetValue.word, Value.chars, this]
    | name x => simp [SetValue.names, settles_iff, SetValue.word, Value.chars]

theorem free_call {v w : List Char} {ks : List Chunk} (h : ofList v ∈ reservedWords)
    (hv : hasShape Char.isUpper capitalTail v = false) :
    Free (anyOwner? scope) false (.word v :: .mark '.' :: .word w :: .mark '(' :: ks) ↔
      Free (anyOwner? scope) false ks := by
  simp [Free, anyOwner?_reserved h hv, anyOwner?_dotted]

theorem free_rangeChunks (hc : scope.ClassesApart) (e : Entry SetValue) :
    Free (anyOwner? scope) false (rangeChunks scope (plainEntry e)) ↔
      ∀ v ∈ e.values, ∀ x ∈ v.names, scope.Settles x := by
  cases e with
  | one v => simpa [rangeChunks, plainEntry, Entry.values] using free_setValue hc v
  | span low high =>
    have hlast (v : Word) := (undotted_valueChunks (.inl rfl) scope v).last
    have hcut : rangeChunks scope (plainEntry (.span low high)) =
        .word "vsc".toList :: .mark '.' :: .word "rng".toList :: .mark '(' ::
          (valueChunks scope low.word ++ .mark ',' :: .mark ' ' ::
            (valueChunks scope high.word ++ [.mark ')'])) := by
      simp [rangeChunks, plainEntry, marks]
    have hlow := free_append (o := anyOwner? scope) (fun _ => rfl) (hlast low.word)
      (l := .mark ',' :: .mark ' ' :: (valueChunks scope high.word ++ [.mark ')'])) rfl
    have hhigh := free_append (o := anyOwner? scope) (fun _ => rfl) (hlast high.word)
      (l := [.mark ')']) rfl
    have hmarks : Free (anyOwner? scope) false (.mark ',' :: .mark ' ' ::
        (valueChunks scope high.word ++ [.mark ')'])) ↔
          Free (anyOwner? scope) false (valueChunks scope high.word) :=
      hhigh.trans (and_iff_left trivial)
    rw [hcut, free_call (by decide) (by decide), hlow, hmarks, free_setValue hc, free_setValue hc]
    simp [Entry.values]

theorem Inside.free_rest (hc : scope.ClassesApart) (i : Inside) :
    Free (anyOwner? scope) false (i.rest scope) ↔ ∀ x ∈ i.names, scope.Settles x := by
  have hrange (e : Entry Word) := undotted_rangeChunks (.inl rfl) scope e
  have hclose := free_append (o := anyOwner? scope) (fun _ => rfl)
    (undotted_listed hrange i.plain.first i.plain.more).last (l := [.mark ')']) rfl
  have hin : Free (anyOwner? scope) false (i.rest scope) ↔
      Free (anyOwner? scope) false (rangeListChunks scope i.plain.first i.plain.more) := by
    have hword : anyOwner? scope false "in".toList false = none := anyOwner?_reserved (by decide) (by decide)
    refine (and_iff_right hword).trans ?_
    refine (free_call (v := "vsc".toList) (by decide) (by decide)).trans ?_
    exact hclose.trans (and_iff_left trivial)
  rw [hin, rangeListChunks, free_listed fun e => (hrange e).last]
  simp only [Inside.plain, ← map_cons, forall_mem_map, free_rangeChunks hc, Inside.names,
    mem_flatMap, forall_exists_index, and_imp]
  exact ⟨fun h x e he v hv hx => h e he v hv x hx, fun h e he v hv x hx => h x e he v hv hx⟩

end Owners

/-- A membership of a field as a statement and as an expression: both are the field, reached from the
object, and the range list, and the expression also puts owners into the list. They are the same if and
only if every name in the set is settled. -/
theorem inside_agrees_iff (scope : Scope) (i : Inside) (hs : scope.Proper) (hc : scope.ClassesApart)
    (hv : scope.IsField i.subject) :
    Stmt.inside? scope (String.ofList i.text) =
        some [String.ofList ("self.".toList ++ (i.subject.chars ++ spell (i.rest scope)))] ∧
      convert scope (String.ofList i.text) =
        String.ofList ("self.".toList ++ (i.subject.chars ++ spell (withOwners (fieldOwner? scope) false
          (withOwners (memberOwner? scope) false (i.rest scope))))) ∧
      (Stmt.inside? scope (String.ofList i.text) = some [convert scope (String.ofList i.text)] ↔
        ∀ x ∈ i.names, scope.Settles x) := by
  have hconvert : convert scope (String.ofList i.text) =
      String.ofList ("self.".toList ++ (i.subject.chars ++ spell (withOwners (fieldOwner? scope) false
        (withOwners (memberOwner? scope) false (i.rest scope))))) := by
    have hnext : dotNext (withOwners (memberOwner? scope) false (i.rest scope)) = false := rfl
    rw [i.convert_inside scope hs, withOwners, memberOwner?_field hv]
    dsimp only
    rw [withOwners, hnext, fieldOwner?_field hv]
    simp
  refine ⟨i.inside?_text scope, hconvert, ?_⟩
  rw [i.inside?_text, hconvert, ← i.free_rest hc, ← spell_owners_iff, Option.some.injEq, List.cons.injEq,
    and_iff_left rfl, ← String.toList_inj]
  simp [eq_comm]

/-- The expression reaches the field `lo_f` from the object, and the statement leaves it as it is. Both reach
the member `RED` through its class. -/
theorem inside_field_not_reached :
    let scope : Scope := {members := [("RED", "color_e")], classes := ["color_e"]}
    let v : Ident := ⟨['v'], by decide, by decide⟩
    let red : Ident := ⟨"RED".toList, by decide, by decide⟩
    let low : Ident := ⟨"lo_f".toList, by decide, by decide⟩
    let top : Sized := ⟨['8'], 'h', 'F', ['F'], by decide, by decide, by decide, by decide⟩
    let i : Inside := ⟨v, .one (.plain (.name red)), [.span (.plain (.name low)) (.sized top)]⟩
    (scope.Proper ∧ scope.ClassesApart ∧ scope.IsField v) ∧
      String.ofList i.text = "v inside \x7bRED, [lo_f:8'hFF]\x7d" ∧
      Stmt.inside? scope (String.ofList i.text) =
        some ["self.v in vsc.rangelist(color_e.RED, vsc.rng(lo_f, 0xFF))"] ∧
      convert scope (String.ofList i.text) =
        "self.v in vsc.rangelist(color_e.RED, vsc.rng(self.lo_f, 0xFF))" ∧
      ¬ Stmt.inside? scope (String.ofList i.text) = some [convert scope (String.ofList i.text)] := by
  intro scope v red low top i
  have hclass {x cls : String} (h : scope.classOf? x = some cls) : cls = "color_e" := by
    simp only [Scope.classOf?, scope, List.lookup_cons, List.lookup_nil] at h
    split at h
    · exact (Option.some.inj h).symm
    · cases h
  have hs : scope.Proper := fun x cls h => by
    rw [hclass h]
    exact ⟨by decide, by decide⟩
  have hc : scope.ClassesApart := fun x cls h => by
    rw [hclass h]
    decide
  have hv : scope.IsField v := ⟨by decide, rfl, by decide⟩
  obtain ⟨hline, hconvert, hsame⟩ := inside_agrees_iff scope i hs hc hv
  refine ⟨⟨hs, hc, hv⟩, by decide +kernel, hline.trans (by decide +kernel), hconvert.trans (by decide +kernel),
    fun h => ?_⟩
  rcases hsame.1 h low (by simp [Inside.names, i, Entry.values, SetValue.names]) with hlow | hlow | ⟨hlow, -⟩
  · revert hlow
    decide
  · revert hlow
    decide
  · revert hlow
    decide

end Stimulus.Expr
