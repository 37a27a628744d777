import Stimulus.Proofs.Expr.Convert
import Stimulus.Proofs.Sv.Statement

/-!
# The ends of a converted expression

* `starts_solved`, `ends_solved`: what the solver's text of an expression starts and ends with.
* `CallsOnly`: which words are called in cut text; `callsOnly_solved`: those of an expression.
* `uncalled_solved`: no others are.
-/

open List

namespace Stimulus.Text

open Sv

section Owners

variable {owner? : Bool → List Char → Bool → Option (List Char)}

variable {ks : List Chunk}

theorem withOwners_concat (dot : Bool) (ks : List Chunk) (k : Chunk) :
    ∃ ls, withOwners owner? dot (ks ++ [k]) = ls ++ [k] := by
  induction ks generalizing dot with
  | nil =>
    cases k with
    | mark c => exact ⟨[], rfl⟩
    | word w =>
      rw [nil_append, withOwners]
      split
      · next a _ => exact ⟨[.word a, .mark '.'], rfl⟩
      · exact ⟨[], rfl⟩
  | cons l ks ih =>
    cases l with
    | mark c =>
      obtain ⟨ls, hls⟩ := ih (c == '.')
      exact ⟨.mark c :: ls, congrArg (Chunk.mark c :: ·) hls⟩
    | word w =>
      obtain ⟨ls, hls⟩ := ih false
      rw [cons_append, withOwners, hls]
      split
      · next a _ => exact ⟨.word a :: .mark '.' :: .word w :: ls, rfl⟩
      · exact ⟨.word w :: ls, rfl⟩

/-- The last chunk ends with such a character. -/
def LastIs (p : Char → Prop) (ks : List Chunk) : Prop := ∃ ls k, ks = ls ++ [k] ∧ Ends p k.chars

theorem LastIs.append {p : Char → Prop} {ls : List Chunk} (h : LastIs p ls) (ks : List Chunk) :
    LastIs p (ks ++ ls) := by
  obtain ⟨ls, k, rfl, hk⟩ := h
  exact ⟨ks ++ ls, k, (append_assoc ks ls [k]).symm, hk⟩

theorem LastIs.withOwners {p : Char → Prop} (h : LastIs p ks) (dot : Bool) :
    LastIs p (withOwners owner? dot ks) := by
  obtain ⟨ks, k, rfl, hk⟩ := h
  obtain ⟨ls, hls⟩ := @withOwners_concat owner? dot ks k
  exact ⟨ls, k, hls, hk⟩

theorem LastIs.ends {p : Char → Prop} (h : LastIs p ks) : Ends p (spell ks) := by
  obtain ⟨ls, k, rfl, hk⟩ := h
  rw [spell_append]
  refine Ends.append ?_ _
  simpa [spell] using hk

/-- What the text of the first chunk starts with. -/
def Inky : List Chunk → Prop
  | [] => False
  | .word w :: _ => IsWord w
  | .mark c :: _ => isBlank c = false

theorem Inky.append {ks : List Chunk} (h : Inky ks) (ls : List Chunk) : Inky (ks ++ ls) := by
  cases ks with
  | nil => exact h.elim
  | cons k ks => cases k <;> exact h

theorem Inky.withOwners (howner : ∀ d w n a, owner? d w n = some a → IsWord a)
    (h : Inky ks) (dot : Bool) : Inky (withOwners owner? dot ks) := by
  cases ks with
  | nil => exact h
  | cons k ks =>
    cases k with
    | mark c => exact h
    | word w =>
      rw [Text.withOwners]
      split
      · next a ha => exact howner _ _ _ a ha
      · exact h

theorem Inky.starts (h : Inky ks) : Starts (isBlank · = false) (spell ks) := by
  cases ks with
  | nil => exact h.elim
  | cons k ks =>
    cases k with
    | mark c => exact ⟨c, spell ks, rfl, h⟩
    | word w =>
      rw [spell_word]
      exact (starts_of_forall h.ne_nil fun c hc => isBlank_of_isWordChar (h.chars c hc)).append _

end Owners

/-! ## Calls -/

def CallsOnly (ws : List (List Char)) (ks : List Chunk) : Prop :=
  ks.IsChain fun k l => ∀ w, k = .word w → l = .mark '(' → w ∈ ws

section Calls

variable {ws : List (List Char)} {ks ls : List Chunk}

theorem CallsOnly.append (hk : CallsOnly ws ks) (hl : CallsOnly ws ls)
    (h : ls.head? ≠ some (.mark '(')) : CallsOnly ws (ks ++ ls) := by
  refine List.isChain_append.2 ⟨hk, hl, ?_⟩
  intro k _ l hl w _ heq
  exact absurd (heq ▸ hl) h

theorem CallsOnly.mark (h : CallsOnly ws ks) (c : Char) : CallsOnly ws (.mark c :: ks) :=
  List.IsChain.cons h (by rintro l _ w ⟨⟩)

theorem CallsOnly.call {w : List Char} (hw : w ∈ ws) (h : CallsOnly ws ks) :
    CallsOnly ws (.word w :: .mark '(' :: ks) := by
  refine List.IsChain.cons (h.mark '(') ?_
  rintro l _ v ⟨⟩ _
  exact hw

theorem callsOnly_of_forall (h : .mark '(' ∉ ks) : CallsOnly ws ks := by
  induction ks with
  | nil => exact isChain_nil
  | cons k ks ih =>
    refine List.IsChain.cons (ih fun hmem => h (mem_cons_of_mem _ hmem)) ?_
    rintro l hl w - rfl
    exact absurd (mem_cons_of_mem _ (mem_of_mem_head? hl)) h

theorem callsOnly_marks (cs : List Char) (h : CallsOnly ws ks) : CallsOnly ws (marks cs ++ ks) := by
  induction cs with
  | nil => exact h
  | cons c cs ih => exact CallsOnly.mark ih c

theorem callsOnly_singleton (k : Chunk) : CallsOnly ws [k] := isChain_singleton k

theorem CallsOnly.withOwners {owner? : Bool → List Char → Bool → Option (List Char)}
    (h : CallsOnly ws ks) (dot : Bool) : CallsOnly ws (withOwners owner? dot ks) := by
  induction ks generalizing dot with
  | nil => exact h
  | cons k ks ih =>
    cases k with
    | mark c => exact (ih h.of_cons _).mark c
    | word w =>
      have hrest : CallsOnly ws (.word w :: Text.withOwners owner? false ks) := by
        refine List.IsChain.cons (ih h.of_cons _) ?_
        intro l hl v hv heq
        cases ks with
        | nil => cases hl
        | cons k ks =>
          cases k with
          | mark c =>
            obtain rfl : Chunk.mark c = l := Option.some.inj hl
            exact (isChain_cons_cons.1 h).1 v hv heq
          | word x =>
            rw [Text.withOwners] at hl
            split at hl <;> simp [heq] at hl
      rw [Text.withOwners]
      split
      · next a _ =>
        refine List.IsChain.cons (hrest.mark '.') ?_
        rintro l hl v - rfl
        simp at hl
      · exact hrest

/-- No word that ends in `r` is called in the text. -/
def Uncalled (cs : List Char) : Prop := cs.IsChain fun a b => b = '(' → a ≠ 'r'

theorem uncalled_of_not_mem {cs : List Char} (h : '(' ∉ cs) : Uncalled cs := by
  induction cs with
  | nil => exact isChain_nil
  | cons c cs ih =>
    obtain ⟨-, hcs⟩ := not_or.1 (mem_cons.not.1 h)
    refine List.IsChain.cons (ih hcs) ?_
    rintro d hd rfl
    exact absurd (mem_of_mem_head? hd) hcs

theorem CallsOnly.uncalled (h : CallsOnly ws ks) (hk : WellCut ks)
    (hws : ∀ w ∈ ws, w.getLast? ≠ some 'r') : Uncalled (spell ks) := by
  induction ks with
  | nil => exact isChain_nil
  | cons k ks ih =>
    cases k with
    | mark c =>
      refine List.IsChain.cons (ih h.of_cons hk.2) ?_
      rintro d - - rfl
      have := hk.1
      revert this
      decide
    | word w =>
      obtain ⟨hw, -, hks⟩ := hk
      have hword : '(' ∉ w := fun hmem => by
        have := hw.chars '(' hmem
        revert this
        decide
      rw [spell_word]
      refine List.isChain_append.2 ⟨uncalled_of_not_mem hword, ih h.of_cons hks, ?_⟩
      rintro a ha b hb rfl rfl
      -- what comes next is a parenthesis, so the word is one of those called
      cases ks with
      | nil => cases hb
      | cons l ks =>
        cases l with
        | mark d =>
          obtain rfl : d = '(' := Option.some.inj hb
          exact hws w ((isChain_cons_cons.1 h).1 w rfl rfl) ha
        | word v =>
          rw [spell_word, head?_append_of_ne_nil _ hks.1.ne_nil] at hb
          have := hks.1.chars '(' (mem_of_mem_head? hb)
          revert this
          decide

end Calls

end Stimulus.Text

namespace Stimulus.Expr

open Pattern Text Sv

/-! ## Ends -/

section Ends

variable (scope : Scope) (isCondition : Bool)

theorem unnamed_append (ls ms : List Lexeme) : unnamed scope isCondition (ls ++ ms) =
    unnamed scope isCondition ls ++ unnamed scope isCondition ms := by
  simp [unnamed]

theorem lastIs_word {w : List Char} (h : IsPlain w) : LastIs IsLast [.word w] :=
  ⟨[], .word w, rfl, h.ends⟩

theorem lastIs_mark {c : Char} (h : IsLast c) : LastIs IsLast [.mark c] :=
  ⟨[], .mark c, rfl, [], c, rfl, h⟩

theorem lastIs_ref (r : Ref) : LastIs IsLast r.chunks := by
  cases r with
  | name x => exact lastIs_word x.isPlain
  | element x i =>
    exact (lastIs_mark (.inr (by decide))).append [.word x.chars, .mark '[', .word i.chars]

theorem lastIs_operand (o : Operand) : LastIs IsLast o.chunks := by
  cases o with
  | num n => exact lastIs_word (isPlain_digitsOf n)
  | ref r => exact lastIs_ref r

theorem lastIs_unnamed (f : Formula) : LastIs IsLast (unnamed scope isCondition f.lexemes) := by
  have hclose : LastIs IsLast [.mark ')'] := lastIs_mark (.inr (by decide))
  induction f with
  | compare c =>
    have := (lastIs_operand c.right).append (c.left.chunks ++ marks (' ' :: c.rel.chars ++ [' ']))
    simpa [Formula.lexemes, unnamed, solverChunks, Lexeme.chunks, Sv.Comparison.chunks] using this
  | member m =>
    have hchunks : unnamed scope isCondition [.member m] =
        memberChunks scope isCondition (membershipOf m) :=
      append_nil _
    rw [Formula.lexemes, hchunks]
    cases isCondition with
    | true => exact hclose.append _
    | false =>
      exact hclose.append (.word m.subject.chars :: .mark ' ' :: .word "in".toList :: .mark ' ' ::
        .word "vsc".toList :: .mark '.' :: .word "rangelist".toList :: .mark '(' ::
          rangeListChunks scope (entryOf m.first) (m.more.map entryOf))
  | and f g _ hg | or f g _ hg | implies f g _ hg =>
    rw [Formula.lexemes, ← singleton_append, unnamed_append, unnamed_append]
    exact (hg.append _).append _
  | paren f _ =>
    rw [Formula.lexemes, unnamed_append]
    exact hclose.append _

theorem ends_solved (f : Formula) :
    Ends IsLast (spell (solved scope isCondition f.lexemes)) :=
  (((lastIs_unnamed scope isCondition f).withOwners false).withOwners false).ends

theorem inky_unnamed (f : Formula) : Inky (unnamed scope isCondition f.lexemes) := by
  induction f with
  | compare c =>
    obtain ⟨left, rel, right⟩ := c
    cases left with
    | name x | element x i => exact x.isPlain.isWord
  | member m => cases isCondition <;> exact m.subject.isPlain.isWord
  | and f g hf _ | or f g hf _ | implies f g hf _ =>
    rw [Formula.lexemes, unnamed_append]
    exact hf.append _
  | paren f _ => exact (by decide : isBlank '(' = false)

theorem starts_solved {scope : Scope} (hs : scope.Proper) (f : Formula) :
    Starts (isBlank · = false) (spell (solved scope isCondition f.lexemes)) :=
  (((inky_unnamed scope isCondition f).withOwners (isWord_of_memberOwner? hs) false).withOwners
    (isWord_of_fieldOwner? hs) false).starts

end Ends

/-! ## Calls -/

/-- The words called in the solver's text of an expression. -/
def solverCalls : List (List Char) := ["rng".toList, "rangelist".toList, "inside".toList]

section Calls

variable (scope : Scope) (isCondition : Bool)

theorem callsOnly_of_isOf {ms : List Char} (hms : '(' ∉ ms) {ks : List Chunk}
    (h : ∀ k ∈ ks, IsOf ms k) : CallsOnly solverCalls ks :=
  callsOnly_of_forall fun hmem => hms (h _ hmem)

theorem callsOnly_valueChunks (v : Word) : CallsOnly solverCalls (valueChunks scope v) :=
  (callsOnly_of_forall (by simp)).withOwners false

theorem callsOnly_rangeChunks (i : Entry Word) : CallsOnly solverCalls (rangeChunks scope i) := by
  cases i with
  | one v => exact callsOnly_valueChunks scope v
  | span low high =>
    have hhigh := (callsOnly_valueChunks scope high).append
      (callsOnly_singleton (.mark ')')) (by simp)
    have hlow := (callsOnly_valueChunks scope low).append
      (callsOnly_marks [',', ' '] hhigh) (by simp [marks])
    have hcall := (CallsOnly.call (w := "rng".toList) (by decide) hlow).mark '.'
    have := (callsOnly_singleton (.word "vsc".toList)).append hcall (by simp)
    simpa [rangeChunks, marks] using this

theorem callsOnly_listed {α : Type} {f : α → List Chunk} (h : ∀ x, CallsOnly solverCalls (f x))
    (first : α) (more : List α) : CallsOnly solverCalls (listed f first more) := by
  induction more generalizing first with
  | nil => simpa [listed] using h first
  | cons x more ih =>
    have := (h first).append (callsOnly_marks [',', ' '] (ih x)) (by simp [marks])
    simpa [listed, marks] using this

theorem callsOnly_memberChunks (m : Membership) :
    CallsOnly solverCalls (memberChunks scope isCondition m) := by
  have hlist : ∀ cs : List Char, CallsOnly solverCalls
      (.word "vsc".toList :: .mark '.' :: .word "rangelist".toList :: .mark '('
        :: rangeListChunks scope m.first m.more ++ (.mark ')' :: marks cs ++ [])) := by
    intro cs
    have hitems := (callsOnly_listed (callsOnly_rangeChunks scope) m.first m.more).append
      ((callsOnly_marks cs isChain_nil).mark ')') (by simp)
    have hcall := (CallsOnly.call (w := "rangelist".toList) (by decide) hitems).mark '.'
    exact (callsOnly_singleton (.word "vsc".toList)).append hcall (by simp)
  have hsubject : CallsOnly solverCalls [.word m.subject.chars] := callsOnly_singleton _
  cases isCondition with
  | true =>
    have hcall := CallsOnly.call (w := "inside".toList) (by decide) (hlist [')'])
    have := hsubject.append (hcall.mark '.') (by simp)
    simpa [memberChunks, marks] using this
  | false =>
    have hin := (callsOnly_singleton (.word "in".toList)).append ((hlist []).mark ' ') (by simp)
    have := hsubject.append (hin.mark ' ') (by simp)
    simpa [memberChunks, marks] using this

theorem callsOnly_unnamed (f : Formula) :
    CallsOnly solverCalls (unnamed scope isCondition f.lexemes) := by
  have hjoin : ∀ (cs : List Char) {ks ls : List Chunk},
      CallsOnly solverCalls ks → CallsOnly solverCalls ls →
      CallsOnly solverCalls (ks ++ (marks (' ' :: cs) ++ ls)) := by
    intro cs ks ls hk hl
    exact hk.append (callsOnly_marks _ hl) (by simp [marks])
  induction f with
  | compare c =>
    have := callsOnly_of_isOf (by decide) c.isOf
    simpa [unnamed, Formula.lexemes, solverChunks, Lexeme.chunks] using this
  | member m =>
    have := callsOnly_memberChunks scope isCondition (membershipOf m)
    simpa [unnamed, Formula.lexemes, solverChunks] using this
  | and f g hf hg =>
    rw [Formula.lexemes, ← singleton_append, unnamed_append, unnamed_append]
    exact hjoin [' ', '&', ' ', ' '] hf hg
  | or f g hf hg =>
    rw [Formula.lexemes, ← singleton_append, unnamed_append, unnamed_append]
    exact hjoin [' ', '|', ' ', ' '] hf hg
  | implies f g hf hg =>
    rw [Formula.lexemes, ← singleton_append, unnamed_append, unnamed_append]
    exact hjoin ['-', '>', ' '] hf hg
  | paren f hf =>
    rw [Formula.lexemes, unnamed_append]
    exact CallsOnly.append (hf.mark '(') (callsOnly_singleton (.mark ')'))
      (by simp [unnamed, solverChunks, Lexeme.chunks, marks])

theorem callsOnly_solved (f : Formula) :
    CallsOnly solverCalls (solved scope isCondition f.lexemes) :=
  ((callsOnly_unnamed scope isCondition f).withOwners false).withOwners false

theorem uncalled_solved {scope : Scope} (hs : scope.Proper) (f : Formula) :
    Uncalled (spell (solved scope isCondition f.lexemes)) :=
  (callsOnly_solved scope isCondition f).uncalled (wellCut_solved hs isCondition f.separated)
    (by decide)

end Calls

end Stimulus.Expr
