import Stimulus.Expr.Basic
import Stimulus.Proofs.Sv.Lexeme

/-!
# Operators of an expression

What the first changes make of the text of lexemes: literals, choices, shifts and divisions are not
there, so only the logical operators change.
-/

open List
open String (ofList toList_ofList)

namespace Stimulus.Expr

open Pattern Text Sv

variable {cs : List Char} {c : Char}

/-! ## Texts that stay as they are -/

theorem plainNumbers_of_not_mem (h : '\'' ∉ cs) :
    plainNumbers (ofList cs) = ofList cs := by
  have hlit : Needs (lit "'") '\'' := needs_lit (by decide)
  have hsized : Needs sizedLiteral '\'' := hlit.right.left.left
  have hunsized : Needs unsizedLiteral '\'' := hlit.left.left
  rw [plainNumbers, hsized.replaceAll h, hunsized.replaceAll h]

private theorem choiceStep?_of_not_mem {before : List Char} (h : '?' ∉ cs) :
    choiceStep? before cs = none := by
  induction cs generalizing before with
  | nil => rfl
  | cons c cs ih =>
    have hc : c ≠ '?' := fun hc => h (hc ▸ mem_cons_self)
    rw [choiceStep?]
    · exact ih fun hmem => h (mem_cons_of_mem _ hmem)
    · rintro _ rfl; contradiction
    · rintro rfl; contradiction

theorem plainChoices_of_not_mem (h : '?' ∉ cs) :
    plainChoices (ofList cs) = ofList cs := by
  rw [plainChoices, toList_ofList]
  simp only [mostChoices, changeChoices, choiceStep?_of_not_mem h]

theorem integerDivision_of_not_mem (h : '/' ∉ cs) :
    integerDivision (ofList cs) = ofList cs := by
  have hlit : Needs (lit "/") '/' := needs_lit (by decide)
  exact Needs.replaceAll (p := loneSlash) hlit.right.left h

theorem wrapShifts_text (j : Joints) (ls : List Lexeme) :
    wrapShifts (ofList (spell (textWith j ls))) =
      ofList (spell (textWith j ls)) := by
  refine replaceAll_of_spells fun w hw hin => ?_
  obtain ⟨u, v, rfl, -, hv⟩ := hw
  have hshift := (suffix_append u v).isInfix.trans hin
  rcases hv with rfl | rfl
  · exact absurd (next_of_textWith (a := '<') (b := '<') hshift).1 (by simp)
  · exact absurd (next_of_textWith (a := '>') (b := '>') hshift).1 (by simp)

theorem spells_literalOperand {w : List Char} (h : Spells literalOperand w) :
    ∃ u c b, w = u ++ c :: b ∧ c ∈ "-+*/".toList ∧ ∀ d ∈ b, isBlank d = true := by
  obtain ⟨u, b, rfl, ⟨u', o, rfl, -, hop⟩, hb, -⟩ := h
  obtain ⟨c, hc, rfl⟩ : ∃ c, "-+*/".toList.contains c = true ∧ o = [c] := hop
  exact ⟨u', c, b, by simp, by simpa using hc, hb⟩

private theorem not_operand_infix {j : Joints} {ls : List Lexeme} {d : Char} {b v : List Char}
    (hc : c ∈ "-+*/".toList) (hb : ∀ d ∈ b, isBlank d = true) (hd : nameHead d = true ∨ d = '(')
    (h : c :: b ++ d :: v <:+: spell (textWith j ls)) : False := by
  have hminus : c = '-' := by
    have hmem : c ∈ spell (textWith j ls) := h.subset (by simp)
    by_contra hne
    have : c ∈ "+*/".toList := by simpa [hne] using hc
    revert hmem
    refine not_mem_textWith ?_ ?_
    · exact (by decide : ∀ c ∈ "+*/".toList, nameTail c = false) c this
    · exact (by decide : ∀ c ∈ "+*/".toList, c ∉ sourceMarks) c this
  subst hminus
  have hnext : ∀ e r, b ++ d :: v = e :: r → e = '>' := by
    intro e r her
    have hin : ['-', e] <:+: spell (textWith j ls) := by
      refine List.IsInfix.trans ⟨[], r, ?_⟩ h
      simp [her]
    exact (next_of_textWith hin).2.2 rfl
  cases b with
  | nil =>
    have := hnext d v rfl
    subst this
    revert hd
    decide
  | cons e b =>
    have := hnext e (b ++ d :: v) rfl
    subst this
    have := hb '>' mem_cons_self
    revert this
    decide

theorem wrapOperands_text (j : Joints) (ls : List Lexeme) :
    wrapOperands (ofList (spell (textWith j ls))) =
      ofList (spell (textWith j ls)) := by
  have hname : ∀ w, Spells literalBeforeName w → ¬ w <:+: spell (textWith j ls) := by
    rintro w ⟨u, v, rfl, hu, v', r, rfl, ⟨d, hd, rfl⟩, -⟩ hin
    obtain ⟨u', c, b, rfl, hc, hb⟩ := spells_literalOperand hu
    refine not_operand_infix (v := r) hc hb (.inl hd) (List.IsInfix.trans ⟨u', [], ?_⟩ hin)
    simp
  have hparen : ∀ w, Spells literalBeforeParen w → ¬ w <:+: spell (textWith j ls) := by
    rintro w ⟨u, v, rfl, hu, rfl⟩ hin
    obtain ⟨u', c, b, rfl, hc, hb⟩ := spells_literalOperand hu
    refine not_operand_infix (v := []) hc hb (.inr rfl) (List.IsInfix.trans ⟨u', [], ?_⟩ hin)
    simp
  rw [wrapOperands]
  simp only [replaceAll_of_spells hname, replaceAll_of_spells hparen]

theorem plain_text (j : Joints) (ls : List Lexeme) :
    integerDivision (wrapOperands (wrapShifts (plainChoices (plainNumbers
      (ofList (spell (textWith j ls))))))) = ofList (spell (textWith j ls)) := by
  rw [plainNumbers_of_not_mem (not_mem_textWith (by decide) (by decide)),
    plainChoices_of_not_mem (not_mem_textWith (by decide) (by decide)), wrapShifts_text,
    wrapOperands_text, integerDivision_of_not_mem (not_mem_textWith (by decide) (by decide))]

/-! ## Logical operators -/

/-- The joints of the solver. -/
def solverJoints : Joints where
  conj := [' ', ' ', '&', ' ', ' ']
  disj := [' ', ' ', '|', ' ', ' ']
  isJoint_conj := ⟨⟨[' ', ' '], '&', _, rfl, by decide, by decide, by decide⟩, by decide⟩
  isJoint_disj := ⟨⟨[' ', ' '], '|', _, rfl, by decide, by decide, by decide⟩, by decide⟩

/-- The solver's conjunction with the disjunction of the source. -/
def halfwayJoints : Joints := { solverJoints with
  disj := Joints.source.disj
  isJoint_disj := Joints.source.isJoint_disj }

theorem substitute_append {c : Char} {old new cs z : List Char} (h : c ∉ cs) :
    substitute (c :: old) new (cs ++ z) = cs ++ substitute (c :: old) new z := by
  induction cs with
  | nil => rfl
  | cons d cs ih =>
    have hd : c ≠ d := fun hcd => h (hcd ▸ mem_cons_self)
    rw [cons_append, substitute_skip, ih fun hc => h (mem_cons_of_mem _ hc)]
    · rfl
    · rintro ⟨t, ht⟩
      exact hd (List.cons.inj ht).1

/-- Replacing acts on the text of lexemes lexeme by lexeme, if it changes the joints and nothing
else. -/
private theorem substitute_textWith {old new : List Char} {j j' : Joints}
    (hc : c ∉ atomMarks ∧ nameTail c = false ∧ c ∉ [' ', '-', '>', '(', ')'])
    (hconj : ∀ cs, substitute (c :: old) new (j.conj ++ cs) =
      j'.conj ++ substitute (c :: old) new cs)
    (hdisj : ∀ cs, substitute (c :: old) new (j.disj ++ cs) =
      j'.disj ++ substitute (c :: old) new cs) (ls : List Lexeme) :
    substitute (c :: old) new (spell (textWith j ls)) = spell (textWith j' ls) := by
  induction ls with
  | nil => simp
  | cons l ls ih =>
    have hatom : l.isAtom = true → c ∉ spell (l.chunks j) := by
      intro hl hmem
      rcases mem_spell_of_isOf (l.isOf_of_isAtom j hl) hmem with h | h
      · simp [hc.2.1] at h
      · exact hc.1 h
    have hmark : ∀ cs : List Char, (∀ d ∈ cs, d ∈ [' ', '-', '>', '(', ')']) → c ∉ cs :=
      fun cs h hcs => hc.2.2 (h c hcs)
    rw [textWith_cons, textWith_cons, spell_append, spell_append, ← ih]
    cases l with
    | compare | member => exact substitute_append (hatom rfl)
    | and => simpa [Lexeme.chunks] using hconj _
    | or => simpa [Lexeme.chunks] using hdisj _
    | arrow | opening | closing =>
      rw [Lexeme.chunks, Lexeme.chunks, spell_marks]
      exact substitute_append (hmark _ (by decide))

private theorem substitute_sign {new : List Char} (hc : c ≠ ' ') :
    substitute [c, c] new ([' ', c, c, ' '] ++ cs) =
      ' ' :: new ++ ' ' :: substitute [c, c] new cs := by
  have hblank : c ∉ [' '] := by simpa using hc
  have hfirst := @substitute_append c [c] new [' '] ([c, c] ++ (' ' :: cs)) hblank
  have hlast := @substitute_append c [c] new [' '] cs hblank
  calc substitute [c, c] new ([' ', c, c, ' '] ++ cs)
      = ' ' :: substitute [c, c] new ([c, c] ++ (' ' :: cs)) := hfirst
    _ = ' ' :: (new ++ substitute [c, c] new ([' '] ++ cs)) := by
      rw [substitute_hit (by simp)]
      rfl
    _ = ' ' :: new ++ ' ' :: substitute [c, c] new cs := by
      rw [hlast]
      rfl

/-- A negation sign is followed by the rest of `!=` only. -/
def Unnegated (cs : List Char) : Prop := cs.IsChain fun a b => a = '!' → b = '='

section Unnegated

variable {cs : List Char} {f : Match → String} (h : Unnegated cs)

include h

theorem Unnegated.next {c : Char} (hin : ['!', c] <:+: cs) : c = '=' :=
  (isChain_cons_cons.1 ( List.IsChain.infix h hin)).1 rfl

theorem Unnegated.negatedParen :
    negatedParen.replaceAll f (ofList cs) = ofList cs := by
  refine replaceAll_of_spells ?_
  rintro w ⟨u, v, rfl, ⟨u', v', rfl, rfl, -⟩, -⟩ hin
  have := h.next (c := '(') (List.IsInfix.trans ⟨[], v' ++ v, rfl⟩ hin)
  exact absurd this (by decide)

theorem Unnegated.negatedWord :
    negatedWord.replaceAll f (ofList cs) = ofList cs := by
  refine replaceAll_of_spells ?_
  rintro w ⟨u, v, rfl, ⟨u', v', rfl, rfl, rfl⟩, x, y, rfl, ⟨e, z, rfl, rfl, hz, hlen⟩, rfl⟩ hin
  obtain ⟨c, z, rfl⟩ := exists_cons_of_length_pos hlen
  have hc := hz c mem_cons_self
  obtain rfl : c = '=' := h.next (List.IsInfix.trans ⟨[], z, by simp⟩ hin)
  exact absurd hc (by decide)

end Unnegated

theorem solverLogic_text (ls : List Lexeme) :
    solverLogic (ofList (spell (textWith .source ls))) =
      ofList (spell (textWith solverJoints ls)) := by
  have hconj : Text.replace "&&" " & " (ofList (spell (textWith .source ls))) =
      ofList (spell (textWith halfwayJoints ls)) := by
    rw [replace_ofList]
    congr 1
    refine substitute_textWith (by decide) (fun cs => substitute_sign (by decide)) ?_ ls
    exact fun cs => substitute_append (by decide)
  have hdisj : Text.replace "||" " | " (ofList (spell (textWith halfwayJoints ls))) =
      ofList (spell (textWith solverJoints ls)) := by
    rw [replace_ofList]
    congr 1
    refine substitute_textWith (by decide) ?_ (fun cs => substitute_sign (by decide)) ls
    exact fun cs => substitute_append (by decide)
  have hsigns : Unnegated (spell (textWith solverJoints ls)) :=
    (isChain_isInfix _).imp fun _ _ hin ha => (next_of_textWith hin).2.1 ha
  rw [solverLogic]
  simp only [hconj, hdisj, hsigns.negatedParen, hsigns.negatedWord]

end Stimulus.Expr
