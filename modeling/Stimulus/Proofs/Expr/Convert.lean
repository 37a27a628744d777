import Stimulus.Proofs.Expr.Inside

/-!
# Converting an expression

The solver's text of an expression, chunk by chunk.
-/

open String (ofList toList_ofList)

namespace Stimulus.Expr

open Pattern Text Sv

/-- The solver's chunks of lexemes, before names are reached. -/
def unnamed (scope : Scope) (isCondition : Bool) (ls : List Lexeme) : List Chunk :=
  ls.flatMap (solverChunks scope isCondition)

/-- The solver's chunks of lexemes, with members reached through their class. -/
def halfNamed (scope : Scope) (isCondition : Bool) (ls : List Lexeme) : List Chunk :=
  withOwners (memberOwner? scope) false (unnamed scope isCondition ls)

def solved (scope : Scope) (isCondition : Bool) (ls : List Lexeme) : List Chunk :=
  withOwners (fieldOwner? scope) false (halfNamed scope isCondition ls)

/-! ## Whole words -/

section WellCut

variable {scope : Scope} (hs : scope.Proper)

include hs

theorem wellCut_valueChunks (v : Word) : WellCut (valueChunks scope v) :=
  wellCut_withOwners (isWord_of_memberOwner? hs) ⟨v.isPlain.isWord, bounded_nil, trivial⟩

theorem wellCut_rangeChunks (i : Entry Word) : WellCut (rangeChunks scope i) := by
  cases i with
  | one v => exact wellCut_valueChunks hs v
  | span low high =>
    have hhigh := wellCut_join (w := [')']) (l := []) (by simp) (by decide)
      (wellCut_valueChunks hs high) trivial
    have hlow := wellCut_join (w := [',', ' ']) (by simp) (by decide)
      (wellCut_valueChunks hs low) hhigh
    refine ⟨⟨by decide, by decide⟩, bounded_cons.2 (by decide), by decide,
      ⟨by decide, by decide⟩, bounded_cons.2 (by decide), by decide, ?_⟩
    simpa [marks] using hlow

theorem wellCut_memberChunks (isCondition : Bool) (m : Membership) :
    WellCut (memberChunks scope isCondition m) := by
  have hlist := wellCut_listed (wellCut_rangeChunks hs) m.first m.more
  have hrange : ∀ cs : List Char, cs ≠ [] → (∀ c ∈ cs, c ∈ sourceMarks) →
      WellCut (.word "vsc".toList :: .mark '.' :: .word "rangelist".toList :: .mark '('
        :: rangeListChunks scope m.first m.more ++ marks cs) := by
    intro cs hne hcs
    have := wellCut_join (l := []) hne hcs hlist trivial
    refine ⟨⟨by decide, by decide⟩, bounded_cons.2 (by decide), by decide,
      ⟨by decide, by decide⟩, bounded_cons.2 (by decide), by decide, ?_⟩
    simpa [rangeListChunks] using this
  cases isCondition with
  | true =>
    refine ⟨m.subject.isPlain.isWord, bounded_cons.2 (by decide), by decide,
      ⟨by decide, by decide⟩, bounded_cons.2 (by decide), by decide, ?_⟩
    simpa [marks] using hrange [')', ')'] (by simp) (by decide)
  | false =>
    refine ⟨m.subject.isPlain.isWord, bounded_cons.2 (by decide), by decide,
      ⟨by decide, by decide⟩, bounded_cons.2 (by decide), by decide, ?_⟩
    simpa [marks] using hrange [')'] (by simp) (by decide)

theorem wellCut_unnamed (isCondition : Bool) {ls : List Lexeme} (h : Separated ls) :
    WellCut (unnamed scope isCondition ls) := by
  refine wellCut_flatMap solverJoints (fun l hl => ?_) (fun l hl => ?_) h
  · cases l with
    | compare c => exact c.wellCut
    | member m => exact wellCut_memberChunks hs isCondition (membershipOf m)
    | and | or | arrow | opening | closing => cases hl
  · cases l with
    | compare | member => cases hl
    | and | or | arrow | opening | closing => rfl

theorem wellCut_halfNamed (isCondition : Bool) {ls : List Lexeme} (h : Separated ls) :
    WellCut (halfNamed scope isCondition ls) :=
  wellCut_withOwners (isWord_of_memberOwner? hs) (wellCut_unnamed hs isCondition h)

theorem wellCut_solved (isCondition : Bool) {ls : List Lexeme} (h : Separated ls) :
    WellCut (solved scope isCondition ls) :=
  wellCut_withOwners (isWord_of_fieldOwner? hs) (wellCut_halfNamed hs isCondition h)

end WellCut

/-! ## Words after dots -/

/-- The two words that no dot stands before in the solver's text of lexemes. -/
def NeverDotted (v : List Char) : Prop := v = "self".toList ∨ v = "vsc".toList

theorem undotted_listed {v : List Char} {α : Type} {f : α → List Chunk} (h : ∀ x, Undotted v (f x)) (first : α)
    (more : List α) : Undotted v (listed f first more) := by
  induction more generalizing first with
  | nil => simpa [listed] using h first
  | cons x more ih =>
    have := (h first).append ((undotted_marks (w := [',', ' ']) (by decide)).append (ih x))
    simpa [listed] using this

section Dots

variable {v : List Char} (hv : NeverDotted v) (scope : Scope)

include hv

theorem ne_of_memberOwner? :
    ∀ d w n a, memberOwner? scope d w n = some a → d = false ∧ w ≠ v := by
  intro d w n a h
  unfold memberOwner? at h
  split at h
  · cases h
  · next hskip =>
    simp only [Bool.or_eq_true, not_or, Bool.not_eq_true, Bool.not_eq_false'] at hskip
    refine ⟨hskip.1, ?_⟩
    rintro rfl
    have hshape := hskip.2
    rcases hv with rfl | rfl <;> revert hshape <;> decide

theorem undotted_valueChunks (x : Word) : Undotted v (valueChunks scope x) := by
  have hword : NotDotted v false [.word x.chars] := ⟨by simp, trivial⟩
  refine ⟨hword.withOwners (ne_of_memberOwner? hv scope), ?_⟩
  unfold valueChunks withOwners
  split <;> simp [withOwners]

theorem undotted_rangeChunks (i : Entry Word) : Undotted v (rangeChunks scope i) := by
  cases i with
  | one x => exact undotted_valueChunks hv scope x
  | span low high =>
    have hhead : Undotted v [.word "vsc".toList, .mark '.', .word "rng".toList, .mark '('] := by
      refine ⟨⟨by simp, ?_, ?_⟩, by decide⟩
      · rcases hv with rfl | rfl <;> decide
      · trivial
    have := (((hhead.append (undotted_valueChunks hv scope low)).append
      (undotted_marks (w := [',', ' ']) (by decide))).append
      (undotted_valueChunks hv scope high)).append (undotted_marks (w := [')']) (by decide))
    simpa [rangeChunks, marks] using this

theorem undotted_memberChunks (isCondition : Bool) (m : Membership) :
    Undotted v (memberChunks scope isCondition m) := by
  have hrange : Undotted v [.word "vsc".toList, .mark '.', .word "rangelist".toList, .mark '('] := by
    refine ⟨⟨by simp, ?_, ?_⟩, by decide⟩
    · rcases hv with rfl | rfl <;> decide
    · trivial
  have hlist := hrange.append (undotted_listed (undotted_rangeChunks hv scope) m.first m.more)
  cases isCondition with
  | true =>
    have hhead : Undotted v
        [.word m.subject.chars, .mark '.', .word "inside".toList, .mark '('] := by
      refine ⟨⟨by simp, ?_, ?_⟩, by simp⟩
      · rcases hv with rfl | rfl <;> decide
      · trivial
    have := hhead.append (hlist.append (undotted_marks (w := [')', ')']) (by decide)))
    simpa [memberChunks, rangeListChunks, marks] using this
  | false =>
    have hhead : Undotted v [.word m.subject.chars, .mark ' ', .word "in".toList, .mark ' '] :=
      undotted_of_forall (by simp)
    have := hhead.append (hlist.append (undotted_marks (w := [')']) (by decide)))
    simpa [memberChunks, rangeListChunks, marks] using this

theorem undotted_unnamed (isCondition : Bool) (ls : List Lexeme) :
    Undotted v (unnamed scope isCondition ls) := by
  induction ls with
  | nil => exact ⟨trivial, by simp [unnamed]⟩
  | cons l ls ih =>
    refine Undotted.append ?_ ih
    have hsource : Undotted v (l.chunks solverJoints) := by
      refine undotted_of_forall fun c hc => ?_
      rintro rfl
      have hmem : '.' ∈ sourceMarks := l.isOf solverJoints _ hc
      revert hmem
      decide
    cases l with
    | member m => exact undotted_memberChunks hv scope isCondition (membershipOf m)
    | compare | and | or | arrow | opening | closing => exact hsource

end Dots

/-! ## Bare conditions -/

theorem comparedWithZero_spell {ks : List Chunk}
    (h : (∃ r : Rel, r.chars <:+: spell ks) ∨ "vsc.".toList <:+: spell ks) :
    comparedWithZero (ofList (spell ks)) = ofList (spell ks) := by
  have hcontains : ∀ t : String, t.toList <:+: spell ks →
      Text.contains t (ofList (spell ks)) = true := by
    intro t ht
    rw [contains_iff, toList_ofList]
    exact ht
  have hany : (["==", "!=", "<", ">"].any (Text.contains · (ofList (spell ks)))
      || Text.contains "vsc." (ofList (spell ks))) = true := by
    rcases h with ⟨r, hr⟩ | h
    · refine Bool.or_eq_true_iff.2 (.inl (List.any_eq_true.2 ?_))
      cases r with
      | eq => exact ⟨"==", by simp, hcontains "==" hr⟩
      | ne => exact ⟨"!=", by simp, hcontains "!=" hr⟩
      | lt => exact ⟨"<", by simp, hcontains "<" hr⟩
      | gt => exact ⟨">", by simp, hcontains ">" hr⟩
      | le => exact ⟨"<", by simp, hcontains "<" (List.IsInfix.trans ⟨[], ['='], rfl⟩ hr)⟩
      | ge => exact ⟨">", by simp, hcontains ">" (List.IsInfix.trans ⟨[], ['='], rfl⟩ hr)⟩
    · exact Bool.or_eq_true_iff.2 (.inr (hcontains _ h))
  rw [comparedWithZero, if_pos hany]

theorem exists_mark_solved (scope : Scope) (isCondition : Bool) {ls : List Lexeme} {l : Lexeme}
    (hl : l ∈ ls) (hatom : l.isAtom = true) :
    (∃ r : Rel, r.chars <:+: spell (solved scope isCondition ls)) ∨
      "vsc.".toList <:+: spell (solved scope isCondition ls) := by
  have hin : ∀ k cs, k :: marks cs <:+: solverChunks scope isCondition l →
      spell (k :: marks cs) <:+: spell (solved scope isCondition ls) := by
    intro k cs h
    refine spell_infix (infix_withOwners (infix_withOwners (h.trans ?_)))
    obtain ⟨a, b, rfl⟩ := List.append_of_mem hl
    exact ⟨unnamed scope isCondition a, unnamed scope isCondition b, by simp [unnamed]⟩
  cases l with
  | compare c =>
    refine .inl ⟨c.rel, List.IsInfix.trans ⟨[' '], [' '], ?_⟩
      (hin (.mark ' ') (c.rel.chars ++ [' ']) ⟨c.left.chunks, c.right.chunks, ?_⟩)⟩
    · simp
    · simp [solverChunks, Lexeme.chunks, Sv.Comparison.chunks, marks]
  | member m =>
    refine .inr (hin (.word "vsc".toList) ['.'] ?_)
    cases isCondition with
    | true =>
      refine ⟨[.word m.subject.chars, .mark '.', .word "inside".toList, .mark '('], ?_, ?_⟩
      · exact .word "rangelist".toList :: .mark '(' :: rangeListChunks scope (entryOf m.first)
          (m.more.map entryOf) ++ marks [')', ')']
      · simp [solverChunks, memberChunks, membershipOf, marks]
    | false =>
      refine ⟨[.word m.subject.chars, .mark ' ', .word "in".toList, .mark ' '], ?_, ?_⟩
      · exact .word "rangelist".toList :: .mark '(' :: rangeListChunks scope (entryOf m.first)
          (m.more.map entryOf) ++ marks [')']
      · simp [solverChunks, memberChunks, membershipOf, marks]
  | and | or | arrow | opening | closing => cases hatom

theorem convert_of_wellCut {scope : Scope} {isCondition : Bool} {ls : List Lexeme}
    (h : Separated ls) (hatom : ∃ l ∈ ls, l.isAtom = true)
    (hunnamed : WellCut (unnamed scope isCondition ls))
    (hhalf : WellCut (halfNamed scope isCondition ls))
    (hsolved : WellCut (solved scope isCondition ls)) :
    convert scope (ofList (sourceText ls)) isCondition =
      ofList (spell (solved scope isCondition ls)) := by
  have hdots : ∀ v, NeverDotted v → NotDotted v false (halfNamed scope isCondition ls) :=
    fun v hv => (undotted_unnamed hv scope isCondition ls).inner.withOwners
      (ne_of_memberOwner? hv scope)
  have hnamed : selfPrefixed scope (qualified scope (insideCalls scope isCondition
      (solverLogic (ofList (sourceText ls))))) =
      ofList (spell (solved scope isCondition ls)) := by
    rw [sourceText, solverLogic_text, insideCalls_text scope isCondition h, ← unnamed,
      qualified_spell scope hunnamed]
    exact selfPrefixed_spell hhalf hsolved (hdots _ (.inl rfl)) (hdots _ (.inr rfl))
  obtain ⟨l, hl, hla⟩ := hatom
  rw [convert]
  simp only [sourceText] at hnamed ⊢
  rw [plain_text, hnamed, comparedWithZero_spell (exists_mark_solved scope isCondition hl hla),
    ite_self]

theorem convert_text {scope : Scope} (hs : scope.Proper) (isCondition : Bool) {ls : List Lexeme}
    (h : Separated ls) (hatom : ∃ l ∈ ls, l.isAtom = true) :
    convert scope (ofList (sourceText ls)) isCondition =
      ofList (spell (solved scope isCondition ls)) :=
  convert_of_wellCut h hatom (wellCut_unnamed hs isCondition h) (wellCut_halfNamed hs isCondition h)
    (wellCut_solved hs isCondition h)

end Stimulus.Expr
