import Stimulus.Proofs.Pattern.Reads
import Stimulus.Proofs.Text.Closed
import Stimulus.Sv.ConstraintDecl

/-!
# Constraint blocks read back

A text is cut into constraint blocks and what stands between them. The blocks are found again if their
keyword is not in the text between them, whatever their bodies hold; and what is read in any text are
blocks that stand in it.
-/

open List

namespace Stimulus.Sv

open Pattern Text

/-! ## Blocks -/

/-- A constraint block as it is written: the blanks after the keyword, the name, the blanks after it and
the text between the braces. -/
structure ConstraintText where
  gap : List Char
  name : List Char
  space : List Char
  body : List Char
  gap_ne_nil : gap ≠ []
  blank_gap : Blank gap
  name_ne_nil : name ≠ []
  word_name : ∀ c ∈ name, isWordChar c = true
  blank_space : Blank space
  balanced : BalancedFrom '\x7b' '\x7d' 0 body

namespace ConstraintText

variable (x : ConstraintText)

def head : List Char := "constraint".toList ++ (x.gap ++ (x.name ++ (x.space ++ "\x7b".toList)))

def text : List Char := x.head ++ (x.body ++ ['\x7d'])

/-- What is said of the block. -/
def constraint : Constraint :=
  let body := strip (String.ofList x.body)
  { name := String.ofList x.name, body, source := String.ofList x.text
    constructs := constructsOf body, warnings := warningsOf body }

theorem ofText_eq : Constraint.ofText (String.ofList x.name) (String.ofList x.head) x.body =
    x.constraint := by
  simp only [Constraint.ofText, constraint, text, String.ofList_append, String.append_assoc]

theorem prefix_head : "constraint".toList <+: x.head := prefix_append _ _

theorem reads_head (before rest : List Char) :
    Reads constraintHead before [] x.head rest [(1, x.name)] := by
  have hname : IsWord x.name := ⟨x.name_ne_nil, x.word_name⟩
  show Reads (lit "constraint" ++ (blanks1 ++ (group 1 word ++ (blanks ++ lit "\x7b")))) _ _ _ _ _
  refine reads_lit.seq ((reads_run x.blank_gap ?_ (length_pos_iff.2 x.gap_ne_nil)).seq
    (((reads_word hname ?_).group 1).seq ((reads_blanks x.blank_space ?_).seq reads_lit)))
  · rw [append_assoc]
    exact head_word hname
  · rw [append_assoc]
    exact head_gap x.blank_space isWordChar_of_isBlank (by simp; decide)
  · simp
    decide

end ConstraintText

/-- Blocks, each with the text that follows it, after a first text. -/
def printed (f : List Char) (xs : List (ConstraintText × List Char)) : List Char :=
  f ++ xs.flatMap fun x => x.1.text ++ x.2

theorem printed_cons (f : List Char) (x : ConstraintText × List Char)
    (xs : List (ConstraintText × List Char)) :
    printed f (x :: xs) = f ++ (x.1.head ++ (x.1.body ++ '\x7d' :: printed x.2 xs)) := by
  simp [printed, ConstraintText.text]

/-! ## Reading -/

theorem leads_constraintHead : Leads constraintHead "constraint".toList :=
  (leads_lit "constraint").seq.seq.seq.seq

/-- What stands before a block is passed, and reading goes on behind its brace. -/
theorem readConstraintsFrom_block (x : ConstraintText) {f rest : List Char} (fuel : Nat)
    (hf : ∀ a b, f = a ++ b → b ≠ [] → ∀ s : Spot,
      s.after = b ++ (x.head ++ (x.body ++ '\x7d' :: rest)) → walk constraintHead s some = none) :
    readConstraintsFrom (fuel + 1) (f ++ (x.head ++ (x.body ++ '\x7d' :: rest))) =
      x.constraint :: readConstraintsFrom fuel rest := by
  obtain ⟨a, b, hsearch, hafter, hchars, hpieces⟩ := @Reads.searchFrom _ [] _ _ _ 0 f hf (x.reads_head _ _)
  have hname : (Match.between a b).group 1 = String.ofList x.name := by
    rw [Match.group_eq, hpieces]
    rfl
  have hclosing : closing? '\x7b' '\x7d' 0 [] (x.body ++ '\x7d' :: rest) = some (x.body, rest) :=
    (closing?_eq_some (by decide)).2 ⟨x.body, rfl, rfl, x.balanced⟩
  rw [readConstraintsFrom]
  simp only [hsearch, hafter, hclosing, hname, Match.text, hchars, x.ofText_eq]

theorem readConstraintsFrom_printed {f : List Char} {xs : List (ConstraintText × List Char)} {fuel : Nat}
    (hf : ¬ "constraint".toList <:+: f) (hxs : ∀ x ∈ xs, ¬ "constraint".toList <:+: x.2)
    (hfuel : xs.length < fuel) :
    readConstraintsFrom fuel (printed f xs) = xs.map fun x => x.1.constraint := by
  induction xs generalizing f fuel with
  | nil =>
    obtain ⟨fuel, rfl⟩ : ∃ n, fuel = n + 1 := ⟨fuel - 1, by simp at hfuel; omega⟩
    have hnone : searchFrom constraintHead [] 0 f = none := by
      refine searchFrom_of_none fun s hs => leads_constraintHead.walk_eq_none fun hpre => ?_
      exact hf (hpre.isInfix.trans hs.isInfix)
    simp [readConstraintsFrom, printed, hnone]
  | cons x xs ih =>
    obtain ⟨fuel, rfl⟩ : ∃ n, fuel = n + 1 := ⟨fuel - 1, by simp at hfuel; omega⟩
    obtain ⟨hx, hxs⟩ := forall_mem_cons.1 hxs
    have hpass : ∀ a b, f = a ++ b → b ≠ [] → ∀ s : Spot,
        s.after = b ++ (x.1.head ++ (x.1.body ++ '\x7d' :: printed x.2 xs)) →
          walk constraintHead s some = none := fun a b hab hb s hs =>
      leads_constraintHead.walk_eq_none (hs ▸ not_prefix_filler (c := 'c') (r := "onstraint".toList)
        (by decide) (by decide) hf hab hb (x.1.prefix_head.trans (prefix_append _ _)))
    rw [printed_cons, readConstraintsFrom_block x.1 fuel hpass, ih hx hxs (by simpa using hfuel), map_cons]

/-- The text that the head of a block is read from. -/
theorem exists_head {w : List Char} {kept : List (Nat × List Char)}
    (h : Yields constraintHead [] w kept) {body : List Char} (hbody : BalancedFrom '\x7b' '\x7d' 0 body) :
    ∃ x : ConstraintText, w = x.head ∧ kept = [(1, x.name)] ∧ x.body = body := by
  rw [constraintHead, yields_assoc, yields_assoc, yields_assoc] at h
  obtain ⟨_, _, _, rfl, ⟨rfl, rfl⟩, gap, _, _, rfl, ⟨⟨hgap, hgap'⟩, rfl⟩, name, _, _, rfl,
    ⟨_, ⟨⟨hname, hname'⟩, rfl⟩, rfl⟩, space, _, _, rfl, ⟨⟨hspace, -⟩, rfl⟩, ⟨rfl, rfl⟩⟩ := h
  exact ⟨⟨gap, name, space, body, ne_nil_of_length_pos hgap', hgap, ne_nil_of_length_pos hname',
    hname, hspace, hbody⟩, rfl, rfl, rfl⟩

theorem exists_printed (fuel : Nat) (cs : List Char) :
    ∃ f xs, cs = printed f xs ∧ readConstraintsFrom fuel cs = xs.map fun x => x.1.constraint := by
  induction fuel generalizing cs with
  | zero => exact ⟨cs, [], by simp [printed], rfl⟩
  | succ fuel ih =>
    rw [readConstraintsFrom]
    split
    · exact ⟨cs, [], by simp [printed], rfl⟩
    · next a b hsearch =>
      obtain ⟨u, hcs, hyields⟩ := yields_of_searchFrom hsearch
      split
      · next inner rest hclosing =>
        obtain ⟨body, hafter, rfl, hbody⟩ := (closing?_eq_some (by decide)).1 hclosing
        obtain ⟨x, hhead, hpieces, rfl⟩ := exists_head hyields hbody
        obtain ⟨f, xs, rfl, hread⟩ := ih rest
        have hname : (Match.between a b).group 1 = String.ofList x.name := by
          rw [Match.group_eq, hpieces]
          rfl
        refine ⟨u, (x, f) :: xs, by rw [printed_cons, hcs, hhead, hafter], ?_⟩
        simp only [hread, hname, Match.text, hhead, x.ofText_eq, map_cons]
      · obtain ⟨f, xs, hrest, hread⟩ := ih b.after
        refine ⟨u ++ ((Match.between a b).chars ++ f), xs, ?_, hread⟩
        rw [hcs, hrest]
        simp [printed]

/-- Reading inverts printing, whatever the bodies hold. A text of any kind is printed from the blocks
that are read in it, so these stand in it one after the other. -/
theorem readConstraints_printed {f : List Char} {xs : List (ConstraintText × List Char)}
    (hf : ¬ "constraint".toList <:+: f) (hxs : ∀ x ∈ xs, ¬ "constraint".toList <:+: x.2) :
    readConstraints (String.ofList (printed f xs)) = xs.map (fun x => x.1.constraint) ∧
      ∀ text, ∃ f xs, text = String.ofList (printed f xs) ∧
        readConstraints text = xs.map fun x => x.1.constraint := by
  refine ⟨?_, fun text => ?_⟩
  · have hlength : xs.length ≤ (printed f xs).length := by
      clear hf hxs
      induction xs generalizing f with
      | nil => simp
      | cons x xs ih =>
        have := @ih x.2
        rw [printed_cons]
        simp only [List.length_append, List.length_cons]
        omega
    rw [readConstraints, String.toList_ofList, String.length_ofList]
    exact readConstraintsFrom_printed hf hxs (Nat.lt_succ_of_le hlength)
  · obtain ⟨f, xs, htext, hread⟩ := exists_printed (text.length + 1) text.toList
    exact ⟨f, xs, by rw [← htext, String.ofList_toList], hread⟩

private theorem blank_oneBlank : Blank [' '] := by decide

private theorem oneBlank_ne_nil : [' '] ≠ ([] : List Char) := by decide

/-- A block whose body looks like another block. -/
def nestedBlock : ConstraintText where
  gap := [' ']
  name := ['a']
  space := []
  body := " constraint b \x7b x; \x7d ".toList
  gap_ne_nil := oneBlank_ne_nil
  blank_gap := blank_oneBlank
  name_ne_nil := by decide
  word_name := by decide
  blank_space := by decide
  balanced := balancedFrom_of_closing? (by decide) (by decide)

theorem readConstraints_nestedBlock :
    String.ofList (printed "int i; ".toList [(nestedBlock, " int j;".toList)]) =
        "int i; constraint a\x7b constraint b \x7b x; \x7d \x7d int j;" ∧
      readConstraints (String.ofList (printed "int i; ".toList [(nestedBlock, " int j;".toList)])) =
        [nestedBlock.constraint] := by
  have hfree : ∀ f ∈ ["int i; ".toList, " int j;".toList], ¬ "constraint".toList <:+: f := by
    intro f hf
    refine Shuns.absent (shuns_of_check ?_) (by decide)
    revert f
    decide
  refine ⟨by decide, ?_⟩
  exact (readConstraints_printed (hfree _ (by simp)) (List.forall_mem_singleton.2 (hfree _ (by simp)))).1

end Stimulus.Sv
