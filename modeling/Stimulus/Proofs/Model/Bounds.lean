import Stimulus.Model.Basic
import Stimulus.Proofs.Override.Line

/-!
# Two readers of range constraints

A constraint block and a statement are each asked whether they only bound one field from both sides,
`v >= 1 && v <= 8`. The two readers take parentheses off in different ways. The reader of blocks fits
its pattern to the whole text, and the reader of statements only to its start.
-/

open List
open String (ofList toList_ofList)

namespace Stimulus.Model

open Text Pattern Sv Override

/-! ## Parentheses around a text -/

variable {c : Char} {s : String} {kept : List (Nat × List Char)} {set : Char → Bool}

section Parens

variable {u v w : List Char} {depth : Nat}

/-- The text has no parentheses. -/
def Unparenthesised (w : List Char) : Prop := '(' ∉ w ∧ ')' ∉ w

theorem isBalanced_cons (hopen : c ≠ '(') (hclose : c ≠ ')') (depth : Nat) (u : List Char) :
    isBalanced depth (c :: u) = isBalanced depth u := by
  rw [isBalanced.eq_def]
  split <;> simp_all

theorem isBalanced_of_not_mem {cs : List Char} (hopen : '(' ∉ cs) (hclose : ')' ∉ cs) (depth : Nat) :
    isBalanced depth cs = (depth == 0) := by
  induction cs with
  | nil => rfl
  | cons c cs ih =>
    obtain ⟨hc, hcs⟩ := not_or.1 (mem_cons.not.1 hopen)
    obtain ⟨hc', hcs'⟩ := not_or.1 (mem_cons.not.1 hclose)
    rw [isBalanced_cons (Ne.symm hc) (Ne.symm hc'), ih hcs hcs']

theorem isBalanced_append (hv : Unparenthesised v) (depth : Nat) (u : List Char) :
    isBalanced depth (u ++ v) = isBalanced depth u := by
  fun_induction isBalanced depth u with
  | case1 depth => exact isBalanced_of_not_mem hv.1 hv.2 depth
  | case2 depth u ih => exact ih
  | case3 u => rfl
  | case4 u depth ih => exact ih
  | case5 depth c u hopen hclose ih => rw [cons_append, isBalanced_cons hopen hclose, ih]

theorem isBalanced_append_left (hu : Unparenthesised u) (depth : Nat) (v : List Char) :
    isBalanced depth (u ++ v) = isBalanced depth v := by
  induction u with
  | nil => rfl
  | cons c u ih =>
    obtain ⟨hc, hu₁⟩ := not_or.1 (mem_cons.not.1 hu.1)
    obtain ⟨hc', hu₂⟩ := not_or.1 (mem_cons.not.1 hu.2)
    rw [cons_append, isBalanced_cons (Ne.symm hc) (Ne.symm hc'), ih ⟨hu₁, hu₂⟩]

theorem isBalanced_strip (u : List Char) :
    isBalanced 0 (strip (ofList u)).toList = isBalanced 0 u := by
  have hblank {b : List Char} (hb : Blank b) : Unparenthesised b :=
    ⟨fun h => absurd (hb _ h) (by decide), fun h => absurd (hb _ h) (by decide)⟩
  obtain ⟨a, b, hu, ha, hb⟩ := exists_dropEnds isBlank u
  rw [strip, toList_ofList, toList_ofList]
  nth_rewrite 2 [hu]
  rw [isBalanced_append_left (hblank ha), isBalanced_append (hblank hb)]

theorem isBalanced_concat (h : isBalanced depth u = true) :
    isBalanced (depth + 1) (u ++ [')']) = true := by
  fun_induction isBalanced depth u with
  | case1 depth =>
    obtain rfl : depth = 0 := by simpa using h
    rfl
  | case2 depth u ih => exact ih h
  | case3 u => cases h
  | case4 u depth ih => exact ih h
  | case5 depth c u hopen hclose ih =>
    rw [cons_append, isBalanced_cons hopen hclose]
    exact ih h

theorem closesLast_cons {d e : Int}
    (h : (if c = '(' then d + 1 else if c = ')' then d - 1 else d) = e) (he : e ≠ 0) :
    Stmt.closesLast d (c :: u) = Stmt.closesLast e u := by
  simp only [Stmt.closesLast, h]
  simp [he]

theorem closesLast_concat (h : isBalanced depth u = true) :
    Stmt.closesLast (depth + 1) (u ++ [')']) = true := by
  fun_induction isBalanced depth u with
  | case1 depth =>
    obtain rfl : depth = 0 := by simpa using h
    rfl
  | case2 depth u ih =>
    rw [cons_append, closesLast_cons (if_pos rfl) (by omega)]
    exact ih h
  | case3 u => cases h
  | case4 u depth ih =>
    rw [cons_append, closesLast_cons (e := depth + 1) (by simp) (by omega)]
    exact ih h
  | case5 depth c u hopen hclose ih =>
    rw [cons_append, closesLast_cons ((if_neg hopen).trans (if_neg hclose)) (by omega)]
    exact ih h

theorem exists_inner (h : (startsWith "(" s && endsWith ")" s) = true) :
    ∃ u, s.toList = '(' :: (u ++ [')']) ∧ slice 1 (s.length - 1) s = ofList u := by
  obtain ⟨hstart, hend⟩ := Bool.and_eq_true_iff.1 h
  rw [← String.ofList_toList (s := s)] at hstart hend
  obtain ⟨v, hv⟩ := startsWith_ofList.1 hstart
  obtain ⟨u, hu⟩ := endsWith_ofList.1 hend
  cases u with
  | nil => rw [← hv] at hu; cases hu
  | cons c u =>
    obtain ⟨rfl, -⟩ := List.cons.inj (hu.trans hv.symm)
    refine ⟨u, hu.symm, ?_⟩
    rw [slice, ← String.length_toList, ← hu]
    simp

theorem isBalanced_of_withoutParens {n : Nat} (hw : Unparenthesised w)
    (h : (Stmt.withoutParens n s).toList = w) : isBalanced 0 s.toList = true := by
  induction n generalizing s with
  | zero =>
    subst h
    exact isBalanced_of_not_mem hw.1 hw.2 0
  | succ n ih =>
    unfold Stmt.withoutParens at h
    split at h
    · next hs =>
      obtain ⟨u, hu, hslice⟩ := exists_inner (Bool.and_eq_true_iff.1 hs).1
      rw [hslice] at h
      have hinner := ih h
      rw [isBalanced_strip] at hinner
      rw [hu]
      exact isBalanced_concat hinner
    · subst h
      exact isBalanced_of_not_mem hw.1 hw.2 0

theorem withoutParens_eq_iff {n : Nat} (hw : Unparenthesised w) :
    (Stmt.withoutParens n s).toList = w ↔ (withoutOuterParens n s).toList = w := by
  induction n generalizing s with
  | zero => rfl
  | succ n ih =>
    rw [Stmt.withoutParens, withoutOuterParens]
    cases hs : startsWith "(" s && endsWith ")" s with
    | false => simp
    | true =>
      obtain ⟨u, hu, hslice⟩ := exists_inner hs
      have hne : s.toList ≠ w := fun h => hw.1 (h ▸ hu ▸ mem_cons_self)
      rw [hslice, toList_ofList, hu]
      cases hb : isBalanced 0 u with
      | true =>
        have hlast : Stmt.closesLast 0 ('(' :: (u ++ [')'])) = true := closesLast_concat hb
        simp [hlast, ih]
      | false =>
        refine iff_of_false (fun h => ?_) (by simpa using hne)
        split at h
        · have hinner := isBalanced_of_withoutParens hw h
          rw [isBalanced_strip, hb] at hinner
          cases hinner
        · exact hne h

end Parens

/-! ## Pairs of bounds -/

/-- A bound on `name` and one on `other`, with `&` or `&&` between them and blanks at will. -/
structure Bounds (mark mark' : String) (name a other b w : List Char) : Prop where
  words : IsWord name ∧ IsWord other
  numbers : IsNumber a ∧ IsNumber b
  text : ∃ amp more, (amp = "&&".toList ∨ amp = "&".toList) ∧ w = name ++ more ∧
    Spaced [mark.toList, a, amp, other, mark'.toList, b] [] more

section Pair

variable {mark mark' : String} {name a other b w z : List Char} {pieces : List (Nat × List Char)}

variable {kept' : List (Nat × List Char)} {v gap : List Char}

theorem yields_lastGap {p : Pattern} {u : List Char}
    (h : Yields (blanks ++ p) kept u kept') : ∃ gap w, Blank gap ∧ u = gap ++ w ∧ Yields p kept w kept' := by
  obtain ⟨gap, w, _, rfl, ⟨⟨hgap, -⟩, rfl⟩, hp⟩ := h
  exact ⟨gap, w, hgap, rfl, hp⟩

theorem yields_either
    (h : Yields (lit "&&" <|> lit "&") kept w kept') :
    (w = "&&".toList ∨ w = "&".toList) ∧ kept' = kept :=
  h.elim (fun h => ⟨.inl h.1, h.2⟩) fun h => ⟨.inr h.1, h.2⟩

theorem bounds_of_yields (h : Yields (Stmt.boundPair mark mark') [] w pieces) :
    ∃ name a other b, Bounds mark mark' name a other b w ∧
      pieces = [(4, b), (3, other), (2, a), (1, name)] := by
  simp only [Stmt.boundPair, yields_assoc] at h
  obtain ⟨name, _, _, rfl, ⟨_, ⟨⟨hname, hne⟩, rfl⟩, rfl⟩, h⟩ := h
  obtain ⟨g1, _, _, _, h1, rfl, ⟨rfl, rfl⟩, h⟩ := yields_gap h
  obtain ⟨g2, a, _, _, h2, rfl, ⟨_, ha, rfl⟩, h⟩ := yields_gap h
  obtain ⟨hlow, rfl⟩ := yields_signedDigits ha
  obtain ⟨g3, amp, _, _, h3, rfl, heither, h⟩ := yields_gap h
  obtain ⟨hamp, rfl⟩ := yields_either heither
  obtain ⟨g4, _, h4, rfl, hsecond⟩ := yields_lastGap h
  simp only [yields_assoc] at hsecond
  obtain ⟨other, _, _, rfl, ⟨_, ⟨⟨hother, hne'⟩, rfl⟩, rfl⟩, h⟩ := hsecond
  obtain ⟨g5, _, _, _, h5, rfl, ⟨rfl, rfl⟩, h⟩ := yields_gap h
  obtain ⟨g6, b, h6, rfl, _, hb, rfl⟩ := yields_lastGap h
  obtain ⟨hhigh, rfl⟩ := yields_signedDigits hb
  refine ⟨name, a, other, b, ⟨⟨⟨length_pos_iff.1 hne, hname⟩, length_pos_iff.1 hne', hother⟩,
    ⟨hlow, hhigh⟩, amp, _, hamp, rfl, ?_⟩, rfl⟩
  exact ⟨g1, _, h1, rfl, g2, _, h2, rfl, g3, _, h3, rfl, g4, _, h4, rfl, g5, _, h5, rfl, g6, [], h6,
    by simp, rfl⟩

/-- The pattern of a whole text that is a pair of bounds, without its end. -/
def wholePattern (mark mark' : String) : Pattern :=
  first ++ group 1 word ++ blanks ++ lit mark ++ blanks ++ group 2 signedDigits ++ blanks
    ++ (lit "&&" <|> lit "&") ++ blanks ++ same 1 ++ blanks ++ lit mark' ++ blanks
    ++ group 3 signedDigits

theorem bounds_of_yields_whole (h : Yields (wholePattern mark mark') [] w pieces) :
    ∃ name a b, Bounds mark mark' name a name b w ∧ pieces = [(3, b), (2, a), (1, name)] := by
  simp only [wholePattern, yields_assoc] at h
  obtain ⟨_, _, _, rfl, ⟨rfl, rfl⟩, name, _, _, rfl, ⟨_, ⟨⟨hname, hne⟩, rfl⟩, rfl⟩, h⟩ := h
  obtain ⟨g1, _, _, _, h1, rfl, ⟨rfl, rfl⟩, h⟩ := yields_gap h
  obtain ⟨g2, a, _, _, h2, rfl, ⟨_, ha, rfl⟩, h⟩ := yields_gap h
  obtain ⟨hlow, rfl⟩ := yields_signedDigits ha
  obtain ⟨g3, amp, _, _, h3, rfl, heither, h⟩ := yields_gap h
  obtain ⟨hamp, rfl⟩ := yields_either heither
  obtain ⟨g4, _, _, _, h4, rfl, ⟨⟨x, hx, rfl⟩, rfl⟩, hrest⟩ := yields_gap h
  obtain rfl : (1, name) = x := by simpa using hx
  obtain ⟨g5, _, _, _, h5, rfl, ⟨rfl, rfl⟩, h⟩ := yields_gap hrest
  obtain ⟨g6, b, h6, rfl, _, hb, rfl⟩ := yields_lastGap h
  obtain ⟨hhigh, rfl⟩ := yields_signedDigits hb
  have hword : IsWord name := ⟨length_pos_iff.1 hne, hname⟩
  refine ⟨name, a, b, ⟨⟨hword, hword⟩, ⟨hlow, hhigh⟩, amp, _, hamp, rfl, ?_⟩, rfl⟩
  exact ⟨g1, _, h1, rfl, g2, _, h2, rfl, g3, _, h3, rfl, g4, _, h4, rfl, g5, _, h5, rfl, g6, [], h6,
    by simp, rfl⟩

/-- The sign of a bound. -/
def IsMark (mark : String) : Prop := mark = ">=" ∨ mark = "<="

theorem IsMark.head (h : IsMark mark) (hset : set '>' = false ∧ set '<' = false) :
    ∀ c ∈ (mark.toList ++ z).head?, set c = false := by
  rcases h with rfl | rfl
  · simpa using hset.1
  · simpa using hset.2

theorem head_either {amp : List Char} (h : amp = "&&".toList ∨ amp = "&".toList)
    (hset : set '&' = false) : ∀ c ∈ (amp ++ z).head?, set c = false := by
  rcases h with rfl | rfl <;> simpa using hset

theorem reads_either {amp before : List Char}
    (h : amp = "&&".toList ∨ amp = "&".toList) (hz : ∀ c ∈ z.head?, (c == '&') = false) :
    Reads (lit "&&" <|> lit "&") before kept amp z kept := by
  rcases h with rfl | rfl
  · exact reads_lit.alt
  · intro s hb hk hs
    obtain ⟨t, ht, hst, hkt⟩ := reads_lit (l := "&") s hb hk hs
    have hfails : Fails (lit "&&") s := by
      refine fails_lit fun hpre => ?_
      rw [hs] at hpre
      obtain ⟨r, hr⟩ := hpre
      obtain ⟨-, hr⟩ := List.cons.inj (show '&' :: '&' :: r = '&' :: z from hr)
      exact absurd (hz '&' (hr ▸ rfl)) (by decide)
    exact ⟨t, hfails.alt ht, hst, hkt⟩

theorem head_other (hgap : Blank gap) (h : IsWord other) :
    ∀ c ∈ ((gap ++ (other ++ v)) ++ z).head?, (c == '&') = false := by
  refine head_gap_append hgap (fun c hc => ?_) (head_of_ne_nil h.ne_nil fun c hc => ?_) <;>
    refine beq_eq_false_iff_ne.2 ?_ <;> rintro rfl
  · revert hc
    decide
  · exact absurd (h.chars _ hc) (by decide)

theorem Bounds.reads (h : Bounds mark mark' name a other b w) (hm : IsMark mark) (hm' : IsMark mark')
    (hz : ∀ c ∈ z.head?, isDecimal c = false) :
    Reads (Stmt.boundPair mark mark') [] [] w z [(4, b), (3, other), (2, a), (1, name)] := by
  obtain ⟨⟨hname, hother⟩, ⟨ha, hb⟩, amp, _, hamp, rfl, g1, _, h1, rfl, g2, _, h2, rfl, g3, _, h3, rfl,
    g4, _, h4, rfl, g5, _, h5, rfl, g6, _, h6, rfl, rfl⟩ := h
  simp only [Stmt.boundPair, reads_assoc]
  refine ((reads_word hname (head_gap_append h1 isWordChar_of_isBlank
    (hm.head (by decide)))).group 1).seq ?_
  refine reads_gap h1 (hm.head (by decide)) reads_lit ?_
  refine reads_gap h2 ha.head ((ha.reads (head_gap_append h3 isDecimal_of_isBlank
    (head_either hamp (by decide)))).group 2) ?_
  refine reads_gap h3 (head_either hamp (by decide)) (reads_either hamp (head_other h4 hother)) ?_
  refine (reads_blanks h4 ?_).seq ?_
  · rw [append_assoc]
    exact head_word hother
  simp only [reads_assoc]
  refine ((reads_word hother (head_gap_append h5 isWordChar_of_isBlank
    (hm'.head (by decide)))).group 3).seq ?_
  refine reads_gap h5 (hm'.head (by decide)) reads_lit ?_
  rw [append_nil b]
  exact (reads_blanks h6 hb.head).seq ((hb.reads hz).group 4)

theorem Bounds.reads_whole (h : Bounds mark mark' name a name b w) (hm : IsMark mark)
    (hm' : IsMark mark') : Reads (wholeBounds mark mark') [] [] w [] [(3, b), (2, a), (1, name)] := by
  obtain ⟨⟨hname, -⟩, ⟨ha, hb⟩, amp, _, hamp, rfl, g1, _, h1, rfl, g2, _, h2, rfl, g3, _, h3, rfl,
    g4, _, h4, rfl, g5, _, h5, rfl, g6, _, h6, rfl, rfl⟩ := h
  simp only [wholeBounds, reads_assoc]
  rw [← nil_append (name ++ _)]
  refine reads_first.seq (((reads_word hname (head_gap_append h1 isWordChar_of_isBlank
    (hm.head (by decide)))).group 1).seq ?_)
  refine reads_gap h1 (hm.head (by decide)) reads_lit ?_
  refine reads_gap h2 ha.head ((ha.reads (head_gap_append h3 isDecimal_of_isBlank
    (head_either hamp (by decide)))).group 2) ?_
  refine reads_gap h3 (head_either hamp (by decide)) (reads_either hamp (head_other h4 hname)) ?_
  refine reads_gap h4 (head_word hname) (reads_same rfl) ?_
  refine reads_gap h5 (hm'.head (by decide)) reads_lit ?_
  exact reads_gap h6 hb.head ((hb.reads (by simp)).group 3) reads_last

theorem Bounds.head_mark (h : Bounds mark mark' name a other b w) (hm : IsMark mark) (z : List Char) :
    (((w ++ z).dropWhile isWordChar).dropWhile isBlank).head? = mark.toList.head? := by
  obtain ⟨⟨hname, -⟩, -, amp, _, -, rfl, g1, _, h1, rfl, -⟩ := h
  rw [append_assoc, (takeWhile_append_stop hname.chars (head_gap_append h1 isWordChar_of_isBlank
    (hm.head (by decide)))).2, append_assoc, dropWhile_blank_append h1,
    append_assoc, dropWhile_of_head (hm.head (by decide))]
  rcases hm with rfl | rfl <;> rfl

theorem spaced_extend {cs d : List Char} (ws : List (List Char)) (h : Spaced (ws ++ [b]) [] cs) :
    Spaced (ws ++ [b ++ d]) [] (cs ++ d) := by
  induction ws generalizing cs with
  | nil =>
    obtain ⟨gap, _, hgap, rfl, rfl⟩ := h
    exact ⟨gap, [], hgap, by simp, rfl⟩
  | cons w ws ih =>
    obtain ⟨gap, more, hgap, rfl, h⟩ := h
    exact ⟨gap, more ++ d, hgap, by simp, ih h⟩

theorem Bounds.extend {d : List Char} (h : Bounds mark mark' name a other b w)
    (hd : ∀ c ∈ d, isDecimal c = true) : Bounds mark mark' name a other (b ++ d) (w ++ d) := by
  obtain ⟨hwords, ⟨ha, sign, run, rfl, hsign, hne, hrun⟩, amp, more, hamp, rfl, hmore⟩ := h
  have hnumber : IsNumber (sign ++ run ++ d) := by
    refine ⟨sign, run ++ d, append_assoc _ _ _, hsign, by simp [hne], fun c hc => ?_⟩
    exact (mem_append.1 hc).elim (hrun c) (hd c)
  exact ⟨hwords, ⟨ha, hnumber⟩, amp, more ++ d, hamp, append_assoc _ _ _,
    spaced_extend [mark.toList, a, amp, other, mark'.toList] hmore⟩

theorem bounds_of_atStart? {m : Match}
    (h : (Stmt.boundPair mark mark').atStart? s = some m) (hm : IsMark mark) (hm' : IsMark mark') :
    ∃ name a other b w z, Bounds mark mark' name a other b w ∧ s.toList = w ++ z ∧
      (∀ c ∈ z.head?, isDecimal c = false) ∧ m.pieces = [(4, b), (3, other), (2, a), (1, name)] := by
  rw [← String.ofList_toList (s := s)] at h
  obtain ⟨w, z, hs, hw⟩ := yields_of_atStart? h
  obtain ⟨name, a, other, b, hbounds, -⟩ := bounds_of_yields hw
  -- Digits that the bound left behind belong to it.
  have hlong := hbounds.extend (d := z.takeWhile isDecimal) fun c hc => mem_takeWhile_imp hc
  have hcut : s.toList = (w ++ z.takeWhile isDecimal) ++ z.dropWhile isDecimal := by
    rw [append_assoc, takeWhile_append_dropWhile, hs]
  have hstop := head_dropWhile isDecimal z
  obtain ⟨m', hm', hpieces⟩ := (hlong.reads hm hm' hstop).atStart?
  rw [← hcut, h] at hm'
  obtain rfl := Option.some.inj hm'
  exact ⟨name, a, other, _, _, _, hlong, hcut, hstop, hpieces⟩

theorem bounds_of_atStart?_whole {m : Match} (hs : Trim s.toList)
    (h : (wholeBounds mark mark').atStart? s = some m) :
    ∃ name a b, Bounds mark mark' name a name b s.toList ∧ m.pieces = [(3, b), (2, a), (1, name)] := by
  obtain ⟨w, z, hw, hz, hyields⟩ := yields_of_whole (p := wholePattern mark mark') h
  obtain ⟨name, a, b, hbounds, hpieces⟩ := bounds_of_yields_whole hyields
  rcases hz with rfl | rfl
  · rw [hw, append_nil]
    exact ⟨name, a, b, hbounds, hpieces⟩
  · have := hs.last '\n' (by rw [hw]; simp)
    exact absurd this (by decide)

theorem mem_of_spaced {cs rest : List Char} {ws : List (List Char)} (h : Spaced ws rest cs)
    (hc : c ∈ cs) : isBlank c = true ∨ (∃ w ∈ ws, c ∈ w) ∨ c ∈ rest := by
  induction ws generalizing cs with
  | nil => exact .inr (.inr (h ▸ hc))
  | cons w ws ih =>
    obtain ⟨gap, more, hgap, rfl, h⟩ := h
    rcases mem_append.1 hc with hc | hc
    · exact .inl (hgap c hc)
    rcases mem_append.1 hc with hc | hc
    · exact .inr (.inl ⟨w, mem_cons_self, hc⟩)
    · refine (ih h hc).imp_right (Or.imp_left ?_)
      rintro ⟨w', hw', hc⟩
      exact ⟨w', mem_cons_of_mem _ hw', hc⟩

theorem not_mem_number (h : IsNumber a) (hsign : c ≠ '-') (hc : isDecimal c = false) : c ∉ a := by
  obtain ⟨sign, run, rfl, hs, -, hrun⟩ := h
  intro hmem
  rcases mem_append.1 hmem with hmem | hmem
  · rcases hs with rfl | rfl <;> simp_all
  · simp [hrun c hmem] at hc

theorem Bounds.unparenthesised (h : Bounds mark mark' name a other b w) (hm : IsMark mark)
    (hm' : IsMark mark') : Unparenthesised w := by
  have hnot (c : Char) (hc : c = '(' ∨ c = ')') : c ∉ w := by
    obtain ⟨⟨hname, hother⟩, ⟨ha, hb⟩, amp, more, hamp, rfl, hmore⟩ := h
    have hword {v : List Char} (hv : IsWord v) : c ∉ v := fun hmem =>
      absurd (hv.chars c hmem) (by rcases hc with rfl | rfl <;> decide)
    have hnumber {v : List Char} (hv : IsNumber v) : c ∉ v := by
      refine not_mem_number hv ?_ ?_ <;> rcases hc with rfl | rfl <;> decide
    have hmark {m : String} (hm : IsMark m) : c ∉ m.toList := by
      rcases hm with rfl | rfl <;> rcases hc with rfl | rfl <;> decide
    have hjoint : c ∉ amp := by
      rcases hamp with rfl | rfl <;> rcases hc with rfl | rfl <;> decide
    intro hmem
    rcases mem_append.1 hmem with hmem | hmem
    · exact hword hname hmem
    · rcases mem_of_spaced hmore hmem with hblank | ⟨v, hv, hmem⟩ | hnil
      · exact absurd hblank (by rcases hc with rfl | rfl <;> decide)
      · simp only [mem_cons, not_mem_nil, or_false] at hv
        rcases hv with rfl | rfl | rfl | rfl | rfl | rfl
        exacts [hmark hm hmem, hnumber ha hmem, hjoint hmem, hword hother hmem, hmark hm' hmem,
          hnumber hb hmem]
      · cases hnil
  exact ⟨hnot '(' (.inl rfl), hnot ')' (.inr rfl)⟩

end Pair

/-! ## Intervals -/

theorem isMark_low : IsMark ">=" := .inl rfl

theorem isMark_high : IsMark "<=" := .inr rfl

def IsInterval (v low high w : List Char) : Prop :=
  Bounds ">=" "<=" v low v high w ∨ Bounds "<=" ">=" v high v low w

/-- The line of a model for an interval. -/
def intervalLine (v low high : List Char) : String :=
  s!"self.{ofList v} in vsc.rangelist(vsc.rng({ofList low}, {ofList high}))"

section Interval

variable {v low high w z : List Char}

theorem not_bounds_both {name a other b name' a' other' b' w' y : List Char}
    (h : Bounds ">=" "<=" name a other b w) (h' : Bounds "<=" ">=" name' a' other' b' w') :
    w ++ z ≠ w' ++ y := by
  intro heq
  have := (h.head_mark isMark_low z).symm.trans ((congrArg (fun u => ((u.dropWhile isWordChar).dropWhile
    isBlank).head?) heq).trans (h'.head_mark isMark_high y))
  cases this

theorem IsInterval.unparenthesised (h : IsInterval v low high w) : Unparenthesised w :=
  h.elim (·.unparenthesised isMark_low isMark_high) (·.unparenthesised isMark_high isMark_low)

theorem IsInterval.rest_eq_nil {v' low' high' : List Char} (h : IsInterval v low high w)
    (hz : ∀ c ∈ z.head?, isDecimal c = false) (h' : IsInterval v' low' high' (w ++ z)) : z = [] := by
  have hsame {p : Pattern} {kept kept' : List (Nat × List Char)} (hp : Reads p [] [] w z kept)
      (hp' : Reads p [] [] (w ++ z) [] kept') : z = [] := by
    obtain ⟨m, hm, hafter, -⟩ := hp.exists_stop
    obtain ⟨m', hm', hafter', -⟩ := hp'.exists_stop
    rw [append_nil, hm] at hm'
    rw [← hafter, Option.some.inj hm', hafter']
  rcases h with h | h <;> rcases h' with h' | h'
  · exact hsame (h.reads isMark_low isMark_high hz) (h'.reads isMark_low isMark_high (by simp))
  · exact absurd (by simp) (not_bounds_both (z := z) (y := []) h h')
  · exact absurd (by simp) (not_bounds_both (z := []) (y := z) h' h)
  · exact hsame (h.reads isMark_high isMark_low hz) (h'.reads isMark_high isMark_low (by simp))

theorem boundsOf?_eq_some_iff {r : String × String × String} :
    Stmt.boundsOf? s = some r ↔ ∃ v low high w z, IsInterval v low high w ∧ s.toList = w ++ z ∧
      (∀ c ∈ z.head?, isDecimal c = false) ∧
        r = (ofList v, ofList low, ofList high) := by
  constructor
  · intro h
    rcases Option.or_eq_some_iff.1 h with h | ⟨-, h⟩
    all_goals
      obtain ⟨m, hm, hr⟩ := Option.bind_eq_some_iff.1 h
      obtain ⟨hsame, hr⟩ := Option.ite_none_right_eq_some.1 hr
    · obtain ⟨name, a, other, b, w, z, hw, hs, hz, hpieces⟩ := bounds_of_atStart? hm isMark_low isMark_high
      simp only [Match.group_eq, hpieces] at hsame hr
      obtain rfl : name = other := String.ofList_injective (by simpa using hsame)
      exact ⟨name, a, b, w, z, .inl hw, hs, hz, by simpa using hr.symm⟩
    · obtain ⟨name, a, other, b, w, z, hw, hs, hz, hpieces⟩ := bounds_of_atStart? hm isMark_high isMark_low
      simp only [Match.group_eq, hpieces] at hsame hr
      obtain rfl : name = other := String.ofList_injective (by simpa using hsame)
      exact ⟨name, b, a, w, z, .inr hw, hs, hz, by simpa using hr.symm⟩
  · rintro ⟨v, low, high, w, z, hw | hw, hs, hz, rfl⟩
    · obtain ⟨m, hm, hpieces⟩ := (hw.reads isMark_low isMark_high hz).atStart?
      rw [← hs, String.ofList_toList] at hm
      simp [Stmt.boundsOf?, hm, Match.group_eq, hpieces]
    · have hrising : (Stmt.boundPair ">=" "<=").atStart? s = none := by
        refine Option.eq_none_iff_forall_ne_some.2 fun m hm => ?_
        obtain ⟨_, _, _, _, w', z', hw', hs', -, -⟩ := bounds_of_atStart? hm isMark_low isMark_high
        exact not_bounds_both hw' hw (hs'.symm.trans hs)
      obtain ⟨m, hm, hpieces⟩ := (hw.reads isMark_high isMark_low hz).atStart?
      rw [← hs, String.ofList_toList] at hm
      simp [Stmt.boundsOf?, hrising, hm, Match.group_eq, hpieces]

theorem trim_withoutOuterParens {n : Nat} (h : Trim s.toList) :
    Trim (withoutOuterParens n s).toList := by
  induction n generalizing s with
  | zero => exact h
  | succ n ih =>
    rw [withoutOuterParens]
    split
    · exact ih (trim_strip _)
    · exact h

theorem groups_of_pieces {m : Match} {a b : List Char} (h : m.pieces = [(3, b), (2, a), (1, v)]) :
    m.group 1 = ofList v ∧ m.group 2 = ofList a ∧ m.group 3 = ofList b := by
  simp [Match.group_eq, h]

theorem rangeOnly?_eq_some_iff {body line : String} :
    rangeOnly? body = some line ↔
      ∃ v low high, IsInterval v low high (withoutOuterParens (Stmt.bare body).length (Stmt.bare body)).toList ∧
        line = intervalLine v low high := by
  have htrim : Trim (withoutOuterParens (Stmt.bare body).length (Stmt.bare body)).toList :=
    trim_withoutOuterParens (trim_strip _)
  unfold rangeOnly?
  dsimp only
  generalize withoutOuterParens (Stmt.bare body).length (Stmt.bare body) = core at htrim ⊢
  constructor
  · intro h
    split at h
    · next m hm =>
      obtain ⟨v, a, b, hw, hpieces⟩ := bounds_of_atStart?_whole htrim hm
      obtain ⟨h1, h2, h3⟩ := groups_of_pieces hpieces
      rw [h1, h2, h3] at h
      exact ⟨v, a, b, .inl hw, (Option.some.inj h).symm⟩
    · obtain ⟨m, hm, h⟩ := Option.map_eq_some_iff.1 h
      obtain ⟨v, a, b, hw, hpieces⟩ := bounds_of_atStart?_whole htrim hm
      obtain ⟨h1, h2, h3⟩ := groups_of_pieces hpieces
      rw [h1, h2, h3] at h
      exact ⟨v, b, a, .inr hw, h.symm⟩
  · rintro ⟨v, low, high, hw | hw, rfl⟩
    · obtain ⟨m, hm, hpieces⟩ := (hw.reads_whole isMark_low isMark_high).atStart?
      rw [append_nil, String.ofList_toList] at hm
      obtain ⟨h1, h2, h3⟩ := groups_of_pieces hpieces
      rw [hm, intervalLine, ← h1, ← h2, ← h3]
    · have hrising : (wholeBounds ">=" "<=").atStart? core = none := by
        refine Option.eq_none_iff_forall_ne_some.2 fun m hm => ?_
        obtain ⟨_, _, _, hw', -⟩ := bounds_of_atStart?_whole htrim hm
        exact not_bounds_both (z := []) (y := []) hw' hw rfl
      obtain ⟨m, hm, hpieces⟩ := (hw.reads_whole isMark_high isMark_low).atStart?
      rw [append_nil, String.ofList_toList] at hm
      obtain ⟨h1, h2, h3⟩ := groups_of_pieces hpieces
      rw [hrising, hm, intervalLine, ← h1, ← h2, ← h3]
      rfl

end Interval

/-- A block is a range if without its outer parentheses it is an interval, and a statement is one if
it starts with an interval. The readers agree exactly if nothing follows the bounds. -/
theorem rangeReaders_agree_iff (scope : Expr.Scope) (s : String) :
    let t := Stmt.bare s
    let core := (Stmt.withoutParens t.length t).toList
    (∀ line, rangeOnly? s = some line ↔
      ∃ v low high, IsInterval v low high core ∧ line = intervalLine v low high) ∧
    (∀ lines, Stmt.range? scope t = some lines ↔
      ∃ v low high w z, IsInterval v low high w ∧ core = w ++ z ∧ (∀ c ∈ z.head?, isDecimal c = false) ∧
        lines = [intervalLine v low high]) ∧
    (Stmt.range? scope t = (rangeOnly? s).map ([·]) ↔
      ∀ v low high w z, IsInterval v low high w → core = w ++ z →
        (∀ c ∈ z.head?, isDecimal c = false) → z = []) := by
  intro t core
  have hblock (line : String) : rangeOnly? s = some line ↔
      ∃ v low high, IsInterval v low high core ∧ line = intervalLine v low high := by
    rw [rangeOnly?_eq_some_iff]
    constructor
    · rintro ⟨v, low, high, h, rfl⟩
      have hcore : core = _ := (withoutParens_eq_iff h.unparenthesised).2 rfl
      exact ⟨v, low, high, hcore ▸ h, rfl⟩
    · rintro ⟨v, low, high, h, rfl⟩
      have hcore := (withoutParens_eq_iff h.unparenthesised).1 rfl
      exact ⟨v, low, high, hcore.symm ▸ h, rfl⟩
  have hstatement (lines : List String) : Stmt.range? scope t = some lines ↔
      ∃ v low high w z, IsInterval v low high w ∧ core = w ++ z ∧ (∀ c ∈ z.head?, isDecimal c = false) ∧
        lines = [intervalLine v low high] := by
    have hstrip : strip t = t := strip_strip _
    simp only [Stmt.range?, hstrip, Option.map_eq_some_iff, boundsOf?_eq_some_iff]
    constructor
    · rintro ⟨_, ⟨v, low, high, w, z, hw, hs, hz, rfl⟩, rfl⟩
      exact ⟨v, low, high, w, z, hw, hs, hz, rfl⟩
    · rintro ⟨v, low, high, w, z, hw, hs, hz, rfl⟩
      exact ⟨_, ⟨v, low, high, w, z, hw, hs, hz, rfl⟩, rfl⟩
  refine ⟨hblock, hstatement, fun hagree v low high w z hw hcore hz => ?_, fun hends => ?_⟩
  · have hfound := (hstatement _).2 ⟨v, low, high, w, z, hw, hcore, hz, rfl⟩
    rw [hagree] at hfound
    obtain ⟨line, hline, -⟩ := Option.map_eq_some_iff.1 hfound
    obtain ⟨v', low', high', hwhole, -⟩ := (hblock line).1 hline
    exact hw.rest_eq_nil hz (hcore ▸ hwhole)
  · cases hfound : Stmt.range? scope t with
    | none =>
      cases hline : rangeOnly? s with
      | none => rfl
      | some line =>
        obtain ⟨v, low, high, hw, rfl⟩ := (hblock line).1 hline
        have := (hstatement _).2 ⟨v, low, high, core, [], hw, by simp, by simp, rfl⟩
        rw [hfound] at this
        cases this
    | some lines =>
      obtain ⟨v, low, high, w, z, hw, hcore, hz, rfl⟩ := (hstatement lines).1 hfound
      obtain rfl := hends v low high w z hw hcore hz
      rw [List.append_nil] at hcore
      rw [(hblock _).2 ⟨v, low, high, hcore ▸ hw, rfl⟩]
      rfl

end Stimulus.Model
