import Stimulus.Proofs.Stmt.Conditional
import Stimulus.Stmt.Basic

/-!
# The form of a statement

Which form is recognised in the text of a statement: each kind of statement is recognised as what it
is.
-/

open List
open String (ofList toList_ofList)

namespace Stimulus.Stmt

open Text Sv Pattern Expr

variable {s : Spot} {k : Spot → Option Spot} {cs z w : List Char} {c : Char}

/-! ## Patterns that need a character -/

theorem needs_insideSet (n : Nat) : Needs (insideSet n) '{' :=
  ((needs_lit (by decide)).right.left).left

theorem walk_blanks1_none
    (h : ∀ c ∈ s.after.head?, isBlank c = false) : walk blanks1 s k = none := by
  rw [blanks1, walk_run_eq (w := []) (z := s.after) (by simp) (by simp) h]
  rfl

theorem walk_keyword_none (h : OpensWithName s.after) (kw : String)
    (hkw : kw.toList ∈ keywords) (k : Spot → Option Spot) :
    walk (lit kw) s (fun t => walk blanks1 t k) = none := by
  by_cases hp : kw.toList <+: s.after
  · obtain ⟨t, ht⟩ := hp
    rw [walk_lit ht.symm]
    refine walk_blanks1_none fun c hc => ?_
    by_contra hb
    refine h.not_keyword hkw (t := t) (fun d hd => ?_) ht.symm
    obtain rfl : c = d := Option.some.inj (hc.symm.trans hd)
    exact nameTail_of_isBlank (by simpa using hb)
  · exact walk_lit_none hp

section Braceless

variable {cs : List Char} (scope : Scope)

theorem solveBefore?_none (h : OpensWithName cs) : solveBefore? scope (ofList cs) = none := by
  have hwalk := walk_keyword_none (s := Spot.start cs) h "solve" (by decide)
  simp only [solveBefore?, atStart?, toList_ofList, walk_append, hwalk]
  rfl

theorem soft?_none (h : OpensWithName cs) : soft? scope (ofList cs) = none := by
  have hwalk := walk_keyword_none (s := Spot.start cs) h "soft" (by decide)
  simp only [soft?, atStart?, toList_ofList, walk_append, hwalk]
  rfl

variable (hb : '{' ∉ cs)

include hb

theorem unique?_none : unique? scope (ofList cs) = none := by
  rw [unique?, atStart?_of_needs (((needs_lit (by decide)).right.left).left) hb]
  rfl

theorem leadingForms_none (h : OpensWithName cs) :
    firstForm? leadingForms scope (ofList cs) = none := by
  simp [firstForm?, leadingForms, solveBefore?_none, soft?_none, h, unique?_none scope hb]

omit scope in
theorem loopHead_none : loopHead.atStart? (ofList cs) = none :=
  atStart?_of_needs (((needs_lit (by decide)).right.left).left) hb

theorem valueForms_braceless :
    firstForm? valueForms scope (ofList cs) = implies? scope (ofList cs) := by
  have hdist : distribution? scope (ofList cs) = none := by
    rw [distribution?, atStart?_of_needs (((needs_lit (by decide)).right.left).left) hb]
    rfl
  have hslice : sliceInside? scope (ofList cs) = none := by
    rw [sliceInside?, atStart?_of_needs (needs_insideSet 5).right hb]
    rfl
  have hparen : parenInside? scope (ofList cs) = none := by
    rw [parenInside?, atStart?_of_needs (needs_insideSet 2).right hb]
    rfl
  have hinside : inside? scope (ofList cs) = none := by
    rw [inside?, atStart?_of_needs (needs_insideSet 2).right hb]
    rfl
  have hnot : notInside? scope (ofList cs) = none := by
    rw [notInside?, atStart?_of_needs ((needs_insideSet 2).right.left.left) hb]
    rfl
  have hsliceArrow : impliesSliceInside? scope (ofList cs) = none := by
    rw [impliesSliceInside?, atStart?_of_needs ((needs_insideSet 5).right.left.left) hb]
    rfl
  have harrow : impliesInside? scope (ofList cs) = none := by
    rw [impliesInside?, atStart?_of_needs ((needs_insideSet 3).right.left.left) hb]
    rfl
  simp [firstForm?, valueForms, hdist, hslice, hparen, hinside, hnot, hsliceArrow, harrow]

end Braceless

/-! ## Comparisons -/

theorem implies?_none (scope : Scope) (h : '-' ∉ cs) :
    implies? scope (ofList cs) = none := by
  have hneeds : Needs (impliesHead ++ group 2 someGreedy) '-' :=
    (((needs_lit (by decide)).right).left).left
  rw [implies?, atStart?_of_needs hneeds h]
  rfl

theorem withoutParens_of_head (h : ∀ c ∈ cs.head?, c ≠ '(') (fuel : Nat) :
    withoutParens fuel (ofList cs) = ofList cs := by
  cases fuel with
  | zero => rfl
  | succ fuel =>
    have hstart : startsWith "(" (ofList cs) = false := by
      rw [← Bool.not_eq_true, startsWith_ofList]
      rintro ⟨t, rfl⟩
      exact h '(' (by simp) rfl
    rw [withoutParens, hstart]
    rfl

theorem boundsOf?_none (h : '&' ∉ cs) : boundsOf? (ofList cs) = none := by
  have hsign : Needs (lit "&&" <|> lit "&") '&' := by
    rintro w (hw | hw)
    · exact needs_lit (by decide) w hw
    · exact needs_lit (by decide) w hw
  have hpair : ∀ first second, (boundPair first second).atStart? (ofList cs) = none :=
    fun first second => atStart?_of_needs (hsign.right.left.left) h
  simp [boundsOf?, hpair]

theorem trailingForms_none (scope : Scope) (htrim : Trim cs)
    (hhead : ∀ c ∈ cs.head?, c ≠ '(') (hdot : '.' ∉ cs) (hand : '&' ∉ cs) :
    firstForm? trailingForms scope (ofList cs) = none := by
  have hsize : arraySize? scope (ofList cs) = none := by
    rw [arraySize?, atStart?_of_needs ((needs_lit (by decide)).right.left.left.left.left) hdot]
    rfl
  have hrange : range? scope (ofList cs) = none := by
    simp only [range?]
    rw [strip_of_trim htrim, withoutParens_of_head hhead, boundsOf?_none hand]
    rfl
  simp [firstForm?, trailingForms, hsize, hrange]

/-! ## Implications -/

theorem walk_arrow_none
    (h : ∀ c ∈ (s.after.dropWhile isBlank).head?, c ≠ '-') :
    walk blanks s (fun t => walk (lit "->") t k) = none := by
  have hblank : ∀ c ∈ s.after.takeWhile isBlank, isBlank c = true := fun c hc =>
    mem_takeWhile_imp hc
  refine walk_run_none (takeWhile_append_dropWhile).symm hblank (head_dropWhile isBlank _)
    fun u v huv _ => ?_
  · refine walk_lit_none fun ⟨t, ht⟩ => ?_
    have ht : '-' :: '>' :: t = v ++ s.after.dropWhile isBlank := ht
    cases v with
    | nil => exact h '-' (by rw [← ht.trans (nil_append _)]; rfl) rfl
    | cons c v =>
      obtain ⟨rfl, -⟩ := cons_eq_cons.1 ht
      have := hblank '-' (by rw [huv]; simp)
      revert this
      decide

/-- What comes first after blanks, if not all of the text `v` is blank. -/
theorem head_after_blanks {v : List Char} (h : ∃ d ∈ v, isBlank d = false) :
    ∀ c ∈ ((v ++ z).dropWhile isBlank).head?, c ∈ v := by
  obtain ⟨d, hd, hblank⟩ := h
  have hne : v.dropWhile isBlank ≠ [] := by
    rw [Ne, dropWhile_eq_nil_iff]
    exact fun hall => by simp [hall d hd] at hblank
  intro c hc
  rw [dropWhile_append, if_neg (by simpa using hne), head?_append_of_ne_nil _ hne] at hc
  exact (dropWhile_sublist isBlank).subset (mem_of_mem_head? hc)

/-- The sides of an implication, and where they were found. -/
def sides (a b : List Char) : Match :=
  ⟨[], arrowed a b, [], 0, [(2, ⟨b, b.length⟩), (1, ⟨arrowed a b, a.length⟩)]⟩

theorem ne_newline (h : '\n' ∉ cs) : ∀ c ∈ cs, notNewline c = true := by
  intro c hc
  rw [notNewline, bne_iff_ne]
  rintro rfl
  exact h hc

theorem atStart?_arrowed {a b : List Char} (ha : Trim a) (hane : a ≠ []) (haline : '\n' ∉ a)
    (haminus : '-' ∉ a) (hb : Trim b) (hbne : b ≠ []) (hbline : '\n' ∉ b) :
    (impliesHead ++ group 2 someGreedy).atStart? (ofList (arrowed a b)) =
      some (sides a b) := by
  have hwalk : walk (impliesHead ++ group 2 someGreedy) (Spot.start (arrowed a b ++ [])) some =
      some ⟨(arrowed a b).reverse, [], (arrowed a b).length, (sides a b).kept⟩ := by
    rw [walk_append, impliesHead, walk_append, walk_append, walk_append, walk_group]
    refine walk_creep (w := a) (z := [' ', '-', '>', ' '] ++ b) (by simp [Spot.start, arrowed])
      (ne_newline haline) (length_pos_iff.2 hane) ?_ fun u v huv hv _ => ?_
    · refine walk_run (w := [' ']) (z := ['-', '>', ' '] ++ b) (by simp [Spot.keep]) (by decide)
        (by simp; decide) (by simp) ?_
      rw [walk_lit (z := ' ' :: b) (by simp [Spot.keep])]
      refine walk_run (w := [' ']) (z := b) (by simp [Spot.keep]) (by decide) hb.head (by simp) ?_
      rw [walk_group]
      refine walk_run (w := b) (z := []) (by simp [Spot.keep]) (ne_newline hbline) (by simp)
        (length_pos_iff.2 hbne) ?_
      simp [Spot.keep, Spot.pass, Spot.start, sides, arrowed]
      omega
    · obtain ⟨x, d, rfl⟩ := (eq_nil_or_concat v).resolve_left hv
      have hlast : isBlank d = false := ha.last d (by simp [huv])
      refine walk_arrow_none fun c hc => ?_
      rintro rfl
      have := head_after_blanks ⟨d, by simp, hlast⟩ _ hc
      exact haminus (huv ▸ mem_append_right u this)
  have := atStart?_of_walk hwalk
  rwa [append_nil] at this

theorem implies?_arrowed (scope : Scope) (a b : Relation) :
    implies? scope (ofList (arrowed a.text b.text)) = some
      [s!"with vsc.implies({Expr.convert scope (ofList a.text) true}):",
        s!"    {Expr.convert scope (ofList b.text)}"] := by
  have ha := a.formula.starts_text.ne_nil
  have hb := b.formula.starts_text.ne_nil
  rw [implies?, atStart?_arrowed a.trim_text ha (not_mem_relation (by decide) (by decide) a)
    (not_mem_relation (by decide) (by decide) a) b.trim_text hb
    (not_mem_relation (by decide) (by decide) b), Option.map_some, implication]
  have h1 : (sides a.text b.text).group 1 = ofList a.text := by
    simp [sides, Match.group, Match.group?, Piece.chars, arrowed]
  have h2 : (sides a.text b.text).group 2 = ofList b.text := by
    simp [sides, Match.group, Match.group?, Piece.chars]
  rw [h1, h2, strip_of_trim a.trim_text, strip_of_trim b.trim_text]

/-! ## Loops -/

theorem walk_bulk {r : Spot}
    (h : s.after = w ++ [c]) (hw : w ≠ []) (hend : k (s.pass (w ++ [c]) []) = none)
    (hk : k (s.pass w [c]) = some r) : walk bulk s k = some r := by
  have hpos := length_pos_iff.2 hw
  rw [bulk, walk_run_eq (w := w ++ [c]) (z := []) (by simp [h]) (by simp) (by simp),
    if_neg (by simp), length_append, length_singleton, Nat.add_sub_cancel]
  obtain ⟨n, hn⟩ := Nat.exists_eq_add_of_lt hpos
  rw [hn, Nat.zero_add, giveBack, hend, Spot.retreat_pass_concat]
  exact giveBack_some hk

section Loop

variable (x i : Name) (inner : List Char)

/-- The text of a loop after its index. -/
def loopEnd : List Char := ']' :: ')' :: ' ' :: '{' :: (inner ++ ['}'])

/-- The text of a loop. -/
def loopText : List Char :=
  loopWord ++ '(' :: (x.ident.chars ++ '[' :: (i.ident.chars ++ loopEnd inner))

/-- The parts of a loop, and where they were found. -/
def loopParts : Match :=
  ⟨[], loopText x i inner, [], 0,
    [(3, ⟨inner ++ ['}'], inner.length⟩),
      (2, ⟨i.ident.chars ++ loopEnd inner, i.ident.chars.length⟩),
      (1, ⟨x.ident.chars ++ '[' :: (i.ident.chars ++ loopEnd inner), x.ident.chars.length⟩)]⟩

theorem loopHead_text (hne : inner ≠ []) :
    loopHead.atStart? (ofList (loopText x i inner)) = some (loopParts x i inner) := by
  have hx := x.ident.isPlain.isWord
  have hi := i.ident.isPlain.isWord
  have hwalk : walk loopHead (Spot.start (loopText x i inner ++ [])) some =
      some ⟨(loopText x i inner).reverse, [], (loopText x i inner).length,
        (loopParts x i inner).kept⟩ := by
    simp only [loopHead, walk_append, walk_group, append_nil]
    rw [walk_lit (z := ' ' :: '(' :: (x.ident.chars ++ '[' :: (i.ident.chars ++ loopEnd inner))) rfl]
    refine walk_run (w := [' ']) (z := '(' :: (x.ident.chars ++ _)) rfl (by decide) (by simp; decide)
      (by simp) ?_
    rw [walk_lit (z := x.ident.chars ++ '[' :: (i.ident.chars ++ loopEnd inner)) rfl]
    refine walk_run (w := x.ident.chars) rfl hx.chars (by simp; decide)
      (length_pos_iff.2 hx.ne_nil) ?_
    refine walk_run (w := []) (z := '[' :: _) rfl (by simp) (by simp; decide) (by simp) ?_
    rw [walk_lit (z := i.ident.chars ++ loopEnd inner) rfl]
    refine walk_run (w := i.ident.chars) rfl hi.chars (by simp [loopEnd]; decide)
      (length_pos_iff.2 hi.ne_nil) ?_
    rw [walk_lit (z := ' ' :: '{' :: (inner ++ ['}'])) rfl]
    refine walk_run (w := [' ']) (z := '{' :: (inner ++ ['}'])) rfl (by decide) (by simp; decide)
      (by simp) ?_
    rw [walk_lit (z := inner ++ ['}']) rfl]
    refine walk_bulk rfl hne (walk_lit_none (by simp [Spot.keep])) ?_
    rw [walk_lit (z := []) rfl]
    simp [Spot.keep, Spot.pass, Spot.start, loopParts, loopText, loopWord, loopEnd]
    omega
  have := atStart?_of_walk hwalk
  rwa [append_nil] at this

theorem group_loopParts : (loopParts x i inner).group 1 = ofList x.ident.chars ∧
    (loopParts x i inner).group 2 = ofList i.ident.chars ∧
      (loopParts x i inner).group 3 = ofList inner := by
  simp [loopParts, Match.group, Match.group?, Piece.chars]

end Loop

/-! ## Conditionals -/

theorem walk_impliesHead_none {line rest : List Char} (h : s.after = line ++ '\n' :: rest)
    (hline : Free arrows line) (hrest : ∀ c ∈ (rest.dropWhile isBlank).head?, c ≠ '-')
    (k : Spot → Option Spot) : walk impliesHead s k = none := by
  refine walk_eq_none fun w hw => ?_
  obtain ⟨u, b, rfl, ⟨v, w, rfl, ⟨x, a, rfl, hx, ha⟩, rfl⟩, hb⟩ := hw
  rintro ⟨t, ht⟩
  have hnl : '\n' ∉ x := fun hmem => by simpa [notNewline] using hx.1 _ hmem
  rw [h] at ht
  obtain ⟨y, rfl⟩ : x <+: line := prefix_append_cons hnl ⟨_, by simpa using ht⟩
  have harrow : a ++ '-' :: '>' :: (b ++ t) = y ++ '\n' :: rest := by simpa using ht
  rcases append_eq_append_iff.1 harrow with ⟨m, rfl, hm⟩ | ⟨m, rfl, hm⟩
  · -- the arrow stands in the line
    match m with
    | [] | [d] => simp at hm
    | d :: e :: m =>
      obtain ⟨rfl, rfl, -⟩ : '-' = d ∧ '>' = e ∧ b ++ t = m ++ '\n' :: rest := by simpa using hm
      exact hline _ mem_cons_self ⟨x ++ a, m, by simp⟩
  · -- only blanks stand before it
    cases m with
    | nil => simp at hm
    | cons d m =>
      obtain ⟨rfl, rfl⟩ : '\n' = d ∧ rest = m ++ '-' :: '>' :: (b ++ t) := by simpa using hm
      have hblank : Blank m := fun d hd => ha.1 d (by simp [hd])
      exact hrest '-' (by rw [dropWhile_blank_append hblank]; rfl) rfl

theorem not_prefix_of_head (hw : w.head? = some c)
    (h : ∀ d ∈ cs.head?, d ≠ c) : ¬ w <+: cs := by
  rintro ⟨t, rfl⟩
  exact h c (by rw [head?_append, hw]; rfl) rfl

theorem leadingForms_of_head (scope : Scope) (hs : ∀ c ∈ cs.head?, c ≠ 's')
    (hu : ∀ c ∈ cs.head?, c ≠ 'u') : firstForm? leadingForms scope (ofList cs) = none := by
  have hsolve : solveBefore? scope (ofList cs) = none := by
    simp only [solveBefore?, atStart?, toList_ofList, walk_append]
    rw [walk_lit_none (not_prefix_of_head (c := 's') rfl hs)]
    rfl
  have hsoft : soft? scope (ofList cs) = none := by
    simp only [soft?, atStart?, toList_ofList, walk_append]
    rw [walk_lit_none (not_prefix_of_head (c := 's') rfl hs)]
    rfl
  have hunique : unique? scope (ofList cs) = none := by
    simp only [unique?, atStart?, toList_ofList, walk_append]
    rw [walk_lit_none (not_prefix_of_head (c := 'u') rfl hu)]
    rfl
  simp [firstForm?, leadingForms, hsolve, hsoft, hunique]

theorem atStart?_of_walk_none {p : Pattern}
    (h : walk p (Spot.start cs) some = none) : p.atStart? (ofList cs) = none := by
  rw [atStart?, toList_ofList, h]
  rfl

theorem valueForms_cond (scope : Scope) {line rest : List Char}
    (hz : ifWord ++ '(' :: z = line ++ '\n' :: rest) (hline : Free arrows line)
    (hrest : ∀ c ∈ (rest.dropWhile isBlank).head?, c ≠ '-') :
    firstForm? valueForms scope (ofList (ifWord ++ '(' :: z)) = none := by
  have harrow : ∀ k, walk impliesHead (Spot.start (ifWord ++ '(' :: z)) k = none :=
    walk_impliesHead_none hz hline hrest
  have hdist : distribution? scope (ofList (ifWord ++ '(' :: z)) = none :=
    Option.map_eq_none_iff.2 (atStart?_of_walk_none rfl)
  have hslice : sliceInside? scope (ofList (ifWord ++ '(' :: z)) = none :=
    Option.map_eq_none_iff.2 (atStart?_of_walk_none rfl)
  have hparen : parenInside? scope (ofList (ifWord ++ '(' :: z)) = none :=
    Option.map_eq_none_iff.2 (atStart?_of_walk_none rfl)
  have hinside : inside? scope (ofList (ifWord ++ '(' :: z)) = none :=
    Option.map_eq_none_iff.2 (atStart?_of_walk_none rfl)
  have hnot : notInside? scope (ofList (ifWord ++ '(' :: z)) = none :=
    Option.map_eq_none_iff.2 (atStart?_of_walk_none rfl)
  have hsliceArrow : impliesSliceInside? scope (ofList (ifWord ++ '(' :: z)) = none :=
    Option.map_eq_none_iff.2 (atStart?_of_walk_none (harrow _))
  have hinsideArrow : impliesInside? scope (ofList (ifWord ++ '(' :: z)) = none :=
    Option.map_eq_none_iff.2 (atStart?_of_walk_none (harrow _))
  have himplies : implies? scope (ofList (ifWord ++ '(' :: z)) = none :=
    Option.map_eq_none_iff.2 (atStart?_of_walk_none (harrow _))
  simp only [firstForm?, valueForms, findSome?_cons, findSome?_nil, hdist, hslice, hparen,
    hinside, hnot, hsliceArrow, hinsideArrow, himplies]

theorem atStart?_blanks {p : Pattern} (h : ∀ c ∈ cs.head?, isBlank c = false) :
    (blanks ++ p).atStart? (ofList cs) = p.atStart? (ofList cs) := by
  have hwalk : walk (blanks ++ p) (Spot.start cs) some = walk p (Spot.start cs) some := by
    rw [walk_append, blanks, walk_run_eq (w := []) (z := cs) rfl (by simp) h]
    rfl
  rw [atStart?, atStart?, toList_ofList, hwalk]

/-! ## Statements in a loop -/

theorem elementInside_none (hw : '[' ∉ w) (hc : isWordChar c = false)
    (hne : c ≠ '[') (index : String) :
    (elementInside index).atStart? (ofList (w ++ c :: z)) = none := by
  refine atStart?_eq_none fun x hx => ?_
  obtain ⟨u, v, rfl, ⟨u, b, rfl, ⟨u, e, rfl, hu, rfl⟩, hb⟩, hv⟩ := hx
  rintro ⟨t, ht⟩
  have hopen : (toString "[" ++ toString index ++ toString "]").toList =
      '[' :: (index.toList ++ [']']) := by simp [toString]
  rw [hopen, append_assoc, append_assoc, append_assoc] at ht
  rcases append_eq_append_iff.1 ht with ⟨y, rfl, hy⟩ | ⟨y, rfl, hy⟩
  · cases y with
    | nil => exact hne (cons_eq_cons.1 hy).1.symm
    | cons d y =>
      obtain ⟨rfl, -⟩ := cons_eq_cons.1 hy
      exact hw (by simp)
  · cases y with
    | nil => exact hne (cons_eq_cons.1 hy).1
    | cons d y =>
      obtain ⟨rfl, -⟩ := cons_eq_cons.1 hy
      simp [hu.1 c (by simp)] at hc

theorem elementInside_chars (l : Layout) (n : Nat) (s : Sv.Stmt) (index : String) :
    (elementInside index).atStart? (ofList (s.chars l n)) = none := by
  cases s with
  | leaf c =>
    exact atStart?_of_needs (needs_insideSet 2).right (not_mem_leaf (by decide) (by decide) c)
  | implies a b =>
    refine atStart?_of_needs (needs_insideSet 2).right (c := '{') ?_
    simp only [Sv.Stmt.chars, arrowed, mem_append, not_or]
    exact ⟨⟨not_mem_relation (by decide) (by decide) a, by decide⟩,
      not_mem_relation (by decide) (by decide) b⟩
  | loop x i body =>
    exact elementInside_none (w := ['f', 'o', 'r', 'e', 'a', 'c', 'h']) (c := ' ') (by decide)
      (by decide) (by decide) index
  | cond c body more =>
    exact elementInside_none (w := ['i', 'f']) (c := ' ') (by decide) (by decide) (by decide) index

end Stimulus.Stmt
