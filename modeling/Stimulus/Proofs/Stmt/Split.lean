import Stimulus.Proofs.Stmt.Pieces
import Stimulus.Proofs.Sv.Statement

/-!
# Splitting a body into statements

A body is cut after each of its statements: the semicolons and braces inside a statement are inside
delimiters, and a conditional goes on over its further branches.
-/

open List
open String (ofList toList_ofList)

namespace Stimulus.Stmt

open Text Sv Pattern

variable {c : Char} {inner current : List Char}

/-! ## One character -/

variable {cs rest w : List Char} {d : Depths} {o : Char}

theorem wordAt?_of_free {kw : List Char} (hkw : kw ∈ blockWords) (h : Free blockWords cs)
    (prev : Option Char) : wordAt? kw prev cs = none := by
  have hdrop : dropStart? kw cs = none := dropStart?_eq_none.2 fun hp => h kw hkw hp.isInfix
  simp [wordAt?, hdrop]

/-- A statement ends after this character. -/
def cuts (d : Depths) (c : Char) (rest : List Char) : Bool :=
  (d.step c).isOuter && (c == '}' && !elseFollowsBlock rest || c == ';' && !elseFollows rest)

theorem splitFrom_cons (h : Free blockWords (c :: rest)) (d : Depths)
    (current : List Char) (prev : Option Char) :
    splitFrom d current prev (c :: rest) =
      if cuts d c rest then finish (c :: current) (splitFrom (d.step c) [] (some c) rest)
      else splitFrom (d.step c) (c :: current) (some c) rest := by
  have hscan : Scans prev [c] rest := .char fun kw hkw => wordAt?_of_free hkw h prev
  have hstep : d.read [c] = d.step c := by simp [Depths.read]
  have hcuts : cutsAfter (d.step c) [c] rest = cuts d c rest := by
    by_cases h1 : c = '}'
    · subst h1
      simp [cuts, cutsAfter, endsBefore]
    by_cases h2 : c = ';'
    · subst h2
      simp [cuts, cutsAfter, endsBefore]
    simp [cuts, cutsAfter, endsBefore, h1, h2]
  have := splitFrom_scans hscan d current
  rwa [hstep, hcuts] at this

theorem splitFrom_prev (h : Free blockWords cs) (d : Depths) (current : List Char)
    (prev prev' : Option Char) : splitFrom d current prev cs = splitFrom d current prev' cs := by
  cases cs with
  | nil => rw [splitFrom, splitFrom]
  | cons c rest => rw [splitFrom_cons h, splitFrom_cons h]

theorem Free.tail {kws : List (List Char)} (h : Free kws (c :: cs)) :
    Free kws cs := h.within ⟨[c], [], by simp⟩

theorem splitFrom_pass (h : Free blockWords (c :: rest))
    (hc : cuts d c rest = false) (current : List Char) (prev prev' : Option Char) :
    splitFrom d current prev (c :: rest) = splitFrom (d.step c) (c :: current) prev' rest := by
  rw [splitFrom_cons h, hc, if_neg (by simp), splitFrom_prev (Free.tail h)]

/-! ## Closed texts -/

/-- A delimiter is open. -/
structure Depths.IsDeep (d : Depths) : Prop where
  brace : 0 ≤ d.brace
  paren : 0 ≤ d.paren
  pos : 0 < d.brace + d.paren

theorem Depths.IsDeep.not_isOuter (h : d.IsDeep) : d.isOuter = false := by
  have hpos := h.pos
  by_cases hb : d.brace = 0
  · have hp : d.paren ≠ 0 := by omega
    simp [Depths.isOuter, hp]
  · simp [Depths.isOuter, hb]

theorem Depths.IsDeep.step (hp : IsPair o c) (h : d.IsDeep) : (d.step o).IsDeep := by
  obtain ⟨hbrace, hparen, hpos⟩ := h
  rcases hp with ⟨rfl, -⟩ | ⟨rfl, -⟩ <;> constructor <;> simp [Depths.step] <;> omega

theorem Depths.step_step (d : Depths) (hp : IsPair o c) : (d.step o).step c = d := by
  rcases hp with ⟨rfl, rfl⟩ | ⟨rfl, rfl⟩ <;> simp [Depths.step]

theorem cuts_of_deep (h : (d.step c).IsDeep) (rest : List Char) : cuts d c rest = false := by
  simp [cuts, h.not_isOuter]

/-- The text is passed where a delimiter is open. -/
def Passes (w : List Char) : Prop :=
  ∀ rest : List Char, Free blockWords (w ++ rest) → ∀ d : Depths, d.IsDeep →
    ∀ current prev prev', splitFrom d current prev (w ++ rest) =
      splitFrom d (w.reverse ++ current) prev' rest

theorem Passes.pair (hp : IsPair o c) (h : Passes w) : Passes (o :: w ++ [c]) := by
  intro rest hf d hd current prev prev'
  rw [append_assoc, cons_append] at hf ⊢
  have hrest : Free blockWords (c :: rest) := (Free.tail hf).within ⟨w, [], by simp⟩
  have hback := d.step_step hp
  rw [splitFrom_pass hf (cuts_of_deep (hd.step hp) _) current prev none,
    h _ (Free.tail hf) _ (hd.step hp) _ none none, singleton_append,
    splitFrom_pass hrest (cuts_of_deep (hback.symm ▸ hd) rest) _ none prev', hback]
  simp

theorem splitFrom_closed (hw : Closed w) : Passes w := by
  induction hw with
  | nil => exact fun _ hf d _ current prev prev' => splitFrom_prev hf d current prev prev'
  | @char c hc =>
    intro rest hf d hd current prev prev'
    have hstep : d.step c = d := by
      simp only [delimiters, mem_cons, not_mem_nil, or_false, not_or] at hc
      simp [Depths.step, hc]
    have := splitFrom_pass hf (cuts_of_deep (hstep.symm ▸ hd) rest) current prev prev'
    rwa [hstep] at this
  | paren _ ih => exact ih.pair (.inl ⟨rfl, rfl⟩)
  | brace _ ih => exact ih.pair (.inr ⟨rfl, rfl⟩)
  | @append u v _ _ hu hv =>
    intro rest hf d hd current prev prev'
    rw [append_assoc] at hf ⊢
    rw [hu _ hf d hd current prev prev', hv _ (hf.within ⟨u, [], by simp⟩) d hd _ prev' prev']
    simp

/-! ## Outside all delimiters -/

/-- The text is passed outside all delimiters. -/
def PassesOuter (w : List Char) : Prop :=
  ∀ rest : List Char, Free blockWords (w ++ rest) → ∀ current prev prev',
    splitFrom {} current prev (w ++ rest) = splitFrom {} (w.reverse ++ current) prev' rest

theorem passesOuter_char (hd : c ∉ delimiters) (hc : c ≠ ';') : PassesOuter [c] := by
  intro rest hf current prev prev'
  simp only [delimiters, mem_cons, not_mem_nil, or_false, not_or] at hd
  have hstep : Depths.step {} c = {} := by simp [Depths.step, hd]
  have := splitFrom_pass (d := {}) hf (by simp [cuts, hd, hc]) current prev prev'
  rwa [hstep] at this

theorem PassesOuter.append {u v : List Char} (hu : PassesOuter u) (hv : PassesOuter v) :
    PassesOuter (u ++ v) := by
  intro rest hf current prev prev'
  rw [append_assoc] at hf ⊢
  rw [hu _ hf current prev prev', hv _ (hf.within ⟨u, [], by simp⟩) _ prev' prev']
  simp

theorem isDeep_step (hp : IsPair o c) : (Depths.step {} o).IsDeep := by
  rcases hp with ⟨rfl, -⟩ | ⟨rfl, -⟩ <;> constructor <;> decide

theorem splitFrom_open (hp : IsPair o c) (hw : Closed w)
    (hf : Free blockWords (o :: w ++ c :: rest)) (current : List Char) (prev prev' : Option Char) :
    splitFrom {} current prev (o :: w ++ c :: rest) =
      splitFrom (Depths.step {} o) (w.reverse ++ o :: current) prev' (c :: rest) := by
  rw [cons_append] at hf ⊢
  rw [splitFrom_pass hf (cuts_of_deep (isDeep_step hp) _) current prev none,
    splitFrom_closed hw _ (Free.tail hf) _ (isDeep_step hp) _ none prev']

theorem passesOuter_paren (hw : Closed w) : PassesOuter ('(' :: w ++ [')']) := by
  intro rest hf current prev prev'
  rw [append_assoc, singleton_append] at hf ⊢
  have hrest : Free blockWords (')' :: rest) := hf.within ⟨'(' :: w, [], by simp⟩
  have hback : (Depths.step {} '(').step ')' = {} := rfl
  rw [splitFrom_open (.inl ⟨rfl, rfl⟩) hw hf current prev none,
    splitFrom_pass hrest (by simp [cuts]) _ none prev', hback]
  simp

theorem passesOuter_closed (hw : Closed w) (hs : ';' ∉ w) (hb : '}' ∉ w) : PassesOuter w := by
  induction hw with
  | nil => exact fun _ hf current prev prev' => splitFrom_prev hf {} current prev prev'
  | @char c hc => exact passesOuter_char hc (by rintro rfl; simp at hs)
  | paren h _ => exact passesOuter_paren h
  | brace => simp at hb
  | append _ _ hu hv =>
    simp only [mem_append, not_or] at hs hb
    exact (hu hs.1 hb.1).append (hv hs.2 hb.2)

theorem splitFrom_braced (hw : Closed w)
    (hf : Free blockWords ('{' :: w ++ '}' :: rest)) (current : List Char)
    (prev prev' : Option Char) :
    splitFrom {} current prev ('{' :: w ++ '}' :: rest) =
      if elseFollowsBlock rest then
        splitFrom {} (('{' :: w ++ ['}']).reverse ++ current) prev' rest
      else finish (('{' :: w ++ ['}']).reverse ++ current) (splitFrom {} [] prev' rest) := by
  have hrest : Free blockWords ('}' :: rest) := hf.within ⟨'{' :: w, [], by simp⟩
  have hback : (Depths.step {} '{').step '}' = {} := rfl
  have hcuts : cuts (Depths.step {} '{') '}' rest = !elseFollowsBlock rest := by
    rw [cuts, hback]
    simp [Depths.isOuter]
  rw [splitFrom_open (.inr ⟨rfl, rfl⟩) hw hf current prev none, splitFrom_cons hrest, hcuts, hback,
    splitFrom_prev (Free.tail hrest) {} [] (some '}') prev',
    splitFrom_prev (Free.tail hrest) {} _ (some '}') prev']
  cases elseFollowsBlock rest <;> simp

theorem elseFollowsBlock_elseWord (rest : List Char) :
    elseFollowsBlock (elseWord ++ rest) = true := by
  have hdrop : (elseWord ++ rest).dropWhile isBlank = ['e', 'l', 's', 'e', ' '] ++ rest := rfl
  rw [elseFollowsBlock, hdrop]
  exact beginsWith_iff.2 ⟨' ' :: rest, rfl⟩

/-! ## Statements -/

/-- No further branch and no semicolon follows after blanks. -/
structure Apart (rest : List Char) : Prop where
  notElse : ¬ ['e', 'l', 's', 'e'] <+: rest.dropWhile isBlank
  notStop : (rest.dropWhile isBlank).head? ≠ some ';'

theorem Apart.elseFollows (h : Apart rest) : elseFollows rest = false := by
  rw [← Bool.not_eq_true]
  exact fun hb => h.notElse (beginsWith_iff.1 hb)

theorem Apart.elseFollowsBlock (h : Apart rest) : elseFollowsBlock rest = false := by
  have helse := h.elseFollows
  have hstop := h.notStop
  rw [Stmt.elseFollows] at helse
  rw [Stmt.elseFollowsBlock]
  split
  · next r hr => simp [hr] at hstop
  · exact helse

/-- The text ends a statement. -/
def EndsStatement (w : List Char) : Prop :=
  ∀ rest : List Char, Apart rest → Free blockWords (w ++ rest) → ∀ current prev prev',
    splitFrom {} current prev (w ++ rest) =
      finish (w.reverse ++ current) (splitFrom {} [] prev' rest)

theorem PassesOuter.endsStatement {u v : List Char} (hu : PassesOuter u) (hv : EndsStatement v) :
    EndsStatement (u ++ v) := by
  intro rest hr hf current prev prev'
  rw [append_assoc] at hf ⊢
  rw [hu _ hf current prev none, hv _ hr (hf.within ⟨u, [], by simp⟩) _ none prev']
  simp

theorem endsStatement_stop : EndsStatement [';'] := by
  intro rest hr hf current prev prev'
  have hcuts : cuts {} ';' rest = true := by simp [cuts, hr.elseFollows, Depths.step, Depths.isOuter]
  have hstep : Depths.step {} ';' = {} := rfl
  rw [singleton_append] at hf ⊢
  rw [splitFrom_cons hf, hcuts, if_pos rfl, hstep, splitFrom_prev (Free.tail hf) _ _ _ prev']
  rfl

theorem passesOuter_of_forall (h : ∀ c ∈ w, c ∉ delimiters ∧ c ≠ ';') : PassesOuter w :=
  passesOuter_closed (closed_of_forall fun c hc => (h c hc).1) (fun hc => (h _ hc).2 rfl)
    fun hc => (h _ hc).1 (by decide)

section Chars

variable {c : Char} (hn : nameTail c = false)

include hn

theorem not_mem_comparison (hm : c ∉ relationMarks) (s : Sv.Comparison) : c ∉ s.text := fun hc => by
  rcases mem_spell_of_isOf s.isOf hc with h | h
  · simp [h] at hn
  · exact hm h

theorem not_mem_leaf (hm : c ∉ relationMarks) (s : Leaf) : c ∉ s.text :=
  not_mem_comparison hn hm s.comparison

theorem not_mem_relation (hm : c ∉ joinedMarks) (r : Relation) : c ∉ r.text := fun hc => by
  rcases mem_sourceText (fun l hl => Lexeme.isOf_joinedMarks (r.plain l hl)) hc with h | h
  · simp [h] at hn
  · exact hm h

end Chars

variable (l : Layout) (n : Nat)

theorem passesOuter_head {head : List Char} (hw : ∀ c ∈ w, c ∉ delimiters ∧ c ≠ ';')
    (hh : Closed head) : PassesOuter (w ++ ('(' :: head ++ [')']) ++ [' ']) :=
  ((passesOuter_of_forall hw).append (passesOuter_paren hh)).append
    (passesOuter_char (by decide) (by decide))

theorem headed_eq (word head inner : List Char) : l.headed n word head inner =
    word ++ ('(' :: head ++ [')']) ++ [' '] ++ l.braced n inner := by
  simp [Layout.headed]

theorem closed_inner (h : Closed inner) :
    Closed ('\n' :: inner ++ l.margin n) :=
  ((Closed.char (by decide)).append h).append (closed_blank (l.blank n))

theorem endsStatement_braced (h : Closed inner) :
    EndsStatement (l.braced n inner) := by
  intro rest hr hf current prev prev'
  rw [Layout.braced, append_assoc, singleton_append] at hf ⊢
  rw [splitFrom_braced (closed_inner l n h) hf current prev prev', hr.elseFollowsBlock,
    if_neg (by simp)]

theorem endsStatement_else {v : List Char} (h : Closed inner)
    (hv : EndsStatement (elseWord ++ v)) : EndsStatement (l.braced n inner ++ (elseWord ++ v)) := by
  intro rest hr hf current prev prev'
  rw [append_assoc] at hf ⊢
  have hrest : Free blockWords (elseWord ++ v ++ rest) :=
    hf.within ⟨l.braced n inner, [], by simp⟩
  rw [Layout.braced, append_assoc, singleton_append] at hf ⊢
  have helse : elseFollowsBlock (elseWord ++ v ++ rest) = true := by
    rw [append_assoc]
    exact elseFollowsBlock_elseWord _
  rw [splitFrom_braced (closed_inner l n h) hf current prev none, helse, if_pos rfl,
    hv rest hr hrest _ none prev']
  simp

theorem endsStatement_branches : ∀ (more : Branches) {inner : List Char}, Closed inner →
    EndsStatement (l.braced n inner ++ more.chars l n)
  | .done, inner, hi => by
    rw [Branches.chars, append_nil]
    exact endsStatement_braced l n hi
  | .elseIf c body more, inner, hi => by
    have hnext := (passesOuter_head (w := elseWord ++ ifWord) (by decide)
      c.closed_text).endsStatement
      (endsStatement_branches more (body.closed_text l (n + 1)))
    rw [Branches.chars, headed_eq]
    simp only [append_assoc] at hnext ⊢
    exact endsStatement_else l n hi hnext
  | .otherwise body, inner, hi =>
    endsStatement_else l n hi ((passesOuter_of_forall (by decide)).endsStatement
      (endsStatement_braced l n (body.closed_text l (n + 1))))

theorem endsStatement_text (s : Sv.Stmt) : EndsStatement (s.text l n) := by
  cases s with
  | leaf c =>
    exact (passesOuter_closed c.comparison.closed_text (not_mem_leaf (by decide) (by decide) c)
      (not_mem_leaf (by decide) (by decide) c)).endsStatement endsStatement_stop
  | implies a b =>
    have harrow : ∀ c, c ∉ a.text → c ∉ [' ', '-', '>', ' '] → c ∉ b.text →
        c ∉ arrowed a.text b.text := by
      intro c ha hm hb
      simp only [arrowed, mem_append, not_or]
      exact ⟨⟨ha, hm⟩, hb⟩
    exact (passesOuter_closed ((Sv.Stmt.implies a b).closed_chars l n)
      (harrow _ (not_mem_relation (by decide) (by decide) a) (by decide)
        (not_mem_relation (by decide) (by decide) b))
      (harrow _ (not_mem_relation (by decide) (by decide) a) (by decide)
        (not_mem_relation (by decide) (by decide) b))).endsStatement endsStatement_stop
  | loop x i body =>
    have hhead : Closed (indexed x.ident.chars i.ident.chars) :=
      ((closed_ident _).append ((Closed.char (by decide)).append (closed_ident _))).append
        (.char (by decide))
    rw [Sv.Stmt.text, Sv.Stmt.stop, append_nil, Sv.Stmt.chars, headed_eq]
    exact (passesOuter_head (by decide) hhead).endsStatement
      (endsStatement_braced l n (body.closed_text l (n + 1)))
  | cond c body more =>
    rw [Sv.Stmt.text, Sv.Stmt.stop, append_nil, Sv.Stmt.chars, headed_eq, append_assoc]
    exact (passesOuter_head (by decide) c.closed_text).endsStatement
      (endsStatement_branches l n more (body.closed_text l (n + 1)))

/-! ## Blocks -/

theorem finish_blank (h : Blank current) (others : List String) :
    finish current others = others := by
  have hrev : Blank current.reverse := fun c hc => h c (mem_reverse.1 hc)
  have hstrip : strip (ofList current.reverse) = ofList [] := by
    simpa using strip_left hrev trim_nil
  rw [finish, hstrip]
  rfl

theorem finish_trim (ht : Trim cs) (hne : cs ≠ [])
    (h : Blank current) (others : List String) :
    finish (cs.reverse ++ current) others = ofList cs :: others := by
  have hrev : Blank current.reverse := fun c hc => h c (mem_reverse.1 hc)
  have hempty : (ofList cs).isEmpty = false := by simp [hne]
  simp only [finish, reverse_append, reverse_reverse, strip_left hrev ht, hempty]
  rfl

theorem finish_text (s : Sv.Stmt) (h : Blank current) (others : List String) :
    finish ((s.text l n).reverse ++ current) others = ofList (s.text l n) :: others :=
  finish_trim (s.trim_text l n) (s.starts_text l n).ne_nil h others

theorem passesOuter_blank {b : List Char} (hb : Blank b) : PassesOuter b := by
  refine passesOuter_of_forall fun c hc => ?_
  have hblank := hb c hc
  refine ⟨fun hd => ?_, ?_⟩
  · revert hblank
    exact (by decide : ∀ c ∈ delimiters, ¬ isBlank c = true) c hd
  · rintro rfl
    revert hblank
    decide

theorem blank_line : Blank ('\n' :: l.margin n) := forall_mem_cons.2 ⟨by decide, l.blank n⟩

theorem after_cons (s : Sv.Stmt) (rest : Block) (z : List Char) :
    Block.after l n (.cons s rest) ++ z =
      ('\n' :: l.margin n) ++ (s.text l n ++ (rest.after l n ++ z)) := by
  simp [Block.after]

theorem apart_after (b : Block) {z : List Char} (hz : Blank z) : Apart (b.after l n ++ z) := by
  cases b with
  | nil =>
    have hdrop : z.dropWhile isBlank = [] := dropWhile_eq_nil_iff.2 hz
    rw [Block.after, nil_append]
    exact ⟨by simp [hdrop], by simp [hdrop]⟩
  | cons s rest =>
    have hfirst := (s.starts_text l n).append (rest.after l n ++ z)
    have hdrop : (Block.after l n (.cons s rest) ++ z).dropWhile isBlank =
        s.text l n ++ (rest.after l n ++ z) := by
      rw [after_cons]
      exact dropWhile_gap (blank_line l n) (hfirst.mono fun _ => isBlank_of_isFirst).head
    constructor
    · rw [hdrop]
      exact s.not_else_text l n _
    · rw [hdrop]
      intro hstop
      have : IsFirst ';' := hfirst.head _ hstop
      revert this
      simp [IsFirst]
      decide

theorem split_of_passesOuter {e : List Char} (h : PassesOuter w) (hf : Free blockWords (w ++ e))
    (ht : Trim (w ++ e)) (hne : w ≠ []) (he : e = [] ∨ e = [';']) :
    split (ofList (w ++ e)) = [ofList (w ++ e)] := by
  have hfinish := finish_trim ht (by simp [hne]) blank_nil
  rw [split, toList_ofList]
  rcases he with rfl | rfl
  · rw [h [] hf [] none none, splitFrom]
    simpa using hfinish []
  · have hapart : Apart [] := ⟨by simp, by simp⟩
    have hend := h.endsStatement endsStatement_stop [] hapart (by simpa using hf) [] none none
    rw [append_nil] at hend
    rw [hend, hfinish, splitFrom]
    rfl

theorem splitFrom_stmt (s : Sv.Stmt) (rest : Block) {a z : List Char} (ha : Blank a) (hz : Blank z)
    (hf : Free blockWords (a ++ (s.text l n ++ (rest.after l n ++ z)))) (prev : Option Char) :
    splitFrom {} [] prev (a ++ (s.text l n ++ (rest.after l n ++ z))) =
      ofList (s.text l n) :: splitFrom {} [] none (rest.after l n ++ z) := by
  have hf' : Free blockWords (s.text l n ++ (rest.after l n ++ z)) :=
    hf.within ⟨a, [], by simp⟩
  rw [passesOuter_blank ha _ hf [] prev none,
    endsStatement_text l n s _ (apart_after l n rest hz) hf' _ none none,
    finish_text l n s (by simpa [Blank] using ha)]

theorem splitFrom_after : ∀ (b : Block) {z : List Char}, Blank z →
    Free blockWords (b.after l n ++ z) → ∀ prev,
    splitFrom {} [] prev (b.after l n ++ z) = b.list.map fun s => ofList (s.text l n)
  | .nil, z, hz, hf, prev => by
    have := passesOuter_blank hz [] (by simpa [Block.after] using hf) [] prev none
    rw [append_nil] at this
    rw [Block.after, nil_append, this, splitFrom, append_nil,
      finish_blank fun c hc => hz c (mem_reverse.1 hc)]
    rfl
  | .cons s rest, z, hz, hf, prev => by
    rw [after_cons] at hf ⊢
    have hrest : Free blockWords (rest.after l n ++ z) :=
      hf.within ⟨('\n' :: l.margin n) ++ s.text l n, [], by simp⟩
    rw [splitFrom_stmt l n s rest (blank_line l n) hz hf prev, splitFrom_after rest hz hrest none]
    rfl

theorem split_spread {b : Block} (h : b.Spread l n cs) :
    split (ofList cs) = b.list.map fun s => ofList (s.text l n) := by
  have hf := h.free
  obtain ⟨a, z, ha, hz, rfl⟩ := h
  rw [split, toList_ofList]
  cases b with
  | nil =>
    rw [Block.tight, append_nil] at hf ⊢
    exact splitFrom_after l n .nil (forall_mem_append.2 ⟨ha, hz⟩) hf none
  | cons s rest =>
    rw [Block.tight, append_assoc, append_assoc] at hf ⊢
    have hrest : Free blockWords (rest.after l n ++ z) :=
      hf.within ⟨a ++ s.text l n, [], by simp⟩
    rw [splitFrom_stmt l n s rest ha hz hf none, splitFrom_after l n rest hz hrest none]
    rfl

end Stimulus.Stmt
