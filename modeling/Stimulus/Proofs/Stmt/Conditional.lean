import Stimulus.Proofs.Stmt.Split
import Stimulus.Stmt.Conditional

/-!
# Reading conditionals

The branches of a conditional are found one after the other, each with its condition and its block.
How far a conditional reaches is found by its branches too, but there a first branch may follow where
a further one could: without an `else`, a conditional takes in the conditionals after it.
-/

open List
open String (ofList toList_ofList)

namespace Stimulus.Sv

open Text

/-- The branches end with one that has no condition. -/
def Branches.isClosed : Branches → Bool
  | .done => false
  | .elseIf _ _ more => more.isClosed
  | .otherwise _ => true

namespace Block

variable (l : Layout) (n : Nat)

def beyond : Block → Block
  | .cons (.cond _ _ more) rest => if more.isClosed then rest else rest.beyond
  | b => b

/-- The text that it takes in. -/
def taken : Block → List Char
  | .cons (.cond c body more) rest =>
    '\n' :: l.margin n ++ Stmt.chars l n (.cond c body more) ++
      if more.isClosed then [] else rest.taken
  | _ => []

/-- The blanks before a block that comes after another statement. -/
def gap : Block → List Char
  | .nil => []
  | .cons .. => '\n' :: l.margin n

theorem after_eq_gap (b : Block) : b.after l n = b.gap l n ++ b.tight l n := by
  cases b with
  | nil => rfl
  | cons s rest => simp [after, gap, tight]

theorem blank_gap (b : Block) : Blank (b.gap l n) := by
  cases b with
  | nil => simp [gap, Blank]
  | cons s rest => exact forall_mem_cons.2 ⟨by decide, l.blank n⟩

/-- The blanks after the text that a conditional takes in, as far as they count. -/
def slack : Block → List Char
  | .cons (.cond _ _ more) rest => if more.isClosed then [] else rest.slack
  | b => b.gap l n

theorem blank_slack : ∀ b : Block, Blank (b.slack l n)
  | .nil | .cons (.leaf _) _ | .cons (.implies ..) _ | .cons (.loop ..) _ => blank_gap l n _
  | .cons (.cond c body more) rest => by
    rw [slack]
    split
    · exact blank_nil
    · exact blank_slack rest

theorem after_eq_slack : ∀ b : Block,
    ∃ v, b.after l n = b.taken l n ++ b.slack l n ++ v ∧ b.beyond.Spread l n v
  | .nil => ⟨[], rfl, spread_tight .nil⟩
  | .cons (.leaf _) _ | .cons (.implies ..) _ | .cons (.loop ..) _ =>
    ⟨_, after_eq_gap l n _, spread_tight _⟩
  | .cons (.cond c body more) rest => by
    cases h : more.isClosed with
    | true =>
      refine ⟨rest.after l n, by simp [after, taken, slack, h, Stmt.text, Stmt.stop], ?_⟩
      rw [beyond, if_pos h, after_eq_gap]
      simpa using (spread_tight rest).pad (blank_gap l n rest) (z := []) blank_nil
    | false =>
      obtain ⟨v, hv, hs⟩ := after_eq_slack rest
      refine ⟨v, by simp [after, taken, slack, h, Stmt.text, Stmt.stop, hv], ?_⟩
      rw [beyond, if_neg (by simp [h])]
      exact hs

theorem ends_taken : ∀ (b : Block) {u : List Char}, Ends (· = '}') u →
    Ends (· = '}') (u ++ b.taken l n)
  | .nil, _, h => by simpa [taken] using h
  | .cons (.leaf _) _, _, h | .cons (.implies ..) _, _, h | .cons (.loop ..) _, _, h => by
    simpa [taken] using h
  | .cons (.cond c body more) rest, u, _ => by
    have hcond : Ends (· = '}') ('\n' :: l.margin n ++ Stmt.chars l n (.cond c body more)) :=
      (more.ends_append l n (l.ends_headed n _ _ _)).append _
    rw [taken]
    refine Ends.append ?_ u
    split
    · rwa [append_nil]
    · exact ends_taken rest hcond

end Block

end Stimulus.Sv

namespace Stimulus.Stmt

open Text Sv Pattern

variable {a cs rest : List Char} {s : String}

/-! ## Branches -/

variable (l : Layout) (n : Nat)

theorem dropWhile_braced (ha : Blank a) (b : Block) (rest : List Char) :
    (a ++ (l.braced n (b.text l (n + 1)) ++ rest)).dropWhile isBlank =
      '{' :: ('\n' :: b.text l (n + 1) ++ l.margin n ++ '}' :: rest) := by
  rw [dropWhile_blank_append ha, Layout.braced, append_assoc, singleton_append]
  rfl

theorem branchBody?_braced (ha : Blank a) (b : Block) (rest : List Char) :
    branchBody? (a ++ (l.braced n (b.text l (n + 1)) ++ rest)) =
      some (ofList (b.tight l (n + 1)), strip (ofList rest)) := by
  rw [branchBody?, dropWhile_braced l n ha]
  simp only
  rw [closing?_closed (.inr ⟨rfl, rfl⟩) (closed_inner l n (b.closed_text l (n + 1)))]
  simp only [Option.map_some]
  rw [(Block.spread_inner l (n + 1) n b).strip]

/-- The text of a branch after the parenthesis before its condition. -/
def branchTail (c : Condition) (b : Block) (rest : List Char) : List Char :=
  c.text ++ ')' :: ([' '] ++ (l.braced n (b.text l (n + 1)) ++ rest))

/-- What is read of the branch. -/
def bracedBranch (c : Condition) (b : Block) (rest : List Char) : Branch where
  condition := ofList c.text
  body := ofList (b.tight l (n + 1))
  rest := strip (ofList rest)

theorem conditionedBranch?_tail (c : Condition) (b : Block) (rest : List Char) {m : Match}
    (hm : m.after = branchTail l n c b rest) :
    conditionedBranch? m = some (bracedBranch l n c b rest) := by
  rw [conditionedBranch?, hm, branchTail, closing?_closed (.inl ⟨rfl, rfl⟩) c.closed_text]
  simp only [Option.bind_eq_bind, Option.bind_some]
  rw [branchBody?_braced l n (a := [' ']) (by decide), strip_of_trim c.trim_text]
  rfl

theorem headed_append (word : List Char) (c : Condition) (b : Block) (rest : List Char) :
    l.headed n word c.text (b.text l (n + 1)) ++ rest = word ++ '(' :: branchTail l n c b rest := by
  simp [Layout.headed, branchTail]

theorem atStart?_ifHead (z : List Char) :
    ifHead.atStart? (ofList (ifWord ++ '(' :: z)) =
      some ⟨[], ifWord ++ ['('], z, 0, []⟩ :=
  atStart?_of_walk (w := ['i', 'f', ' ', '(']) rfl

theorem ifBranch?_chars (c : Condition) (b : Block) (rest : List Char)
    (hs : strip s = ofList (l.headed n ifWord c.text (b.text l (n + 1)) ++ rest)) :
    ifBranch? s = some (bracedBranch l n c b rest) := by
  rw [ifBranch?, hs, headed_append, atStart?_ifHead, Option.bind_some]
  exact conditionedBranch?_tail l n c b rest rfl

/-- The text after a branch goes on with no further one. -/
structure Inert (rest : List Char) : Prop where
  head : ∀ c ∈ (rest.dropWhile isBlank).head?, c ≠ 'e'
  last : ∀ c ∈ rest.getLast?, isBlank c = false

theorem inert_nil : Inert [] := ⟨by simp, by simp⟩

theorem last_append {u v : List Char} (hu : Ends (· = '}') u)
    (hv : ∀ d ∈ v.getLast?, isBlank d = false) : ∀ d ∈ (u ++ v).getLast?, isBlank d = false := by
  intro d hd
  cases v with
  | nil =>
    rw [append_nil] at hd
    obtain rfl : d = '}' := hu.last d hd
    decide
  | cons c v => exact hv d (by rwa [getLast?_append_of_ne_nil _ (by simp)] at hd)

theorem strip_cons_blank {c : Char} (hc : isBlank c = false)
    (hlast : ∀ d ∈ (c :: cs).getLast?, isBlank d = false) :
    strip (ofList (' ' :: c :: cs)) = ofList (c :: cs) :=
  strip_left (a := [' ']) (by decide) ⟨by simpa using hc, hlast⟩

theorem elseIfBranch?_chars (c : Condition) (b : Block)
    (hlast : ∀ d ∈ rest.getLast?, isBlank d = false)
    (hs : strip s = strip (ofList
      (l.headed n (elseWord ++ ifWord) c.text (b.text l (n + 1)) ++ rest))) :
    elseIfBranch? s = some (bracedBranch l n c b rest) := by
  have hstrip : strip s = ofList
      (['e', 'l', 's', 'e', ' ', 'i', 'f', ' ', '('] ++ branchTail l n c b rest) := by
    have hends : Ends (· = '}') (l.headed n (['e', 'l', 's', 'e', ' '] ++ ifWord) c.text
        (b.text l (n + 1))) := l.ends_headed n _ _ _
    have hlast := last_append hends hlast
    rw [headed_append] at hlast
    rw [hs, headed_append]
    exact strip_cons_blank (by decide) hlast
  have hhead : elseIfHead.atStart? (strip s) = some ⟨[], ['e', 'l', 's', 'e', ' ', 'i', 'f', ' ', '('],
      branchTail l n c b rest, 0, []⟩ := by
    rw [hstrip]
    exact atStart?_of_walk rfl
  rw [elseIfBranch?, hhead, Option.bind_some]
  exact conditionedBranch?_tail l n c b rest rfl

theorem elseBranch?_chars (b : Block)
    (hlast : ∀ d ∈ rest.getLast?, isBlank d = false)
    (hs : strip s = strip (ofList (elseWord ++ l.braced n (b.text l (n + 1)) ++ rest))) :
    elseIfBranch? s = none ∧ elseBranch? s =
      some (ofList (b.tight l (n + 1)), strip (ofList rest)) := by
  have hstrip : strip s = ofList
      (['e', 'l', 's', 'e', ' '] ++ (l.braced n (b.text l (n + 1)) ++ rest)) := by
    have hends : Ends (· = '}') (['e', 'l', 's', 'e', ' '] ++ l.braced n (b.text l (n + 1))) :=
      (l.ends_braced n _).append _
    have hlast := last_append hends hlast
    rw [hs, ← append_assoc]
    exact strip_cons_blank (by decide) hlast
  have hnone : elseIfHead.atStart? (strip s) = none := by
    rw [hstrip, atStart?, toList_ofList]
    rfl
  have hhead : (lit "else" ++ blanks ++ notAhead (blanks ++ lit "if")).atStart? (strip s) =
      some ⟨[], ['e', 'l', 's', 'e', ' '], l.braced n (b.text l (n + 1)) ++ rest, 0, []⟩ := by
    rw [hstrip]
    exact atStart?_of_walk rfl
  constructor
  · rw [elseIfBranch?, hnone]
    rfl
  · rw [elseBranch?, hhead, Option.bind_some]
    exact branchBody?_braced l n (a := []) blank_nil b rest

theorem atStart?_lit_none {t : String} {p q : Pattern} (h : ¬ t.toList <+: cs) :
    (lit t ++ p ++ q).atStart? (ofList cs) = none := by
  rw [atStart?, toList_ofList, walk_append, walk_append, walk_lit_none h]
  rfl

theorem no_branch_of_inert (h : Inert rest)
    (hs : strip s = strip (ofList rest)) : elseIfBranch? s = none ∧ elseBranch? s = none := by
  have hstrip : strip s = ofList (rest.dropWhile isBlank) := by
    rw [hs, strip, toList_ofList, dropEnds, dropTail_of_last fun c hc => ?_]
    obtain ⟨t, ht⟩ := dropWhile_suffix isBlank (l := rest)
    refine h.last c ?_
    rw [← ht, getLast?_append, Option.mem_def.1 hc]
    rfl
  have hnot : ¬ "else".toList <+: rest.dropWhile isBlank := by
    rintro ⟨t, ht⟩
    exact h.head 'e' (by rw [← ht]; rfl) rfl
  constructor
  · rw [elseIfBranch?, hstrip, elseIfHead, atStart?_lit_none hnot]
    rfl
  · rw [elseBranch?, hstrip, atStart?_lit_none hnot]
    rfl

/-! ## How far a conditional reaches -/

theorem branchLength?_braced (ha : Blank a) (b : Block) (rest : List Char)
    (conditional : List Char → Nat) :
    branchLength? conditional (a ++ (l.braced n (b.text l (n + 1)) ++ rest)) =
      some (a ++ l.braced n (b.text l (n + 1))).length := by
  rw [branchLength?, dropWhile_braced l n ha]
  simp only
  rw [closing?_closed (.inr ⟨rfl, rfl⟩) (closed_inner l n (b.closed_text l (n + 1)))]
  simp only [Option.map_some, Layout.braced, length_append, length_cons, length_nil,
    Option.some.injEq]
  omega

theorem chainEnd_branch {w : List Char} (ha : Blank a) (c : Condition) (b : Block)
    (rest : List Char) {m : Match} (hm : m.after = branchTail l n c b rest)
    (hstop : m.stop = w.length + 1) (hw : ∀ d ∈ w.head?, isBlank d = false) (hne : w ≠ [])
    (hhead : ((ifHead.atStart? (ofList (w ++ '(' :: branchTail l n c b rest))).or
      (spacedElseIfHead.atStart? (ofList (w ++ '(' :: branchTail l n c b rest)))) = some m)
    (fuel pos : Nat) :
    chainEnd (fuel + 1) pos (a ++ l.headed n w c.text (b.text l (n + 1)) ++ rest) =
      chainEnd fuel (pos + (a ++ l.headed n w c.text (b.text l (n + 1))).length) rest := by
  have hdrop : (a ++ (w ++ '(' :: branchTail l n c b rest)).dropWhile isBlank =
      w ++ '(' :: branchTail l n c b rest := by
    obtain ⟨d, w, rfl⟩ := exists_cons_of_ne_nil hne
    exact dropWhile_gap ha (by simpa using hw)
  have hafter : branchTail l n c b rest =
      c.text ++ ')' :: ([' '] ++ (l.braced n (b.text l (n + 1)) ++ rest)) := rfl
  have hrest : ([' '] ++ (l.braced n (b.text l (n + 1)) ++ rest)).drop
      ([' '] ++ l.braced n (b.text l (n + 1))).length = rest := by
    rw [← append_assoc]
    exact drop_left
  rw [append_assoc, headed_append, chainEnd]
  simp only [hdrop, hhead, hm]
  rw [hafter, closing?_closed (.inl ⟨rfl, rfl⟩) c.closed_text]
  simp only [branchLength?_braced l n (a := [' ']) (by decide), hrest, hstop]
  congr 1
  simp [Layout.headed]
  omega

theorem not_ifHead (h : OpensWithName cs) :
    ifHead.atStart? (ofList cs) = none := by
  refine atStart?_eq_none fun w hw => ?_
  obtain ⟨u, v, rfl, ⟨u, b, rfl, rfl, hb, -⟩, rfl⟩ := hw
  rintro ⟨t, rfl⟩
  refine h.not_keyword (w := "if".toList) (by decide) (t := b ++ '(' :: t) ?_ (by simp)
  cases b with
  | nil => exact stops_cons.2 (by decide)
  | cons c b => exact stops_cons.2 (nameTail_of_isBlank (hb c mem_cons_self))

theorem chainEnd_stop {t : List Char} (ha : Blank a) (ht : ∀ c ∈ t.head?, isBlank c = false)
    (hif : ifHead.atStart? (ofList t) = none) (helse : ¬ "else".toList <+: t)
    (fuel pos : Nat) : chainEnd (fuel + 1) pos (a ++ t) = pos + a.length := by
  have hdrop := dropWhile_gap ha ht
  have hspaced : spacedElseIfHead.atStart? (ofList t) = none := atStart?_lit_none helse
  rw [chainEnd]
  simp only [hdrop, hif, hspaced, atStart?_lit_none helse, Option.or_none]
  simp

theorem atStart?_else_branch (z : List Char) :
    (ifHead.atStart? (ofList (['e', 'l', 's', 'e', ' '] ++ ifWord ++ '(' :: z))).or
      (spacedElseIfHead.atStart? (ofList (['e', 'l', 's', 'e', ' '] ++ ifWord ++ '(' :: z))) =
      some ⟨[], ['e', 'l', 's', 'e', ' '] ++ ifWord ++ ['('], z, 0, []⟩ := by
  have hif : ifHead.atStart? (ofList (['e', 'l', 's', 'e', ' '] ++ ifWord ++ '(' :: z)) =
      none := by
    rw [atStart?, toList_ofList]
    rfl
  rw [hif, Option.none_or]
  exact atStart?_of_walk (w := ['e', 'l', 's', 'e', ' ', 'i', 'f', ' ', '(']) rfl

theorem not_ifHead_chars (s : Sv.Stmt) (hs : s.isCond = false) (rest : List Char) :
    ifHead.atStart? (ofList (s.chars l n ++ rest)) = none := by
  cases s with
  | leaf c => exact not_ifHead (c.comparison.opensWithName.append _)
  | implies a b => exact not_ifHead (((a.formula.opensWithName.append _).append _).append _)
  | loop x i body =>
    refine atStart?_lit_none fun h => ?_
    have := (cons_prefix_cons.1 h).1
    revert this
    decide
  | cond => cases hs

theorem not_isBlank_text (s : Sv.Stmt) (rest : List Char) :
    ∀ c ∈ (s.text l n ++ rest).head?, isBlank c = false :=
  (((s.starts_text l n).mono fun _ => isBlank_of_isFirst).append _).head

theorem chainEnd_after (b : Block) (hb : ∀ s rest, b = .cons s rest → s.isCond = false)
    (fuel pos : Nat) : chainEnd (fuel + 1) pos (b.after l n) = pos + (b.gap l n).length := by
  rw [Block.after_eq_gap]
  cases b with
  | nil =>
    exact chainEnd_stop (by simp [Block.gap, Blank]) (by simp [Block.tight])
      (atStart?_lit_none (by simp [Block.tight])) (by simp [Block.tight]) fuel pos
  | cons s rest =>
    have hif := not_ifHead_chars l n s (hb s rest rfl) (s.stop ++ rest.after l n)
    rw [← append_assoc] at hif
    exact chainEnd_stop (Block.blank_gap l n _) (not_isBlank_text l n s _) hif
      (s.not_else_text l n _) fuel pos

theorem chainEnd_else (b : Block) (rest : List Char) (fuel pos : Nat) :
    chainEnd (fuel + 1) pos
      (' ' :: (['e', 'l', 's', 'e', ' '] ++ (l.braced n (b.text l (n + 1)) ++ rest))) =
        pos + 6 + (l.braced n (b.text l (n + 1))).length := by
  generalize hcs : ['e', 'l', 's', 'e', ' '] ++ (l.braced n (b.text l (n + 1)) ++ rest) = cs
  have hdrop : (' ' :: cs).dropWhile isBlank = cs := by
    rw [← hcs]
    rfl
  have hnone : (ifHead.atStart? (ofList cs)).or (spacedElseIfHead.atStart? (ofList cs)) =
      none := by
    rw [← hcs, atStart?, atStart?, toList_ofList]
    rfl
  have hhead : (lit "else" ++ blanks ++ notAhead (lit "if")).atStart? (ofList cs) =
      some ⟨[], ['e', 'l', 's', 'e', ' '], l.braced n (b.text l (n + 1)) ++ rest, 0, []⟩ := by
    rw [← hcs]
    exact atStart?_of_walk rfl
  have hbranch := branchLength?_braced l n (a := []) blank_nil b rest (chainEnd fuel 0)
  rw [nil_append, nil_append] at hbranch
  rw [chainEnd]
  simp only [hdrop, hnone, hhead, hbranch]
  simp [Match.stop]

theorem chainEnd_chars {fuel : Nat} (pos : Nat) (more : Branches) (rest : Block)
    (hf : (more.chars l n ++ rest.after l n).length < fuel) :
    chainEnd fuel pos (more.chars l n ++ rest.after l n) =
      pos + (more.chars l n ++
        if more.isClosed then [] else rest.taken l n ++ rest.slack l n).length := by
  induction fuel generalizing pos more rest with
  | zero => omega
  | succ fuel ih =>
    cases more with
    | done =>
      cases rest with
      | nil => exact chainEnd_after l n .nil (by simp) fuel pos
      | cons s rest =>
        cases s with
        | leaf | implies | loop => exact chainEnd_after l n _ (by rintro _ _ ⟨⟩; rfl) fuel pos
        | cond c body more' =>
          have hsplit : Branches.chars l n .done ++ Block.after l n (.cons (.cond c body more') rest) =
              ('\n' :: l.margin n) ++ l.headed n ifWord c.text (body.text l (n + 1)) ++
                (more'.chars l n ++ rest.after l n) := by
            simp [Branches.chars, Block.after, Sv.Stmt.text, Sv.Stmt.chars, Sv.Stmt.stop]
          rw [hsplit] at hf ⊢
          rw [chainEnd_branch l n (blank_line l n) c body _ rfl rfl (by decide) (by decide)
            (by rw [atStart?_ifHead, Option.some_or]), ih _ more' rest (by simp at hf ⊢; omega)]
          cases h : more'.isClosed <;>
            simp [Branches.chars, Branches.isClosed, Block.taken, Block.slack, Sv.Stmt.chars, h] <;> omega
    | elseIf c body more' =>
      have hsplit : Branches.chars l n (.elseIf c body more') ++ rest.after l n =
          [' '] ++ l.headed n (['e', 'l', 's', 'e', ' '] ++ ifWord) c.text (body.text l (n + 1)) ++
            (more'.chars l n ++ rest.after l n) := by
        simp [Branches.chars, Layout.headed, elseWord]
      rw [hsplit] at hf ⊢
      rw [chainEnd_branch l n (by decide) c body _ rfl rfl (by decide) (by decide)
        (atStart?_else_branch _), ih _ more' rest (by simp at hf ⊢; omega)]
      cases h : more'.isClosed <;>
        simp [Branches.chars, Branches.isClosed, Layout.headed, elseWord, h] <;> omega
    | otherwise body =>
      have htext : Branches.chars l n (.otherwise body) ++ rest.after l n = ' ' ::
          (['e', 'l', 's', 'e', ' '] ++ (l.braced n (body.text l (n + 1)) ++ rest.after l n)) := rfl
      rw [htext, chainEnd_else l n body _ fuel pos]
      simp [Branches.chars, Branches.isClosed, elseWord]
      omega

/-- The text that a conditional at the start of a block takes in. -/
def swallowed (more : Branches) (rest : Block) : List Char :=
  if more.isClosed then [] else rest.taken l n

theorem inert_taken (b : Block) : Inert (b.taken l n) := by
  have hends : ∀ c ∈ (b.taken l n).getLast?, isBlank c = false := by
    intro c hc
    have := (b.ends_taken l n (u := ['}']) ⟨[], '}', rfl, rfl⟩).last c
      (by rw [getLast?_append, Option.mem_def.1 hc]; rfl)
    rw [this]
    decide
  refine ⟨fun c hc => ?_, hends⟩
  cases b with
  | nil => cases hc
  | cons s rest =>
    cases s with
    | leaf | implies | loop => cases hc
    | cond d body more =>
      rw [Block.taken, append_assoc, dropWhile_blank_append (blank_line l n)] at hc
      obtain rfl : 'i' = c := Option.some.inj hc
      decide

theorem inert_swallowed (more : Branches) (rest : Block) : Inert (swallowed l n more rest) := by
  rw [swallowed]
  split
  · exact inert_nil
  · exact inert_taken l n rest

/-- The statements that it leaves. -/
def remaining (more : Branches) (rest : Block) : Block := if more.isClosed then rest else rest.beyond

theorem conditionalEnd_tight (c : Condition) (body : Block) (more : Branches) (rest : Block) :
    ∃ b v, Block.tight l n (.cons (.cond c body more) rest) =
        Sv.Stmt.chars l n (.cond c body more) ++ swallowed l n more rest ++ b ++ v ∧ Blank b ∧
      (remaining more rest).Spread l n v ∧
      conditionalEnd (ofList (Block.tight l n (.cons (.cond c body more) rest))) =
        (Sv.Stmt.chars l n (.cond c body more) ++ swallowed l n more rest ++ b).length := by
  have hsplit : Block.tight l n (.cons (.cond c body more) rest) =
      [] ++ l.headed n ifWord c.text (body.text l (n + 1)) ++ (more.chars l n ++ rest.after l n) := by
    simp [Block.tight, Sv.Stmt.text, Sv.Stmt.chars, Sv.Stmt.stop]
  have hreach : conditionalEnd (ofList (Block.tight l n (.cons (.cond c body more) rest))) =
      (Sv.Stmt.chars l n (.cond c body more) ++
        if more.isClosed then [] else rest.taken l n ++ rest.slack l n).length := by
    rw [conditionalEnd, toList_ofList, String.length_ofList, hsplit,
      chainEnd_branch l n blank_nil c body _ rfl rfl (by decide) (by decide)
        (by rw [atStart?_ifHead, Option.some_or]), chainEnd_chars l n _ more rest
        (by simp [Layout.headed, ifWord]; omega)]
    simp [Sv.Stmt.chars]
  obtain ⟨v, hv, hs⟩ := Block.after_eq_slack l n (.cons (.cond c body more) rest)
  refine ⟨_, v, ?_, Block.blank_slack l n (.cons (.cond c body more) rest), hs, ?_⟩
  · simpa [Block.after, Block.taken, Block.tight, swallowed] using hv
  · rw [hreach, swallowed, Block.slack]
    split <;> simp

end Stimulus.Stmt
