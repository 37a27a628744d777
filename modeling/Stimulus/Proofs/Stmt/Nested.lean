import Stimulus.Proofs.Pattern.Reads
import Stimulus.Proofs.Stmt.Write
import Stimulus.Proofs.Sv.Nested

/-!
# Reading conditionals without braces

The extent of a branch without braces is found by reading the conditional that it is. Where an `else`
follows, that conditional has all its own branches, so it ends before the `else`.
-/

open List hiding find? partition
open String (ofList toList_ofList)

namespace Stimulus.Stmt

open Text Sv Pattern Expr

/-! ## Heads of branches -/

section Heads

variable (g : Gaps) (z : List Char)

theorem reads_ifHead {before : List Char} : Reads ifHead before [] g.ifHead z [] :=
  reads_assoc.2 (reads_lit.seq ((reads_blanks g.blank_head (by simp; decide)).seq
    reads_lit))

theorem isBlank_ifHead : ∀ c ∈ (g.ifHead ++ z).head?, isBlank c = false := by
  intro c hc
  obtain rfl : 'i' = c := Option.some.inj hc
  decide

theorem reads_elseIfHead {least : Nat} (h : least ≤ 1) :
    Reads (lit "else" ++ run isBlank least true ++ ifHead) [] [] (g.elseHead ++ g.ifHead) z [] := by
  have hother := length_pos_iff.2 g.other_ne_nil
  have helse {z : List Char} : Reads (lit "else") [] [] "else".toList z [] := reads_lit
  have := helse.seq ((reads_run g.blank_other (isBlank_ifHead g z) (by omega : least ≤ _)).seq (reads_ifHead g z))
  simpa [Gaps.elseHead] using reads_assoc.2 this

theorem isBlank_test (t : Test) : ∀ c ∈ (t.text ++ z).head?, isBlank c = false :=
  ((t.starts.mono fun _ h => isBlank_of_nameTail (nameTail_of_nameHead h)).append z).head

theorem not_spaced_if (t : Test) {a b : List Char} (ha : Blank a) (hb : Blank b) :
    ¬ b ++ ['i', 'f'] <+: a ++ (t.text ++ z) := by
  intro h
  obtain ⟨c, r, htext, hc⟩ := t.starts
  have hblank := isBlank_of_nameTail (nameTail_of_nameHead hc)
  rw [htext, cons_append] at h
  obtain ⟨rfl, -⟩ := blank_start hb ha hblank (by decide) h
  exact t.not_if z (htext ▸ (prefix_append_right_inj b).1 h)

theorem not_elseIfHead (t : Test) (least : Nat) :
    (lit "else" ++ run isBlank least true ++ ifHead).atStart?
      (ofList (g.elseHead ++ (t.text ++ z))) = none := by
  refine atStart?_eq_none fun w hw hpre => ?_
  obtain ⟨u, v, rfl, ⟨u, b, rfl, rfl, hb, -⟩, ⟨x, y, rfl, ⟨i, b', rfl, rfl, -⟩, -⟩⟩ := hw
  rw [Gaps.elseHead, append_assoc, append_assoc] at hpre
  have hrest := (prefix_append_right_inj "else".toList).1 hpre
  refine not_spaced_if z t g.blank_other hb (List.IsPrefix.trans ⟨b' ++ y, ?_⟩ hrest)
  simp

theorem reads_elseHead (t : Test) {p : Pattern}
    (hp : ∀ w, p.Spells w → ∃ b, Blank b ∧ w = b ++ ['i', 'f']) :
    Reads (lit "else" ++ blanks ++ notAhead p) [] [] g.elseHead (t.text ++ z) [] := by
  have hnot : Reads (notAhead p) (g.other.reverse ++ ("else".toList.reverse ++ [])) [] []
      (t.text ++ z) [] := by
    refine reads_notAhead fun s hs k => walk_eq_none fun w hw => ?_
    obtain ⟨b, hb, rfl⟩ := hp w hw
    rw [hs]
    exact not_spaced_if z t (a := []) blank_nil hb
  have helse {z : List Char} : Reads (lit "else") [] [] "else".toList z [] := reads_lit
  have := helse.seq ((reads_blanks g.blank_other (by simpa using isBlank_test z t)).seq hnot)
  simpa [Gaps.elseHead, blanks] using reads_assoc.2 this

/-- What a branch with a condition starts with. -/
inductive Opens : List Char → Prop where
  | first : Opens g.ifHead
  | further : Opens (g.elseHead ++ g.ifHead)

variable {g} {w : List Char}

theorem Opens.head (h : Opens g w) : ∀ c ∈ (w ++ z).head?, isBlank c = false := by
  intro c hc
  cases h with
  | first => exact isBlank_ifHead g z c hc
  | further =>
    obtain rfl : 'e' = c := Option.some.inj hc
    decide

theorem Opens.atStart? (h : Opens g w) : ∃ m : Match,
    (ifHead.atStart? (ofList (w ++ z))).or (spacedElseIfHead.atStart? (ofList (w ++ z))) =
      some m ∧ m.after = z ∧ m.stop = w.length := by
  cases h with
  | first =>
    obtain ⟨m, hm, hafter, hstop⟩ := (reads_ifHead g z).exists_stop
    exact ⟨m, by rw [hm, Option.some_or], hafter, hstop⟩
  | further =>
    obtain ⟨m, hm, hafter, hstop⟩ := (reads_elseIfHead g z (Nat.le_refl 1)).exists_stop
    have hnone : ifHead.atStart? (ofList (g.elseHead ++ g.ifHead ++ z)) = none :=
      atStart?_lit_none (by simp [Gaps.elseHead])
    exact ⟨m, by rw [hnone, Option.none_or]; exact hm, hafter, hstop⟩

end Heads

/-! ## How far a statement reaches -/

/-- What follows a statement without its semicolon: nothing, or the semicolon and, if the statement
leaves no `if` open, any text. -/
inductive Trails (full : Bool) : List Char → Prop where
  | nil : Trails full []
  | stop {r : List Char} (h : full = false → r = []) : Trails full (';' :: r)

theorem Trails.drop {rest : List Char} (h : Trails false rest) : rest.drop 1 = [] := by
  cases h with
  | nil => rfl
  | stop h => exact h rfl

theorem Trails.mono {full : Bool} {rest : List Char} (h : Trails false rest) : Trails full rest := by
  cases h with
  | nil => exact .nil
  | stop h => exact .stop fun _ => h rfl

theorem findFrom_of_not_mem {c : Char} {u : List Char} (h : c ∉ u) (pos : Nat) (v : List Char) :
    findFrom [c] pos (u ++ v) = findFrom [c] (pos + u.length) v := by
  induction u generalizing pos with
  | nil => rfl
  | cons d u ih =>
    obtain ⟨hd, hu⟩ := not_or.1 (mem_cons.not.1 h)
    have hno : beginsWith [c] (d :: (u ++ v)) = false := by
      rw [← Bool.not_eq_true, beginsWith_iff]
      exact fun hp => hd (cons_prefix_cons.1 hp).1
    rw [cons_append, findFrom, hno, if_neg Bool.false_ne_true, ih hu, length_cons]
    congr 1
    omega

theorem findFrom_self (c : Char) (pos : Nat) (v : List Char) : findFrom [c] pos (c :: v) = some pos := by
  rw [findFrom]
  exact if_pos (beginsWith_iff.2 ⟨v, rfl⟩)

section Extent

variable {g : Gaps} {full : Bool}

variable {rest : List Char}

theorem semicolonEnd_test (t : Test) (h : Trails true rest) :
    semicolonEnd (t.text ++ rest) = t.text.length + (rest.take 1).length := by
  have hno : ';' ∉ t.text := t.not_mem (by decide) (by decide)
  rw [semicolonEnd, findFrom_of_not_mem hno]
  cases h with
  | nil => simp [findFrom]
  | stop => simp [findFrom_self]

theorem fitsStart_nested (s : Nested full) (z : List Char) :
    ifHead.fitsStart (ofList (s.chars g ++ z)) = s.isCond := by
  have hcond : ∀ c y, ifHead.fitsStart (ofList (g.cond c y ++ z)) = true := by
    intro c y
    obtain ⟨m, hm, -⟩ := (reads_ifHead g (g.tested c y ++ z)).exists_stop
    rw [fitsStart, Gaps.cond, append_assoc, hm]
    rfl
  cases s with
  | leaf t =>
    have hnone := not_ifHead (t.comparison.opensWithName.append z)
    rw [fitsStart, Nested.chars, Test.text, hnone]
    rfl
  | ifElse c body other => exact hcond c _
  | ifThen c body => exact hcond c _

theorem isBlank_nested (s : Nested full) (z : List Char) :
    ∀ c ∈ (s.chars g ++ z).head?, isBlank c = false :=
  (((s.starts_chars g).mono fun _ h => isBlank_of_nameTail (nameTail_of_nameHead h)).append z).head

theorem fitsStart_blanks (s : Nested full) (z : List Char) :
    (blanks ++ ifHead).fitsStart (ofList (s.chars g ++ z)) = s.isCond := by
  rw [fitsStart, atStart?_blanks (isBlank_nested s z)]
  exact fitsStart_nested s z

theorem not_brace (s : Nested full) (z inner : List Char) : s.chars g ++ z ≠ '{' :: inner := by
  intro heq
  obtain ⟨c, r, hchars, hc⟩ := s.starts_chars g
  rw [hchars, cons_append] at heq
  obtain ⟨rfl, -⟩ := cons_eq_cons.1 heq
  revert hc
  decide

theorem branchLength?_nested {conditional : List Char → Nat} (s : Nested full)
    (hrest : Trails full rest) (h : s.isCond = true → conditional (s.chars g ++ rest) =
      (s.chars g).length + (rest.take 1).length) {b : List Char} (hb : Blank b) :
    branchLength? conditional (b ++ (s.chars g ++ rest)) =
      some (b.length + ((s.chars g).length + (rest.take 1).length)) := by
  have hdrop := dropWhile_gap hb (isBlank_nested (g := g) s rest)
  have hblank : (b ++ (s.chars g ++ rest)).length - (s.chars g ++ rest).length = b.length := by
    simp
  rw [branchLength?, hdrop]
  dsimp only
  split
  · next inner heq => exact absurd heq (not_brace s rest inner)
  · rw [hblank, fitsStart_blanks]
    by_cases hcond : s.isCond = true
    · rw [if_pos hcond, h hcond]
    · rw [if_neg hcond]
      cases s with
      | leaf t => rw [Nested.chars, semicolonEnd_test t hrest]
      | ifElse | ifThen => exact absurd rfl hcond

theorem chainEnd_open {a w : List Char} (ha : Blank a) (hw : Opens g w) (c : Test) {after : List Char}
    {fuel n : Nat} (hn : branchLength? (chainEnd fuel 0) after = some n) (pos : Nat) :
    chainEnd (fuel + 1) pos (a ++ (w ++ (c.text ++ ')' :: after))) =
      chainEnd fuel (pos + (a.length + (w.length + (c.text.length + (1 + n))))) (after.drop n) := by
  obtain ⟨m, hm, hafter, hstop⟩ := hw.atStart? (c.text ++ ')' :: after)
  have hdrop := dropWhile_gap ha (hw.head (c.text ++ ')' :: after))
  rw [chainEnd]
  simp only [hdrop, hm, hafter, hstop, closing?_closed (.inl ⟨rfl, rfl⟩) c.closed, hn]
  congr 1
  simp only [length_append]
  omega

/-- A test after `else` ends the chain. -/
theorem chainEnd_else_test {a : List Char} (ha : Blank a) (t : Test)
    (hrest : Trails true rest) (fuel pos : Nat) :
    chainEnd (fuel + 1) pos (a ++ (g.elseHead ++ (t.text ++ rest))) =
      pos + (a.length + (g.elseHead.length + (t.text.length + (rest.take 1).length))) := by
  obtain ⟨m, hm, hafter, hstop⟩ := (reads_elseHead g rest t (p := lit "if")
    fun w hw => ⟨[], blank_nil, hw⟩).exists_stop
  have hdrop : (a ++ (g.elseHead ++ (t.text ++ rest))).dropWhile isBlank =
      g.elseHead ++ (t.text ++ rest) := by
    rw [dropWhile_blank_append ha]
    rfl
  have hif : ifHead.atStart? (ofList (g.elseHead ++ (t.text ++ rest))) = none :=
    atStart?_lit_none (by simp [Gaps.elseHead])
  have hbranch : branchLength? (chainEnd fuel 0) ([] ++ (Nested.chars g (.leaf t) ++ rest)) = _ :=
    branchLength?_nested (.leaf t) hrest (by simp [Nested.isCond]) blank_nil
  rw [nil_append, length_nil, Nat.zero_add] at hbranch
  rw [chainEnd]
  simp only [hdrop, hif, not_elseIfHead g rest t 1, spacedElseIfHead, blanks1, Option.or_none, hm, hafter, hstop]
  rw [show branchLength? (chainEnd fuel 0) (t.text ++ rest) = _ from hbranch]
  simp only [length_append, Nested.chars]
  omega

variable (g) in
/-- The chain of branches that a conditional starts or goes on reaches to the end of its text and the
semicolon after it. -/
def Reaches (s : Nested full) : Prop :=
  s.isCond = true → ∀ {rest : List Char}, Trails full rest → ∀ {fuel : Nat},
    (s.tail g ++ rest).length < fuel → ∀ {a w : List Char}, Blank a → Opens g w → ∀ pos,
    chainEnd fuel pos (a ++ (w ++ (s.tail g ++ rest))) =
      pos + (a.length + (w.length + ((s.tail g).length + (rest.take 1).length)))

section Reaches

variable {s : Nested full} (h : Reaches g s) {rest : List Char} (hrest : Trails full rest) {fuel : Nat}

include h hrest

theorem Reaches.chainEnd (hs : s.isCond = true) (hf : (s.chars g ++ rest).length ≤ fuel) :
    chainEnd fuel 0 (s.chars g ++ rest) = (s.chars g).length + (rest.take 1).length := by
  rw [s.chars_of_isCond g hs, append_assoc] at hf ⊢
  have hlen : (s.tail g ++ rest).length < fuel := by
    simp [Gaps.ifHead] at hf ⊢
    omega
  have := h hs hrest hlen (a := []) blank_nil .first 0
  rw [nil_append, length_nil, Nat.zero_add, Nat.zero_add] at this
  rw [this, length_append, Nat.add_assoc]

theorem Reaches.branchLength? (hf : (s.chars g ++ rest).length ≤ fuel) {b : List Char} (hb : Blank b) :
    branchLength? (Stmt.chainEnd fuel 0) (b ++ (s.chars g ++ rest)) =
      some (b.length + ((s.chars g).length + (rest.take 1).length)) :=
  branchLength?_nested s hrest (fun hs => h.chainEnd hrest hs hf) hb

/-- The chain goes on with an `else`. -/
theorem Reaches.other (hf : (s.chars g ++ rest).length < fuel) {a : List Char} (ha : Blank a)
    (pos : Nat) : Stmt.chainEnd fuel pos (a ++ (g.elseHead ++ (s.chars g ++ rest))) =
      pos + (a.length + (g.elseHead.length + ((s.chars g).length + (rest.take 1).length))) := by
  by_cases hs : s.isCond = true
  · rw [s.chars_of_isCond g hs] at hf ⊢
    have hlen : (s.tail g ++ rest).length < fuel := by
      simp at hf ⊢
      omega
    have := h hs hrest hlen ha .further pos
    simp only [append_assoc, length_append] at this ⊢
    omega
  · cases s with
    | ifElse | ifThen => exact absurd rfl hs
    | leaf t =>
      obtain ⟨fuel, rfl⟩ := Nat.exists_eq_add_of_lt (Nat.zero_lt_of_lt hf)
      rw [Nat.zero_add]
      exact chainEnd_else_test ha t hrest fuel pos

end Reaches

theorem drop_length_take (cs : List Char) : cs.drop (cs.take 1).length = cs.drop 1 := by
  cases cs <;> simp

theorem chainEnd_nested (s : Nested full) : Reaches g s := by
  induction s with
  | leaf => exact fun hs => nomatch hs
  | ifThen c body ih =>
    intro _ rest hrest fuel hf a w ha hw pos
    have htext : Nested.tail g (.ifThen c body) ++ rest =
        c.text ++ ')' :: (g.body ++ (body.chars g ++ rest)) := by
      simp [Nested.tail, Gaps.tested]
    have hlen : (Nested.tail g (.ifThen c body)).length =
        c.text.length + (1 + (g.body.length + (body.chars g).length)) := by
      simp [Nested.tail, Gaps.tested]
      omega
    rw [htext] at hf ⊢
    simp only [length_append, length_cons] at hf
    obtain ⟨fuel, rfl⟩ : ∃ n, fuel = n + 1 + 1 := ⟨fuel - 2, by omega⟩
    have hshort : (body.chars g ++ rest).length ≤ fuel + 1 := by
      simp
      omega
    have hn := ih.branchLength? hrest.mono hshort g.blank_body
    have hdrop : (g.body ++ (body.chars g ++ rest)).drop
        (g.body.length + ((body.chars g).length + (rest.take 1).length)) = [] := by
      rw [drop_length_add_append, drop_length_add_append, drop_length_take, hrest.drop]
    -- no text is left, so no branch follows
    have hstop : ∀ pos, chainEnd (fuel + 1) pos [] = pos :=
      chainEnd_stop (a := []) (t := []) blank_nil (by simp) (atStart?_lit_none (by simp))
        (by simp) fuel
    rw [chainEnd_open ha hw c hn pos, hdrop, hstop, hlen]
    omega
  | ifElse c body other ihb iho =>
    intro _ rest hrest fuel hf a w ha hw pos
    have htext : Nested.tail g (.ifElse c body other) ++ rest = c.text ++ ')' ::
        (g.body ++ (body.chars g ++ (g.orElse (other.chars g) ++ rest))) := by
      simp [Nested.tail, Gaps.tested]
    have hlen : (Nested.tail g (.ifElse c body other)).length = c.text.length +
        (1 + (g.body.length + ((body.chars g).length + (g.orElse (other.chars g)).length))) := by
      simp [Nested.tail, Gaps.tested]
      omega
    have helse : (g.orElse (other.chars g)).length =
        1 + (g.next.length + (g.elseHead.length + (other.chars g).length)) := by
      simp [Gaps.orElse]
      omega
    rw [htext] at hf ⊢
    simp only [length_append, length_cons] at hf
    obtain ⟨fuel, rfl⟩ := Nat.exists_eq_add_of_lt (by omega : 0 < fuel)
    rw [Nat.zero_add] at hf ⊢
    have hshort : (body.chars g ++ (g.orElse (other.chars g) ++ rest)).length ≤ fuel := by
      simp
      omega
    have htrails : Trails true (g.orElse (other.chars g) ++ rest) := .stop (by simp)
    have hn := ihb.branchLength? htrails hshort g.blank_body
    have hdrop : (g.body ++ (body.chars g ++ (g.orElse (other.chars g) ++ rest))).drop
        (g.body.length + ((body.chars g).length + 1)) =
          g.next ++ (g.elseHead ++ (other.chars g ++ rest)) := by
      rw [drop_length_add_append, drop_length_add_append]
      simp [Gaps.orElse]
    have hlast : (other.chars g ++ rest).length < fuel := by
      simp
      omega
    have hother := iho.other hrest hlast g.blank_next
    have hone : ((g.orElse (other.chars g) ++ rest).take 1).length = 1 := rfl
    rw [chainEnd_open ha hw c hn pos, hone, hdrop, hother, hlen, helse]
    omega

theorem conditionalEnd_nested {s : Nested full} (hs : s.isCond = true)
    (hrest : Trails full rest) : conditionalEnd (ofList (s.chars g ++ rest)) =
      (s.chars g).length + (rest.take 1).length := by
  rw [conditionalEnd, toList_ofList, String.length_ofList]
  exact (chainEnd_nested s).chainEnd hrest hs (Nat.le_succ _)

end Extent

/-! ## The parts of a conditional -/

section Parts

variable {g : Gaps} {full : Bool}

variable {rest : List Char}

theorem trim_nested (s : Nested full) (hlast : ∀ c ∈ rest.getLast?, isBlank c = false) :
    Trim (s.chars g ++ rest) := by
  refine ⟨isBlank_nested s rest, fun d hd => ?_⟩
  cases rest with
  | nil => exact (s.trim_chars g).last d (by simpa using hd)
  | cons c r => exact hlast d (by rwa [getLast?_append_of_ne_nil _ (by simp)] at hd)

variable (g) in
/-- A statement as it is cut out of a branch: a conditional keeps the semicolon after it. -/
def cutOut (s : Nested full) (rest : List Char) : List Char :=
  s.chars g ++ if s.isCond then rest.take 1 else []

theorem Trails.take_cases (h : Trails full rest) :
    rest.take 1 = [] ∨ rest.take 1 = [';'] := by
  cases h with
  | nil => exact .inl rfl
  | stop => exact .inr rfl

theorem isBlank_stop {e : List Char} (he : e = [] ∨ e = [';']) : ∀ c ∈ e.getLast?, isBlank c = false := by
  rcases he with rfl | rfl
  · simp
  · simp
    decide

theorem inlineStatement_nested (s : Nested full) (hrest : Trails full rest)
    (hlast : ∀ c ∈ rest.getLast?, isBlank c = false) :
    inlineStatement (ofList (s.chars g ++ rest)) =
      (ofList (cutOut g s rest), strip (ofList (rest.drop 1))) := by
  rw [inlineStatement, strip_of_trim (trim_nested s hlast)]
  dsimp only
  rw [fitsStart_nested]
  by_cases hs : s.isCond = true
  · have htake : rest.take (rest.take 1).length = rest.take 1 := by
      cases rest <;> simp
    rw [if_pos hs, conditionalEnd_nested hs hrest, cutOut, if_pos hs, Text.take, Text.drop,
      toList_ofList, take_length_add_append, drop_length_add_append, drop_length_take,
      htake, strip_of_trim (trim_nested s (isBlank_stop hrest.take_cases))]
  · rw [if_neg hs, cutOut, if_neg hs, append_nil]
    cases s with
    | ifElse | ifThen => exact absurd rfl hs
    | leaf t =>
      have hno : ';' ∉ t.text := t.not_mem (by decide) (by decide)
      have hfind : find? ";" (ofList (t.text ++ rest)) =
          findFrom [';'] (0 + t.text.length) rest := by
        rw [find?, toList_ofList, toList_ofList]
        exact findFrom_of_not_mem hno 0 rest
      have htrim : Trim t.text := Nested.trim_chars g (.leaf t)
      rw [Nested.chars, partition, hfind]
      cases hrest with
      | nil =>
        rw [append_nil]
        rfl
      | stop =>
        have hsize : ";".length = 1 := rfl
        rw [findFrom_self, Nat.zero_add]
        simp [strip_of_trim htrim, hsize]

theorem not_begin (s : Nested full) (rest : List Char) : ¬ "begin".toList <+: s.chars g ++ rest := by
  cases s with
  | leaf t => exact t.not_begin rest
  | ifElse c body other | ifThen c body => simp [Nested.chars, Gaps.cond, Gaps.ifHead]

theorem branchBody?_nested (s : Nested full) (hrest : Trails full rest)
    (hlast : ∀ c ∈ rest.getLast?, isBlank c = false) {b : List Char} (hb : Blank b) :
    branchBody? (b ++ (s.chars g ++ rest)) =
      some (ofList (cutOut g s rest), strip (ofList (rest.drop 1))) := by
  rw [branchBody?, dropWhile_gap hb (isBlank_nested s rest)]
  dsimp only
  split
  · next inner heq => exact absurd heq (not_brace s rest inner)
  · rw [dropStart?_eq_none.2 (not_begin s rest)]
    exact congrArg some (inlineStatement_nested s hrest hlast)

variable (g) in
/-- The first branch of a conditional. -/
def branchOf (c : Test) (s : Nested full) (rest : List Char) : Branch where
  condition := ofList c.text
  body := ofList (cutOut g s rest)
  rest := strip (ofList (rest.drop 1))

section Branch

variable (c : Test) (s : Nested full) {rest : List Char} (hrest : Trails full rest)
  (hlast : ∀ c ∈ rest.getLast?, isBlank c = false)

include hrest hlast

theorem conditionedBranch?_nested {m : Match} (hm : m.after = g.tested c (s.chars g ++ rest)) :
    conditionedBranch? m = some (branchOf g c s rest) := by
  have htrim : Trim c.text := Nested.trim_chars g (.leaf c)
  rw [conditionedBranch?, hm, Gaps.tested, closing?_closed (.inl ⟨rfl, rfl⟩) c.closed]
  simp only [Option.bind_eq_bind, Option.bind_some]
  rw [branchBody?_nested s hrest hlast g.blank_body, strip_of_trim htrim]
  rfl

omit hrest in
theorem last_cond (u : List Char) :
    ∀ d ∈ (u ++ g.cond c (s.chars g ++ rest)).getLast?, isBlank d = false := by
  intro d hd
  have hsplit : u ++ g.cond c (s.chars g ++ rest) =
      (u ++ (g.ifHead ++ (c.text ++ ')' :: g.body))) ++ (s.chars g ++ rest) := by
    simp [Gaps.cond, Gaps.tested]
  rw [hsplit, getLast?_append_of_ne_nil _ (by simp [(s.starts_chars g).ne_nil])] at hd
  exact (trim_nested s hlast).last d hd

theorem ifBranch?_nested : ifBranch? (ofList (g.cond c (s.chars g ++ rest))) =
    some (branchOf g c s rest) := by
  have htrim : Trim (g.cond c (s.chars g ++ rest)) :=
    ⟨isBlank_ifHead g _, last_cond c s hlast []⟩
  obtain ⟨m, hm, hafter, -⟩ := (reads_ifHead g (g.tested c (s.chars g ++ rest))).exists_stop
  rw [ifBranch?, strip_of_trim htrim, Gaps.cond, hm, Option.bind_some]
  exact conditionedBranch?_nested c s hrest hlast hafter

theorem elseIfBranch?_nested :
    elseIfBranch? (ofList (g.elseHead ++ g.cond c (s.chars g ++ rest))) =
      some (branchOf g c s rest) := by
  have htrim : Trim (g.elseHead ++ g.cond c (s.chars g ++ rest)) :=
    ⟨by simp [Gaps.elseHead]; decide, last_cond c s hlast _⟩
  obtain ⟨m, hm, hafter, -⟩ :=
    (reads_elseIfHead g (g.tested c (s.chars g ++ rest)) (Nat.zero_le 1)).exists_stop
  rw [append_assoc] at hm
  rw [elseIfBranch?, strip_of_trim htrim, elseIfHead, blanks, Gaps.cond, hm, Option.bind_some]
  exact conditionedBranch?_nested c s hrest hlast hafter

end Branch

theorem elseBranch?_test (t : Test) {e : List Char} (he : e = [] ∨ e = [';']) :
    elseIfBranch? (ofList (g.elseHead ++ (t.text ++ e))) = none ∧
      elseBranch? (ofList (g.elseHead ++ (t.text ++ e))) = some (ofList t.text, "") := by
  have hrest : Trails true e := by
    rcases he with rfl | rfl
    · exact .nil
    · exact .stop (by simp)
  have hlast := isBlank_stop he
  have htrim : Trim (g.elseHead ++ (t.text ++ e)) := by
    refine ⟨by simp [Gaps.elseHead]; decide, fun d hd => ?_⟩
    rw [getLast?_append_of_ne_nil _ (by simp [t.starts.ne_nil])] at hd
    exact (trim_nested (g := g) (.leaf t) hlast).last d hd
  obtain ⟨m, hm, hafter, -⟩ := (reads_elseHead g e t (p := blanks ++ lit "if") (by
    rintro w ⟨b, y, rfl, hb, rfl⟩
    exact ⟨b, hb.1, rfl⟩)).exists_stop
  have hbody := branchBody?_nested (g := g) (.leaf t) hrest hlast (b := []) blank_nil
  constructor
  · rw [elseIfBranch?, strip_of_trim htrim, elseIfHead, blanks, not_elseIfHead g e t 0]
    rfl
  · rw [elseBranch?, strip_of_trim htrim, hm, Option.bind_some, hafter]
    refine hbody.trans ?_
    rcases he with rfl | rfl <;> simp [cutOut, Nested.isCond, Nested.chars] <;> rfl

end Parts

/-! ## Statements -/

section Split

variable {g : Gaps} {full : Bool}

theorem elseFollows_next (z : List Char) : elseFollows (g.next ++ (g.elseHead ++ z)) = true := by
  rw [elseFollows, dropWhile_blank_append g.blank_next]
  exact beginsWith_iff.2 ⟨g.other ++ z, rfl⟩

/-- The semicolon before an `else` ends no statement. -/
theorem passesOuter_orElse {z : List Char} (h : PassesOuter z) : PassesOuter (g.orElse z) := by
  have hword : PassesOuter g.elseHead :=
    (passesOuter_of_forall (w := ['e', 'l', 's', 'e']) (by decide)).append
      (passesOuter_blank g.blank_other)
  intro rest hf current prev prev'
  have htext : g.orElse z ++ rest = ';' :: (g.next ++ (g.elseHead ++ (z ++ rest))) := by
    simp [Gaps.orElse]
  have hcuts : cuts {} ';' (g.next ++ (g.elseHead ++ (z ++ rest))) = false := by
    simp [cuts, elseFollows_next]
  have hstep : Depths.step {} ';' = {} := rfl
  have hpass := (passesOuter_blank g.blank_next).append (hword.append h)
  have hnext : g.next ++ (g.elseHead ++ (z ++ rest)) = g.next ++ (g.elseHead ++ z) ++ rest := by simp
  rw [htext] at hf ⊢
  rw [splitFrom_pass hf hcuts current prev none, hstep]
  rw [hnext] at hf ⊢
  rw [hpass rest (Free.tail hf) _ none prev']
  simp [Gaps.orElse]

theorem passesOuter_cond (c : Test) {z : List Char} (h : PassesOuter z) : PassesOuter (g.cond c z) := by
  have hhead : PassesOuter (['i', 'f'] ++ g.head) :=
    (passesOuter_of_forall (by decide)).append (passesOuter_blank g.blank_head)
  have := (hhead.append (passesOuter_paren c.closed)).append
    ((passesOuter_blank g.blank_body).append h)
  simpa [Gaps.cond, Gaps.ifHead, Gaps.tested] using this

theorem passesOuter_nested (s : Nested full) : PassesOuter (s.chars g) := by
  induction s with
  | leaf t =>
    exact passesOuter_closed t.closed (t.not_mem (by decide) (by decide))
      (t.not_mem (by decide) (by decide))
  | ifElse c body other ihb iho => exact passesOuter_cond c (ihb.append (passesOuter_orElse iho))
  | ifThen c body ih => exact passesOuter_cond c ih

variable {e : List Char} (he : e = [] ∨ e = [';'])

include he

theorem split_nested (s : Nested full) :
    split (ofList (s.chars g ++ e)) = [ofList (s.chars g ++ e)] := by
  have hfree : Free blockWords (s.chars g ++ e) := by
    rcases he with rfl | rfl
    · rw [append_nil]
      exact s.free_chars g
    · exact free_join (by decide) (s.free_chars g) (free_nil (by decide))
  exact split_of_passesOuter (passesOuter_nested s) hfree (trim_nested s (isBlank_stop he))
    (s.starts_chars g).ne_nil he

theorem strip_nested (s : Nested full) :
    strip (stripRightOf ';' (ofList (s.chars g ++ e))) = ofList (s.chars g) :=
  strip_semicolon (s.ends_chars g) (s.trim_chars g) he

theorem trails_stop : Trails full e := by
  rcases he with rfl | rfl
  · exact .nil
  · exact .stop fun _ => rfl

theorem blockParts_nested (s : Nested full) : blockParts (ofList (s.chars g ++ e)) =
    [ofList (s.chars g ++ if s.isCond then e else [])] := by
  have htrim := trim_nested (g := g) s (isBlank_stop he)
  rw [blockParts, fitsStart_nested]
  by_cases hs : s.isCond = true
  · have htake : e.take 1 = e := by
      rcases he with rfl | rfl <;> rfl
    have hall : (s.chars g).length + e.length = (s.chars g ++ e).length := by simp
    rw [if_pos hs, if_pos hs, conditionalEnd_nested hs (trails_stop he), htake, hall]
    dsimp only
    rw [Text.take, Text.drop, toList_ofList, take_length, drop_length,
      strip_of_trim htrim, strip_of_trim trim_nil, split, toList_ofList, splitFrom,
      finish_blank blank_nil]
    rfl
  · rw [if_neg hs, if_neg hs, split_nested he, append_nil, map_singleton, bare,
      strip_of_trim htrim, strip_nested he]

end Split

end Stimulus.Stmt
