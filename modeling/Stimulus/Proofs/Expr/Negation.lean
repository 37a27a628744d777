import Stimulus.Proofs.Expr.Logic
import Stimulus.Proofs.Outcome
import Stimulus.Proofs.Pattern.Reads
import Stimulus.Proofs.Text.Closed

/-!
# Negated comparisons

A negated comparison is turned round by the first mark of a list that occurs in it. There `>` and `<`
stand before `>=` and `<=`, so the longer marks are never found: `!(a >= b)` becomes `(a <= = b)`. The
converter that balances parentheses also takes the `!` of `!=` for a second negation.
-/

open List
open String (ofList toList_ofList)

namespace Stimulus.Text

variable {old new u v : List Char} {d : Char}

theorem substitute_append_cons (hold : old ≠ []) (hd : d ∉ old) :
    substitute old new (u ++ d :: v) = substitute old new u ++ d :: substitute old new v := by
  have hskip : substitute old new (d :: v) = d :: substitute old new v := by
    refine substitute_skip fun hpre => ?_
    obtain ⟨c, old, rfl⟩ := exists_cons_of_ne_nil hold
    exact hd ((cons_prefix_cons.1 hpre).1 ▸ mem_cons_self)
  induction hlen : u.length using Nat.strongRecOn generalizing u with
  | ind n ih =>
    by_cases hpre : old <+: u
    · obtain ⟨u, rfl⟩ := hpre
      have hshort : u.length < n := by
        have := length_pos_iff.2 hold
        rw [length_append] at hlen
        omega
      rw [append_assoc, substitute_hit hold, substitute_hit hold, ih _ hshort rfl]
      simp
    · cases u with
      | nil =>
        have hnil : substitute old new [] = [] :=
          substitute_of_not_infix fun hin => hold (infix_nil.1 hin)
        rw [nil_append, hskip, hnil]
        rfl
      | cons c u =>
        have hfull : ¬ old <+: c :: (u ++ d :: v) := fun h => hpre (prefix_append_cons hd h)
        rw [cons_append, substitute_skip hfull, substitute_skip hpre, ih u.length ?_ rfl]
        · rfl
        · rw [← hlen, length_cons]
          omega

theorem findFrom_shuns (h : Shuns old u) (pos : Nat) :
    findFrom old pos (u ++ v) = findFrom old (pos + u.length) v := by
  induction u generalizing pos with
  | nil => rfl
  | cons c u ih =>
    have hnot : beginsWith old (c :: (u ++ v)) = false := by
      rw [← Bool.not_eq_true, beginsWith_iff]
      exact h [] (c :: u) v rfl (by simp)
    have hu : Shuns old u := fun a b z hab hb => h (c :: a) b z (by rw [hab]; rfl) hb
    rw [cons_append, findFrom, hnot, ih hu]
    simp [Nat.add_right_comm, Nat.add_assoc]

theorem partition_shuns (h : Shuns old u) :
    partition (ofList old) (ofList (u ++ (old ++ v))) =
      (ofList u, some (ofList v)) := by
  have hfind : find? (ofList old) (ofList (u ++ (old ++ v))) = some u.length := by
    rw [find?, toList_ofList, toList_ofList, findFrom_shuns h, Nat.zero_add]
    have hbegins : beginsWith old (old ++ v) = true := beginsWith_iff.2 (prefix_append _ _)
    cases hov : old ++ v with
    | nil => simp [findFrom, (append_eq_nil_iff.1 hov).1]
    | cons c r => rw [findFrom, ← hov, hbegins, if_pos rfl]
  rw [partition, hfind]
  simp

theorem partition_eq_self {s : String} (h : ¬ old <:+: s.toList) :
    partition (ofList old) s = (s, none) := by
  have hfind : find? (ofList old) s = none := by
    rw [← Option.not_isSome_iff_eq_none, find?, toList_ofList]
    exact fun hs => h (findFrom_isSome_iff.1 hs)
  rw [partition, hfind]

end Stimulus.Text

namespace Stimulus.Pattern

open Spot Text

variable {p : Pattern} {f : Match → String} {u v w z : List Char} {kept : List (Nat × List Char)}

theorem replaceFrom_skips (h : Skips p u) (before : List Char) (pos : Nat) :
    replaceFrom p f before pos (u ++ z) =
      u ++ replaceFrom p f (u.reverse ++ before) (pos + u.length) z := by
  induction u generalizing before pos with
  | nil => rfl
  | cons c u ih =>
    have hu : Skips p u := fun a b z hab hb => h (c :: a) b z (by rw [hab]; rfl) hb
    have hhere : walk p ⟨before, c :: (u ++ z), pos, []⟩ some = none :=
      h [] (c :: u) z rfl (by simp) _ rfl
    rw [cons_append, replaceFrom_skip hhere, ih hu]
    simp [Nat.add_assoc, Nat.add_comm 1]

theorem Reads.replaceAll {t : List Char} (hu : Skips p u) (hw : w ≠ [])
    (h : Reads p u.reverse [] w z kept) (hz : Lacks p z)
    (hf : ∀ m : Match, m.pieces = kept → (f m).toList = t) :
    p.replaceAll f (ofList (u ++ (w ++ z))) = ofList (u ++ (t ++ z)) := by
  obtain ⟨b, hb, hst, hkept⟩ := h ⟨u.reverse, w ++ z, u.length, []⟩ rfl rfl rfl
  have hafter : b.after = z := (append_cancel_left hst.after).symm
  have hpos : b.pos ≠ u.length := by
    have := length_pos_iff.2 hw
    have := hst.pos
    simp only at this
    omega
  rw [replaceAll_eq, toList_ofList, replaceFrom_skips hu, append_nil, Nat.zero_add,
    replaceFrom_hit (hb some b rfl) hpos, hf (Match.between _ b) hkept, hafter, replaceFrom_of_none]
  intro x y hxy
  exact hz _ ⟨x, hxy.symm⟩

end Stimulus.Pattern

namespace Stimulus.Sv

def Rel.opposite : Rel → Rel
  | eq => ne
  | ne => eq
  | lt => ge
  | gt => le
  | le => gt
  | ge => lt

theorem Rel.holds_opposite (r : Rel) (x y : Int) : r.opposite.holds x y = !r.holds x y := by
  cases r <;> simp [opposite, holds, bne, ← decide_not]

/-- The comparison whose mark is found where the mark of another one stands. -/
def Rel.found : Rel → Rel
  | le => lt
  | ge => gt
  | r => r

/-- What is left of a mark after the one that is found. -/
def Rel.surplus : Rel → List Char
  | le | ge => ['=']
  | _ => []

theorem Rel.chars_eq (r : Rel) : r.chars = r.found.chars ++ r.surplus := by cases r <;> rfl

end Stimulus.Sv

namespace Stimulus.Expr

open Text Sv Pattern Spot

/-! ## Negated comparisons in a text -/

/-- A character of an operand. -/
def IsTermChar (c : Char) : Prop := nameTail c = true ∨ c ∈ [' ', '+', '-']

/-- An operand: names, numbers and signs, without blanks at its ends. -/
structure Term where
  chars : List Char
  forall_chars : ∀ c ∈ chars, IsTermChar c
  trim : Trim chars
  ne_nil : chars ≠ []

/-- An expression that negates one comparison and has no other negation. -/
structure Negated where
  before : List Char
  left : Term
  rel : Rel
  right : Term
  after : List Char
  before_plain : '!' ∉ before
  after_plain : '!' ∉ after

namespace Negated

variable (n : Negated)

/-- The text on the left of what is found. -/
def lead : List Char := n.left.chars ++ [' ']

/-- The text on the right of what is found. -/
def trail : List Char := n.rel.surplus ++ ' ' :: n.right.chars

/-- The comparison, without parentheses. -/
def inner : List Char := n.lead ++ (n.rel.chars ++ ' ' :: n.right.chars)

/-- The expression without the negation. -/
def plain : List Char := n.before ++ ('(' :: n.inner ++ [')']) ++ n.after

/-- The expression. -/
def text : List Char := n.before ++ ('!' :: '(' :: n.inner ++ [')']) ++ n.after

/-- The opposite comparison. -/
def complement : List Char :=
  '(' :: n.left.chars ++ ' ' :: n.rel.opposite.chars ++ ' ' :: n.right.chars ++ [')']

theorem inner_eq : n.inner = n.lead ++ (n.rel.found.chars ++ n.trail) := by
  simp [inner, trail, n.rel.chars_eq]

end Negated

instance (c : Char) : Decidable (IsTermChar c) := inferInstanceAs (Decidable (_ ∨ _))

theorem not_isTermChar (r : Rel) : ∀ c ∈ r.chars, ¬ IsTermChar c := by
  cases r <;> decide

section Inner

variable (n : Negated)

theorem isTermChar_lead : ∀ c ∈ n.lead, IsTermChar c := by
  intro c hc
  rcases mem_append.1 hc with h | h
  · exact n.left.forall_chars c h
  · exact .inr (by simp_all)

theorem isTermChar_right : ∀ c ∈ ' ' :: n.right.chars, IsTermChar c :=
  forall_mem_cons.2 ⟨.inr (by decide), n.right.forall_chars⟩

theorem mem_inner {c : Char} (h : c ∈ n.inner) : IsTermChar c ∨ c ∈ n.rel.chars := by
  rcases mem_append.1 h with h | h
  · exact .inl (isTermChar_lead n c h)
  rcases mem_append.1 h with h | h
  · exact .inr h
  · exact .inl (isTermChar_right n c h)

theorem infix_inner {w : List Char} (hw : ∀ c ∈ w, ¬ IsTermChar c) (hne : w ≠ []) :
    w <:+: n.inner ↔ w <:+: n.rel.chars := by
  constructor
  · intro h
    obtain ⟨d, w, rfl⟩ := exists_cons_of_ne_nil hne
    have hshuns : Shuns (d :: w) n.lead :=
      shuns_of_not_mem fun hd => hw d mem_cons_self (isTermChar_lead n d hd)
    rcases infix_append_cons (fun hc => hw ' ' hc (.inr (by decide))) (hshuns.infix_iff.1 h) with h | h
    · exact h
    · exact absurd (n.right.forall_chars d (h.subset mem_cons_self)) (hw d mem_cons_self)
  · intro h
    exact h.trans ⟨n.lead, ' ' :: n.right.chars, by simp [Negated.inner]⟩

theorem trim_inner : Trim n.inner := by
  obtain ⟨c, l, hl⟩ := exists_cons_of_ne_nil n.left.ne_nil
  refine ⟨?_, ?_⟩
  · have := n.left.trim.1
    simpa [Negated.inner, Negated.lead, hl] using this
  · have := n.right.trim.2
    have hlast : n.inner.getLast? = n.right.chars.getLast? := by
      rw [Negated.inner, ← append_assoc, append_cons,
        getLast?_append_of_ne_nil _ n.right.ne_nil]
    rwa [hlast]

theorem shuns_lead (r : Rel) : Shuns r.chars n.lead := by
  have hne : r.chars ≠ [] := by cases r <;> decide
  obtain ⟨d, w, hr⟩ := exists_cons_of_ne_nil hne
  rw [hr]
  exact shuns_of_not_mem fun hd =>
    not_isTermChar r d (hr ▸ mem_cons_self) (isTermChar_lead n d hd)

theorem infix_inner_rel (r : Rel) : r.chars <:+: n.inner ↔ r.chars <:+: n.rel.chars :=
  infix_inner n (not_isTermChar r) (by cases r <;> decide)

end Inner

/-! ## The opposite of a comparison -/

/-- The right operand, with what is left of the mark. -/
def Negated.rest (n : Negated) : List Char :=
  if n.rel.surplus = [] then n.right.chars else n.trail

/-- The comparison as it is turned round by the mark that is found. -/
def Negated.turned (n : Negated) : List Char :=
  '(' :: n.left.chars ++ ' ' :: n.rel.found.opposite.chars ++ ' ' :: n.rest ++ [')']

theorem exists_gap (n : Negated) : ∃ g, Blank g ∧ n.trail = g ++ n.rest ∧ Trim n.rest ∧ n.rest ≠ [] := by
  by_cases h : n.rel.surplus = []
  · refine ⟨[' '], by decide, ?_, ?_, ?_⟩ <;> rw [Negated.rest, if_pos h]
    · simp [Negated.trail, h]
    · exact n.right.trim
    · exact n.right.ne_nil
  · have hsurplus : n.rel.surplus = ['='] := by
      revert h
      cases n.rel <;> simp [Rel.surplus]
    refine ⟨[], blank_nil, ?_, ?_, ?_⟩ <;> rw [Negated.rest, if_neg h]
    · rfl
    · refine ⟨by simp [Negated.trail, hsurplus]; decide, ?_⟩
      rw [Negated.trail, append_cons, getLast?_append_of_ne_nil _ n.right.ne_nil]
      exact n.right.trim.last
    · simp [Negated.trail, hsurplus]

/-- The comparisons in the order in which their marks are looked for. -/
def askedRels : List Rel := [.eq, .ne, .gt, .lt, .ge, .le]

theorem oppositeOf_eq : oppositeOf = askedRels.map fun r =>
    (ofList r.chars, ofList r.opposite.chars) := by
  decide

theorem exists_askedRels (r : Rel) : ∃ earlier later, askedRels = earlier ++ r.found :: later ∧
    ∀ q ∈ earlier, ¬ q.chars <:+: r.chars := by
  cases r with
  | eq => exact ⟨[], _, rfl, by decide⟩
  | ne => exact ⟨[.eq], _, rfl, by decide⟩
  | gt | ge => exact ⟨[.eq, .ne], _, rfl, by decide⟩
  | lt | le => exact ⟨[.eq, .ne, .gt], _, rfl, by decide⟩

theorem findSome?_oppositeOf {α : Type} (n : Negated) {ask : String × String → Option α} {a : α}
    (hnone : ∀ r : Rel, ¬ r.chars <:+: n.inner →
      ask (ofList r.chars, ofList r.opposite.chars) = none)
    (hsome : ask (ofList n.rel.found.chars, ofList n.rel.found.opposite.chars) = some a) :
    oppositeOf.findSome? ask = some a := by
  obtain ⟨earlier, later, hasked, habsent⟩ := exists_askedRels n.rel
  have hearlier : (earlier.map fun r : Rel =>
      (ofList r.chars, ofList r.opposite.chars)).findSome? ask = none := by
    rw [findSome?_eq_none_iff]
    intro x hx
    obtain ⟨r, hr, rfl⟩ := mem_map.1 hx
    exact hnone r ((infix_inner_rel n r).not.2 (habsent r hr))
  rw [oppositeOf_eq, hasked, map_append, findSome?_append, hearlier, map_cons,
    findSome?_cons_of_isSome (by simp [hsome])]
  exact hsome

theorem opposite_inner (n : Negated) : opposite (ofList n.inner) = ofList n.turned := by
  have hleft : strip (ofList n.lead) = ofList n.left.chars :=
    strip_right n.left.trim (b := [' ']) (by decide)
  have hright : strip (ofList n.trail) = ofList n.rest := by
    obtain ⟨g, hg, htrail, htrim, -⟩ := exists_gap n
    rw [htrail, strip_left hg htrim]
  have hfound := partition_shuns (v := n.trail) (shuns_lead n n.rel.found)
  rw [← n.inner_eq] at hfound
  rw [opposite, findSome?_oppositeOf n (a := ofList n.turned)]
  · intro r hr
    simp only [partition_eq_self (s := ofList n.inner) (by simpa using hr)]
  · simp only [hfound, hleft, hright, Option.some.injEq]
    rw [← String.toList_inj]
    simp [Negated.turned, toString]

/-! ## Every negated parenthesis -/

/-- The text with the solver's operators. -/
def joined (cs : List Char) : List Char :=
  substitute ['|', '|'] [' ', '|', ' '] (substitute ['&', '&'] [' ', '&', ' '] cs)

theorem joined_append_cons {d : Char} (hd : d ∉ ['&', '|', ' ']) (u v : List Char) :
    joined (u ++ d :: v) = joined u ++ d :: joined v := by
  have h1 : d ∉ ['&', '&'] := fun h => hd (by simp_all)
  have h2 : d ∉ ['|', '|'] := fun h => hd (by simp_all)
  rw [joined, substitute_append_cons (by simp) h1, substitute_append_cons (by simp) h2]
  rfl

theorem joined_of_not_mem {cs : List Char} (h1 : '&' ∉ cs) (h2 : '|' ∉ cs) : joined cs = cs := by
  have hand : ¬ ['&', '&'] <:+: cs := fun h => h1 (h.subset mem_cons_self)
  have hor : ¬ ['|', '|'] <:+: cs := fun h => h2 (h.subset mem_cons_self)
  rw [joined, substitute_of_not_infix hand, substitute_of_not_infix hor]

theorem not_mem_joined {c : Char} (hc : c ∉ ['&', '|', ' ']) {cs : List Char} (h : c ∉ cs) :
    c ∉ joined cs := by
  intro hmem
  rcases mem_of_mem_substitute (by simp) hmem with hnew | hmem
  · exact hc (by simp_all)
  rcases mem_of_mem_substitute (by simp) hmem with hnew | hmem
  · exact hc (by simp_all)
  · exact h hmem

theorem solverLogic_eq (cs : List Char) : solverLogic (ofList cs) =
    negatedWord.replaceAll (fun m => s!"({m.group 1} == 0)")
      (negatedParen.replaceAll (fun m => opposite (strip (m.group 1))) (ofList (joined cs))) := by
  have hand : "&&".toList = ['&', '&'] ∧ " & ".toList = [' ', '&', ' '] := by decide
  have hor : "||".toList = ['|', '|'] ∧ " | ".toList = [' ', '|', ' '] := by decide
  rw [solverLogic, replace_ofList, replace_ofList, hand.1, hand.2, hor.1, hor.2]
  rfl

theorem unnegated_of_not_mem {w : List Char} (h : '!' ∉ w) : Unnegated w :=
  (isChain_isInfix w).imp fun _ _ hin ha => absurd (hin.subset (by simp [ha])) h

theorem unnegated_compare {u v : List Char} (hu : '!' ∉ u) (r : Rel) (hv : '!' ∉ v) :
    Unnegated (u ++ (r.chars ++ v)) := by
  have hmark : Unnegated (r.chars ++ v) := by
    cases r with
    | ne => exact .cons_cons (fun _ => rfl) (unnegated_of_not_mem (by simpa using hv))
    | eq | lt | gt | le | ge => exact unnegated_of_not_mem (by simpa [Rel.chars] using hv)
  refine List.isChain_append.2 ⟨unnegated_of_not_mem hu, hmark, fun a ha b _ heq => ?_⟩
  exact absurd (mem_of_getLast? ha) (heq ▸ hu)

section Negated

variable (n : Negated)

theorem not_mem_inner : ∀ c ∈ ['&', '|', '(', ')', '{', '}', '\n'], c ∉ n.inner := by
  have hterm : ∀ c ∈ ['&', '|', '(', ')', '{', '}', '\n'], ¬ IsTermChar c := by decide
  have hrel : ∀ c ∈ ['&', '|', '(', ')', '{', '}', '\n'], c ∉ n.rel.chars := by
    cases n.rel <;> decide
  exact fun c hc h => (mem_inner n h).elim (hterm c hc) (hrel c hc)

theorem joined_inner (u v : List Char) : joined (u ++ '(' :: (n.inner ++ ')' :: v)) =
    joined u ++ '(' :: (n.inner ++ ')' :: joined v) := by
  have hinner : joined n.inner = n.inner :=
    joined_of_not_mem (not_mem_inner n _ (by decide)) (not_mem_inner n _ (by decide))
  rw [joined_append_cons (by decide), joined_append_cons (by decide), hinner]

theorem unnegated_inner {u v : List Char} (hu : '!' ∉ u) (hv : '!' ∉ v) :
    Unnegated (u ++ '(' :: (n.inner ++ ')' :: v)) := by
  have hlead : '!' ∉ n.lead := fun h => absurd (isTermChar_lead n _ h) (by decide)
  have hright : '!' ∉ n.right.chars := fun h => absurd (n.right.forall_chars _ h) (by decide)
  have := unnegated_compare (u := u ++ '(' :: n.lead) (by simp [hu, hlead]) n.rel
    (v := ' ' :: n.right.chars ++ ')' :: v) (by simp [hv, hright])
  simpa [Negated.inner] using this

theorem plain_eq : n.plain = n.before ++ '(' :: (n.inner ++ ')' :: n.after) := by simp [Negated.plain]

theorem text_eq : n.text = n.before ++ '!' :: '(' :: (n.inner ++ ')' :: n.after) := by
  simp [Negated.text]

theorem solverLogic_plain : solverLogic (ofList n.plain) =
    ofList (joined n.before ++ ('(' :: n.inner ++ [')']) ++ joined n.after) := by
  have hsigns := unnegated_inner n (not_mem_joined (c := '!') (by decide) n.before_plain)
    (not_mem_joined (c := '!') (by decide) n.after_plain)
  rw [solverLogic_eq, plain_eq, joined_inner, hsigns.negatedParen, hsigns.negatedWord]
  simp

theorem notNewline_inner : ∀ c ∈ n.inner, notNewline c = true := fun _ hc =>
  bne_iff_ne.2 fun heq => not_mem_inner n '\n' (by decide) (heq ▸ hc)

theorem reads_negatedParen (before z : List Char) :
    Reads negatedParen before [] ('!' :: '(' :: n.inner ++ [')']) z [(1, n.inner)] := by
  have hopen : ')' ∉ n.inner := not_mem_inner n _ (by decide)
  have hclose : ∀ a b, n.inner = a ++ b → b ≠ [] → ∀ s : Spot, s.after = b ++ ([')'] ++ z) →
      Fails (lit ")") s := by
    intro a b hab hb s hs
    obtain ⟨d, b, rfl⟩ := exists_cons_of_ne_nil hb
    refine fails_lit fun hpre => hopen ?_
    rw [hs] at hpre
    obtain rfl : ')' = d := (cons_prefix_cons.1 hpre).1
    simp [hab]
  exact reads_assoc.2 (reads_lit.seq (reads_creep (notNewline_inner n) (Nat.zero_le _) reads_lit
    hclose))

theorem solverLogic_negated : solverLogic (ofList n.text) =
    ofList (joined n.before ++ n.turned ++ joined n.after) := by
  have hjoined : joined n.text =
      joined n.before ++ (('!' :: '(' :: n.inner ++ [')']) ++ joined n.after) := by
    have hnil : joined [] = [] := joined_of_not_mem (by simp) (by simp)
    have := joined_inner n [] n.after
    rw [nil_append, hnil, nil_append] at this
    rw [text_eq, joined_append_cons (by decide), this]
    simp
  have hb := not_mem_joined (c := '!') (by decide) n.before_plain
  have ha := not_mem_joined (c := '!') (by decide) n.after_plain
  have hleads : Leads negatedParen ['!', '('] := (leads_lit "!(").seq.seq
  have hlacks : Lacks negatedParen (joined n.after) := fun s hs =>
    hleads.walk_eq_none fun hpre => ha (hs.subset (hpre.subset mem_cons_self))
  have hsigns : Unnegated (joined n.before ++ (n.turned ++ joined n.after)) := by
    have hleft : '!' ∉ n.left.chars := fun h => absurd (n.left.forall_chars _ h) (by decide)
    have hright : '!' ∉ n.right.chars := fun h => absurd (n.right.forall_chars _ h) (by decide)
    have hrest : '!' ∉ n.rest := by
      have hsurplus : '!' ∉ n.rel.surplus := by cases n.rel <;> decide
      unfold Negated.rest
      split
      · exact hright
      · simp [Negated.trail, hsurplus, hright]
    have := unnegated_compare (u := joined n.before ++ '(' :: n.left.chars ++ [' '])
      (by simp [hb, hleft]) n.rel.found.opposite
      (v := ' ' :: n.rest ++ ')' :: joined n.after) (by simp [ha, hrest])
    simpa [Negated.turned] using this
  rw [solverLogic_eq, hjoined, (reads_negatedParen n _ _).replaceAll
    (hleads.skips (shuns_of_not_mem hb)) (by simp) hlacks (t := n.turned), hsigns.negatedWord,
    append_assoc]
  intro m hm
  have hgroup : m.group 1 = ofList n.inner := by simp [Match.group_eq, hm]
  rw [hgroup, strip_of_trim (trim_inner n), opposite_inner, toList_ofList]

/-! ## Balanced negations -/

theorem fails_mark {r : Rel} {p : Pattern} {a b : List Char} (hab : n.left.chars = a ++ b) (hb : b ≠ [])
    {z : List Char} {s : Spot} (hs : s.after = b ++ z) :
    Fails (blanks ++ (lit (ofList r.chars) ++ p)) s := by
  intro k
  refine walk_eq_none ?_
  rintro w ⟨g, w, rfl, ⟨hg, -⟩, x, y, rfl, hx, -⟩ hpre
  obtain rfl : x = r.chars := Eq.trans hx toList_ofList
  obtain ⟨d, x, hr⟩ : ∃ d x, r.chars = d :: x := exists_cons_of_ne_nil (by cases r <;> decide)
  have hd : isBlank d = false := by
    cases r <;> cases hr <;> decide
  -- The operand ends with something that is no blank.
  have hlast : ∀ c ∈ b.getLast?, isBlank c = false := fun c hc =>
    n.left.trim.last c (by rw [hab, getLast?_append_of_ne_nil _ hb]; exact hc)
  have hink : b.dropWhile isBlank ≠ [] := by
    intro hnil
    have hblank := dropWhile_eq_nil_iff.1 hnil
    have := hlast (b.getLast hb) (getLast?_eq_some_getLast hb)
    rw [hblank _ (getLast_mem hb)] at this
    cases this
  obtain ⟨c, t, hc⟩ := exists_cons_of_ne_nil hink
  have hcb : isBlank c = false := by
    have := head_dropWhile_not isBlank hink
    simpa [hc] using this
  have hsplit : b ++ z = b.takeWhile isBlank ++ c :: (t ++ z) := by
    rw [← cons_append, ← hc, ← append_assoc, takeWhile_append_dropWhile]
  rw [hs, hsplit, hr, cons_append] at hpre
  obtain ⟨-, rfl⟩ := blank_start hg (fun _ => mem_takeWhile_imp) hcb hd hpre
  refine not_isTermChar r d (by simp [hr]) (n.left.forall_chars d ?_)
  rw [hab]
  exact mem_append_right _ ((dropWhile_suffix isBlank).subset (by simp [hc]))

theorem reads_comparison : Reads (comparison (ofList n.rel.found.chars)) [] []
    n.inner [] [(2, n.rest), (1, n.left.chars)] := by
  obtain ⟨g, hg, htrail, htrim, hne⟩ := exists_gap n
  have hinner : n.inner = n.left.chars ++ ([' '] ++ (n.rel.found.chars ++ (g ++ (n.rest ++ [])))) := by
    simp [n.inner_eq, Negated.lead, htrail]
  have hline := notNewline_inner n
  rw [hinner] at hline ⊢
  have hmark : ∀ c ∈ (n.rel.found.chars ++ (g ++ (n.rest ++ [])) ++ []).head?, isBlank c = false := by
    cases n.rel <;> simp [Rel.found, Rel.chars] <;> decide
  have hlit : ∀ before kept z, Reads (lit (ofList n.rel.found.chars)) before kept
      n.rel.found.chars z kept := by
    intro before kept z
    have hlit : Reads (lit (ofList n.rel.found.chars)) before kept
        (ofList n.rel.found.chars).toList z kept := reads_lit
    rwa [toList_ofList] at hlit
  have hright : ∀ before, Reads (group 2 someGreedy ++ last) before [(1, n.left.chars)] (n.rest ++ []) []
      [(2, n.rest), (1, n.left.chars)] := fun before =>
    ((reads_run (fun c hc => hline c (by simp [hc])) (by simp) (length_pos_iff.2 hne)).group 2).seq
      reads_last
  change Reads (first ++ (group 1 someLazy ++ (blanks ++ (lit _ ++ (blanks ++ (group 2 someGreedy ++
    last)))))) [] [] ([] ++ _) [] _
  refine reads_first.seq (reads_creep (fun c hc => hline c (by simp [hc]))
    (length_pos_iff.2 n.left.ne_nil) ?_ fun a b hab hb s hs => fails_mark n hab hb hs)
  exact (reads_run (by decide) hmark (Nat.zero_le _)).seq ((hlit _ _ _).seq
    ((reads_run hg (by simpa using htrim.head) (Nat.zero_le _)).seq (hright _)))

theorem oppositeLine_inner : oppositeLine (ofList n.inner) = .ok (ofList n.turned) := by
  have hne : n.inner ≠ [] := by simp [Negated.inner, Negated.lead]
  have hline : someGreedy.atStart? (ofList n.inner) =
      some (Match.between (Spot.start n.inner) ((Spot.start n.inner).pass n.inner [])) :=
    atStart?_of_takes (takes_run (by simp [Spot.start]) (notNewline_inner n) (by simp)
      (length_pos_iff.2 hne))
  have htext : (Match.between (Spot.start n.inner) ((Spot.start n.inner).pass n.inner [])).text =
      ofList n.inner := by
    simp [Match.text, Match.between, Spot.start]
  rw [oppositeLine, hline]
  simp only [htext]
  rw [findSome?_oppositeOf n (a := ofList n.turned), Option.getD_some]
  · intro r hr
    rw [Option.map_eq_none_iff]
    refine atStart?_eq_none ?_
    rintro _ ⟨_, x, rfl, ⟨_, y, rfl, ⟨_, z, rfl, ⟨u, v, rfl, -, hv⟩, -⟩, -⟩, -⟩ hpre
    obtain rfl : v = r.chars := Eq.trans hv toList_ofList
    refine hr (List.IsInfix.trans ?_ hpre.isInfix)
    exact ⟨u, z ++ (y ++ x), by simp⟩
  · obtain ⟨m, hm, hpieces⟩ := (reads_comparison n).atStart?
    rw [append_nil] at hm
    simp only [hm, Option.map_some, Option.some.injEq]
    rw [← String.toList_inj]
    simp [Match.group_eq, hpieces, Negated.turned, toString]

theorem turnNegations_append {u : List Char} (hu : '!' ∉ u) {v : List Char} {s : String}
    (hv : turnNegations v = .ok s) : turnNegations (u ++ v) = .ok (ofList u ++ s) := by
  induction u with
  | nil => simpa using hv
  | cons c u ih =>
    have hc : c ≠ '!' := fun h => hu (by simp [h])
    have ih := ih fun h => hu (mem_cons_of_mem _ h)
    rw [cons_append, turnNegations]
    · rw [ih, Outcome.ok_bind]
      refine congrArg Except.ok ?_
      rw [← String.toList_inj]
      simp
    · simp [hc]

theorem turnNegations_of_unnegated {cs : List Char} (h : Unnegated cs) :
    turnNegations cs = .ok (ofList cs) := by
  induction cs with
  | nil => rw [turnNegations]
  | cons c cs ih =>
    rw [turnNegations]
    · rw [ih h.tail, Outcome.ok_bind]
      refine congrArg Except.ok ?_
      rw [← String.toList_inj]
      simp
    · rintro r rfl rfl
      exact absurd (h.next (c := '(') ⟨[], r, rfl⟩) (by decide)

theorem oppositeOrInverted_inner : oppositeOrInverted (ofList n.inner) =
    .ok (ofList (if n.rel = .ne then '~' :: '(' :: n.inner ++ [')'] else n.turned)) := by
  have hchars : (ofList n.inner).toList = n.inner := toList_ofList
  have hsign : contains "!" (ofList n.inner) = decide (n.rel = .ne) := by
    have hinfix : ['!'] <:+: n.inner ↔ ['!'] <:+: n.rel.chars := infix_inner n (by decide) (by decide)
    have hrel : ['!'] <:+: n.rel.chars ↔ n.rel = .ne := by cases n.rel <;> decide
    rw [Bool.eq_iff_iff, contains_iff, hchars, decide_eq_true_iff]
    exact hinfix.trans hrel
  have hand : contains " & " (ofList n.inner) = false := by
    rw [contains_eq_false_iff, hchars]
    exact fun hin => not_mem_inner n '&' (by decide) (hin.subset (by decide))
  have hor : contains " | " (ofList n.inner) = false := by
    rw [contains_eq_false_iff, hchars]
    exact fun hin => not_mem_inner n '|' (by decide) (hin.subset (by decide))
  rw [oppositeOrInverted, hsign, hand, hor, oppositeLine_inner]
  by_cases h : n.rel = .ne
  · simp only [h, decide_true, Bool.true_or, if_true]
    refine congrArg Except.ok ?_
    rw [← String.toList_inj]
    simp [toString]
  · simp [h]

theorem oppositeComparisons_plain :
    oppositeComparisons (ofList n.plain) = .ok (ofList n.plain) := by
  rw [oppositeComparisons, toList_ofList, plain_eq]
  exact turnNegations_of_unnegated (unnegated_inner n n.before_plain n.after_plain)

theorem oppositeComparisons_negated : oppositeComparisons (ofList n.text) = .ok (ofList
    (n.before ++ (if n.rel = .ne then '~' :: '(' :: n.inner ++ [')'] else n.turned) ++ n.after)) := by
  have hclosed : Closed n.inner := closed_of_forall fun c hc hd =>
    not_mem_inner n c ((by decide : delimiters ⊆ ['&', '|', '(', ')', '{', '}', '\n']) hd) hc
  have hclosing := closing?_closed (.inl ⟨rfl, rfl⟩) hclosed n.after
  have hafter : turnNegations n.after = .ok (ofList n.after) :=
    turnNegations_of_unnegated (unnegated_of_not_mem n.after_plain)
  have hhere : turnNegations ('!' :: '(' :: (n.inner ++ ')' :: n.after)) = .ok (ofList
      ((if n.rel = .ne then '~' :: '(' :: n.inner ++ [')'] else n.turned) ++ n.after)) := by
    rw [turnNegations]
    split
    · next inner rest hfound =>
      obtain ⟨rfl, rfl⟩ := Prod.mk.inj (Option.some.inj (hfound.symm.trans hclosing))
      rw [oppositeOrInverted_inner, hafter, String.ofList_append]
      rfl
    · next hnone => cases hnone.symm.trans hclosing
  rw [oppositeComparisons, toList_ofList, text_eq, turnNegations_append n.before_plain hhere,
    ← String.ofList_append, append_assoc]

end Negated

/-! ## Which comparisons are complemented -/

theorem turned_eq_complement_iff (n : Negated) : n.turned = n.complement ↔ n.rel ∉ [.le, .ge] := by
  constructor
  · intro h hmem
    have hlen := congrArg List.length h
    rcases (by simpa using hmem : n.rel = .le ∨ n.rel = .ge) with hrel | hrel <;>
      simp [Negated.turned, Negated.complement, Negated.rest, Negated.trail, hrel, Rel.surplus, Rel.found,
        Rel.opposite, Rel.chars] at hlen <;> omega
  · intro h
    have hrel : n.rel.surplus = [] ∧ n.rel.found = n.rel := by
      revert h
      cases n.rel <;> simp [Rel.surplus, Rel.found]
    simp [Negated.turned, Negated.complement, Negated.rest, hrel.1, hrel.2]

/-- Without a negation both converters leave a comparison alone. A negated one is complemented in the
solver's logic exactly if it is not `<=` or `>=`, and where parentheses are balanced exactly if it is
not `!=` either; the text around it is left as it is without the negation. -/
theorem negated_complemented_iff (n : Negated) :
    (∀ x y, n.rel.opposite.holds x y = !n.rel.holds x y) ∧
    solverLogic (String.ofList n.plain) =
      String.ofList (joined n.before ++ ('(' :: n.inner ++ [')']) ++ joined n.after) ∧
    (solverLogic (String.ofList n.text) =
      String.ofList (joined n.before ++ n.complement ++ joined n.after) ↔ n.rel ∉ [.le, .ge]) ∧
    oppositeComparisons (String.ofList n.plain) = .ok (String.ofList n.plain) ∧
    (oppositeComparisons (String.ofList n.text) =
      .ok (String.ofList (n.before ++ n.complement ++ n.after)) ↔ n.rel ∉ [.le, .ge, .ne]) := by
  refine ⟨n.rel.holds_opposite, solverLogic_plain n, ?_, oppositeComparisons_plain n, ?_⟩
  · rw [solverLogic_negated, String.ofList_inj, List.append_cancel_right_eq, List.append_cancel_left_eq,
      turned_eq_complement_iff]
  · rw [oppositeComparisons_negated, Except.ok.injEq, String.ofList_inj, List.append_cancel_right_eq,
      List.append_cancel_left_eq]
    by_cases h : n.rel = .ne
    · simp [h, Negated.complement]
    · rw [if_neg h, turned_eq_complement_iff]
      simp [h]

/-- `en == 1 && !(a + 1 >= b)` -/
def atLeast : Negated where
  before := "en == 1 && ".toList
  left := ⟨"a + 1".toList, by decide, ⟨by decide, by decide⟩, by decide⟩
  rel := .ge
  right := ⟨"b".toList, by decide, ⟨by decide, by decide⟩, by decide⟩
  after := []
  before_plain := by decide
  after_plain := by decide

theorem atLeast_not_complemented :
    solverLogic "en == 1 && !(a + 1 >= b)" ≠ "en == 1  &  (a + 1 < b)" ∧
    oppositeComparisons "en == 1 && !(a + 1 >= b)" ≠ .ok "en == 1 && (a + 1 < b)" ∧
    solverLogic "en == 1 && !(a + 1 >= b)" = "en == 1  &  (a + 1 <= = b)" := by
  obtain ⟨-, -, hlogic, -, hbalanced⟩ := negated_complemented_iff atLeast
  refine ⟨fun h => ?_, fun h => ?_, ?_⟩
  · exact hlogic.1 (h.trans (by decide +kernel)) (by decide)
  · exact hbalanced.1 (h.trans (by decide +kernel)) (by decide)
  · exact (solverLogic_negated atLeast).trans (by decide +kernel)

end Stimulus.Expr
