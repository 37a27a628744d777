import Stimulus.Proofs.Pattern.Search
import Stimulus.Proofs.Sv.Lexeme

/-!
# All matches of a text made of pieces

A text is often a list of pieces such that each match of a pattern lies inside one of them, whatever
stands around the piece. Then the matches of the text are those of the pieces.
-/

open List

namespace Stimulus.Pattern

open Spot Text Sv

variable {p : Pattern} {u v w : List Char}

variable {next : Char → Bool} {c : Char}

/-! ## Pieces without a match -/

/-- The pattern matches nowhere in `u`, whatever stands around it. -/
def Skips (p : Pattern) (u : List Char) : Prop :=
  ∀ a b z, u = a ++ b → b ≠ [] → ∀ s : Spot, s.after = b ++ z → walk p s some = none

theorem skips_nil : Skips p [] := by
  intro a b z h hb
  exact absurd (append_eq_nil_iff.1 h.symm).2 hb

theorem Skips.append (hu : Skips p u) (hv : Skips p v) : Skips p (u ++ v) :=
  forall_places_append (P := fun cs => ∀ s : Spot, s.after = cs → walk p s some = none) hu hv

theorem skips_flatMap {α : Type} {f : α → List Char} {xs : List α} (h : ∀ x ∈ xs, Skips p (f x)) :
    Skips p (xs.flatMap f) := by
  induction xs with
  | nil => exact skips_nil
  | cons x xs ih =>
    obtain ⟨hx, hxs⟩ := forall_mem_cons.1 h
    exact hx.append (ih hxs)

theorem Leads.skips (hp : Leads p w) (h : Shuns w u) : Skips p u :=
  fun a b z hab hb _ hs => hp.walk_eq_none (hs ▸ h a b z hab hb)

theorem Skips.searchFrom {before : List Char} {pos : Nat} (h : Skips p u) (v : List Char) :
    searchFrom p before pos (u ++ v) = searchFrom p (u.reverse ++ before) (pos + u.length) v :=
  searchFrom_append fun a b hab hb s hs => h a b v hab hb s hs

/-- The pattern matches nowhere in `e` if the text ends with `e`. -/
def Lacks (p : Pattern) (e : List Char) : Prop := ∀ s : Spot, s.after <:+ e → walk p s some = none

theorem Leads.lacks_nil (h : Leads p w) (hw : w ≠ []) : Lacks p [] := by
  intro s hs
  refine h.walk_eq_none fun hpre => hw ?_
  rwa [suffix_nil.1 hs, prefix_nil] at hpre

/-! ## All matches -/

/-- The matches in the text `cs` at position `pos`, after the text `before`. -/
def matchesFrom (p : Pattern) (before : List Char) (pos : Nat) (cs : List Char) : List Match :=
  (spansFrom p (cs.length + 1) ⟨before, cs, pos, []⟩).map fun (a, b) => Match.between a b

theorem findAll_eq (cs : List Char) : p.findAll (String.ofList cs) = matchesFrom p [] 0 cs := by
  rw [findAll, spans, String.toList_ofList]
  rfl

theorem matchesFrom_skips (h : Skips p u) (before : List Char) (pos : Nat) (z : List Char) :
    matchesFrom p before pos (u ++ z) =
      matchesFrom p (u.reverse ++ before) (pos + u.length) z := by
  induction u generalizing before pos with
  | nil => rfl
  | cons c u ih =>
    have hhere : walk p ⟨before, c :: (u ++ z), pos, []⟩ some = none :=
      h [] (c :: u) z rfl (by simp) _ rfl
    have hrest : Skips p u := fun a b z hab => h (c :: a) b z (by rw [hab]; rfl)
    rw [cons_append, matchesFrom, spansFrom_skip hhere, ← matchesFrom, ih hrest]
    simp [Nat.add_assoc, Nat.add_comm 1]

section Finds

variable {β : Type} {read : Match → β} {out more : List β}

/-- The matches that start in `u` stand there whatever is around `u`, and `read` says `out` of them. -/
def Finds (p : Pattern) (read : Match → β) (u : List Char) (out : List β) : Prop :=
  ∀ before pos z, (matchesFrom p before pos (u ++ z)).map read =
    out ++ (matchesFrom p (u.reverse ++ before) (pos + u.length) z).map read

theorem Skips.finds (h : Skips p u) : Finds p read u [] := by
  intro before pos z
  rw [matchesFrom_skips h, nil_append]

theorem Finds.append (hu : Finds p read u out) (hv : Finds p read v more) :
    Finds p read (u ++ v) (out ++ more) := by
  intro before pos z
  rw [append_assoc, hu, hv]
  simp [Nat.add_assoc]

theorem finds_flatMap {α : Type} {f : α → List Char} {g : α → List β} {xs : List α}
    (h : ∀ x ∈ xs, Finds p read (f x) (g x)) : Finds p read (xs.flatMap f) (xs.flatMap g) := by
  induction xs with
  | nil => exact skips_nil.finds
  | cons x xs ih =>
    obtain ⟨hx, hxs⟩ := forall_mem_cons.1 h
    exact hx.append (ih hxs)

theorem finds_of_takes {b : β} (hu : u ≠ [])
    (h : ∀ s : Spot, ∀ z, s.kept = [] → s.after = u ++ z → ∃ t, Takes p s t ∧ s.Passed t u ∧
      read (Match.between s t) = b) : Finds p read u [b] := by
  intro before pos z
  obtain ⟨t, htakes, hpassed, hread⟩ := h ⟨before, u ++ z, pos, []⟩ z rfl rfl
  have hne : t.pos ≠ pos := by
    have hpos : t.pos = pos + u.length := hpassed.pos
    have := length_pos_iff.2 hu
    omega
  have hafter : t.after = z := (append_cancel_left hpassed.after).symm
  rw [matchesFrom, spansFrom_hit (htakes some t rfl) hne, map_cons, map_cons, hread,
    hpassed.before, hpassed.pos, hafter]
  rfl

theorem Finds.findAll (h : Finds p read u out) {e : List Char} (he : Lacks p e) :
    (p.findAll (String.ofList (u ++ e))).map read = out := by
  have hend (before : List Char) (pos : Nat) : matchesFrom p before pos e = [] := by
    simp [matchesFrom, spansFrom, searchFrom_of_none he]
  rw [findAll_eq, h, hend, map_nil, append_nil]

end Finds

theorem Skips.findAll (h : Skips p u) {e : List Char} (he : Lacks p e) :
    p.findAll (String.ofList (u ++ e)) = [] :=
  map_eq_nil_iff.1 ((@Skips.finds _ _ Match id h).findAll he)

theorem Skips.search? (h : Skips p u) {e : List Char} (he : Lacks p e) :
    p.search? (String.ofList (u ++ e)) = none := by
  rw [Pattern.search?, String.toList_ofList, h.searchFrom, searchFrom_of_none he, Option.map_none]

/-! ## A word and what follows it -/

/-- All that the pattern spells starts with the word `w`, at least one blank and then a character of
`next`. -/
def Jumps (p : Pattern) (w : List Char) (next : Char → Bool) : Prop :=
  ∀ t, Spells p t → ∃ b d r, t = w ++ (b ++ d :: r) ∧ b ≠ [] ∧ Blank b ∧ next d = true ∧
    isBlank d = false

theorem Jumps.leads (h : Jumps p w next) : Leads p w := by
  intro t ht
  obtain ⟨b, d, r, rfl, -⟩ := h t ht
  exact prefix_append w _

theorem Jumps.seq {q : Pattern} (h : Jumps p w next) : Jumps (p ++ q) w next := by
  rintro t ⟨a, c, rfl, ha, -⟩
  obtain ⟨b, d, r, rfl, hb⟩ := h a ha
  exact ⟨b, d, r ++ c, by simp, hb⟩

/-- A word, blanks and then something that starts with a character of `next`. -/
theorem jumps_lit {l : String} {q : Pattern}
    (hq : ∀ t, Spells q t → ∃ d r, t = d :: r ∧ next d = true ∧ isBlank d = false) :
    Jumps (lit l ++ blanks1 ++ q) l.toList next := by
  rintro t ⟨a, c, rfl, ⟨x, b, rfl, rfl, hb, hlen⟩, hc⟩
  obtain ⟨d, r, rfl, hd, hdb⟩ := hq c hc
  exact ⟨b, d, r, by simp, ne_nil_of_length_pos hlen, hb, hd, hdb⟩

theorem Jumps.lacks {next : Char → Bool} (h : Jumps p w next) {b : List Char}
    (hv : ∀ c ∈ v, isBlank c = false) (hb : Blank b) : Lacks p (v ++ b) := by
  rintro s ⟨x, hx⟩
  refine walk_eq_none fun t ht hpre => ?_
  obtain ⟨bl, d, r, rfl, hne, hbl, -, hd⟩ := h t ht
  obtain ⟨f, bl, rfl⟩ := exists_cons_of_ne_nil hne
  obtain ⟨z, hz⟩ := hpre
  have hcut : (x ++ w) ++ (f :: (bl ++ d :: (r ++ z))) = v ++ b := by simp [← hx, ← hz]
  have hlast : d ∉ b := fun hmem => by simp [hb d hmem] at hd
  rcases append_eq_append_iff.1 hcut with ⟨y, rfl, hy⟩ | ⟨y, -, hy⟩
  · cases y with
    | nil => exact hlast (by simp [← show _ = b from hy])
    | cons e y =>
      obtain ⟨rfl, -⟩ := cons_eq_cons.1 hy
      have := hv f (by simp)
      rw [hbl f (by simp)] at this
      cases this
  · exact hlast (hy ▸ by simp)

theorem blank_start {b g r z : List Char} {d : Char} (hb : Blank b) (hg : Blank g)
    (hc : isBlank c = false) (hd : isBlank d = false) (h : b ++ d :: r <+: g ++ c :: z) :
    b = g ∧ d = c := by
  obtain ⟨t, ht⟩ := h
  rw [append_assoc, cons_append] at ht
  have hcut := congrArg (List.takeWhile isBlank) ht
  rw [(takeWhile_append_stop hb (by simpa using hd)).1,
    (takeWhile_append_stop hg (by simpa using hc)).1] at hcut
  subst hcut
  exact ⟨rfl, (List.cons.inj (append_cancel_left ht)).1⟩

theorem prefix_of_stops {y z : List Char} (hw : ∀ c ∈ w, nameTail c = true) (hz : Stops z)
    (h : w <+: y ++ z) : w <+: y := by
  rcases prefix_or_prefix_of_prefix h (prefix_append y z) with h' | ⟨r, rfl⟩
  · exact h'
  · cases r with
    | nil => simp
    | cons d r =>
      obtain ⟨t, rfl⟩ := (prefix_append_right_inj y).1 h
      exact absurd (stops_cons.1 hz) (by simp [hw d (by simp)])

/-- A match in a word and what follows it would start with the end of the word. -/
theorem Jumps.skips_append (h : Jumps p w next) (hw : IsPlain w) {n r : List Char}
    (hn : ∀ c ∈ n, nameTail c = true) (hr : ∀ c ∈ r, nameTail c = false) (hne : r ≠ [])
    (hend : w <:+ n → ∀ b d t z, Blank b → next d = true → isBlank d = false →
      ¬ b ++ d :: t <+: r ++ z) : Skips p (n ++ r) := by
  intro x b z hab hb s hs
  refine walk_eq_none fun t ht hpre => ?_
  obtain ⟨bl, d, t, rfl, hbl, hblank, hd, hdb⟩ := h t ht
  rw [hs] at hpre
  rcases append_eq_append_iff.1 hab with ⟨y, rfl, hy⟩ | ⟨y, rfl, rfl⟩
  · -- The match would start after the word, where no word can start.
    obtain ⟨a, w', rfl⟩ := exists_cons_of_ne_nil hw.ne_nil
    obtain ⟨e, b, rfl⟩ := exists_cons_of_ne_nil hb
    obtain ⟨rfl, -⟩ := cons_prefix_cons.1 hpre
    have hin := hr a (hy ▸ by simp)
    rw [hw.chars a (by simp)] at hin
    cases hin
  · -- The match would start in the word, and `w` would end it.
    rw [append_assoc] at hpre
    have hstops : Stops (r ++ z) := by
      intro e he
      rw [head?_append_of_ne_nil _ hne] at he
      exact hr e (mem_of_mem_head? he)
    obtain ⟨y', rfl⟩ := prefix_of_stops hw.chars hstops ((prefix_append w _).trans hpre)
    rw [append_assoc, prefix_append_right_inj] at hpre
    cases y' with
    | nil => exact hend (by simp) bl d t z hblank hd hdb hpre
    | cons e y' =>
      obtain ⟨f, bl, rfl⟩ := exists_cons_of_ne_nil hbl
      obtain ⟨rfl, -⟩ := cons_prefix_cons.1 hpre
      have hblank := nameTail_of_isBlank (hblank f (by simp))
      rw [hn f (by simp)] at hblank
      cases hblank

theorem Jumps.skips_word (h : Jumps p w next) (hw : IsPlain w)
    {n g : List Char} (hn : ∀ c ∈ n, nameTail c = true) (hg : Blank g)
    (hc : nameTail c = false) (hblank : isBlank c = false) (hnext : next c = false) :
    Skips p (n ++ (g ++ [c])) := by
  have hgap : ∀ e ∈ g ++ [c], nameTail e = false :=
    forall_mem_append.2 ⟨fun e he => nameTail_of_isBlank (hg e he), forall_mem_singleton.2 hc⟩
  refine h.skips_append hw hn hgap (by simp) fun _ b d t z hb hd hdb hpre => ?_
  rw [append_assoc] at hpre
  obtain ⟨-, rfl⟩ := blank_start hb hg hblank hdb hpre
  rw [hd] at hnext
  cases hnext

/-- A word that does not end with `w` is passed. -/
theorem Jumps.skips_other (h : Jumps p w next) (hw : IsPlain w) {n : List Char}
    (hn : ∀ c ∈ n, nameTail c = true) (hend : ¬ w <:+ n) (hc : nameTail c = false) :
    Skips p (n ++ [c]) :=
  h.skips_append hw hn (forall_mem_singleton.2 hc) (by simp) fun hin => absurd hin hend

end Stimulus.Pattern
