import Stimulus.Proofs.Text.Chunk
import Stimulus.Text.Closing

/-!
# Closed texts

A text is closed if its parentheses and braces are nested in each other and none is left open. A
reader that counts delimiters comes out of a closed text as it went in.
-/

open List

namespace Stimulus.Text

open Pattern

variable {w u : List Char} {o c : Char} {depth : Nat} {kws : List (List Char)}

/-- Parentheses and braces. -/
def delimiters : List Char := ['(', ')', '{', '}']

/-- Parentheses and braces are nested, and all are closed. -/
inductive Closed : List Char → Prop where
  | nil : Closed []
  | char {c : Char} (h : c ∉ delimiters) : Closed [c]
  | paren {w : List Char} (h : Closed w) : Closed ('(' :: w ++ [')'])
  | brace {w : List Char} (h : Closed w) : Closed ('{' :: w ++ ['}'])
  | append {u v : List Char} (hu : Closed u) (hv : Closed v) : Closed (u ++ v)

theorem closed_of_forall (h : ∀ c ∈ w, c ∉ delimiters) : Closed w := by
  induction w with
  | nil => exact .nil
  | cons c w ih =>
    obtain ⟨hc, hw⟩ := forall_mem_cons.1 h
    exact .append (.char hc) (ih hw)

/-- A pair of delimiters. -/
def IsPair (o c : Char) : Prop := (o = '(' ∧ c = ')') ∨ (o = '{' ∧ c = '}')

theorem closing?_append (hp : IsPair o c) (hw : Closed w) (depth : Nat)
    (inner rest : List Char) :
    closing? o c depth inner (w ++ rest) = closing? o c depth (w.reverse ++ inner) rest := by
  induction hw generalizing depth inner rest with
  | nil => rfl
  | char h =>
    simp only [delimiters, mem_cons, not_mem_nil, or_false, not_or] at h
    rcases hp with ⟨rfl, rfl⟩ | ⟨rfl, rfl⟩ <;> simp [closing?, h]
  | append _ _ hu hv => simp [hu, hv]
  | paren _ ih | brace _ ih => rcases hp with ⟨rfl, rfl⟩ | ⟨rfl, rfl⟩ <;> simp [closing?, ih]

theorem closing?_closed (hp : IsPair o c) (hw : Closed w)
    (rest : List Char) : closing? o c 0 [] (w ++ c :: rest) = some (w, rest) := by
  rw [closing?_append hp hw]
  rcases hp with ⟨rfl, rfl⟩ | ⟨rfl, rfl⟩ <;> simp [closing?]

/-! ## Balanced texts -/

/-- No prefix closes more than it opened and `depth` opened before, and in the end all are closed. -/
structure BalancedFrom (o c : Char) (depth : Nat) (w : List Char) : Prop where
  opened : ∀ u, u <+: w → u.count c ≤ depth + u.count o
  closed : w.count c = depth + w.count o

theorem balancedFrom_nil : BalancedFrom o c depth [] ↔ depth = 0 := by
  refine ⟨fun h => by simpa using h.closed.symm, ?_⟩
  rintro rfl
  exact ⟨by simp, rfl⟩

/-- What remains open after a character. -/
theorem balancedFrom_cons {d : Char} {depth' : Nat}
    (h : depth' + [d].count c = depth + [d].count o) :
    BalancedFrom o c depth (d :: w) ↔ BalancedFrom o c depth' w := by
  have hsum (u : List Char) (a : Char) : (d :: u).count a = [d].count a + u.count a := by
    rw [← count_append, singleton_append]
  constructor
  · intro hw
    refine ⟨fun u hu => ?_, ?_⟩
    · have := hw.opened (d :: u) (cons_prefix_cons.2 ⟨rfl, hu⟩)
      simp only [hsum u] at this
      omega
    · have := hw.closed
      simp only [hsum w] at this
      omega
  · intro hw
    refine ⟨fun u hu => ?_, ?_⟩
    · cases u with
      | nil => simp
      | cons e u =>
        obtain ⟨rfl, hpre⟩ := cons_prefix_cons.1 hu
        have := hw.opened u hpre
        rw [hsum u, hsum u]
        omega
    · have := hw.closed
      rw [hsum w, hsum w]
      omega

theorem not_balancedFrom_close (h : c ≠ o) (w : List Char) : ¬ BalancedFrom o c 0 (c :: w) := by
  intro hw
  have := hw.opened [c] ⟨w, rfl⟩
  simp [h.symm] at this

theorem closing?_eq_some (hoc : c ≠ o) {inner cs r rest : List Char} :
    closing? o c depth inner cs = some (r, rest) ↔
      ∃ w, cs = w ++ c :: rest ∧ r = inner.reverse ++ w ∧ BalancedFrom o c depth w := by
  -- A step moves one character from the text to what was passed.
  have hstep {d : Char} {cs : List Char} {depth depth' : Nat} {inner : List Char}
      (h : depth' + [d].count c = depth + [d].count o) (hd : d = c → 0 < depth) :
      (∃ w, cs = w ++ c :: rest ∧ r = (d :: inner).reverse ++ w ∧ BalancedFrom o c depth' w) ↔
        ∃ w, d :: cs = w ++ c :: rest ∧ r = inner.reverse ++ w ∧ BalancedFrom o c depth w := by
    constructor
    · rintro ⟨w, rfl, rfl, hw⟩
      exact ⟨d :: w, rfl, by simp, (balancedFrom_cons h).2 hw⟩
    · rintro ⟨w, hcs, rfl, hw⟩
      cases w with
      | nil =>
        have := hd (List.cons.inj hcs).1
        have := balancedFrom_nil.1 hw
        omega
      | cons e w =>
        obtain ⟨rfl, rfl⟩ := List.cons.inj hcs
        exact ⟨w, rfl, by simp, (balancedFrom_cons h).1 hw⟩
  fun_induction closing? o c depth inner cs with
  | case1 => simp
  | case2 depth inner cs ih => exact ih.trans (hstep (by simp [hoc.symm]) (by simp [hoc.symm]))
  | case3 inner cs =>
    constructor
    · intro h
      obtain ⟨rfl, rfl⟩ := Prod.mk.inj (Option.some.inj h)
      exact ⟨[], rfl, by simp, balancedFrom_nil.2 rfl⟩
    · rintro ⟨w, hcs, rfl, hw⟩
      cases w with
      | nil =>
        obtain ⟨-, rfl⟩ := List.cons.inj hcs
        simp
      | cons e w =>
        obtain ⟨rfl, -⟩ := List.cons.inj hcs
        exact absurd hw (not_balancedFrom_close hoc w)
  | case4 inner cs _ depth ih => exact ih.trans (hstep (by simp [hoc]) (by simp))
  | case5 depth inner d cs ho hc ih =>
    exact ih.trans (hstep (by simp [ho, hc]) fun h => absurd h hc)

theorem balancedFrom_of_closing? (hoc : c ≠ o)
    (h : closing? o c 0 [] (w ++ [c]) = some (w, [])) : BalancedFrom o c 0 w := by
  obtain ⟨v, -, hv, hbalanced⟩ := (closing?_eq_some hoc).1 h
  rwa [show w = v from hv]

/-! ## Words that a text is free of -/

def Free (kws : List (List Char)) (cs : List Char) : Prop := ∀ kw ∈ kws, ¬ kw <:+: cs

instance (kws : List (List Char)) (cs : List Char) : Decidable (Free kws cs) :=
  inferInstanceAs (Decidable (∀ _ ∈ _, _))

/-- The words that begin and end a block. -/
def blockWords : List (List Char) := [['b', 'e', 'g', 'i', 'n'], ['e', 'n', 'd']]

/-- The words of blocks and of branches. -/
def branchWords : List (List Char) := ['e', 'l', 's', 'e'] :: blockWords

theorem Free.within (h : Free kws w) (hu : u <:+: w) :
    Free kws u := fun kw hkw hin => h kw hkw (hin.trans hu)

theorem Free.block {cs : List Char} (h : Free branchWords cs) : Free blockWords cs :=
  fun kw hkw => h kw (mem_cons_of_mem _ hkw)

/-- A word without the character `c` stands on one side of it. -/
theorem infix_append_cons {v : List Char} (hc : c ∉ w) (h : w <:+: u ++ c :: v) :
    w <:+: u ∨ w <:+: v := by
  obtain ⟨s, t, h⟩ := h
  rcases append_eq_append_iff.1 h with ⟨a, rfl, -⟩ | ⟨a, ha, hv⟩
  · exact .inl ⟨s, a, rfl⟩
  · cases a with
    | nil => exact .inl ⟨s, [], by simpa using ha⟩
    | cons d a =>
      obtain ⟨rfl, rfl⟩ := cons_eq_cons.1 hv
      rcases append_eq_append_iff.1 ha with ⟨b, rfl, rfl⟩ | ⟨b, rfl, hb⟩
      · exact absurd (by simp) hc
      · cases b with
        | nil =>
          obtain rfl : c :: a = w := hb
          exact absurd mem_cons_self hc
        | cons e b =>
          obtain ⟨rfl, rfl⟩ := cons_eq_cons.1 hb
          exact .inr ⟨b, t, by simp⟩

theorem free_append_cons {v : List Char}
    (hc : ∀ kw ∈ kws, c ∉ kw) : Free kws (u ++ c :: v) ↔ Free kws u ∧ Free kws v := by
  refine ⟨fun h => ⟨h.within ⟨[], c :: v, by simp⟩, h.within ⟨u ++ [c], [], by simp⟩⟩, ?_⟩
  rintro ⟨hu, hv⟩ kw hkw hin
  exact (infix_append_cons (hc kw hkw) hin).elim (hu kw hkw) (hv kw hkw)

theorem free_nil (h : [] ∉ kws) : Free kws [] := by
  intro kw hkw hin
  obtain rfl := infix_nil.1 hin
  exact h hkw

end Stimulus.Text
