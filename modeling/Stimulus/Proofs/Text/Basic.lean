import Mathlib.Data.List.TakeWhile
import Stimulus.Proofs.Pattern.Walk

/-!
# Texts as lists of characters

* `Trim`: no blank at either end; `strip_append`: stripping takes blanks off such a text;
  `trim_strip`: it always leaves one.
* `contains_iff`: a text holds another if the other is an infix of it.
* `substitute`: replacing from the left; `substitute_hit`, `substitute_skip`: its steps.
-/

open List
open String (ofList toList_ofList)

namespace Stimulus.Text

/-! ## Blanks at the ends -/

/-- All characters are blank. -/
def Blank (cs : List Char) : Prop := ∀ c ∈ cs, isBlank c = true

instance (cs : List Char) : Decidable (Blank cs) :=
  inferInstanceAs (Decidable (∀ c ∈ cs, isBlank c = true))

theorem blank_nil : Blank [] := forall_mem_nil _

/-- No blank at either end. -/
structure Trim (cs : List Char) : Prop where
  head : ∀ c ∈ cs.head?, isBlank c = false
  last : ∀ c ∈ cs.getLast?, isBlank c = false

theorem trim_nil : Trim [] := ⟨by simp, by simp⟩

theorem trim_of_ends {a b : Char} {w : List Char} (ha : isBlank a = false)
    (hb : isBlank b = false) : Trim (a :: w ++ [b]) := by
  refine ⟨by simpa using ha, fun c hc => ?_⟩
  rw [getLast?_append] at hc
  obtain rfl : b = c := by simpa using hc
  exact hb

variable {b cs new old : List Char} {c : Char} {s : String}

theorem dropWhile_blank_append (hb : Blank b) : (b ++ cs).dropWhile isBlank = cs.dropWhile isBlank :=
  dropWhile_append_of_pos hb

theorem dropWhile_of_head {p : Char → Bool} (h : ∀ c ∈ cs.head?, p c = false) :
    cs.dropWhile p = cs := by
  cases cs with
  | nil => rfl
  | cons c cs => simp [h c rfl]

theorem dropWhile_gap (hb : Blank b) (h : ∀ c ∈ cs.head?, isBlank c = false) :
    (b ++ cs).dropWhile isBlank = cs := by
  rw [dropWhile_blank_append hb, dropWhile_of_head h]

theorem head_dropWhile (p : Char → Bool) (cs : List Char) :
    ∀ c ∈ (cs.dropWhile p).head?, p c = false := by
  intro c hc
  have := head?_dropWhile_not p cs
  rw [hc] at this
  simpa using this

theorem head_of_ne_nil {p : Char → Bool} (hb : b ≠ []) (h : ∀ c ∈ b, p c = false) :
    ∀ c ∈ (b ++ cs).head?, p c = false := by
  obtain ⟨d, b, rfl⟩ := exists_cons_of_ne_nil hb
  simpa using h d mem_cons_self

theorem head_gap {p : Char → Bool} (hb : Blank b) (hp : ∀ c, isBlank c = true → p c = false)
    (h : ∀ c ∈ cs.head?, p c = false) : ∀ c ∈ (b ++ cs).head?, p c = false := by
  cases b with
  | nil => exact h
  | cons d b => simpa using hp d (hb d mem_cons_self)

theorem head_gap_append {p : Char → Bool} {v w : List Char} (hb : Blank b)
    (hp : ∀ c, isBlank c = true → p c = false) (h : ∀ c ∈ (w ++ (v ++ cs)).head?, p c = false) :
    ∀ c ∈ ((b ++ (w ++ v)) ++ cs).head?, p c = false := by
  rw [append_assoc]
  exact head_gap hb hp (by rwa [append_assoc])

theorem dropTail_of_last {p : Char → Bool} (h : ∀ c ∈ cs.getLast?, p c = false) :
    dropTail p cs = cs := by
  rw [dropTail, dropWhile_of_head (by simpa using h), reverse_reverse]

theorem dropTail_append {p : Char → Bool} (hb : ∀ c ∈ b, p c = true) :
    dropTail p (cs ++ b) = dropTail p cs := by
  rw [dropTail, dropTail, reverse_append, dropWhile_append_of_pos (by simpa using hb)]

theorem dropEnds_append {a : List Char} (ha : Blank a) (hcs : Trim cs) (hb : Blank b) :
    dropEnds isBlank (a ++ cs ++ b) = cs := by
  rw [dropEnds, append_assoc, dropWhile_blank_append ha]
  by_cases h : cs = []
  · subst h
    simp [dropWhile_eq_nil_iff.2 hb, dropTail]
  · obtain ⟨c, r, rfl⟩ := exists_cons_of_ne_nil h
    rw [dropWhile_of_head (by simpa using hcs.head), dropTail_append hb, dropTail_of_last hcs.last]

theorem strip_append {a : List Char} (ha : Blank a) (hcs : Trim cs) (hb : Blank b) :
    strip (ofList (a ++ cs ++ b)) = ofList cs := by
  rw [strip, toList_ofList, dropEnds_append ha hcs hb]

theorem strip_left {a : List Char} (ha : Blank a) (hcs : Trim cs) :
    strip (ofList (a ++ cs)) = ofList cs := by
  simpa using strip_append ha hcs blank_nil

theorem strip_right (hcs : Trim cs) (hb : Blank b) : strip (ofList (cs ++ b)) = ofList cs :=
  strip_append (a := []) blank_nil hcs hb

theorem strip_of_trim (h : Trim cs) : strip (ofList cs) = ofList cs := by
  simpa using strip_right h blank_nil

theorem dropEnds_prefix (p : Char → Bool) (cs : List Char) : dropEnds p cs <+: cs.dropWhile p := by
  have := dropWhile_suffix p (l := (cs.dropWhile p).reverse)
  simpa [dropEnds, dropTail] using reverse_prefix.2 this

theorem trim_dropEnds (cs : List Char) : Trim (dropEnds isBlank cs) := by
  refine ⟨fun c hc => ?_, fun c hc => ?_⟩
  · obtain ⟨t, ht⟩ := dropEnds_prefix isBlank cs
    refine head_dropWhile isBlank cs c ?_
    rw [← ht, head?_append, hc]
    rfl
  · rw [dropEnds, dropTail, getLast?_reverse] at hc
    exact head_dropWhile isBlank _ c hc

theorem exists_dropEnds (p : Char → Bool) (cs : List Char) :
    ∃ a b, cs = a ++ (dropEnds p cs ++ b) ∧ (∀ c ∈ a, p c = true) ∧ ∀ c ∈ b, p c = true := by
  have hback : ((cs.dropWhile p).reverse.dropWhile p).reverse ++
      ((cs.dropWhile p).reverse.takeWhile p).reverse = cs.dropWhile p := by
    rw [← reverse_append, takeWhile_append_dropWhile, reverse_reverse]
  refine ⟨cs.takeWhile p, ((cs.dropWhile p).reverse.takeWhile p).reverse, ?_,
    fun c hc => mem_takeWhile_imp hc, fun c hc => mem_takeWhile_imp (mem_reverse.1 hc)⟩
  rw [dropEnds, dropTail, hback, takeWhile_append_dropWhile]

theorem strip_strip (s : String) : strip (strip s) = strip s := strip_of_trim (trim_dropEnds s.toList)

theorem trim_strip (s : String) : Trim (strip s).toList := by
  rw [strip, toList_ofList]
  exact trim_dropEnds s.toList

theorem stripRightOf_of_last (h : ∀ d ∈ cs.getLast?, d ≠ c) :
    stripRightOf c (ofList cs) = ofList cs := by
  rw [stripRightOf, toList_ofList, dropTail_of_last]
  intro d hd
  simpa using h d hd

theorem stripRightOf_concat (h : ∀ d ∈ cs.getLast?, d ≠ c) :
    stripRightOf c (ofList (cs ++ [c])) = ofList cs := by
  rw [stripRightOf, toList_ofList, dropTail_append (by simp), dropTail_of_last]
  intro d hd
  simpa using h d hd

theorem stripRight_of_last (h : ∀ d ∈ cs.getLast?, isBlank d = false) :
    stripRight (ofList cs) = ofList cs := by
  rw [stripRight, toList_ofList, dropTail_of_last h]

theorem hasInk_ofList (h : c ∈ cs) (hc : isBlank c = false) : hasInk (ofList cs) = true := by
  simp only [hasInk, toList_ofList, any_eq_true]
  exact ⟨c, h, by simp [hc]⟩

/-! ## Holding another text -/

theorem startsWith_ofList {start : String} :
    startsWith start (ofList cs) = true ↔ start.toList <+: cs := by
  rw [startsWith, beginsWith_iff, toList_ofList]

theorem endsWith_ofList {tail : String} :
    endsWith tail (ofList cs) = true ↔ tail.toList <:+ cs := by
  rw [endsWith, beginsWith_iff, toList_ofList, reverse_prefix]

theorem findFrom_isSome_iff {needle : List Char} {pos : Nat} :
    (findFrom needle pos cs).isSome = true ↔ needle <:+: cs := by
  induction cs generalizing pos with
  | nil => cases needle <;> simp [findFrom]
  | cons c cs ih =>
    simp only [findFrom]
    split
    · next h => simpa using (beginsWith_iff.1 h).isInfix
    · next h =>
      rw [ih, infix_cons_iff, or_iff_right]
      exact fun hp => h (beginsWith_iff.2 hp)

theorem contains_iff {needle : String} :
    contains needle s = true ↔ needle.toList <:+: s.toList := findFrom_isSome_iff

theorem contains_eq_false_iff {needle : String} :
    contains needle s = false ↔ ¬ needle.toList <:+: s.toList := by
  rw [← contains_iff, Bool.not_eq_true]

theorem intercalate_cons (sep x : List Char) (xs : List (List Char)) :
    List.intercalate sep (x :: xs) = x ++ xs.flatMap (sep ++ ·) := by
  induction xs generalizing x with
  | nil => simp
  | cons y xs ih => rw [intercalate_cons_cons, ih]; simp

theorem join_ofList (sep : String) (x : List Char) (xs : List (List Char)) :
    join sep ((x :: xs).map ofList) =
      ofList (x ++ xs.flatMap (sep.toList ++ ·)) := by
  rw [← String.toList_inj, join, String.toList_intercalate, map_map, toList_ofList,
    ← intercalate_cons]
  simp

/-! ## Replacing a text -/

def substitute (old new cs : List Char) : List Char :=
  List.intercalate new (splitAux old [] cs)

theorem toList_replace (old new s : String) :
    (replace old new s).toList = substitute old.toList new.toList s.toList := by
  simp only [replace, splitOn, substitute, String.toList_intercalate]
  rw [map_map]
  congr 1
  simp

theorem replace_ofList (old new : String) (cs : List Char) :
    replace old new (ofList cs) = ofList (substitute old.toList new.toList cs) := by
  rw [← String.ofList_toList (s := replace _ _ _), toList_replace, toList_ofList]

private theorem exists_splitAux (sep cs : List Char) :
    ∃ x xs, ∀ piece, splitAux sep piece cs = (piece.reverse ++ x) :: xs := by
  induction cs with
  | nil => exact ⟨[], [], fun piece => by simp [splitAux]⟩
  | cons c cs ih =>
    obtain ⟨x, xs, h⟩ := ih
    cases hd : dropStart? sep (c :: cs) with
    | none =>
      refine ⟨c :: x, xs, fun piece => ?_⟩
      rw [splitAux]
      split
      · next hs => rw [hd] at hs; cases hs
      · rw [h]; simp
    | some after =>
      by_cases hsep : sep = []
      · refine ⟨c :: x, xs, fun piece => ?_⟩
        rw [splitAux]
        split
        · rw [if_pos (by simp [hsep]), h]; simp
        · rw [h]; simp
      · refine ⟨[], splitAux sep [] after, fun piece => ?_⟩
        rw [splitAux]
        split
        · next hs =>
          rw [hd] at hs
          cases hs
          rw [if_neg (by simpa using hsep), append_nil]
        · next hs => rw [hd] at hs; cases hs

@[simp] theorem substitute_nil (old new : List Char) : substitute old new [] = [] := by
  simp [substitute, splitAux]

theorem substitute_skip (h : ¬ old <+: c :: cs) :
    substitute old new (c :: cs) = c :: substitute old new cs := by
  obtain ⟨x, xs, hx⟩ := exists_splitAux old cs
  have hskip : splitAux old [] (c :: cs) = (c :: x) :: xs := by
    rw [splitAux]
    split
    · next hs => exact absurd ⟨_, (dropStart?_eq_some.1 hs).symm⟩ h
    · rw [hx]; rfl
  have hrest : splitAux old [] cs = x :: xs := by rw [hx]; rfl
  rw [substitute, substitute, hskip, hrest]
  cases xs <;> simp [List.intercalate]

theorem substitute_hit (h : old ≠ []) :
    substitute old new (old ++ cs) = new ++ substitute old new cs := by
  obtain ⟨x, xs, hx⟩ := exists_splitAux old cs
  have hhit : splitAux old [] (old ++ cs) = [] :: splitAux old [] cs := by
    obtain ⟨c, old', hc⟩ := exists_cons_of_ne_nil h
    have hd : dropStart? old (c :: (old' ++ cs)) = some cs := by
      rw [← cons_append, ← hc]; exact dropStart?_append old cs
    conv => lhs; rw [show old ++ cs = c :: (old' ++ cs) by rw [hc]; rfl]
    rw [splitAux]
    split
    · next hs =>
      rw [hd] at hs
      cases hs
      rw [if_neg (by simpa using h)]
      rfl
    · next hs => rw [hd] at hs; cases hs
  rw [substitute, substitute, hhit, hx]
  simp [List.intercalate]

/-- A text without `old` stays as it is. -/
theorem substitute_of_not_infix (h : ¬ old <:+: cs) : substitute old new cs = cs := by
  induction cs with
  | nil => simp
  | cons c cs ih =>
    rw [infix_cons_iff, not_or] at h
    rw [substitute_skip h.1, ih h.2]

theorem replace_of_not_infix {old new : String} (h : ¬ old.toList <:+: s.toList) :
    replace old new s = s := by
  rw [← String.ofList_toList (s := replace old new s), toList_replace,
    substitute_of_not_infix h, String.ofList_toList]

theorem mem_of_mem_substitute (hold : old ≠ []) (h : c ∈ substitute old new cs) : c ∈ new ∨ c ∈ cs := by
  induction hlen : cs.length using Nat.strongRecOn generalizing cs with
  | ind n ih =>
    subst hlen
    by_cases hpre : old <+: cs
    · obtain ⟨rest, rfl⟩ := hpre
      rw [substitute_hit hold, mem_append] at h
      rcases h with h | h
      · exact .inl h
      · have := length_pos_iff.2 hold
        exact (ih rest.length (by simp; omega) h rfl).imp_right (mem_append_right _)
    · cases cs with
      | nil => simp at h
      | cons d cs =>
        rw [substitute_skip hpre, mem_cons] at h
        rcases h with rfl | h
        · exact .inr mem_cons_self
        · exact (ih cs.length (by simp) h rfl).imp_right (mem_cons_of_mem _)

end Stimulus.Text
