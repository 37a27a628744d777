import Mathlib.Data.List.Flatten
import Stimulus.Model.Field
import Stimulus.Pipeline.Input
import Stimulus.Proofs.Pattern.Find
import Stimulus.Proofs.Register.Markup

/-!
# Class names

The name of a declared type becomes the name of a class: without the mark of a type at its end and
without underscores, with a capital for every letter that starts a part. So different names may become
one.

* `className_eq_iff`: which names become one.
* `isIdent_className`: a plain name becomes a plain name.
-/

open List hiding removeAll splitOn
open String (ofList toList_ofList)

namespace Stimulus

open Pattern Text Sv

variable {cs : List Char} {name : String}

theorem Pattern.removeAll_of_lacks {p : Pattern} (h : Lacks p cs) :
    p.removeAll (ofList cs) = ofList cs := by
  have hspans : p.spans cs = [] := by
    simp [spans, spansFrom, Spot.start, searchFrom_of_none h]
  rw [removeAll, replaceAll, toList_ofList, hspans]
  simp [splice, Spot.start]

theorem Text.nameTail_toUpper {c : Char} (h : nameTail c = true) : nameTail c.toUpper = true :=
  forall_nameTail (p := fun c => nameTail c.toUpper = true) (by decide) h

namespace Model

/-- A name of letters, digits and underscores. -/
def IsIdent (name : String) : Prop := ∀ c ∈ name.toList, nameTail c = true

instance (name : String) : Decidable (IsIdent name) := inferInstanceAs (Decidable (∀ _ ∈ _, _))

theorem IsIdent.not_mem (h : IsIdent name) {c : Char} (hc : nameTail c = false) : c ∉ name.toList :=
  fun hmem => by simp [h c hmem] at hc

/-! ## The mark of a type -/

/-- The name ends in the mark of a type or an enumeration. -/
def Marked (cs : List Char) : Prop := ['_', 't'] <:+ cs ∨ ['_', 'e'] <:+ cs

instance (cs : List Char) : Decidable (Marked cs) := inferInstanceAs (Decidable (_ ∨ _))

def unmarked (cs : List Char) : List Char := if Marked cs then cs.dropLast.dropLast else cs

theorem walk_typeMark {s : Spot} (h : '\n' ∉ s.after) : walk typeMark s some =
    if s.after = ['_', 't'] ∨ s.after = ['_', 'e'] then some (s.pass s.after []) else none := by
  obtain ⟨before, after, pos, kept⟩ := s
  match after, h with
  | [], _ => rfl
  | [a], _ =>
    by_cases ha : a = '_'
    · subst ha
      rfl
    · rw [if_neg (by simp)]
      exact walk_lit_none (by simpa [eq_comm] using ha)
  | [a, b], _ =>
    by_cases ha : a = '_'
    · subst ha
      by_cases hb : b = 't' ∨ b = 'e'
      · rcases hb with rfl | rfl <;> rfl
      · have hset : "te".toList.contains b = false := by simpa [not_or] using hb
        have hwalk : walk typeMark ⟨before, ['_', b], pos, kept⟩ some =
            walk (oneOf "te") ⟨'_' :: before, [b], pos + 1, kept⟩ fun u => walk last u some := rfl
        rw [hwalk, oneOf, walk_one_none rfl hset, if_neg (by simpa using hb)]
    · rw [if_neg (by simp [ha])]
      exact walk_lit_none (by simpa [eq_comm] using ha)
  | a :: b :: c :: r, h =>
    rw [if_neg (by simp)]
    by_cases ha : a = '_'
    · subst ha
      have hc : c ≠ '\n' := fun heq => h (by simp [heq])
      have hwalk : walk typeMark ⟨before, '_' :: b :: c :: r, pos, kept⟩ some =
          walk (oneOf "te") ⟨'_' :: before, b :: c :: r, pos + 1, kept⟩ fun u => walk last u some := rfl
      rw [hwalk]
      simp only [oneOf, walk, Spot.advance]
      split
      · split
        · next heq => cases heq
        · next heq => exact absurd (List.cons.inj heq).1 hc
        · rfl
      · rfl
    · exact walk_lit_none (by simpa [eq_comm] using ha)

theorem replaceFrom_typeMark {x : Char} (hx : x = 't' ∨ x = 'e') {u : List Char} (h : '\n' ∉ u)
    (before : List Char) (pos : Nat) :
    replaceFrom typeMark (fun _ => "") before pos (u ++ ['_', x]) = u := by
  have hline : '\n' ∉ u ++ ['_', x] := by
    rcases hx with rfl | rfl <;> simpa using h
  induction u generalizing before pos with
  | nil =>
    have hhit := @walk_typeMark ⟨before, ['_', x], pos, []⟩ hline
    rw [if_pos (by simpa using hx)] at hhit
    rw [nil_append, replaceFrom_hit hhit (by simp)]
    exact replaceFrom_nil ((walk_typeMark (by simp)).trans (if_neg (by simp)))
  | cons c u ih =>
    rw [cons_append] at hline ⊢
    have hskip := @walk_typeMark ⟨before, c :: (u ++ ['_', x]), pos, []⟩ hline
    rw [if_neg (by cases u <;> simp)] at hskip
    obtain ⟨-, hu⟩ := not_or.1 (mem_cons.not.1 h)
    obtain ⟨-, hline'⟩ := not_or.1 (mem_cons.not.1 hline)
    rw [replaceFrom_skip hskip, ih hu _ _ hline']

theorem unmarked_append {x : Char} (hx : x = 't' ∨ x = 'e') (u : List Char) :
    unmarked (u ++ ['_', x]) = u := by
  have hmarked : Marked (u ++ ['_', x]) := by
    rcases hx with rfl | rfl
    · exact .inl (suffix_append _ _)
    · exact .inr (suffix_append _ _)
  rw [unmarked, if_pos hmarked]
  simp [dropLast_append_of_ne_nil]

theorem Marked.exists_append (h : Marked cs) : ∃ u x, (x = 't' ∨ x = 'e') ∧ cs = u ++ ['_', x] := by
  rcases h with ⟨u, rfl⟩ | ⟨u, rfl⟩
  · exact ⟨u, 't', .inl rfl, rfl⟩
  · exact ⟨u, 'e', .inr rfl, rfl⟩

theorem removeAll_typeMark (h : '\n' ∉ cs) :
    typeMark.removeAll (ofList cs) = ofList (unmarked cs) := by
  by_cases hmarked : Marked cs
  · obtain ⟨u, x, hx, rfl⟩ := hmarked.exists_append
    rw [removeAll, replaceAll_eq, toList_ofList, unmarked_append hx,
      replaceFrom_typeMark hx fun hu => h (mem_append_left _ hu)]
  · rw [unmarked, if_neg hmarked]
    refine removeAll_of_lacks fun s hs => ?_
    rw [walk_typeMark fun hmem => h (hs.subset hmem), if_neg]
    rintro (heq | heq)
    · exact hmarked (.inl (heq ▸ hs))
    · exact hmarked (.inr (heq ▸ hs))

/-! ## Parts of a name -/

/-- The name of the class: capitals where a part starts, and small letters elsewhere. `start` says that
a part starts here. -/
def joinedParts : (start : Bool) → List Char → List Char
  | _, [] => []
  | start, c :: cs =>
    if c = '_' then joinedParts true cs
    else (if start then c.toUpper else c.toLower) :: joinedParts false cs

/-- The letters and digits of a name in lower case. With each stands whether it is a letter that starts
a part. -/
def letters : (start : Bool) → List Char → List (Char × Bool)
  | _, [] => []
  | start, c :: cs =>
    if c = '_' then letters true cs else (c.toLower, start && c.isAlpha) :: letters false cs

theorem joinedParts_eq_map (h : ∀ c ∈ cs, nameTail c = true) (start : Bool) :
    joinedParts start cs = (letters start cs).map fun (c, b) => if b then c.toUpper else c := by
  have hchar {c : Char} (hc : nameTail c = true) :=
    forall_nameTail (p := fun c => ∀ start : Bool, (if start then c.toUpper else c.toLower) =
      if start && c.isAlpha then c.toLower.toUpper else c.toLower) (by decide) hc
  induction cs generalizing start with
  | nil => rfl
  | cons c cs ih =>
    obtain ⟨hc, hcs⟩ := forall_mem_cons.1 h
    rw [joinedParts, letters]
    split
    · exact ih hcs true
    · rw [map_cons, ih hcs false, hchar hc start]

theorem letters_eq_map (h : ∀ c ∈ cs, nameTail c = true) (start : Bool) :
    letters start cs = (joinedParts start cs).map fun c => (c.toLower, c.isUpper) := by
  have hchar {c : Char} (hc : nameTail c = true) :=
    forall_nameTail (p := fun c => ∀ start : Bool, (c.toLower, start && c.isAlpha) =
      let d := if start then c.toUpper else c.toLower; (d.toLower, d.isUpper)) (by decide) hc
  induction cs generalizing start with
  | nil => rfl
  | cons c cs ih =>
    obtain ⟨hc, hcs⟩ := forall_mem_cons.1 h
    rw [joinedParts, letters]
    split
    · exact ih hcs true
    · rw [map_cons, ih hcs false, hchar hc start]

theorem joinedParts_inj {ds : List Char} (h : ∀ c ∈ cs, nameTail c = true)
    (h' : ∀ c ∈ ds, nameTail c = true) :
    joinedParts true cs = joinedParts true ds ↔ letters true cs = letters true ds := by
  constructor
  · intro heq
    rw [letters_eq_map h, letters_eq_map h', heq]
  · intro heq
    rw [joinedParts_eq_map h, joinedParts_eq_map h', heq]

/-- A part with a capital at its start. -/
def capitalized : List Char → List Char
  | [] => []
  | c :: cs => c.toUpper :: cs.map Char.toLower

theorem capitalized_concat (u : List Char) (c : Char) :
    capitalized (u ++ [c]) = capitalized u ++ [if u.isEmpty then c.toUpper else c.toLower] := by
  cases u <;> simp [capitalized]

theorem toList_capitalize (h : ∀ c ∈ cs, nameTail c = true) :
    (capitalize (ofList cs)).toList = capitalized cs := by
  rw [capitalize, toList_ofList]
  cases cs with
  | nil => rfl
  | cons c cs =>
    obtain ⟨hc, hcs⟩ := forall_mem_cons.1 h
    simp [capitalized, lowerAfter_ascii fun c hc => (toNat_of_nameTail (hcs c hc)).2, titleChar,
      if_pos (toNat_of_nameTail hc).2]

/-- The parts from a place on, if `piece` is the part under way. -/
theorem flatMap_capitalized (piece : List Char) :
    (splitAux ['_'] piece cs).flatMap capitalized =
      capitalized piece.reverse ++ joinedParts piece.isEmpty cs := by
  induction cs generalizing piece with
  | nil => simp [splitAux, joinedParts]
  | cons c cs ih =>
    by_cases hbar : c = '_'
    · subst hbar
      rw [splitAux_same, flatMap_cons, ih, joinedParts, if_pos rfl]
      rfl
    · rw [splitAux_other hbar, ih, joinedParts, if_neg hbar, reverse_cons, capitalized_concat]
      simp

theorem toList_modelName (h : ∀ c ∈ cs, nameTail c = true) :
    (Pipeline.modelName (ofList cs)).toList = joinedParts true cs := by
  have hparts : ∀ w ∈ splitAux ['_'] [] cs, (capitalize (ofList w)).toList = capitalized w :=
    fun w hw => toList_capitalize fun c hc =>
      h c ((mem_of_mem_splitAux hw hc).resolve_left (by simp))
  have hsplit : splitOn "_" (ofList cs) = (splitAux ['_'] [] cs).map ofList := by
    rw [splitOn, show (ofList cs).toList = cs from toList_ofList]
    rfl
  rw [Pipeline.modelName, hsplit, String.toList_join, map_map, flatMap_map]
  exact (flatMap_congr hparts).trans (flatMap_capitalized [])

theorem className_eq (name : String) :
    className name = Pipeline.modelName (typeMark.removeAll name) := rfl

/-- Names of types that are the same once the mark, the underscores and the case of the letters are
gone, with parts that start at the same letters. -/
def Alike (a b : String) : Prop := letters true (unmarked a.toList) = letters true (unmarked b.toList)

instance (a b : String) : Decidable (Alike a b) := inferInstanceAs (Decidable (_ = _))

theorem unmarked_subset (cs : List Char) : unmarked cs ⊆ cs := by
  unfold unmarked
  split
  · exact List.Subset.trans (dropLast_subset _) (dropLast_subset _)
  · exact List.Subset.refl _

theorem toList_className (h : IsIdent name) :
    (className name).toList = joinedParts true (unmarked name.toList) := by
  have hremove := removeAll_typeMark (h.not_mem (c := '\n') (by decide))
  rw [String.ofList_toList] at hremove
  rw [className_eq, hremove, toList_modelName fun c hc => h c (unmarked_subset _ hc)]

theorem className_eq_iff {a b : String} (ha : IsIdent a) (hb : IsIdent b) :
    className a = className b ↔ Alike a b := by
  rw [← String.toList_inj, toList_className ha, toList_className hb]
  exact joinedParts_inj (fun c hc => ha c (unmarked_subset _ hc)) fun c hc =>
    hb c (unmarked_subset _ hc)

theorem nameTail_joinedParts (h : ∀ c ∈ cs, nameTail c = true) (start : Bool) :
    ∀ c ∈ joinedParts start cs, nameTail c = true := by
  induction cs generalizing start with
  | nil => simp [joinedParts]
  | cons c cs ih =>
    obtain ⟨hc, hcs⟩ := forall_mem_cons.1 h
    rw [joinedParts]
    split
    · exact ih hcs true
    · refine forall_mem_cons.2 ⟨?_, ih hcs false⟩
      split
      · exact nameTail_toUpper hc
      · exact nameTail_toLower hc

theorem isIdent_className (h : IsIdent name) : IsIdent (className name) := by
  rw [IsIdent, toList_className h]
  exact nameTail_joinedParts (fun c hc => h c (unmarked_subset _ hc)) true

end Model

end Stimulus
