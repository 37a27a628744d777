import Mathlib.Data.List.Basic
import Stimulus.Proofs.Text.Basic
import Stimulus.Proofs.Text.Closed

/-!
# Cutting texts

What cutting at a character, or after every newline, gives for a text that is put together from
pieces without that character.
-/

open List

namespace Stimulus.Text

variable {c : Char} {u v piece : List Char}

/-! ## Cutting at a character -/

theorem splitAux_other {d : Char} (h : d ≠ c) :
    splitAux [c] piece (d :: u) = splitAux [c] (d :: piece) u := by
  have hdrop : dropStart? [c] (d :: u) = none := by simp [dropStart?, Ne.symm h]
  rw [splitAux]
  split
  · next heq => rw [hdrop] at heq; cases heq
  · rfl

theorem splitAux_same : splitAux [c] piece (c :: u) = piece.reverse :: splitAux [c] [] u := by
  have hdrop : dropStart? [c] (c :: u) = some u := by simp [dropStart?]
  rw [splitAux]
  split
  · next heq =>
    obtain rfl := Option.some.inj (hdrop.symm.trans heq)
    rfl
  · next heq => rw [hdrop] at heq; cases heq

theorem splitAux_of_not_mem (h : c ∉ u) : splitAux [c] piece u = [piece.reverse ++ u] := by
  induction u generalizing piece with
  | nil => simp [splitAux]
  | cons d u ih =>
    obtain ⟨hd, hu⟩ := not_or.1 (mem_cons.not.1 h)
    rw [splitAux_other (Ne.symm hd), ih hu]
    simp

theorem splitAux_append_sep :
    splitAux [c] piece (u ++ c :: v) = splitAux [c] piece u ++ splitAux [c] [] v := by
  induction u generalizing piece with
  | nil => simp [splitAux_same, splitAux]
  | cons d u ih =>
    by_cases hd : d = c
    · rw [hd, cons_append, splitAux_same, splitAux_same, ih, cons_append]
    · rw [cons_append, splitAux_other hd, splitAux_other hd, ih]

theorem splitAux_append_cons (h : c ∉ u) :
    splitAux [c] piece (u ++ c :: v) = (piece.reverse ++ u) :: splitAux [c] [] v := by
  rw [splitAux_append_sep, splitAux_of_not_mem h]
  rfl

theorem splitAux_flatMap {ls : List (List Char)} (hu : c ∉ u) (h : ∀ l ∈ ls, c ∉ l) :
    splitAux [c] [] (u ++ ls.flatMap (c :: ·)) = u :: ls := by
  induction ls generalizing u with
  | nil => simpa using @splitAux_of_not_mem _ _ [] hu
  | cons l ls ih =>
    obtain ⟨hl, hls⟩ := forall_mem_cons.1 h
    rw [flatMap_cons, cons_append, splitAux_append_cons hu, ih hl hls]
    simp

theorem infix_of_mem_splitAux (h : v ∈ splitAux [c] piece u) : v <:+: piece.reverse ++ u := by
  induction u generalizing piece with
  | nil =>
    rw [splitAux, mem_singleton] at h
    simp [h]
  | cons e u ih =>
    by_cases he : e = c
    · rw [he, splitAux_same, mem_cons] at h
      rcases h with rfl | h
      · exact (prefix_append _ _).isInfix
      · exact (ih h).trans ⟨piece.reverse ++ [e], [], by simp⟩
    · rw [splitAux_other he] at h
      simpa using ih h

theorem mem_of_mem_splitAux {d : Char} (h : v ∈ splitAux [c] piece u) (hd : d ∈ v) :
    d ∈ piece ∨ d ∈ u := by
  simpa using (infix_of_mem_splitAux h).subset hd

theorem not_mem_of_mem_splitAux (hpiece : c ∉ piece) (h : v ∈ splitAux [c] piece u) : c ∉ v := by
  induction u generalizing piece with
  | nil =>
    rw [splitAux, mem_singleton] at h
    simpa [h] using hpiece
  | cons d u ih =>
    by_cases hd : d = c
    · subst hd
      rw [splitAux_same] at h
      rcases mem_cons.1 h with rfl | h
      · simpa using hpiece
      · exact ih (by simp) h
    · rw [splitAux_other hd] at h
      exact ih (by simpa [Ne.symm hd] using hpiece) h

variable {w cs line : List Char} {ls : List String}

theorem suffix_of_suffix_append_cons (hw : c ∉ w) (h : w <:+ u ++ c :: v) : w <:+ v := by
  rcases suffix_or_suffix_of_suffix h (suffix_append u (c :: v)) with h | h
  · rcases suffix_cons_iff.1 h with rfl | h
    · exact absurd mem_cons_self hw
    · exact h
  · exact absurd (h.subset mem_cons_self) hw

theorem exists_last_splitAux (hw : c ∉ w) (h : w <:+ piece.reverse ++ u) :
    ∃ front last, splitAux [c] piece u = front ++ [last] ∧ w <:+ last := by
  induction u generalizing piece with
  | nil => exact ⟨[], piece.reverse, by simp [splitAux], by simpa using h⟩
  | cons d u ih =>
    by_cases hd : d = c
    · subst hd
      obtain ⟨front, last, hsplit, hlast⟩ :=
        @ih [] (by simpa using suffix_of_suffix_append_cons hw h)
      exact ⟨piece.reverse :: front, last, by rw [splitAux_same, hsplit]; rfl, hlast⟩
    · rw [splitAux_other hd]
      exact ih (by simpa using h)

theorem isInfix_strip (s : String) : (strip s).toList <:+: s.toList := by
  rw [strip, String.toList_ofList]
  exact ( dropEnds_prefix isBlank s.toList).isInfix.trans (dropWhile_suffix isBlank).isInfix

/-! ## Lines of a file -/

theorem cutAfterNewlines_append (h : '\n' ∉ u) :
    cutAfterNewlines piece (u ++ '\n' :: v) =
      String.ofList (piece.reverse ++ u ++ ['\n']) :: cutAfterNewlines [] v := by
  induction u generalizing piece with
  | nil => simp [cutAfterNewlines]
  | cons d u ih =>
    obtain ⟨hd, hu⟩ := not_or.1 (mem_cons.not.1 h)
    rw [cons_append, cutAfterNewlines, if_neg (by simpa using Ne.symm hd), ih hu]
    simp

theorem cutAfterNewlines_flatMap {ls : List (List Char)} (h : ∀ l ∈ ls, '\n' ∉ l) :
    cutAfterNewlines [] (ls.flatMap (· ++ ['\n'])) = ls.map fun l => String.ofList (l ++ ['\n']) := by
  induction ls with
  | nil => rfl
  | cons l ls ih =>
    obtain ⟨hl, hls⟩ := forall_mem_cons.1 h
    rw [flatMap_cons, append_assoc, singleton_append, cutAfterNewlines_append hl, ih hls]
    rfl

theorem fileLines_flatMap {α : Type} {f : α → List Char} {xs : List α} (h : ∀ x ∈ xs, '\n' ∉ f x) :
    fileLines (String.ofList (xs.flatMap fun x => f x ++ ['\n'])) =
      xs.map fun x => String.ofList (f x ++ ['\n']) := by
  have hcut := cutAfterNewlines_flatMap (forall_mem_map.2 h)
  rw [flatMap_map, map_map] at hcut
  rw [fileLines, String.toList_ofList]
  exact hcut

/-! ## Lines after newlines -/

/-- Lines, each after a newline. -/
def lined (ls : List (List Char)) : List Char := ls.flatMap ('\n' :: ·)

theorem lined_cons (l : List Char) (ls : List (List Char)) :
    lined (l :: ls) = '\n' :: (l ++ lined ls) := by
  simp [lined]

theorem lined_append (ls ms : List (List Char)) : lined (ls ++ ms) = lined ls ++ lined ms := by
  simp [lined]

theorem lined_concat_nil (ls : List (List Char)) :
    lined (ls ++ [[]]) = '\n' :: ls.flatMap (· ++ ['\n']) := by
  induction ls with
  | nil => rfl
  | cons l ls ih => rw [cons_append, lined_cons, ih]; simp

theorem splitAux_lined {ls : List (List Char)} (hu : '\n' ∉ u)
    (h : ∀ l ∈ ls, '\n' ∉ l) : splitAux ['\n'] [] (u ++ lined ls) = u :: ls :=
  splitAux_flatMap hu h

theorem toList_join_newline (l : String) (ls : List String) :
    (join "\n" (l :: ls)).toList = l.toList ++ lined (ls.map String.toList) := by
  rw [join, String.toList_intercalate, map_cons, intercalate_cons]
  rfl

theorem splitOn_join_newline (hne : ls ≠ []) (h : ∀ l ∈ ls, '\n' ∉ l.toList) :
    splitOn "\n" (join "\n" ls) = ls := by
  obtain ⟨l, ls, rfl⟩ := exists_cons_of_ne_nil hne
  obtain ⟨hl, hls⟩ := forall_mem_cons.1 h
  have hsplit : splitAux ['\n'] [] (join "\n" (l :: ls)).toList = l.toList :: ls.map String.toList := by
    rw [toList_join_newline, splitAux_lined hl (by simpa using hls)]
  calc splitOn "\n" (join "\n" (l :: ls))
      = (splitAux ['\n'] [] (join "\n" (l :: ls)).toList).map String.ofList := rfl
    _ = l :: ls := by rw [hsplit]; simp [Function.comp_def]

theorem join_blocks {p : List String} {ps : List (List String)} (hp : p ≠ [])
    (hps : ∀ q ∈ ps, q ≠ []) :
    join "\n\n" ((p :: ps).map (join "\n")) = join "\n" (p ++ ps.flatMap ("" :: ·)) := by
  have hblock : ∀ q ∈ ps, "\n\n".toList ++ (join "\n" q).toList = lined (("" :: q).map String.toList) := by
    intro q hq
    obtain ⟨l, ls, rfl⟩ := exists_cons_of_ne_nil (hps q hq)
    rw [toList_join_newline, map_cons, map_cons, lined_cons, lined_cons]
    simp
  have hblocks : lined ((ps.flatMap ("" :: ·)).map String.toList) =
      ps.flatMap fun q => "\n\n".toList ++ (join "\n" q).toList := by
    rw [flatMap_congr hblock, lined, map_flatMap, flatMap_assoc]
    rfl
  obtain ⟨l, ls, rfl⟩ := exists_cons_of_ne_nil hp
  rw [← String.toList_inj, join, String.toList_intercalate, map_cons, map_cons,
    intercalate_cons, toList_join_newline, cons_append, toList_join_newline, map_append,
    lined_append, hblocks, append_assoc, map_map, flatMap_map]
  rfl

theorem toList_join_concat :
    (join "\n" (ls ++ [""])).toList = ls.flatMap fun l => l.toList ++ ['\n'] := by
  cases ls with
  | nil => rfl
  | cons l ls =>
    have hlined := lined_concat_nil ((l :: ls).map String.toList)
    rw [map_cons, cons_append, lined_cons] at hlined
    rw [cons_append, toList_join_newline, map_append, ← cons_inj_right '\n']
    refine hlined.trans ?_
    simp [flatMap_map]

/-! ## Where a text stands -/

theorem infix_join_of_mem {sep s : String} (h : s ∈ ls) : s.toList <:+: (join sep ls).toList := by
  rw [join, String.toList_intercalate]
  induction ls with
  | nil => cases h
  | cons l ls ih =>
    rw [map_cons, intercalate_cons]
    rcases mem_cons.1 h with rfl | h
    · exact (prefix_append _ _).isInfix
    · have hin : s.toList <:+: (ls.map String.toList).flatMap (sep.toList ++ ·) := by
        obtain ⟨a, b, rfl⟩ := append_of_mem h
        rw [map_append, flatMap_append, map_cons, flatMap_cons]
        exact (((suffix_append sep.toList s.toList).isInfix.trans
          (prefix_append _ _).isInfix)).trans (suffix_append _ _).isInfix
      exact hin.trans (suffix_append _ _).isInfix

theorem infix_join_iff {lines : List String} (hlines : ∀ l ∈ lines, ∃ u, l.toList = u ++ ['\n'])
    (hne : w ≠ []) (hw : '\n' ∉ w) :
    w <:+: (String.join lines).toList ↔ ∃ l ∈ lines, w <:+: l.toList := by
  rw [String.toList_join]
  induction lines with
  | nil => simpa using hne
  | cons l lines ih =>
    obtain ⟨⟨u, hu⟩, hrest⟩ := forall_mem_cons.1 hlines
    simp only [flatMap_cons, mem_cons, exists_eq_or_imp, ← ih hrest]
    constructor
    · intro h
      rw [hu, append_assoc, singleton_append] at h
      exact (infix_append_cons hw h).imp_left fun h => hu ▸ h.trans (prefix_append u _).isInfix
    · rintro (h | h)
      · exact h.trans (prefix_append _ _).isInfix
      · exact h.trans (suffix_append _ _).isInfix

/-- A text that ends with a character that `v` lacks stands before `v`. -/
theorem infix_of_infix_append (hc : c ∉ v) (h : w ++ [c] <:+: u ++ v) : w ++ [c] <:+: u := by
  obtain ⟨s, t, h⟩ := h
  rcases append_eq_append_iff.1 h with ⟨a, rfl, -⟩ | ⟨b, hb, rfl⟩
  · exact ⟨s, a, rfl⟩
  · rcases eq_nil_or_concat b with rfl | ⟨b, d, rfl⟩
    · exact ⟨s, [], by simpa using hb⟩
    · rw [concat_eq_append, ← append_assoc, ← append_assoc] at hb
      obtain ⟨-, hd⟩ := append_inj' hb rfl
      exact absurd (by simp [(List.cons.inj hd).1]) hc

/-- A text has one part before its first `c`. -/
theorem append_cons_inj {x y x' y' : List Char} (hx : c ∉ x) (hx' : c ∉ x')
    (h : x ++ c :: y = x' ++ c :: y') : x = x' ∧ y = y' := by
  have hcut : x.length = x'.length := by
    have hidx := congrArg (List.idxOf c) h
    simpa [idxOf_append_of_notMem hx, idxOf_append_of_notMem hx'] using hidx
  obtain ⟨rfl, hrest⟩ := append_inj h hcut
  exact ⟨rfl, (List.cons.inj hrest).2⟩

/-- A text with a `c` stands in a text with one `c` if its parts fit around that `c`. -/
theorem infix_around {p q : List Char} (hu : c ∉ u) (hv : c ∉ v)
    (h : p ++ c :: q <:+: u ++ c :: v) : p <:+ u ∧ q <+: v := by
  obtain ⟨s, t, h⟩ := h
  have hcut : u ++ c :: v = (s ++ p) ++ c :: (q ++ t) := by simpa using h.symm
  obtain ⟨rfl, -, rfl⟩ := (append_cons_inj_of_notMem hu hv).1 hcut
  exact ⟨suffix_append s p, prefix_append q t⟩

/-! ## Line ends -/

theorem unifyNewlinesAux_of_front {w : List Char} (h : '\r' ∉ w) (v : List Char) :
    unifyNewlinesAux (w ++ v) = w ++ unifyNewlinesAux v := by
  induction w with
  | nil => rfl
  | cons c w ih =>
    obtain ⟨hc, hw⟩ := not_or.1 (mem_cons.not.1 h)
    rw [cons_append, unifyNewlinesAux, ih hw, if_neg (by simpa using Ne.symm hc), cons_append]
    rintro - rfl
    exact absurd rfl hc

theorem unifyNewlines_of_not_mem {s : String} (h : '\r' ∉ s.toList) : unifyNewlines s = s := by
  have hfront := unifyNewlinesAux_of_front h []
  rw [append_nil, unifyNewlinesAux, append_nil] at hfront
  rw [unifyNewlines, hfront, String.ofList_toList]

end Stimulus.Text
