import Mathlib.Algebra.Order.Group.Nat
import Mathlib.Data.List.Infix
import Stimulus.Proofs.Pattern.Walk
import Stimulus.Sv.Comment

/-!
# Comments in two passes and in one scan

`withoutComments` is the text that one scan from the left leaves, which takes whichever comment opens
first. Two passes over the text, block comments first, take a block comment also where it opens inside
a line comment. What they leave is the same as long as no such block comment reaches past its line, and
as long as none starts with the second slash of a line comment. If no two marks of a text share a
character this is also needed, as the passes keep fewer newlines otherwise.
-/

open List

namespace Stimulus.Sv

variable {cs rest : List Char} {c : Char}

/-! ## The scan -/

/-- The text without its comments. A comment that opens with `//` goes up to the next newline, one
that opens with `/*` up to and with the next `*/`; if there is none, no comment opens. -/
def withoutComments (cs : List Char) : List Char :=
  match cs with
  | [] => []
  | '/' :: '/' :: cs => withoutComments (cs.dropWhile (· != '\n'))
  | '/' :: '*' :: cs =>
    match _h : afterBlockEnd? cs with
    | some rest => withoutComments rest
    | none => '/' :: '*' :: withoutComments cs
  | c :: cs => c :: withoutComments cs
termination_by cs.length
decreasing_by
  · exact Nat.lt_succ_of_lt (Nat.lt_succ_of_le (dropWhile_suffix _).length_le)
  · exact Nat.lt_succ_of_lt (Nat.lt_succ_of_lt (length_afterBlockEnd? _h))
  · exact Nat.lt_succ_of_lt (Nat.lt_succ_self _)
  · exact Nat.lt_succ_self _

/-- The line comments that the scan finds: the text after the two slashes of each one, and the text
that follows it. -/
def lineComments (cs : List Char) : List (List Char × List Char) :=
  match cs with
  | [] => []
  | '/' :: '/' :: cs =>
    (cs.takeWhile (· != '\n'), cs.dropWhile (· != '\n')) :: lineComments (cs.dropWhile (· != '\n'))
  | '/' :: '*' :: cs =>
    match _h : afterBlockEnd? cs with
    | some rest => lineComments rest
    | none => lineComments cs
  | _ :: cs => lineComments cs
termination_by cs.length
decreasing_by
  · exact Nat.lt_succ_of_lt (Nat.lt_succ_of_le (dropWhile_suffix _).length_le)
  · exact Nat.lt_succ_of_lt (Nat.lt_succ_of_lt (length_afterBlockEnd? _h))
  · exact Nat.lt_succ_of_lt (Nat.lt_succ_self _)
  · exact Nat.lt_succ_self _

/-- A block comment opens in the line comment `w` and is closed only in the text `v` after it. -/
def Straddles (w v : List Char) : Prop :=
  (∃ a b, w = a ++ '/' :: '*' :: b ∧ ¬ ['*', '/'] <:+: b) ∧ ['*', '/'] <:+: v

/-- No block comment opens with the second slash of a line comment, and none that opens in a line
comment reaches past the line. -/
def Contained (cs : List Char) : Prop :=
  ∀ x ∈ lineComments cs, x.1.head? ≠ some '*' ∧ ¬ Straddles x.1 x.2

/-- No character belongs to two marks. -/
structure MarksApart (cs : List Char) : Prop where
  slashes : ¬ ['/', '/', '*'] <:+: cs
  opening : ¬ ['/', '*', '/'] <:+: cs
  closing : ¬ ['*', '/', '*'] <:+: cs

theorem MarksApart.of_infix {t : List Char} (h : MarksApart cs) (ht : t <:+: cs) : MarksApart t where
  slashes hi := h.slashes (hi.trans ht)
  opening hi := h.opening (hi.trans ht)
  closing hi := h.closing (hi.trans ht)

theorem MarksApart.of_cons (h : MarksApart (c :: cs)) : MarksApart cs :=
  h.of_infix (suffix_cons c cs).isInfix

section Pair

variable {a b : Char} {w v : List Char}

theorem prefix_pair_iff : [a, b] <+: c :: cs ↔ c = a ∧ ∃ t, cs = b :: t := by
  rw [cons_prefix_cons]
  refine and_congr eq_comm ⟨?_, ?_⟩
  · rintro ⟨t, rfl⟩
    exact ⟨t, rfl⟩
  · rintro ⟨t, rfl⟩
    exact ⟨t, rfl⟩

theorem not_pair_of_cases (h : ∀ t, c = a → cs = b :: t → False) : ¬ [a, b] <+: c :: cs := by
  rw [prefix_pair_iff]
  rintro ⟨hc, t, ht⟩
  exact h t hc ht

theorem not_pair_append (h : ¬ [a, b] <+: c :: w) (hv : w = [] → v.head? ≠ some b) :
    ¬ [a, b] <+: c :: (w ++ v) := by
  rw [prefix_pair_iff] at h ⊢
  rintro ⟨rfl, t, ht⟩
  cases w with
  | nil => exact hv rfl (by rw [← nil_append v, ht]; rfl)
  | cons d w => exact h ⟨rfl, w, by rw [(cons_eq_cons.1 ht).1]⟩

end Pair

/-! ## The first pass -/

theorem afterBlockEnd?_eq_none :
    afterBlockEnd? cs = none ↔ ¬ ['*', '/'] <:+: cs := by
  fun_induction afterBlockEnd? cs with
  | case1 => simp
  | case2 cs => simpa using ⟨[], cs, rfl⟩
  | case3 c cs hne ih =>
    rw [infix_cons_iff, not_or, ih, and_iff_right (not_pair_of_cases hne)]

theorem afterBlockEnd?_cons (h : ¬ ['*', '/'] <+: c :: cs) :
    afterBlockEnd? (c :: cs) = afterBlockEnd? cs :=
  afterBlockEnd?.eq_3 c cs fun t hc ht => h (prefix_pair_iff.2 ⟨hc, t, ht⟩)

theorem afterBlockEnd?_append (h : afterBlockEnd? cs = some rest)
    (v : List Char) : afterBlockEnd? (cs ++ v) = some (rest ++ v) := by
  fun_induction afterBlockEnd? cs with
  | case1 => cases h
  | case2 cs =>
    obtain rfl := Option.some.inj h
    rfl
  | case3 c cs hne ih =>
    rw [cons_append, afterBlockEnd?_cons (not_pair_append (not_pair_of_cases hne) ?_), ih h]
    rintro rfl
    cases h

/-- A text that does not close a block is passed, unless it ends in the middle of the mark. -/
theorem afterBlockEnd?_append_of_none {v : List Char} (h : afterBlockEnd? cs = none)
    (hv : v.head? ≠ some '/') : afterBlockEnd? (cs ++ v) = afterBlockEnd? v := by
  fun_induction afterBlockEnd? cs with
  | case1 => rfl
  | case2 cs => cases h
  | case3 c cs hne ih =>
    rw [cons_append, afterBlockEnd?_cons (not_pair_append (not_pair_of_cases hne) fun _ => hv), ih h]

theorem suffix_of_afterBlockEnd? (h : afterBlockEnd? cs = some rest) :
    '*' :: '/' :: rest <:+ cs := by
  fun_induction afterBlockEnd? cs with
  | case1 => cases h
  | case2 cs =>
    obtain rfl := Option.some.inj h
    exact suffix_rfl
  | case3 c cs _ ih => exact (ih h).trans (suffix_cons c cs)

theorem rest_suffix_of_afterBlockEnd? (h : afterBlockEnd? cs = some rest) :
    rest <:+ cs :=
  List.IsSuffix.trans ⟨['*', '/'], rfl⟩ (suffix_of_afterBlockEnd? h)

theorem dropBlockComments_open (h : afterBlockEnd? cs = some rest) :
    dropBlockComments ('/' :: '*' :: cs) = dropBlockComments rest := by
  rw [dropBlockComments]
  split <;> simp_all

theorem dropBlockComments_open_none (h : afterBlockEnd? cs = none) :
    dropBlockComments ('/' :: '*' :: cs) = '/' :: '*' :: cs := by
  rw [dropBlockComments]
  split <;> simp_all

theorem dropBlockComments_cons (h : ¬ ['/', '*'] <+: c :: cs) :
    dropBlockComments (c :: cs) = c :: dropBlockComments cs := by
  rw [dropBlockComments.eq_3]
  rintro t rfl rfl
  exact h (prefix_pair_iff.2 ⟨rfl, t, rfl⟩)

theorem dropBlockComments_of_none (h : afterBlockEnd? cs = none) :
    dropBlockComments cs = cs := by
  fun_induction dropBlockComments cs with
  | case1 => rfl
  | case2 cs rest hrest =>
    rw [afterBlockEnd?_eq_none] at h
    refine absurd ?_ h
    exact infix_cons (infix_cons (not_not.1 (mt afterBlockEnd?_eq_none.2 (by simp [hrest]))))
  | case3 => rfl
  | case4 c cs hne ih =>
    rw [ih]
    rw [afterBlockEnd?_eq_none] at h ⊢
    exact fun hi => h (infix_cons hi)

/-! ## A line before other text -/

section Lines

variable {cs rest v w : List Char}

theorem head?_ne (hv : ∀ d ∈ v.head?, d = '\n') (hc : c ≠ '\n') : v.head? ≠ some c :=
  fun h => hc (hv c h)

theorem not_open_append (h : ¬ ['/', '*'] <+: c :: w) (hv : ∀ d ∈ v.head?, d = '\n') :
    ¬ ['/', '*'] <+: c :: (w ++ v) :=
  not_pair_append h fun _ => head?_ne hv (by decide)

theorem dropBlockComments_line (hw : w.head? ≠ some '*') (hv : ∀ d ∈ v.head?, d = '\n') :
    dropBlockComments ('/' :: '/' :: (w ++ v)) = '/' :: '/' :: dropBlockComments (w ++ v) := by
  have hslash : ¬ ['/', '*'] <+: '/' :: w :=
    not_pair_of_cases fun t _ ht => hw (by rw [ht]; rfl)
  rw [dropBlockComments_cons (by simp), dropBlockComments_cons (not_open_append hslash hv)]

/-- A line whose block comments end on it, or never, is passed on its own. -/
theorem dropBlockComments_append (hv : ∀ d ∈ v.head?, d = '\n') (h : ¬ Straddles w v) :
    dropBlockComments (w ++ v) = dropBlockComments w ++ dropBlockComments v := by
  fun_induction dropBlockComments w with
  | case1 => rfl
  | case2 cs rest hrest ih =>
    rw [cons_append, cons_append, dropBlockComments_open (afterBlockEnd?_append hrest v), ih]
    rintro ⟨⟨a, b, rfl, hb⟩, hclose⟩
    obtain ⟨u, rfl⟩ := rest_suffix_of_afterBlockEnd? hrest
    exact h ⟨⟨'/' :: '*' :: (u ++ a), b, by simp, hb⟩, hclose⟩
  | case3 cs hnone =>
    have hv' : afterBlockEnd? v = none := by
      rw [afterBlockEnd?_eq_none]
      exact fun hclose => h ⟨⟨[], cs, rfl, afterBlockEnd?_eq_none.1 hnone⟩, hclose⟩
    have hall : afterBlockEnd? (cs ++ v) = none := by
      rw [afterBlockEnd?_append_of_none hnone (head?_ne hv (by decide)), hv']
    rw [cons_append, cons_append, dropBlockComments_open_none hall,
      dropBlockComments_of_none hv']
    rfl
  | case4 c cs hne ih =>
    rw [cons_append, dropBlockComments_cons (not_open_append (not_pair_of_cases hne) hv), ih,
      cons_append]
    rintro ⟨⟨a, b, rfl, hb⟩, hclose⟩
    exact h ⟨⟨c :: a, b, rfl, hb⟩, hclose⟩

theorem mem_of_mem_dropBlockComments {c : Char} (h : c ∈ dropBlockComments cs) : c ∈ cs := by
  fun_induction dropBlockComments cs with
  | case1 => exact h
  | case2 cs rest hrest ih =>
    exact mem_cons_of_mem _ (mem_cons_of_mem _ ((rest_suffix_of_afterBlockEnd? hrest).mem (ih h)))
  | case3 => exact h
  | case4 d cs _ ih => exact (mem_cons.1 h).elim (· ▸ mem_cons_self) (mem_cons_of_mem d ∘ ih)

theorem dropLineCommentsFrom_append (hw : '\n' ∉ w) :
    dropLineCommentsFrom true (w ++ v) = dropLineCommentsFrom true v := by
  induction w with
  | nil => rfl
  | cons c w ih =>
    rw [mem_cons, not_or] at hw
    rw [cons_append, dropLineCommentsFrom, if_neg (Ne.symm hw.1), ih hw.2]

/-- At the end of a line the second pass is outside comments again. -/
theorem dropLineCommentsFrom_true (hv : ∀ d ∈ v.head?, d = '\n') :
    dropLineCommentsFrom true v = dropLineCommentsFrom false v := by
  cases v with
  | nil => rfl
  | cons c v =>
    obtain rfl := hv c rfl
    rfl

theorem dropLineCommentsFrom_cons {c : Char} (h : ¬ ['/', '/'] <+: c :: cs) :
    dropLineCommentsFrom false (c :: cs) = c :: dropLineCommentsFrom false cs := by
  refine dropLineCommentsFrom.eq_4 c cs ?_
  rintro t rfl rfl
  exact h (prefix_pair_iff.2 ⟨rfl, t, rfl⟩)

/-! ## Texts without slashes -/

theorem dropBlockComments_of_front (h : '/' ∉ w) :
    dropBlockComments (w ++ v) = w ++ dropBlockComments v := by
  induction w with
  | nil => rfl
  | cons c w ih =>
    obtain ⟨hc, hw⟩ := not_or.1 (mem_cons.not.1 h)
    rw [cons_append, dropBlockComments_cons (not_pair_of_cases fun _ heq => absurd heq.symm hc), ih hw,
      cons_append]

theorem dropLineCommentsFrom_of_front (h : '/' ∉ w) :
    dropLineCommentsFrom false (w ++ v) = w ++ dropLineCommentsFrom false v := by
  induction w with
  | nil => rfl
  | cons c w ih =>
    obtain ⟨hc, hw⟩ := not_or.1 (mem_cons.not.1 h)
    rw [cons_append, dropLineCommentsFrom_cons (not_pair_of_cases fun _ heq => absurd heq.symm hc),
      ih hw, cons_append]

theorem dropLineComments_of_not_mem (h : '/' ∉ cs) :
    dropLineComments (String.ofList cs) = String.ofList cs := by
  have hfront := dropLineCommentsFrom_of_front (v := []) h
  rw [append_nil, dropLineCommentsFrom, append_nil] at hfront
  rw [dropLineComments, String.toList_ofList, hfront]

theorem dropComments_of_front (h : '/' ∉ w) (v : List Char) :
    ∃ v', dropComments (String.ofList (w ++ v)) = String.ofList (w ++ v') := by
  rw [dropComments, String.toList_ofList, dropBlockComments_of_front h, dropLineComments,
    String.toList_ofList, dropLineCommentsFrom_of_front h]
  exact ⟨_, rfl⟩

theorem dropComments_of_not_mem (h : '/' ∉ cs) :
    dropComments (String.ofList cs) = String.ofList cs := by
  have hfront := dropBlockComments_of_front (v := []) h
  rw [append_nil, dropBlockComments, append_nil] at hfront
  rw [dropComments, String.toList_ofList, hfront, dropLineComments_of_not_mem h]

/-! ## Newlines that the first pass keeps -/

theorem afterBlockEnd?_star (ha : MarksApart ('/' :: '*' :: cs)) :
    afterBlockEnd? ('*' :: cs) = afterBlockEnd? cs := by
  refine afterBlockEnd?_cons (not_pair_of_cases ?_)
  rintro t - rfl
  exact ha.opening ⟨[], t, rfl⟩

/-- Beyond the end of a block there are no more newlines than before it: an opening mark before it is
closed by it too. -/
theorem count_afterBlockEnd? (ha : MarksApart cs) (h : afterBlockEnd? cs = some rest) :
    (dropBlockComments rest).count '\n' ≤ (dropBlockComments cs).count '\n' := by
  fun_induction afterBlockEnd? cs with
  | case1 => cases h
  | case2 cs =>
    obtain rfl := Option.some.inj h
    have hslash : ¬ ['/', '*'] <+: '/' :: cs :=
      not_pair_of_cases fun t _ ht => ha.closing ⟨[], t, by rw [ht]; rfl⟩
    rw [dropBlockComments_cons (by simp), dropBlockComments_cons hslash]
    simp
  | case3 c cs hne ih =>
    by_cases hopen : ['/', '*'] <+: c :: cs
    · obtain ⟨rfl, t, rfl⟩ := prefix_pair_iff.1 hopen
      have hend : afterBlockEnd? t = some rest := afterBlockEnd?_star ha ▸ h
      exact (congrArg (List.count '\n') (dropBlockComments_open hend)).ge
    · rw [dropBlockComments_cons hopen]
      exact (ih ha.of_cons h).trans count_le_count_cons

/-- The text on a line can only take newlines away from what follows. -/
theorem count_append_le (ha : MarksApart (w ++ v)) (hw : '\n' ∉ w) :
    (dropBlockComments (w ++ v)).count '\n' ≤ (dropBlockComments v).count '\n' := by
  induction w with
  | nil => exact le_rfl
  | cons c w ih =>
    rw [mem_cons, not_or] at hw
    rw [cons_append] at ha ⊢
    have hle := ih ha.of_cons hw.2
    by_cases hopen : ['/', '*'] <+: c :: (w ++ v)
    · obtain ⟨rfl, t, ht⟩ := prefix_pair_iff.1 hopen
      rw [ht] at ha hle ⊢
      cases hend : afterBlockEnd? t with
      | none =>
        rw [dropBlockComments_open_none hend]
        rw [dropBlockComments_cons (by simp), dropBlockComments_of_none hend] at hle
        simpa using hle
      | some rest =>
        rw [dropBlockComments_open hend]
        exact (count_afterBlockEnd? ha.of_cons ((afterBlockEnd?_star ha).trans hend)).trans hle
    · rw [dropBlockComments_cons hopen, count_cons_of_ne (Ne.symm hw.1)]
      exact hle

/-- What follows the end of a block comment still has every opening mark that no closing mark
follows. -/
theorem suffix_of_open {b : List Char} (ha : MarksApart w) (hclose : '*' :: '/' :: rest <:+ w)
    (hopen : '/' :: '*' :: b <:+ w) (hb : ¬ ['*', '/'] <:+: b) : '/' :: '*' :: b <:+ rest := by
  rcases suffix_or_suffix_of_suffix hopen hclose with h | h
  · rcases suffix_cons_iff.1 h with h | h
    · simp at h
    · rcases suffix_cons_iff.1 h with h | h
      · obtain rfl := (cons_eq_cons.1 h).2
        exact absurd (List.IsInfix.trans ⟨[], b, rfl⟩ hclose.isInfix) ha.closing
      · exact h
  · rcases suffix_cons_iff.1 h with h | h
    · simp at h
    · rcases suffix_cons_iff.1 h with h | h
      · obtain rfl := (cons_eq_cons.1 h).2
        exact absurd (List.IsInfix.trans ⟨[], rest, rfl⟩ hopen.isInfix) ha.opening
      · exact absurd (List.IsInfix.trans ⟨[], rest, rfl⟩ h.isInfix) hb

/-- A block comment that reaches past its line takes a newline away. -/
theorem count_append_lt (ha : MarksApart (w ++ '\n' :: v)) (hw : '\n' ∉ w)
    (h : Straddles w ('\n' :: v)) :
    (dropBlockComments (w ++ '\n' :: v)).count '\n' < (dropBlockComments ('\n' :: v)).count '\n' := by
  have hline : (dropBlockComments ('\n' :: v)).count '\n' = (dropBlockComments v).count '\n' + 1 := by
    rw [dropBlockComments_cons (by simp), count_cons_self]
  have hstar : ('\n' :: v).head? ≠ some '/' := by simp
  obtain ⟨⟨a, b, hab, hb⟩, hclose⟩ := h
  have hopen : '/' :: '*' :: b <:+ w := ⟨a, hab.symm⟩
  clear hab
  fun_induction dropBlockComments w with
  | case1 => simp at hopen
  | case2 cs rest hrest ih =>
    -- The first block ends on the line, so the mark stands after it.
    have hend : '*' :: '/' :: rest <:+ '/' :: '*' :: cs :=
      (suffix_of_afterBlockEnd? hrest).trans ⟨['/', '*'], rfl⟩
    rw [cons_append, cons_append, dropBlockComments_open (afterBlockEnd?_append hrest _)]
    have hrestw : rest <:+ '/' :: '*' :: cs := List.IsSuffix.trans ⟨['*', '/'], rfl⟩ hend
    refine ih (ha.of_infix ?_) (fun hmem => hw (hrestw.mem hmem)) ?_
    · obtain ⟨u, hu⟩ := hrestw
      exact ⟨u, [], by rw [← hu, append_nil, append_assoc]⟩
    · exact suffix_of_open (ha.of_infix (prefix_append _ _).isInfix) hend hopen hb
  | case3 cs hnone =>
    obtain ⟨rest, hrest⟩ : ∃ rest, afterBlockEnd? ('\n' :: v) = some rest :=
      Option.ne_none_iff_exists'.1 (mt afterBlockEnd?_eq_none.1 (not_not.2 hclose))
    rw [cons_append, cons_append,
      dropBlockComments_open ((afterBlockEnd?_append_of_none hnone hstar).trans hrest), hline]
    rw [afterBlockEnd?.eq_3 _ _ (by simp)] at hrest
    exact Nat.lt_succ_of_le (count_afterBlockEnd? (ha.of_infix (suffix_append _ _).isInfix).of_cons hrest)
  | case4 c cs hne ih =>
    have hc : ¬ ['/', '*'] <+: c :: cs := not_pair_of_cases hne
    rw [mem_cons, not_or] at hw
    rw [cons_append] at ha
    rw [cons_append, dropBlockComments_cons (not_open_append hc (by simp)),
      count_cons_of_ne (Ne.symm hw.1)]
    refine ih ha.of_cons hw.2 ?_
    rcases suffix_cons_iff.1 hopen with h | h
    · exact absurd (h ▸ ⟨b, rfl⟩) hc
    · exact h

end Lines

/-! ## Both ways -/

theorem count_dropLineCommentsFrom (inComment : Bool) (cs : List Char) :
    (dropLineCommentsFrom inComment cs).count '\n' = cs.count '\n' := by
  fun_induction dropLineCommentsFrom inComment cs with
  | case1 => rfl
  | case2 cs ih => rw [count_cons_self, count_cons_self, ih]
  | case3 c cs hc ih => rw [ih, count_cons_of_ne hc]
  | case4 cs ih => simpa using ih
  | case5 c cs _ ih => rw [count_cons, count_cons, ih]

theorem split_line (cs : List Char) :
    ∃ w v, cs.takeWhile (· != '\n') = w ∧ cs.dropWhile (· != '\n') = v ∧ cs = w ++ v ∧ '\n' ∉ w ∧
      ∀ d ∈ v.head?, d = '\n' := by
  refine ⟨_, _, rfl, rfl, takeWhile_append_dropWhile.symm, fun h => ?_, fun d hd => ?_⟩
  · simpa using all_eq_true.1 all_takeWhile _ h
  · have := head?_dropWhile_not (· != '\n') cs
    rw [Option.mem_def.1 hd] at this
    simpa using this

theorem contained_line {w v : List Char} (hw : cs.takeWhile (· != '\n') = w)
    (hv : cs.dropWhile (· != '\n') = v) :
    Contained ('/' :: '/' :: cs) ↔ (w.head? ≠ some '*' ∧ ¬ Straddles w v) ∧ Contained v := by
  rw [Contained, lineComments, forall_mem_cons, hw, hv, Contained]

theorem contained_block (h : afterBlockEnd? cs = some rest) :
    Contained ('/' :: '*' :: cs) ↔ Contained rest := by
  rw [Contained, lineComments]
  split <;> simp_all [Contained]

theorem contained_block_none (h : afterBlockEnd? cs = none) :
    Contained ('/' :: '*' :: cs) ↔ Contained cs := by
  rw [Contained, lineComments]
  split <;> simp_all [Contained]

theorem contained_cons (hline : ∀ t, c = '/' → cs = '/' :: t → False)
    (hopen : ∀ t, c = '/' → cs = '*' :: t → False) : Contained (c :: cs) ↔ Contained cs := by
  rw [Contained, lineComments.eq_4 _ _ hline hopen, Contained]

/-- The passes keep no newline that the scan does not keep, and as many only if no block comment
reaches past a line comment. -/
theorem count_passes (ha : MarksApart cs) :
    (dropBlockComments cs).count '\n' ≤ (withoutComments cs).count '\n' ∧
      ((dropBlockComments cs).count '\n' = (withoutComments cs).count '\n' → Contained cs) := by
  fun_induction withoutComments cs with
  | case1 => exact ⟨by simp [dropBlockComments], fun _ x hx => by simp [lineComments] at hx⟩
  | case2 cs ih =>
    obtain ⟨w, v, hw, hv, rfl, hnew, hhead⟩ := split_line cs
    have hstar : w.head? ≠ some '*' := by
      rintro h
      obtain ⟨u, rfl⟩ := head?_eq_some_iff.1 h
      exact ha.slashes ⟨[], u ++ v, rfl⟩
    have hcount : (dropBlockComments ('/' :: '/' :: (w ++ v))).count '\n' =
        (dropBlockComments (w ++ v)).count '\n' := by
      rw [dropBlockComments_line hstar hhead]
      simp
    rw [contained_line hw hv, hcount, hv]
    rw [hv] at ih
    have hle := count_append_le ha.of_cons.of_cons hnew
    obtain ⟨hrest, hcont⟩ := ih (ha.of_infix ⟨'/' :: '/' :: w, [], by simp⟩)
    refine ⟨hle.trans hrest, fun heq => ⟨⟨hstar, fun hs => ?_⟩, hcont (by omega)⟩⟩
    cases v with
    | nil => exact absurd hs.2 (by simp)
    | cons c v =>
      obtain rfl := hhead c rfl
      have := count_append_lt ha.of_cons.of_cons hnew hs
      omega
  | case3 cs rest hrest ih =>
    rw [dropBlockComments_open hrest, contained_block hrest]
    exact ih (ha.of_infix ((rest_suffix_of_afterBlockEnd? hrest).trans ⟨['/', '*'], rfl⟩).isInfix)
  | case4 cs hnone ih =>
    have hcs := ih ha.of_cons.of_cons
    rw [dropBlockComments_of_none hnone] at hcs
    rw [dropBlockComments_open_none hnone, contained_block_none hnone]
    simpa using hcs
  | case5 c cs hline hopen ih =>
    rw [dropBlockComments_cons (not_pair_of_cases hopen), contained_cons hline hopen]
    simpa [count_cons] using ih ha.of_cons

theorem passes_of_contained (h : Contained cs) :
    dropLineCommentsFrom false (dropBlockComments cs) = withoutComments cs := by
  fun_induction withoutComments cs with
  | case1 => rw [dropBlockComments, dropLineCommentsFrom]
  | case2 cs ih =>
    obtain ⟨w, v, hw, hv, rfl, hnew, hhead⟩ := split_line cs
    rw [contained_line hw hv] at h
    obtain ⟨⟨hstar, hstraddle⟩, hrest⟩ := h
    rw [hv] at ih ⊢
    rw [← ih hrest, dropBlockComments_line hstar hhead, dropBlockComments_append hhead hstraddle, dropLineCommentsFrom.eq_3,
      dropLineCommentsFrom_append fun hmem => hnew (mem_of_mem_dropBlockComments hmem)]
    refine dropLineCommentsFrom_true fun d hd => ?_
    cases v with
    | nil => simp [dropBlockComments] at hd
    | cons c v =>
      obtain rfl := hhead c rfl
      rw [dropBlockComments_cons (by simp)] at hd
      exact (Option.some.inj hd).symm
  | case3 cs rest hrest ih => rw [dropBlockComments_open hrest, ih ((contained_block hrest).1 h)]
  | case4 cs hnone ih =>
    rw [← ih ((contained_block_none hnone).1 h), dropBlockComments_open_none hnone,
      dropBlockComments_of_none hnone, dropLineCommentsFrom_cons (by simp),
      dropLineCommentsFrom_cons (by simp)]
  | case5 c cs hline hopen ih =>
    rw [← ih ((contained_cons hline hopen).1 h), dropBlockComments_cons (not_pair_of_cases hopen)]
    refine dropLineCommentsFrom_cons (not_pair_of_cases ?_)
    rintro t rfl ht
    -- What the first pass leaves starts with a slash only if the text does.
    cases cs with
    | nil => simp [dropBlockComments] at ht
    | cons d cs =>
      have hd : d ≠ '/' := fun hd => hline cs rfl (by rw [hd])
      rw [dropBlockComments_cons (by simp [hd.symm])] at ht
      exact hd (cons_eq_cons.1 ht).1

theorem dropComments_eq_iff (s : String) :
    (Contained s.toList → dropComments s = String.ofList (withoutComments s.toList)) ∧
      (MarksApart s.toList →
        (dropComments s = String.ofList (withoutComments s.toList) ↔ Contained s.toList)) := by
  have hpasses : dropComments s = String.ofList (dropLineCommentsFrom false (dropBlockComments s.toList)) := by
    rw [dropComments, dropLineComments, String.toList_ofList]
  rw [hpasses, String.ofList_inj]
  refine ⟨passes_of_contained, fun ha => ⟨fun heq => ?_, passes_of_contained⟩⟩
  refine (count_passes ha).2 ?_
  rw [← heq, count_dropLineCommentsFrom]

/-- A field between two line comments is taken for a part of a block comment. -/
theorem dropComments_loses_field :
    MarksApart "// a /*\nrand bit x;\n// b */\n".toList ∧
      dropComments "// a /*\nrand bit x;\n// b */\n" = "\n" ∧
      withoutComments "// a /*\nrand bit x;\n// b */\n".toList = "\nrand bit x;\n\n".toList ∧
      ¬ Contained "// a /*\nrand bit x;\n// b */\n".toList := by
  have ha : MarksApart "// a /*\nrand bit x;\n// b */\n".toList := ⟨by decide, by decide, by decide⟩
  have hpasses : dropComments "// a /*\nrand bit x;\n// b */\n" = "\n" := by cbv
  have hscan : withoutComments "// a /*\nrand bit x;\n// b */\n".toList = "\nrand bit x;\n\n".toList := by
    cbv
  refine ⟨ha, hpasses, hscan, ?_⟩
  rw [← (dropComments_eq_iff _).2 ha, hpasses, hscan]
  decide

end Stimulus.Sv
