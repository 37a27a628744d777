import Stimulus.Override.Source
import Stimulus.Proofs.Pattern.Reads
import Stimulus.Proofs.Text.Integer

/-!
# Range constraints on a line

A line is a range constraint if it starts with one, with blanks at will between its parts. What a
table makes of a line depends on this alone.
-/

open List hiding take
open String (ofList toList_ofList)

namespace Stimulus.Override

open Text Pattern Sv

/-! ## Shapes of lines -/

def Spaced : List (List Char) → List Char → List Char → Prop
  | [], rest, cs => cs = rest
  | w :: ws, rest, cs => ∃ gap more, Blank gap ∧ cs = gap ++ (w ++ more) ∧ Spaced ws rest more

/-- Digits with a minus sign at will. -/
def IsNumber (w : List Char) : Prop :=
  ∃ sign run, w = sign ++ run ∧ (sign = ['-'] ∨ sign = []) ∧ run ≠ [] ∧ ∀ c ∈ run, isDecimal c = true

/-- The line starts with a range constraint on a name; `rest` is what stands behind it. -/
structure IsRange (line name low high rest : List Char) : Prop where
  isWord : IsWord name
  numbers : IsNumber low ∧ IsNumber high
  spaced : Spaced [['('], name, ['>', '='], low, ['&', '&'], name, ['<', '='], high, [')'], [';']] rest
    line

theorem isNumber_intChars (v : Int) : IsNumber (intChars v) := by
  have hdigits : ∀ c ∈ digitsOf v.natAbs, isDecimal c = true := by
    intro c hc
    rw [isDecimal, digitValue?_of_isDigit (isDigit_of_mem_digitsOf hc)]
    rfl
  unfold intChars
  split
  · exact ⟨['-'], _, rfl, .inl rfl, digitsOf_ne_nil _, hdigits⟩
  · exact ⟨[], _, rfl, .inr rfl, digitsOf_ne_nil _, hdigits⟩

theorem IsNumber.head {w z : List Char} (h : IsNumber w) : ∀ c ∈ (w ++ z).head?, isBlank c = false := by
  obtain ⟨sign, run, rfl, rfl | rfl, hne, hrun⟩ := h
  · simp
    decide
  · obtain ⟨c, r, rfl⟩ := exists_cons_of_ne_nil hne
    simpa using isBlank_of_isDecimal (hrun c mem_cons_self)

theorem IsNumber.reads {w before z : List Char} {kept : List (Nat × List Char)} (h : IsNumber w)
    (hz : ∀ c ∈ z.head?, isDecimal c = false) : Reads Pattern.signedDigits before kept w z kept := by
  obtain ⟨sign, run, rfl, rfl | rfl, hne, hrun⟩ := h
  · exact reads_lit.opt.seq (reads_run hrun hz (length_pos_iff.2 hne))
  · refine (reads_opt_none fun s hs => fails_lit fun hpre => ?_).seq
      (reads_run hrun hz (length_pos_iff.2 hne))
    obtain ⟨c, r, rfl⟩ := exists_cons_of_ne_nil hne
    rw [hs] at hpre
    obtain ⟨rfl, -⟩ := cons_prefix_cons.1 hpre
    exact absurd (hrun _ mem_cons_self) (by decide)

theorem isNumber_of_spells {w : List Char} (h : Spells Pattern.signedDigits w) : IsNumber w := by
  obtain ⟨sign, run, rfl, hsign, hrun, hlen⟩ := h
  exact ⟨sign, run, rfl, hsign, length_pos_iff.1 hlen, hrun⟩

section Pattern

variable {line name low high rest : List Char}

variable {kept kept' : List (Nat × List Char)}

theorem yields_gap {p q : Pattern} {u : List Char}
    (h : Yields (blanks ++ (p ++ q)) kept u kept') :
    ∃ gap w v mid, Blank gap ∧ u = gap ++ (w ++ v) ∧ Yields p kept w mid ∧ Yields q mid v kept' := by
  obtain ⟨gap, _, _, rfl, ⟨⟨hgap, -⟩, rfl⟩, w, v, mid, rfl, hp, hq⟩ := h
  exact ⟨gap, w, v, mid, hgap, rfl, hp, hq⟩

/-- What the pattern keeps of a line that starts with a range constraint. -/
def rangePieces (line name low high rest : List Char) : List (Nat × List Char) :=
  [(5, rest.dropWhile isBlank), (4, high), (3, low), (2, name), (1, line.takeWhile isBlank)]

theorem IsRange.reads (h : IsRange line name low high rest) (hline : '\n' ∉ line) :
    Reads rangeLine [] [] line [] (rangePieces line name low high rest) := by
  have hmark {c : Char} {z : List Char} {set : Char → Bool} (hc : set c = false) :
      ∀ d ∈ (c :: z).head?, set d = false := by simpa using hc
  obtain ⟨hname, ⟨hlow, hhigh⟩, hspaced⟩ := h
  obtain ⟨g1, _, h1, rfl, g2, _, h2, rfl, g3, _, h3, rfl, g4, _, h4, rfl, g5, _, h5, rfl, g6, _, h6, rfl,
    g7, _, h7, rfl, g8, _, h8, rfl, g9, _, h9, rfl, g10, rest, h10, rfl, rfl⟩ := hspaced
  have hindent {z : List Char} : (g1 ++ (['('] ++ z)).takeWhile isBlank = g1 :=
    (takeWhile_append_stop h1 (hmark (by decide))).1
  rw [rangePieces, hindent, rangeLine]
  simp only [reads_assoc]
  rw [← nil_append (g1 ++ _)]
  refine reads_first.seq (((reads_blanks h1 (hmark (by decide))).group 1).seq (reads_lit.seq ?_))
  refine reads_gap h2 (head_word hname) ((reads_word hname (head_gap_append h3 isWordChar_of_isBlank
    (hmark (by decide)))).group 2) ?_
  refine reads_gap h3 (hmark (by decide)) reads_lit ?_
  refine reads_gap h4 hlow.head ((hlow.reads (head_gap_append h5 isDecimal_of_isBlank
    (hmark (by decide)))).group 3) ?_
  refine reads_gap h5 (hmark (by decide)) reads_lit ?_
  refine reads_gap h6 (head_word hname) (reads_same rfl) ?_
  refine reads_gap h7 (hmark (by decide)) reads_lit ?_
  refine reads_gap h8 hhigh.head ((hhigh.reads (head_gap_append h9 isDecimal_of_isBlank
    (hmark (by decide)))).group 4) ?_
  refine reads_gap h9 (hmark (by decide)) reads_lit ?_
  refine reads_gap h10 (hmark (by decide)) reads_lit ?_
  have htrail : ∀ c ∈ rest.dropWhile isBlank, notNewline c = true := by
    intro c hc
    have hmem : c ∈ rest := (dropWhile_sublist _).subset hc
    simp only [notNewline, bne_iff_ne]
    rintro rfl
    exact hline (by simp [hmem])
  have hcut : rest.takeWhile isBlank ++ (rest.dropWhile isBlank ++ []) = rest := by simp
  nth_rewrite 1 [← hcut]
  refine (reads_blanks (fun c hc => mem_takeWhile_imp hc) ?_).seq
    (((reads_run htrail (by simp) (Nat.zero_le _)).group 5).seq reads_last)
  simpa using head_dropWhile isBlank rest

theorem IsRange.atStart? (h : IsRange line name low high rest) (hline : '\n' ∉ line) :
    ∃ m, rangeLine.atStart? (ofList line) = some m ∧
      m.pieces = rangePieces line name low high rest := by
  have := (h.reads hline).atStart?
  rwa [append_nil] at this

theorem yields_signedDigits {w : List Char}
    (h : Yields Pattern.signedDigits kept w kept') : IsNumber w ∧ kept' = kept := by
  refine ⟨isNumber_of_spells h.spells, ?_⟩
  obtain ⟨_, _, _, -, ⟨-, rfl⟩ | ⟨-, rfl⟩, -, rfl⟩ := h <;> rfl

theorem isRange_of_atStart? {m : Match} (h : rangeLine.atStart? (ofList line) = some m) :
    ∃ name low high rest, IsRange line name low high rest := by
  obtain ⟨w, z, hline, hw⟩ := yields_of_atStart? h
  rw [rangeLine] at hw
  simp only [yields_assoc] at hw
  obtain ⟨_, _, _, rfl, ⟨rfl, rfl⟩, g1, _, _, rfl, ⟨_, ⟨⟨h1, -⟩, rfl⟩, rfl⟩, _, _, _, rfl, ⟨rfl, rfl⟩,
    hw⟩ := hw
  obtain ⟨g2, name, _, _, h2, rfl, ⟨_, ⟨⟨hname, hne⟩, rfl⟩, rfl⟩, hw⟩ := yields_gap hw
  obtain ⟨g3, _, _, _, h3, rfl, ⟨rfl, rfl⟩, hw⟩ := yields_gap hw
  obtain ⟨g4, low, _, _, h4, rfl, ⟨_, hlow, rfl⟩, hw⟩ := yields_gap hw
  obtain ⟨hlower, rfl⟩ := yields_signedDigits hlow
  obtain ⟨g5, _, _, _, h5, rfl, ⟨rfl, rfl⟩, hw⟩ := yields_gap hw
  obtain ⟨g6, _, _, _, h6, rfl, ⟨⟨x, hx, rfl⟩, rfl⟩, hw⟩ := yields_gap hw
  have hsame : x.2 = name := by
    obtain rfl : (2, name) = x := by simpa using hx
    rfl
  obtain ⟨g7, _, _, _, h7, rfl, ⟨rfl, rfl⟩, hw⟩ := yields_gap hw
  obtain ⟨g8, high, _, _, h8, rfl, ⟨_, hhigh, rfl⟩, hw⟩ := yields_gap hw
  obtain ⟨hupper, rfl⟩ := yields_signedDigits hhigh
  obtain ⟨g9, _, _, _, h9, rfl, ⟨rfl, rfl⟩, hw⟩ := yields_gap hw
  obtain ⟨g10, _, trail, _, h10, rfl, ⟨rfl, rfl⟩, -⟩ := yields_gap hw
  simp only [hsame, nil_append, append_assoc] at hline
  exact ⟨name, low, high, trail ++ z, ⟨length_pos_iff.1 hne, hname⟩, ⟨hlower, hupper⟩, g1, _, h1,
    hline, g2, _, h2, rfl, g3, _, h3, rfl, g4, _, h4, rfl, g5, _, h5, rfl, g6, _, h6, rfl, g7, _, h7,
    rfl, g8, _, h8, rfl, g9, _, h9, rfl, g10, _, h10, rfl, rfl⟩

/-! ## What becomes of a line -/

theorem patchLine_eq (t : Table) (line : List Char) : t.patchLine (ofList (line ++ ['\n'])) =
    match rangeLine.atStart? (ofList line) with
    | none => .ok { line := ofList (line ++ ['\n']) }
    | some m =>
      match t.get? (m.group 2) with
      | none => .ok { line := ofList (line ++ ['\n']), matched := true }
      | some e => rebound e m "\n" := by
  have hend : endsWith "\n" (ofList (line ++ ['\n'])) = true :=
    endsWith_ofList.2 (suffix_append line ['\n'])
  have hbody : take ((ofList (line ++ ['\n'])).length - "\n".length)
      (ofList (line ++ ['\n'])) = ofList line := by
    have hone : "\n".length = 1 := rfl
    rw [take, toList_ofList, String.length_ofList, hone, length_append,
      length_singleton, Nat.add_sub_cancel, take_left]
  unfold Table.patchLine
  dsimp only
  rewrite [if_pos hend, hbody]
  cases rangeLine.atStart? (ofList line) with
  | none => rfl
  | some m => cases t.get? (m.group 2) <;> rfl

theorem patchLine_of_not_range {t : Table}
    (h : ∀ name low high rest, ¬ IsRange line name low high rest) :
    t.patchLine (ofList (line ++ ['\n'])) = .ok { line := ofList (line ++ ['\n']) } := by
  have hnone : rangeLine.atStart? (ofList line) = none := by
    refine Option.eq_none_iff_forall_ne_some.2 fun m hm => ?_
    obtain ⟨name, low, high, rest, hrange⟩ := isRange_of_atStart? hm
    exact h name low high rest hrange
  rw [patchLine_eq, hnone]

/-- The range constraint of an entry, after the blanks of a line and before what stands behind it. -/
def rangeText (e : Entry) (indent trail : String) : String :=
  let range := s!"{indent}({e.name} >= {e.newLow} && {e.name} <= {e.newHigh});"
  if trail.isEmpty then range else s!"{range} {trail}"

/-- The new bounds of a line that starts with a range constraint. -/
theorem IsRange.rebound (h : IsRange line name low high rest) (hline : '\n' ∉ line) :
    ∃ m, rangeLine.atStart? (ofList line) = some m ∧ m.group 2 = ofList name ∧
      ∀ e newline, rebound e m newline = do
        let lo ← Text.integer (ofList low)
        let hi ← Text.integer (ofList high)
        let indent := ofList (line.takeWhile isBlank)
        let trail := strip (ofList (rest.dropWhile isBlank))
        return { line := rangeText e indent trail ++ newline, matched := true
                 updated := lo != e.newLow || hi != e.newHigh } := by
  obtain ⟨m, hm, hpieces⟩ := h.atStart? hline
  have hgroup1 : m.group 1 = ofList (line.takeWhile isBlank) := by
    simp [Match.group_eq, hpieces, rangePieces]
  have hgroup2 : m.group 2 = ofList name := by simp [Match.group_eq, hpieces, rangePieces]
  have hgroup3 : m.group 3 = ofList low := by simp [Match.group_eq, hpieces, rangePieces]
  have hgroup4 : m.group 4 = ofList high := by simp [Match.group_eq, hpieces, rangePieces]
  have hgroup5 : m.group 5 = ofList (rest.dropWhile isBlank) := by
    simp [Match.group_eq, hpieces, rangePieces]
  refine ⟨m, hm, hgroup2, fun e newline => ?_⟩
  simp only [Override.rebound, rangeText, hgroup1, hgroup3, hgroup4, hgroup5]

theorem patchLine_of_range {t : Table} (h : IsRange line name low high rest) (hline : '\n' ∉ line) :
    t.patchLine (ofList (line ++ ['\n'])) =
      match t.get? (ofList name) with
      | none => .ok { line := ofList (line ++ ['\n']), matched := true }
      | some e => do
        let lo ← Text.integer (ofList low)
        let hi ← Text.integer (ofList high)
        let indent := ofList (line.takeWhile isBlank)
        let trail := strip (ofList (rest.dropWhile isBlank))
        return { line := rangeText e indent trail ++ "\n", matched := true
                 updated := lo != e.newLow || hi != e.newHigh } := by
  obtain ⟨m, hm, hgroup, hrebound⟩ := h.rebound hline
  rw [patchLine_eq, hm]
  simp only [hgroup]
  cases t.get? (ofList name) with
  | none => rfl
  | some e => exact hrebound e "\n"

end Pattern

end Stimulus.Override
