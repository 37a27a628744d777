import Mathlib.Algebra.Order.GroupWithZero.Canonical
import Mathlib.Algebra.Order.Ring.Nat
import Mathlib.Algebra.Ring.Int.Defs
import Stimulus.Proofs.Expr.Condition
import Stimulus.Proofs.Sv.Literal

/-!
# Literals in expressions

Conversion takes the sizes off the literals of an expression, wherever they stand: `8'hFF` becomes `0xFF`.

* `plainNumbers_literals`: the text around the literals stays, and each literal becomes one without a size
  that stands for the number that reading the literal with its size gives.
-/

open List
open String (ofList toList_ofList)

namespace Stimulus.Expr

open Pattern Text Sv

/-! ## Literals with a size -/

/-- A digit of a literal, or an underscore between digits. -/
def literalDigit (c : Char) : Bool := c.isDigit || "abcdefABCDEF_".toList.contains c

/-- A literal with a size: `8'hFF`. -/
structure Sized where
  width : List Char
  letter : Char
  first : Char
  more : List Char
  isWidth : width ≠ [] ∧ ∀ c ∈ width, c.isDigit = true
  isBase : letter ∈ "hHbBdDoO".toList
  isDigits : ∀ c ∈ first :: more, literalDigit c = true
  isFirst : first ≠ '_' ∧ (letter ∈ ['d', 'D'] → first.isDigit = true)

namespace Sized

variable (s : Sized)

def chars : List Char := s.width ++ '\'' :: s.letter :: s.first :: s.more

/-- The literal without its size. -/
def plain : List Char :=
  (plainLiteral (ofList [s.letter]) (ofList (s.first :: s.more))).toList

theorem literalMark_of_mem : ∀ l ∈ "hHbBdDoO".toList,
    (∀ c ∈ (literalMark (ofList [l])).toList, nameTail c = true) ∧
      (l ∈ ['d', 'D'] ∧ (literalMark (ofList [l])).toList = [] ∨
        (literalMark (ofList [l])).toList.head? = some '0') := by
  decide

theorem nameTail_of_literalDigit {c : Char} (h : literalDigit c = true) : nameTail c = true := by
  rcases Bool.or_eq_true_iff.1 h with h | h
  · exact nameTail_of_isDigit h
  · exact (by decide : ∀ c ∈ "abcdefABCDEF_".toList, nameTail c = true) c (by simpa using h)

theorem plain_eq : s.plain = (literalMark (ofList [s.letter])).toList ++
    s.first :: substitute ['_'] [] s.more := by
  have hkept : ¬ ['_'] <+: s.first :: s.more := fun h =>
    s.isFirst.1 (cons_prefix_cons.1 h).1.symm
  rw [plain, plainLiteral, String.toList_append, replace_ofList, toList_ofList]
  exact congrArg _ (substitute_skip hkept)

theorem isPlain : IsPlain s.plain := by
  rw [plain_eq]
  refine ⟨by simp, fun c hc => ?_⟩
  rcases mem_append.1 hc with hc | hc
  · exact (literalMark_of_mem s.letter s.isBase).1 c hc
  · refine nameTail_of_literalDigit (s.isDigits c ?_)
    rcases mem_cons.1 hc with rfl | hc
    · exact mem_cons_self
    · exact mem_cons_of_mem _ ((mem_of_mem_substitute (by simp) hc).resolve_left (by simp))

theorem digitFirst_plain : DigitFirst s.plain := by
  intro c hc
  rw [plain_eq] at hc
  rcases (literalMark_of_mem s.letter s.isBase).2 with ⟨hbase, hnil⟩ | hzero
  · rw [hnil] at hc
    obtain rfl : s.first = c := by simpa using hc
    exact s.isFirst.2 hbase
  · rw [head?_append, hzero] at hc
    obtain rfl : '0' = c := by simpa using hc
    rfl

theorem isValue : IsValue s.chars := by
  refine ⟨by simp [chars], fun c hc => ?_⟩
  have hbase := (by decide : ∀ l ∈ "hHbBdDoO".toList, nameTail l = true) s.letter s.isBase
  simp only [chars, mem_append, mem_cons] at hc
  rcases hc with hc | rfl | rfl | hc
  · exact .inl (nameTail_of_isDigit (s.isWidth.2 c hc))
  · exact .inr rfl
  · exact .inl hbase
  · exact .inl (nameTail_of_literalDigit (s.isDigits c (by simpa using hc)))

end Sized

/-! ## Texts whose literals lose their sizes -/

/-- No literal goes on here. -/
def Sep (z : List Char) : Prop :=
  ∀ c ∈ z.head?, isDecimal c = false ∧ c ≠ '\'' ∧ literalDigit c = false

theorem sep_cons {c : Char} {z : List Char}
    (h : isDecimal c = false ∧ c ≠ '\'' ∧ literalDigit c = false) : Sep (c :: z) := by
  intro d hd
  obtain rfl : c = d := by simpa using hd
  exact h

/-- The literal of a match without its size. -/
def sizeless (m : Match) : String := plainLiteral (m.group 1) (m.group 2)

/-- Replacing sized literals makes `out` of `u`, if no literal goes on behind it. -/
def Plains (u out : List Char) : Prop :=
  ∀ before pos z, Sep z → replaceFrom sizedLiteral sizeless before pos (u ++ z) =
    out ++ replaceFrom sizedLiteral sizeless (u.reverse ++ before) (pos + u.length) z

section Plains

variable {u v out out' : List Char}

theorem Plains.append (hu : Plains u out) (hv : Plains v out') (hsep : ∀ z, Sep (v ++ z)) :
    Plains (u ++ v) (out ++ out') := by
  intro before pos z hz
  rw [append_assoc, hu before pos (v ++ z) (hsep z), hv _ _ z hz]
  simp [Nat.add_assoc]

theorem not_prefix_of_sep {d r z : List Char} (hd : ∀ c ∈ d, isDecimal c = true) (hu : '\'' ∉ u)
    (hz : Sep z) : ¬ d ++ '\'' :: r <+: u ++ z := by
  rintro ⟨t, ht⟩
  rw [append_assoc] at ht
  rcases append_eq_append_iff.1 ht with ⟨y, rfl, hy⟩ | ⟨y, rfl, hy⟩
  · cases y with
    | nil => exact (hz '\'' (by rw [show z = _ from hy.symm]; rfl)).2.1 rfl
    | cons c y =>
      obtain ⟨rfl, -⟩ := List.cons.inj hy
      exact hu (by simp)
  · cases y with
    | nil => exact (hz '\'' (by rw [show z = _ from hy]; rfl)).2.1 rfl
    | cons c y =>
      have := hd c (by simp)
      rw [(hz c (by rw [hy]; rfl)).1] at this
      cases this

theorem plains_of_not_mem (h : '\'' ∉ u) : Plains u u := by
  induction u with
  | nil => exact fun _ _ _ _ => rfl
  | cons c u ih =>
    intro before pos z hz
    have hnone : walk sizedLiteral ⟨before, c :: (u ++ z), pos, []⟩ some = none := by
      refine walk_eq_none fun w hw hpre => ?_
      obtain ⟨_, v, rfl, ⟨_, l, rfl, ⟨d, _, rfl, ⟨hd, -⟩, rfl⟩, -⟩, -⟩ := hw
      refine not_prefix_of_sep (r := l ++ v) hd h hz ?_
      simpa using hpre
    rw [cons_append, replaceFrom_skip hnone, ih (fun hmem => h (mem_cons_of_mem _ hmem)) _ _ z hz]
    simp [Nat.add_assoc, Nat.add_comm 1]

theorem Plains.marks (hv : Plains v out) (cs : List Char) (h : ∀ c ∈ cs, isDecimal c = false) :
    Plains (cs ++ v) (cs ++ out) := by
  induction cs with
  | nil => exact hv
  | cons c cs ih =>
    obtain ⟨hc, hcs⟩ := forall_mem_cons.1 h
    intro before pos z hz
    have hnone : walk sizedLiteral ⟨before, c :: (cs ++ v ++ z), pos, []⟩ some = none := by
      refine walk_eq_none fun w hw hpre => ?_
      obtain ⟨_, u, rfl, ⟨_, l, rfl, ⟨d, q, rfl, ⟨hd, hlen⟩, -⟩, -⟩, -⟩ := hw
      obtain ⟨e, d, rfl⟩ := exists_cons_of_length_pos hlen
      obtain ⟨rfl, -⟩ := cons_prefix_cons.1 hpre
      rw [hd e mem_cons_self] at hc
      cases hc
    rw [cons_append, cons_append, replaceFrom_skip hnone, ih hcs _ _ z hz]
    simp [Nat.add_assoc, Nat.add_comm 1]

theorem reads_sized (s : Sized) {before z : List Char} (hz : ∀ c ∈ z.head?, literalDigit c = false) :
    Reads sizedLiteral before [] s.chars z [(2, s.first :: s.more), (1, [s.letter])] := by
  have hdigit (c : Char) (hc : c ∈ s.width) : isDecimal c = true := by
    rw [isDecimal, digitValue?_of_isDigit (s.isWidth.2 c hc)]
    rfl
  have hquote {v : List Char} : ∀ c ∈ ("'".toList ++ v).head?, isDecimal c = false := by simp; decide
  have hcut : s.chars = s.width ++ ("'".toList ++ ([s.letter] ++ (s.first :: s.more))) := rfl
  rw [hcut, sizedLiteral, reads_assoc, reads_assoc]
  refine (reads_run hdigit (by rw [append_assoc]; exact hquote)
    (length_pos_iff.2 s.isWidth.1)).seq (reads_lit.seq ?_)
  exact ((reads_one (by simpa using s.isBase)).group 1).seq
    ((reads_run s.isDigits hz (by simp)).group 2)

theorem replaceFrom_sized (s : Sized) (before : List Char) (pos : Nat) {z : List Char}
    (hz : ∀ c ∈ z.head?, literalDigit c = false) :
    replaceFrom sizedLiteral sizeless before pos (s.chars ++ z) =
      s.plain ++ replaceFrom sizedLiteral sizeless (s.chars.reverse ++ before) (pos + s.chars.length) z := by
  obtain ⟨t, ht, hst, hkept⟩ := reads_sized s hz ⟨before, s.chars ++ z, pos, []⟩ rfl rfl rfl
  have hlen : 0 < s.chars.length := length_pos_iff.2 s.isValue.ne_nil
  have hpos : t.pos = pos + s.chars.length := hst.pos
  have hword : (sizeless (Match.between ⟨before, s.chars ++ z, pos, []⟩ t)).toList = s.plain := by
    have hpieces : (Match.between ⟨before, s.chars ++ z, pos, []⟩ t).pieces =
        [(2, s.first :: s.more), (1, [s.letter])] := hkept
    simp [sizeless, Match.group_eq, hpieces, Sized.plain]
  rw [replaceFrom_hit (ht some t rfl) (by omega), hword, hst.before, hpos,
    (append_cancel_left hst.after).symm]

theorem plains_sized (s : Sized) : Plains s.chars s.plain :=
  fun before pos _ hz => replaceFrom_sized s before pos fun c hc => (hz c hc).2.2

theorem plainNumbers_of_replaceFrom (h : replaceFrom sizedLiteral sizeless [] 0 u = out)
    (hout : '\'' ∉ out) : plainNumbers (ofList u) = ofList out := by
  have hsized : sizedLiteral.replaceAll sizeless (ofList u) = ofList out := by
    rw [replaceAll_eq, toList_ofList, h]
  have hunsized : Needs unsizedLiteral '\'' := (needs_lit (by decide)).left.left
  exact (congrArg _ hsized).trans (hunsized.replaceAll hout)

theorem replaceFrom_of_not_mem (before : List Char) (pos : Nat) (h : '\'' ∉ u) :
    replaceFrom sizedLiteral sizeless before pos u = u := by
  have hneeds : Needs sizedLiteral '\'' := (needs_lit (by decide)).right.left.left
  refine replaceFrom_of_none fun a b hab => walk_eq_none fun w hw hpre => h ?_
  exact hab ▸ mem_append_right _ (hpre.subset (hneeds w hw))

theorem plainNumbers_of_plains (h : Plains u out) (hout : '\'' ∉ out) :
    plainNumbers (ofList u) = ofList out := by
  have hend : replaceFrom sizedLiteral sizeless (u.reverse ++ []) (0 + u.length) [] = [] :=
    replaceFrom_of_not_mem _ _ not_mem_nil
  refine plainNumbers_of_replaceFrom ?_ hout
  rw [← append_nil u, h [] 0 [] (by simp [Sep]), hend, append_nil]

end Plains

/-! ## Integer literals without a size -/

/-- The mark of a base in front of the digits. -/
def baseMark : Radix → List Char
  | .bin => ['0', 'b']
  | .oct => ['0', 'o']
  | .dec => []
  | .hex => ['0', 'x']

def digitsValue? (r : Radix) (ds : List Char) : Option Nat :=
  if ds ≠ [] ∧ ∀ c ∈ ds, c ∈ r.digits then some (ds.foldl (fun n c => n * r.base + placeOf c) 0)
  else none

/-- The number that an integer literal stands for. In base ten a zero stands first only if all digits are
zeros, and there are no more digits than can be read. -/
def literalValue? : List Char → Option Nat
  | '0' :: 'x' :: ds => digitsValue? .hex ds
  | '0' :: 'b' :: ds => digitsValue? .bin ds
  | '0' :: 'o' :: ds => digitsValue? .oct ds
  | ds =>
    if (ds.head? = some '0' → ∀ c ∈ ds, c = '0') ∧ ds.length ≤ mostDigits then digitsValue? .dec ds
    else none

/-- The literal without its size. -/
def sizelessText (l : SizedLiteral) : List Char := baseMark l.radix ++ l.text.digits

theorem digitsValue?_digits {r : Radix} (t : DigitText r) : digitsValue? r t.digits = some t.value :=
  if_pos ⟨cons_ne_nil _ _, fun _ hc => t.mem_digits hc⟩

theorem literalValue?_dec {ds : List Char} (h : ∀ c ∈ ds, c ∈ Radix.dec.digits) :
    literalValue? ds = if (ds.head? = some '0' → ∀ c ∈ ds, c = '0') ∧ ds.length ≤ mostDigits then
      digitsValue? .dec ds else none := by
  -- A letter after the zero would be a mark.
  have hmark : ∀ c ∈ ['x', 'b', 'o'], c ∉ ds := fun c hc hmem =>
    (by decide : ∀ c ∈ ['x', 'b', 'o'], c ∉ Radix.dec.digits) c hc (h c hmem)
  unfold literalValue?
  split
  · exact absurd (by simp) (hmark 'x' (by simp))
  · exact absurd (by simp) (hmark 'b' (by simp))
  · exact absurd (by simp) (hmark 'o' (by simp))
  · rfl

/-- A literal without its size stands for its value, if there are not too many digits. -/
theorem literalValue?_sizelessText (l : SizedLiteral)
    (hzero : l.radix = .dec → l.text.first = '0' → l.text.more = []) :
    literalValue? (sizelessText l) = if l.text.IsShort then some l.text.value else none := by
  obtain ⟨width, r, capital, t, hne, hwidth⟩ := l
  have hshort (hr : r ≠ .dec) : t.IsShort := fun h => absurd h hr
  cases r with
  | bin => exact (digitsValue?_digits t).trans (if_pos (hshort (by decide))).symm
  | oct => exact (digitsValue?_digits t).trans (if_pos (hshort (by decide))).symm
  | hex => exact (digitsValue?_digits t).trans (if_pos (hshort (by decide))).symm
  | dec =>
    have hfirst : t.digits.head? = some '0' → ∀ c ∈ t.digits, c = '0' := by
      intro hhead
      obtain hhead : t.first = '0' := by simpa [DigitText.digits] using hhead
      simp [DigitText.digits, show t.more = [] from hzero rfl hhead, hhead]
    change literalValue? t.digits = _
    rw [literalValue?_dec fun c hc => t.mem_digits hc, digitsValue?_digits t]
    simp only [eq_true hfirst, true_and, DigitText.IsShort, true_imp_iff]

/-! ## Literals in a text -/

theorem literalDigit_of_mem (r : Radix) : ∀ c ∈ r.digits, literalDigit c = true ∧ c ≠ '_' := by
  cases r <;> decide

theorem substitute_spaced {r : Radix} {more : List (Bool × Char)} (h : ∀ x ∈ more, x.2 ∈ r.digits) :
    substitute ['_'] [] (more.flatMap DigitText.spaced) = more.map Prod.snd := by
  induction more with
  | nil => exact substitute_nil _ _
  | cons x more ih =>
    obtain ⟨gap, c⟩ := x
    obtain ⟨hc, hmore⟩ := forall_mem_cons.1 h
    have hkept : substitute ['_'] [] (c :: more.flatMap DigitText.spaced) = c :: more.map Prod.snd := by
      rw [substitute_skip fun hpre => (literalDigit_of_mem r c hc).2 (cons_prefix_cons.1 hpre).1.symm,
        ih hmore]
    cases gap with
    | false => exact hkept
    | true => exact (substitute_hit (by simp)).trans hkept

/-- A literal by its characters. -/
def toSized (l : SizedLiteral) : Sized where
  width := l.width
  letter := l.radix.letter l.capital
  first := l.text.first
  more := l.text.more.flatMap DigitText.spaced
  isWidth := ⟨l.width_ne_nil, l.isWidth⟩
  isBase := by cases l.radix <;> cases l.capital <;> decide
  isDigits := fun c hc => by
    rcases l.text.mem_chars hc with rfl | hc
    · rfl
    · exact (literalDigit_of_mem _ c hc).1
  isFirst := ⟨(literalDigit_of_mem _ _ l.text.isFirst).2, fun h => by
    have hdec : l.radix = .dec := by
      revert h
      cases l.radix <;> cases l.capital <;> decide
    exact (by decide : ∀ c ∈ Radix.dec.digits, c.isDigit = true) _ (hdec ▸ l.text.isFirst)⟩

theorem plain_toSized (l : SizedLiteral) : (toSized l).plain = sizelessText l := by
  have hmark : (literalMark (ofList [l.radix.letter l.capital])).toList = baseMark l.radix := by
    cases l.radix <;> cases l.capital <;> decide
  rw [Sized.plain_eq, sizelessText, DigitText.digits, ← substitute_spaced l.text.isMore, ← hmark]
  rfl

/-- The text `sep` stands before literals, of which each has the text after it. Nothing in it can be taken
for a part of a literal. -/
def Around : List Char → List (SizedLiteral × List Char) → Prop
  | sep, [] => '\'' ∉ sep
  | sep, (_, next) :: more => '\'' ∉ sep ∧ (∀ c ∈ sep.getLast?, isDecimal c = false) ∧
      (∀ c ∈ next.head?, literalDigit c = false) ∧ (more ≠ [] → next ≠ []) ∧ Around next more

instance decidableAround : ∀ sep parts, Decidable (Around sep parts)
  | sep, [] => inferInstanceAs (Decidable ('\'' ∉ sep))
  | _, (_, next) :: more =>
    have := decidableAround next more
    inferInstanceAs (Decidable (_ ∧ _ ∧ _ ∧ _ ∧ _))

/-- An expression, cut at the literals that have a size. -/
structure Mixed where
  head : List Char
  /-- The literals, each with the text up to the next one. -/
  parts : List (SizedLiteral × List Char)
  around : Around head parts
  /-- In base ten, no zero stands in front of other digits. -/
  noZero : ∀ p ∈ parts, p.1.radix = .dec → p.1.text.first = '0' → p.1.text.more = []

namespace Mixed

/-- The expression, if `text` is written for each literal. -/
def charsWith (text : SizedLiteral → List Char) (e : Mixed) : List Char :=
  e.head ++ e.parts.flatMap fun p => text p.1 ++ p.2

end Mixed

theorem replaceFrom_before_literal {sep : List Char} (hquote : '\'' ∉ sep)
    (hlast : ∀ c ∈ sep.getLast?, isDecimal c = false) (before : List Char) (pos : Nat) (z : List Char) :
    replaceFrom sizedLiteral sizeless before pos (sep ++ z) =
      sep ++ replaceFrom sizedLiteral sizeless (sep.reverse ++ before) (pos + sep.length) z := by
  induction sep generalizing before pos with
  | nil => rfl
  | cons c sep ih =>
    have hwide {d : List Char} (hpre : c :: sep <+: d) (hd : ∀ e ∈ d, isDecimal e = true) : False := by
      have hmem := getLast_mem (cons_ne_nil c sep)
      have hdecimal := hd _ (hpre.subset hmem)
      rw [hlast _ (getLast?_eq_some_getLast _)] at hdecimal
      cases hdecimal
    have hnone : walk sizedLiteral ⟨before, c :: (sep ++ z), pos, []⟩ some = none := by
      refine walk_eq_none fun w hw hpre => ?_
      obtain ⟨_, v, rfl, ⟨_, l, rfl, ⟨d, _, rfl, ⟨hd, -⟩, rfl⟩, -⟩, -⟩ := hw
      rw [← cons_append] at hpre
      obtain ⟨t, ht⟩ := hpre
      simp only [append_assoc] at ht
      -- The mark stands in the text, or the text is a part of the width.
      rcases append_eq_append_iff.1 ht with ⟨y, hy, hz⟩ | ⟨y, hy, -⟩
      · cases y with
        | nil => exact hwide ⟨[], by simpa using hy⟩ hd
        | cons e y =>
          obtain rfl : '\'' = e := (List.cons.inj hz).1
          exact hquote (by simp [hy])
      · exact hwide ⟨y, hy.symm⟩ hd
    have hsep : ∀ e ∈ sep.getLast?, isDecimal e = false := fun e he =>
      hlast e (by rw [getLast?_cons, Option.mem_def.1 he]; rfl)
    rw [cons_append, replaceFrom_skip hnone, ih (fun hmem => hquote (mem_cons_of_mem _ hmem)) hsep]
    simp [Nat.add_assoc, Nat.add_comm 1]

/-- The pass over an expression writes each literal without its size. -/
theorem replaceFrom_around {parts : List (SizedLiteral × List Char)} {sep : List Char}
    (h : Around sep parts) (before : List Char) (pos : Nat) :
    replaceFrom sizedLiteral sizeless before pos (sep ++ parts.flatMap fun p => p.1.chars ++ p.2) =
      sep ++ parts.flatMap fun p => sizelessText p.1 ++ p.2 := by
  induction parts generalizing sep before pos with
  | nil =>
    rw [flatMap_nil, flatMap_nil, append_nil]
    exact replaceFrom_of_not_mem _ _ h
  | cons p parts ih =>
    obtain ⟨l, next⟩ := p
    obtain ⟨hquote, hlast, hnext, hgap, hrest⟩ := h
    have hhead : ∀ c ∈ (next ++ parts.flatMap fun p => p.1.chars ++ p.2).head?, literalDigit c = false := by
      intro c hc
      cases next with
      | cons d next => exact hnext c (by simpa using hc)
      | nil =>
        cases parts with
        | nil => cases hc
        | cons q parts => exact absurd rfl (hgap (cons_ne_nil _ _))
    have hlit := replaceFrom_sized (toSized l) (sep.reverse ++ before) (pos + sep.length) hhead
    rw [replaceFrom_before_literal hquote hlast, flatMap_cons, append_assoc]
    refine congrArg (sep ++ ·) (hlit.trans ?_)
    rw [plain_toSized, ih hrest, flatMap_cons, append_assoc]

theorem not_mem_sizelessText (l : SizedLiteral) : '\'' ∉ sizelessText l := by
  rw [sizelessText, mem_append, not_or]
  refine ⟨by cases l.radix <;> decide, fun h => ?_⟩
  have hquote : '\'' ∉ l.radix.digits := by cases l.radix <;> decide
  exact hquote (l.text.mem_digits h)

theorem not_mem_of_around {parts : List (SizedLiteral × List Char)} {sep : List Char}
    (h : Around sep parts) : '\'' ∉ sep ++ parts.flatMap fun p => sizelessText p.1 ++ p.2 := by
  induction parts generalizing sep with
  | nil => rwa [flatMap_nil, append_nil]
  | cons p parts ih =>
    have hsep : '\'' ∉ sep := h.1
    have hrest := ih h.2.2.2.2
    rw [flatMap_cons, append_assoc, mem_append, mem_append]
    exact fun hmem => hmem.elim hsep fun hmem => hmem.elim (not_mem_sizelessText p.1) hrest

/-- Conversion leaves the text around the literals, and no apostrophe. What it makes of a literal stands for
a number if and only if reading the literal gives it, and there is one unless the literal is in base ten
and too long, which the error says. -/
theorem plainNumbers_literals (e : Mixed) :
    plainNumbers (String.ofList (e.charsWith SizedLiteral.chars)) =
        String.ofList (e.charsWith sizelessText) ∧
      '\'' ∉ e.charsWith sizelessText ∧
      ∀ p ∈ e.parts, (∀ n : Nat, literalValue? (sizelessText p.1) = some n ↔
          readNumber (String.ofList p.1.chars) = .ok n) ∧
        ((∃ n : Nat, readNumber (String.ofList p.1.chars) = .ok n) ↔ p.1.text.IsShort) ∧
        (¬ p.1.text.IsShort →
          readNumber (String.ofList p.1.chars) = .error (.longInteger p.1.text.digits.length)) := by
  have hplain := not_mem_of_around e.around
  refine ⟨plainNumbers_of_replaceFrom (replaceFrom_around e.around [] 0) hplain, hplain, fun p hp => ?_⟩
  have hread : readNumber (String.ofList p.1.chars) = p.1.text.outcome p.1.text.value :=
    readNumber_literal (.sized p.1)
  rw [literalValue?_sizelessText p.1 (e.noZero p hp), hread, DigitText.outcome]
  by_cases hshort : p.1.text.IsShort
  · simp [hshort]
  · simp [hshort]

/-- `a==8'hF_f+4'D12` -/
def sizedSum : Mixed where
  head := "a==".toList
  parts := [
    (⟨['8'], .hex, false, ⟨'F', [(true, 'f')], by decide, by decide⟩, by decide, by decide⟩, ['+']),
    (⟨['4'], .dec, true, ⟨'1', [(false, '2')], by decide, by decide⟩, by decide, by decide⟩, [])]
  around := by decide
  noZero := by decide

theorem plainNumbers_sizedSum : plainNumbers "a==8'hF_f+4'D12" = "a==0xFf+12" ∧
    ∀ n : Nat, literalValue? "0xFf".toList = some n ↔ readNumber "8'hF_f" = .ok n :=
  ⟨(plainNumbers_literals sizedSum).1, ((plainNumbers_literals sizedSum).2.2 _ List.mem_cons_self).1⟩

/-- A literal in base ten can be too long to be read. -/
theorem readNumber_too_long :
    ∃ e : Mixed, ∃ p ∈ e.parts, ∀ n : Nat, readNumber (String.ofList p.1.chars) ≠ .ok n := by
  let t : DigitText .dec :=
    ⟨'1', List.replicate mostDigits (false, '1'), by decide, fun x hx => by
      rw [List.eq_of_mem_replicate hx]
      decide⟩
  let l : SizedLiteral := ⟨['1'], .dec, false, t, by decide, by decide⟩
  have hlong : ¬ t.IsShort := by simp [t, DigitText.IsShort, DigitText.digits]
  have hread : readNumber (String.ofList l.chars) = t.outcome t.value := readNumber_literal (.sized l)
  refine ⟨⟨[], [(l, [])], by simp [Around], by simp [l, t]⟩, (l, []), by simp, fun n => ?_⟩
  rw [hread, DigitText.outcome, if_neg hlong]
  simp

end Stimulus.Expr
