import Mathlib.Algebra.GroupWithZero.Nat
import Mathlib.Data.Nat.SuccPred
import Stimulus.Proofs.Pattern.Reads
import Stimulus.Proofs.Text.Integer
import Stimulus.Sv.EnumDecl

/-!
# Number literals and their values

A literal is a decimal integer, or it has a width, the letter of a base and digits of the base:
`8'hFF`. Single underscores may stand between digits.

* `readNumber_literal`: reading a literal gives its value, unless it is in base ten and has more digits
  than are read.
-/

open List hiding removeAll
open String (ofList toList_ofList)

namespace Stimulus.Sv

open Text Pattern

/-! ## Digits -/

/-- The bases of literals. -/
inductive Radix where
  | bin
  | oct
  | dec
  | hex
deriving DecidableEq

namespace Radix

def base : Radix → Nat
  | bin => 2
  | oct => 8
  | dec => 10
  | hex => 16

/-- The letter that stands for the base in a literal, in lower case or as a capital. -/
def letter : Radix → Bool → Char
  | bin, capital => if capital then 'B' else 'b'
  | oct, capital => if capital then 'O' else 'o'
  | dec, capital => if capital then 'D' else 'd'
  | hex, capital => if capital then 'H' else 'h'

def digits : Radix → List Char
  | bin => "01".toList
  | oct => "01234567".toList
  | dec => "0123456789".toList
  | hex => "0123456789abcdefABCDEF".toList

end Radix

/-- The value of a digit: its place in the order of the digits. -/
def placeOf (c : Char) : Nat := "0123456789abcdef".toList.idxOf c.toLower

theorem baseDigit?_of_mem (r : Radix) : ∀ c ∈ r.digits, baseDigit? r.base c = some (placeOf c) := by
  cases r <;> decide

theorem baseOfLetter?_letter (r : Radix) (capital : Bool) :
    baseOfLetter? (r.letter capital) = some r.base := by
  cases r <;> cases capital <;> rfl

/-- A character of a digit text is no blank, no sign and no mark. -/
private theorem ordinary_of_mem (r : Radix) : ∀ c ∈ r.digits, c ≠ '_' ∧ c ≠ '-' ∧ c ≠ '+' ∧ c ≠ '\'' ∧
    isNumberBlank c = false ∧ isBlank c = false ∧ (baseMarks r.base).contains c = false ∧
    (placeValue? c).isSome = true := by
  cases r <;> decide

/-- Digits, with single underscores between them at will. -/
structure DigitText (r : Radix) where
  first : Char
  /-- The other digits, each with whether an underscore stands before it. -/
  more : List (Bool × Char)
  isFirst : first ∈ r.digits
  isMore : ∀ x ∈ more, x.2 ∈ r.digits

namespace DigitText

variable {r : Radix} (t : DigitText r)

/-- The digits without underscores. -/
def digits : List Char := t.first :: t.more.map Prod.snd

/-- One digit after the first, with its underscore. -/
def spaced (x : Bool × Char) : List Char := if x.1 then ['_', x.2] else [x.2]

def chars : List Char := t.first :: t.more.flatMap spaced

/-- The number that the digits stand for. -/
def value : Nat := t.digits.foldl (fun n c => n * r.base + placeOf c) 0

theorem mem_digits {c : Char} (h : c ∈ t.digits) : c ∈ r.digits := by
  rcases mem_cons.1 h with rfl | h
  · exact t.isFirst
  · obtain ⟨x, hx, rfl⟩ := mem_map.1 h
    exact t.isMore x hx

theorem mem_chars {c : Char} (h : c ∈ t.chars) : c = '_' ∨ c ∈ r.digits := by
  rcases mem_cons.1 h with rfl | h
  · exact .inr t.isFirst
  · obtain ⟨⟨gap, d⟩, hx, hc⟩ := mem_flatMap.1 h
    have hd := t.isMore _ hx
    cases gap with
    | false => exact .inr (mem_singleton.1 hc ▸ hd)
    | true =>
      rcases mem_cons.1 hc with rfl | hc
      · exact .inl rfl
      · exact .inr (mem_singleton.1 hc ▸ hd)

theorem ordinary_chars {c : Char} (h : c ∈ t.chars) : c ≠ '-' ∧ c ≠ '+' ∧ c ≠ '\'' ∧
    isNumberBlank c = false ∧ isBlank c = false := by
  rcases t.mem_chars h with rfl | h
  · decide
  · obtain ⟨-, h⟩ := ordinary_of_mem r c h
    exact ⟨h.1, h.2.1, h.2.2.1, h.2.2.2.1, h.2.2.2.2.1⟩

theorem digitsAfter_spaced (acc : Nat) {more : List (Bool × Char)} (h : ∀ x ∈ more, x.2 ∈ r.digits) :
    digitsAfter r.base acc (more.flatMap spaced) =
      some ((more.map Prod.snd).foldl (fun n c => n * r.base + placeOf c) acc) := by
  induction more generalizing acc with
  | nil => rfl
  | cons x more ih =>
    obtain ⟨gap, c⟩ := x
    obtain ⟨hc, hmore⟩ := forall_mem_cons.1 h
    have hdigit : baseDigit? r.base c = some (placeOf c) := baseDigit?_of_mem r c hc
    rw [flatMap_cons, map_cons, foldl_cons, ← ih _ hmore]
    cases gap with
    | true =>
      change digitsAfter r.base acc ('_' :: c :: more.flatMap spaced) = _
      rw [digitsAfter.eq_2, hdigit, Option.bind_some]
    | false =>
      change digitsAfter r.base acc (c :: more.flatMap spaced) = _
      rw [digitsAfter.eq_3 _ _ _ _ fun d ds hc' _ => (ordinary_of_mem r c hc).1 hc', hdigit,
        Option.bind_some]

theorem digitRun_chars : digitRun r.base t.chars = some t.value := by
  rw [chars, digitRun, baseDigit?_of_mem r _ t.isFirst, Option.bind_some,
    digitsAfter_spaced _ t.isMore]
  simp [value, digits]

theorem dropBaseMark_chars : dropBaseMark r.base t.chars = t.chars := by
  unfold dropBaseMark
  split
  · next m cs h =>
    have hmark : (baseMarks r.base).contains m = false := by
      rcases t.mem_chars (show m ∈ t.chars by simp [h]) with rfl | hm
      · cases r <;> decide
      · exact (ordinary_of_mem r m hm).2.2.2.2.2.2.1
    rw [if_neg (ne_true_of_eq_false hmark), h]
  · rfl

theorem filter_spaced {more : List (Bool × Char)} (h : ∀ x ∈ more, x.2 ∈ r.digits) :
    ((more.flatMap spaced).filter fun c => (placeValue? c).isSome) = more.map Prod.snd := by
  induction more with
  | nil => rfl
  | cons x more ih =>
    obtain ⟨hx, hmore⟩ := forall_mem_cons.1 h
    have hplace : (placeValue? x.2).isSome = true := (ordinary_of_mem r x.2 hx).2.2.2.2.2.2.2
    have hone : ((spaced x).filter fun c => (placeValue? c).isSome) = [x.2] := by
      unfold spaced
      split
      · rw [filter_cons_of_neg (by decide)]
        exact filter_cons_of_pos hplace
      · exact filter_cons_of_pos hplace
    rw [flatMap_cons, filter_append, ih hmore, hone]
    rfl

theorem filter_chars : (t.chars.filter fun c => (placeValue? c).isSome) = t.digits := by
  rw [chars, filter_cons_of_pos, filter_spaced t.isMore, digits]
  exact (ordinary_of_mem r _ t.isFirst).2.2.2.2.2.2.2

theorem dropEnds_chars : dropEnds isNumberBlank t.chars = t.chars := by
  rw [dropEnds, dropWhile_of_head, dropTail_of_last]
  · exact fun c hc => (t.ordinary_chars (mem_of_mem_getLast? hc)).2.2.2.1
  · exact fun c hc => (t.ordinary_chars (mem_of_mem_head? hc)).2.2.2.1

/-- There are no more digits than are read. -/
def IsShort : Prop := r = .dec → t.digits.length ≤ mostDigits

instance : Decidable t.IsShort := inferInstanceAs (Decidable (_ → _))

theorem signedDigits_chars : Text.signedDigits r.base t.chars = some (t.value : Int) := by
  have hfirst := t.ordinary_chars (c := t.first) mem_cons_self
  rw [chars, Text.signedDigits, ← chars, dropBaseMark_chars, digitRun_chars]
  · rfl
  · exact fun cs h => hfirst.1 (cons_eq_cons.1 h).1
  · exact fun cs h => hfirst.2.1 (cons_eq_cons.1 h).1

/-- The outcome of reading a number with some digits in a base. -/
def outcome (v : Int) : Outcome Int :=
  if t.IsShort then .ok v else .error (.longInteger t.digits.length)

theorem base_eq_ten : (r.base == 10) = decide (r = .dec) := by
  cases r <;> rfl

theorem readInteger_of_core {cs : List Char} {v : Int} (hcore : dropEnds isNumberBlank cs = cs)
    (hread : Text.signedDigits r.base cs = some v)
    (hfilter : (cs.filter fun c => (placeValue? c).isSome) = t.digits) :
    readInteger r.base (ofList cs) = t.outcome v := by
  simp only [readInteger, toList_ofList, hcore, hread, hfilter, base_eq_ten, outcome, IsShort]
  by_cases hdec : r = .dec
  · by_cases hlen : t.digits.length ≤ mostDigits
    · simp [hdec, hlen, Nat.not_lt.2 hlen]
    · simp [hdec, hlen, Nat.lt_of_not_le hlen]
  · simp [hdec]

theorem readInteger_chars : readInteger r.base (ofList t.chars) = t.outcome t.value :=
  t.readInteger_of_core t.dropEnds_chars t.signedDigits_chars t.filter_chars

end DigitText

/-- A decimal number without a sign and without underscores. -/
structure Numeral where
  first : Char
  more : List Char
  isDigits : ∀ c ∈ first :: more, c ∈ Radix.dec.digits

namespace Numeral

variable (n : Numeral)

def chars : List Char := n.first :: n.more

def text : DigitText .dec where
  first := n.first
  more := n.more.map (false, ·)
  isFirst := n.isDigits _ mem_cons_self
  isMore := by
    rintro x hx
    obtain ⟨c, hc, rfl⟩ := mem_map.1 hx
    exact n.isDigits c (mem_cons_of_mem _ hc)

theorem chars_text : n.text.chars = n.chars := by
  have hmore : (n.more.map (false, ·)).flatMap DigitText.spaced = n.more := by
    rw [flatMap_map]
    exact flatMap_singleton' n.more
  exact congrArg (n.first :: ·) hmore

def value : Nat := n.text.value

/-- There are no more digits than are read. -/
def IsShort : Prop := n.chars.length ≤ mostDigits

instance : Decidable n.IsShort := inferInstanceAs (Decidable (_ ≤ _))

theorem isShort_text : n.text.IsShort ↔ n.IsShort := by
  simp [DigitText.IsShort, IsShort, DigitText.digits, text, chars]

theorem isDecimal_of_mem {c : Char} (h : c ∈ n.chars) : isDecimal c = true :=
  (by decide : ∀ c ∈ Radix.dec.digits, isDecimal c = true) c (n.isDigits c h)

theorem integer_chars : integer (ofList n.chars) =
    if n.IsShort then .ok (n.value : Int) else .error (.longInteger n.chars.length) := by
  have hread := n.text.readInteger_chars
  have hcount : n.text.digits.length = n.chars.length := by simp [DigitText.digits, text, chars]
  rw [chars_text, DigitText.outcome, hcount] at hread
  simp only [isShort_text] at hread
  exact hread

end Numeral

/-! ## Literals -/

/-- A literal with a width and a base. -/
structure SizedLiteral where
  width : List Char
  radix : Radix
  capital : Bool
  text : DigitText radix
  width_ne_nil : width ≠ []
  isWidth : ∀ c ∈ width, c.isDigit = true

def SizedLiteral.chars (l : SizedLiteral) : List Char :=
  l.width ++ '\'' :: l.radix.letter l.capital :: l.text.chars

/-- A literal. -/
inductive Literal where
  /-- A decimal integer, perhaps with a sign; `true` stands for a minus sign. -/
  | decimal (sign : Option Bool) (t : DigitText .dec)
  | sized (l : SizedLiteral)

namespace Literal

def signChars : Option Bool → List Char
  | none => []
  | some true => ['-']
  | some false => ['+']

def chars : Literal → List Char
  | decimal sign t => signChars sign ++ t.chars
  | sized l => l.chars

def value : Literal → Int
  | decimal (some true) t => -t.value
  | decimal _ t => t.value
  | sized l => l.text.value

def digitCount : Literal → Nat
  | decimal _ t => t.digits.length
  | sized l => l.text.digits.length

/-- There are no more digits in base ten than are read. -/
def IsShort : Literal → Prop
  | decimal _ t => t.IsShort
  | sized l => l.text.IsShort

instance (l : Literal) : Decidable l.IsShort := by
  cases l with
  | decimal _ t => exact inferInstanceAs (Decidable t.IsShort)
  | sized l => exact inferInstanceAs (Decidable l.text.IsShort)

theorem lt_digitCount {l : Literal} (h : ¬ l.IsShort) : mostDigits < l.digitCount := by
  cases l with
  | decimal sign t => exact Nat.lt_of_not_le (Classical.not_imp.1 h).2
  | sized l => exact Nat.lt_of_not_le (Classical.not_imp.1 h).2

theorem signedDigits_decimal (sign : Option Bool) (t : DigitText .dec) :
    Text.signedDigits 10 (decimal sign t).chars = some (decimal sign t).value := by
  have hrun : digitRun 10 (dropBaseMark 10 t.chars) = some t.value := by
    rw [dropBaseMark_ten]
    exact t.digitRun_chars
  match sign with
  | none => exact t.signedDigits_chars
  | some true =>
    change Text.signedDigits 10 ('-' :: t.chars) = some (-(t.value : Int))
    rw [Text.signedDigits, hrun]
    rfl
  | some false =>
    change Text.signedDigits 10 ('+' :: t.chars) = some (t.value : Int)
    rw [Text.signedDigits, hrun]
    rfl

theorem mem_decimal {sign : Option Bool} {t : DigitText .dec} {c : Char}
    (h : c ∈ (decimal sign t).chars) : c = '-' ∨ c = '+' ∨ c ∈ t.chars := by
  match sign with
  | none => exact .inr (.inr h)
  | some true => exact (mem_cons.1 h).imp_right .inr
  | some false => exact .inr (mem_cons.1 h)

theorem integer_decimal (sign : Option Bool) (t : DigitText .dec) :
    integer (ofList (decimal sign t).chars) = t.outcome (decimal sign t).value := by
  have hink {c : Char} (h : c ∈ (decimal sign t).chars) : isNumberBlank c = false := by
    rcases mem_decimal h with rfl | rfl | h
    · decide
    · decide
    · exact (t.ordinary_chars h).2.2.2.1
  refine t.readInteger_of_core ?_ (signedDigits_decimal sign t) ?_
  · rw [dropEnds, dropWhile_of_head, dropTail_of_last]
    · exact fun c hc => hink (mem_of_mem_getLast? hc)
    · exact fun c hc => hink (mem_of_mem_head? hc)
  · rw [chars, filter_append, t.filter_chars]
    rcases sign with _ | _ | _ <;> rfl

end Literal

/-! ## Reading literals -/

/-- The outcome of reading a literal. -/
def Literal.outcome : Literal → Outcome Int
  | l@(decimal _ t) => t.outcome l.value
  | l@(sized s) => s.text.outcome l.value

theorem Literal.outcome_eq (l : Literal) :
    l.outcome = if l.IsShort then .ok l.value else .error (.longInteger l.digitCount) := by
  cases l with
  | decimal sign t => rfl
  | sized l => rfl

theorem SizedLiteral.mem_chars {l : SizedLiteral} {c : Char} (h : c ∈ l.chars) :
    c.isDigit = true ∨ c = '\'' ∨ c = l.radix.letter l.capital ∨ c ∈ l.text.chars := by
  rcases mem_append.1 h with h | h
  · exact .inl (l.isWidth c h)
  · exact .inr ((mem_cons.1 h).imp_right mem_cons.1)

theorem Literal.not_blank (l : Literal) {c : Char} (h : c ∈ l.chars) : isBlank c = false := by
  cases l with
  | decimal sign t =>
    rcases mem_decimal h with rfl | rfl | h
    · decide
    · decide
    · exact (t.ordinary_chars h).2.2.2.2
  | sized l =>
    rcases SizedLiteral.mem_chars h with h | rfl | rfl | h
    · exact isBlank_of_nameTail (nameTail_of_isDigit h)
    · decide
    · cases l.radix <;> cases l.capital <;> decide
    · exact (l.text.ordinary_chars h).2.2.2.2

/-- A character of a literal is a character of words, an apostrophe or a sign. -/
theorem Literal.mem_chars (l : Literal) {c : Char} (h : c ∈ l.chars) : isWordChar c = true ∨
    c ∈ ['\'', '-', '+'] := by
  have hdigit {r : Radix} {t : DigitText r} (h : c ∈ t.chars) : isWordChar c = true := by
    rcases t.mem_chars h with rfl | h
    · decide
    · exact (by cases r <;> decide : ∀ c ∈ r.digits, isWordChar c = true) c h
  cases l with
  | decimal sign t =>
    rcases mem_decimal h with rfl | rfl | h
    · exact .inr (by decide)
    · exact .inr (by decide)
    · exact .inl (hdigit h)
  | sized l =>
    rcases SizedLiteral.mem_chars h with h | rfl | rfl | h
    · exact .inl (isWordChar_of_nameTail (nameTail_of_isDigit h))
    · exact .inr (by decide)
    · exact .inl (by cases l.radix <;> cases l.capital <;> decide)
    · exact .inl (hdigit h)

theorem Literal.chars_ne_nil (l : Literal) : l.chars ≠ [] := by
  cases l with
  | decimal sign t => simp [Literal.chars, DigitText.chars]
  | sized l => simp [Literal.chars, SizedLiteral.chars]

theorem Literal.trim_chars (l : Literal) : Trim l.chars :=
  ⟨fun _ hc => l.not_blank (mem_of_mem_head? hc),
    fun _ hc => l.not_blank (mem_of_mem_getLast? hc)⟩

/-- The mark of a width goes, and nothing else does. -/
theorem removeAll_widthMark {width rest : List Char} (hne : width ≠ [])
    (hwidth : ∀ c ∈ width, c.isDigit = true) :
    widthMark.removeAll (ofList (width ++ '\'' :: rest)) = ofList rest := by
  have hdecimal (c : Char) (hc : c ∈ width) : isDecimal c = true := by
    rw [isDecimal, digitValue?_of_isDigit (hwidth c hc)]
    rfl
  have hreads : Reads widthMark [] [] (width ++ "'".toList) rest [] := by
    rw [widthMark, reads_assoc]
    refine reads_first.seq ((reads_run hdecimal ?_ (length_pos_iff.2 hne)).seq reads_lit)
    simp
    decide
  obtain ⟨t, ht, hst, -⟩ := hreads ⟨[], width ++ '\'' :: rest, 0, []⟩ rfl rfl (by simp)
  have hafter : t.after = rest := by
    have := hst.after
    simpa using this.symm
  have hpos : t.pos ≠ 0 := by
    rw [hst.pos]
    simp
  have hlater : replaceFrom widthMark (fun _ => "") t.before t.pos t.after = t.after := by
    refine replaceFrom_of_none fun u v _ => ?_
    have hbefore : (u.reverse ++ t.before).isEmpty = false := by
      rw [hst.before]
      simp
    simp [widthMark, walk_append, walk, hbefore]
  rw [removeAll, replaceAll_eq, toList_ofList, replaceFrom_hit (ht some t rfl) hpos, hlater,
    hafter]
  rfl

/-- Reading a literal gives its value, unless it has too many digits. -/
theorem readNumber_literal (l : Literal) : readNumber (ofList l.chars) = l.outcome := by
  unfold readNumber
  rw [strip_of_trim l.trim_chars]
  cases l with
  | decimal sign t =>
    have hquote : '\'' ∉ (Literal.decimal sign t).chars := by
      intro h
      rcases Literal.mem_decimal h with h | h | h
      · exact absurd h (by decide)
      · exact absurd h (by decide)
      · exact (t.ordinary_chars h).2.2.1 rfl
    have hneeds : Needs widthMark '\'' := (needs_lit (by decide)).right
    have hmark : widthMark.removeAll (ofList (Literal.decimal sign t).chars) =
        ofList (Literal.decimal sign t).chars := hneeds.replaceAll hquote
    simp only [hmark, toList_ofList]
    split
    · exact Literal.integer_decimal sign t
    · next c rest hcs =>
      have hletter : baseOfLetter? c = none := by
        rcases Literal.mem_decimal (hcs ▸ mem_cons_self) with rfl | rfl | h
        · rfl
        · rfl
        · rcases t.mem_chars h with rfl | h
          · rfl
          · exact (by decide : ∀ c ∈ Radix.dec.digits, baseOfLetter? c = none) c h
      rw [hletter]
      exact Literal.integer_decimal sign t
  | sized l =>
    have hmark : widthMark.removeAll (ofList (Literal.sized l).chars) =
        ofList (l.radix.letter l.capital :: l.text.chars) :=
      removeAll_widthMark l.width_ne_nil l.isWidth
    simp only [hmark, toList_ofList, baseOfLetter?_letter]
    exact l.text.readInteger_chars

end Stimulus.Sv
