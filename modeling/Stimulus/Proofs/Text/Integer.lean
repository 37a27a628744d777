import Mathlib.Algebra.Group.Int.Defs
import Mathlib.Algebra.Group.Nat.Defs
import Stimulus.Proofs.Sv.Lexeme
import Stimulus.Text.Integer

/-!
# Integers as they are printed

An integer is printed with its digits and a minus sign if it is negative. Reading the text gives
the integer back, as long as there are no more digits than are read.
-/

open List

namespace Stimulus.Text

open Sv

def intChars (v : Int) : List Char :=
  if v < 0 then '-' :: digitsOf v.natAbs else digitsOf v.natAbs

theorem toList_toString_int (v : Int) : (toString v).toList = intChars v := by
  cases v with
  | ofNat n => simp [toString, Int.repr, Nat.repr, intChars, digitsOf]
  | negSucc n => simp [toString, Int.repr, Nat.repr, intChars, digitsOf, Int.negSucc_lt_zero]

variable {c : Char} {v : Int} {cs : List Char} {s : String}

theorem mem_intChars (h : c ∈ intChars v) : c = '-' ∨ c.isDigit = true := by
  unfold intChars at h
  split at h
  · rcases mem_cons.1 h with rfl | h
    · exact .inl rfl
    · exact .inr (isDigit_of_mem_digitsOf h)
  · exact .inr (isDigit_of_mem_digitsOf h)

theorem not_mem_intChars (hc : c ≠ '-') (hd : c.isDigit = false) : c ∉ intChars v := by
  intro h
  rcases mem_intChars h with rfl | h
  · exact hc rfl
  · rw [hd] at h
    cases h

theorem digitsOf_ne_nil (n : Nat) : digitsOf n ≠ [] := (isPlain_digitsOf n).ne_nil

theorem intChars_ne_nil (v : Int) : intChars v ≠ [] := by
  unfold intChars
  split
  · exact cons_ne_nil _ _
  · exact digitsOf_ne_nil _

/-! ## Reading digits -/

theorem toNat_of_isDigit (h : c.isDigit = true) : 48 ≤ c.toNat ∧ c.toNat ≤ 57 := by
  simp only [Char.isDigit, Bool.and_eq_true, decide_eq_true_eq, ge_iff_le,
    UInt32.le_iff_toNat_le] at h
  exact h

theorem digitValue?_of_isDigit (h : c.isDigit = true) : digitValue? c = some (c.toNat - '0'.toNat) := by
  have hc := toNat_of_isDigit h
  rw [digitValue?, if_pos (by omega), if_pos h]

theorem baseDigit?_of_isDigit (h : c.isDigit = true) :
    baseDigit? 10 c = some (c.toNat - '0'.toNat) := by
  have hc := toNat_of_isDigit h
  have hlt : c.toNat - 48 < 10 := by omega
  simp [baseDigit?, placeValue?, digitValue?_of_isDigit h, Option.filter, hlt]

theorem ne_underscore_of_isDigit (h : c.isDigit = true) : c ≠ '_' := by
  rintro rfl
  revert h
  decide

theorem digitsAfter_of_isDigit (h : ∀ c ∈ cs, c.isDigit = true) (acc : Nat) :
    digitsAfter 10 acc cs = some (Nat.ofDigitChars 10 cs acc) := by
  rw [Nat.ofDigitChars_eq_foldl]
  induction cs generalizing acc with
  | nil => rfl
  | cons c cs ih =>
    obtain ⟨hc, hcs⟩ := forall_mem_cons.1 h
    rw [digitsAfter]
    · rw [baseDigit?_of_isDigit hc, Option.bind_some, ih hcs, foldl_cons, Nat.mul_comm]
    · intro d ds hd _
      exact ne_underscore_of_isDigit hc hd

theorem digitRun_digitsOf (n : Nat) : digitRun 10 (digitsOf n) = some n := by
  have hvalue := Nat.ofDigitChars_toDigits (b := 10) (n := n) (by decide) (by decide)
  have hdigit : ∀ c ∈ digitsOf n, c.isDigit = true := fun _ => isDigit_of_mem_digitsOf
  change Nat.ofDigitChars 10 (digitsOf n) 0 = n at hvalue
  obtain ⟨c, cs, hcs⟩ := exists_cons_of_ne_nil (digitsOf_ne_nil n)
  rw [hcs] at hvalue hdigit ⊢
  obtain ⟨hc, hrest⟩ := forall_mem_cons.1 hdigit
  rw [digitRun, baseDigit?_of_isDigit hc, Option.bind_some, digitsAfter_of_isDigit hrest, ← hvalue,
    Nat.ofDigitChars_eq_foldl, Nat.ofDigitChars_eq_foldl, foldl_cons]
  simp

theorem dropBaseMark_ten (cs : List Char) : dropBaseMark 10 cs = cs := by
  unfold dropBaseMark
  split
  · simp [baseMarks]
  · rfl

theorem signedDigits_intChars (v : Int) : signedDigits 10 (intChars v) = some v := by
  unfold intChars
  split
  · next hv =>
    rw [signedDigits, dropBaseMark_ten, digitRun_digitsOf]
    change some (-(v.natAbs : Int)) = some v
    congr 1
    omega
  · next hv =>
    obtain ⟨c, cs, hcs⟩ := exists_cons_of_ne_nil (digitsOf_ne_nil v.natAbs)
    have hc : c.isDigit = true := isDigit_of_mem_digitsOf (hcs ▸ mem_cons_self)
    rw [hcs, signedDigits, ← hcs, dropBaseMark_ten, digitRun_digitsOf]
    · change some (v.natAbs : Int) = some v
      congr 1
      omega
    · rintro ds ⟨⟩
      revert hc
      decide
    · rintro ds ⟨⟩
      revert hc
      decide

def IsShort (v : Int) : Prop := (digitsOf v.natAbs).length ≤ mostDigits

instance (v : Int) : Decidable (IsShort v) := inferInstanceAs (Decidable (_ ≤ _))

theorem isNumberBlank_of_mem_intChars (h : c ∈ intChars v) : isNumberBlank c = false := by
  rcases mem_intChars h with rfl | hc
  · decide
  · have hc := toNat_of_isDigit hc
    have hspace : (c == ' ') = false := by
      refine beq_eq_false_iff_ne.2 ?_
      rintro rfl
      exact absurd hc.1 (by decide)
    have hcontrol : ¬ c.toNat ≤ 13 := by omega
    rw [isNumberBlank, if_pos (by omega), hspace, Bool.false_or]
    simp [hcontrol]

theorem filter_placeValue_intChars (v : Int) :
    (intChars v).filter (fun c => (placeValue? c).isSome) = digitsOf v.natAbs := by
  have hdigits : (digitsOf v.natAbs).filter (fun c => (placeValue? c).isSome) =
      digitsOf v.natAbs := by
    refine filter_eq_self.2 fun c hc => ?_
    simp [placeValue?, digitValue?_of_isDigit (isDigit_of_mem_digitsOf hc)]
  unfold intChars
  split
  · rw [filter_cons_of_neg (by decide), hdigits]
  · exact hdigits

theorem integer_intChars (v : Int) : integer (String.ofList (intChars v)) =
    if IsShort v then .ok v else .error (.longInteger (digitsOf v.natAbs).length) := by
  have hcore : dropEnds isNumberBlank (intChars v) = intChars v := by
    rw [dropEnds, dropWhile_of_head, dropTail_of_last]
    · exact fun c hc => isNumberBlank_of_mem_intChars (mem_of_mem_getLast? hc)
    · exact fun c hc => isNumberBlank_of_mem_intChars (mem_of_mem_head? hc)
  simp only [integer, readInteger, String.toList_ofList, hcore, signedDigits_intChars,
    filter_placeValue_intChars]
  by_cases h : IsShort v
  · rw [if_neg (by simpa [IsShort] using h), if_pos h]
  · rw [if_pos (by simpa [IsShort] using h), if_neg h]

theorem integer_toString (h : IsShort v) : integer (toString v) = .ok v := by
  rw [← String.ofList_toList (s := toString v), toList_toString_int, integer_intChars, if_pos h]

theorem isShort_of_integer_intChars {w : Int} (h : integer (String.ofList (intChars v)) = .ok w) :
    IsShort v := by
  rw [integer_intChars] at h
  split at h
  · assumption
  · cases h

theorem trim_intChars (v : Int) : Trim (intChars v) := by
  have hink (c : Char) (hc : c ∈ intChars v) : isBlank c = false := by
    rcases mem_intChars hc with rfl | hd
    · decide
    · have := toNat_of_isDigit hd
      rw [isBlank, if_pos (by omega)]
      have h13 : ¬ c.toNat ≤ 13 := by omega
      have h32 : ¬ c.toNat ≤ 32 := by omega
      simp [h13, h32]
  exact ⟨fun c hc => hink c (mem_of_mem_head? hc), fun c hc => hink c (mem_of_mem_getLast? hc)⟩

/-! ## Numbers that were read -/

theorem isShort_iff : IsShort v ↔ v.natAbs < 10 ^ mostDigits :=
  Nat.length_toDigits_le_iff (by decide) (by decide)

theorem isShort_eq_true : isShort v = true ↔ IsShort v := by
  rw [isShort, decide_eq_true_iff, isShort_iff, Nat.pow_eq]

/-- The characters that count as digits. -/
private def digitCount (cs : List Char) : Nat := (cs.filter fun c => (placeValue? c).isSome).length

private theorem digitCount_cons {d : Nat} (h : baseDigit? 10 c = some d) (cs : List Char) :
    digitCount (c :: cs) = digitCount cs + 1 ∧ d < 10 := by
  obtain ⟨hplace, hd⟩ := Option.filter_eq_some_iff.1 h
  refine ⟨?_, by simpa using hd⟩
  rw [digitCount, filter_cons_of_pos (by simp [hplace])]
  rfl

/-- A number that starts with `acc` and goes on with some digits. -/
private theorem lt_of_digitsAfter {acc v : Nat} (h : digitsAfter 10 acc cs = some v) :
    v < (acc + 1) * 10 ^ digitCount cs := by
  fun_induction digitsAfter 10 acc cs with
  | case1 acc =>
    obtain rfl := Option.some.inj h
    simp [digitCount]
  | case2 acc c cs ih =>
    obtain ⟨d, hd, h⟩ := Option.bind_eq_some_iff.1 h
    have hunderscore : digitCount ('_' :: c :: cs) = digitCount (c :: cs) := by
      rw [digitCount, filter_cons_of_neg (by decide)]
      rfl
    obtain ⟨hcount, hlt⟩ := digitCount_cons hd cs
    rw [hunderscore, hcount, Nat.pow_succ', ← Nat.mul_assoc]
    exact (ih d h).trans_le (Nat.mul_le_mul_right _ (by omega))
  | case3 acc c cs _ ih =>
    obtain ⟨d, hd, h⟩ := Option.bind_eq_some_iff.1 h
    obtain ⟨hcount, hlt⟩ := digitCount_cons hd cs
    rw [hcount, Nat.pow_succ', ← Nat.mul_assoc]
    exact (ih d h).trans_le (Nat.mul_le_mul_right _ (by omega))

private theorem lt_of_digitRun {v : Nat} (h : digitRun 10 cs = some v) : v < 10 ^ digitCount cs := by
  cases cs with
  | nil => cases h
  | cons c cs =>
    obtain ⟨d, hd, h⟩ := Option.bind_eq_some_iff.1 h
    obtain ⟨hcount, hlt⟩ := digitCount_cons hd cs
    rw [hcount, Nat.pow_succ']
    exact (lt_of_digitsAfter h).trans_le (Nat.mul_le_mul_right _ (by omega))

private theorem natAbs_lt_of_signedDigits
    (h : signedDigits 10 cs = some v) : v.natAbs < 10 ^ digitCount cs := by
  have hsign (c : Char) (hc : placeValue? c = none) (cs : List Char) :
      digitCount (c :: cs) = digitCount cs := by
    rw [digitCount, filter_cons_of_neg (by simp [hc])]
    rfl
  unfold signedDigits at h
  split at h
  all_goals
    obtain ⟨n, hn, rfl⟩ := Option.map_eq_some_iff.1 h
    obtain ⟨m, hm, hcast⟩ := Option.bind_eq_some_iff.1 hn
    obtain rfl := Option.some.inj hcast
    rw [dropBaseMark_ten] at hm
  · simpa [hsign '-' (by decide)] using lt_of_digitRun hm
  · simpa [hsign '+' (by decide)] using lt_of_digitRun hm
  · simpa using lt_of_digitRun hm

theorem integer_eq_ok : integer s = .ok v ↔ signedDigits 10 (dropEnds isNumberBlank s.toList) = some v ∧
      ((dropEnds isNumberBlank s.toList).filter fun c => (placeValue? c).isSome).length ≤ mostDigits := by
  unfold integer readInteger
  simp only
  cases signedDigits 10 (dropEnds isNumberBlank s.toList) with
  | none => simp
  | some n =>
    simp only [beq_self_eq_true, Bool.true_and, decide_eq_true_eq, Option.some.injEq]
    split
    · next hlong => simp [hlong]
    · next hshort => simp [Nat.not_lt.1 hshort]

theorem isShort_of_integer (h : integer s = .ok v) : IsShort v := by
  obtain ⟨hread, hcount⟩ := integer_eq_ok.1 h
  exact isShort_iff.2 ((natAbs_lt_of_signedDigits hread).trans_le (Nat.pow_le_pow_right (by decide) hcount))

theorem intChars_injective {w : Int} (h : intChars v = intChars w) : v = w :=
  Option.some.inj ((signedDigits_intChars v).symm.trans (h ▸ signedDigits_intChars w))

/-! ## Blanks around an integer -/

theorem isBlank_of_isDecimal (h : isDecimal c = true) : isBlank c = false := by
  unfold isDecimal digitValue? at h
  by_cases hc : c.toNat < 128
  · rw [if_pos hc] at h
    have hdigit : c.isDigit = true := by
      by_contra hd
      rw [if_neg hd] at h
      cases h
    exact isBlank_of_nameTail (nameTail_of_isDigit hdigit)
  · rw [if_neg hc, Option.isSome_map] at h
    obtain ⟨z, hz⟩ := Option.isSome_iff_exists.1 h
    have hspan := Array.find?_some hz
    simp only [Bool.and_eq_true, decide_eq_true_eq] at hspan
    have hapart : ∀ z ∈ decimalZeros.toList, ∀ b ∈ blankSpans.toList, z + 9 < b.1 ∨ b.2 < z := by
      decide
    rw [isBlank, if_neg hc]
    refine Bool.eq_false_iff.2 fun hblank => ?_
    simp only [inSpans, ← Array.any_toList, any_eq_true, Bool.and_eq_true,
      decide_eq_true_eq] at hblank
    obtain ⟨b, hb, hlow, hhigh⟩ := hblank
    have := hapart z (Array.mem_toList_iff.2 (Array.mem_of_find?_eq_some hz)) b hb
    omega

theorem isDecimal_of_isBlank (c : Char) (h : isBlank c = true) : isDecimal c = false :=
  Bool.eq_false_iff.2 fun hd => by simp [isBlank_of_isDecimal hd] at h

end Stimulus.Text
