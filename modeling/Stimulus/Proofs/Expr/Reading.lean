import Mathlib.Data.Int.Bitwise
import Stimulus.Model.Expression
import Stimulus.Proofs.Sv.Lexeme

/-!
# How a model reads an expression

In a model `&` and `|` are operators on bits and bind tighter than comparisons, and comparisons form
chains: `a < b < c` says `a < b` and `b < c`. As a number a chain is one or zero.
-/

open List

namespace Stimulus.Expr

open Model Sv

/-! ## Readings -/

/-- An expression of a model, as it is read. -/
inductive Reading where
  | field (name : String)
  | number (n : Nat)
  /-- `a & b`. -/
  | both (a b : Reading)
  /-- `a | b`. -/
  | either (a b : Reading)
  /-- A chain of comparisons that goes on with one more operand. -/
  | link (front : Reading) (rel : Rel) (last : Reading)
  /-- An expression in parentheses. -/
  | group (r : Reading)
deriving DecidableEq

namespace Reading

/-- The value of an expression, given its last operand and whether its comparisons hold. -/
def settle : Reading → Int × Bool → Int
  | link .., (_, ok) => if ok then 1 else 0
  | _, (last, _) => last

/-- The last operand of an expression, and whether its comparisons hold. -/
def run (σ : String → Int) : Reading → Int × Bool
  | field x => (σ x, true)
  | number n => (n, true)
  | both a b => (Int.land (a.run σ).1 (b.run σ).1, true)
  | either a b => (Int.lor (a.run σ).1 (b.run σ).1, true)
  | link a r b => ((b.run σ).1, (a.run σ).2 && r.holds (a.run σ).1 (b.run σ).1)
  | group t => (t.settle (t.run σ), true)

/-- The value of an expression. -/
def value (σ : String → Int) (t : Reading) : Int := t.settle (t.run σ)

def truth (σ : String → Int) (t : Reading) : Bool := t.value σ != 0

end Reading

/-! ## Reading tokens -/

/-- What waits for an operand: a chain with its next comparison, a disjunction and a conjunction. -/
structure Frame where
  chain : Option (Reading × Rel) := none
  either : Option Reading := none
  both : Option Reading := none

namespace Frame

/-- The conjunction that waits, with its next operand. -/
def joined (f : Frame) (a : Reading) : Reading :=
  match f.both with
  | none => a
  | some b => .both b a

/-- The disjunction that waits, with its next operand. -/
def operand (f : Frame) (a : Reading) : Reading :=
  match f.either with
  | none => f.joined a
  | some b => .either b (f.joined a)

/-- All that waits, with its last operand. -/
def close (f : Frame) (a : Reading) : Reading :=
  match f.chain with
  | none => f.operand a
  | some (c, r) => .link c r (f.operand a)

/-- An operand and `&` after it. -/
def conj (f : Frame) (a : Reading) : Frame := { f with both := some (f.joined a) }

/-- An operand and `|` after it. -/
def disj (f : Frame) (a : Reading) : Frame := { f with either := some (f.operand a), both := none }

/-- An operand and a comparison after it. -/
def compare (f : Frame) (a : Reading) (r : Rel) : Frame := { chain := some (f.close a, r) }

end Frame

/-- The comparison of a mark. -/
def relOf? : String → Option Rel
  | "==" => some .eq
  | "!=" => some .ne
  | "<" => some .lt
  | ">" => some .gt
  | "<=" => some .le
  | ">=" => some .ge
  | _ => none

/-- Reads on, in a frame inside others. The operand just read is given, if there is one. -/
def readOn : List Frame → Frame → Option Reading → List Token → Option Reading
  | outer, f, none, ts =>
    match ts with
    | .number n :: ts => readOn outer f (some (.number n)) ts
    | .word "self" :: .mark "." :: .word x :: ts => readOn outer f (some (.field x)) ts
    | .mark "(" :: ts => readOn (f :: outer) {} none ts
    | _ => none
  | outer, f, some a, ts =>
    match ts with
    | [] => if outer.isEmpty then some (f.close a) else none
    | .mark "&" :: ts => readOn outer (f.conj a) none ts
    | .mark "|" :: ts => readOn outer (f.disj a) none ts
    | .mark ")" :: ts =>
      match outer with
      | [] => none
      | g :: outer => readOn outer g (some (.group (f.close a))) ts
    | .mark m :: ts =>
      match relOf? m with
      | some r => readOn outer (f.compare a r) none ts
      | none => none
    | _ => none

def read? (s : String) : Option Reading := readOn [] {} none (tokensOf s.toList)

/-! ## Tokens of a text -/

theorem tokensOf_blank (cs : List Char) : tokensOf (' ' :: cs) = tokensOf cs := by
  rw [tokensOf, if_pos (by decide)]

private theorem tokensOf_run {c : Char} {w cs : List Char} (hc : nameTail c = true)
    (hw : ∀ d ∈ w, nameTail d = true) (hs : Stops cs) :
    tokensOf (c :: w ++ cs) =
      (if c.isDigit then .number ((c :: w).foldl (fun n d => n * 10 + (d.toNat - 48)) 0)
        else .word (String.ofList (c :: w))) :: tokensOf cs := by
  have hname : isNameChar c = true := hc
  have hrun : (w ++ cs).takeWhile isNameChar = w ∧ (w ++ cs).dropWhile isNameChar = cs :=
    Pattern.takeWhile_append_stop hw hs
  rw [cons_append, tokensOf, if_neg (by simp [isBlank_of_nameTail hc]), if_pos hname]
  simp only [hrun.1, hrun.2]

theorem isDigit_of_nameHead {c : Char} (h : nameHead c = true) : c.isDigit = false := by
  simp only [nameHead, isAlpha_iff, Bool.or_eq_true, beq_iff_eq] at h
  simp only [Char.isDigit, Bool.and_eq_false_iff, decide_eq_false_iff_not, ge_iff_le,
    UInt32.le_iff_toNat_le]
  change ¬ 48 ≤ c.toNat ∨ ¬ c.toNat ≤ 57
  rcases h with h | rfl
  · omega
  · decide

theorem tokensOf_name {w cs : List Char} (h : Pattern.hasShape nameHead nameTail w = true)
    (hs : Stops cs) : tokensOf (w ++ cs) = .word (String.ofList w) :: tokensOf cs := by
  cases w with
  | nil => cases h
  | cons c w =>
    simp only [Pattern.hasShape, Bool.and_eq_true, all_eq_true] at h
    rw [tokensOf_run (nameTail_of_nameHead h.1) h.2 hs, isDigit_of_nameHead h.1]
    rfl

theorem tokensOf_digits (n : Nat) {cs : List Char} (hs : Stops cs) :
    tokensOf (digitsOf n ++ cs) = .number n :: tokensOf cs := by
  obtain ⟨c, w, hcw⟩ := exists_cons_of_ne_nil (isPlain_digitsOf n).ne_nil
  have hplain := (isPlain_digitsOf n).chars
  have hdigit : c.isDigit = true := isDigit_of_mem_digitsOf (hcw ▸ mem_cons_self)
  rw [hcw] at hplain
  rw [hcw, tokensOf_run (hplain c mem_cons_self)
    (fun d hd => hplain d (mem_cons_of_mem _ hd)) hs, hdigit, if_pos rfl, ← hcw]
  have hvalue := Nat.ofDigitChars_toDigits (b := 10) (n := n) (by decide) (by decide)
  rw [Nat.ofDigitChars_eq_foldl] at hvalue
  simp only [Nat.mul_comm 10] at hvalue
  exact congrArg (fun n => Token.number n :: tokensOf cs) hvalue

theorem tokensOf_mark {c : Char} (hb : Text.isBlank c = false) (hc : nameTail c = false)
    (hl : c ∉ ['=', '!', '<', '>', '/']) (cs : List Char) :
    tokensOf (c :: cs) = .mark (String.ofList [c]) :: tokensOf cs := by
  have hname : isNameChar c = false := hc
  have hlong : longMarks.contains (String.ofList (c :: cs.take 1)) = false := by
    simp only [mem_cons, not_mem_nil, or_false, not_or] at hl
    simp [longMarks, ← String.toList_inj, hl]
  rw [tokensOf, if_neg (by simp [hb]), if_neg (by simp [hname])]
  simp only [hlong]
  simp

theorem tokensOf_rel (r : Rel) (cs : List Char) :
    tokensOf (r.chars ++ ' ' :: cs) = .mark (String.ofList r.chars) :: tokensOf cs := by
  cases r <;>
    (rw [Rel.chars, cons_append, tokensOf, if_neg (by decide), if_neg (by decide)]
     simp [longMarks, tokensOf_blank])

end Stimulus.Expr
