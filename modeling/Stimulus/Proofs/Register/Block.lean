import Mathlib.Order.Bounds.Basic
import Stimulus.Proofs.Outcome
import Stimulus.Proofs.Register.Markup

/-!
# Blocks of rows

A block starts on a row that opens a parameter and goes on to the next later row that closes one.
The row on which it starts is never its end, even if the parameter is closed there.
The closing row is found by halving a list of line numbers; `findClose?_closeIndex` says that this is
what reading on line by line would find.
-/

open List

namespace Stimulus.Register

open Pattern Text

variable {block : List Row}

/-! ## Finding a line number -/

section Halving

variable {numbers : List Int}

theorem exists_middle {i : Nat} (h : i < numbers.length) :
    ∃ front y back, numbers = front ++ y :: back ∧ (numbers.toArray[i]?).getD 0 = y ∧
      numbers.take (i + 1) = front ++ [y] ∧ numbers.drop i = y :: back :=
  ⟨numbers.take i, numbers[i], numbers.drop (i + 1), by simp, by simp [h], by simp, by simp⟩

theorem firstAtLeast_spec (hsorted : numbers.Pairwise (· < ·)) (start : Int) {low high : Nat}
    (hle : low ≤ high) (hsize : high ≤ numbers.length)
    (hlow : ∀ x ∈ numbers.take low, x < start) (hhigh : ∀ x ∈ numbers.drop high, start ≤ x) :
    (∀ x ∈ numbers.take (firstAtLeast numbers.toArray start low high), x < start) ∧
      ∀ x ∈ numbers.drop (firstAtLeast numbers.toArray start low high), start ≤ x := by
  fun_induction firstAtLeast numbers.toArray start low high with
  | case1 low high h middle hmiddle ih =>
    have hlt : middle < numbers.length := by omega
    obtain ⟨front, y, back, hnum, hy, htake, -⟩ := exists_middle hlt
    obtain ⟨-, -, hbelow⟩ := pairwise_append.1 (hnum ▸ hsorted)
    rw [hy] at hmiddle
    refine ih (by omega) hsize (fun x hx => ?_) hhigh
    rw [htake, mem_append, mem_singleton] at hx
    rcases hx with hx | rfl
    · exact Int.lt_trans (hbelow x hx y mem_cons_self) hmiddle
    · exact hmiddle
  | case2 low high h middle hmiddle ih =>
    have hlt : middle < numbers.length := by omega
    obtain ⟨front, y, back, hnum, hy, -, hdrop⟩ := exists_middle hlt
    obtain ⟨-, habove, -⟩ := pairwise_append.1 (hnum ▸ hsorted)
    rw [hy, Int.not_lt] at hmiddle
    refine ih (by omega) (by omega) hlow fun x hx => ?_
    rw [hdrop, mem_cons] at hx
    rcases hx with rfl | hx
    · exact hmiddle
    · exact Int.le_trans hmiddle (Int.le_of_lt ((pairwise_cons.1 habove).1 x hx))
  | case3 low high h =>
    obtain rfl : low = high := by omega
    exact ⟨hlow, hhigh⟩

theorem findClose?_eq_find? (hsorted : numbers.Pairwise (· < ·)) (start : Int) :
    findClose? numbers start = numbers.find? (start ≤ ·) := by
  obtain ⟨hbelow, habove⟩ := firstAtLeast_spec hsorted start (Nat.zero_le _) le_rfl
    (by simp) (by simp)
  rw [findClose?]
  simp only [size_toArray, getElem?_toArray]
  generalize firstAtLeast numbers.toArray start 0 numbers.length = i at hbelow habove
  have hfront : (numbers.take i).find? (start ≤ ·) = none := by
    simpa using hbelow
  rw [← head?_drop]
  conv => rhs; rw [← take_append_drop i numbers, find?_append, hfront, Option.none_or]
  cases hdrop : numbers.drop i with
  | nil => rfl
  | cons y back =>
    have hy : start ≤ y := habove y (by simp [hdrop])
    simp [hy]

theorem isLeast_of_find? (hsorted : numbers.Pairwise (· < ·)) {start n : Int}
    (h : numbers.find? (start ≤ ·) = some n) : IsLeast {n | n ∈ numbers ∧ start ≤ n} n := by
  obtain ⟨hn, front, back, rfl, hfront⟩ := find?_eq_some_iff_append.1 h
  refine ⟨⟨by simp, by simpa using hn⟩, ?_⟩
  rintro m ⟨hmem, hm⟩
  obtain ⟨-, hback, -⟩ := pairwise_append.1 hsorted
  rw [mem_append, mem_cons] at hmem
  rcases hmem with hmem | rfl | hmem
  · exact absurd hm (by simpa using hfront m hmem)
  · exact le_rfl
  · exact Int.le_of_lt ((pairwise_cons.1 hback).1 m hmem)

theorem find?_eq_some_iff_isLeast (hsorted : numbers.Pairwise (· < ·)) {start n : Int} :
    numbers.find? (start ≤ ·) = some n ↔ IsLeast {n | n ∈ numbers ∧ start ≤ n} n := by
  refine ⟨isLeast_of_find? hsorted, fun h => ?_⟩
  cases hfind : numbers.find? (start ≤ ·) with
  | none =>
    have hbelow := find?_eq_none.1 hfind n h.1.1
    exact absurd h.1.2 (by simpa using hbelow)
  | some m => rw [(isLeast_of_find? hsorted hfind).unique h]

end Halving

/-! ## The end of a block -/

section Ends

variable {tag : String}

/-- The line with this number has the tag. -/
def HasTag (tag : String) (lines : List String) (i : Nat) : Prop :=
  ∃ line, lines[i]? = some line ∧ tag.toList <:+: line.toList

theorem mem_closeIndexFrom_iff {lines : List String} {i n : Nat} :
    n ∈ closeIndexFrom tag i lines ↔ ∃ k, n = i + k ∧ HasTag tag lines k := by
  induction lines generalizing i with
  | nil => simp [closeIndexFrom, HasTag]
  | cons line lines ih =>
    -- The first line has the number `i`, and the others are counted from `i + 1` on.
    have hcut : (∃ k, n = i + k ∧ HasTag tag (line :: lines) k) ↔
        (n = i ∧ contains tag line = true) ∨ ∃ k, n = i + 1 + k ∧ HasTag tag lines k := by
      rw [contains_iff]
      constructor
      · rintro ⟨k, rfl, found, hfound, htag⟩
        cases k with
        | zero =>
          obtain rfl : line = found := by simpa using hfound
          exact .inl ⟨rfl, htag⟩
        | succ k => exact .inr ⟨k, by omega, found, by simpa using hfound, htag⟩
      · rintro (⟨rfl, htag⟩ | ⟨k, rfl, found, hfound, htag⟩)
        · exact ⟨0, rfl, line, rfl, htag⟩
        · exact ⟨k + 1, by omega, found, by simpa using hfound, htag⟩
    rw [hcut, ← ih, closeIndexFrom]
    split <;> simp [*]

theorem mem_closeIndexFrom {lines : List String} {i n : Nat} (h : n ∈ closeIndexFrom tag i lines) :
    i ≤ n ∧ n < i + lines.length := by
  obtain ⟨k, rfl, line, hline, -⟩ := mem_closeIndexFrom_iff.1 h
  have hlt := (List.getElem?_eq_some_iff.1 hline).1
  omega

theorem pairwise_closeIndexFrom (lines : List String) (i : Nat) :
    (closeIndexFrom tag i lines).Pairwise (· < ·) := by
  induction lines generalizing i with
  | nil => exact .nil
  | cons line lines ih =>
    rw [closeIndexFrom]
    split
    · exact .cons (fun n hn => (mem_closeIndexFrom hn).1) (ih (i + 1))
    · exact ih (i + 1)

theorem closeIndexFrom_append (front back : List String) (i : Nat) :
    closeIndexFrom tag i (front ++ back) =
      closeIndexFrom tag i front ++ closeIndexFrom tag (i + front.length) back := by
  induction front generalizing i with
  | nil => rfl
  | cons line front ih =>
    simp only [cons_append, closeIndexFrom, ih, length_cons]
    rw [Nat.add_assoc, Nat.add_comm 1]
    split <;> rfl

theorem head?_closeIndexFrom (lines : List String) (i : Nat) :
    (closeIndexFrom tag i lines).head? = (lines.findIdx? (contains tag)).map (i + ·) := by
  induction lines generalizing i with
  | nil => rfl
  | cons line lines ih =>
    rw [closeIndexFrom, findIdx?_cons]
    split
    · rfl
    · rw [ih, Option.map_map]
      congr 1
      funext n
      simp only [Function.comp]
      omega

theorem mem_closeIndex {lines : List String} {n : Nat} :
    n ∈ closeIndex lines tag ↔ HasTag tag lines n := by
  rw [closeIndex, mem_closeIndexFrom_iff]
  simp

theorem pairwise_closeIndex (lines : List String) (tag : String) :
    ((closeIndex lines tag).map Int.ofNat).Pairwise (· < ·) :=
  List.Pairwise.map _ (fun _ _ h => Int.ofNat_lt.2 h) (pairwise_closeIndexFrom lines 0)

/-- Halving the list of the lines with a tag finds the first of them that does not stand before `start`,
wherever `start` is, and nothing if there is none. -/
theorem findClose?_closeIndex (lines : List String) (tag : String) (start : Int) :
    (∀ n, findClose? ((closeIndex lines tag).map Int.ofNat) start = some n ↔
      ∃ i : Nat, n = i ∧ IsLeast {i : Nat | start ≤ i ∧ HasTag tag lines i} i) ∧
    (findClose? ((closeIndex lines tag).map Int.ofNat) start = none ↔
      ∀ i : Nat, start ≤ i → ¬ HasTag tag lines i) := by
  have hmem (n : Int) : n ∈ (closeIndex lines tag).map Int.ofNat ↔
      ∃ i : Nat, n = i ∧ HasTag tag lines i := by
    simp only [mem_map, mem_closeIndex]
    exact ⟨fun ⟨i, hi, hn⟩ => ⟨i, hn.symm, hi⟩, fun ⟨i, hn, hi⟩ => ⟨i, hi, hn.symm⟩⟩
  rw [findClose?_eq_find? (pairwise_closeIndex lines tag)]
  constructor
  · intro n
    rw [find?_eq_some_iff_isLeast (pairwise_closeIndex lines tag)]
    constructor
    · rintro ⟨⟨hn, hstart⟩, hleast⟩
      obtain ⟨i, rfl, hi⟩ := (hmem n).1 hn
      refine ⟨i, rfl, ⟨hstart, hi⟩, fun j hj => ?_⟩
      exact Int.ofNat_le.1 (hleast ⟨(hmem j).2 ⟨j, rfl, hj.2⟩, hj.1⟩)
    · rintro ⟨i, rfl, ⟨hstart, hi⟩, hleast⟩
      refine ⟨⟨(hmem i).2 ⟨i, rfl, hi⟩, hstart⟩, ?_⟩
      rintro m ⟨hm, hstart'⟩
      obtain ⟨j, rfl, hj⟩ := (hmem m).1 hm
      exact Int.ofNat_le.2 (hleast ⟨hstart', hj⟩)
  · rw [find?_eq_none]
    constructor
    · intro h i hstart hi
      exact h i ((hmem i).2 ⟨i, rfl, hi⟩) (by simpa using hstart)
    · intro h n hn hstart
      obtain ⟨i, rfl, hi⟩ := (hmem n).1 hn
      exact h i (by simpa using hstart) hi

theorem closeAfter?_closeIndex (front : List String) (line : String) (back : List String) :
    closeAfter? (closeIndex (front ++ line :: back) tag) front.length =
      (back.findIdx? (contains tag)).map (front.length + 1 + ·) := by
  rw [closeAfter?, findClose?_eq_find? (pairwise_closeIndex _ tag), append_cons, closeIndex,
    closeIndexFrom_append, find?_map, find?_append]
  have hfront : (closeIndexFrom tag 0 (front ++ [line])).find?
      ((fun n => decide (((front.length + 1 : Nat) : Int) ≤ n)) ∘ Int.ofNat) = none := by
    refine find?_eq_none.2 fun n hn => ?_
    have := (mem_closeIndexFrom hn).2
    simp at this ⊢
    omega
  have hback : (closeIndexFrom tag (0 + (front ++ [line]).length) back).find?
      ((fun n => decide (((front.length + 1 : Nat) : Int) ≤ n)) ∘ Int.ofNat) =
        (closeIndexFrom tag (0 + (front ++ [line]).length) back).head? := by
    cases hindex : closeIndexFrom tag (0 + (front ++ [line]).length) back with
    | nil => rfl
    | cons n more =>
      have := (mem_closeIndexFrom (hindex ▸ mem_cons_self : n ∈ closeIndexFrom tag _ back)).1
      simp at this ⊢
      omega
  rw [hfront, hback, head?_closeIndexFrom, Option.none_or, Option.map_map, Option.map_map]
  simp [Function.comp_def]

theorem blockFrom_closeIndex (tag : String) (front : List String) (line : String)
    (back : List String) :
    blockFrom (front ++ line :: back) (closeIndex (front ++ line :: back) tag) front.length =
      line :: match back.findIdx? (contains tag) with
        | some n => back.take (n + 1)
        | none => back := by
  rw [blockFrom, closeAfter?_closeIndex]
  cases back.findIdx? (contains tag) with
  | none => simp [take_of_length_le]
  | some n =>
    have hlen : front.length + 1 + n + 1 = front.length + (n + 1 + 1) := by omega
    have hdrop : (front ++ line :: back).drop front.length = line :: back := by simp
    rw [Option.map_some, Option.getD_some, hlen, drop_take, hdrop, Nat.add_sub_cancel_left]
    rfl

end Ends

/-! ## Blocks -/

def upToStop : List Row → List Row
  | [] => []
  | r :: rest => if r.Closes then [r] else r :: upToStop rest

def blocks : List Row → List (Label × List Row)
  | [] => []
  | r :: rest =>
    match r.name? with
    | some n => (n, r :: upToStop rest) :: blocks rest
    | none => blocks rest

theorem map_line_upToStop (rows : List Row) :
    (match (rows.map Row.line).findIdx? (contains "</Parameter>") with
      | some n => (rows.map Row.line).take (n + 1)
      | none => rows.map Row.line) = (upToStop rows).map Row.line := by
  induction rows with
  | nil => rfl
  | cons r rows ih =>
    rw [map_cons, findIdx?_cons, contains_stop, upToStop]
    by_cases h : r.Closes
    · simp [h]
    · rw [if_neg (by simpa using h), if_neg h, map_cons, ← ih]
      cases (rows.map Row.line).findIdx? (contains "</Parameter>") <;> rfl

theorem blockFrom_rows (front : List Row) (r : Row) (back : List Row) :
    blockFrom ((front ++ r :: back).map Row.line)
        (closeIndex ((front ++ r :: back).map Row.line) "</Parameter>") front.length =
      (r :: upToStop back).map Row.line := by
  have h := blockFrom_closeIndex "</Parameter>" (front.map Row.line) r.line
    (back.map Row.line)
  rw [map_line_upToStop, length_map] at h
  rw [map_append, map_cons, h, map_cons]

/-! ## Looking through the rows -/

theorem occursIn_opening (r : Row) : Kind.parameter.opening.occursIn r.line = r.name?.isSome := by
  have h := congrArg Option.isSome (search?_opening r)
  simpa [occursIn] using h

theorem opensSim_line (r : Row) : opensSim r.line = false :=
  r.startsWith_strip (contains_stranger (by decide) r)

theorem look_row (front : List Row) (r : Row) (back : List Row) (fieldEnds : List Nat) (s : Scan)
    (hsim : s.inSim = false) :
    s.look ((front ++ r :: back).map Row.line)
        (closeIndex ((front ++ r :: back).map Row.line) "</Parameter>") fieldEnds r.line front.length =
      .ok { s with
        ip := r.ip?.getD s.ip
        parameters := s.parameters ++
          if r.name?.isSome then [(r :: upToStop back).map Row.line] else [] } := by
  have hfield : contains "Field name" r.line = false := contains_stranger (by decide) r
  simp only [Scan.look, ipAfter_line, hsim, opensSim_line, occursIn_opening, hfield, blockFrom_rows,
    Bool.or_false, Bool.and_false, Bool.not_false, Bool.true_and]
  cases r.name?.isSome <;> simp [bind, Except.bind, pure, Except.pure]

/-- The name of the block of registers that rows give; the last one counts. -/
def ipOf (ip : String) (rows : List Row) : String := rows.foldl (fun ip r => r.ip?.getD ip) ip

theorem look_rows (front back : List Row) (fieldEnds : List Nat) (s : Scan)
    (hsim : s.inSim = false) :
    ((back.map Row.line).zipIdx front.length).foldlM (fun (s : Scan) l =>
        s.look ((front ++ back).map Row.line)
          (closeIndex ((front ++ back).map Row.line) "</Parameter>") fieldEnds l.1 l.2) s =
      .ok { s with
        ip := ipOf s.ip back
        parameters := s.parameters ++ (blocks back).map fun b => b.2.map Row.line } := by
  induction back generalizing front s with
  | nil => simp [ipOf, blocks, pure, Except.pure]
  | cons r back ih =>
    rw [map_cons, zipIdx_cons, foldlM_cons, look_row front r back fieldEnds s hsim]
    have hnext := ih (front ++ [r]) { s with
      ip := r.ip?.getD s.ip
      parameters := s.parameters ++
        if r.name?.isSome then [(r :: upToStop back).map Row.line] else [] } hsim
    rw [append_assoc, singleton_append, length_append] at hnext
    refine hnext.trans ?_
    cases hname : r.name? <;> simp [blocks, hname, ipOf]

theorem scan_rows (rows : List Row) : scan (rows.map Row.line) =
    .ok { ip := ipOf "" rows, parameters := (blocks rows).map fun b => b.2.map Row.line } := by
  have h := look_rows [] rows (closeIndex (rows.map Row.line) "</Field>") {} rfl
  simpa [scan] using h

/-! ## What a block says -/

/-- The integers of a side on the rows of a block. -/
def valuesOf (side : Side) (block : List Row) : List Int := block.filterMap (Row.whole? side)

def boundsOf (block : List Row) : Bounds where
  low := (valuesOf .low block).getLastD 0
  high := (valuesOf .high block).getLastD 0
  bounded := !(valuesOf .low block).isEmpty

/-- The tags of each row are in order. -/
def Ordered (rows : List Row) : Prop := ∀ r ∈ rows, r.tags.IsChain Tag.Before

/-- All integers on the rows of a block can be read. -/
def Readable (block : List Row) : Prop := ∀ side, ∀ v ∈ valuesOf side block, IsShort v

/-- The bounds after a row; later ones win. -/
def Bounds.addRow (b : Bounds) (r : Row) : Bounds where
  low := (r.whole? .low).getD b.low
  high := (r.whole? .high).getD b.high
  bounded := b.bounded || (r.whole? .low).isSome

section Lines

variable {r : Row} (h : r.tags.IsChain Tag.Before) (b : Bounds)
include h

theorem addLow_line : b.addLow r.line =
    match r.whole? .low with
    | some v => (if IsShort v then .ok v else
        .error (.longInteger (Sv.digitsOf v.natAbs).length) : Outcome Int).map fun low =>
          { b with low, bounded := true }
    | none => .ok b := by
  have htext : elementText? "MinValue" r.line = _ := elementText?_line h .low
  rw [Bounds.addLow, htext]
  cases r.whole? .low with
  | none => rfl
  | some v => simp only [Option.map_some, integer_intChars]

theorem addHigh_line : b.addHigh r.line =
    match r.whole? .high with
    | some v => (if IsShort v then .ok v else
        .error (.longInteger (Sv.digitsOf v.natAbs).length) : Outcome Int).map fun high =>
          { b with high }
    | none => .ok b := by
  have htext : elementText? "MaxValue" r.line = _ := elementText?_line h .high
  rw [Bounds.addHigh, htext]
  cases r.whole? .high with
  | none => rfl
  | some v => simp only [Option.map_some, integer_intChars]

theorem addLine_line (hshort : ∀ side, ∀ v ∈ r.whole? side, IsShort v) :
    b.addLine r.line = .ok (b.addRow r) := by
  have hlow := hshort .low
  have hhigh := hshort .high
  rw [Bounds.addLine, addLow_line h]
  cases hl : r.whole? .low <;> cases hh : r.whole? .high <;>
    simp_all [addHigh_line h, Bounds.addRow, bind, Except.bind, Except.map]

theorem isShort_of_addLine {c : Bounds} (hok : b.addLine r.line = .ok c) :
    ∀ side, ∀ v ∈ r.whole? side, IsShort v := by
  have hstep : b.addLine r.line = (b.addLow r.line).bind fun a => a.addHigh r.line := rfl
  cases hlow : b.addLow r.line with
  | error e => simp [hstep, hlow, Except.bind] at hok
  | ok a =>
    have hhigh : a.addHigh r.line = .ok c := by simpa [hstep, hlow, Except.bind] using hok
    intro side v hv
    by_contra hlong
    cases side with
    | low => rw [addLow_line h, hv] at hlow; simp [hlong, Except.map] at hlow
    | high => rw [addHigh_line h, hv] at hhigh; simp [hlong, Except.map] at hhigh

end Lines

theorem valuesOf_cons (side : Side) (r : Row) (block : List Row) :
    valuesOf side (r :: block) = (r.whole? side).toList ++ valuesOf side block := by
  rw [valuesOf, filterMap_cons]
  cases r.whole? side <;> rfl

theorem readable_cons {r : Row} :
    Readable (r :: block) ↔ (∀ side, ∀ v ∈ r.whole? side, IsShort v) ∧ Readable block := by
  simp [Readable, valuesOf_cons, or_imp, forall_and]

theorem foldlM_addLine (h : Ordered block) (hread : Readable block) (b : Bounds) :
    (block.map Row.line).foldlM Bounds.addLine b = .ok (block.foldl Bounds.addRow b) := by
  induction block generalizing b with
  | nil => rfl
  | cons r block ih =>
    obtain ⟨hr, hblock⟩ := forall_mem_cons.1 h
    obtain ⟨hshort, hrest⟩ := readable_cons.1 hread
    rw [map_cons, foldlM_cons, addLine_line hr b hshort]
    exact ih hblock hrest _

theorem foldl_addRow (block : List Row) (b : Bounds) :
    block.foldl Bounds.addRow b =
      { low := (valuesOf .low block).getLastD b.low
        high := (valuesOf .high block).getLastD b.high
        bounded := b.bounded || !(valuesOf .low block).isEmpty } := by
  induction block generalizing b with
  | nil => simp [valuesOf]
  | cons r block ih =>
    rw [foldl_cons, ih, valuesOf_cons, valuesOf_cons, Bounds.addRow]
    cases r.whole? .low <;> cases r.whole? .high <;>
      simp [getLastD_cons, -getLastD_eq_getLast?]

theorem rangeOf_rows (h : Ordered block) (hread : Readable block) :
    rangeOf (block.map Row.line) = .ok (boundsOf block) := by
  rw [rangeOf, foldlM_addLine h hread, foldl_addRow]
  simp [boundsOf]

theorem readable_of_rangeOf (h : Ordered block) {c : Bounds}
    (hok : rangeOf (block.map Row.line) = .ok c) : Readable block := by
  rw [rangeOf] at hok
  generalize ({} : Bounds) = b at hok
  induction block generalizing b with
  | nil => simp [Readable, valuesOf]
  | cons r block ih =>
    obtain ⟨hr, hblock⟩ := forall_mem_cons.1 h
    rw [map_cons, foldlM_cons] at hok
    cases hline : b.addLine r.line with
    | error e => rw [hline] at hok; cases hok
    | ok a =>
      rw [hline] at hok
      exact readable_cons.2 ⟨isShort_of_addLine hr b hline, ih hblock a hok⟩

theorem testConstraints_rows (block : List Row) : testConstraints (block.map Row.line) = [] := by
  induction block with
  | nil => rw [map_nil, testConstraints]
  | cons r block ih =>
    have hnone : contains "<TestConstraint>" r.line = false := contains_stranger (by decide) r
    rw [map_cons, testConstraints, if_neg (by simp [hnone]), ih]

end Stimulus.Register
