import Stimulus.Proofs.Stmt.Pieces

/-!
# What closes a delimiter

The closing delimiter and the closing `end` are found in the same way, by counting what is open. For
delimiters the items that are counted are the characters of a text, and for blocks they are what the
splitter reads at once (`Readings`): a word of a block, or else a character.

* `Closes`: the item that closes what is open, or none.
* `Readings.splitFrom_eq`: the splitter sees a text only through its readings.
* `closers_found`: what the two searches find in a text, and when they find nothing.
-/

open List

namespace Stimulus.Stmt

open Text

/-! ## Counting what is open -/

section Count

variable {α : Type} [BEq α] {o c t : α} {depth depth' : Nat} {ts : List α} {found : Option Nat}

/-- If `depth` are open before, `found` is the first item up to which as many are closed as are opened, and
it closes one. Before it, or everywhere if there is no such item, more are opened. -/
structure Closes (o c : α) (depth : Nat) (ts : List α) (found : Option Nat) : Prop where
  opened : ∀ i, (∀ k ∈ found, i < k) → (ts.take (i + 1)).count c < depth + (ts.take (i + 1)).count o
  closed : ∀ k ∈ found, ts[k]? = some c ∧ (ts.take (k + 1)).count c = depth + (ts.take (k + 1)).count o

theorem closes_nil (h : 0 < depth) : Closes o c depth [] none := ⟨by simpa using h, by simp⟩

theorem closes_head [LawfulBEq α] (hoc : o ≠ c) : Closes o c 1 (c :: ts) (some 0) := ⟨by simp, by simp [hoc.symm]⟩

/-- Unless the first item is the one, the search goes on behind it with another depth. -/
theorem Closes.cons (h : Closes o c depth' ts found) (hpos : 0 < depth')
    (ht : depth' + [t].count c = depth + [t].count o) :
    Closes o c depth (t :: ts) (found.map (· + 1)) := by
  have hsum (i : Nat) (a : α) : ((t :: ts).take (i + 1)).count a = [t].count a + (ts.take i).count a := by
    rw [take_succ_cons, ← count_append, singleton_append]
  constructor
  · intro i hi
    rw [hsum, hsum]
    cases i with
    | zero =>
      rw [take_zero, count_nil, count_nil]
      omega
    | succ i =>
      have hlt (k : Nat) (hk : k ∈ found) : i < k := by
        have := hi (k + 1) (Option.mem_map_of_mem _ hk)
        omega
      have := h.opened i hlt
      omega
  · rintro _ hmem
    obtain ⟨k, hk, rfl⟩ := Option.map_eq_some_iff.1 hmem
    obtain ⟨hget, hlevel⟩ := h.closed k hk
    refine ⟨hget, ?_⟩
    rw [hsum, hsum]
    omega

end Count

/-! ## Delimiters -/

section Delimiter

variable {o c : Char}

theorem exists_closes_closing? (hoc : o ≠ c) (depth : Nat) (inner cs : List Char) :
    ∃ found, Closes o c (depth + 1) cs found ∧
      (closing? o c depth inner cs).map (fun r => r.1.length) = found.map (inner.length + ·) := by
  have hstep {d : Char} {cs : List Char} {depth depth' : Nat} {inner : List Char}
      (ht : depth' + 1 + [d].count c = depth + 1 + [d].count o)
      (ih : ∃ found, Closes o c (depth' + 1) cs found ∧
        (closing? o c depth' (d :: inner) cs).map (fun r => r.1.length) =
          found.map ((d :: inner).length + ·)) :
      ∃ found, Closes o c (depth + 1) (d :: cs) found ∧
        (closing? o c depth' (d :: inner) cs).map (fun r => r.1.length) =
          found.map (inner.length + ·) := by
    obtain ⟨found, hfound, heq⟩ := ih
    refine ⟨_, hfound.cons (Nat.succ_pos _) ht, heq.trans ?_⟩
    simp [Function.comp_def, Nat.add_right_comm, Nat.add_assoc]
  fun_induction closing? o c depth inner cs with
  | case1 depth inner => exact ⟨none, closes_nil (Nat.succ_pos _), rfl⟩
  | case2 depth inner cs ih => exact hstep (by simp [hoc]) ih
  | case3 inner cs => exact ⟨some 0, closes_head hoc, by simp⟩
  | case4 inner cs _ depth ih => exact hstep (by simp [hoc.symm]) ih
  | case5 depth inner d cs ho hc ih => exact hstep (by simp [ho, hc]) ih

/-- The search for what closes the delimiter at `start`. -/
structure FindsCloser (o c : Char) (text : List Char) (start : Nat) : Prop where
  absent : text[start]? ≠ some o → closingIndex? o c text start = none
  present : text[start]? = some o → ∃ found, Closes o c 0 (text.drop start) found ∧
    closingIndex? o c text start = found.map (start + ·)

theorem findsCloser (hoc : o ≠ c) (text : List Char) (start : Nat) : FindsCloser o c text start where
  absent h := by
    unfold closingIndex?
    split
    · rfl
    · next x cs hdrop =>
      rw [if_neg]
      rintro rfl
      refine h ?_
      rw [← head?_drop, hdrop]
      rfl
  present h := by
    obtain ⟨hlt, rfl⟩ := List.getElem?_eq_some_iff.1 h
    obtain ⟨found, hfound, heq⟩ := exists_closes_closing? hoc 0 [] (text.drop (start + 1))
    rw [closingIndex?, drop_eq_getElem_cons hlt]
    refine ⟨_, hfound.cons Nat.one_pos (by simp [hoc]), ?_⟩
    have hmap := congrArg (Option.map (start + 1 + ·)) heq
    simpa [Function.comp_def, Nat.add_right_comm, Nat.add_assoc] using hmap

end Delimiter

/-! ## What the splitter reads -/

def beginWord : List Char := ['b', 'e', 'g', 'i', 'n']

def endWord : List Char := ['e', 'n', 'd']

/-- What the splitter reads of a text, one after the other; `prev` is the character before. -/
inductive Readings : Option Char → List Char → List (List Char) → Prop
  | nil {prev} : Readings prev [] []
  | cons {prev t after ts} (h : Scans prev t after) (hs : Readings t.getLast? after ts) :
      Readings prev (t ++ after) (t :: ts)

variable {prev : Option Char} {t after cs : List Char} {ts : List (List Char)}

theorem exists_readings (prev : Option Char) (cs : List Char) : ∃ ts, Readings prev cs ts := by
  induction hlen : cs.length using Nat.strongRecOn generalizing prev cs with
  | ind n ih =>
    cases cs with
    | nil => exact ⟨[], .nil⟩
    | cons c cs =>
      obtain ⟨t, after, heq, hscan⟩ := exists_scans prev c cs
      have hshort : after.length < n := by
        have hpos := length_pos_iff.2 hscan.ne_nil
        rw [← hlen, heq, length_append]
        omega
      obtain ⟨ts, hts⟩ := ih _ hshort t.getLast? after rfl
      exact ⟨t :: ts, heq ▸ .cons hscan hts⟩

theorem Readings.flatten (h : Readings prev cs ts) : ts.flatten = cs := by
  induction h with
  | nil => rfl
  | cons _ _ ih => rw [flatten_cons, ih]

/-- What is read behind a reading. -/
theorem Readings.behind {before : List (List Char)} (h : Readings prev cs (before ++ t :: ts)) :
    Readings t.getLast? ts.flatten ts := by
  induction before generalizing prev cs with
  | nil =>
    cases h with
    | cons _ hs => rwa [hs.flatten]
  | cons w before ih =>
    cases h with
    | cons _ hs => exact ih hs

/-- Puts readings together to statements; `current` is the statement under way, last character first. -/
def gather (d : Depths) (current : List Char) : List (List Char) → List String
  | [] => finish current []
  | t :: ts =>
    if cutsAfter (d.read t) t ts.flatten then
      finish (t.reverse ++ current) (gather (d.read t) [] ts)
    else gather (d.read t) (t.reverse ++ current) ts

/-- The splitter sees a text only through its readings: the words among them, and nothing else, change how
many blocks are open. -/
theorem Readings.splitFrom_eq (h : Readings prev cs ts) (d : Depths) (current : List Char) :
    splitFrom d current prev cs = gather d current ts := by
  induction h generalizing d current with
  | nil => rw [splitFrom, gather]
  | cons h hs ih => rw [gather, splitFrom_scans h, hs.flatten, ih, ih]

/-! ## Blocks -/

/-- What one reading does in the search for an `end`. -/
theorem blockEnd?_scans (h : Scans prev t after) (depth : Nat) (inner : List Char) :
    blockEnd? depth inner prev (t ++ after) =
      if t = beginWord then blockEnd? (depth + 1) (t.reverse ++ inner) t.getLast? after
      else if t = endWord then
        match depth with
        | 0 => some (inner.reverse, after)
        | depth + 1 => blockEnd? depth (t.reverse ++ inner) t.getLast? after
      else blockEnd? depth (t.reverse ++ inner) t.getLast? after := by
  -- No word begins inside a word, so its other characters are passed one by one.
  have hpass {x : Char} (hx : isAlphanumeric x = true) (depth : Nat) (inner : List Char) (y : Char)
      (cs : List Char) :
      blockEnd? depth inner (some x) (y :: cs) = blockEnd? depth (y :: inner) (some y) cs := by
    rw [blockEnd?]
    simp [wordAt?, hx]
  cases h with
  | word hkw h =>
    simp only [blockWords, mem_cons, not_mem_nil, or_false] at hkw
    rcases hkw with rfl | rfl
    · have hbegin : (wordAt? "begin".toList prev ('b' :: (['e', 'g', 'i', 'n'] ++ after))).isSome = true :=
        Option.isSome_of_eq_some h
      rw [if_pos (show ['b', 'e', 'g', 'i', 'n'] = beginWord from rfl), cons_append, blockEnd?, if_pos hbegin]
      simp only [cons_append, nil_append]
      rw [hpass (by decide), hpass (by decide), hpass (by decide), hpass (by decide)]
      rfl
    · have hbegin : wordAt? "begin".toList prev ('e' :: (['n', 'd'] ++ after)) = none := by
        simp [wordAt?, dropStart?]
      have hend : wordAt? "end".toList prev ('e' :: (['n', 'd'] ++ after)) = some after := h
      rw [if_neg (by decide), if_pos (show ['e', 'n', 'd'] = endWord from rfl), cons_append, blockEnd?,
        if_neg (Option.not_isSome_iff_eq_none.2 hbegin), hend]
      cases depth with
      | zero => rfl
      | succ depth =>
        simp only [cons_append, nil_append]
        rw [hpass (by decide), hpass (by decide)]
        rfl
  | @char c _ h =>
    have hbegin : wordAt? "begin".toList prev (c :: after) = none := h _ (by decide)
    have hend : wordAt? "end".toList prev (c :: after) = none := h _ (by decide)
    rw [singleton_append, blockEnd?, if_neg (Option.not_isSome_iff_eq_none.2 hbegin), hend,
      if_neg (by simp [beginWord]), if_neg (by simp [endWord])]
    rfl

theorem Readings.exists_closes (h : Readings prev cs ts) (depth : Nat) (inner : List Char) :
    ∃ found, Closes beginWord endWord (depth + 1) ts found ∧
      (blockEnd? depth inner prev cs).map (fun r => r.1.length) =
        found.map fun k => inner.length + (ts.take k).flatten.length := by
  have hoc : beginWord ≠ endWord := by decide
  induction h generalizing depth inner with
  | nil => exact ⟨none, closes_nil (Nat.succ_pos _), rfl⟩
  | @cons prev t after ts h hs ih =>
    have hstep {depth' : Nat}
        (ht : depth' + 1 + [t].count endWord = depth + 1 + [t].count beginWord) :
        ∃ found, Closes beginWord endWord (depth + 1) (t :: ts) found ∧
          (blockEnd? depth' (t.reverse ++ inner) t.getLast? after).map (fun r => r.1.length) =
            found.map fun k => inner.length + ((t :: ts).take k).flatten.length := by
      obtain ⟨found, hfound, heq⟩ := ih depth' (t.reverse ++ inner)
      refine ⟨_, hfound.cons (Nat.succ_pos _) ht, heq.trans ?_⟩
      simp [Function.comp_def, Nat.add_left_comm, Nat.add_assoc]
    rw [blockEnd?_scans h]
    by_cases hb : t = beginWord
    · rw [if_pos hb]
      exact hstep (by simp [hb, hoc])
    rw [if_neg hb]
    by_cases he : t = endWord
    · rw [if_pos he]
      cases depth with
      | zero => exact ⟨some 0, he.symm ▸ closes_head hoc, by simp⟩
      | succ depth => exact hstep (by simp [he, hoc.symm])
    · rw [if_neg he]
      exact hstep (by simp [hb, he])

/-- The search for the `end` of the block that begins at `start` finds the last letter of an `end`; `ts` are
the readings from that `begin` on. -/
def FindsEnd (text : List Char) (start : Nat) (ts : List (List Char)) : Prop :=
  ∃ found, Closes beginWord endWord 0 ts found ∧
    blockEndIndex? text start = found.map fun k => start + (ts.take (k + 1)).flatten.length - 1

theorem Readings.findsEnd {text : List Char} {before : List (List Char)}
    (h : Readings none text (before ++ beginWord :: ts)) :
    FindsEnd text before.flatten.length (beginWord :: ts) := by
  obtain ⟨found, hfound, heq⟩ := h.behind.exists_closes 0 []
  have htext : text = before.flatten ++ (beginWord ++ ts.flatten) := by
    rw [← h.flatten, flatten_append, flatten_cons]
  have hlast : text[before.flatten.length + 4]? = beginWord.getLast? := by
    rw [htext, getElem?_append_right (Nat.le_add_right _ _), Nat.add_sub_cancel_left]
    rfl
  have hdrop : text.drop (before.flatten.length + 5) = ts.flatten := by
    rw [htext, ← drop_drop, drop_left]
    rfl
  refine ⟨_, hfound.cons Nat.one_pos (by decide), ?_⟩
  rw [blockEndIndex?, hdrop, hlast]
  cases found with
  | none => simpa using heq
  | some k =>
    obtain ⟨⟨inner, rest⟩, hr, hinner⟩ := Option.map_eq_some_iff.1 heq
    have hlength : inner.length = (ts.take k).flatten.length := hinner.trans (Nat.zero_add _)
    have htake : ts.take (k + 1) = ts.take k ++ [endWord] := by
      rw [take_add_one, (hfound.closed k rfl).1]
      rfl
    simp only [hr, Option.map_some, take_succ_cons, htake, flatten_cons, flatten_append, length_append,
      hlength, flatten_nil, length_nil, show beginWord.length = 5 from rfl, show endWord.length = 3 from rfl]
    congr 1
    omega

/-- The searches find what closes a parenthesis, a brace and a block. For blocks the words that count are
those that the splitter reads as words. -/
theorem closers_found (text : List Char) (start : Nat) :
    FindsCloser '(' ')' text start ∧ FindsCloser '{' '}' text start ∧
    (∃ readings, Readings none text readings) ∧ ∀ readings, Readings none text readings →
      split (String.ofList text) = gather {} [] readings ∧
      ∀ before ts, readings = before ++ beginWord :: ts → before.flatten.length = start →
        FindsEnd text start (beginWord :: ts) := by
  refine ⟨findsCloser (by decide) text start, findsCloser (by decide) text start,
    exists_readings none text, fun readings h => ⟨?_, ?_⟩⟩
  · rw [split, String.toList_ofList, h.splitFrom_eq]
  · rintro before ts rfl rfl
    exact h.findsEnd

example : blockEndIndex? "a; begin begin2 bend begin end; ending end".toList 3 = some 41 := by
  decide +kernel

end Stimulus.Stmt
