import Mathlib.Data.List.Nodup
import Stimulus.Env.Basic
import Stimulus.Proofs.Named
import Stimulus.Proofs.Pattern.Walk
import Stimulus.Proofs.Sv.Lexeme

/-!
# Updating settings

Reading an updated settings file gives the new values, and the old ones of all other names.

* `given`: the values that a text gives to a name. The text is cut at every line end; it does not matter
  whether two characters together end one line or two.
* `Sheet.given_append`: the values that the lines of a text give, and a text behind them.
* `given_addLine`: the values after a line is added.
-/

open List
open String (ofList toList_ofList)

namespace Stimulus.Env

open Text

variable {b u v w z : List Char} {c : Char} {k name value : String} {new : Settings} {ls : List String}

/-! ## Settings -/

/-- The value that a line gives to a name. -/
def sets (k l : String) : Option String :=
  (assignment? l).bind fun p => if p.1 = k then some p.2 else none

/-- The last line that sets a name counts. -/
theorem get?_read (lines : List String) (k : String) :
    (read lines).get? k = (lines.filterMap (sets k)).getLast? := by
  induction lines using reverseRecOn with
  | nil => rfl
  | append_singleton ls l ih =>
    have hset (p : String × String) :
        ((read ls).set p.1 p.2).get? k = if k = p.1 then some p.2 else (read ls).get? k :=
      Named.lookup_assign (read ls) p.1 p.2 k
    rw [read, foldl_append, filterMap_append, getLast?_append, ← ih]
    cases hl : assignment? l with
    | none => simp [sets, hl, read]
    | some p =>
      have := hset p
      by_cases hk : k = p.1
      · simp_all [sets, read]
      · simp_all [sets, read, Ne.symm hk]

/-! ## Assignments -/

/-- A name that a line can set. -/
structure IsName (name : String) : Prop where
  start : name.toList.head?.any isNameStart = true
  chars : ∀ c ∈ name.toList, isNameChar c = true

theorem isBlank_of_isLineEnd (h : isLineEnd c = true) : isBlank c = true := by
  have hends : ∀ n ∈ [10, 11, 12, 13, 28, 29, 30, 0x85, 0x2028, 0x2029], isBlank (Char.ofNat n) = true := by
    decide +kernel
  rw [← Char.ofNat_toNat c]
  apply hends
  simp only [isLineEnd, Bool.or_eq_true, Bool.and_eq_true, decide_eq_true_eq, beq_iff_eq] at h
  simp only [mem_cons, not_mem_nil, or_false]
  omega

theorem strip_blanks {a : List Char} (ha : Blank a) (hb : Blank b) :
    strip (ofList (a ++ w ++ b)) = strip (ofList w) := by
  obtain ⟨a', b', hw, ha', hb'⟩ := exists_dropEnds isBlank w
  have houter : a ++ w ++ b = (a ++ a') ++ dropEnds isBlank w ++ (b' ++ b) := by
    conv_lhs => rw [hw]
    simp
  rw [houter, strip_append (forall_mem_append.2 ⟨ha, ha'⟩) (trim_dropEnds w)
    (forall_mem_append.2 ⟨hb', hb⟩), strip, toList_ofList]

theorem assignment?_append_blank (hb : Blank b) :
    assignment? (ofList (w ++ b)) = assignment? (ofList w) := by
  have hblank (x : List Char) : (x ++ b).dropWhile isBlank =
      if x.dropWhile isBlank = [] then [] else x.dropWhile isBlank ++ b := by
    simp [dropWhile_append, dropWhile_eq_nil_iff.2 hb]
  have hname (x : List Char) : (x ++ b).takeWhile isNameChar = x.takeWhile isNameChar ∧
      (x ++ b).dropWhile isNameChar = x.dropWhile isNameChar ++ b := by
    induction x with
    | nil =>
      cases b with
      | nil => simp
      | cons c b =>
        have hc : isNameChar c = false := Sv.nameTail_of_isBlank (hb c mem_cons_self)
        simp [hc]
    | cons d x ih => by_cases hd : isNameChar d = true <;> simp [hd, ih]
  simp only [assignment?, toList_ofList, hblank]
  by_cases hw : w.dropWhile isBlank = []
  · simp [hw]
  · rw [if_neg hw, (hname _).1, (hname _).2, hblank]
    cases ((w.dropWhile isBlank).dropWhile isNameChar).dropWhile isBlank with
    | nil => rfl
    | cons c value =>
      have hstrip : strip (ofList (value ++ b)) = strip (ofList value) :=
        strip_blanks (a := []) (by simp [Blank]) hb
      by_cases hc : c = '=' <;> simp [hc, hstrip, -String.ofList_append]

theorem toList_line (name value : String) :
    (line name value).toList = name.toList ++ ([' ', '=', ' '] ++ value.toList ++ ['\n']) := by
  simp only [line, String.toList_append, append_assoc]
  rfl

theorem assignment?_line (h : IsName name) : assignment? (line name value) = some (name, strip value) := by
  have hne : name.toList ≠ [] := by
    intro hnil
    simpa [hnil] using h.start
  obtain ⟨c, cs, hname⟩ := exists_cons_of_ne_nil hne
  have hstart : (line name value).toList.dropWhile isBlank = (line name value).toList := by
    apply dropWhile_of_head
    rw [toList_line, hname]
    simpa using Sv.isBlank_of_nameTail (h.chars c (by simp [hname]))
  obtain ⟨htake, hdrop⟩ := Pattern.takeWhile_append_stop
    (z := [' ', '=', ' '] ++ value.toList ++ ['\n']) h.chars (by simp; decide)
  have hvalue : strip (ofList ([' '] ++ value.toList ++ ['\n'])) = strip value := by
    rw [strip_blanks (by decide) (by decide), String.ofList_toList]
  rw [← toList_line] at htake hdrop
  have hequals : ([' ', '=', ' '] ++ value.toList ++ ['\n']).dropWhile isBlank =
      '=' :: ([' '] ++ value.toList ++ ['\n']) := by
    simp [show isBlank ' ' = true by decide, show isBlank '=' = false by decide]
  simp only [assignment?, hstart, htake, hdrop, hequals, hvalue, h.start, if_true, String.ofList_toList]

theorem sets_line (h : IsName name) : sets k (line name value) = if name = k then some (strip value) else none := by
  rw [sets, assignment?_line h]
  rfl

/-! ## Texts -/

/-- The values that a text gives to a name, cut at every line end. -/
def given (k : String) (cs : List Char) : List String :=
  (cs.splitOnP isLineEnd).filterMap fun l => sets k (ofList l)

theorem given_append_cons (hc : isLineEnd c = true) : given k (u ++ c :: v) = given k u ++ given k v := by
  rw [given, splitOnP_append_cons _ _ hc, filterMap_append]
  rfl

theorem given_of_free (h : ∀ c ∈ u, isLineEnd c = false) : given k u = (sets k (ofList u)).toList := by
  rw [given, splitOnP_eq_singleton h]
  cases h : sets k (ofList u) <;> simp [h]

theorem given_blank_append (hb : Blank b) : given k (b ++ u) = given k u := by
  induction b with
  | nil => rfl
  | cons c b ih =>
    obtain ⟨hc, hb⟩ := forall_mem_cons.1 hb
    rw [cons_append, ← ih hb]
    by_cases hend : isLineEnd c = true
    · exact given_append_cons (u := []) hend
    · have hl (l : List Char) : sets k (ofList (c :: l)) = sets k (ofList l) := by
        simp [sets, assignment?, hc]
      rw [given, splitOnP_cons_eq_if_modifyHead, if_neg hend, given]
      cases (b ++ u).splitOnP isLineEnd with
      | nil => rfl
      | cons l ls => rw [modifyHead_cons, filterMap_cons, filterMap_cons, hl]

theorem given_nil : given k [] = [] := by simp [given_of_free, sets, assignment?]

theorem given_blank (hb : Blank b) : given k b = [] := by
  rw [← append_nil b, given_blank_append hb, given_nil]

/-- A line with its end, which may be one character or more. -/
def Ends (l : String) : Prop :=
  ∃ u c v, (∀ d ∈ u, isLineEnd d = false) ∧ (∀ d ∈ c :: v, isLineEnd d = true) ∧ l = ofList (u ++ c :: v)

theorem Ends.given_append {l : String} (h : Ends l) :
    given k (l.toList ++ z) = (sets k l).toList ++ given k z := by
  obtain ⟨u, c, v, hu, hv, rfl⟩ := h
  have hblank : Blank (c :: v) := fun d hd => isBlank_of_isLineEnd (hv d hd)
  rw [sets, assignment?_append_blank hblank, ← sets, ← given_of_free hu, toList_ofList, append_assoc,
    cons_append, given_append_cons (hv c mem_cons_self), given_blank_append (forall_mem_cons.1 hblank).2]

/-- The lines that a text is cut into: all but the last are ended. -/
inductive Sheet : List String → Prop
  | nil : Sheet []
  | last {l : String} (h : ∀ c ∈ l.toList, isLineEnd c = false) : Sheet [l]
  | cons {l : String} {ls : List String} (h : Ends l) (hs : Sheet ls) : Sheet (l :: ls)

/-- A text behind the lines counts by itself if the last line is blank. -/
theorem Sheet.given_append (h : Sheet ls) (hz : z = [] ∨ ls.getLast?.any hasInk = false) :
    given k (ls.flatMap String.toList ++ z) = ls.filterMap (sets k) ++ given k z := by
  induction h with
  | nil => rfl
  | @last l hl =>
    have hsets : given k l.toList = (sets k l).toList := by rw [given_of_free hl, String.ofList_toList]
    have hline : [l].filterMap (sets k) = given k l.toList := by
      rw [hsets]
      cases h : sets k l <;> simp [h]
    rw [hline, flatMap_singleton]
    rcases hz with rfl | hz
    · rw [given_nil, append_nil, append_nil]
    · have hblank : Blank l.toList := by simpa [hasInk, Blank] using hz
      rw [given_blank_append hblank, given_blank hblank, nil_append]
  | @cons l ls hl hs ih =>
    have hrest : z = [] ∨ ls.getLast?.any hasInk = false := by
      cases ls with
      | nil => exact .inr rfl
      | cons m ls => exact hz
    rw [flatMap_cons, append_assoc, hl.given_append, ih hrest, ← append_assoc]
    cases h : sets k l <;> simp [h]

theorem sheet_linesAux {line cs : List Char} (hline : ∀ c ∈ line, isLineEnd c = false) :
    Sheet ((linesAux line cs).map fun p => p.1 ++ p.2) ∧
      ((linesAux line cs).map fun p => p.1 ++ p.2).flatMap String.toList = line.reverse ++ cs := by
  fun_induction linesAux line cs with
  | case1 line h => exact ⟨.nil, by simpa using h.symm⟩
  | case2 line h => exact ⟨.last (by simpa using hline), by simp⟩
  | case3 line cs ih =>
    obtain ⟨hs, hcs⟩ := ih (by simp)
    refine ⟨.cons ⟨line.reverse, '\r', ['\n'], by simpa using hline, by decide, ?_⟩ hs, by simp [hcs]⟩
    rw [String.ofList_append]
  | case4 line c cs _ hc ih =>
    obtain ⟨hs, hcs⟩ := ih (by simp)
    refine ⟨.cons ⟨line.reverse, c, [], by simpa using hline, by simpa using hc, ?_⟩ hs, by simp [hcs]⟩
    rw [String.ofList_append]
    rfl
  | case5 line c cs _ hc ih =>
    obtain ⟨hs, hcs⟩ := ih (forall_mem_cons.2 ⟨by simpa using hc, hline⟩)
    exact ⟨hs, by simpa using hcs⟩

theorem sheet_linesKeepEnds (text : String) :
    Sheet (linesKeepEnds text) ∧ (linesKeepEnds text).flatMap String.toList = text.toList :=
  sheet_linesAux (by simp)

theorem filterMap_linesKeepEnds (text : String) :
    (linesKeepEnds text).filterMap (sets k) = given k text.toList := by
  obtain ⟨hs, htext⟩ := sheet_linesKeepEnds text
  have hgiven := hs.given_append (k := k) (.inl rfl)
  rw [append_nil, htext, given_nil, append_nil] at hgiven
  exact hgiven.symm

/-! ## Updates -/

/-- New values that stand on lines of their own, one for each name. -/
structure Fits (new : Settings) : Prop where
  names : ∀ p ∈ new, IsName p.1
  values : ∀ p ∈ new, ∀ c ∈ p.2.toList, isLineEnd c = false
  once : (new.map Prod.fst).Nodup

theorem Fits.ends_line (h : Fits new) {p : String × String} (hp : p ∈ new) : Ends (line p.1 p.2) := by
  have hname (c : Char) (hc : c ∈ p.1.toList) : isLineEnd c = false := by
    by_contra hend
    cases (Sv.isBlank_of_nameTail ((h.names p hp).chars c hc)).symm.trans
      (isBlank_of_isLineEnd (by simpa using hend))
  refine ⟨p.1.toList ++ ([' ', '=', ' '] ++ p.2.toList), '\n', [], ?_, by decide, ?_⟩
  · exact forall_mem_append.2 ⟨hname, forall_mem_append.2 ⟨by decide, h.values p hp⟩⟩
  · rw [← String.toList_inj, toList_line]
    simp

theorem updateLine_cases (new : Settings) (l : String) :
    updateLine new l = l ∨ ∃ p ∈ new, updateLine new l = line p.1 p.2 := by
  unfold updateLine
  split
  · split
    · next hget =>
      obtain ⟨_, _, rfl, -⟩ := lookup_eq_some_iff.1 hget
      exact .inr ⟨(_, _), by simp, rfl⟩
    · exact .inl rfl
  · exact .inl rfl

theorem Fits.sheet_updateLine (h : Fits new) (hs : Sheet ls) : Sheet (ls.map (updateLine new)) := by
  induction hs with
  | nil => exact .nil
  | @last l hl =>
    rcases updateLine_cases new l with heq | ⟨p, hp, heq⟩
    · exact .last (by rwa [heq])
    · exact .cons (heq ▸ h.ends_line hp) .nil
  | @cons l ls hl hs ih =>
    rcases updateLine_cases new l with heq | ⟨p, hp, heq⟩
    · exact .cons (by rwa [heq]) ih
    · exact .cons (heq ▸ h.ends_line hp) ih

/-- The value of a line after the update. -/
def newValue (new : Settings) (k old : String) : String := ((new.get? k).map strip).getD old

theorem Fits.sets_updateLine (h : Fits new) (l : String) :
    sets k (updateLine new l) = (sets k l).map (newValue new k) := by
  unfold updateLine
  split
  · next name old hl =>
    split
    · next value hget =>
      obtain ⟨_, _, hnew, -⟩ := lookup_eq_some_iff.1 hget
      rw [sets_line (h.names (name, value) (by simp [hnew]))]
      by_cases hk : name = k
      · subst hk
        simp [sets, hl, newValue, hget]
      · simp [sets, hl, hk]
    · next hget =>
      by_cases hk : name = k
      · subst hk
        simp [sets, hl, newValue, hget]
      · simp [sets, hl, hk]
  · next hl => simp [sets, hl]

/-- The values after a line is added. A last line that is not blank is ended first. -/
theorem given_addLine (h : ls.getLast?.any hasInk = false →
      ∀ z, given k (ls.flatMap String.toList ++ z) = given k (ls.flatMap String.toList) ++ given k z)
    (hl : Ends (line name value)) :
    given k ((addLine ls name value).flatMap String.toList) =
      given k (ls.flatMap String.toList) ++ (sets k (line name value)).toList := by
  have hline : given k (line name value).toList = (sets k (line name value)).toList := by
    rw [← append_nil (line _ _).toList, hl.given_append, given_nil, append_nil]
  rw [addLine, flatMap_append, flatMap_append, flatMap_singleton, ← hline]
  cases hlast : ls.getLast?.any hasInk with
  | true =>
    rw [if_pos rfl, flatMap_singleton, append_assoc]
    exact given_append_cons (by decide)
  | false => simpa using h hlast _

theorem given_foldl_addLine {add : Settings} (h : ls.getLast?.any hasInk = false →
      ∀ z, given k (ls.flatMap String.toList ++ z) = given k (ls.flatMap String.toList) ++ given k z)
    (hadd : ∀ p ∈ add, Ends (line p.1 p.2)) :
    given k ((add.foldl (fun ls p => addLine ls p.1 p.2) ls).flatMap String.toList) =
      given k (ls.flatMap String.toList) ++ add.filterMap fun p => sets k (line p.1 p.2) := by
  induction add generalizing ls with
  | nil => simp
  | cons p add ih =>
    obtain ⟨hp, hadd⟩ := forall_mem_cons.1 hadd
    have hink : (addLine ls p.1 p.2).getLast?.any hasInk = true := by
      have heq : '=' ∈ (line p.1 p.2).toList := by simp [toList_line]
      have : hasInk (line p.1 p.2) = true := any_eq_true.2 ⟨'=', heq, by decide⟩
      simpa [addLine] using this
    rw [foldl_cons, ih (fun hlast => by rw [hink] at hlast; cases hlast) hadd, given_addLine h hp,
      append_assoc]
    cases hs : sets k (line p.1 p.2) <;> simp [hs]

theorem toList_join_empty (ls : List String) : (join "" ls).toList = ls.flatMap String.toList := by
  cases ls with
  | nil => rfl
  | cons l ls =>
    rw [join, String.toList_intercalate, map_cons, intercalate_cons, flatMap_cons, flatMap_map]
    rfl

/-- The new values that no line holds. -/
def missing (ls : List String) (new : Settings) : Settings :=
  new.filter fun p => !((ls.filterMap assignment?).map Prod.fst).contains p.1

theorem Fits.given_update (h : Fits new) (hs : Sheet ls) :
    given k ((update ls new).flatMap String.toList) = (ls.filterMap (sets k)).map (newValue new k) ++
      (missing ls new).filterMap fun p => sets k (line p.1 p.2) := by
  have hsheet := h.sheet_updateLine hs
  have hself := hsheet.given_append (k := k) (.inl rfl)
  rw [append_nil, given_nil, append_nil] at hself
  have hkept : (ls.map (updateLine new)).filterMap (sets k) =
      (ls.filterMap (sets k)).map (newValue new k) := by
    rw [filterMap_map, map_filterMap]
    exact filterMap_congr fun l _ => h.sets_updateLine l
  rw [← hkept, ← hself]
  refine given_foldl_addLine (fun hlast z => ?_) fun p hp => h.ends_line (mem_filter.1 hp).1
  rw [hself]
  exact hsheet.given_append (.inr hlast)

theorem Fits.getLast?_update (h : Fits new) (ls : List String) :
    ((ls.filterMap (sets k)).map (newValue new k) ++
        (missing ls new).filterMap fun p => sets k (line p.1 p.2)).getLast? =
      match new.get? k with
      | some value => some (strip value)
      | none => (ls.filterMap (sets k)).getLast? := by
  have hsets {p : String × String} (hp : p ∈ missing ls new) :
      sets k (line p.1 p.2) = if p.1 = k then some (strip p.2) else none :=
    sets_line (h.names p (mem_filter.1 hp).1)
  cases hget : new.get? k with
  | none =>
    have hold : newValue new k = id := funext fun old => by simp [newValue, hget]
    have hnone : (missing ls new).filterMap (fun p => sets k (line p.1 p.2)) = [] := by
      refine filterMap_eq_nil_iff.2 fun p hp => ?_
      rw [hsets hp, if_neg]
      rintro rfl
      simpa using lookup_eq_none_iff.1 hget p (mem_filter.1 hp).1
    simp [hold, hnone]
  | some value =>
    obtain ⟨_, _, hnew, -⟩ := lookup_eq_some_iff.1 hget
    have hmem : (k, value) ∈ new := by simp [hnew]
    -- All lines that set the name give it the new value, and there is one at least.
    generalize hxs : (ls.filterMap (sets k)).map (newValue new k) ++ _ = xs
    have hall (x : String) (hx : x ∈ xs) : x = strip value := by
      rcases mem_append.1 (hxs ▸ hx) with hx | hx
      · obtain ⟨old, -, rfl⟩ := mem_map.1 hx
        simp [newValue, hget]
      · obtain ⟨p, hp, hx⟩ := mem_filterMap.1 hx
        obtain ⟨hk, hx⟩ := Option.ite_none_right_eq_some.1 ((hsets hp).symm.trans hx)
        obtain rfl : p = (k, value) := inj_on_of_nodup_map h.once (mem_filter.1 hp).1 hmem hk
        exact (Option.some.inj hx).symm
    have hne : xs ≠ [] := by
      rintro rfl
      obtain ⟨hkept, hadded⟩ := append_eq_nil_iff.1 hxs
      have hunset : k ∉ (ls.filterMap assignment?).map Prod.fst := by
        intro hk
        obtain ⟨⟨_, old⟩, hp, rfl⟩ := mem_map.1 hk
        obtain ⟨l, hl, hassign⟩ := mem_filterMap.1 hp
        simpa [sets, hassign] using filterMap_eq_nil_iff.1 (map_eq_nil_iff.1 hkept) l hl
      have hmissing : (k, value) ∈ missing ls new := by simp [missing, hmem, hunset]
      have := (hsets hmissing).symm.trans (filterMap_eq_nil_iff.1 hadded _ hmissing)
      simp at this
    rw [getLast?_eq_getLast_of_ne_nil hne, hall _ (getLast_mem hne)]

/-- After an update, each new name has its new value without the blanks around it, and every other
name is as it was. -/
theorem get?_read_update (text : String) (new : Settings) (h : Fits new) (k : String) :
    (read (linesKeepEnds (join "" (update (linesKeepEnds text) new)))).get? k =
      match new.get? k with
      | some value => some (strip value)
      | none => (read (linesKeepEnds text)).get? k := by
  rw [get?_read, get?_read, filterMap_linesKeepEnds (join _ _), toList_join_empty,
    h.given_update (sheet_linesKeepEnds text).1, h.getLast?_update]

/-- A name that is set twice, a comment, and a blank last line without an end. -/
theorem get?_read_update_sample :
    let text := "a = 1\r\n# a = 5\n b= 2 \na =3\r  "
    let new : Settings := [("a", " 7 "), ("c", "x = y")]
    let after := read (linesKeepEnds (join "" (update (linesKeepEnds text) new)))
    Fits new ∧ after.get? "a" = some "7" ∧ after.get? "b" = some "2" ∧ after.get? "c" = some "x = y" ∧
      after.get? "d" = none := by
  intro text new after
  have hfits : Fits new := by
    refine ⟨?_, by decide, by decide⟩
    intro p hp
    rcases mem_pair.1 hp with rfl | rfl
    · exact ⟨by decide, by decide⟩
    · exact ⟨by decide, by decide⟩
  exact ⟨hfits, (get?_read_update text new hfits "a").trans (by decide +kernel),
    (get?_read_update text new hfits "b").trans (by decide +kernel),
    (get?_read_update text new hfits "c").trans (by decide +kernel),
    (get?_read_update text new hfits "d").trans (by decide +kernel)⟩

end Stimulus.Env
