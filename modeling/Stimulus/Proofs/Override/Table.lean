import Stimulus.Override.Table
import Stimulus.Proofs.Csv.Records
import Stimulus.Proofs.Run.Files
import Stimulus.Proofs.Text.Integer
import Stimulus.Proofs.Text.Lines

/-!
# Override tables as text

Reading a table leaves every entry in a form that reading does not change any further: names and
constraints have no blanks at their ends, constraints hold no semicolon, and the digits of the
bounds can be read again.
-/

open List hiding splitOn

namespace Stimulus

namespace Decimal

theorem Binary.lt_of_finite {x : Float} {negative : Bool} {m : Nat} {q : Int}
    (h : Binary.ofFloat x = .finite negative m q) : m < 2 ^ 53 ∧ q ≤ 971 := by
  have hfraction : x.toBits.toNat % pow2 52 < 2 ^ 52 := Nat.mod_lt _ (by decide)
  have hexponent : x.toBits.toNat / pow2 52 % pow2 11 < 2 ^ 11 := Nat.mod_lt _ (by decide)
  have h53 : (2 : Nat) ^ 53 = 2 ^ 52 + pow2 52 := by decide
  unfold Binary.ofFloat at h
  simp only at h
  split at h
  · split at h <;> cases h
  · split at h
    · cases h
      omega
    · cases h
      omega

private theorem mul_pow2_lt {m e : Nat} (hm : m < 2 ^ 53) (he : e ≤ 971) :
    m * pow2 e < 10 ^ Text.mostDigits := by
  have hdigits : 53 + e ≤ Text.mostDigits := by
    unfold Text.mostDigits
    omega
  calc m * pow2 e
    _ < 2 ^ 53 * pow2 e := Nat.mul_lt_mul_of_pos_right hm (Nat.pow_pos (by decide))
    _ = 2 ^ (53 + e) := (Nat.pow_add 2 53 e).symm
    _ ≤ 10 ^ (53 + e) := Nat.pow_le_pow_left (by decide) _
    _ ≤ 10 ^ Text.mostDigits := Nat.pow_le_pow_right (by decide) hdigits

theorem isShort_of_truncated {x : Float} {n : Int} (h : truncated x = .ok n) : Text.IsShort n := by
  rw [Text.isShort_iff]
  unfold truncated at h
  split at h
  · cases h
  · cases h
  · next negative m q hx =>
    obtain ⟨hm, hq⟩ := Binary.lt_of_finite hx
    have hsize (w : Int) (hw : w.natAbs < 10 ^ Text.mostDigits)
        (hn : (.ok (if negative then -w else w) : Outcome Int) = .ok n) :
        n.natAbs < 10 ^ Text.mostDigits := by
      obtain rfl := Except.ok.inj hn
      split
      · rwa [Int.natAbs_neg]
      · exact hw
    by_cases hpos : q ≥ 0
    · simp only [if_pos hpos] at h
      refine hsize _ ?_ h
      rw [Int.natAbs_mul, Int.natAbs_natCast, Int.natAbs_natCast]
      exact mul_pow2_lt hm (by omega)
    · simp only [if_neg hpos] at h
      refine hsize _ ?_ h
      rw [Int.natAbs_natCast]
      have hle : m / pow2 (-q).toNat ≤ m * pow2 0 := by simpa [pow2] using Nat.div_le_self _ _
      exact hle.trans_lt (mul_pow2_lt hm (by decide))

end Decimal

namespace Override

open Text

/-! ## Entries -/

/-- A text that a list of constraints may hold. -/
def IsPart (c : String) : Prop := Trim c.toList ∧ c ≠ "" ∧ ';' ∉ c.toList

/-- Reading does not change the entry any further. -/
structure Entry.IsSettled (e : Entry) : Prop where
  trim : Trim e.name.toList
  named : e.name ≠ ""
  normal : IsShort e.normal
  low : IsShort e.low
  high : IsShort e.high
  newLow : IsShort e.newLow
  newHigh : IsShort e.newHigh
  constraints : ∀ c ∈ e.constraints, IsPart c

namespace Table

variable {s c : String} {cs : List String} {e : Entry} {t : Table}

theorem isShort_of_integerOf {n : Int} (h : integerOf s = .ok n) : IsShort n := by
  unfold integerOf at h
  split at h
  · next m hm =>
    obtain rfl := Except.ok.inj h
    exact isShort_of_integer hm
  · cases hx : Decimal.read s with
    | error e => rw [hx] at h; cases h
    | ok x =>
      rw [hx] at h
      exact Decimal.isShort_of_truncated h

theorem integerOf_toString {n : Int} (h : IsShort n) : integerOf (toString n) = .ok n := by
  rw [integerOf, integer_toString h]

/-! ## Constraints between semicolons -/

theorem isPart_of_mem (h : c ∈ constraintsOf s) : IsPart c := by
  obtain ⟨hmem, hne⟩ := mem_filter.1 h
  obtain ⟨piece, hpiece, rfl⟩ := mem_map.1 hmem
  obtain ⟨w, hw, rfl⟩ := mem_map.1 hpiece
  refine ⟨trim_strip _, by simpa using hne, fun hc => ?_⟩
  have hin : ';' ∈ w := by simpa using (isInfix_strip (String.ofList w)).subset hc
  exact not_mem_of_mem_splitAux (by simp) hw hin

theorem strip_part {b b' : List Char} {c : String} (hb : Blank b) (hc : IsPart c) (hb' : Blank b') :
    strip (String.ofList (b ++ c.toList ++ b')) = c := by
  rw [strip_append hb hc.1 hb', String.ofList_toList]

theorem constraintsOf_ofList (w : List Char) : constraintsOf (String.ofList w) =
    (((splitAux [';'] [] w).map String.ofList).map strip).filter fun c => !c.isEmpty := by
  simp only [constraintsOf, splitOn, String.toList_ofList]
  rfl

theorem constraintsOf_parts {b : List Char} (hb : Blank b)
    (hsep : ';' ∉ b) (hc : IsPart c) (hcs : ∀ c ∈ cs, IsPart c) :
    constraintsOf (String.ofList (b ++ c.toList ++ cs.flatMap fun d => [' ', ';', ' '] ++ d.toList)) =
      c :: cs := by
  have hnot : ';' ∉ b ++ c.toList := by simpa using ⟨hsep, hc.2.2⟩
  have hkeep (c : String) (hc : IsPart c) (cs : List String) :
      (c :: cs).filter (fun c => !c.isEmpty) = c :: cs.filter fun c => !c.isEmpty :=
    filter_cons_of_pos (by simpa using hc.2.1)
  rw [constraintsOf_ofList]
  induction cs generalizing b c with
  | nil =>
    have hstrip : strip (String.ofList (b ++ c.toList)) = c := by
      simpa using @strip_part b [] c hb hc blank_nil
    rw [flatMap_nil, append_nil, splitAux_of_not_mem hnot, reverse_nil, nil_append,
      map_singleton, map_singleton, hstrip, hkeep c hc, filter_nil]
  | cons d cs ih =>
    obtain ⟨hd, hcs⟩ := forall_mem_cons.1 hcs
    have hsplit : splitAux [';'] [] (b ++ c.toList ++ (d :: cs).flatMap
          fun d => [' ', ';', ' '] ++ d.toList) =
        (b ++ c.toList ++ [' ']) :: splitAux [';'] [] ([' '] ++ d.toList ++ cs.flatMap
          fun d => [' ', ';', ' '] ++ d.toList) := by
      have hcut := @splitAux_append_cons ';' (b ++ c.toList ++ [' '])
        ([' '] ++ d.toList ++ cs.flatMap fun d => [' ', ';', ' '] ++ d.toList) []
        (by simpa using ⟨hsep, hc.2.2⟩)
      simpa using hcut
    rw [hsplit, map_cons, map_cons, strip_part hb hc (by decide),
      hkeep c hc, ih (by decide) (by decide) hd hcs (by simpa using hd.2.2)]

theorem trim_parts (hc : IsPart c) (hcs : ∀ c ∈ cs, IsPart c)
    (sep : List Char) : Trim (c.toList ++ cs.flatMap fun d => sep ++ d.toList) := by
  have hne {c : String} (hc : IsPart c) : c.toList ≠ [] := by simpa using hc.2.1
  refine ⟨fun x hx => hc.1.head x ?_, ?_⟩
  · obtain ⟨d, w, hw⟩ := exists_cons_of_ne_nil (hne hc)
    simpa [hw] using hx
  · induction cs generalizing c with
    | nil => simpa using hc.1.last
    | cons d cs ih =>
      obtain ⟨hd, hcs⟩ := forall_mem_cons.1 hcs
      intro x hx
      refine ih hd hcs x ?_
      have hrest : d.toList ++ (cs.flatMap fun d => sep ++ d.toList) ≠ [] := by simp [hne hd]
      rwa [flatMap_cons, append_assoc, ← append_assoc,
        getLast?_append_of_ne_nil _ hrest] at hx

theorem constraintsOf_join (h : ∀ c ∈ cs, IsPart c) :
    constraintsOf (strip (join " ; " cs)) = cs := by
  cases cs with
  | nil => decide +kernel
  | cons c cs =>
    obtain ⟨hc, hcs⟩ := forall_mem_cons.1 h
    have htext : join " ; " (c :: cs) =
        String.ofList (c.toList ++ cs.flatMap fun d => [' ', ';', ' '] ++ d.toList) := by
      have := join_ofList " ; " c.toList (cs.map String.toList)
      simpa [flatMap_map, Function.comp_def] using this
    rw [htext, strip_of_trim (trim_parts hc hcs _)]
    exact constraintsOf_parts (b := []) blank_nil (by simp) hc hcs

/-! ## Rows -/

/-- The fields of an entry, as they are written. -/
def rowOf (e : Entry) : Csv.Row where
  header := header
  fields := [e.name, toString e.normal, toString e.low, toString e.high, toString e.newLow,
    toString e.newHigh, join " ; " e.constraints]

theorem rows_toCsv (t : Table) : Csv.rows t.toCsv = t.map rowOf := by
  rw [toCsv, Csv.rows_write _ (by simp), map_map]
  rfl

theorem strip_toString (n : Int) : strip (toString n) = toString n := by
  have := strip_of_trim (trim_intChars n)
  rwa [← toList_toString_int, String.ofList_toList] at this

theorem entryOf_row (h : e.IsSettled) : entryOf (rowOf e) = .ok (some e) := by
  have hname : cell (rowOf e) "Name" "" = .ok (strip e.name) := rfl
  have hnormal : cell (rowOf e) "NormalValue" "0" = .ok (strip (toString e.normal)) := rfl
  have hlow : cell (rowOf e) "MinValue" "0" = .ok (strip (toString e.low)) := rfl
  have hhigh : cell (rowOf e) "MaxValue" "0" = .ok (strip (toString e.high)) := rfl
  have hnewLow (d : String) : cell (rowOf e) "OverrideMin" d = .ok (strip (toString e.newLow)) := rfl
  have hnewHigh (d : String) : cell (rowOf e) "OverrideMax" d = .ok (strip (toString e.newHigh)) :=
    rfl
  have hlisted : cell (rowOf e) "TestConstraint" "" = .ok (strip (join " ; " e.constraints)) := rfl
  have htrim : strip e.name = e.name := by
    have := strip_of_trim h.trim
    rwa [String.ofList_toList] at this
  have hnamed : e.name.isEmpty = false := by simpa using h.named
  simp only [entryOf, hname, hnormal, hlow, hhigh, hnewLow, hnewHigh, hlisted, htrim, hnamed,
    strip_toString, integerOf_toString h.normal, integerOf_toString h.low,
    integerOf_toString h.high, integerOf_toString h.newLow, integerOf_toString h.newHigh,
    constraintsOf_join h.constraints, Outcome.ok_bind, Bool.false_eq_true, if_false]
  rfl

theorem trim_of_cell {row : Csv.Row} {name default : String} (h : cell row name default = .ok s) :
    Trim s.toList := by
  unfold cell at h
  split at h
  · obtain rfl := Except.ok.inj h
    exact trim_strip _
  · obtain rfl := Except.ok.inj h
    exact trim_strip _
  · cases h

theorem isSettled_of_entryOf {row : Csv.Row} (h : entryOf row = .ok (some e)) :
    e.IsSettled := by
  unfold entryOf at h
  obtain ⟨name, hname, h⟩ := Outcome.bind_eq_ok.1 h
  split at h
  · cases h
  · next hnamed =>
    obtain ⟨listed, -, h⟩ := Outcome.bind_eq_ok.1 h
    obtain ⟨_, -, h⟩ := Outcome.bind_eq_ok.1 h
    obtain ⟨normal, hnormal, h⟩ := Outcome.bind_eq_ok.1 h
    obtain ⟨_, -, h⟩ := Outcome.bind_eq_ok.1 h
    obtain ⟨low, hlow, h⟩ := Outcome.bind_eq_ok.1 h
    obtain ⟨_, -, h⟩ := Outcome.bind_eq_ok.1 h
    obtain ⟨high, hhigh, h⟩ := Outcome.bind_eq_ok.1 h
    obtain ⟨_, -, h⟩ := Outcome.bind_eq_ok.1 h
    obtain ⟨newLow, hnewLow, h⟩ := Outcome.bind_eq_ok.1 h
    obtain ⟨_, -, h⟩ := Outcome.bind_eq_ok.1 h
    obtain ⟨newHigh, hnewHigh, h⟩ := Outcome.bind_eq_ok.1 h
    obtain rfl := Option.some.inj (Except.ok.inj h)
    exact
      { trim := trim_of_cell hname
        named := by simpa using hnamed
        normal := isShort_of_integerOf hnormal
        low := isShort_of_integerOf hlow
        high := isShort_of_integerOf hhigh
        newLow := isShort_of_integerOf hnewLow
        newHigh := isShort_of_integerOf hnewHigh
        constraints := fun c hc => isPart_of_mem hc }

/-! ## Tables -/

/-- Settled entries with different names. -/
structure IsSettled (t : Table) : Prop where
  entries : ∀ e ∈ t, e.IsSettled
  names : (t.map Entry.name).Nodup

theorem isSome_get? {name : String} :
    (t.get? name).isSome = true ↔ name ∈ t.map Entry.name := by
  rw [get?, find?_isSome, mem_map]
  simp

theorem put_of_new (h : e.name ∉ t.map Entry.name) : t.put e = t ++ [e] := by
  rw [put, if_neg (isSome_get?.not.2 h)]

theorem names_put_of_known (h : e.name ∈ t.map Entry.name) :
    (t.put e).map Entry.name = t.map Entry.name := by
  rw [put, if_pos (isSome_get?.2 h), map_map]
  refine map_congr_left fun old _ => ?_
  by_cases hname : old.name = e.name
  · simp [hname]
  · simp [hname]

theorem IsSettled.put (ht : t.IsSettled) (he : e.IsSettled) :
    (t.put e).IsSettled := by
  by_cases hknown : e.name ∈ t.map Entry.name
  · refine ⟨fun new hnew => ?_, by rw [names_put_of_known hknown]; exact ht.names⟩
    rw [Table.put, if_pos (isSome_get?.2 hknown)] at hnew
    obtain ⟨old, hold, rfl⟩ := mem_map.1 hnew
    split
    · exact he
    · exact ht.entries old hold
  · rw [put_of_new hknown]
    refine ⟨?_, ?_⟩
    · simpa [or_imp, forall_and] using ⟨ht.entries, he⟩
    · rw [map_append, nodup_append]
      refine ⟨ht.names, by simp, ?_⟩
      rintro a ha b hb rfl
      rw [map_singleton, mem_singleton] at hb
      exact hknown (hb ▸ ha)

theorem isSettled_foldl_put {es : List Entry} (ht : t.IsSettled)
    (hes : ∀ e ∈ es, e.IsSettled) : (es.foldl put t).IsSettled := by
  induction es generalizing t with
  | nil => exact ht
  | cons e es ih =>
    obtain ⟨he, hes⟩ := forall_mem_cons.1 hes
    exact ih (ht.put he) hes

theorem foldl_put_of_nodup {es : List Entry} (h : ((t ++ es).map Entry.name).Nodup) :
    es.foldl put t = t ++ es := by
  induction es generalizing t with
  | nil => simp
  | cons e es ih =>
    have hnew : e.name ∉ t.map Entry.name := by
      rw [map_append, nodup_append] at h
      exact fun hmem => h.2.2 _ hmem _ (by simp) rfl
    rw [foldl_cons, put_of_new hnew, ih (by simpa using h)]
    simp

theorem isSettled_of_ofCsv {text : String} (h : ofCsv text = .ok t) : t.IsSettled := by
  obtain ⟨found, hfound, h⟩ := Outcome.bind_eq_ok.1 h
  obtain rfl := Except.ok.inj h
  refine isSettled_foldl_put ⟨by simp, by simp⟩ fun e he => ?_
  obtain ⟨e?, he?, hsome⟩ := mem_filterMap.1 he
  obtain ⟨row, -, hrow⟩ := Outcome.exists_of_mem_mapM hfound he?
  exact isSettled_of_entryOf (hrow.trans (congrArg _ hsome))

theorem IsSettled.ofCsv_toCsv (h : t.IsSettled) : ofCsv t.toCsv = .ok t := by
  have hrows : (t.map rowOf).mapM entryOf = .ok (t.map some) := by
    rw [Outcome.mapM_eq_ok, forall₂_map_left_iff, forall₂_map_right_iff, forall₂_same]
    exact fun e he => entryOf_row (h.entries e he)
  rw [ofCsv, rows_toCsv, hrows, Outcome.ok_bind]
  have hall : (t.map some).filterMap id = t := by simp
  rw [hall, foldl_put_of_nodup (by simpa using h.names)]
  rfl

/-! ## Tables in files -/

theorem on_load (path : String) (d : Desk) : (load path).on d =
    (if d.store.exists path then d.store.readRaw path >>= ofCsv
      else .error (.missing s!"Override CSV not found: {path}"), d) := by
  simp only [load, Run.on_bind, Run.on_isThere]
  cases d.store.exists path with
  | false => rfl
  | true =>
    simp only [Bool.not_true, Bool.false_eq_true, if_false, if_true, Run.on_bind,
      Run.on_readRaw]
    cases d.store.readRaw path with
    | error e => rfl
    | ok text => exact Run.on_ofOutcome (ofCsv text) d

theorem isSettled_of_load {d : Desk} {path : String}
    (h : ((load path).on d).1 = .ok t) : t.IsSettled := by
  rw [on_load] at h
  simp only at h
  split at h
  · obtain ⟨text, -, htext⟩ := Outcome.bind_eq_ok.1 h
    exact isSettled_of_ofCsv htext
  · cases h

theorem Entry.isWritable_iff : e.isWritable = true ↔
    ∀ n ∈ [e.normal, e.low, e.high, e.newLow, e.newHigh], IsShort n := by
  simp only [Entry.isWritable, all_eq_true, isShort_eq_true]

theorem IsSettled.isWritable (h : t.IsSettled) : ∀ e ∈ t, e.isWritable = true := by
  intro e he
  obtain ⟨-, -, hnormal, hlow, hhigh, hnewLow, hnewHigh, -⟩ := h.entries e he
  simp only [Entry.isWritable_iff, forall_mem_cons]
  exact ⟨hnormal, hlow, hhigh, hnewLow, hnewHigh, by simp⟩

theorem on_save (h : ∀ e ∈ t, e.isWritable = true) (path : String) (d : Desk) :
    (t.save path).on d = (Run.writeFile path t.toCsv).on d := by
  have hall : t.takeWhile Entry.isWritable = t := takeWhile_eq_self_iff.2 h
  rw [save, hall, Run.on_bind, all_eq_true.2 h]
  rcases (Run.writeFile path t.toCsv).on d with ⟨_ | _, _⟩ <;> rfl

/-- Saving a table that was loaded sets the text of one file, and loading that file gives the table
again. -/
theorem load_save {d : Desk} {path target key : String} {t : Table}
    (hload : ((load path).on d).1 = .ok t) (hkey : d.store.key? target = some key) :
    ∃ e, (t.save target).on d = (.ok (), e) ∧
      e = { d with store := d.store.put key t.toCsv } ∧
      (load target).on e = (.ok t, e) := by
  have hwrite := Store.write_of_key hkey t.toCsv
  have hread := Store.readRaw_write hwrite
  refine ⟨_, ?_, rfl, ?_⟩
  · rw [on_save (isSettled_of_load hload).isWritable, Run.on_writeFile, hwrite]
  · rw [on_load, if_pos (Store.exists_of_readRaw hread), hread, Outcome.ok_bind,
      (isSettled_of_load hload).ofCsv_toCsv]

/-- A table with a repeated name, a quoted field, a decimal and no columns for the bounds to use. -/
theorem load_save_sample :
    let text := "Name,NormalValue,MinValue,MaxValue,TestConstraint\r\n"
      ++ "\" gain,\"\"x\"\"\",1.5,-2,7,a > 1;; b ;\r\n,1,1,1,\r\nmode,0,0,3,\r\nmode,0,1_0,3e1,\r\n"
    let d : Desk := { store := { files := [("in.csv", text)], dirs := ["out"] } }
    let t : Table := [
      { name := "gain,\"x\"", normal := 1, low := -2, high := 7, newLow := -2, newHigh := 7,
        constraints := ["a > 1", "b"] },
      { name := "mode", normal := 0, low := 10, high := 30, newLow := 10, newHigh := 30 }]
    ((load "in.csv").on d).1 = .ok t ∧
      ∃ e, (t.save "out/../out/t.csv").on d = (.ok (), e) ∧
        e = { d with store := d.store.put "out/t.csv" t.toCsv } ∧
        (load "out/../out/t.csv").on e = (.ok t, e) := by
  exact ⟨by decide +kernel, @load_save _ "in.csv" _ _ _ (by decide +kernel) (by decide +kernel)⟩

end Table

end Override

end Stimulus
