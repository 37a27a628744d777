import Mathlib.Algebra.Group.Int.Defs
import Mathlib.Data.List.Forall2
import Mathlib.Data.List.Infix
import Mathlib.Data.List.Nodup
import Stimulus.Proofs.Override.Line
import Stimulus.Proofs.Register.Roundtrip

/-!
# Overrides of a class of bounded fields

A table changes the range constraints of a class and nothing else, so the model of the class has the
bounds of the table.
-/

open List
open String (ofList toList_ofList)

namespace Stimulus.Override

open Text Register Model Stimulus.Vector

variable {t : Table} {d : Desk} {path key : String} {lines : List String} {patched : List Patched}

/-! ## Items -/

def Table.rebind (t : Table) (x : Register.Item) : Register.Item :=
  match t.get? x.name.name with
  | some e => { x with low := e.newLow, high := e.newHigh }
  | none => x

/-- The item has an entry with other bounds. -/
def Table.differs (t : Table) (x : Register.Item) : Bool :=
  (t.get? x.name.name).any fun e => x.low != e.newLow || x.high != e.newHigh

/-- The bounds of the item can be read if they are compared with those of an entry. -/
def Table.Compares (t : Table) (x : Register.Item) : Prop :=
  (t.get? x.name.name).isSome = true → Short x

theorem name_of_get? {name : String} {e : Entry} (h : t.get? name = some e) :
    e.name = name := by
  simpa using find?_some h

theorem rebind_of_not_differs {x : Register.Item} (h : t.differs x = false) :
    t.rebind x = x := by
  unfold Table.differs at h
  unfold Table.rebind
  cases hget : t.get? x.name.name with
  | none => rfl
  | some e =>
    rw [hget] at h
    obtain ⟨hlow, hhigh⟩ : x.low = e.newLow ∧ x.high = e.newHigh := by simpa using h
    simp only [← hlow, ← hhigh]

/-! ## Lines -/

theorem isRange_boundsLine (x : Register.Item) :
    IsRange x.boundsLine x.name.chars (intChars x.low) (intChars x.high) [] := by
  have hblank : Blank [' '] := by decide
  have hnone : Blank [] := by decide
  refine ⟨x.name.plain.isWord, ⟨isNumber_intChars _, isNumber_intChars _⟩,
    List.replicate 7 ' ', _, by decide, ?_, [], _, hnone, rfl, [' '], _, hblank, rfl, [' '], _, hblank,
    rfl, [' '], _, hblank, rfl, [' '], _, hblank, rfl, [' '], _, hblank, rfl, [' '], _, hblank, rfl,
    [], _, hnone, rfl, [], _, hnone, rfl, rfl⟩
  unfold Item.boundsLine rangeChars
  simp [List.replicate]

theorem not_isRange_of_head {line : List Char} (h : ∀ c ∈ (line.dropWhile isBlank).head?, c ≠ '(')
    (name low high rest : List Char) : ¬ IsRange line name low high rest := by
  rintro ⟨-, -, gap, more, hgap, rfl, -⟩
  have hdrop : (gap ++ (['('] ++ more)).dropWhile isBlank = '(' :: more := by
    rw [dropWhile_blank_append hgap]
    rfl
  rw [hdrop] at h
  exact h '(' rfl rfl

section Class

variable {t : Table} {ip : List Char} {items : List Register.Item}

variable {x : Register.Item}

theorem newline_boundsLine (x : Register.Item) : '\n' ∉ x.boundsLine := by
  have hrange := not_mem_rangeChars (c := '\n') (by decide) (by decide) (by decide) x.name x.low x.high
  unfold Item.boundsLine
  simp [hrange]

theorem rangeText_item {e : Entry} (h : e.name = x.name.name) :
    rangeText e "       " "" ++ "\n" =
      ofList ({ x with low := e.newLow, high := e.newHigh : Register.Item }.boundsLine ++ ['\n']) := by
  have hint (v : Int) : (toString v).toList = intChars v := toList_toString_int v
  rw [← String.toList_inj, toList_ofList]
  unfold rangeText Item.boundsLine rangeChars
  simp only [← hint]
  simp [h, toString, Label.name]

theorem patchLine_boundsLine (h : t.Compares x) :
    t.patchLine (ofList (x.boundsLine ++ ['\n'])) =
      .ok { line := ofList ((t.rebind x).boundsLine ++ ['\n']), matched := true
            updated := t.differs x } := by
  rw [patchLine_of_range (isRange_boundsLine x) (newline_boundsLine x)]
  unfold Table.rebind Table.differs
  cases hget : t.get? x.name.name with
  | none =>
    rw [show ofList x.name.chars = x.name.name from rfl, hget]
    rfl
  | some e =>
    obtain ⟨hlow, hhigh⟩ := h (by rw [hget]; rfl)
    rw [show ofList x.name.chars = x.name.name from rfl, hget]
    have hindent : ofList (x.boundsLine.takeWhile isBlank) = "       " := by
      unfold Item.boundsLine
      rfl
    simp only [integer_intChars, if_pos hlow, if_pos hhigh, Outcome.ok_bind, hindent]
    rw [← rangeText_item (name_of_get? hget)]
    rfl

theorem compares_of_patchLine {p : Patched}
    (h : t.patchLine (ofList (x.boundsLine ++ ['\n'])) = .ok p) : t.Compares x := by
  rw [patchLine_of_range (isRange_boundsLine x) (newline_boundsLine x)] at h
  intro hsome
  obtain ⟨e, hget⟩ := Option.isSome_iff_exists.1 hsome
  rw [show ofList x.name.chars = x.name.name from rfl, hget] at h
  obtain ⟨low, hlow, h⟩ := Outcome.bind_eq_ok.1 h
  obtain ⟨high, hhigh, -⟩ := Outcome.bind_eq_ok.1 h
  exact ⟨isShort_of_integer_intChars hlow, isShort_of_integer_intChars hhigh⟩

/-! ## The lines of a class -/

@[simp] theorem name_rebind (t : Table) (x : Register.Item) : (t.rebind x).name = x.name := by
  unfold Table.rebind
  split <;> rfl

@[simp] theorem signed_rebind (t : Table) (x : Register.Item) : (t.rebind x).signed = x.signed := by
  unfold Table.rebind
  split <;> rfl

theorem declarationLine_rebind (t : Table) (x : Register.Item) :
    (t.rebind x).declarationLine = x.declarationLine := by
  unfold Item.declarationLine
  rw [name_rebind, signed_rebind]

theorem entryLine_rebind (t : Table) (x : Register.Item) : (t.rebind x).entryLine = x.entryLine := by
  unfold Item.entryLine
  rw [name_rebind]

theorem headLine_rebind (t : Table) (x : Register.Item) : (t.rebind x).headLine = x.headLine := by
  unfold Item.headLine
  rw [name_rebind]

/-- A line that stays. -/
def kept (line : List Char) : Patched := { line := ofList (line ++ ['\n']) }

/-- What becomes of the line of a range. -/
def Table.patchedBounds (t : Table) (x : Register.Item) : Patched where
  line := ofList ((t.rebind x).boundsLine ++ ['\n'])
  matched := true
  updated := t.differs x

/-- What becomes of the block of a range. -/
def Table.patchedBlock (t : Table) (x : Register.Item) : List Patched :=
  [kept x.headLine, kept "     \x7b".toList, t.patchedBounds x, kept "     \x7d".toList, kept []]

/-- What becomes of a class. -/
def Table.patchedClass (t : Table) (ip : List Char) (items : List Register.Item) : List Patched :=
  (headerChars ip :: (frontLines items ++ beginLine ip :: (items.map Item.entryLine ++
    ["`uvm_object_utils_end".toList]))).map kept ++
    (items.flatMap t.patchedBlock ++ [kept "endclass".toList])

/-- The table makes this of the line. -/
def Table.Makes (t : Table) (line : List Char) (p : Patched) : Prop :=
  t.patchLine (ofList (line ++ ['\n'])) = .ok p

theorem makes_kept {line : List Char} (h : ∀ c ∈ (line.dropWhile isBlank).head?, c ≠ '(') :
    t.Makes line (kept line) :=
  patchLine_of_not_range (not_isRange_of_head h)

theorem makes_block (h : t.Compares x) :
    List.Forall₂ t.Makes x.blockLines (t.patchedBlock x) := by
  unfold Item.blockLines Table.patchedBlock
  refine .cons (makes_kept ?_) (.cons (makes_kept ?_) (.cons (patchLine_boundsLine h)
    (.cons (makes_kept ?_) (.cons (makes_kept ?_) .nil))))
  · unfold Item.headLine
    rintro c ⟨rfl⟩
    decide
  · decide
  · decide
  · decide

theorem makes_front : ∀ l ∈ headerChars ip :: (frontLines items ++ beginLine ip ::
    (items.map Item.entryLine ++ ["`uvm_object_utils_end".toList])), t.Makes l (kept l) := by
  intro l hl
  refine makes_kept ?_
  unfold frontLines at hl
  simp only [mem_cons, mem_append, mem_map, not_mem_nil, or_false] at hl
  rcases hl with rfl | (rfl | ⟨x, -, rfl⟩ | rfl) | rfl | ⟨x, -, rfl⟩ | rfl
  · unfold headerChars
    rintro c ⟨rfl⟩
    decide
  · simp
  · unfold Item.declarationLine
    cases x.signed <;> rintro c ⟨rfl⟩ <;> decide
  · simp
  · unfold beginLine
    rintro c ⟨rfl⟩
    decide
  · unfold Item.entryLine
    rintro c ⟨rfl⟩
    decide
  · decide

theorem patchLines_class (h : ∀ x ∈ items, t.Compares x) :
    t.patchLines ((classLines ip items).map fun l => ofList (l ++ ['\n'])) =
      .ok (t.patchedClass ip items) := by
  have hsame {ls : List (List Char)} (hls : ∀ l ∈ ls, t.Makes l (kept l)) :
      List.Forall₂ t.Makes ls (ls.map kept) := by
    rw [forall₂_map_right_iff, forall₂_same]
    exact hls
  have hblocks : List.Forall₂ t.Makes (items.flatMap Item.blockLines) (items.flatMap t.patchedBlock) := by
    induction items with
    | nil => exact .nil
    | cons x items ih =>
      obtain ⟨hx, hitems⟩ := forall_mem_cons.1 h
      exact rel_append (makes_block hx) (ih hitems)
  have hcut : classLines ip items = (headerChars ip :: (frontLines items ++ beginLine ip ::
      (items.map Item.entryLine ++ ["`uvm_object_utils_end".toList]))) ++
        (items.flatMap Item.blockLines ++ ["endclass".toList]) := by
    simp [classLines, backLines]
  rw [Table.patchLines, Outcome.mapM_eq_ok, forall₂_map_left_iff, hcut]
  exact rel_append (hsame makes_front)
    (rel_append hblocks (hsame (forall_mem_singleton.2 (makes_kept (by decide)))))

theorem compares_of_patchLines {ps : List Patched}
    (h : t.patchLines ((classLines ip items).map fun l => ofList (l ++ ['\n'])) = .ok ps) :
    ∀ x ∈ items, t.Compares x := by
  intro x hx
  have hline : x.boundsLine ∈ classLines ip items := by
    have hblock : x.boundsLine ∈ items.flatMap Item.blockLines :=
      mem_flatMap.2 ⟨x, hx, by simp [Item.blockLines]⟩
    simp [classLines, backLines, hblock]
  obtain ⟨p, -, hp⟩ := Outcome.exists_mem_of_mapM h (mem_map_of_mem hline)
  exact compares_of_patchLine hp

theorem join_patchedClass (t : Table) (ip : List Char) (items : List Register.Item) :
    String.join ((t.patchedClass ip items).map (·.line)) = classText ip (items.map t.rebind) := by
  have hdecls : (items.map t.rebind).map Item.declarationLine = items.map Item.declarationLine := by
    rw [map_map]
    exact map_congr_left fun x _ => declarationLine_rebind t x
  have hentries : (items.map t.rebind).map Item.entryLine = items.map Item.entryLine := by
    rw [map_map]
    exact map_congr_left fun x _ => entryLine_rebind t x
  have hkept (l : List Char) : (kept l).line.toList = l ++ ['\n'] := toList_ofList
  have hbounds (x : Register.Item) :
      (t.patchedBounds x).line.toList = (t.rebind x).boundsLine ++ ['\n'] := toList_ofList
  have hblock (x : Register.Item) : ((t.patchedBlock x).map (·.line)).flatMap String.toList =
      (t.rebind x).blockLines.flatMap (· ++ ['\n']) := by
    unfold Table.patchedBlock Item.blockLines
    simp only [map_cons, map_nil, flatMap_cons, flatMap_nil, hkept, hbounds,
      headLine_rebind]
  have hblocks : ((items.flatMap t.patchedBlock).map (·.line)).flatMap String.toList =
      ((items.map t.rebind).flatMap Item.blockLines).flatMap (· ++ ['\n']) := by
    rw [map_flatMap, flatMap_assoc, flatMap_map, flatMap_assoc]
    exact flatMap_congr fun x _ => hblock x
  have hcut : classLines ip (items.map t.rebind) = (headerChars ip :: (frontLines items ++ beginLine ip ::
      (items.map Item.entryLine ++ ["`uvm_object_utils_end".toList]))) ++
        ((items.map t.rebind).flatMap Item.blockLines ++ ["endclass".toList]) := by
    rw [classLines, backLines, frontLines, frontLines, hdecls, hentries]
    simp only [append_assoc, cons_append, nil_append]
  have hfront (ls : List (List Char)) : ((ls.map kept).map (·.line)).flatMap String.toList =
      ls.flatMap (· ++ ['\n']) := by
    rw [map_map, flatMap_map]
    exact flatMap_congr fun l _ => hkept l
  rw [classText, ← String.toList_inj, String.toList_join, toList_ofList, classChars, hcut,
    Table.patchedClass, map_append, map_append, flatMap_append, flatMap_append,
    flatMap_append, flatMap_append, hfront, hblocks]
  exact congrArg _ (congrArg _ (hfront ["endclass".toList]))

theorem countP_patchedClass {f : Patched → Bool} (hf : ∀ l, f (kept l) = false) :
    (t.patchedClass ip items).countP f = items.countP fun x => f (t.patchedBounds x) := by
  have hkept (ls : List (List Char)) : (ls.map kept).countP f = 0 := by
    simp [countP_eq_zero, hf]
  have hblocks : (items.flatMap t.patchedBlock).countP f = items.countP fun x => f (t.patchedBounds x) := by
    induction items with
    | nil => rfl
    | cons x items ih =>
      rw [flatMap_cons, countP_append, ih, countP_cons, Nat.add_comm]
      simp [Table.patchedBlock, hf, countP_cons]
  rw [Table.patchedClass, countP_append, countP_append, hkept, hblocks]
  simp [hf]

end Class

/-! ## The file of a class -/

/-- What happens to a file after its lines are dealt with. -/
def rewrite (path : String) (backup : Bool) (lines : List String) (patched : List Patched) :
    Run (Nat × Nat) := do
  if backup then Run.writeFile (path ++ ".bak") (String.join lines)
  Run.writeFile path (String.join (patched.map (·.line)))
  return (patched.countP (·.matched), patched.countP (·.updated))

theorem on_applyToSource {text : String} (backup : Bool)
    (hread : d.store.read path = .ok text) : (t.applyToSource path backup).on d =
      match t.patchLines (fileLines text) with
      | .error e => (.error e, d)
      | .ok patched =>
        if patched.countP (·.updated) = 0 then (.ok (patched.countP (·.matched), 0), d)
        else (rewrite path backup (fileLines text) patched).on d := by
  have hthere := Store.exists_of_read hread
  unfold Table.applyToSource
  simp only [Run.on_bind, Run.on_isThere, hthere, Bool.not_true, Bool.false_eq_true, if_false,
    Run.on_readFile, hread, Run.on_ofOutcome]
  cases t.patchLines (fileLines text) with
  | error e => rfl
  | ok patched =>
    by_cases hnone : patched.countP (·.updated) = 0
    · simp [hnone]
    · simp only [gt_iff_lt, Nat.pos_of_ne_zero hnone, if_true, if_neg hnone]
      cases backup <;> rfl

/-- The files after a rewrite; `copy?` is the place of the copy, if one is made. -/
def rewritten (s : Store) (key : String) (copy? : Option String) (lines : List String)
    (patched : List Patched) : Store :=
  ((copy?.map fun copy => s.put copy (String.join lines)).getD s).put key
    (String.join (patched.map (·.line)))

theorem on_rewrite_eq {copy? : Option String}
    (hkey : d.store.key? path = some key)
    (hcopy : ∀ copy, copy? = some copy → d.store.key? (path ++ ".bak") = some copy) :
    (rewrite path copy?.isSome lines patched).on d =
      (.ok (patched.countP (·.matched), patched.countP (·.updated)),
        { d with store := rewritten d.store key copy? lines patched }) := by
  unfold rewrite rewritten
  cases copy? with
  | none =>
    simp only [Option.isSome_none, Bool.false_eq_true, if_false, Run.on_bind, Run.on_writeFile,
      Store.write_of_key hkey]
    rfl
  | some copy =>
    have hkey' : (d.store.put copy (String.join lines)).key? path = some key := by simpa using hkey
    simp only [Option.isSome_some, if_true, Run.on_bind, Run.on_writeFile,
      Store.write_of_key (hcopy copy rfl), Store.write_of_key hkey']
    rfl

theorem key?_rewritten {s : Store} {copy? : Option String}
    (path : String) :
    (rewritten s key copy? lines patched).key? path = s.key? path := by
  unfold rewritten
  cases copy? <;> simp

theorem exists_copy {s : Store} {backup : Bool}
    (hbackup : backup = true → (s.key? (path ++ ".bak")).isSome = true) : ∃ copy? : Option String,
      copy?.isSome = backup ∧ ∀ copy, copy? = some copy → s.key? (path ++ ".bak") = some copy := by
  cases backup with
  | false => exact ⟨none, rfl, by simp⟩
  | true => exact ⟨_, hbackup rfl, fun _ h => h⟩

theorem on_rewrite {backup : Bool}
    (hkey : d.store.key? path = some key)
    (hbackup : backup = true → (d.store.key? (path ++ ".bak")).isSome = true) :
    ∃ e, (rewrite path backup lines patched).on d =
        (.ok (patched.countP (·.matched), patched.countP (·.updated)), e) ∧
      e.store.key? path = some key ∧ e.store.get? key = some (String.join (patched.map (·.line))) := by
  obtain ⟨copy?, rfl, hcopy⟩ := exists_copy hbackup
  exact ⟨_, on_rewrite_eq hkey hcopy, (key?_rewritten path).trans hkey, Store.get?_put_self _ _ _⟩

section File

variable {t : Table} {ip : List Char} {items : List Register.Item} {d : Desk} {path : String}
  {backup : Bool} (hip : ∀ c ∈ ip, Sv.nameTail c = true)

include hip

theorem unifyNewlines_classText : unifyNewlines (classText ip items) = classText ip items := by
  refine unifyNewlines_of_not_mem ?_
  rw [classText, toList_ofList, classChars, mem_flatMap]
  rintro ⟨l, hl, hmem⟩
  have hline := not_mem_line (.inr (.inl rfl)) hip hl
  simp [hline] at hmem

theorem fileLines_classText : fileLines (classText ip items) =
    (classLines ip items).map fun l => ofList (l ++ ['\n']) :=
  fileLines_flatMap fun _ hl => not_mem_line (.inl rfl) hip hl

variable (hread : d.store.read path = .ok (classText ip items))

include hread

theorem applyToSource_class (hbackup : backup = true → (d.store.key? (path ++ ".bak")).isSome = true)
    (h : ∀ x ∈ items, t.Compares x) :
    ∃ e, (t.applyToSource path backup).on d = (.ok (items.length, items.countP t.differs), e) ∧
      e.store.read path = .ok (classText ip (items.map t.rebind)) := by
  have hmatched : (t.patchedClass ip items).countP (·.matched) = items.length := by
    rw [countP_patchedClass fun _ => rfl]
    exact countP_eq_length.2 fun _ _ => rfl
  have hupdated : (t.patchedClass ip items).countP (·.updated) = items.countP t.differs :=
    countP_patchedClass fun _ => rfl
  rw [on_applyToSource backup hread, fileLines_classText hip, patchLines_class h]
  simp only [hmatched, hupdated]
  by_cases hnone : items.countP t.differs = 0
  · rw [if_pos hnone]
    have hsame : items.map t.rebind = items := by
      refine (map_congr_left fun x hx => ?_).trans (map_id items)
      exact rebind_of_not_differs (by simpa using countP_eq_zero.1 hnone x hx)
    exact ⟨d, by rw [hnone], by rw [hsame, hread]⟩
  · rw [if_neg hnone]
    obtain ⟨raw, hraw, -⟩ := Outcome.map_eq_ok.1 hread
    obtain ⟨key, hkey⟩ := Store.exists_key_of_readRaw hraw
    obtain ⟨e, he, hkey', hget⟩ := on_rewrite hkey hbackup
    refine ⟨e, by rw [he, hmatched, hupdated], ?_⟩
    rw [Store.read, Store.readRaw_of_key hkey', hget, join_patchedClass]
    exact congrArg Except.ok (unifyNewlines_classText hip)

theorem compares_of_applyToSource {counts : Nat × Nat} {e : Desk}
    (h : (t.applyToSource path backup).on d = (.ok counts, e)) : ∀ x ∈ items, t.Compares x := by
  rw [on_applyToSource backup hread, fileLines_classText hip] at h
  cases hpatch : t.patchLines ((classLines ip items).map fun l => ofList (l ++ ['\n'])) with
  | error f =>
    rw [hpatch] at h
    cases h
  | ok ps => exact compares_of_patchLines hpatch

end File

/-! ## From the table to the specifications -/

/-- The specification that an item should have: declared as in the class, with the range of the table or
else of the class. -/
def Table.spec (t : Table) (x : Register.Item) : Spec where
  name := x.name.name
  width := 32
  signed := x.signed
  range := some (match t.get? x.name.name with
    | some e => (e.newLow, e.newHigh)
    | none => (x.low, x.high))
  typeName := if x.signed then "unknown" else "bit"

theorem boundedSpec_rebind (t : Table) (x : Register.Item) : boundedSpec (t.rebind x) = t.spec x := by
  unfold boundedSpec declaredSpec Table.spec Table.rebind
  cases t.get? x.name.name <;> rfl

/-- The table is applied to the file of a class with the right counts, and the model of the class that
is in the file then has the specifications of the items. -/
def Reaches (t : Table) (d : Desk) (path : String) (backup metrics : Bool) (jobs : Int)
    (items : List Register.Item) : Prop :=
  ∃ e text draft,
    (t.applyToSource path backup).on d = (.ok (items.length, items.countP t.differs), e) ∧
    e.store.read path = .ok text ∧ ofText { metrics } jobs text = .ok draft ∧
    Gives draft.code (items.map t.spec)

section Reaches

variable {t : Table} {ip : List Char} {items : List Register.Item} {d : Desk} {path : String}
  {backup metrics : Bool} {jobs : Int}

theorem specs_rebind (hip : ∀ c ∈ ip, Sv.nameTail c = true) (hnames : (items.map (·.name)).Nodup)
    (husable : ∀ x ∈ items, Usable x.name) (t : Table) (metrics : Bool) (jobs : Int) :
    ∃ draft, ofText { metrics } jobs (classText ip (items.map t.rebind)) = .ok draft ∧
      (Specs.read true draft.code = .ok (items.map t.spec) ↔
        (items = [] ∨ ¬ classEnd <:+: ip) ∧ ∀ x ∈ items, Short (t.rebind x)) := by
  have hitems : ∀ x ∈ items.map t.rebind, Usable x.name :=
    forall_mem_map.2 fun x hx => by rw [name_rebind]; exact husable x hx
  have hnodup : ((items.map t.rebind).map fun x => x.name.name).Nodup := by
    have hmap : (items.map t.rebind).map (fun x => x.name.name) =
        (items.map (·.name)).map Label.name := by simp [Function.comp_def]
    rw [hmap]
    exact hnames.map Label.name_injective
  have hspecs : (items.map t.rebind).map boundedSpec = items.map t.spec := by
    rw [map_map]
    exact map_congr_left fun x _ => boundedSpec_rebind t x
  obtain ⟨draft, hdraft, hmodel⟩ := ofText_classText hip hitems metrics jobs
  refine ⟨draft, hdraft, ?_⟩
  by_cases hend : classEnd <:+: ip
  · -- The ranges are lost, so there must be no items.
    rw [if_pos hend] at hmodel
    rw [read_cut true hmodel hnodup, ← hspecs]
    cases items with
    | nil => simp
    | cons x items => simp [hend, boundedSpec, declaredSpec]
  · rw [if_neg hend] at hmodel
    refine ⟨fun hread => ⟨.inr hend, ?_⟩, fun h => ?_⟩
    · rw [declared_model hmodel hnodup] at hread
      obtain ⟨found, hfound, -⟩ := Outcome.bind_eq_ok.1 hread
      exact forall_mem_map.1 (short_of_mapM_boundsOf hfound)
    · rw [read_whole true hmodel hnodup (forall_mem_map.2 h.2), hspecs]

variable (hip : ∀ c ∈ ip, Sv.nameTail c = true)
  (hread : d.store.read path = .ok (classText ip items))
  (hbackup : backup = true → (d.store.key? (path ++ ".bak")).isSome = true)

include hip hread hbackup

theorem reaches_iff_read : Reaches t d path backup metrics jobs items ↔
    (∀ x ∈ items, t.Compares x) ∧ ∃ draft,
      ofText { metrics } jobs (classText ip (items.map t.rebind)) = .ok draft ∧
      Specs.read true draft.code = .ok (items.map t.spec) := by
  constructor
  · rintro ⟨e, text, draft, hrun, hread', hdraft, hgives⟩
    have hcompares := compares_of_applyToSource hip hread hrun
    obtain ⟨e', hrun', hread''⟩ := applyToSource_class hip hread hbackup hcompares
    obtain ⟨-, rfl⟩ := Prod.mk.inj (hrun.symm.trans hrun')
    obtain rfl := Except.ok.inj (hread'.symm.trans hread'')
    exact ⟨hcompares, draft, hdraft, gives_iff.1 hgives⟩
  · rintro ⟨hcompares, draft, hdraft, hspecs⟩
    obtain ⟨e, hrun, hread'⟩ := applyToSource_class hip hread hbackup hcompares
    exact ⟨e, _, draft, hrun, hread', hdraft, gives_iff.2 hspecs⟩

/-- The bounds of a table reach the specifications if and only if those that are used or compared can be
read and the name of the class does not hold the word that ends classes. -/
theorem overrides_reach_iff (hnames : (items.map (·.name)).Nodup)
    (husable : ∀ x ∈ items, Usable x.name) : Reaches t d path backup metrics jobs items ↔
      (items = [] ∨ ¬ "endclass".toList <:+: ip) ∧
        ∀ x ∈ items, Short (t.rebind x) ∧ ((t.get? x.name.name).isSome = true → Short x) := by
  obtain ⟨draft, hdraft, hspecs⟩ := specs_rebind hip hnames husable t metrics jobs
  have hdrafts : (∃ draft, ofText { metrics } jobs (classText ip (items.map t.rebind)) = .ok draft ∧
      Specs.read true draft.code = .ok (items.map t.spec)) ↔
      Specs.read true draft.code = .ok (items.map t.spec) := by
    rw [hdraft]
    simp
  rw [reaches_iff_read hip hread hbackup, hdrafts, hspecs, and_left_comm]
  refine and_congr_right fun _ => ⟨fun ⟨hcompares, hshort⟩ x hx => ⟨hshort x hx, hcompares x hx⟩,
    fun h => ⟨fun x hx => (h x hx).2, fun x hx => (h x hx).1⟩⟩

end Reaches

/-- A directory with nothing but the file of a class. -/
def classDesk (ip : List Char) (items : List Register.Item) : Desk where
  store := ({} : Store).put "isp.sv" (classText ip items)

theorem read_classDesk {ip : List Char} (hip : ∀ c ∈ ip, Sv.nameTail c = true)
    (items : List Register.Item) :
    (classDesk ip items).store.read "isp.sv" = .ok (classText ip items) := by
  have hempty : ({} : Store).key? "isp.sv" = some "isp.sv" := by decide +kernel
  have hkey : (classDesk ip items).store.key? "isp.sv" = some "isp.sv" :=
    (Store.key?_put {} "isp.sv" (classText ip items) "isp.sv").trans hempty
  rw [Store.read, Store.readRaw_of_key hkey, classDesk, Store.get?_put_self]
  exact congrArg Except.ok (unifyNewlines_classText hip)

theorem backup_classDesk (ip : List Char) (items : List Register.Item) :
    ((classDesk ip items).store.key? ("isp.sv" ++ ".bak")).isSome = true := by
  rw [classDesk, Store.key?_put]
  decide +kernel

theorem isPlain_gain : Sv.IsPlain "gain".toList := ⟨by decide, by decide⟩

theorem isPlain_mode : Sv.IsPlain "mode_2".toList := ⟨by decide, by decide⟩

/-- A field with two bounds, and one of one value. -/
def someItems : List Register.Item :=
  [⟨⟨"gain".toList, isPlain_gain⟩, true, -8, 7⟩, ⟨⟨"mode_2".toList, isPlain_mode⟩, false, 3, 3⟩]

/-- A table for one of the fields, and for another that is not in the class. -/
def someTable : Table :=
  [{ name := "gain", normal := 0, low := -8, high := 7, newLow := -2, newHigh := 2 },
    { name := "other", normal := 0, low := 0, high := 1, newLow := 1, newHigh := 1 }]

theorem overrides_reach_gain :
    Reaches someTable (classDesk "isp".toList someItems) "isp.sv" true true 4 someItems :=
  (overrides_reach_iff (by decide) (read_classDesk (by decide) _) (fun _ => backup_classDesk _ _)
    (by decide) (by decide)).2 ⟨.inr (by decide), by decide⟩

/-- The bounds do not reach the specifications if the name of the class holds the word that ends classes,
or if a bound of the class is too long. -/
theorem not_reaches_word_or_long :
    let a : Label := ⟨['a'], by decide, by decide⟩
    let narrow : List Register.Item := [⟨a, false, 1, 2⟩]
    let long : List Register.Item := [⟨a, false, 10 ^ mostDigits, 10 ^ mostDigits⟩]
    let t : Table := [{ name := "a", normal := 0, low := 1, high := 2, newLow := 3, newHigh := 4 }]
    Usable a ∧ (∀ c ∈ "endclass".toList, Sv.nameTail c = true) ∧
      ¬ Reaches t (classDesk "endclass".toList narrow) "isp.sv" true true 1 narrow ∧
      ¬ Reaches t (classDesk "isp".toList long) "isp.sv" true true 1 long := by
  intro a narrow long t
  refine ⟨by decide, by decide, fun hreaches => ?_, fun hreaches => ?_⟩
  · obtain ⟨-, draft, hdraft, hread⟩ := (reaches_iff_read (by decide) (read_classDesk (by decide) _)
      fun _ => backup_classDesk _ _).1 hreaches
    obtain ⟨draft', hdraft', hspecs⟩ := @specs_rebind "endclass".toList narrow (by decide)
      (List.nodup_singleton a) (by decide) t true 1
    obtain rfl := Except.ok.inj (hdraft.symm.trans hdraft')
    have hword := (hspecs.1 hread).1
    revert hword
    decide
  · obtain ⟨e, text, draft, hrun, -⟩ := hreaches
    have hcompares := compares_of_applyToSource (by decide) (read_classDesk (by decide) _) hrun
    have hpow (n : Nat) : ¬ ((10 : Int) ^ n).natAbs < 10 ^ n := by simp [Int.natAbs_pow]
    exact hpow mostDigits (isShort_iff.1 (hcompares _ List.mem_cons_self (by decide)).1)

end Stimulus.Override
