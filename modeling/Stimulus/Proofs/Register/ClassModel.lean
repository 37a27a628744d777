import Stimulus.Proofs.Model.Bounds
import Stimulus.Proofs.Model.ClassNames
import Stimulus.Proofs.Register.ClassDecl

/-!
# The model of a class of bounded fields

* `rangeOnly?_condition`: the constraint of an item is a plain range.
* `fieldCode`, `rangeCode`: an item in the model.
* `run_writeParts`: the parts of the model.
-/

open List hiding removeAll splitOn
open String (ofList toList_ofList)

namespace Stimulus

open Pattern Text Sv

namespace Model

/-! ## Plain ranges -/

theorem withoutOuterParens_plain {cs : List Char} (h : '(' ∉ cs) (fuel : Nat) :
    withoutOuterParens fuel (ofList cs) = ofList cs := by
  cases fuel with
  | zero => rfl
  | succ fuel =>
    have hstart : startsWith "(" (ofList cs) = false := by
      rw [← Bool.not_eq_true, startsWith_ofList]
      rintro ⟨t, rfl⟩
      exact h (by simp)
    rw [withoutOuterParens, hstart]
    rfl

theorem withoutOuterParens_paren {cs : List Char} (hopen : '(' ∉ cs) (hclose : ')' ∉ cs)
    (htrim : Trim cs) (fuel : Nat) :
    withoutOuterParens (fuel + 1) (ofList ('(' :: (cs ++ [')']))) = ofList cs := by
  have hstart : startsWith "(" (ofList ('(' :: (cs ++ [')']))) = true :=
    startsWith_ofList.2 ⟨cs ++ [')'], rfl⟩
  have hend : endsWith ")" (ofList ('(' :: (cs ++ [')']))) = true :=
    endsWith_ofList.2 ⟨'(' :: cs, rfl⟩
  have hslice : slice 1 ((ofList ('(' :: (cs ++ [')']))).length - 1)
      (ofList ('(' :: (cs ++ [')']))) = ofList cs := by
    rw [slice, String.length_ofList, toList_ofList]
    simp
  simp only [withoutOuterParens, hstart, hend, hslice, toList_ofList,
    isBalanced_of_not_mem hopen hclose, strip_of_trim htrim]
  simpa using withoutOuterParens_plain hopen fuel

end Model

namespace Register.Item

open Model Override

variable (x : Item)

def rangeCode : List Char :=
  "self.".toList ++ (x.name.chars ++ (" in vsc.rangelist(vsc.rng(".toList ++ (intChars x.low ++
    (", ".toList ++ (intChars x.high ++ "))".toList)))))

theorem bounds_rangeChars : Model.Bounds ">=" "<=" x.name.chars (intChars x.low) x.name.chars
    (intChars x.high) (rangeChars x.name x.low x.high) := by
  have hgap : Blank [' '] := by decide
  refine ⟨⟨x.name.plain.isWord, x.name.plain.isWord⟩, ⟨isNumber_intChars _, isNumber_intChars _⟩,
    "&&".toList, _, .inl rfl, ?_, [' '], _, hgap, rfl, [' '], _, hgap, rfl, [' '], _, hgap, rfl,
    [' '], _, hgap, rfl, [' '], _, hgap, rfl, [' '], [], hgap, rfl, rfl⟩
  simp [rangeChars]

theorem trim_rangeChars : Trim (rangeChars x.name x.low x.high) := by
  refine ⟨?_, fun c hc => ?_⟩
  · unfold rangeChars
    simp only [append_assoc]
    exact head_word x.name.plain.isWord
  · unfold rangeChars at hc
    rw [getLast?_append_of_ne_nil _ (intChars_ne_nil _)] at hc
    exact (trim_intChars x.high).last c hc

theorem rangeOnly?_condition :
    rangeOnly? (ofList x.condition) = some (ofList x.rangeCode) := by
  obtain ⟨hopen, hclose⟩ := x.bounds_rangeChars.unparenthesised isMark_low isMark_high
  have hbare : Stmt.bare (ofList x.condition) =
      ofList ('(' :: (rangeChars x.name x.low x.high ++ [')'])) := by
    have hcut : x.condition = '(' :: rangeChars x.name x.low x.high ++ [')'] ++ [';'] := by
      simp [condition]
    have htrim : Trim ('(' :: rangeChars x.name x.low x.high ++ [')']) :=
      trim_of_ends (by decide) (by decide)
    have hlast : ∀ d ∈ ('(' :: rangeChars x.name x.low x.high ++ [')']).getLast?, d ≠ ';' := by
      rw [getLast?_concat]
      simp
    rw [Stmt.bare, strip_of_trim x.trim_condition, hcut, stripRightOf_concat hlast]
    exact strip_of_trim htrim
  have hinner : withoutOuterParens (ofList ('(' :: (rangeChars x.name x.low x.high ++ [')']))).length
      (ofList ('(' :: (rangeChars x.name x.low x.high ++ [')']))) =
        ofList (rangeChars x.name x.low x.high) := by
    rw [String.length_ofList]
    exact withoutOuterParens_paren hopen hclose x.trim_rangeChars _
  rw [rangeOnly?_eq_some_iff, hbare, hinner, toList_ofList]
  refine ⟨_, _, _, .inl x.bounds_rangeChars, ?_⟩
  rw [← String.toList_inj, toList_ofList]
  unfold rangeCode intervalLine
  simp [toString]

/-- The type in a model. -/
def typeCode : List Char :=
  if x.signed then "vsc.rand_int_t(32)".toList else "vsc.rand_bit_t(32)".toList

def fieldCode : List Char := "self.".toList ++ (x.name.chars ++ (" = ".toList ++ x.typeCode))

theorem fieldLine_field : fieldLine false x.field = ofList x.fieldCode := by
  rw [← String.toList_inj, toList_ofList]
  have hwidth : (Int.repr 32).toList = ['3', '2'] := rfl
  unfold fieldLine fieldCode typeCode
  cases hsigned : x.signed <;>
    simp [Item.field, fieldValue, fieldType, valueType, hsigned, hwidth, toString, Label.name]

theorem head_fieldCode : ∀ c ∈ x.fieldCode.head?, c ≠ ' ' := by
  unfold fieldCode
  simp

theorem head_rangeCode : ∀ c ∈ x.rangeCode.head?, c ≠ ' ' := by
  unfold rangeCode
  simp

theorem not_newline_fieldCode : '\n' ∉ x.fieldCode := by
  unfold fieldCode typeCode
  cases x.signed <;> simp [x.name.plain.not_mem (show nameTail '\n' = false by decide)]

theorem not_newline_rangeCode : '\n' ∉ x.rangeCode := by
  unfold rangeCode
  simp [x.name.plain.not_mem (show nameTail '\n' = false by decide),
    @not_mem_intChars '\n' _ (by decide) (by decide)]

end Register.Item

namespace Model

/-! ## The model of a class -/

section Class

open Register

variable {c : ClassDecl} {ip : List Char} {items kept : List Register.Item}

/-- The first lines of a class. -/
def openingLines (name : String) : List String :=
  let parent := className "uvm_sequence_item"
  let parents := s!"({parent})"
  ["@vsc.randobj", s!"class {className name}{parents}:",
    s!"    \"\"\"Translated from SV class: {name}\"\"\"", ""]

theorem filterMap_rangeOnly? (xs : List Register.Item) :
    (xs.map fun x => ofList x.condition).filterMap rangeOnly? =
      xs.map fun x => ofList x.rangeCode := by
  induction xs with
  | nil => rfl
  | cons x xs ih => rw [map_cons, filterMap_cons_some x.rangeOnly?_condition, ih, map_cons]

theorem rangeOnly?_isSome (hc : IsClass c ip items kept) :
    ∀ k ∈ c.constraints, (rangeOnly? k.body).isNone = false := by
  intro k hk
  have hmem : k.body ∈ kept.map fun x => ofList x.condition :=
    hc.bodies ▸ mem_map_of_mem hk
  obtain ⟨x, -, hx⟩ := mem_map.1 hmem
  rw [← hx, x.rangeOnly?_condition]
  rfl

theorem run_writeClass (hc : IsClass c ip items kept) (settings : Settings) (scope : Expr.Scope)
    (j : Journal) : ((writeClass settings scope c).run j).1 = join "\n" (openingLines c.name
      ++ setupLines settings.verbose c ++ rangeMethod (kept.map fun x => ofList x.rangeCode)) := by
  have hothers : c.constraints.filter (fun k => (rangeOnly? k.body).isNone) = [] := by
    rw [filter_eq_nil_iff]
    exact fun k hk => by simp [rangeOnly?_isSome hc k hk]
  have hranges : c.constraints.filterMap (fun k => rangeOnly? k.body) =
      kept.map fun x => ofList x.rangeCode := by
    have hbodies := filterMap_rangeOnly? kept
    rwa [← hc.bodies, filterMap_map, Function.comp_def] at hbodies
  simp only [writeClass, hranges, hothers, hc.parent, hc.pre, hc.post]
  have hnil (lines : List String) : join "\n" (lines ++ [] ++ [] ++ []) = join "\n" lines := by simp
  split <;> exact hnil (openingLines c.name ++ setupLines settings.verbose c ++
    rangeMethod (kept.map fun x => ofList x.rangeCode))

theorem undeclaredParents_class (hc : IsClass c ip items kept) :
    undeclaredParents [c] = ["uvm_sequence_item"] := by
  have hname : (c.name == "uvm_sequence_item") = false := by
    rw [beq_eq_false_iff_ne, hc.name]
    intro h
    have hsuffix : "_rand_item".toList <:+ "uvm_sequence_item".toList :=
      ⟨ip, toList_ofList.symm.trans (congrArg String.toList h)⟩
    revert hsuffix
    decide
  rw [undeclaredParents, filterMap_cons, hc.parent]
  simp [Option.filter, beq_eq_false_iff_ne.1 hname]

theorem run_writeStubs (parent : String) (j : Journal) :
    ((writeStubs [parent]).run j).1 = join "\n" (stubHead ++ stubLines parent) := by
  have hsorted : Text.sorted (distinct [parent]) = [parent] := by
    simp [Text.sorted, distinct]
  unfold writeStubs
  rw [hsorted]
  show join "\n" (stubHead ++ [parent].flatMap stubLines) = _
  rw [flatMap_singleton]

theorem run_writeChecked (settings : Settings) (scope : Expr.Scope) (j : Journal) :
    ((writeChecked settings scope c).run j).1 = ((writeClass settings scope c).run j).1 := by
  unfold writeChecked
  split <;> rfl

theorem run_writeParts (hc : IsClass c ip items kept) (settings : Settings) (jobs : Int)
    (scope : Expr.Scope) (j : Journal) :
    ((writeParts settings jobs scope { enums := [], classes := [c] }).run j).1 =
      [join "\n" (stubHead ++ stubLines "uvm_sequence_item"), join "\n" (openingLines c.name
        ++ setupLines settings.verbose c
        ++ rangeMethod (kept.map fun x => ofList x.rangeCode))] := by
  have hjobs : (decide (jobs > 1) && decide ([c].length > 1)) = false := by simp
  have hparts (stubs : Writing String) (classes : Writing (List String)) : ((do
      let enums ← writeEnums (distinctEnums [])
      let stubs ← (fun text => [text]) <$> stubs
      let classes ← classes
      pure (enums ++ stubs ++ classes) : Writing (List String)).run j).1 =
        (stubs.run j).1 :: (classes.run (stubs.run j).2).1 := rfl
  have hturn (j : Journal) : ((writeInTurn settings scope [c]).run j).1 =
      [((writeChecked settings scope c).run j).1] := rfl
  unfold writeParts
  simp only [undeclaredParents_class hc, hjobs, isEmpty_cons, Bool.false_eq_true, if_false]
  rw [hparts, run_writeStubs, hturn, run_writeChecked, run_writeClass hc]

end Class

end Model

end Stimulus
