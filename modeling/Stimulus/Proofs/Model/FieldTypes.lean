import Mathlib.Data.Int.ConditionallyCompleteOrder
import Mathlib.Order.ConditionallyCompleteLattice.Basic
import Stimulus.Override.Source
import Stimulus.Proofs.Override.Table
import Stimulus.Proofs.Register.ClassSpec

/-!
# Types of fields read back

The line that declares a random field in a model is read twice: for its specification, and for its
bounds in an override table.
-/

open String (ofList toList_ofList)

namespace Stimulus.Model

open Pattern Text Sv Scan Stimulus.Vector Stimulus.Override

/-- A field of a type with a width of its own or given by its declaration. -/
structure IsPlain (f : Sv.Field) : Prop where
  type : (f.dataType = .bit ∨ f.dataType = .logic) ∧ 0 < f.width ∨
    ∃ w, f.dataType.fixedWidth? = some w ∧ f.width = w
  name : IsWord f.name.toList
  source : '.' ∉ f.source.toList

/-- A random field with one value that is of no enumeration. -/
structure IsScalar (f : Sv.Field) : Prop extends IsPlain f where
  mode : f.mode = .rand
  extent : f.extent = .single
  enumType : f.enumType = none

/-- A vector of bits with a sign. -/
def IsSignedBits (f : FieldShape) : Prop := (f.dataType = .bit ∨ f.dataType = .logic) ∧ f.signed = true

instance (f : FieldShape) : Decidable (IsSignedBits f) := inferInstanceAs (Decidable (_ ∧ _))

/-- The widths of the types that have their own. -/
def fixedWidths : List Nat := [8, 16, 32, 64]

theorem mem_fixedWidths {type : DataType} {w : Nat} (h : type.fixedWidth? = some w) : w ∈ fixedWidths := by
  cases type with
  | bit | logic | named => cases h
  | byte | shortint | int | longint =>
    obtain rfl := Option.some.inj h
    decide

/-! ## The type that is written -/

/-- The name of the solver type, without the marks of a random one. -/
def solverName (type : DataType) (signed : Bool) : String :=
  match type with
  | .bit | .logic => if signed then "int" else "bit"
  | .byte => if signed then "int8" else "uint8"
  | .shortint => if signed then "int16" else "uint16"
  | .int => if signed then "int32" else "uint32"
  | .longint => if signed then "int64" else "uint64"
  | .named _ => "bit"

/-- The arguments of the solver type. -/
def solverArgs (type : DataType) (width : Int) : List Char :=
  if type.fixedWidth?.isSome then [] else intChars width

theorem toList_valueType (f : FieldShape) : (valueType f).toList =
    (solverName f.dataType f.signed).toList ++
      ("_t(".toList ++ (solverArgs f.dataType f.width ++ ")".toList)) := by
  obtain ⟨width, mode, extent, enumType, source, type, signed⟩ := f
  have hsized (name : String) : (name ++ "_t(" ++ toString width ++ ")").toList =
      name.toList ++ ("_t(".toList ++ (intChars width ++ ")".toList)) := by
    simp only [String.toList_append, toList_toString_int, List.append_assoc]
  have hfixed : ∀ type ∈ [DataType.byte, .shortint, .int, .longint], ∀ signed,
      (valueType { width := 0, mode := .rand, source := "", dataType := type, signed }).toList =
        (solverName type signed).toList ++ ("_t(".toList ++ ([] ++ ")".toList)) := by decide
  cases type with
  | bit | logic =>
    cases signed with
    | false => exact hsized "bit"
    | true => exact hsized "int"
  | named => exact hsized "bit"
  | byte => exact hfixed .byte (by decide) signed
  | shortint => exact hfixed .shortint (by decide) signed
  | int => exact hfixed .int (by decide) signed
  | longint => exact hfixed .longint (by decide) signed

/-- The name of a type with the marks of a random one. -/
def randName (name : String) : List Char := "rand_".toList ++ (name.toList ++ "_t".toList)

theorem isWord_randName (type : DataType) (signed : Bool) : IsWord (randName (solverName type signed)) := by
  cases type with
  | named => exact ⟨by simp [randName], by show ∀ c ∈ randName "bit", _; decide⟩
  | bit | logic | byte | shortint | int | longint =>
    cases signed <;> exact ⟨by decide, by decide⟩

theorem mem_solverArgs {type : DataType} {width : Int} {c : Char} (h : c ∈ solverArgs type width) :
    c = '-' ∨ c.isDigit = true := by
  unfold solverArgs at h
  split at h
  · cases h
  · exact mem_intChars h

/-- The characters of the type of a field. -/
def typeChars (f : FieldShape) : List Char :=
  typeText (randName (solverName f.dataType f.signed)) (solverArgs f.dataType f.width)

theorem toList_fieldValue {f : Sv.Field} (h : IsScalar f) :
    (fieldValue f.toFieldShape).toList = typeChars f.toFieldShape := by
  have hvalue : fieldValue f.toFieldShape = "vsc.rand_" ++ valueType f.toFieldShape := by
    unfold fieldValue fieldType
    rw [h.enumType, h.extent, h.mode]
  rw [hvalue, String.toList_append, toList_valueType]
  simp [typeChars, typeText, randName]

/-! ## The type that is read -/

/-- What is read from the type of a field. -/
def readType (f : FieldShape) : Outcome (Option FieldType) :=
  if IsSignedBits f then .ok none
  else if IsShort f.width then .ok (some ⟨solverName f.dataType f.signed, f.signed, f.width.toNat⟩)
  else .error (.longInteger (digitsOf f.width.natAbs).length)

/-- What the patterns of types start with, after the name of the library. -/
def typeLeads : List String :=
  ["rand_bit_t(", "randc_bit_t(", "rand_uint8_t()", "rand_uint16_t()", "rand_uint32_t()",
    "rand_uint64_t()", "rand_int8_t()", "rand_int16_t()", "rand_int32_t()", "rand_int64_t()",
    "rand_enum_t("]

theorem leads_typePatterns : List.Forall₂ (fun (p : Pattern × FieldType) w => Leads p.1 w) typePatterns
    (typeLeads.map fun w => "vsc.".toList ++ w.toList) := by
  refine .cons (leads_lit _).seq.seq (.cons (leads_lit _).seq.seq ?_)
  iterate 8 refine .cons (leads_lit _) ?_
  exact .cons (leads_lit _).seq.seq .nil

theorem of?_int (n : Int) :
    FieldType.of? (ofList (typeText (randName "int") (intChars n))) = .ok none := by
  rw [FieldType.of?, List.findSome?_eq_none_iff.2]
  · intro p hp
    obtain ⟨w, hw, hleads⟩ := Outcome.exists_right_of_forall₂ leads_typePatterns hp
    obtain ⟨l, hl, rfl⟩ := List.mem_map.1 hw
    have hcheck : ∀ l ∈ typeLeads,
        shunsCheck ("vsc.".toList ++ l.toList) "vsc.rand_int_t(".toList = true := by decide
    have hdigits : 'v' ∉ intChars n ++ ")".toList := by
      rw [List.mem_append, not_or]
      exact ⟨not_mem_intChars (by decide) (by decide), by decide⟩
    have hshuns := (shuns_of_check (hcheck l hl)).append
      (@shuns_of_not_mem ("sc.".toList ++ l.toList) _ _ hdigits)
    exact Option.map_eq_none_iff.2 (search?_of_shuns hleads (by simp) hshuns)

theorem of?_bit {n : Int} (hn : 0 < n) :
    FieldType.of? (ofList (typeText (randName "bit") (intChars n))) =
      if IsShort n then .ok (some ⟨"bit", false, n.toNat⟩)
      else .error (.longInteger (digitsOf n.natAbs).length) := by
  have hreads : Reads (lit "vsc.rand_bit_t(" ++ group 1 digits ++ lit ")") [] []
      (typeText (randName "bit") (intChars n)) [] [(1, intChars n)] := by
    have hcut : typeText (randName "bit") (intChars n) =
        "vsc.rand_bit_t(".toList ++ (intChars n ++ ")".toList) := by
      simp [typeText, randName]
    rw [hcut]
    show Reads (lit "vsc.rand_bit_t(" ++ (group 1 digits ++ lit ")")) _ _ _ _ _
    refine reads_lit.seq ((Reads.group (reads_run ?_ ?_ ?_) 1).seq reads_lit)
    · intro c hc
      have hdigit : c.isDigit = true := by
        rw [intChars, if_neg (by omega)] at hc
        exact isDigit_of_mem_digitsOf hc
      rw [isDecimal, digitValue?_of_isDigit hdigit]
      rfl
    · simp
      decide
    · exact List.length_pos_iff.2 (intChars_ne_nil n)
  obtain ⟨a, b, hsearch, -, -, hpieces⟩ := @Reads.searchFrom _ _ _ _ _ 0 [] (by simp) hreads
  have hfound : (lit "vsc.rand_bit_t(" ++ group 1 digits ++ lit ")").search?
      (ofList (typeText (randName "bit") (intChars n))) = some (Match.between a b) := by
    rw [search?, toList_ofList]
    rw [List.nil_append, List.append_nil] at hsearch
    rw [hsearch]
    rfl
  have hlit : toString "vsc." ++ toString "rand_bit" ++ toString "_t(" = "vsc.rand_bit_t(" := by
    decide
  have hgroup : (Match.between a b).group? 1 = some (ofList (intChars n)) := by
    rw [Match.group?_eq, hpieces]
    rfl
  rw [← hlit] at hfound
  rw [FieldType.of?, typePatterns, List.findSome?_cons]
  dsimp only
  rw [hfound]
  simp only [Option.map_some, hgroup, integer_intChars]
  split <;> rfl

theorem of?_fixed {type : DataType} {w : Nat} (h : type.fixedWidth? = some w) (signed : Bool) :
    FieldType.of? (ofList (typeText (randName (solverName type signed)) [])) =
      .ok (some ⟨solverName type signed, signed, w⟩) := by
  cases type with
  | bit | logic | named => cases h
  | byte | shortint | int | longint =>
    obtain rfl := Option.some.inj h
    cases signed <;> decide

theorem of?_typeChars {f : Sv.Field} (h : IsScalar f) :
    FieldType.of? (ofList (typeChars f.toFieldShape)) = readType f.toFieldShape := by
  unfold readType typeChars
  rcases h.type with ⟨hbits, hwidth⟩ | ⟨w, hw, hwidth⟩
  · have hargs : solverArgs f.dataType f.width = intChars f.width := by
      rcases hbits with hd | hd <;> rw [hd] <;> rfl
    rw [hargs]
    cases hsigned : f.signed with
    | true =>
      have hname : solverName f.dataType true = "int" := by
        rcases hbits with hd | hd <;> rw [hd] <;> rfl
      rw [hname, if_pos ⟨hbits, hsigned⟩, of?_int]
    | false =>
      have hname : solverName f.dataType false = "bit" := by
        rcases hbits with hd | hd <;> rw [hd] <;> rfl
      rw [hname, if_neg (by simp [IsSignedBits, hsigned]), of?_bit hwidth]
  · have hargs : solverArgs f.dataType f.width = [] := by
      rw [solverArgs, hw]
      rfl
    have hnot : ¬ IsSignedBits f.toFieldShape := by
      rintro ⟨hd | hd, -⟩ <;> rw [hd] at hw <;> cases hw
    have hshort : IsShort f.width := by
      have hall : ∀ w ∈ fixedWidths, IsShort w := by decide
      rw [hwidth]
      exact hall w (mem_fixedWidths hw)
    rw [hargs, if_neg hnot, if_pos hshort, of?_fixed hw, hwidth]
    rfl

/-! ## The line that is read -/

theorem lacks_of_dot_not_mem {p : Pattern} (hp : Leads p "self.".toList) {e : List Char} (he : '.' ∉ e) :
    Lacks p e := fun s hs => hp.walk_eq_none fun hpre => he (hs.subset (hpre.subset (by decide)))

section Line

variable {f : Sv.Field} (h : IsScalar f) (verbose : Bool)
include h

theorem fieldLine_eq : ∃ comment, '.' ∉ comment ∧ fieldLine verbose f = ofList (declText
    f.name.toList (randName (solverName f.dataType f.signed)) (solverArgs f.dataType f.width) ++ comment) := by
  have hline (comment : String) : "self." ++ f.name ++ " = " ++ fieldValue f.toFieldShape ++ comment =
      ofList (declText f.name.toList (randName (solverName f.dataType f.signed))
        (solverArgs f.dataType f.width) ++ comment.toList) := by
    rw [← String.toList_inj, toList_ofList]
    simp [toList_fieldValue h, declText, typeChars]
  by_cases hcomment : (verbose && !f.source.isEmpty) = true
  · refine ⟨("  # " ++ strip f.source).toList, ?_, ?_⟩
    · rw [String.toList_append, List.mem_append, not_or]
      exact ⟨by decide, fun hmem => h.source ((isInfix_strip _).subset hmem)⟩
    · rw [← hline, fieldLine, if_pos hcomment]
      rfl
  · refine ⟨"".toList, by simp, ?_⟩
    rw [← hline, fieldLine, if_neg hcomment]
    rfl

theorem findAll_fieldLine {p : Pattern} (hp : Asks p 'i') : p.findAll (fieldLine verbose f) = [] := by
  obtain ⟨comment, hcomment, hline⟩ := fieldLine_eq h verbose
  have hargs : '.' ∉ solverArgs f.dataType f.width := fun hmem => by
    rcases mem_solverArgs hmem with hc | hc <;> revert hc <;> decide
  rw [hline]
  exact (skips_declText hp h.name (isWord_randName _ _) hargs).findAll
    (lacks_of_dot_not_mem hp.leads hcomment)

theorem declarations_fieldLine : declarations (fieldLine verbose f) =
    (readType f.toFieldShape).map fun type => [(f.name, type)] := by
  obtain ⟨comment, hcomment, hline⟩ := fieldLine_eq h verbose
  have hargs : ')' ∉ solverArgs f.dataType f.width := fun hmem => by
    rcases mem_solverArgs hmem with hc | hc <;> revert hc <;> decide
  have hfinds : Finds declaration (fun m => (do return (m.group 1, ← FieldType.of? (m.group 2)) :
      Outcome (String × Option FieldType))) (declText f.name.toList
        (randName (solverName f.dataType f.signed)) (solverArgs f.dataType f.width))
      [(readType f.toFieldShape).map fun type => (f.name, type)] := by
    refine Reads.finds (by simp [declText]) (reads_declText h.name (isWord_randName _ _) hargs)
      fun m hm => ?_
    have hname : m.group 1 = f.name := by simp [Match.group_eq, hm]
    have htype : m.group 2 = ofList (typeChars f.toFieldShape) := by
      simp [Match.group_eq, hm, typeChars]
    simp only [hname, htype, of?_typeChars h]
    cases readType f.toFieldShape <;> rfl
  have hfind := hfinds.findAll (lacks_of_dot_not_mem asks_declaration.leads hcomment)
  rw [← hline] at hfind
  rw [declarations, Outcome.mapM_of_map (hfind.trans (List.map_id _).symm)]
  cases readType f.toFieldShape <;> rfl

theorem ranges_fieldLine : ranges (fieldLine verbose f) = .ok [] := by
  rw [ranges, findAll_fieldLine h verbose asks_range]
  rfl

theorem read_fieldLine : Specs.read true (fieldLine verbose f) =
    (readType f.toFieldShape).map fun type => [Specs.ofDeclaration f.name type] := by
  have hchoices : Specs.choices (fieldLine verbose f) = .ok [] := by
    rw [Specs.choices, findAll_fieldLine h verbose asks_choice]
    rfl
  rw [Specs.read, declarations_fieldLine h, ranges_fieldLine h, hchoices]
  cases readType f.toFieldShape <;> rfl

theorem ofModel_fieldLine : Table.ofModel (fieldLine verbose f) [] =
    (readType f.toFieldShape).map fun type =>
      [entryFor [] f.name (boundsOfType type).1 (boundsOfType type).2] := by
  rw [Table.ofModel, modelBounds, declarations_fieldLine h, ranges_fieldLine h]
  cases readType f.toFieldShape <;> rfl

end Line

/-! ## Width, sign and bounds -/

def values (f : FieldShape) : Set Int :=
  if f.signed then .Ico (-2 ^ (f.width.toNat - 1)) (2 ^ (f.width.toNat - 1)) else .Ico 0 (2 ^ f.width.toNat)

/-- The widest unsigned field whose bounds are written. -/
def mostBits : Nat := 14284

theorem two_pow_le_iff (n : Nat) : 2 ^ n ≤ 10 ^ mostDigits ↔ n ≤ mostBits := by
  have hlow : 2 ^ mostBits ≤ 10 ^ mostDigits := by decide +kernel
  have hhigh : 10 ^ mostDigits < 2 ^ (mostBits + 1) := by decide +kernel
  constructor
  · intro h
    exact Nat.lt_succ_iff.1 ((Nat.pow_lt_pow_iff_right (by decide)).1 (h.trans_lt hhigh))
  · intro h
    exact (Nat.pow_le_pow_right (by decide) h).trans hlow

theorem isLeast_typeBounds (f : FieldShape) :
    IsLeast (values f) (typeBounds f.signed f.width.toNat).1 ∧
      IsGreatest (values f) (typeBounds f.signed f.width.toNat).2 := by
  have hpow (n : Nat) : ((Decimal.pow2 n : Nat) : Int) = 2 ^ n := by simp [Decimal.pow2]
  have hpos (n : Nat) : (0 : Int) < 2 ^ n := Int.pow_pos (by decide)
  have hrange {a b : Int} (h : a < b) : IsLeast (.Ico a b) a ∧ IsGreatest (.Ico a b) (b - 1) :=
    ⟨isLeast_Ico h, ⟨by omega, by omega⟩, fun v hv => Int.le_sub_one_of_lt hv.2⟩
  unfold values typeBounds
  cases f.signed with
  | true =>
    have := hpos (f.width.toNat - 1)
    simpa only [hpow, if_true] using hrange (by omega)
  | false => simpa only [hpow, Bool.false_eq_true, if_false] using hrange (hpos f.width.toNat)

def RecoversSpec (d : Desk) (module : String) (f : Sv.Field) : Prop :=
  ∃ spec, ((Specs.ofModule module).on d).1 = .ok [spec] ∧ spec.name = f.name ∧ spec.width = f.width ∧
    spec.signed = f.signed

def RecoversBounds (d : Desk) (path target : String) (f : Sv.Field) : Prop :=
  ∃ e, ((Table.generate path target []).on d).1 = .ok [e] ∧ e.name = f.name ∧
    IsLeast (values f.toFieldShape) e.low ∧ IsGreatest (values f.toFieldShape) e.high

section Runs

variable {d : Desk} {path text : String}

theorem on_generate {target key : String} (h : d.store.read path = .ok text)
    (hkey : d.store.key? target = some key) :
    ((Table.generate path target []).on d).1 = Table.ofModel text [] >>= fun t =>
      if t.all Entry.isWritable then .ok t else .error (.badValue tooManyDigits) := by
  simp only [Table.generate, Table.save, Run.on_bind, Run.on_isThere, Store.exists_of_read h, Bool.not_true,
    Bool.false_eq_true, if_false, Run.on_readFile, h, Run.on_ofOutcome, Run.on_writeFile]
  cases Table.ofModel text [] with
  | error e => rfl
  | ok t =>
    simp only [Store.write_of_key hkey, Outcome.ok_bind]
    cases t.all Entry.isWritable <;> rfl

end Runs

section Recovery

variable {f : Sv.Field} (h : IsPlain f)
include h

theorem IsPlain.width_pos : 0 < f.width := by
  rcases h.type with ⟨-, hpos⟩ | ⟨w, hw, hwidth⟩
  · exact hpos
  · rw [hwidth]
    have hall : ∀ w ∈ fixedWidths, (0 : Int) < w := by decide
    exact hall w (mem_fixedWidths hw)

theorem isShort_typeBounds_iff (hbits : ¬ IsSignedBits f.toFieldShape) :
    IsShort (typeBounds f.signed f.width.toNat).1 ∧ IsShort (typeBounds f.signed f.width.toNat).2 ↔
      f.width ≤ mostBits := by
  have hwidth := h.width_pos
  rcases h.type with ⟨htype, -⟩ | ⟨w, hw, hw'⟩
  · have hsigned : f.signed = false := by simpa [IsSignedBits, htype] using hbits
    have hpow : ((Decimal.pow2 f.width.toNat : Nat) : Int) - 1 = ((2 ^ f.width.toNat - 1 : Nat) : Int) := by
      have := Nat.two_pow_pos f.width.toNat
      simp only [Decimal.pow2, Nat.pow_eq]
      omega
    have hlt (n : Nat) : 2 ^ n - 1 < 10 ^ mostDigits ↔ 2 ^ n ≤ 10 ^ mostDigits := by
      have := Nat.two_pow_pos n
      omega
    simp only [typeBounds, hsigned, Bool.false_eq_true, if_false, hpow, isShort_iff, Int.natAbs_natCast, hlt,
      two_pow_le_iff, Int.natAbs_zero]
    rw [and_iff_right (Nat.pow_pos (by decide))]
    omega
  · rw [hw']
    have hall : ∀ w ∈ fixedWidths, ∀ signed, IsShort (typeBounds signed w).1 ∧
        IsShort (typeBounds signed w).2 ∧ w ≤ mostBits := by decide
    obtain ⟨hlow, hhigh, hle⟩ := hall w (mem_fixedWidths hw) f.signed
    exact iff_of_true ⟨hlow, hhigh⟩ (Int.ofNat_le.2 hle)

end Recovery

theorem writeOne_eq_ok {name : String} {low high : Int} {e : Entry} :
    (if [entryFor [] name low high].all Entry.isWritable then .ok [entryFor [] name low high]
      else .error (.badValue tooManyDigits) : Outcome Table) = .ok [e] ↔
        (IsShort low ∧ IsShort high) ∧ e = ⟨name, 0, low, high, low, high, []⟩ := by
  have hzero : IsShort 0 := by decide
  have hshort : (entryFor [] name low high).isWritable = true ↔ IsShort low ∧ IsShort high := by
    rw [Table.Entry.isWritable_iff]
    simp only [entryFor, Table.get?, List.find?_nil, List.forall_mem_cons, hzero, true_and]
    exact ⟨fun hall => ⟨hall.1, hall.2.1⟩, fun h => ⟨h.1, h.2, h.1, h.2, by simp⟩⟩
  rw [← hshort, List.all_cons, List.all_nil, Bool.and_true]
  cases (entryFor [] name low high).isWritable with
  | false => simp
  | true =>
    rw [if_pos rfl, and_iff_right rfl, Except.ok.injEq, List.cons.injEq, and_iff_left rfl]
    exact eq_comm

section Main

variable {f : Sv.Field} (h : IsScalar f) {d : Desk} {verbose : Bool}
include h

theorem recoversSpec_iff {module : String}
    (hread : d.store.read (Specs.modulePath module ".py") = .ok (fieldLine verbose f)) :
    RecoversSpec d module f ↔
      if IsSignedBits f.toFieldShape then f.width = 32 else f.width < 10 ^ mostDigits := by
  have hwidth := h.width_pos
  unfold RecoversSpec
  rw [on_ofModule hread, read_fieldLine h, readType]
  by_cases hbits : IsSignedBits f.toFieldShape
  · rw [if_pos hbits, if_pos hbits]
    constructor
    · rintro ⟨spec, hspec, -, hw, -⟩
      obtain rfl := (List.cons.inj (Except.ok.inj hspec)).1
      exact hw.symm
    · intro hw
      exact ⟨_, rfl, rfl, hw.symm, hbits.2.symm⟩
  · rw [if_neg hbits, if_neg hbits]
    have hshort : IsShort f.width ↔ f.width < 10 ^ mostDigits := by
      have hcast : (f.width.natAbs : Int) = f.width := by omega
      rw [isShort_iff, ← Int.ofNat_lt, hcast, Int.natCast_pow]
      rfl
    rw [← hshort]
    by_cases hs : IsShort f.width
    · rw [if_pos hs]
      exact iff_of_true ⟨_, rfl, rfl, Int.toNat_of_nonneg hwidth.le, rfl⟩ hs
    · rw [if_neg hs]
      refine iff_of_false ?_ hs
      rintro ⟨spec, hspec, -⟩
      cases hspec

theorem recoversBounds_iff {path target key : String} (hread : d.store.read path = .ok (fieldLine verbose f))
    (hkey : d.store.key? target = some key) :
    RecoversBounds d path target f ↔ ¬ IsSignedBits f.toFieldShape ∧ f.width ≤ mostBits := by
  have hwidth := h.width_pos
  have hrun : ((Table.generate path target []).on d).1 = readType f.toFieldShape >>= fun type =>
      if [entryFor [] f.name (boundsOfType type).1 (boundsOfType type).2].all Entry.isWritable then
        .ok [entryFor [] f.name (boundsOfType type).1 (boundsOfType type).2]
      else .error (.badValue tooManyDigits) := by
    rw [on_generate hread hkey, ofModel_fieldLine h]
    cases readType f.toFieldShape <;> rfl
  unfold RecoversBounds
  rw [hrun, readType]
  by_cases hbits : IsSignedBits f.toFieldShape
  · -- The least value is negative, and the one that is found is not.
    simp only [if_pos hbits, Outcome.ok_bind, writeOne_eq_ok]
    refine iff_of_false ?_ fun hok => hok.1 hbits
    rintro ⟨e, ⟨-, rfl⟩, -, hleast, -⟩
    have hle := hleast.2 (isLeast_typeBounds f.toFieldShape).1.1
    rw [hbits.2] at hle
    have hpos := Nat.two_pow_pos (f.width.toNat - 1)
    simp only [typeBounds, boundsOfType, Decimal.pow2, Nat.pow_eq, if_true, Bool.false_eq_true, if_false] at hle
    omega
  · rw [if_neg hbits, and_iff_right hbits]
    by_cases hs : IsShort f.width
    · rw [← isShort_typeBounds_iff h.toIsPlain hbits]
      simp only [if_pos hs, Outcome.ok_bind, writeOne_eq_ok]
      constructor
      · rintro ⟨e, ⟨hshort, -⟩, -⟩
        exact hshort
      · intro hshort
        exact ⟨_, ⟨hshort, rfl⟩, rfl, isLeast_typeBounds f.toFieldShape⟩
    · simp only [if_neg hs, Outcome.error_bind]
      refine iff_of_false (by simp) fun hle => hs (isShort_iff.2 ?_)
      have hmost : mostBits < 10 ^ mostDigits := by decide +kernel
      omega

end Main

/-- A random field with one value is written as a line of which width and sign are found again if it is no
vector of bits with a sign other than one of 32, and the bounds if it is no vector of bits with a sign at
all. Numbers that are too long are lost as well. -/
theorem field_types_recovered_iff {f : Sv.Field} (h : IsScalar f) {d : Desk} {module target key : String}
    {verbose : Bool} (hread : d.store.read (Specs.modulePath module ".py") = .ok (fieldLine verbose f))
    (hkey : d.store.key? target = some key) :
    (RecoversSpec d module f ↔
        if IsSignedBits f.toFieldShape then f.width = 32 else f.width < 10 ^ mostDigits) ∧
      (RecoversBounds d (Specs.modulePath module ".py") target f ↔
        ¬ IsSignedBits f.toFieldShape ∧ f.width ≤ mostBits) :=
  ⟨recoversSpec_iff h hread, recoversBounds_iff h hread hkey⟩

/-- A field of eight bits, with a sign or without. -/
def byteOf (name : String) (signed : Bool) : Sv.Field where
  name := name
  width := 8
  mode := .rand
  signed := signed
  dataType := .bit
  source := if signed then "rand bit signed [7:0] " ++ name ++ ";" else "rand bit [7:0] " ++ name ++ ";"

/-- Of two fields of eight bits only the one without a sign is found again. -/
theorem field_types_of_bytes :
    let gain := byteOf "gain" true
    let mode := byteOf "mode" false
    let desk (f : Sv.Field) : Desk := { store := { files := [("model.py", fieldLine true f)] } }
    readFields "rand bit signed [7:0] gain; rand bit [7:0] mode;" = .ok [gain, mode] ∧
      (¬ RecoversSpec (desk gain) "model" gain ∧
        ¬ RecoversBounds (desk gain) (Specs.modulePath "model" ".py") "t.csv" gain) ∧
      RecoversSpec (desk mode) "model" mode ∧
        RecoversBounds (desk mode) (Specs.modulePath "model" ".py") "t.csv" mode := by
  intro gain mode desk
  have hfs : readFields "rand bit signed [7:0] gain; rand bit [7:0] mode;" = .ok [gain, mode] := by
    decide +kernel
  have hgain : IsScalar gain := ⟨⟨.inl ⟨.inl rfl, by decide⟩, ⟨by decide, by decide⟩, by decide⟩, rfl, rfl, rfl⟩
  have hmode : IsScalar mode := ⟨⟨.inl ⟨.inl rfl, by decide⟩, ⟨by decide, by decide⟩, by decide⟩, rfl, rfl, rfl⟩
  have hgain := @field_types_recovered_iff gain hgain (desk gain) "model" "t.csv" "t.csv" true
    (by decide +kernel) (by decide +kernel)
  have hmode := @field_types_recovered_iff mode hmode (desk mode) "model" "t.csv" "t.csv" true
    (by decide +kernel) (by decide +kernel)
  refine ⟨hfs, ⟨fun h => ?_, fun h => ?_⟩, hmode.1.2 (by decide +kernel), hmode.2.2 (by decide +kernel)⟩
  · have := hgain.1.1 h
    revert this
    decide
  · have := hgain.2.1 h
    revert this
    decide

end Stimulus.Model
