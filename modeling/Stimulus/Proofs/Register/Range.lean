import Mathlib.Data.List.Nodup
import Stimulus.Proofs.Register.Item

/-!
# Whose range a parameter gets

Parameters are written one after the other, each with its two bounds, and line breaks stand at will
between tags. A parameter gets its own range in the class if its name is the first on its row, and
if the last bounds up to the next later row that closes a parameter are its own.
-/

open List

namespace Stimulus.Register

open Text Sv

variable {rows : List Row} {p : Param}

/-! ## Parameters and layouts -/

/-- A parameter with its bounds. -/
structure Param where
  name : Label
  low : Int
  high : Int
  /-- The upper bound stands before the lower one. -/
  highFirst : Bool := false
deriving DecidableEq

/-- The tags of an element that gives a bound. -/
def Side.element (side : Side) (value : Int) : List Tag :=
  [.boundStart side, .bound side value, .boundStop side]

namespace Param

/-- The tags of a parameter. -/
def tags (p : Param) : List Tag :=
  .start p.name :: (if p.highFirst then Side.high.element p.high ++ Side.low.element p.low
    else Side.low.element p.low ++ Side.high.element p.high) ++ [.stop]

/-- The bounds of a parameter. -/
def bounds (p : Param) : Bounds := ⟨p.low, p.high, true⟩

/-- The condition of the range of a parameter. -/
def rangeText (p : Param) : String :=
  s!"({p.name.name} >= {p.low} && {p.name.name} <= {p.high});"

/-- The declaration of a parameter that may be negative. -/
def signedText (p : Param) : String := s!" rand bit signed [31:0] {p.name.name};"

/-- The declaration of a parameter that is never negative. -/
def unsignedText (p : Param) : String := s!" rand bit [31:0] {p.name.name};"

end Param

/-- The tag belongs to the block of registers as a whole. -/
def Tag.isMap : Tag → Bool
  | mapStart _ | mapStop => true
  | _ => false

/-- The rows hold the parameters in order, in a block of registers at will, with line breaks anywhere
between tags. -/
def Lays (ps : List Param) (rows : List Row) : Prop :=
  ∃ front back, (∀ t ∈ front ++ back, t.isMap = true) ∧
    rows.flatMap Row.tags = front ++ ps.flatMap Param.tags ++ back

/-- The block of the parameter gives its own bounds: its name is the first on its row, and its bounds
are the last ones up to the next later row that closes a parameter. -/
def Own (rows : List Row) (p : Param) : Prop :=
  ∃ front r back, rows = front ++ r :: back ∧ r.name? = some p.name ∧
    boundsOf (r :: upToStop back) = p.bounds

theorem own_iff : Own rows p ↔ (p.name, p.bounds) ∈ seen rows := by
  simp only [seen, mem_map, Prod.exists, Prod.mk.injEq]
  constructor
  · rintro ⟨front, r, back, hrows, hname, hbounds⟩
    exact ⟨p.name, r :: upToStop back, mem_blocks.2 ⟨front, r, back, hrows, hname, rfl⟩, rfl, hbounds⟩
  · rintro ⟨n, block, hblock, rfl, hbounds⟩
    obtain ⟨front, r, back, hrows, hname, rfl⟩ := mem_blocks.1 hblock
    exact ⟨front, r, back, hrows, hname, hbounds⟩

theorem Own.isShort (h : Own rows p)
    (hread : ∀ b ∈ blocks rows, Readable b.2) : IsShort p.low ∧ IsShort p.high := by
  obtain ⟨front, r, back, hrows, hname, hbounds⟩ := h
  have hblock := hread _ (mem_blocks.2 ⟨front, r, back, hrows, hname, rfl⟩)
  have hlast (side : Side) : IsShort ((valuesOf side (r :: upToStop back)).getLastD 0) := by
    cases hvalues : (valuesOf side (r :: upToStop back)).getLast? with
    | none =>
      rw [getLastD_eq_getLast?, hvalues]
      decide
    | some v =>
      rw [getLastD_eq_getLast?, hvalues]
      exact hblock side v (mem_of_getLast? hvalues)
  have hlow : (valuesOf .low (r :: upToStop back)).getLastD 0 = p.low := congrArg Bounds.low hbounds
  have hhigh : (valuesOf .high (r :: upToStop back)).getLastD 0 = p.high :=
    congrArg Bounds.high hbounds
  exact ⟨hlow ▸ hlast .low, hhigh ▸ hlast .high⟩

instance (rows : List Row) (p : Param) : Decidable (Own rows p) := decidable_of_iff' _ own_iff

/-! ## What a layout holds -/

theorem isChain_append {tags more : List Tag} (htags : tags.IsChain Tag.Before)
    (hmore : more.IsChain Tag.Before) (hlast : ∀ t ∈ tags.getLast?, ∀ u, t.Before u) :
    (tags ++ more).IsChain Tag.Before :=
  List.isChain_append.2 ⟨htags, hmore, fun t ht u _ => hlast t ht u⟩

theorem Tag.before_of_isMap {t : Tag} (h : t.isMap = true) (u : Tag) : t.Before u := by
  cases t <;> simp_all [Tag.isMap, Tag.Before]

theorem isChain_of_isMap {tags : List Tag} (h : ∀ t ∈ tags, t.isMap = true) :
    tags.IsChain Tag.Before := by
  induction tags with
  | nil => exact .nil
  | cons t tags ih =>
    obtain ⟨ht, htags⟩ := forall_mem_cons.1 h
    have hlast : ∀ u ∈ [t].getLast?, ∀ v, u.Before v := by simpa using Tag.before_of_isMap ht
    exact isChain_append (.singleton t) (ih htags) hlast

theorem isChain_params (ps : List Param) {more : List Tag} (hmore : more.IsChain Tag.Before) :
    (ps.flatMap Param.tags ++ more).IsChain Tag.Before := by
  induction ps with
  | nil => exact hmore
  | cons p ps ih =>
    rw [flatMap_cons, append_assoc]
    refine isChain_append ?_ ih ?_
    · unfold Param.tags
      cases p.highFirst <;> simp [Side.element, Tag.Before]
    · rw [Param.tags, getLast?_concat]
      simp [Tag.Before]

theorem Tag.name?_of_isMap {t : Tag} (h : t.isMap = true) : t.name? = none := by
  cases t with
  | start => cases h
  | _ => rfl

theorem filterMap_name?_params (ps : List Param) :
    (ps.flatMap Param.tags).filterMap Tag.name? = ps.map Param.name := by
  induction ps with
  | nil => rfl
  | cons p ps ih =>
    rw [flatMap_cons, filterMap_append, ih]
    unfold Param.tags
    cases p.highFirst <;> rfl

theorem of_bound_mem_tags {side : Side} {v : Int} (h : .bound side v ∈ p.tags) :
    v = p.low ∨ v = p.high := by
  unfold Param.tags at h
  cases hp : p.highFirst <;> simp [hp, Side.element] at h <;> tauto

theorem bound_mem_of_whole? {r : Row} {side : Side} {v : Int} (h : r.whole? side = some v) :
    ∃ s, .bound s v ∈ r.tags := by
  unfold Row.whole? at h
  split at h
  · next t s w u rest hdrop =>
    obtain rfl := Option.some.inj h
    exact ⟨s, (hdrop ▸ dropWhile_suffix _ : _ <:+ r.tags).subset (by simp)⟩
  · cases h

theorem names_sublist_tags (rows : List Row) :
    ((seen rows).map Prod.fst).Sublist ((rows.flatMap Row.tags).filterMap Tag.name?) := by
  induction rows with
  | nil => exact .slnil
  | cons r rows ih =>
    rw [flatMap_cons, filterMap_append]
    cases hname : r.name? with
    | none =>
      have hblocks : blocks (r :: rows) = blocks rows := by rw [blocks, hname]
      rw [seen, hblocks]
      exact ih.trans (sublist_append_right _ _)
    | some n =>
      have hblocks : blocks (r :: rows) = (n, r :: upToStop rows) :: blocks rows := by
        rw [blocks, hname]
      have hfirst : [n].Sublist (r.tags.filterMap Tag.name?) := by
        rw [Row.name?, ← head?_filterMap] at hname
        exact singleton_sublist.2 (mem_of_mem_head? hname)
      rw [seen, hblocks]
      exact hfirst.append ih

section Layouts

variable {ps : List Param} {rows : List Row} (h : Lays ps rows)
include h

theorem Lays.ordered : Ordered rows := by
  obtain ⟨front, back, hmap, hrows⟩ := h
  obtain ⟨hfront, hback⟩ := forall_mem_append.1 hmap
  have hchain : (rows.flatMap Row.tags).IsChain Tag.Before := by
    rw [hrows, append_assoc]
    exact isChain_append (isChain_of_isMap hfront) (isChain_params ps (isChain_of_isMap hback))
      fun t ht => Tag.before_of_isMap (hfront t (mem_of_mem_getLast? ht))
  intro r hr
  obtain ⟨a, b, rfl⟩ := append_of_mem hr
  rw [flatMap_append, flatMap_cons] at hchain
  exact hchain.right_of_append.left_of_append

theorem Lays.names_sublist : ((seen rows).map Prod.fst).Sublist (ps.map Param.name) := by
  obtain ⟨front, back, hmap, hrows⟩ := h
  obtain ⟨hfront, hback⟩ := forall_mem_append.1 hmap
  have hnone {tags : List Tag} (htags : ∀ t ∈ tags, t.isMap = true) :
      tags.filterMap Tag.name? = [] :=
    filterMap_eq_nil_iff.2 fun t ht => Tag.name?_of_isMap (htags t ht)
  have hall : (rows.flatMap Row.tags).filterMap Tag.name? = ps.map Param.name := by
    rw [hrows, filterMap_append, filterMap_append, hnone hfront, hnone hback,
      filterMap_name?_params, nil_append, append_nil]
  rw [← hall]
  exact names_sublist_tags rows

theorem Lays.mem_valuesOf {b : Label × List Row} (hb : b ∈ blocks rows) {side : Side} {v : Int}
    (hv : v ∈ valuesOf side b.2) : ∃ p ∈ ps, v = p.low ∨ v = p.high := by
  obtain ⟨front, back, hmap, hrows⟩ := h
  obtain ⟨r, hr, hwhole⟩ := mem_filterMap.1 hv
  obtain ⟨s, hbound⟩ := bound_mem_of_whole? hwhole
  have hmem : Tag.bound s v ∈ rows.flatMap Row.tags :=
    mem_flatMap.2 ⟨r, subset_of_mem_blocks hb hr, hbound⟩
  rw [hrows, append_assoc, mem_append, mem_append, or_left_comm, ← mem_append] at hmem
  rcases hmem with hmem | hmem
  · obtain ⟨p, hp, hmem⟩ := mem_flatMap.1 hmem
    exact ⟨p, hp, of_bound_mem_tags hmem⟩
  · cases hmap _ hmem

end Layouts

/-! ## The class that is written -/

/-- The program ends well and leaves this class at its target. -/
def Writes (d : Desk) (source target sv : String) : Prop :=
  ∃ after, (convert source target).on d = (.ok (), after) ∧
    d.store.write target sv = .ok after.store

/-- The class bounds the parameter with its own values, and declares it as signed if and only if it
may be negative. -/
def OwnRange (sv : String) (p : Param) : Prop :=
  contains p.rangeText sv = true ∧ (contains p.signedText sv = true ↔ p.low < 0) ∧
    (contains p.unsignedText sv = true ↔ 0 ≤ p.low)

theorem toList_rangeText (p : Param) :
    p.rangeText.toList = '(' :: (rangeChars p.name p.low p.high ++ [')', ';']) := by
  rw [rangeChars, ← toList_toString_int, ← toList_toString_int]
  unfold Param.rangeText
  simp [toString, Label.name]

theorem toList_signedText (p : Param) : p.signedText.toList =
    typeChars true ++ '[' :: ("31:0] ".toList ++ (p.name.chars ++ [';'])) := by
  unfold Param.signedText typeChars
  simp [toString, Label.name]

theorem toList_unsignedText (p : Param) : p.unsignedText.toList =
    typeChars false ++ '[' :: ("31:0] ".toList ++ (p.name.chars ++ [';'])) := by
  unfold Param.unsignedText typeChars
  simp [toString, Label.name]

theorem nameTail_ipOf {ip : String} (h : ∀ c ∈ ip.toList, nameTail c = true) :
    ∀ c ∈ (ipOf ip rows).toList, nameTail c = true := by
  induction rows generalizing ip with
  | nil => exact h
  | cons r rows ih =>
    have hnext : ∀ c ∈ (r.ip?.getD ip).toList, nameTail c = true := by
      cases hip : r.ip? with
      | none => exact h
      | some s =>
        unfold Row.ip? at hip
        split at hip
        · obtain ⟨n, -, rfl⟩ := Option.map_eq_some_iff.1 hip
          rw [Label.name, lower_plain n.plain, Option.getD_some, String.toList_ofList]
          exact (isPlain_map_toLower n.plain).chars
        · cases hip
    exact ih hnext

/-- In the class of the fields that are seen, a parameter has its own range if it is seen with it,
provided no name is seen twice. -/
theorem ownRange_iff (hnodup : ((seen rows).map Prod.fst).Nodup) (p : Param) :
    OwnRange (itemText (ipOf "" rows) (.concat ((seen rows).map fieldOf))) p ↔ Own rows p := by
  have hip : ∀ c ∈ (ipOf "" rows).toList, nameTail c = true := nameTail_ipOf (by simp)
  rw [OwnRange, contains_iff, contains_iff, contains_iff, toList_rangeText, toList_signedText,
    toList_unsignedText, infix_range_iff hip, infix_declaration_iff hip, infix_declaration_iff hip,
    own_iff]
  refine and_iff_left_of_imp fun hseen => ?_
  have honly {b : Bounds} (hb : (p.name, b) ∈ seen rows) : b = p.bounds :=
    congrArg Prod.snd (inj_on_of_nodup_map hnodup hb hseen rfl)
  have hlow {signed : Bool} : (∃ b, (p.name, b) ∈ seen rows ∧ decide (b.low < 0) = signed) ↔
      decide (p.low < 0) = signed := by
    refine ⟨fun ⟨b, hb, hlow⟩ => ?_, fun hlow => ⟨p.bounds, hseen, hlow⟩⟩
    rwa [honly hb] at hlow
  rw [hlow, hlow]
  simp

open Run in
theorem writes_iff {d : Desk} {source target : String}
    (hread : d.store.read source = .ok (textOf rows))
    (hwrite : ∀ sv, ∃ store, d.store.write target sv = .ok store) (sv : String) :
    Writes d source target sv ↔ (scan (rows.map Row.line)).bind Scan.itemText = .ok sv := by
  obtain ⟨out, hconvert⟩ := on_convert hread target ""
  rw [Writes, hconvert, on_bind, on_ofOutcome]
  cases (scan (rows.map Row.line)).bind Scan.itemText with
  | error e => simp
  | ok text =>
    obtain ⟨store, hstore⟩ := hwrite text
    simp only [on_bind, on_writeFile, hstore, on_sayLine, Prod.mk.injEq, true_and, exists_eq_left',
      Except.ok.injEq]
    constructor
    · intro h
      exact Store.write_injective hstore h
    · rintro rfl
      exact hstore

/-- All parameters get their own ranges if and only if each of them is the first that its row opens,
with its own bounds as the last ones up to the next later row that closes a parameter, and all bounds
can be read. -/
theorem convert_ranges_iff {ps : List Param} {rows : List Row} (hrows : Lays ps rows)
    (hnames : (ps.map Param.name).Nodup) {d : Desk} {source target : String}
    (hread : d.store.read source = .ok (textOf rows))
    (hwrite : ∀ sv, ∃ store, d.store.write target sv = .ok store) :
    (∃ sv, Writes d source target sv ∧ ∀ p ∈ ps, OwnRange sv p) ↔
      ∀ p ∈ ps, Own rows p ∧ IsShort p.low ∧ IsShort p.high := by
  have hnodup := hnames.sublist hrows.names_sublist
  simp only [writes_iff hread hwrite]
  constructor
  · rintro ⟨sv, hsv, hown⟩ p hp
    have hread := readable_of_itemText hrows.ordered hsv
    rw [itemText_rows hrows.ordered hread] at hsv
    obtain rfl := Except.ok.inj hsv
    have hp := (ownRange_iff hnodup p).1 (hown p hp)
    exact ⟨hp, hp.isShort hread⟩
  · intro h
    have hread : ∀ b ∈ blocks rows, Readable b.2 := by
      intro b hb side v hv
      obtain ⟨p, hp, rfl | rfl⟩ := hrows.mem_valuesOf hb hv
      · exact (h p hp).2.1
      · exact (h p hp).2.2
    refine ⟨_, itemText_rows hrows.ordered hread, fun p hp => ?_⟩
    exact (ownRange_iff hnodup p).2 (h p hp).1

/-- Each parameter on a line of its own. -/
def oneLineEach (ps : List Param) : List Row := ps.map fun p => ⟨0, p.tags⟩

/-- Two parameters, the first with the range from 1 to 2 and the second with that from 3 to 4. -/
def neighbours : List Param :=
  [⟨⟨['a'], by simp, by decide⟩, 1, 2, false⟩, ⟨⟨['b'], by simp, by decide⟩, 3, 4, false⟩]

/-- A desk with the rows in a file. -/
def deskOf (rows : List Row) : Desk := { store := { files := [("in.xml", textOf rows)] } }

/-- A parameter whose tags share one line takes the range of the next one. -/
theorem convert_takes_next_range :
    ¬ ∃ sv, Writes (deskOf (oneLineEach neighbours)) "in.xml" "out.sv" sv ∧
      ∀ p ∈ neighbours, OwnRange sv p := by
  let d := deskOf (oneLineEach neighbours)
  have hrows : Lays neighbours (oneLineEach neighbours) := ⟨[], [], by simp, rfl⟩
  have hread : d.store.read "in.xml" = .ok (textOf (oneLineEach neighbours)) := by decide +kernel
  have hwrite : ∀ sv, ∃ store, d.store.write "out.sv" sv = .ok store := by
    intro sv
    have : d.store.place "out.sv" = .ok (.free "out.sv") := by decide +kernel
    exact ⟨d.store.put "out.sv" sv, by rw [Store.write, this]; rfl⟩
  rw [convert_ranges_iff hrows (by decide) hread hwrite]
  decide

end Stimulus.Register
