import Stimulus.Proofs.Register.ClassSpec
import Stimulus.Proofs.Register.Range

/-!
# Ranges from a description to specifications

A description lists parameters with their tags and elements on rows of their own. It becomes a class,
the class becomes a model, and the model is read back as specifications.
-/

open List

namespace Stimulus.Register

open Text Sv Model Stimulus.Vector

theorem Label.name_injective : Function.Injective Label.name :=
  fun _ _ h => Label.ext (String.ofList_injective h)

/-! ## Descriptions -/

/-- The rows of a parameter: each of its tags and elements on one of its own. -/
def Param.rowTags (p : Param) : List (List Tag) :=
  [.start p.name] :: (if p.highFirst then [Side.high.element p.high, Side.low.element p.low]
    else [Side.low.element p.low, Side.high.element p.high]) ++ [[.stop]]

def Lists (ip : Label) (ps : List Param) (rows : List Row) : Prop :=
  rows.map Row.tags = [.mapStart ip] :: (ps.flatMap Param.rowTags ++ [[.mapStop]])

theorem flatten_rowTags (p : Param) : p.rowTags.flatten = p.tags := by
  unfold Param.rowTags Param.tags
  cases p.highFirst <;> simp

theorem Lists.lays {ip : Label} {ps : List Param} {rows : List Row} (h : Lists ip ps rows) :
    Lays ps rows := by
  refine ⟨[.mapStart ip], [.mapStop], by simp [Tag.isMap], ?_⟩
  have hparams : (ps.flatMap Param.rowTags).flatten = ps.flatMap Param.tags := by
    rw [flatMap_def, flatten_flatten, map_map, flatMap_def]
    exact congrArg List.flatten (map_congr_left fun p _ => flatten_rowTags p)
  rw [flatMap_def, h]
  simp [hparams]

theorem row_element {r : Row} {side : Side} {v : Int} (h : r.tags = side.element v) :
    r.name? = none ∧ ¬ r.Closes ∧ ∀ s, r.whole? s = if s = side then some v else none := by
  refine ⟨?_, ?_, fun s => ?_⟩
  · rw [Row.name?, h]
    rfl
  · rw [Row.Closes, h]
    simp [Side.element]
  · rw [Row.whole?, h]
    cases s <;> cases side <;> rfl

theorem seen_param {p : Param} {front rest : List Row} (h : front.map Row.tags = p.rowTags) :
    seen (front ++ rest) = (p.name, p.bounds) :: seen rest := by
  have hblock {a b c d : Row} {side other : Side} {v w : Int} (ha : a.tags = [.start p.name])
      (hb : b.tags = side.element v) (hc : c.tags = other.element w) (hd : d.tags = [.stop]) :
      blocks ([a, b, c, d] ++ rest) = (p.name, [a, b, c, d]) :: blocks rest := by
    obtain ⟨hb, hb', -⟩ := row_element hb
    obtain ⟨hc, hc', -⟩ := row_element hc
    have hclose : d.Closes := by simp [Row.Closes, hd]
    have ha' : a.name? = some p.name := by simp [Row.name?, ha, Tag.name?]
    have hd' : d.name? = none := by simp [Row.name?, hd, Tag.name?]
    simp [blocks, upToStop, ha', hb, hb', hc, hc', hd', hclose]
  have hwhole {r : Row} {t : Tag} (hr : r.tags = [t]) (s : Side) : r.whole? s = none := by
    by_cases ht : t = .boundStart s <;> simp [Row.whole?, hr, ht]
  unfold Param.rowTags at h
  cases hfirst : p.highFirst <;> rw [hfirst] at h <;>
    simp only [map_eq_cons_iff, map_eq_nil_iff, cons_append, nil_append, if_true,
      if_false, Bool.false_eq_true] at h <;>
    obtain ⟨a, _, rfl, ha, b, _, rfl, hb, c, _, rfl, hc, d, _, rfl, hd, rfl⟩ := h <;>
    rw [seen, hblock ha hb hc hd, map_cons, ← seen] <;>
    simp [boundsOf, valuesOf, hwhole ha, hwhole hd, (row_element hb).2.2, (row_element hc).2.2,
      Param.bounds]

theorem seen_params {ps : List Param} {rows : List Row}
    (h : rows.map Row.tags = ps.flatMap Param.rowTags ++ [[.mapStop]]) :
    seen rows = ps.map fun p => (p.name, p.bounds) := by
  induction ps generalizing rows with
  | nil =>
    obtain ⟨r, rest, rfl, hr, hrest⟩ := map_eq_cons_iff.1 h
    obtain rfl := map_eq_nil_iff.1 hrest
    simp [seen, blocks, Row.name?, hr, Tag.name?]
  | cons p ps ih =>
    rw [flatMap_cons, append_assoc] at h
    obtain ⟨front, rest, rfl, hfront, hrest⟩ := map_eq_append_iff.1 h
    rw [seen_param hfront, ih hrest, map_cons]

section Lists

variable {ip : Label} {ps : List Param} {rows : List Row} (h : Lists ip ps rows)
include h

theorem Lists.seen : seen rows = ps.map fun p => (p.name, p.bounds) := by
  obtain ⟨r, rest, rfl, hr, hrest⟩ := map_eq_cons_iff.1 h
  have hname : r.name? = none := by simp [Row.name?, hr, Tag.name?]
  rw [← seen_params hrest, Register.seen, blocks, hname, ← Register.seen]

theorem Lists.ipOf : ipOf "" rows = lower ip.name := by
  obtain ⟨r, rest, rfl, hr, hrest⟩ := map_eq_cons_iff.1 h
  have hfirst : r.ip? = some (lower ip.name) := by
    simp [Row.ip?, hr, Tag.isMapStart, Tag.label?]
  have hparams : ∀ tags ∈ ps.flatMap Param.rowTags ++ [[.mapStop]], tags.any Tag.isMapStart = false := by
    intro tags htags
    rcases mem_append.1 htags with htags | htags
    · obtain ⟨p, -, htags⟩ := mem_flatMap.1 htags
      unfold Param.rowTags at htags
      cases hhigh : p.highFirst <;> simp [hhigh, Side.element] at htags <;>
        rcases htags with rfl | rfl | rfl | rfl <;> rfl
    · rw [mem_singleton.1 htags]
      rfl
  have hnone : ∀ r ∈ rest, r.ip? = none := by
    intro r hr
    have := hparams r.tags (hrest ▸ mem_map_of_mem hr)
    simp [Row.ip?, this]
  have hkeep {name : String} {rows : List Row} (hrows : ∀ r ∈ rows, r.ip? = none) :
      Register.ipOf name rows = name := by
    induction rows with
    | nil => rfl
    | cons r rows ih =>
      obtain ⟨hr, hrows⟩ := forall_mem_cons.1 hrows
      rw [Register.ipOf, foldl_cons, hr]
      exact ih hrows
  rw [Register.ipOf, foldl_cons, hfirst]
  exact hkeep hnone

end Lists

/-! ## Modules -/

/-- The text of a model has these specifications, and so has every module whose file holds it. -/
def Gives (code : String) (specs : Specs) : Prop :=
  Specs.read true code = .ok specs ∧ ∀ (d : Desk) (module : String),
    d.store.read (Specs.modulePath module ".py") = .ok code →
      ((Specs.ofModule module).on d).1 = .ok specs

theorem gives_iff {code : String} {specs : Specs} :
    Gives code specs ↔ Specs.read true code = .ok specs := by
  exact and_iff_left_of_imp fun h d module hread => (on_ofModule hread).trans h

/-! ## From the description to the specifications -/

/-- The specification that a parameter should have. -/
def Param.spec (p : Param) : Spec where
  name := p.name.name
  width := 32
  signed := decide (p.low < 0)
  range := some (p.low, p.high)
  typeName := if p.low < 0 then "unknown" else "bit"

/-- The description becomes a class, the class becomes a model, and the model says of each parameter
what the description says. -/
def Carries (d : Desk) (source target : String) (metrics : Bool) (jobs : Int) (ps : List Param) : Prop :=
  ∃ sv draft, Writes d source target sv ∧ ofText { metrics } jobs sv = .ok draft ∧
    Gives draft.code (ps.map Param.spec)

/-- The item of a parameter. -/
def Param.item (p : Param) : Item := .ofField (p.name, p.bounds)

theorem declaredSpec_item (p : Param) : declaredSpec p.item = { p.spec with range := none } := by
  by_cases h : p.low < 0 <;>
    simp [declaredSpec, Param.item, Item.ofField, Param.bounds, Param.spec, h]

theorem boundedSpec_item (p : Param) : boundedSpec p.item = p.spec := by
  rw [boundedSpec, declaredSpec_item]
  rfl

theorem specs_classText (ip : Label) {ps : List Param} (hnames : (ps.map Param.name).Nodup)
    (husable : ∀ p ∈ ps, Usable p.name) (hshort : ∀ p ∈ ps, IsShort p.low ∧ IsShort p.high) (metrics : Bool) (jobs : Int) :
    ∃ draft, ofText { metrics } jobs (classText (ip.chars.map Char.toLower) (ps.map Param.item)) =
        .ok draft ∧ Specs.read true draft.code = .ok (if contains "endclass" (lower ip.name) then
          ps.map fun p => { p.spec with range := none } else ps.map Param.spec) := by
  have hlow : ∀ c ∈ ip.chars.map Char.toLower, nameTail c = true := (isPlain_map_toLower ip.plain).chars
  have hitems : ∀ x ∈ ps.map Param.item, Usable x.name := forall_mem_map.2 husable
  have hnodup : ((ps.map Param.item).map fun x => x.name.name).Nodup := by
    have hmap : (ps.map Param.item).map (fun x => x.name.name) = (ps.map Param.name).map Label.name := by
      simp [Function.comp_def, Param.item, Item.ofField]
    rw [hmap]
    exact hnames.map Label.name_injective
  have hend : contains "endclass" (lower ip.name) = true ↔ classEnd <:+: ip.chars.map Char.toLower := by
    rw [contains_iff, Label.name, lower_plain ip.plain, @String.toList_ofList (ip.chars.map _)]
    rfl
  obtain ⟨draft, hdraft, hmodel⟩ := ofText_classText hlow hitems metrics jobs
  refine ⟨draft, hdraft, ?_⟩
  by_cases hcut : classEnd <:+: ip.chars.map Char.toLower
  · rw [if_pos hcut] at hmodel
    rw [if_pos (hend.2 hcut), read_cut true hmodel hnodup, map_map]
    exact congrArg _ (map_congr_left fun p _ => declaredSpec_item p)
  · rw [if_neg hcut] at hmodel
    rw [if_neg (hend.not.2 hcut), read_whole true hmodel hnodup, map_map]
    · exact congrArg _ (map_congr_left fun p _ => boundedSpec_item p)
    · exact forall_mem_map.2 hshort

section Carries

variable {ip : Label} {ps : List Param} {rows : List Row} (h : Lists ip ps rows)
  (hnames : (ps.map Param.name).Nodup)
include h

theorem Lists.itemText (hread : ∀ b ∈ blocks rows, Readable b.2) :
    (scan (rows.map Row.line)).bind Scan.itemText =
      .ok (classText (ip.chars.map Char.toLower) (ps.map Param.item)) := by
  have hbounded : ∀ f ∈ ps.map fun p => (p.name, p.bounds), f.2.bounded = true := by
    simp [Param.bounds]
  rw [itemText_rows h.lays.ordered hread, h.seen, h.ipOf, Label.name, lower_plain ip.plain,
    itemText_bounded hbounded, String.toList_ofList, map_map]
  rfl

theorem Lists.readable_iff : (∀ b ∈ blocks rows, Readable b.2) ↔
    ∀ p ∈ ps, IsShort p.low ∧ IsShort p.high := by
  constructor
  · intro hread p hp
    refine Own.isShort (own_iff.2 ?_) hread
    rw [h.seen]
    exact mem_map_of_mem hp
  · intro hshort b hb side v hv
    obtain ⟨p, hp, rfl | rfl⟩ := h.lays.mem_valuesOf hb hv
    · exact (hshort p hp).1
    · exact (hshort p hp).2

variable {d : Desk} {source target : String} {metrics : Bool} {jobs : Int}
  (hread : d.store.read source = .ok (textOf rows))
  (hwrite : ∀ sv, ∃ store, d.store.write target sv = .ok store)
include hread hwrite

theorem Carries.short (hcarries : Carries d source target metrics jobs ps) :
    ∀ p ∈ ps, IsShort p.low ∧ IsShort p.high := by
  obtain ⟨sv, -, hsv, -⟩ := hcarries
  rw [writes_iff hread hwrite] at hsv
  exact h.readable_iff.1 (readable_of_itemText h.lays.ordered hsv)

theorem Carries.word (hnames : (ps.map Param.name).Nodup) (husable : ∀ p ∈ ps, Usable p.name)
    (hcarries : Carries d source target metrics jobs ps) :
    ps = [] ∨ contains "endclass" (lower ip.name) = false := by
  have hshort := Carries.short h hread hwrite hcarries
  obtain ⟨sv, draft, hsv, hdraft, hgives⟩ := hcarries
  obtain ⟨draft', hdraft', hspecs⟩ := specs_classText ip hnames husable hshort metrics jobs
  rw [writes_iff hread hwrite, h.itemText (h.readable_iff.2 hshort)] at hsv
  obtain rfl := Except.ok.inj hsv
  obtain rfl := Except.ok.inj (hdraft.symm.trans hdraft')
  have hlist := Except.ok.inj ((gives_iff.1 hgives).symm.trans hspecs)
  cases ps with
  | nil => exact .inl rfl
  | cons p ps =>
    refine .inr (Bool.eq_false_iff.2 fun hend => ?_)
    rw [if_pos hend, map_cons, map_cons] at hlist
    cases congrArg Spec.range (List.cons.inj hlist).1

theorem carries_of (hnames : (ps.map Param.name).Nodup) (husable : ∀ p ∈ ps, Usable p.name)
    (hend : ps = [] ∨ contains "endclass" (lower ip.name) = false)
    (hshort : ∀ p ∈ ps, IsShort p.low ∧ IsShort p.high) :
    Carries d source target metrics jobs ps := by
  obtain ⟨draft, hdraft, hspecs⟩ := specs_classText ip hnames husable hshort metrics jobs
  refine ⟨_, draft, (writes_iff hread hwrite _).2 (h.itemText (h.readable_iff.2 hshort)), hdraft, ?_⟩
  rw [gives_iff, hspecs]
  rcases hend with rfl | hend
  · simp
  · simp [hend]

/-- The ranges reach the specifications if and only if their bounds can be read and the name of the class
does not hold the word that ends classes. -/
theorem carries_ranges_iff (hnames : (ps.map Param.name).Nodup) (husable : ∀ p ∈ ps, Usable p.name) :
    Carries d source target metrics jobs ps ↔
      (ps = [] ∨ contains "endclass" (lower ip.name) = false) ∧
        ∀ p ∈ ps, IsShort p.low ∧ IsShort p.high :=
  ⟨fun hcarries => ⟨Carries.word h hread hwrite hnames husable hcarries,
    Carries.short h hread hwrite hcarries⟩,
    fun ⟨hend, hshort⟩ => carries_of h hread hwrite hnames husable hend hshort⟩

end Carries

/-! ## Descriptions in files -/

/-- The rows of a description without indents. -/
def listing (ip : Label) (ps : List Param) : List Row :=
  ([.mapStart ip] :: (ps.flatMap Param.rowTags ++ [[.mapStop]])).map fun tags => ⟨0, tags⟩

theorem lists_listing (ip : Label) (ps : List Param) : Lists ip ps (listing ip ps) := by
  simp [Lists, listing, Function.comp_def]

theorem read_deskOf (rows : List Row) : (deskOf rows).store.read "in.xml" = .ok (textOf rows) := by
  have hkey : (deskOf rows).store.key? "in.xml" = some "in.xml" := by
    have hempty : ({} : Store).key? "in.xml" = some "in.xml" := by decide +kernel
    exact (Store.key?_put {} "in.xml" (textOf rows) "in.xml").trans hempty
  have hreturn : '\r' ∉ (textOf rows).toList := by
    rw [textOf, String.toList_ofList]
    simp only [mem_flatMap, mem_append, mem_singleton, not_exists, not_and, not_or]
    exact fun r _ => ⟨r.not_mem_chars (by decide), by decide⟩
  have hget : (deskOf rows).store.get? "in.xml" = some (textOf rows) := by
    simp [deskOf, Store.get?]
  rw [Store.read, Store.readRaw_of_key hkey, hget]
  exact congrArg Except.ok (unifyNewlines_of_not_mem hreturn)

theorem write_deskOf (rows : List Row) (sv : String) :
    ∃ store, (deskOf rows).store.write "out.sv" sv = .ok store := by
  have hempty : ({} : Store).key? "out.sv" = some "out.sv" := by decide +kernel
  have hkey : (deskOf rows).store.key? "out.sv" = some "out.sv" :=
    (Store.key?_put {} "in.xml" (textOf rows) "out.sv").trans hempty
  exact ⟨_, Store.write_of_key hkey sv⟩

/-- Two parameters, one of them with negative bounds. -/
def gains : List Param :=
  [⟨⟨"gain".toList, by decide, by decide⟩, -8, 7, true⟩,
    ⟨⟨"mode_2".toList, by decide, by decide⟩, 3, 3, false⟩]

theorem carries_gains : Carries (deskOf (listing ⟨"ISP".toList, by decide, by decide⟩ gains)) "in.xml"
    "out.sv" true 4 gains :=
  (carries_ranges_iff (lists_listing _ _) (read_deskOf _) (write_deskOf _) (by decide)
    (by decide)).2 ⟨.inr (by decide), by decide⟩

/-- A name in capitals holds the word once it is the name of a class, and a bound can be too long. -/
theorem not_carries_capitals_or_long :
    let capitals : Label := ⟨"ENDCLASS".toList, by decide, by decide⟩
    let a : Label := ⟨['a'], by decide, by decide⟩
    let narrow : List Param := [⟨a, 1, 2, false⟩]
    let long : List Param := [⟨a, 10 ^ mostDigits, 10 ^ mostDigits, false⟩]
    contains "endclass" capitals.name = false ∧ Usable a ∧
      ¬ Carries (deskOf (listing capitals narrow)) "in.xml" "out.sv" true 1 narrow ∧
      ¬ Carries (deskOf (listing a long)) "in.xml" "out.sv" true 1 long := by
  refine ⟨by decide, by decide, fun hcarries => ?_, fun hcarries => ?_⟩
  · have hword := Carries.word (lists_listing _ _) (read_deskOf _) (write_deskOf _) (by simp)
      (by decide) hcarries
    revert hword
    decide
  · have hshort := Carries.short (lists_listing _ _) (read_deskOf _) (write_deskOf _) hcarries
    have hpow (n : Nat) : ¬ ((10 : Int) ^ n).natAbs < 10 ^ n := by simp [Int.natAbs_pow]
    exact hpow mostDigits (isShort_iff.1 (hshort _ List.mem_cons_self).1)

end Stimulus.Register
