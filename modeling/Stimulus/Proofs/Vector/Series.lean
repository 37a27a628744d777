import Mathlib.Data.List.Nodup
import Mathlib.Data.List.Perm.Basic
import Stimulus.Proofs.Vector.Batch

/-!
# Statistics and the vectors they are about

The statistics of a field are on the values that were counted for it. Workers count the values of the
vectors; in turn, the values are counted as they were drawn, before the bounds of the table are kept.
-/

open List

namespace Stimulus

namespace Vector

open Override Stimulus.Random

variable {fields : List Field} {f : Field} {v w : Json} {name : String} {t : Table}

/-! ## Series -/

theorem AllSeries.get?_cons (s : Series) (all : AllSeries) (name : String) :
    AllSeries.get? (s :: all) name = if s.name = name then some s else all.get? name := by
  unfold AllSeries.get?
  by_cases hname : s.name = name <;> simp [hname]

theorem AllSeries.get?_add (all : AllSeries) (name other : String) (v : Json) :
    (all.add name v).get? other = (all.get? other).map fun s =>
      if other = name then { s with values := s.values ++ [v] } else s := by
  induction all with
  | nil => rfl
  | cons s all ih =>
    have hcons : AllSeries.add (s :: all) name v =
        (if s.name = name then { s with values := s.values ++ [v] } else s) :: AllSeries.add all name v :=
      rfl
    have hkey : (if s.name = name then { s with values := s.values ++ [v] } else s).name = s.name := by
      split <;> rfl
    rw [hcons, AllSeries.get?_cons, AllSeries.get?_cons, hkey, ih]
    by_cases hother : s.name = other
    · subst hother
      rw [if_pos rfl, if_pos rfl]
      rfl
    · rw [if_neg hother, if_neg hother]

theorem AllSeries.get?_put (all : AllSeries) (s : Series) (other : String) :
    (all.put s).get? other = if other = s.name then some s else all.get? other := by
  have hmap (all : AllSeries) : AllSeries.get? (all.map fun old => if old.name = s.name then s else old)
      other = if other = s.name then (all.get? s.name).map fun _ => s else all.get? other := by
    induction all with
    | nil => simp [AllSeries.get?]
    | cons old all ih =>
      rw [map_cons, AllSeries.get?_cons, AllSeries.get?_cons, AllSeries.get?_cons, ih]
      by_cases hold : old.name = s.name <;> by_cases hother : other = s.name <;> simp_all [eq_comm]
  have happend (all : AllSeries) : AllSeries.get? (all ++ [s]) other =
      (all.get? other).or (if s.name = other then some s else none) := by
    unfold AllSeries.get?
    rw [find?_append, find?_singleton]
    simp
  unfold AllSeries.put
  split
  · next hsome =>
    rw [hmap]
    obtain ⟨old, hold⟩ := Option.isSome_iff_exists.1 hsome
    rw [hold]
    rfl
  · next hnone =>
    rw [happend]
    by_cases hother : other = s.name
    · rw [if_pos hother, if_pos hother.symm, hother, Option.not_isSome_iff_eq_none.1 hnone]
      rfl
    · rw [if_neg hother, if_neg (Ne.symm hother), Option.or_none]

theorem get?_emptySeries (specs : Specs) (hf : f ∈ fields) :
    ∃ s, (emptySeries specs fields).get? f.name = some s ∧ s.values = [] := by
  have hfold (fields : List Field) (all : AllSeries)
      (h : f ∈ fields ∨ ∃ s, all.get? f.name = some s ∧ s.values = []) :
      ∃ s, AllSeries.get? (fields.foldl (fun all f => all.put { name := f.name, spec := specs.get? f.name })
        all) f.name = some s ∧ s.values = [] := by
    induction fields generalizing all with
    | nil => exact h.resolve_left not_mem_nil
    | cons g fields ih =>
      rw [foldl_cons]
      refine ih _ ?_
      by_cases hname : f.name = g.name
      · exact .inr ⟨_, by rw [AllSeries.get?_put, if_pos hname], rfl⟩
      · rcases h with h | ⟨s, hs, hvalues⟩
        · refine .inl ((mem_cons.1 h).resolve_left ?_)
          rintro rfl
          exact hname rfl
        · exact .inr ⟨s, by rw [AllSeries.get?_put, if_neg hname, hs], hvalues⟩
  exact hfold fields [] (.inl hf)

/-- The value that counts for a field. -/
def countedValue (f : Field) (counted : Values) : Json := (counted.lookup f.name).getD (.str "")

theorem get?_addFields (counted : Values) {all : AllSeries} {s : Series}
    (hs : all.get? f.name = some s) :
    (f.name ∉ fields.map Field.name →
      AllSeries.get? (fields.foldl (fun all f => all.add f.name (countedValue f counted)) all) f.name =
        some s) ∧
    ((fields.map Field.name).Nodup → f ∈ fields →
      AllSeries.get? (fields.foldl (fun all f => all.add f.name (countedValue f counted)) all) f.name =
        some { s with values := s.values ++ [countedValue f counted] }) := by
  induction fields generalizing all s with
  | nil => exact ⟨fun _ => hs, fun _ hf => by cases hf⟩
  | cons g fields ih =>
    have hadd : (all.add g.name (countedValue g counted)).get? f.name = some
        (if f.name = g.name then { s with values := s.values ++ [countedValue g counted] } else s) := by
      rw [AllSeries.get?_add, hs]
      rfl
    constructor
    · intro hnew
      rw [map_cons, mem_cons, not_or] at hnew
      rw [foldl_cons, (ih hadd).1 hnew.2, if_neg hnew.1]
    · intro hnodup hf
      obtain ⟨hnew, hnodup⟩ := nodup_cons.1 hnodup
      rw [foldl_cons]
      rcases mem_cons.1 hf with rfl | hf
      · rw [(ih hadd).1 hnew, if_pos rfl]
      · have hne : f.name ≠ g.name := fun h => hnew (h ▸ mem_map_of_mem hf)
        rw [(ih hadd).2 hnodup hf, if_neg hne]

theorem series_addAll (hfields : (fields.map Field.name).Nodup)
    (hf : f ∈ fields) (rs : List Drawn) {b : Batch} {s : Series} (hs : b.series.get? f.name = some s) :
    (b.addAll fields rs).series.get? f.name =
      some { s with values := s.values ++ rs.map fun r => countedValue f r.counted } := by
  induction rs generalizing b s with
  | nil => simpa [Batch.addAll] using hs
  | cons r rs ih =>
    rw [Batch.addAll, foldl_cons, ← Batch.addAll]
    rw [ih ((get?_addFields r.counted hs).2 hfields hf)]
    simp

/-! ## Values within bounds -/

theorem fit_idem {e : Entry} (h : fit e v = .ok w) : fit e w = .ok w := by
  unfold fit at h ⊢
  cases hv : v.toInteger with
  | ok n =>
    rw [hv] at h
    obtain rfl := Except.ok.inj h
    simp [Json.toInteger, clamp_clamp]
  | error f =>
    by_cases hkind : (f.isBadValue || f.isBadType) = true
    · simp only [hv, if_pos hkind] at h
      obtain rfl := Except.ok.inj h
      simp only [hv, if_pos hkind]
    · simp only [hv, if_neg hkind] at h
      cases h

theorem fitted_idem {es : Table} (h : fitted es name v = .ok w) :
    fitted es name w = .ok w := by
  unfold fitted at h ⊢
  cases hentry : es.get? name with
  | none => rfl
  | some e =>
    rw [hentry] at h
    exact fit_idem h

theorem perm_fitted_iff {es : Table} {vs ws : List Json}
    (h : vs.mapM (fitted es name) = .ok ws) : vs.Perm ws ↔ ∀ v ∈ vs, fitted es name v = .ok v := by
  constructor
  · intro hperm v hv
    -- as one of the values with bounds kept it stays as it is
    obtain ⟨u, -, hu⟩ := Outcome.exists_of_mem_mapM h (hperm.subset hv)
    exact fitted_idem hu
  · intro hall
    rw [Outcome.mapM_ok hall, map_id'] at h
    rw [Except.ok.inj h]

/-- A value is within the active bounds for its name, or is none that can be put there. -/
def InBounds (t : Table) (name : String) (v : Json) : Prop :=
  ∀ e ∈ t, e.name = name → e.isActive = true → ∀ n, v.toInteger = .ok n → v = .int (e.clamp n)

theorem fitted_eq_self_iff (ht : (t.map Entry.name).Nodup)
    (h : fitted (active t) name v = .ok w) : fitted (active t) name v = .ok v ↔ InBounds t name v := by
  constructor
  · rintro hself e he rfl hactive n hn
    rw [fitted, get?_of_nodup (nodup_active ht) (mem_active.2 ⟨he, hactive⟩)] at hself
    simp only [fit, hn] at hself
    exact (Except.ok.inj hself).symm
  · intro hbounds
    cases hentry : (active t).get? name with
    | none => rw [fitted, hentry]
    | some e =>
      have hmem := mem_active.1 (mem_of_find?_eq_some hentry)
      have hname : e.name = name := by simpa using find?_some hentry
      rw [fitted, hentry] at h ⊢
      dsimp only at h ⊢
      unfold fit at h ⊢
      cases hv : v.toInteger with
      | ok n => exact congrArg _ (hbounds e hmem.1 hname hmem.2 n hv).symm
      | error f =>
        by_cases hkind : (f.isBadValue || f.isBadType) = true
        · exact if_pos hkind
        · simp only [hv, if_neg hkind] at h
          cases h

/-! ## Vectors -/

theorem lookup_of_mem {values : Values} (h : Distinct values)
    (hmem : (name, v) ∈ values) : values.lookup name = some v := by
  induction values with
  | nil => cases hmem
  | cons p values ih =>
    obtain ⟨hnew, hvalues⟩ := nodup_cons.1 h
    rcases mem_cons.1 hmem with rfl | hmem
    · exact lookup_cons_self
    · have hne : name ≠ p.1 := fun hname => hnew (hname ▸ mem_map_of_mem hmem)
      rw [lookup_cons, beq_false_of_ne hne]
      exact ih hvalues hmem

section Read

variable {fields : List Field} (hfields : (fields.map Field.name).Nodup) {f : Field} (hf : f ∈ fields)
include hfields hf

theorem mem_listedValues (obj : Object) : (f.name, rawValue obj f) ∈ listedValues obj fields := by
  have hlists := lists_listedValues obj fields
  obtain ⟨p, hp, hname⟩ := mem_map.1 (hlists.names f hf)
  obtain ⟨g, hg, rfl⟩ := hlists.mem p hp
  obtain rfl : g = f := inj_on_of_nodup_map hfields hg hf hname
  exact hp

theorem lookup_listed {t : Table} (ht : (t.map Entry.name).Nodup) {obj : Object} {names : List String}
    {v : Vectors} (h : readOut t obj fields names = .ok v) :
    ∃ w, v.listed.lookup f.name = some w ∧ fitted (active t) f.name (rawValue obj f) = .ok w := by
  have hlists := lists_listedValues obj fields
  obtain ⟨listed, hlisted, h⟩ := Outcome.bind_eq_ok.1 h
  obtain ⟨_, -, h⟩ := Outcome.bind_eq_ok.1 h
  obtain rfl := Except.ok.inj h
  have hdistinct : Distinct listed := by
    rw [Distinct, names_of_patch ht hlists.distinct hlisted]
    exact hlists.distinct
  rw [patch_eq hlists.distinct ht] at hlisted
  obtain ⟨p, hp, hfit⟩ := Outcome.exists_mem_of_mapM hlisted (mem_listedValues hfields hf obj)
  obtain ⟨hname, hfit⟩ := fitNamed_eq_ok.1 hfit
  obtain ⟨n, w⟩ := p
  obtain rfl : n = f.name := hname
  exact ⟨w, lookup_of_mem hdistinct hp, hfit⟩

end Read

/-! ## Counted values and vectors -/

/-- A run that counts the values as they were drawn, or those of its vector. -/
inductive Counts (t : Table) (fields : List Field) : Bool → Drawn → Prop
  | drawn (obj : Object) (names : List String) (v : Vectors) (solved : Bool) :
    readOut t obj fields names = .ok v → Counts t fields false ⟨listedValues obj fields, v, solved⟩
  | kept (obj : Object) (names : List String) (v : Vectors) (solved : Bool) :
    readOut t obj fields names = .ok v → Counts t fields true ⟨v.listed, v, solved⟩

theorem counts_drawnInTurn {solver : Bool} {n : Nat} {obj : Object}
    {rs : List Drawn} (h : drawnInTurn solver t fields n obj = .ok rs) :
    ∀ r ∈ rs, Counts t fields false r := by
  intro r hr
  obtain ⟨obj, v, hv, rfl⟩ := (drawnInTurn_runs h).2 r hr
  exact .drawn _ _ v true hv

theorem counts_drawnApart {recipe : Recipe} {n : Nat}
    {rs : List Drawn} (h : drawnApart recipe t fields n = .ok rs) : ∀ r ∈ rs, Counts t fields true r := by
  intro r hr
  obtain ⟨obj, v, -, hv, rfl⟩ := (drawnApart_runs recipe fields h).2 r hr
  exact .kept _ _ v _ hv

section Counts

variable {t : Table} (ht : (t.map Entry.name).Nodup) {fields : List Field}
  (hfields : (fields.map Field.name).Nodup) {f : Field} (hf : f ∈ fields) {rs : List Drawn}

/-- The values of a field in the vectors of runs. -/
def vectorValues (f : Field) (rs : List Drawn) : List (Option Json) :=
  rs.map fun r => r.vectors.listed.lookup f.name

/-- The values counted for a field in runs. -/
def countedValues (f : Field) (rs : List Drawn) : List Json := rs.map fun r => countedValue f r.counted

include ht hfields hf

theorem countedValues_of_kept (h : ∀ r ∈ rs, Counts t fields true r) :
    (countedValues f rs).map some = vectorValues f rs := by
  rw [countedValues, vectorValues, map_map]
  refine map_congr_left fun r hr => ?_
  cases h r hr with
  | kept obj names v solved hread =>
    obtain ⟨w, hw, -⟩ := lookup_listed hfields hf ht hread
    simp [countedValue, hw]

theorem countedValues_of_drawn (h : ∀ r ∈ rs, Counts t fields false r) :
    ∃ ws, vectorValues f rs = ws.map some ∧
      (countedValues f rs).mapM (fitted (active t) f.name) = .ok ws := by
  have hvalue : ∀ r ∈ rs, ∃ w, r.vectors.listed.lookup f.name = some w ∧
      fitted (active t) f.name (countedValue f r.counted) = .ok w := by
    intro r hr
    cases h r hr with
    | drawn obj names v solved hread =>
      obtain ⟨w, hw, hfit⟩ := lookup_listed hfields hf ht hread
      have hraw := lookup_of_mem (lists_listedValues obj fields).distinct (mem_listedValues hfields hf obj)
      exact ⟨w, hw, by rwa [countedValue, hraw]⟩
  refine ⟨rs.map fun r => (r.vectors.listed.lookup f.name).getD .null, ?_, ?_⟩
  · rw [vectorValues, map_map]
    refine map_congr_left fun r hr => ?_
    obtain ⟨w, hw, -⟩ := hvalue r hr
    simp [hw]
  · rw [countedValues, Outcome.mapM_eq_ok, forall₂_map_left_iff, forall₂_map_right_iff,
      forall₂_same]
    intro r hr
    obtain ⟨w, hw, hfit⟩ := hvalue r hr
    simp [hw, hfit]

end Counts

/-- The values counted for a field are those of the vectors, up to their order, if and only if workers drew
them or all that was drawn is within the active bounds already. -/
theorem series_perm_vectors_iff {s : Setting} {o : Order} {recipe : Recipe} {t : Table} {specs : Specs}
    {fields : List Field} {obj : Object} {b : Batch} {d : Desk} (ht : (t.map Entry.name).Nodup)
    (hfields : (fields.map Field.name).Nodup)
    (h : ((drawBatch s o recipe t specs fields obj).on d).1 = .ok b) {f : Field} (hf : f ∈ fields) :
    ∃ series, b.series.get? f.name = some series ∧ b.vectors.length = o.runs.toNat ∧
      ((series.values.map some).Perm (b.vectors.map (·.lookup f.name)) ↔
        1 < workers s.processors o.jobs o.runs ∨ ∀ v ∈ series.values, InBounds t f.name v) := by
  obtain ⟨rs, hrs, rfl, -⟩ := (drawBatch_eq_ok ht).1 h
  obtain ⟨empty, hempty, hnone⟩ := get?_emptySeries specs hf
  have hvectors : (Batch.addAll { series := emptySeries specs fields } fields rs).vectors =
      rs.map (·.vectors.listed) := Batch.vectors_addAll _ _ _
  refine ⟨_, series_addAll hfields hf rs hempty, ?_, ?_⟩
  · rw [hvectors, List.length_map, length_drawn hrs]
  · rw [hvectors, List.map_map, hnone, List.nil_append]
    change ((countedValues f rs).map some).Perm (vectorValues f rs) ↔ _
    unfold drawn at hrs
    split at hrs
    · next hjobs =>
      rw [countedValues_of_kept ht hfields hf (counts_drawnApart hrs)]
      simp [hjobs]
    · next hjobs =>
      obtain ⟨ws, hws, hfit⟩ := countedValues_of_drawn ht hfields hf (counts_drawnInTurn hrs)
      rw [hws, List.map_perm_map_iff fun _ _ => Option.some.inj, perm_fitted_iff hfit]
      simp only [hjobs, false_or]
      refine forall₂_congr fun v hv => ?_
      obtain ⟨w, -, hw⟩ := Outcome.exists_mem_of_mapM hfit hv
      exact fitted_eq_self_iff ht hw

/-- An order for two vectors of a gain, without files. -/
def twoGains (jobs : Int) : Order where
  module := "gains"
  className := "Gain"
  fieldFile := "hw.txt"
  runs := 2
  dir := "."
  seed := none
  stem := "config"
  files := false
  tables := true
  jobs := jobs
  overrides := some "narrow.csv"

/-- An object whose gain is always drawn as 9. -/
def nineGain : Object where
  runs := [.sets [("gain", .plain (.int 9))]]

/-- The batch of two gains that are drawn in turn. -/
def nineGains : Outcome Batch :=
  ((drawBatch { time := "now" } (twoGains 1) { object := nineGain } narrowGain [] [⟨"gain", "0"⟩]
    nineGain).on {}).1

/-- A gain that is drawn as 9, where the table has 5 as its highest value, is counted as 9 in turn. -/
theorem series_of_narrowGain :
    ∃ b series, nineGains = .ok b ∧ b.series.get? "gain" = some series ∧
      series.values = [.int 9, .int 9] ∧ ¬ (series.values.map some).Perm (b.vectors.map (·.lookup "gain")) := by
  have hnames : (narrowGain.map Entry.name).Nodup := by decide
  let r : Drawn := ⟨[("gain", .int 9)], ⟨[("gain", .int 5)], [("gain", .int 5)]⟩, true⟩
  obtain ⟨b, hb, hvalues⟩ : ∃ b, nineGains = .ok b ∧
      (b.series.get? "gain").map Series.values = some [.int 9, .int 9] :=
    ⟨_, (drawBatch_eq_ok hnames).2 ⟨[r, r], rfl, rfl, rfl⟩, rfl⟩
  obtain ⟨series, hseries, -, hperm⟩ :=
    series_perm_vectors_iff hnames (by decide) hb (List.mem_singleton_self _)
  rw [hseries, Option.map_some, Option.some.injEq] at hvalues
  refine ⟨b, series, hb, hseries, hvalues, fun h => ?_⟩
  obtain hworkers | hbounds := hperm.1 h
  · exact absurd hworkers (by decide)
  · have hnine := hbounds (.int 9) (by simp [hvalues]) _ (List.mem_cons_self ..) rfl rfl 9 rfl
    exact absurd (Json.int.inj hnine) (by decide)

end Vector

end Stimulus
