import Mathlib.Order.Compare
import Mathlib.Tactic.Linarith
import Stimulus.Proofs.Named
import Stimulus.Proofs.Vector.Series

/-!
# Steady models

A model is steady if all its randomisations do the same. Drawn in turn or by workers it gives the same
vectors. What is put down beside them differs: in turn it is every field of the table, and every run
counts as solved; a worker puts down the fields with other bounds, and counts the runs whose object it
could randomise.
-/

open List

namespace Stimulus

/-! ## Numbers between integers -/

namespace Json

variable {j : Json} {n k : Int}

theorem compare_sides (a b : Int) : (compare a b ≠ .gt → a ≤ b) ∧ (compare a b ≠ .lt → b ≤ a) :=
  ⟨fun h => not_lt.1 (mt compare_gt_iff_gt.2 h), fun h => not_lt.1 (mt compare_lt_iff_lt.2 h)⟩

/-- The integer part of a finite decimal is on the same side of an integer as the decimal. -/
theorem truncated_of_compare {x : Float} {o : Ordering} (hk : Decimal.truncated x = .ok k)
    (h : compareDecimal n x = some o) : (o ≠ .gt → n ≤ k) ∧ (o ≠ .lt → k ≤ n) := by
  unfold Decimal.truncated at hk
  unfold compareDecimal at h
  cases hx : Decimal.Binary.ofFloat x with
  | undefined => simp [hx] at hk
  | infinite negative => simp [hx] at hk
  | finite negative m q =>
    simp only [hx] at hk h
    obtain rfl := Except.ok.inj hk
    by_cases hq : q ≥ 0
    · simp only [if_pos hq, Option.some.injEq] at h ⊢
      obtain rfl := h
      cases negative
      · exact compare_sides ..
      · simpa [Int.neg_mul] using compare_sides n (-m * Decimal.pow2 q.toNat)
    · simp only [if_neg hq, Option.some.injEq] at h ⊢
      obtain rfl := h
      have hpos : (0 : Int) < Decimal.pow2 (-q).toNat := Int.natCast_pos.2 (Nat.pow_pos (by decide))
      generalize (Decimal.pow2 (-q).toNat : Nat) = p at hpos ⊢
      cases negative
      · obtain ⟨hle, hge⟩ := compare_sides (n * p) m
        exact ⟨fun ho => Int.le_ediv_of_mul_le hpos (hle ho), fun ho => Int.ediv_le_of_le_mul hpos (hge ho)⟩
      · obtain ⟨hle, hge⟩ := compare_sides (n * p) (-m)
        have hcast : (if true then -((m / p : Nat) : Int) else (m / p : Nat)) = -((m : Int) / p) := by simp
        rw [hcast]
        refine ⟨fun ho => ?_, fun ho => ?_⟩
        · exact Int.le_neg_of_le_neg (Int.ediv_le_of_le_mul hpos (by have := hle ho; linarith))
        · exact Int.neg_le_of_neg_le (Int.le_ediv_of_mul_le hpos (by have := hge ho; linarith))

/-- A value that compares with integers is a number. Its integer part, if it has one, is on the same
side of an integer as the number. -/
theorem ordered_int {c : Comparison} {b : Bool} (h : ordered c j (int n) = .ok b) :
    (∃ k, j.toInteger = .ok k ∧ ∃ o, b = c.allows o ∧ (o ≠ .lt → n ≤ k) ∧ (o ≠ .gt → k ≤ n)) ∨
      j.toInteger = .error .undefinedInteger ∨ j.toInteger = .error .infiniteInteger := by
  cases j with
  | int k =>
    obtain ⟨hle, hge⟩ := compare_sides k n
    exact .inl ⟨k, rfl, _, (Except.ok.inj h).symm, hge, hle⟩
  | bool v =>
    obtain ⟨hle, hge⟩ := compare_sides (if v then 1 else 0) n
    exact .inl ⟨_, rfl, _, (Except.ok.inj h).symm, hge, hle⟩
  | decimal x =>
    cases hx : Decimal.Binary.ofFloat x with
    | undefined => exact .inr (.inl (by simp [toInteger, Decimal.truncated, hx]))
    | infinite negative => exact .inr (.inr (by simp [toInteger, Decimal.truncated, hx]))
    | finite negative m q =>
      obtain ⟨k, hk⟩ : ∃ k, Decimal.truncated x = .ok k := by simp [Decimal.truncated, hx]
      obtain ⟨o, ho⟩ : ∃ o, compareDecimal n x = some o := by
        simp only [compareDecimal, hx]
        split <;> exact ⟨_, rfl⟩
      obtain ⟨hle, hge⟩ := truncated_of_compare hk ho
      have hb : .ok (c.allows o.swap) = (.ok b : Outcome Bool) := by
        rw [← h]
        simp [ordered, compareNumbers?, integer?, ho]
      refine .inl ⟨k, hk, o.swap, (Except.ok.inj hb).symm, fun hne => hle ?_, fun hne => hge ?_⟩
      · rintro rfl
        exact hne rfl
      · rintro rfl
        exact hne rfl
  | null | str _ | arr _ | obj _ => simp [ordered, compareNumbers?, integer?] at h

end Json

namespace Vector

open Stimulus.Random Override

/-! ## Values put within bounds -/

/-- The value in a field. -/
def bare : Value → Json
  | .plain v | .cell v => v

/-- A cell holds no number without an integer part. -/
def IsFinite : Value → Prop
  | .plain _ => True
  | .cell v => v.toInteger ≠ .error .undefinedInteger ∧ v.toInteger ≠ .error .infiniteInteger

theorem clamp_of_nearestBound {e : Entry} {v : Json} {n : Int} (hv : IsFinite (.cell v))
    (h : nearestBound? e.newLow e.newHigh v = .ok (some n)) :
    ∃ k, v.toInteger = .ok k ∧ e.clamp n = e.clamp k := by
  have hsides {c : Comparison} {m : Int} {b : Bool} (h : Json.ordered c v (.int m) = .ok b) :
      ∃ k, v.toInteger = .ok k ∧ ∃ o, b = c.allows o ∧ (o ≠ .lt → m ≤ k) ∧ (o ≠ .gt → k ≤ m) :=
    (Json.ordered_int h).resolve_right (not_or.2 hv)
  obtain ⟨less, hless, h⟩ := Outcome.bind_eq_ok.1 h
  obtain ⟨k, hk, o, rfl, hhigh, -⟩ := hsides hless
  refine ⟨k, hk, ?_⟩
  unfold Entry.clamp
  split at h
  · obtain ⟨greater, hgreater, h⟩ := Outcome.bind_eq_ok.1 h
    obtain ⟨k', hk', o', rfl, -, hlow⟩ := hsides hgreater
    obtain rfl := Except.ok.inj (hk.symm.trans hk')
    split at h
    · cases h
    · next hno =>
      obtain ⟨-, rfl⟩ : ¬ v.isInteger e.newLow = true ∧ e.newLow = n := by
        simpa [pure, Except.pure] using h
      have := hlow (by rintro rfl; exact hno rfl)
      omega
  · next hno =>
    obtain ⟨-, rfl⟩ : ¬ v.isInteger (max e.newHigh e.newLow) = true ∧ max e.newHigh e.newLow = n := by
      simpa [pure, Except.pure] using h
    have := hhigh (by rintro rfl; exact hno rfl)
    omega

/-- A value that was put within the bounds of an entry fits the entry as the value before did. -/
theorem fit_clamped {e : Entry} {v w : Value} (hv : IsFinite v)
    (h : clampedValue? ⟨e.name, e.newLow, e.newHigh⟩ v = .ok (some w)) :
    fit e (bare w) = fit e (bare v) ∧ IsFinite w ∧ bare v ≠ .null ∧ ∃ n, bare w = .int n := by
  cases v with
  | plain v =>
    obtain ⟨n, hn, h⟩ := Outcome.bind_eq_ok.1 h
    have hn : v.toInteger = .ok n := hn
    obtain ⟨hne, hw⟩ : ¬ max e.newLow (min e.newHigh n) = n ∧
        some (Value.plain (.int (max e.newLow (min e.newHigh n)))) = some w := by
      simpa [pure, Except.pure] using h
    obtain rfl := Option.some.inj hw
    refine ⟨?_, trivial, ?_, _, rfl⟩
    · show Except.ok (Json.int (e.clamp (e.clamp n))) = fit e v
      rw [clamp_clamp, fit, hn]
    · rintro rfl
      cases hn
  | cell v =>
    obtain ⟨n?, hnearest, h⟩ := Outcome.bind_eq_ok.1 h
    obtain ⟨n, rfl, rfl⟩ := Option.map_eq_some_iff.1 (Except.ok.inj h)
    obtain ⟨k, hk, hclamp⟩ := clamp_of_nearestBound hv hnearest
    refine ⟨?_, by simp [IsFinite, Json.toInteger], ?_, n, rfl⟩
    · show Except.ok (Json.int (e.clamp n)) = fit e v
      rw [hclamp, fit, hk]
    · rintro rfl
      cases hk

/-! ## Objects -/

section Object

variable {obj other : Object} {name : String}

theorem get?_set (obj : Object) (n : String) (v : Value) (name : String) :
    (obj.set n v).get? name = if name = n then some v else obj.get? name := by
  have hset : (obj.set n v).fields = Named.assign obj.fields n v := by
    unfold Object.set Named.assign Object.has Object.get?
    split <;> rfl
  rw [Object.get?, hset, Named.lookup_assign]
  rfl

theorem runs_set (obj : Object) (n : String) (v : Value) : (obj.set n v).runs = obj.runs := by
  unfold Object.set
  split <;> rfl

theorem runs_setAll (obj : Object) (sets : List (String × Value)) :
    (obj.setAll sets).runs = obj.runs := by
  induction sets generalizing obj with
  | nil => rfl
  | cons p sets ih => exact (ih _).trans (runs_set ..)

theorem get?_setAll_of_not_mem {sets : List (String × Value)} (h : name ∉ sets.map Prod.fst) :
    (obj.setAll sets).get? name = obj.get? name := by
  induction sets generalizing obj with
  | nil => rfl
  | cons p sets ih =>
    obtain ⟨hp, hsets⟩ := not_or.1 (mem_cons.not.1 h)
    exact (ih hsets).trans ((get?_set ..).trans (if_neg hp))

theorem get?_setAll_of_mem {sets : List (String × Value)} (h : name ∈ sets.map Prod.fst) :
    (obj.setAll sets).get? name = (other.setAll sets).get? name := by
  induction sets generalizing obj other with
  | nil => cases h
  | cons p sets ih =>
    by_cases hsets : name ∈ sets.map Prod.fst
    · exact ih hsets
    · obtain rfl := (mem_cons.1 h).resolve_right hsets
      show ((obj.set p.1 p.2).setAll sets).get? p.1 = ((other.set p.1 p.2).setAll sets).get? p.1
      rw [get?_setAll_of_not_mem hsets, get?_setAll_of_not_mem hsets, get?_set, get?_set, if_pos rfl,
        if_pos rfl]

/-- The fields that a randomisation sets. -/
def setNames : Draw → List String
  | .sets fields => fields.map Prod.fst
  | .fails _ => []

theorem randomize_of_sets {sets : List (String × Value)} (h : obj.runs = [.sets sets]) :
    obj.randomize = (.ok (), { obj with count := obj.count + 1 }.setAll sets) := by
  simp [Object.randomize, h, Nat.mod_one]

theorem randomize_of_fails {text : String} (h : obj.runs = [.fails text]) :
    obj.randomize = (.error (.reported text), { obj with count := obj.count + 1 }) := by
  simp [Object.randomize, h, Nat.mod_one]

variable {draw : Draw}

theorem runs_randomize (h : obj.runs = [draw]) : obj.randomize.2.runs = [draw] := by
  cases draw with
  | sets sets => rw [randomize_of_sets h]; exact (runs_setAll ..).trans h
  | fails text => rw [randomize_of_fails h]; exact h

theorem isOk_randomize (h : obj.runs = [draw]) (h' : other.runs = [draw]) :
    other.randomize.1 = obj.randomize.1 := by
  cases draw with
  | sets sets => rw [randomize_of_sets h, randomize_of_sets h']
  | fails text => rw [randomize_of_fails h, randomize_of_fails h']

theorem get?_randomize (h : obj.runs = [draw]) (hname : name ∉ setNames draw) :
    obj.randomize.2.get? name = obj.get? name := by
  cases draw with
  | sets sets => rw [randomize_of_sets h]; exact get?_setAll_of_not_mem hname
  | fails text => rw [randomize_of_fails h]; rfl

theorem get?_randomize_of_mem (h : obj.runs = [draw]) (h' : other.runs = [draw])
    (hname : name ∈ setNames draw) : other.randomize.2.get? name = obj.randomize.2.get? name := by
  cases draw with
  | sets sets => rw [randomize_of_sets h, randomize_of_sets h']; exact get?_setAll_of_mem hname
  | fails text => cases hname

theorem randomize_again (h : obj.runs = [draw]) : obj.randomize.2.randomize.1 = obj.randomize.1 ∧
    ∀ name, obj.randomize.2.randomize.2.get? name = obj.randomize.2.get? name := by
  have hruns := runs_randomize h
  refine ⟨isOk_randomize h hruns, fun name => ?_⟩
  by_cases hname : name ∈ setNames draw
  · exact get?_randomize_of_mem h hruns hname
  · exact get?_randomize hruns hname

end Object

theorem valueOf?_of_get? {obj : Object} {name : String} {v : Value} (hv : obj.get? name = some v)
    (hnull : bare v ≠ .null) : valueOf? obj name = some (bare v) := by
  simp only [valueOf?, hv, Option.map_some, Option.filter_some]
  cases v with
  | plain v | cell v =>
    cases v with
    | null => exact absurd rfl hnull
    | _ => rfl

theorem run_solveWithin (bounds : List Bounds) (s : Stand) :
    (solveWithin bounds).run s = Trial.randomize.run s ∨ ∃ f, (solveWithin bounds).run s = (.error f, s) := by
  have hbound : ∃ result, (bounds.forM fun b => Trial.ofOutcome ((s.object.get b.name).bind Value.bound)).run s =
      (result, s) := by
    induction bounds with
    | nil => exact ⟨_, rfl⟩
    | cons b bounds ih =>
      obtain ⟨result, hrest⟩ := ih
      rw [List.forM, Trial.run_bind, Trial.run_ofOutcome]
      cases (s.object.get b.name).bind Value.bound with
      | error f => exact ⟨_, rfl⟩
      | ok _ => exact ⟨_, hrest⟩
  obtain ⟨result, hbound⟩ := hbound
  unfold solveWithin
  simp only [Trial.run_bind, Trial.run_get, hbound]
  cases result with
  | error f => exact .inr ⟨f, rfl⟩
  | ok _ => exact .inl rfl

/-! ## What an object shows -/

section Show

variable {es t : Table} {obj other : Object} {fields : List Field} {names : List String}

/-- Two named values that entries let look alike. -/
def Alike (es : Table) (p q : String × Json) : Prop := p.1 = q.1 ∧ fitted es p.1 p.2 = fitted es p.1 q.2

theorem alike_setField {vs ws : Values} (h : Forall₂ (Alike es) vs ws) {name : String} {v w : Json}
    (hnew : fitted es name v = fitted es name w) :
    Forall₂ (Alike es) (Json.setField name v vs) (Json.setField name w ws) := by
  induction h with
  | nil => exact .cons ⟨rfl, hnew⟩ .nil
  | @cons p q vs ws hpq hrest ih =>
    obtain ⟨n, v⟩ := p
    obtain ⟨n', w⟩ := q
    obtain ⟨rfl, hfit⟩ : n = n' ∧ _ := hpq
    rw [Json.setField, Json.setField]
    by_cases hname : n = name
    · subst hname
      rw [if_pos rfl, if_pos rfl]
      exact .cons ⟨rfl, hnew⟩ hrest
    · rw [if_neg hname, if_neg hname]
      exact .cons ⟨rfl, hfit⟩ ih

theorem alike_listedValues (h : ∀ name, (valueOf? obj name).map (fitted es name) =
    (valueOf? other name).map (fitted es name)) (fields : List Field) :
    Forall₂ (Alike es) (listedValues obj fields) (listedValues other fields) := by
  have hfold (fields : List Field) {vs ws : Values} (hvs : Forall₂ (Alike es) vs ws) :
      Forall₂ (Alike es)
        (fields.foldl (fun vs f => Json.setField f.name ((valueOf? obj f.name).getD (.str f.default)) vs) vs)
        (fields.foldl (fun vs f => Json.setField f.name ((valueOf? other f.name).getD (.str f.default)) vs)
          ws) := by
    induction fields generalizing vs ws with
    | nil => exact hvs
    | cons f fields ih =>
      refine ih (alike_setField hvs ?_)
      have hvalue := congrArg (·.getD (fitted es f.name (.str f.default))) (h f.name)
      simpa only [Option.getD_map] using hvalue
  exact hfold fields .nil

theorem alike_presentValues (h : ∀ name, (valueOf? obj name).map (fitted es name) =
    (valueOf? other name).map (fitted es name)) (names : List String) :
    Forall₂ (Alike es) (presentValues obj names) (presentValues other names) := by
  unfold presentValues
  induction names with
  | nil => exact .nil
  | cons n names ih =>
    have hn := h n
    rw [filterMap_cons, filterMap_cons]
    cases hv : valueOf? obj n with
    | none =>
      rw [hv] at hn
      rw [Option.map_eq_none_iff.1 hn.symm]
      exact ih
    | some v =>
      rw [hv] at hn
      obtain ⟨w, hw, hfit⟩ := Option.map_eq_some_iff.1 hn.symm
      rw [hw]
      exact .cons ⟨rfl, hfit.symm⟩ ih

section Nodup

variable (ht : (t.map Entry.name).Nodup)
include ht

theorem patch_of_alike {vs ws : Values} (hvs : Distinct vs) (hws : Distinct ws)
    (h : Forall₂ (Alike (active t)) vs ws) : t.patch vs = t.patch ws := by
  rw [patch_eq hvs ht, patch_eq hws ht]
  refine Outcome.mapM_of_map ?_
  induction h with
  | nil => rfl
  | @cons p q vs ws hpq hrest ih =>
    obtain ⟨hname, hfit⟩ := hpq
    rw [map_cons, map_cons, ih (nodup_cons.1 hvs).2 (nodup_cons.1 hws).2, fitNamed, fitNamed, hfit, hname]

theorem readOut_congr (h : ∀ name, (valueOf? obj name).map (fitted (active t) name) =
      (valueOf? other name).map (fitted (active t) name)) (fields : List Field) (hnames : names.Nodup) :
    readOut t obj fields names = readOut t other fields names := by
  unfold readOut
  rw [patch_of_alike ht (lists_listedValues ..).distinct (lists_listedValues ..).distinct
      (alike_listedValues h fields),
    patch_of_alike ht (distinct_presentValues hnames) (distinct_presentValues hnames)
      (alike_presentValues h names)]

theorem names_active : (active t).map Entry.name =
    (t.map Entry.name).filter fun name => decide (name ∈ (active t).map Entry.name) := by
  rw [filter_map]
  refine congrArg _ (filter_congr fun e he => ?_)
  have hmem : e.name ∈ (active t).map Entry.name ↔ e.isActive = true := by
    constructor
    · intro hname
      obtain ⟨f, hf, hname⟩ := mem_map.1 hname
      obtain rfl := inj_on_of_nodup_map ht (mem_active.1 hf).1 he hname
      exact (mem_active.1 hf).2
    · exact fun hactive => mem_map_of_mem (mem_active.2 ⟨he, hactive⟩)
  rw [Bool.eq_iff_iff, Function.comp_apply, decide_eq_true_iff, hmem]

omit ht in
theorem forall₂_filter_fitNamed {vs out : Values} (p : String → Bool)
    (h : Forall₂ (fun v w => fitNamed es v = .ok w) vs out) :
    Forall₂ (fun v w => fitNamed es v = .ok w) (vs.filter fun v => p v.1) (out.filter fun w => p w.1) := by
  induction h with
  | nil => exact .nil
  | cons hvw _ ih =>
    rw [filter_cons, filter_cons, (fitNamed_eq_ok.1 hvw).1]
    split
    · exact .cons hvw ih
    · exact ih

/-- If only the fields with other bounds are read, these are what is kept of all fields of the table. -/
theorem readOut_active {v v' : Vectors} (h : readOut t obj fields (t.map Entry.name) = .ok v)
    (h' : readOut t obj fields ((active t).map Entry.name) = .ok v') : v'.listed = v.listed ∧
      v'.overridden = v.overridden.filter fun p => decide (p.1 ∈ (active t).map Entry.name) := by
  obtain ⟨listed, hlisted, h⟩ := Outcome.bind_eq_ok.1 h
  obtain ⟨all, hall, h⟩ := Outcome.bind_eq_ok.1 h
  obtain rfl := Except.ok.inj h
  obtain ⟨listed', hlisted', h'⟩ := Outcome.bind_eq_ok.1 h'
  obtain ⟨kept, hkept, h'⟩ := Outcome.bind_eq_ok.1 h'
  obtain rfl := Except.ok.inj h'
  refine ⟨Except.ok.inj (hlisted'.symm.trans hlisted), ?_⟩
  have hpresent (p : String → Bool) (names : List String) :
      presentValues obj (names.filter p) = (presentValues obj names).filter fun q => p q.1 := by
    unfold presentValues
    rw [filterMap_filter, filter_filterMap]
    refine filterMap_congr fun n _ => ?_
    cases valueOf? obj n <;> simp [Option.filter, apply_ite]
  rw [patch_eq (distinct_presentValues (nodup_active ht)) ht, names_active ht, hpresent] at hkept
  rw [patch_eq (distinct_presentValues ht) ht] at hall
  exact Except.ok.inj (hkept.symm.trans (Outcome.mapM_eq_ok.2
    (forall₂_filter_fitNamed (fun name => decide (name ∈ (active t).map Entry.name))
      (Outcome.mapM_eq_ok.1 hall))))

/-- A table patches values if every one of them can be put within the bounds it has to keep. -/
theorem exists_patch_iff {values : Values} (hvalues : Distinct values) :
    (∃ out, t.patch values = .ok out) ↔ ∀ p ∈ values, ∀ f, fitNamed (active t) p ≠ .error f := by
  rw [patch_eq hvalues ht]
  constructor
  · rintro ⟨out, hout⟩ p hp f hfail
    obtain ⟨q, -, hq⟩ := Outcome.exists_mem_of_mapM hout hp
    cases hq.symm.trans hfail
  · intro h
    by_contra hnone
    obtain ⟨f, hf⟩ := Outcome.exists_error_iff.2 (not_exists.1 hnone)
    obtain ⟨p, hp, hfail⟩ := Outcome.exists_of_mapM_eq_error hf
    exact h p hp f hfail

omit ht in
theorem exists_readOut_iff : (∃ v, readOut t obj fields names = .ok v) ↔
    (∃ listed, t.patch (listedValues obj fields) = .ok listed) ∧
      ∃ out, t.patch (presentValues obj names) = .ok out := by
  unfold readOut
  cases t.patch (listedValues obj fields) <;> cases t.patch (presentValues obj names) <;>
    simp [pure, Except.pure]

/-- A value that cannot be put within bounds is one of a field with other bounds. -/
theorem exists_readOut_active : (∃ v, readOut t obj fields (t.map Entry.name) = .ok v) ↔
    ∃ v, readOut t obj fields ((active t).map Entry.name) = .ok v := by
  rw [exists_readOut_iff, exists_readOut_iff, exists_patch_iff ht (distinct_presentValues ht),
    exists_patch_iff ht (distinct_presentValues (nodup_active ht))]
  refine and_congr_right fun _ => ⟨fun h p hp => ?_, fun h p hp f hfail => ?_⟩
  · obtain ⟨hname, hvalue⟩ := mem_presentValues.1 hp
    exact h p (mem_presentValues.2 ⟨(filter_sublist.map _).subset hname, hvalue⟩)
  · obtain ⟨-, -, e, he, hname⟩ := eq_of_fitted_eq_error (fitNamed_eq_error.1 hfail)
    exact h p (mem_presentValues.2 ⟨hname ▸ mem_map_of_mem he, (mem_presentValues.1 hp).2⟩) f hfail

end Nodup

end Show

/-! ## Objects that are drawn again and again -/

/-- Of the named fields, an object shows what another one shows, as far as the bounds of a table let it
be seen. -/
structure Tracks (solver : Bool) (t : Table) (draw : Draw) (base : Object) (named : String → Prop)
    (obj : Object) : Prop where
  runs : obj.runs = [draw]
  seen : ∀ name, named name → (valueOf? obj name).map (fitted (active t) name) =
    (valueOf? base name).map (fitted (active t) name)
  finite : solver = true → ∀ e ∈ active t, named e.name → ∀ v ∈ obj.get? e.name, IsFinite v

section Tracks

variable {solver : Bool} {t : Table} {draw : Draw} {base obj : Object}

theorem Tracks.weaken {named named' : String → Prop} (h : Tracks solver t draw base named obj)
    (hsub : ∀ name, named' name → named name) : Tracks solver t draw base named' obj :=
  ⟨h.runs, fun name hname => h.seen name (hsub name hname),
    fun hs e he hname => h.finite hs e he (hsub _ hname)⟩

theorem Tracks.randomize (h : Tracks solver t draw base.randomize.2 (· ∉ setNames draw) obj)
    (hbase : base.runs = [draw])
    (hfinite : solver = true → ∀ e ∈ active t, ∀ v ∈ base.randomize.2.get? e.name, IsFinite v) :
    Tracks solver t draw base.randomize.2 (fun _ => True) obj.randomize.2 := by
  have hget {name : String} (hname : name ∈ setNames draw) :=
    get?_randomize_of_mem hbase h.runs hname
  refine ⟨runs_randomize h.runs, fun name _ => ?_, fun hs e he _ => ?_⟩
  · by_cases hname : name ∈ setNames draw
    · simp only [valueOf?, hget hname]
    · have hseen := h.seen name hname
      simp only [valueOf?] at hseen ⊢
      rwa [get?_randomize h.runs hname]
  · by_cases hname : e.name ∈ setNames draw
    · rw [hget hname]
      exact hfinite hs e he
    · rw [get?_randomize h.runs hname]
      exact h.finite hs e he hname

theorem Tracks.set (ht : (t.map Entry.name).Nodup) (h : Tracks true t draw base (fun _ => True) obj)
    {e : Entry} (he : e ∈ active t) {v w : Value} (hv : obj.get? e.name = some v)
    (hw : clampedValue? ⟨e.name, e.newLow, e.newHigh⟩ v = .ok (some w)) :
    Tracks true t draw base (fun _ => True) (obj.set e.name w) := by
  obtain ⟨hfit, hfinite, hnull, n, hn⟩ := fit_clamped (h.finite rfl e he trivial v hv) hw
  refine ⟨(runs_set ..).trans h.runs, fun name _ => ?_, fun _ f hf _ => ?_⟩
  · rw [← h.seen name trivial]
    by_cases hname : name = e.name
    · subst hname
      have hfitted (j : Json) : fitted (active t) e.name j = fit e j := by
        rw [fitted, get?_of_nodup (nodup_active ht) he]
      have hnew : (obj.set e.name w).get? e.name = some w := (get?_set ..).trans (if_pos rfl)
      rw [valueOf?_of_get? hv hnull, valueOf?_of_get? hnew (by simp [hn]), Option.map_some,
        Option.map_some, hfitted, hfitted, hfit]
    · simp only [valueOf?, get?_set, if_neg hname]
  · rw [get?_set]
    split
    · rintro u ⟨⟩
      exact hfinite
    · exact h.finite rfl f hf trivial

theorem get?_of_get {name : String} {v : Value} (h : obj.get name = .ok v) : obj.get? name = some v := by
  unfold Object.get at h
  split at h
  · next u hu => rw [hu, Except.ok.inj h]
  · cases h

theorem tracks_clampField (ht : (t.map Entry.name).Nodup) {e : Entry} (he : e ∈ active t) {s : Stand}
    (h : Tracks true t draw base (fun _ => True) s.object) : Tracks true t draw base (fun _ => True)
      ((clampField ⟨e.name, e.newLow, e.newHigh⟩).run s).2.object := by
  unfold clampField
  simp only [Trial.run_bind, Trial.run_get, Trial.run_ofOutcome]
  cases hv : (s.object.get e.name).bind (clampedValue? ⟨e.name, e.newLow, e.newHigh⟩) with
  | error f => exact h
  | ok w? =>
    cases w? with
    | none => exact h
    | some w =>
      obtain ⟨v, hget, hw⟩ := Outcome.bind_eq_ok.1 hv
      exact h.set ht he (get?_of_get hget) hw

theorem tracks_clampFields (ht : (t.map Entry.name).Nodup) {es : Table} (hes : ∀ e ∈ es, e ∈ active t)
    {s : Stand} (h : Tracks true t draw base (fun _ => True) s.object) :
    Tracks true t draw base (fun _ => True) ((clampFields (es.map fun e =>
      { name := e.name, low := e.newLow, high := e.newHigh })).run s).2.object := by
  unfold clampFields
  induction es generalizing s with
  | nil => exact h
  | cons e es ih =>
    obtain ⟨he, hes⟩ := forall_mem_cons.1 hes
    have hfirst := tracks_clampField ht he h
    rw [map_cons, List.forM, Trial.run_bind, Trial.run_bind, Trial.run_attempt]
    cases hfield : (clampField ⟨e.name, e.newLow, e.newHigh⟩).run s with
    | mk result next =>
      rw [hfield] at hfirst
      cases result with
      | ok _ => exact ih hes hfirst
      | error f =>
        cases hkind : f.isNoAttribute || f.isBadType || f.isBadValue with
        | true =>
          simp only [hkind, if_true]
          exact ih hes hfirst
        | false =>
          simp only [hkind, Bool.false_eq_true, if_false]
          exact hfirst

theorem tracks_solveThenClamp (ht : (t.map Entry.name).Nodup) (hbase : base.runs = [draw])
    (hfinite : ∀ e ∈ active t, ∀ v ∈ base.randomize.2.get? e.name, IsFinite v) {s : Stand}
    (h : Tracks true t draw base.randomize.2 (· ∉ setNames draw) s.object) :
    Tracks true t draw base.randomize.2 (fun _ => True)
      ((solveThenClamp (t.boundsFor obj)).run s).2.object := by
  have hdrawn := h.randomize hbase fun _ => hfinite
  unfold solveThenClamp
  rw [Trial.run_bind, Trial.run_randomize]
  cases s.object.randomize.1 with
  | error f => exact hdrawn
  | ok _ =>
    refine tracks_clampFields ht (fun e he => ?_) hdrawn
    obtain ⟨he, hactive⟩ := mem_filter.1 he
    exact mem_active.2 ⟨he, (Bool.and_eq_true_iff.1 hactive).2⟩

/-- Before its first randomisation an object shows in the fields that it does not set what it shows after it. -/
theorem tracks_start (hbase : base.runs = [draw])
    (hfinite : solver = true → ∀ e ∈ active t, ∀ v ∈ base.randomize.2.get? e.name, IsFinite v) :
    Tracks solver t draw base.randomize.2 (· ∉ setNames draw) base := by
  refine ⟨hbase, fun name hname => ?_, fun hs e he hname => ?_⟩
  · simp only [valueOf?, get?_randomize hbase hname]
  · rw [← get?_randomize hbase hname]
    exact hfinite hs e he

theorem tracks_redraw (ht : (t.map Entry.name).Nodup)
    (h : Tracks solver t draw base.randomize.2 (· ∉ setNames draw) obj) (hbase : base.runs = [draw])
    (hfinite : solver = true → ∀ e ∈ active t, ∀ v ∈ base.randomize.2.get? e.name, IsFinite v) :
    Tracks solver t draw base.randomize.2 (fun _ => True) (redraw solver t obj) := by
  have hdrawn {other : Object} (hother : Tracks solver t draw base.randomize.2 (· ∉ setNames draw) other) :=
    hother.randomize hbase hfinite
  have hplain : Tracks solver t draw base.randomize.2 (fun _ => True)
      ((do Trial.randomize; return true : Trial Bool).run { object := obj }).2.object := by
    rw [Trial.run_bind, Trial.run_randomize]
    cases obj.randomize.1 <;> exact hdrawn h
  unfold redraw Trial.on randomizeWith
  rw [Trial.run_bind, Trial.run_get]
  cases solver with
  | false => exact hplain
  | true =>
    by_cases hempty : (t.boundsFor obj).isEmpty = true
    · simp only [if_true, if_pos hempty]
      exact hplain
    · simp only [if_true, if_neg hempty, Bool.false_eq_true, if_false]
      -- what is said after the second attempt does not change the object
      have hfallback (text : String) {say : Outcome Unit → Trial Bool}
          (hsay : ∀ result s, ((say result).run s).2.object = s.object) {s : Stand}
          (hs : Tracks true t draw base.randomize.2 (· ∉ setNames draw) s.object) :
          Tracks true t draw base.randomize.2 (fun _ => True) ((do
            Trial.sayLine text
            Trial.sayLine "  Falling back to plain randomize + post-clamp"
            say (← Trial.attempt (solveThenClamp (t.boundsFor obj)))).run s).2.object := by
        simp only [Trial.run_bind, Trial.run_sayLine, Trial.run_attempt, hsay]
        exact tracks_solveThenClamp ht hbase (hfinite rfl) hs
      rw [Trial.run_bind, Trial.run_attempt]
      obtain hsolve | ⟨f, hsolve⟩ := run_solveWithin (t.boundsFor obj) { object := obj }
      · rw [hsolve, Trial.run_randomize]
        cases obj.randomize.1 with
        | ok _ => exact hdrawn h
        | error f => exact hfallback _ (fun result _ => by cases result <;> rfl) ((hdrawn h).weaken fun _ _ => trivial)
      · rw [hsolve]
        exact hfallback _ (fun result _ => by cases result <;> rfl) h

theorem apartDraw_steady (h : obj.runs = [draw]) : (apartDraw t obj).1 = !obj.randomize.1.isOk ∧
    ∀ name, (apartDraw t obj).2.get? name = obj.randomize.2.get? name := by
  unfold apartDraw Trial.on
  obtain hsolve | ⟨f, hsolve⟩ :=
    run_solveWithin ((boundsOf t).filter fun b => obj.has b.name) { object := obj }
  · simp only [hsolve, Trial.run_randomize]
    have hagain := randomize_again h
    cases hfirst : obj.randomize.1 with
    | ok _ => exact ⟨rfl, fun _ => rfl⟩
    | error f =>
      rw [hfirst] at hagain
      cases hsecond : obj.randomize.2.randomize with
      | mk result after =>
        rw [hsecond] at hagain
        obtain ⟨rfl, hget⟩ := hagain
        exact ⟨rfl, hget⟩
  · simp only [hsolve]
    cases obj.randomize with
    | mk result after => cases result <;> exact ⟨rfl, fun _ => rfl⟩

theorem map_eq_map_of_forall {α β γ : Type} {f : α → γ} {g : β → γ} {xs : List α} {ys : List β}
    (hlength : xs.length = ys.length) (h : ∀ x ∈ xs, ∀ y ∈ ys, f x = g y) : xs.map f = ys.map g := by
  refine ext_getElem (by simpa using hlength) fun i hx hy => ?_
  rw [getElem_map, getElem_map]
  exact h _ (getElem_mem _) _ (getElem_mem _)

section Runs

variable (ht : (t.map Entry.name).Nodup) (hbase : base.runs = [draw]) {fields : List Field} {n : Nat}
include ht hbase

/-- What is drawn in turn is what the object shows after one randomisation. -/
theorem vectors_drawnInTurn
    (hfinite : solver = true → ∀ e ∈ active t, ∀ v ∈ base.randomize.2.get? e.name, IsFinite v)
    (h : Tracks solver t draw base.randomize.2 (· ∉ setNames draw) obj) :
    (∀ v, readOut t base.randomize.2 fields (t.map Entry.name) = .ok v →
      ∃ rs, drawnInTurn solver t fields n obj = .ok rs) ∧
    ∀ rs, drawnInTurn solver t fields n obj = .ok rs →
      ∀ r ∈ rs, readOut t base.randomize.2 fields (t.map Entry.name) = .ok r.vectors := by
  induction n generalizing obj with
  | zero =>
    refine ⟨fun v _ => ⟨[], rfl⟩, fun rs hrs => ?_⟩
    obtain rfl := Except.ok.inj hrs
    simp
  | succ n ih =>
    have hnext := tracks_redraw ht h hbase hfinite
    have hread : readOut t (redraw solver t obj) fields (t.map Entry.name) =
        readOut t base.randomize.2 fields (t.map Entry.name) :=
      readOut_congr ht (fun name => hnext.seen name trivial) fields ht
    obtain ⟨hsome, hall⟩ := ih (hnext.weaken fun _ _ => trivial)
    rw [drawnInTurn, hread]
    constructor
    · intro v hv
      obtain ⟨rest, hrest⟩ := hsome v hv
      exact ⟨_, by rw [hv, Outcome.ok_bind, hrest]; rfl⟩
    · intro rs hrs
      obtain ⟨v, hv, hrs⟩ := Outcome.bind_eq_ok.1 hrs
      obtain ⟨rest, hrest, hrs⟩ := Outcome.bind_eq_ok.1 hrs
      obtain rfl := Except.ok.inj hrs
      exact forall_mem_cons.2 ⟨hv, hall rest hrest⟩

/-- What a worker draws is what the object shows after one randomisation. -/
theorem vectors_drawnApart {recipe : Recipe} (hmake : recipe.make = .ok base) :
    (∀ v, readOut t base.randomize.2 fields ((active t).map Entry.name) = .ok v →
      ∃ rs, drawnApart recipe t fields n = .ok rs) ∧
    ∀ rs, drawnApart recipe t fields n = .ok rs → ∀ r ∈ rs,
      readOut t base.randomize.2 fields ((active t).map Entry.name) = .ok r.vectors ∧
        r.solved = base.randomize.1.isOk := by
  obtain ⟨hfailed, hget⟩ := apartDraw_steady (t := t) hbase
  have hread : readOut t (apartDraw t base).2 fields ((active t).map Entry.name) =
      readOut t base.randomize.2 fields ((active t).map Entry.name) :=
    readOut_congr ht (fun name => by simp only [valueOf?, hget]) fields (nodup_active ht)
  constructor
  · intro v hv
    induction n with
    | zero => exact ⟨[], rfl⟩
    | succ n ih =>
      obtain ⟨rest, hrest⟩ := ih
      have hdraw : drawnApart recipe t fields (n + 1) = (do
          let obj ← recipe.make
          let vectors ← readOut t (apartDraw t obj).2 fields ((active t).map Entry.name)
          let rest ← drawnApart recipe t fields n
          return { counted := vectors.listed, vectors, solved := !(apartDraw t obj).1 } :: rest) := rfl
      exact ⟨_, by rw [hdraw, hmake, Outcome.ok_bind, hread, hv, Outcome.ok_bind, hrest]; rfl⟩
  · intro rs hrs r hr
    obtain ⟨other, v, hother, hv, rfl⟩ := (drawnApart_runs recipe fields hrs).2 r hr
    obtain rfl := Except.ok.inj (hmake.symm.trans hother)
    exact ⟨hread ▸ hv, by rw [hfailed, Bool.not_not]⟩

end Runs

end Tracks

theorem writeRuns_without_files {s : Setting} {o : Order} (h : o.files = false) (t : Table)
    (runs : List (Nat × Drawn)) (d : Desk) : ((writeRuns s o t runs).on d).1 = .ok () := by
  induction runs generalizing d with
  | nil => rfl
  | cons p runs ih =>
    obtain ⟨run, r⟩ := p
    have hrun : writeRun o s.time t run r.vectors.listed r.vectors.overridden = pure () := by
      unfold writeRun
      rw [h]
      rfl
    rw [on_writeRuns_cons, hrun]
    exact ih d

/-- The batches of a steady model, drawn in turn and by several workers. In turn all runs are solved; with
workers all are or none, as the randomisation works or fails. Unless a cell with other bounds in the table
holds a number without an integer part, there is a batch in turn if and only if workers give one, as long
as no files are in the way; the vectors are the same; and of the fields of the table that are put down in
turn the workers put down those with other bounds. -/
theorem steady_batches {s : Setting} {o : Order} {recipe : Recipe} {t : Table} {specs : Specs}
    {fields : List Field} {obj : Object} {draw : Draw} {inTurn apart : Outcome Batch} {d d' : Desk} {k : Int}
    (ht : (t.map Entry.name).Nodup) (hmake : recipe.make = .ok obj) (hsteady : obj.runs = [draw])
    (hruns : 2 ≤ o.runs) (hk : 2 ≤ k)
    (h : ((drawBatch s { o with jobs := 1 } recipe t specs fields obj).on d).1 = inTurn)
    (h' : ((drawBatch s { o with jobs := k } recipe t specs fields obj).on d').1 = apart) :
    (∀ b, inTurn = .ok b → b.solved = o.runs.toNat) ∧
    (∀ b, apart = .ok b → b.solved = if obj.randomize.1.isOk then o.runs.toNat else 0) ∧
    ((s.solver = true → ∀ e ∈ active t, ∀ v ∈ obj.randomize.2.get? e.name, IsFinite v) →
      (o.files = false → ((∃ b, inTurn = .ok b) ↔ ∃ b, apart = .ok b)) ∧
      ∀ b b', inTurn = .ok b → apart = .ok b' → b'.vectors = b.vectors ∧
        b'.overridden = b.overridden.map (·.filter fun p => decide (p.1 ∈ (active t).map Entry.name))) := by
  have hinTurn (b : Batch) := @drawBatch_eq_ok s { o with jobs := 1 } recipe t specs fields obj b d ht
  have hapart (b : Batch) := @drawBatch_eq_ok s { o with jobs := k } recipe t specs fields obj b d' ht
  have hone : ¬ 1 < workers s.processors 1 o.runs := by
    unfold workers
    rw [if_neg (by omega)]
    omega
  have hmany : 1 < workers s.processors k o.runs := by
    unfold workers
    rw [if_neg (by omega)]
    omega
  simp only [h, drawn, if_neg hone] at hinTurn
  simp only [h', drawn, if_pos hmany] at hapart
  obtain ⟨hsome', hall'⟩ := @vectors_drawnApart t draw obj ht hsteady fields o.runs.toNat recipe hmake
  refine ⟨fun b hb => ?_, fun b hb => ?_, fun hfinite => ?_⟩
  · obtain ⟨rs, hrs, rfl, -⟩ := (hinTurn b).1 hb
    have hsolved : ∀ r ∈ rs, r.solved = true := fun r hr => by
      obtain ⟨_, v, -, rfl⟩ := (drawnInTurn_runs hrs).2 r hr
      rfl
    rw [Batch.solved_addAll, countP_eq_length.2 hsolved, (drawnInTurn_runs hrs).1]
    exact Nat.zero_add _
  · obtain ⟨rs, hrs, rfl, -⟩ := (hapart b).1 hb
    rw [Batch.solved_addAll]
    cases hok : obj.randomize.1.isOk with
    | true =>
      rw [countP_eq_length.2 fun r hr => (hall' rs hrs r hr).2.trans hok,
        (drawnApart_runs recipe fields hrs).1]
      exact Nat.zero_add _
    | false =>
      rw [countP_eq_zero.2 fun r hr => by simp [(hall' rs hrs r hr).2, hok]]
      rfl
  · have hstart := tracks_start hsteady hfinite
    obtain ⟨hsome, hall⟩ := @vectors_drawnInTurn s.solver t draw obj _ ht hsteady fields o.runs.toNat hfinite
      ((tracks_redraw ht hstart hsteady hfinite).weaken fun _ _ => trivial)
    have hpos : o.runs.toNat ≠ 0 := by omega
    refine ⟨fun hfiles => ⟨?_, ?_⟩, fun b b' hb hb' => ?_⟩
    · rintro ⟨b, hb⟩
      obtain ⟨rs, hrs, -, -⟩ := (hinTurn b).1 hb
      obtain ⟨r, hr⟩ := exists_mem_of_length_pos (Nat.pos_of_ne_zero ((drawnInTurn_runs hrs).1 ▸ hpos))
      obtain ⟨v, hv⟩ := (exists_readOut_active ht).1 ⟨_, hall rs hrs r hr⟩
      obtain ⟨rs', hrs'⟩ := hsome' v hv
      exact ⟨_, (hapart _).2 ⟨rs', hrs', rfl, writeRuns_without_files hfiles t _ _⟩⟩
    · rintro ⟨b, hb⟩
      obtain ⟨rs, hrs, -, -⟩ := (hapart b).1 hb
      obtain ⟨r, hr⟩ :=
        exists_mem_of_length_pos (Nat.pos_of_ne_zero ((drawnApart_runs recipe fields hrs).1 ▸ hpos))
      obtain ⟨v, hv⟩ := (exists_readOut_active ht).2 ⟨_, (hall' rs hrs r hr).1⟩
      obtain ⟨rs', hrs'⟩ := hsome v hv
      exact ⟨_, (hinTurn _).2 ⟨rs', hrs', rfl, writeRuns_without_files hfiles t _ _⟩⟩
    · obtain ⟨rs, hrs, rfl, -⟩ := (hinTurn b).1 hb
      obtain ⟨rs', hrs', rfl, -⟩ := (hapart b').1 hb'
      have hsame : ∀ r ∈ rs, ∀ r' ∈ rs', r'.vectors.listed = r.vectors.listed ∧ r'.vectors.overridden =
          r.vectors.overridden.filter fun p => decide (p.1 ∈ (active t).map Entry.name) :=
        fun r hr r' hr' => readOut_active ht (hall rs hrs r hr) (hall' rs' hrs' r' hr').1
      have hlength : rs.length = rs'.length :=
        (drawnInTurn_runs hrs).1.trans (drawnApart_runs recipe fields hrs').1.symm
      simp only [Batch.vectors_addAll, Batch.overridden_addAll, nil_append, map_map]
      exact ⟨map_eq_map_of_forall hlength.symm fun r' hr' r hr => (hsame r hr r' hr').1,
        map_eq_map_of_forall hlength.symm fun r' hr' r hr => (hsame r hr r' hr').2⟩

/-- A gain that cannot be drawn, beside a mode. -/
def noGain : Object where
  fields := [("gain", .plain (.int 9)), ("mode", .plain (.int 1))]
  runs := [.fails "no solution"]

/-- Two gains drawn from an object. -/
def gainsOf (obj : Object) (jobs : Int) : Outcome Batch :=
  ((drawBatch { time := "now" } { twoGains 1 with jobs } { object := obj } narrowGain [] [⟨"gain", "0"⟩]
    obj).on {}).1

/-- A gain that cannot be drawn is kept within the bounds of the table both in turn and by two workers. Of
the runs two are solved in turn and none by the workers, and only in turn is the mode put down. -/
theorem batches_noGain :
    ∃ b b', gainsOf noGain 1 = .ok b ∧ gainsOf noGain 2 = .ok b' ∧ b.solved = 2 ∧ b'.solved = 0 ∧
      b'.vectors = b.vectors ∧ b.overridden = replicate 2 [("gain", .int 5), ("mode", .int 1)] ∧
      b'.overridden = replicate 2 [("gain", .int 5)] := by
  have hnames : (narrowGain.map Entry.name).Nodup := by decide
  let r : Drawn :=
    ⟨[("gain", .int 9)], ⟨[("gain", .int 5)], [("gain", .int 5), ("mode", .int 1)]⟩, true⟩
  let r' : Drawn := ⟨[("gain", .int 5)], ⟨[("gain", .int 5)], [("gain", .int 5)]⟩, false⟩
  obtain ⟨b, hb, hkept⟩ : ∃ b, gainsOf noGain 1 = .ok b ∧
      b.overridden = replicate 2 [("gain", .int 5), ("mode", .int 1)] :=
    ⟨_, (drawBatch_eq_ok hnames).2 ⟨[r, r], rfl, rfl, rfl⟩, rfl⟩
  obtain ⟨b', hb'⟩ : ∃ b, gainsOf noGain 2 = .ok b :=
    ⟨_, (drawBatch_eq_ok hnames).2 ⟨[r', r'], rfl, rfl, rfl⟩⟩
  obtain ⟨hsolved, hsolved', hrest⟩ :=
    steady_batches (k := 2) hnames rfl rfl (by decide) (by decide) hb hb'
  obtain ⟨hvectors, hkept'⟩ := (hrest fun _ e he v hv => by
    obtain rfl := mem_singleton.1 he
    obtain rfl := Option.some.inj hv
    trivial).2 b b' rfl rfl
  exact ⟨b, b', hb, hb', hsolved b rfl, hsolved' b' rfl, hvectors, hkept, by rw [hkept', hkept]; rfl⟩

end Vector

end Stimulus
