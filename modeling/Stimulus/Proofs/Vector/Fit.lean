import Stimulus.Proofs.Outcome
import Stimulus.Random.Object
import Stimulus.Vector.Draw

/-!
# Vectors within the bounds of a table

Both ways to draw a vector read the values of an object and put those with active bounds within them,
one by one and each on its own.
-/

open List

namespace Stimulus.Random

/-! ## Trials step by step -/

namespace Trial

variable {α β : Type}

theorem run_bind (t : Trial α) (f : α → Trial β) (s : Stand) : (t >>= f).run s =
    match t.run s with
    | (.ok a, s) => (f a).run s
    | (.error e, s) => (.error e, s) := by
  simp only [ExceptT.run, bind, ExceptT.bind, ExceptT.mk, StateT.bind, ExceptT.bindCont]
  cases t s with
  | mk result s => cases result <;> rfl

@[simp] theorem run_pure (a : α) (s : Stand) : (pure a : Trial α).run s = (.ok a, s) := rfl

@[simp] theorem run_get (s : Stand) : (get : Trial Stand).run s = (.ok s, s) := rfl

@[simp] theorem run_modify (f : Stand → Stand) (s : Stand) :
    (modify f : Trial Unit).run s = (.ok (), f s) := rfl

@[simp] theorem run_throw (e : Failure) (s : Stand) : (throw e : Trial α).run s = (.error e, s) := rfl

@[simp] theorem run_sayLine (text : String) (s : Stand) :
    (sayLine text).run s = (.ok (), { s with out := s.out ++ text ++ "\n" }) := rfl

@[simp] theorem run_ofOutcome (o : Outcome α) (s : Stand) : (ofOutcome o).run s = (o, s) := by
  cases o <;> rfl

@[simp] theorem run_attempt (t : Trial α) (s : Stand) :
    (attempt t).run s = (.ok (t.run s).1, (t.run s).2) := by
  simp only [attempt, ExceptT.run, tryCatch, tryCatchThe, MonadExceptOf.tryCatch, ExceptT.tryCatch,
    bind, ExceptT.bind, ExceptT.mk, StateT.bind, ExceptT.bindCont]
  cases t s with
  | mk result s => cases result <;> rfl

@[simp] theorem run_randomize (s : Stand) :
    randomize.run s = (s.object.randomize.1, { s with object := s.object.randomize.2 }) := by
  rw [randomize, run_bind, run_get]
  simp only [run_bind, run_modify, run_ofOutcome]

end Trial

end Stimulus.Random

namespace Stimulus

theorem Json.eq_of_toInteger_eq_error {v : Json} {f : Failure} (h : v.toInteger = .error f)
    (hf : (f.isBadValue || f.isBadType) = false) : f = .infiniteInteger := by
  unfold Json.toInteger at h
  split at h
  · cases h
  · cases h
  · unfold Decimal.truncated at h
    split at h
    · cases h
      cases hf
    · exact (Except.error.inj h).symm
    · cases h
  · unfold Text.integer Text.readInteger at h
    dsimp only at h
    split at h
    · cases h
      cases hf
    · split at h
      · cases h
        cases hf
      · cases h
  · cases h
    cases hf

theorem Json.toInteger_str_ne (s : String) : (Json.str s).toInteger ≠ .error .infiniteInteger := by
  unfold Json.toInteger Text.integer Text.readInteger
  dsimp only
  repeat' split
  all_goals simp

namespace Vector

open Stimulus.Random Override

variable {name : String} {values : Values}

/-! ## One value -/

/-- The value with an entry's bounds kept. -/
def fit (e : Entry) (v : Json) : Outcome Json :=
  match v.toInteger with
  | .ok n => .ok (.int (e.clamp n))
  | .error f => if f.isBadValue || f.isBadType then .ok v else .error f

theorem eq_of_fit_eq_error {e : Entry} {v : Json} {f : Failure} (h : fit e v = .error f) :
    f = .infiniteInteger ∧ v.toInteger = .error f := by
  unfold fit at h
  split at h
  · cases h
  · next g hg =>
    split at h
    · cases h
    · next hkind =>
      obtain rfl := Except.error.inj h
      exact ⟨Json.eq_of_toInteger_eq_error hg (Bool.eq_false_iff.2 hkind), hg⟩

def fitted (es : Table) (name : String) (v : Json) : Outcome Json :=
  match es.get? name with
  | some e => fit e v
  | none => .ok v

/-- A named value with the bounds of entries kept. -/
def fitNamed (es : Table) (p : String × Json) : Outcome (String × Json) :=
  (fitted es p.1 p.2).map (p.1, ·)

section One

variable {es : Table} {name : String} {p q : String × Json} {f : Failure}

theorem eq_of_fitted_eq_error {v : Json} (h : fitted es name v = .error f) :
    f = .infiniteInteger ∧ v.toInteger = .error f ∧ ∃ e ∈ es, e.name = name := by
  unfold fitted at h
  split at h
  · next e he =>
    obtain ⟨hf, hv⟩ := eq_of_fit_eq_error h
    exact ⟨hf, hv, e, mem_of_find?_eq_some he, by simpa using find?_some he⟩
  · cases h

theorem fitNamed_eq_error : fitNamed es p = .error f ↔ fitted es p.1 p.2 = .error f := by
  unfold fitNamed
  cases fitted es p.1 p.2 <;> simp [Except.map]

theorem fitNamed_eq_ok : fitNamed es p = .ok q ↔ q.1 = p.1 ∧ fitted es p.1 p.2 = .ok q.2 := by
  unfold fitNamed
  rw [Outcome.map_eq_ok]
  constructor
  · rintro ⟨v, hv, rfl⟩
    exact ⟨rfl, hv⟩
  · rintro ⟨hname, hv⟩
    exact ⟨q.2, hv, by rw [← hname]⟩

theorem eq_infinite_of_fitNamed (p : String × Json) (f : Failure) (h : fitNamed es p = .error f) :
    f = .infiniteInteger :=
  (eq_of_fitted_eq_error (fitNamed_eq_error.1 h)).1

theorem fitted_of_not_mem (h : name ∉ es.map Entry.name) (v : Json) : fitted es name v = .ok v := by
  have hnone : es.get? name = none := by
    rw [Table.get?, find?_eq_none]
    intro e he hname
    exact h (mem_map.2 ⟨e, he, by simpa using hname⟩)
  rw [fitted, hnone]

theorem fitted_cons (e : Entry) (es : Table) (name : String) (v : Json) :
    fitted (e :: es) name v = if e.name = name then fit e v else fitted es name v := by
  unfold fitted Table.get?
  by_cases hname : e.name = name <;> simp [hname]

theorem fitNamed_cons (e : Entry) (hnew : e.name ∉ es.map Entry.name) (p : String × Json) :
    (fitNamed [e] p >>= fitNamed es) = fitNamed (e :: es) p := by
  unfold fitNamed
  rw [fitted_cons, fitted_cons]
  by_cases hname : e.name = p.1
  · rw [if_pos hname, if_pos hname]
    cases fit e p.2 with
    | error f => rfl
    | ok v => simp [Except.map, fitted_of_not_mem (hname ▸ hnew)]
  · rw [if_neg hname, if_neg hname, fitted_of_not_mem (by simp)]
    rfl

end One

/-! ## All values -/

/-- Of each name there is one value. -/
def Distinct (values : Values) : Prop := (values.map Prod.fst).Nodup

theorem lookup_eq_none :
    values.lookup name = none ↔ name ∉ values.map Prod.fst := by
  rw [lookup_eq_none_iff]
  constructor
  · intro h hmem
    obtain ⟨p, hp, rfl⟩ := mem_map.1 hmem
    simpa using h p hp
  · intro h p hp
    exact bne_iff_ne.2 fun hname : name = p.1 => h (hname ▸ mem_map_of_mem hp)

theorem map_replace_of_not_mem (h : name ∉ values.map Prod.fst)
    (v : Json) : values.map (fun (n, old) => if n = name then (n, v) else (n, old)) = values := by
  conv_rhs => rw [← map_id values]
  refine map_congr_left fun q hq => ?_
  exact if_neg fun hq' : q.1 = name => h (hq' ▸ mem_map_of_mem hq)

theorem setField_eq (h : Distinct values)
    (hmem : name ∈ values.map Prod.fst) (v : Json) : Json.setField name v values =
      values.map fun (n, old) => if n = name then (n, v) else (n, old) := by
  induction values with
  | nil => cases hmem
  | cons p values ih =>
    obtain ⟨n, old⟩ := p
    obtain ⟨hnew, hvalues⟩ := nodup_cons.1 h
    rw [map_cons, Json.setField]
    by_cases hname : n = name
    · simp only [if_pos hname, map_replace_of_not_mem (hname ▸ hnew)]
    · rw [map_cons, mem_cons] at hmem
      simp only [if_neg hname, ih hvalues (hmem.resolve_left (Ne.symm hname))]

theorem patchOne_eq (e : Entry) (h : Distinct values) :
    patchOne e values = values.mapM (fitNamed [e]) := by
  induction values with
  | nil => rfl
  | cons p values ih =>
    obtain ⟨hnew, hvalues⟩ := nodup_cons.1 h
    rw [mapM_cons, ← ih hvalues]
    by_cases hname : e.name = p.1
    · have hkept := map_replace_of_not_mem hnew
      have hfit : fitNamed [e] p = (fit e p.2).map (p.1, ·) := by
        rw [fitNamed, fitted_cons, if_pos hname]
      unfold patchOne
      rw [hname, lookup_cons_self, lookup_eq_none.2 hnew, hfit]
      simp only
      unfold fit
      cases hv : p.2.toInteger with
      | ok n => simp [Except.map, hkept]
      | error f => by_cases hkind : (f.isBadValue || f.isBadType) = true <;> simp [hkind, Except.map]
    · have hfit : fitNamed [e] p = .ok p := by
        rw [fitNamed, fitted_cons, if_neg hname, fitted_of_not_mem (by simp)]
        rfl
      unfold patchOne
      rw [lookup_cons, beq_false_of_ne hname, hfit]
      cases values.lookup e.name with
      | none => rfl
      | some v =>
        simp only
        cases hv : v.toInteger with
        | ok n => simp [Ne.symm hname]
        | error f => by_cases hkind : (f.isBadValue || f.isBadType) = true <;> simp [hkind]

theorem names_of_mapM {es : Table} {out : Values} (h : values.mapM (fitNamed es) = .ok out) :
    out.map Prod.fst = values.map Prod.fst := by
  have hall := Outcome.mapM_eq_ok.1 h
  induction hall with
  | nil => rfl
  | cons hp _ ih => rw [map_cons, map_cons, (fitNamed_eq_ok.1 hp).1, ih (Outcome.mapM_eq_ok.2 ‹_›)]

theorem foldlM_patchOne {es : Table} (hes : (es.map Entry.name).Nodup)
    (h : Distinct values) :
    es.foldlM (fun v e => patchOne e v) values = values.mapM (fitNamed es) := by
  induction es generalizing values with
  | nil =>
    have hnil : fitNamed [] = .ok := funext fun p => by
      rw [fitNamed, fitted_of_not_mem (by simp)]
      rfl
    rw [hnil, Outcome.mapM_ok fun p _ => rfl, map_id']
    rfl
  | cons e es ih =>
    obtain ⟨hnew, hes⟩ := nodup_cons.1 hes
    rw [foldlM_cons, patchOne_eq e h]
    rw [← funext (fitNamed_cons e hnew),
      ← Outcome.mapM_bind_mapM eq_infinite_of_fitNamed eq_infinite_of_fitNamed]
    cases hout : values.mapM (fitNamed [e]) with
    | error f => rfl
    | ok out =>
      have hdistinct : Distinct out := by
        rw [Distinct, names_of_mapM hout]
        exact h
      exact ih hes hdistinct

/-! ## Tables and workers -/

/-- The active entries of a table. -/
def active (t : Table) : Table := t.filter Entry.isActive

/-- The bounds of a table that workers get. -/
def boundsOf (t : Table) : List Bounds :=
  (active t).map fun e => { name := e.name, low := e.newLow, high := e.newHigh }

section Table

variable {t : Table} {values : Values} (h : Distinct values)

theorem nodup_active (ht : (t.map Entry.name).Nodup) : ((active t).map Entry.name).Nodup :=
  (filter_sublist.map _).nodup ht

include h

theorem patch_eq (ht : (t.map Entry.name).Nodup) : t.patch values = values.mapM (fitNamed (active t)) :=
  foldlM_patchOne (nodup_active ht) h

theorem clampOne_eq (e : Entry) :
    clampOne values { name := e.name, low := e.newLow, high := e.newHigh } = patchOne e values := by
  unfold clampOne patchOne
  dsimp only
  cases hlookup : values.lookup e.name with
  | none => rfl
  | some v =>
    have hmem : e.name ∈ values.map Prod.fst := by
      by_contra hnew
      simp [lookup_eq_none.2 hnew] at hlookup
    simp only [setField_eq h hmem]
    rfl

theorem clampValues_eq : clampValues (boundsOf t) values = t.patch values := by
  have hfold (es : Table) {values : Values} (h : Distinct values) :
      clampValues (es.map fun e => { name := e.name, low := e.newLow, high := e.newHigh }) values =
        es.foldlM (fun v e => patchOne e v) values := by
    induction es generalizing values with
    | nil => rfl
    | cons e es ih =>
      rw [map_cons, clampValues, foldlM_cons, foldlM_cons, clampOne_eq h]
      cases hout : patchOne e values with
      | error f => rfl
      | ok out =>
        rw [patchOne_eq e h] at hout
        refine ih ?_
        rw [Distinct, names_of_mapM hout]
        exact h
  exact hfold _ h

end Table

/-! ## Reading an object -/

section Read

variable {name : String} {v : Json} {values : Values}

theorem names_setField : (Json.setField name v values).map Prod.fst =
    if name ∈ values.map Prod.fst then values.map Prod.fst else values.map Prod.fst ++ [name] := by
  induction values with
  | nil => rfl
  | cons p values ih =>
    rw [Json.setField]
    by_cases hname : p.1 = name
    · simp [hname]
    · rw [if_neg hname, map_cons, ih, map_cons]
      by_cases hmem : name ∈ values.map Prod.fst <;> simp [hmem, Ne.symm hname]

theorem distinct_setField (h : Distinct values) : Distinct (Json.setField name v values) := by
  rw [Distinct, names_setField]
  split
  · exact h
  · next hnew => exact nodup_append.2 ⟨h, by simp, by simpa using fun a ha => ne_of_mem_of_not_mem ha hnew⟩

theorem mem_setField {p : String × Json} (h : p ∈ Json.setField name v values) :
    p = (name, v) ∨ p ∈ values := by
  induction values with
  | nil => exact .inl (mem_singleton.1 h)
  | cons q values ih =>
    rw [Json.setField] at h
    split at h
    · next hname =>
      rcases mem_cons.1 h with rfl | h
      · exact .inl (by rw [hname])
      · exact .inr (mem_cons_of_mem _ h)
    · rcases mem_cons.1 h with rfl | h
      · exact .inr mem_cons_self
      · exact (ih h).imp_right (mem_cons_of_mem _)

/-- The value of a listed field: what the object has, or else the default. -/
def rawValue (obj : Object) (f : Field) : Json := (valueOf? obj f.name).getD (.str f.default)

/-- The listed values are one for each name, and each is that of a field. -/
structure Lists (obj : Object) (fields : List Field) (values : Values) : Prop where
  distinct : Distinct values
  mem : ∀ p ∈ values, ∃ f ∈ fields, p = (f.name, rawValue obj f)
  names : ∀ f ∈ fields, f.name ∈ values.map Prod.fst

theorem lists_listedValues (obj : Object) (fields : List Field) :
    Lists obj fields (listedValues obj fields) := by
  have hfold (fields : List Field) {done : List Field} {values : Values} (h : Lists obj done values) :
      Lists obj (done ++ fields) (fields.foldl (fun vector f =>
        Json.setField f.name (rawValue obj f) vector) values) := by
    induction fields generalizing done values with
    | nil => simpa using h
    | cons f fields ih =>
      rw [foldl_cons, append_cons]
      refine ih ⟨distinct_setField h.distinct, fun p hp => ?_, fun g hg => ?_⟩
      · rcases mem_setField hp with rfl | hp
        · exact ⟨f, by simp, rfl⟩
        · obtain ⟨g, hg, rfl⟩ := h.mem p hp
          exact ⟨g, mem_append_left _ hg, rfl⟩
      · rw [names_setField]
        rcases mem_append.1 hg with hg | hg
        · have := h.names g hg
          split <;> simp_all
        · obtain rfl := mem_singleton.1 hg
          split <;> simp_all
  exact @hfold fields [] [] ⟨nodup_nil, by simp, by simp⟩

theorem mem_presentValues {obj : Object} {names : List String} {p : String × Json} :
    p ∈ presentValues obj names ↔ p.1 ∈ names ∧ valueOf? obj p.1 = some p.2 := by
  unfold presentValues
  rw [mem_filterMap]
  constructor
  · rintro ⟨n, hn, hp⟩
    obtain ⟨v, hv, rfl⟩ := Option.map_eq_some_iff.1 hp
    exact ⟨hn, hv⟩
  · rintro ⟨hn, hv⟩
    exact ⟨p.1, hn, by rw [hv]; rfl⟩

theorem names_presentValues (obj : Object) (names : List String) :
    (presentValues obj names).map Prod.fst = names.filter fun n => (valueOf? obj n).isSome := by
  unfold presentValues
  induction names with
  | nil => rfl
  | cons n names ih =>
    rw [filterMap_cons, filter_cons]
    cases valueOf? obj n with
    | none => simpa using ih
    | some v => simpa using ih

theorem distinct_presentValues {obj : Object} {names : List String} (h : names.Nodup) :
    Distinct (presentValues obj names) := by
  rw [Distinct, names_presentValues]
  exact h.filter _

end Read

/-! ## Drawing -/

/-- The vectors of an object as it is, within the bounds of a table. -/
def readOut (t : Table) (obj : Object) (fields : List Field) (names : List String) : Outcome Vectors := do
  let listed ← t.patch (listedValues obj fields)
  let overridden ← t.patch (presentValues obj names)
  return { listed, overridden }

section Draw

variable (t : Table) (fields : List Field) (run : Int) (s : Stand)

theorem run_randomizeOrTell (solver : Bool) : ∃ stand,
    (randomizeOrTell solver t run).run s = (.ok (), stand) ∧
      stand.object = ((randomizeWith solver false t).run s).2.object := by
  unfold randomizeOrTell
  simp only [Trial.run_bind, Trial.run_attempt]
  cases (randomizeWith solver false t).run s with
  | mk result stand =>
    cases result with
    | error e => exact ⟨_, rfl, rfl⟩
    | ok done => cases done <;> exact ⟨_, rfl, rfl⟩

theorem run_draw (solver : Bool) : ∃ stand,
    (randomizeOrTell solver t run).run s = (.ok (), stand) ∧
      (draw solver t fields run).run s = ((readOut t stand.object fields (t.map Entry.name)).map
        (listedValues stand.object fields, ·), stand) := by
  obtain ⟨stand, hstand, -⟩ := run_randomizeOrTell t run s solver
  refine ⟨stand, hstand, ?_⟩
  unfold draw readOut
  simp only [Trial.run_bind, hstand, Trial.run_get, Trial.run_ofOutcome]
  cases t.patch (listedValues stand.object fields) with
  | error e => rfl
  | ok listed => cases t.patch (presentValues stand.object (t.map Entry.name)) <;> rfl

theorem run_randomizeApart (bounds : List Bounds) : ∃ failed stand,
    (randomizeApart bounds run).run s = (.ok failed, stand) := by
  unfold randomizeApart
  simp only [Trial.run_bind, Trial.run_get, Trial.run_attempt]
  cases (solveWithin (bounds.filter fun b => s.object.has b.name)).run s with
  | mk result stand =>
    cases result with
    | ok _ => exact ⟨_, _, rfl⟩
    | error e =>
      simp only [Trial.run_bind, Trial.run_sayLine, Trial.run_attempt, Trial.run_randomize]
      cases stand.object.randomize.1 <;> exact ⟨_, _, rfl⟩

theorem run_drawApart (ht : (t.map Entry.name).Nodup) : ∃ failed stand,
    (randomizeApart (boundsOf t) run).run s = (.ok failed, stand) ∧
      (drawApart (boundsOf t) fields run).run s =
        ((readOut t stand.object fields ((active t).map Entry.name)).map (failed, ·), stand) := by
  obtain ⟨failed, stand, hstand⟩ := run_randomizeApart run s (boundsOf t)
  refine ⟨failed, stand, hstand, ?_⟩
  have hnames : (boundsOf t).map (·.name) = (active t).map Entry.name := by simp [boundsOf]
  unfold drawApart readOut
  simp only [Trial.run_bind, hstand, Trial.run_get, Trial.run_ofOutcome, hnames,
    clampValues_eq (lists_listedValues stand.object fields).distinct,
    clampValues_eq (distinct_presentValues (nodup_active ht))]
  cases t.patch (listedValues stand.object fields) with
  | error e => rfl
  | ok listed => cases t.patch (presentValues stand.object ((active t).map Entry.name)) <;> rfl

end Draw

/-! ## Overridden values -/

/-- A value follows a table if it is within active bounds for its name that do not cross, unless it was
drawn without an integer, and if it is the value drawn where no bounds are active. A value drawn within
the bounds is kept. -/
structure Follows (t : Table) (name : String) (raw v : Json) : Prop where
  within : ∀ e ∈ t, e.name = name → e.isActive = true → e.newLow ≤ e.newHigh →
    ∀ n, raw.toInteger = .ok n → ∃ m, v = .int m ∧ e.newLow ≤ m ∧ m ≤ e.newHigh ∧
      (e.newLow ≤ n → n ≤ e.newHigh → m = n)
  kept : (∀ e ∈ t, e.name = name → e.isActive = false) → v = raw

/-- The vectors have the fields listed and those of some names that the object has, and the values
follow a table. -/
structure Obeys (t : Table) (fields : List Field) (names : List String) (obj : Object) (v : Vectors) :
    Prop where
  listed : ∀ n x, (n, x) ∈ v.listed → ∃ f ∈ fields, f.name = n ∧
    Follows t n ((valueOf? obj n).getD (.str f.default)) x
  hasListed : ∀ f ∈ fields, f.name ∈ v.listed.map Prod.fst
  overridden : ∀ n x, (n, x) ∈ v.overridden → n ∈ names ∧
    ∃ raw, valueOf? obj n = some raw ∧ Follows t n raw x
  hasOverridden : ∀ n ∈ names, (valueOf? obj n).isSome → n ∈ v.overridden.map Prod.fst

/-- A draw ends with vectors that follow the table. Only an infinite value under active bounds makes it
fail. -/
def Ends {α : Type} (t : Table) (fields : List Field) (names : List String)
    (r : Outcome (α × Vectors) × Stand) : Prop :=
  match r.1 with
  | .ok (_, v) => Obeys t fields names r.2.object v
  | .error f => f = .infiniteInteger ∧ ∃ e ∈ t, e.isActive = true ∧
      ∃ raw, valueOf? r.2.object e.name = some raw ∧ raw.toInteger = .error .infiniteInteger

section Follows

variable {t : Table} (ht : (t.map Entry.name).Nodup)

theorem mem_active {e : Entry} : e ∈ active t ↔ e ∈ t ∧ e.isActive = true := mem_filter

theorem clamp_mem {e : Entry} (h : e.newLow ≤ e.newHigh) (n : Int) :
    e.newLow ≤ e.clamp n ∧ e.clamp n ≤ e.newHigh ∧
      (e.newLow ≤ n → n ≤ e.newHigh → e.clamp n = n) := by
  unfold Entry.clamp
  omega

theorem clamp_clamp (e : Entry) (n : Int) : e.clamp (e.clamp n) = e.clamp n := by
  unfold Entry.clamp
  omega

theorem get?_of_nodup {es : Table} (hes : (es.map Entry.name).Nodup) {e : Entry} (he : e ∈ es) :
    es.get? e.name = some e := by
  induction es with
  | nil => cases he
  | cons d es ih =>
    obtain ⟨hnew, hes⟩ := nodup_cons.1 hes
    unfold Table.get? at ih ⊢
    rcases mem_cons.1 he with rfl | he
    · simp
    · have hne : d.name ≠ e.name := fun h => hnew (h ▸ mem_map_of_mem he)
      rw [find?_cons_of_neg (by simpa using hne)]
      exact ih hes he

include ht

theorem follows_of_fitted {name : String} {raw v : Json} (h : fitted (active t) name raw = .ok v) :
    Follows t name raw v := by
  constructor
  · rintro e he rfl hactive hle n hn
    rw [fitted, get?_of_nodup (nodup_active ht) (mem_active.2 ⟨he, hactive⟩)] at h
    simp only [fit, hn] at h
    obtain ⟨hlow, hhigh, hsame⟩ := clamp_mem hle n
    exact ⟨e.clamp n, (Except.ok.inj h).symm, hlow, hhigh, hsame⟩
  · intro hnone
    rw [fitted_of_not_mem] at h
    · exact (Except.ok.inj h).symm
    · intro hmem
      obtain ⟨e, he, rfl⟩ := mem_map.1 hmem
      obtain ⟨he, hactive⟩ := mem_active.1 he
      simp [hnone e he rfl] at hactive

theorem follows_of_patch {values out : Values} (hvalues : Distinct values) (h : t.patch values = .ok out)
    {p : String × Json} (hp : p ∈ out) : ∃ raw, (p.1, raw) ∈ values ∧ Follows t p.1 raw p.2 := by
  rw [patch_eq hvalues ht] at h
  obtain ⟨q, hq, hfit⟩ := Outcome.exists_of_mem_mapM h hp
  obtain ⟨hname, hfit⟩ := fitNamed_eq_ok.1 hfit
  exact ⟨q.2, hname ▸ hq, follows_of_fitted ht (hname ▸ hfit)⟩

theorem names_of_patch {values out : Values} (hvalues : Distinct values) (h : t.patch values = .ok out) :
    out.map Prod.fst = values.map Prod.fst := by
  rw [patch_eq hvalues ht] at h
  exact names_of_mapM h

theorem infinite_of_patch {values : Values} {f : Failure} (hvalues : Distinct values)
    (h : t.patch values = .error f) : f = .infiniteInteger ∧ ∃ e ∈ t, e.isActive = true ∧
      ∃ raw, (e.name, raw) ∈ values ∧ raw.toInteger = .error .infiniteInteger := by
  rw [patch_eq hvalues ht] at h
  obtain ⟨p, hp, hfit⟩ := Outcome.exists_of_mapM_eq_error h
  obtain ⟨rfl, hraw, e, he, hname⟩ := eq_of_fitted_eq_error (fitNamed_eq_error.1 hfit)
  obtain ⟨he, hactive⟩ := mem_active.1 he
  exact ⟨rfl, e, he, hactive, p.2, hname ▸ hp, hraw⟩

theorem ends_readOut (fields : List Field) {names : List String} (hnames : names.Nodup) {α : Type} (a : α)
    (s : Stand) : Ends t fields names ((readOut t s.object fields names).map (a, ·), s) := by
  have hlists := lists_listedValues s.object fields
  have hpresent := @distinct_presentValues s.object names hnames
  unfold Ends readOut
  cases hlisted : t.patch (listedValues s.object fields) with
  | error f =>
    obtain ⟨hf, e, he, hactive, raw, hraw, hinfinite⟩ := infinite_of_patch ht hlists.distinct hlisted
    obtain ⟨g, -, hg⟩ := hlists.mem _ hraw
    obtain ⟨hname, rfl⟩ := Prod.mk.inj hg
    refine ⟨hf, e, he, hactive, ?_⟩
    unfold rawValue at hinfinite
    rw [hname]
    cases hvalue : valueOf? s.object g.name with
    | some v => exact ⟨v, rfl, by simpa [hvalue] using hinfinite⟩
    | none =>
      rw [hvalue, Option.getD_none] at hinfinite
      exact absurd hinfinite (Json.toInteger_str_ne g.default)
  | ok listed =>
    cases hover : t.patch (presentValues s.object names) with
    | error f =>
      obtain ⟨hf, e, he, hactive, raw, hraw, hinfinite⟩ := infinite_of_patch ht hpresent hover
      exact ⟨hf, e, he, hactive, raw, (mem_presentValues.1 hraw).2, hinfinite⟩
    | ok overridden =>
      refine ⟨fun n x hx => ?_, fun f hf => ?_, fun n x hx => ?_, fun n hn hvalue => ?_⟩
      · obtain ⟨raw, hraw, hfollows⟩ := follows_of_patch ht hlists.distinct hlisted hx
        obtain ⟨g, hg, hpair⟩ := hlists.mem _ hraw
        obtain ⟨rfl, rfl⟩ := Prod.mk.inj hpair
        exact ⟨g, hg, rfl, hfollows⟩
      · rw [names_of_patch ht hlists.distinct hlisted]
        exact hlists.names f hf
      · obtain ⟨raw, hraw, hfollows⟩ := follows_of_patch ht hpresent hover hx
        obtain ⟨hn, hvalue⟩ := mem_presentValues.1 hraw
        exact ⟨hn, raw, hvalue, hfollows⟩
      · rw [names_of_patch ht hpresent hover, names_presentValues]
        exact mem_filter.2 ⟨hn, hvalue⟩

end Follows

/-- Both ways to draw vectors, from the object that a program keeps and from one of a worker's own, give
vectors that follow the table, whatever the object does when it is randomised. -/
theorem draws_follow_overrides {t : Table} (ht : (t.map Entry.name).Nodup) (solver : Bool)
    (fields : List Field) (run : Int) (obj : Object) :
    Ends t fields (t.map Entry.name) ((draw solver t fields run).on obj) ∧
      Ends t fields ((active t).map Entry.name) ((drawApart (boundsOf t) fields run).on obj) := by
  constructor
  · obtain ⟨stand, -, hdraw⟩ := run_draw t fields run { object := obj } solver
    rw [Trial.on, hdraw]
    exact ends_readOut ht fields ht _ stand
  · obtain ⟨failed, stand, -, hdraw⟩ := run_drawApart t fields run { object := obj } ht
    rw [Trial.on, hdraw]
    exact ends_readOut ht fields (nodup_active ht) _ stand

/-- A table that narrows one field and leaves another as it is. -/
def narrowGain : Table :=
  [{ name := "gain", normal := 0, low := 0, high := 9, newLow := 2, newHigh := 5 },
    { name := "mode", normal := 0, low := 0, high := 3, newLow := 0, newHigh := 3 }]

/-- An object whose first randomisation fails; the second one gives a text. -/
def gainObject : Object where
  fields := [("gain", .cell (.int 0)), ("mode", .plain (.int 7))]
  runs := [.fails "no solution", .sets [("gain", .plain (.str " 12 "))]]

theorem draws_follow_overrides_sample :
    let fields : List Field := [⟨"gain", "0"⟩, ⟨"size", "8"⟩]
    let v : Vectors := ⟨[("gain", .int 5), ("size", .str "8")], [("gain", .int 5), ("mode", .int 7)]⟩
    (narrowGain.map Entry.name).Nodup ∧
      ((draw true narrowGain fields 0).on gainObject).1.map Prod.snd = .ok v ∧
      Ends narrowGain fields ["gain", "mode"] ((draw true narrowGain fields 0).on gainObject) ∧
      Ends narrowGain fields ["gain"] ((drawApart [⟨"gain", 2, 5⟩] fields 0).on gainObject) := by
  intro fields v
  have hnames : (narrowGain.map Entry.name).Nodup := by decide
  exact ⟨hnames, rfl, draws_follow_overrides hnames true fields 0 gainObject⟩

end Vector

end Stimulus
