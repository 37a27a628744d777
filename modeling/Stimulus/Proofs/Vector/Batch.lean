import Stimulus.Proofs.Run.Basic
import Stimulus.Proofs.Vector.Fit
import Stimulus.Vector.Program

/-!
# All vectors of a program

The program draws its vectors in turn from one object, or each from an object of a worker's own, and
writes them. What it draws does not depend on the files, and what it writes depends on nothing else.
-/

open List

namespace Stimulus

/-! ## Programs that look at the files alone -/

/-- What a program gives, and the files that it leaves, depend on the files that it finds. -/
def Run.OnFiles {α : Type} (r : Run α) : Prop :=
  ∀ d e : Desk, d.store = e.store → (r.on d).1 = (r.on e).1 ∧ (r.on d).2.store = (r.on e).2.store

namespace Run

variable {α β : Type}

theorem onFiles_pure (a : α) : OnFiles (pure a) := fun _ _ h => ⟨rfl, h⟩

theorem OnFiles.bind {r : Run α} {f : α → Run β} (hr : OnFiles r) (hf : ∀ a, OnFiles (f a)) :
    OnFiles (r >>= f) := by
  intro d e h
  obtain ⟨hresult, hstore⟩ := hr d e h
  rw [on_bind, on_bind]
  cases hd : r.on d with
  | mk result d' =>
    cases he : r.on e with
    | mk result' e' =>
      rw [hd, he] at hresult hstore
      obtain rfl : result = result' := hresult
      cases result with
      | error f => exact ⟨rfl, hstore⟩
      | ok a => exact hf a d' e' hstore

theorem onFiles_writeFile (path text : String) : OnFiles (writeFile path text) := by
  intro d e h
  rw [on_writeFile, on_writeFile, h]
  cases e.store.write path text with
  | ok store => exact ⟨rfl, rfl⟩
  | error f => exact ⟨rfl, h⟩

theorem onFiles_forM {xs : List α} {f : α → Run Unit} (h : ∀ x, OnFiles (f x)) : OnFiles (xs.forM f) := by
  induction xs with
  | nil => exact onFiles_pure ()
  | cons x xs ih => exact (h x).bind fun _ => ih

theorem OnFiles.result_eq {r : Run α} (hr : OnFiles r) {d e : Desk} (h : d.store = e.store) :
    (r.on d).1 = (r.on e).1 :=
  (hr d e h).1

/-- A program that changes no files. -/
def KeepsFiles (r : Run α) : Prop := ∀ d, (r.on d).2.store = d.store

theorem KeepsFiles.bind {r : Run α} {f : α → Run β} (hr : KeepsFiles r) (hf : ∀ a, KeepsFiles (f a)) :
    KeepsFiles (r >>= f) := by
  intro d
  have hstore := hr d
  rw [on_bind]
  cases hd : r.on d with
  | mk result e =>
    rw [hd] at hstore
    cases result with
    | error f => exact hstore
    | ok a => exact (hf a e).trans hstore

theorem keepsFiles_pure (a : α) : KeepsFiles (pure a) := fun _ => rfl

theorem keepsFiles_say (text : String) : KeepsFiles (say text) := fun _ => rfl

theorem keepsFiles_ofOutcome (o : Outcome α) : KeepsFiles (ofOutcome o) := fun d => by rw [on_ofOutcome]

theorem keepsFiles_hold (t : Random.Trial α) (obj : Random.Object) : KeepsFiles (hold t obj) :=
  fun _ => rfl

theorem on_hold (t : Random.Trial α) (obj : Random.Object) (d : Desk) : (hold t obj).on d =
    (.ok ((t.on obj).1, (t.on obj).2.object), { d with out := d.out ++ (t.on obj).2.out }) := rfl

end Run

namespace Vector

open Run Override Stimulus.Random

theorem exists_cons_eq_ok {α : Type} {x : Outcome (List α)} {a : α} {P : List α → Prop} :
    (∃ rs, (do return a :: (← x)) = Except.ok rs ∧ P rs) ↔ ∃ rs, x = .ok rs ∧ P (a :: rs) := by
  cases x with
  | error f => simp
  | ok rs => simp [pure, Except.pure]

/-! ## What runs add -/

/-- What a run adds to a batch. -/
structure Drawn where
  /-- The values that count for the statistics. -/
  counted : Values
  vectors : Vectors
  /-- The solver solved it. -/
  solved : Bool

/-- The batch with what runs add. -/
def Batch.addAll (b : Batch) (fields : List Field) (rs : List Drawn) : Batch :=
  rs.foldl (fun b r => b.add fields r.counted r.vectors r.solved) b

section AddAll

variable (b : Batch) (fields : List Field)

theorem Batch.vectors_addAll (rs : List Drawn) :
    (b.addAll fields rs).vectors = b.vectors ++ rs.map (·.vectors.listed) := by
  induction rs generalizing b with
  | nil => simp [addAll]
  | cons r rs ih => rw [addAll, foldl_cons, ← addAll, ih]; simp [Batch.add]

theorem Batch.overridden_addAll (rs : List Drawn) :
    (b.addAll fields rs).overridden = b.overridden ++ rs.map (·.vectors.overridden) := by
  induction rs generalizing b with
  | nil => simp [addAll]
  | cons r rs ih => rw [addAll, foldl_cons, ← addAll, ih]; simp [Batch.add]

theorem Batch.solved_addAll (rs : List Drawn) :
    (b.addAll fields rs).solved = b.solved + rs.countP (·.solved) := by
  induction rs generalizing b with
  | nil => simp [addAll]
  | cons r rs ih =>
    rw [addAll, foldl_cons, ← addAll, ih, countP_cons]
    cases r.solved <;> simp [Batch.add]
    omega

end AddAll

/-! ## Runs in turn -/

/-- The object after another randomisation within the bounds of a table, whether it worked or not. -/
def redraw (solver : Bool) (t : Table) (obj : Object) : Object :=
  ((randomizeWith solver false t).on obj).2.object

def drawnInTurn (solver : Bool) (t : Table) (fields : List Field) : Nat → Object → Outcome (List Drawn)
  | 0, _ => .ok []
  | n + 1, obj => do
    let obj := redraw solver t obj
    let vectors ← readOut t obj fields (t.map Entry.name)
    let rest ← drawnInTurn solver t fields n obj
    return { counted := listedValues obj fields, vectors, solved := true } :: rest

/-- Writes the files of runs. -/
def writeRuns (s : Setting) (o : Order) (t : Table) (runs : List (Nat × Drawn)) : Run Unit :=
  runs.forM fun (run, r) => writeRun o s.time t run r.vectors.listed r.vectors.overridden

theorem onFiles_writeRun (o : Order) (time : String) (t : Table) (run : Nat) (listed overridden : Values) :
    OnFiles (writeRun o time t run listed overridden) := by
  unfold writeRun
  split
  · refine (onFiles_writeFile _ _).bind fun _ => ?_
    split
    · exact onFiles_writeFile _ _
    · exact onFiles_pure ()
  · exact onFiles_pure ()

theorem onFiles_writeRuns (s : Setting) (o : Order) (t : Table) (runs : List (Nat × Drawn)) :
    OnFiles (writeRuns s o t runs) :=
  onFiles_forM fun _ => onFiles_writeRun _ _ _ _ _ _

theorem on_writeRuns_cons (s : Setting) (o : Order) (t : Table) (run : Nat) (r : Drawn)
    (rest : List (Nat × Drawn)) (d : Desk) : (writeRuns s o t ((run, r) :: rest)).on d =
      match (writeRun o s.time t run r.vectors.listed r.vectors.overridden).on d with
      | (.ok _, d) => (writeRuns s o t rest).on d
      | (.error e, d) => (.error e, d) := by
  have hcons : writeRuns s o t ((run, r) :: rest) =
      writeRun o s.time t run r.vectors.listed r.vectors.overridden >>= fun _ => writeRuns s o t rest :=
    rfl
  rw [hcons, on_bind]
  cases (writeRun o s.time t run r.vectors.listed r.vectors.overridden).on d with
  | mk result e => cases result <;> rfl

section Turn

variable (s : Setting) (o : Order) (t : Table) (fields : List Field) (runs : Nat)

theorem on_draw (run : Int) (obj : Object) : ∃ stand,
    stand.object = redraw s.solver t obj ∧ (draw s.solver t fields run).on obj =
      ((readOut t stand.object fields (t.map Entry.name)).map
        (listedValues stand.object fields, ·), stand) := by
  obtain ⟨stand, htell, hdraw⟩ := run_draw t fields run { object := obj } s.solver
  obtain ⟨stand', htell', hobject⟩ := run_randomizeOrTell t run { object := obj } s.solver
  obtain rfl : stand = stand' := (Prod.mk.inj (htell.symm.trans htell')).2
  exact ⟨stand, hobject, hdraw⟩

theorem drawInTurn_eq_ok {list : List Nat} {obj : Object} {b b' : Batch} {d : Desk} :
    ((drawInTurn s o t fields runs list obj b).on d).1 = .ok b' ↔
      ∃ rs, drawnInTurn s.solver t fields list.length obj = .ok rs ∧ b' = b.addAll fields rs ∧
        ((writeRuns s o t (list.zip rs)).on d).1 = .ok () := by
  induction list generalizing obj b d with
  | nil => simp [drawInTurn, drawnInTurn, Batch.addAll, writeRuns, eq_comm]
  | cons run list ih =>
    obtain ⟨stand, hobject, hdraw⟩ := on_draw s t fields run obj
    rw [drawInTurn, on_bind, on_hold, hdraw, length_cons, drawnInTurn, ← hobject]
    simp only
    cases hread : readOut t stand.object fields (t.map Entry.name) with
    | error f => simp [Except.map, on_bind]
    | ok v =>
      simp only [Except.map, on_bind, on_ofOutcome, Outcome.ok_bind, exists_cons_eq_ok,
        zip_cons_cons, on_writeRuns_cons]
      -- what was printed so far does not matter for the files
      obtain ⟨hresult, hstore⟩ := onFiles_writeRun o s.time t run v.listed v.overridden
        { d with out := d.out ++ stand.out } d rfl
      cases hlate : (writeRun o s.time t run v.listed v.overridden).on
          { d with out := d.out ++ stand.out } with
      | mk result late =>
        cases hearly : (writeRun o s.time t run v.listed v.overridden).on d with
        | mk result' early =>
          rw [hlate, hearly] at hresult hstore
          obtain rfl : result = result' := hresult
          cases result with
          | error f => simp
          | ok _ =>
            have hsame (out : String) (rs : List Drawn) :
                ((writeRuns s o t (list.zip rs)).on { late with out }).1 =
                  ((writeRuns s o t (list.zip rs)).on early).1 :=
              (onFiles_writeRuns s o t _).result_eq hstore
            dsimp only
            split
            · rw [on_bind, on_sayLine]
              simp only [ih, hsame]
              rfl
            · simp only [ih, hsame late.out]
              rfl

end Turn

/-! ## Runs by workers -/

/-- Whether a worker's randomisation of an object fails, and the object after it. -/
def apartDraw (t : Table) (obj : Object) : Bool × Object :=
  let first := (solveWithin ((boundsOf t).filter fun b => obj.has b.name)).on obj
  match first.1, first.2.object.randomize with
  | .ok _, _ => (false, first.2.object)
  | .error _, (.ok _, obj) => (false, obj)
  | .error _, (.error _, obj) => (true, obj)

def drawnApart (recipe : Recipe) (t : Table) (fields : List Field) : Nat → Outcome (List Drawn)
  | 0 => .ok []
  | n + 1 => do
    let (failed, obj) := apartDraw t (← recipe.make)
    let vectors ← readOut t obj fields ((active t).map Entry.name)
    let rest ← drawnApart recipe t fields n
    return { counted := vectors.listed, vectors, solved := !failed } :: rest

theorem lookup_zip_replicate {α : Type} {order : List Nat} {x : α} {run : Nat} (h : run ∈ order) :
    (order.zip (List.replicate order.length x)).lookup run = some x := by
  induction order with
  | nil => cases h
  | cons k order ih =>
    rw [length_cons, replicate_succ, zip_cons_cons, lookup_cons]
    by_cases hk : run = k
    · simp [hk]
    · rw [beq_false_of_ne hk]
      exact ih ((mem_cons.1 h).resolve_left hk)

section Apart

variable (s : Setting) (o : Order) (recipe : Recipe) {t : Table} (ht : (t.map Entry.name).Nodup)
  (fields : List Field) (runs : Nat)

theorem on_randomizeApart (t : Table) (run : Int) (obj : Object) : ∃ stand,
    (randomizeApart (boundsOf t) run).on obj = (.ok (apartDraw t obj).1, stand) ∧
      stand.object = (apartDraw t obj).2 := by
  unfold randomizeApart apartDraw Trial.on
  simp only [Trial.run_bind, Trial.run_get, Trial.run_attempt]
  cases (solveWithin ((boundsOf t).filter fun b => obj.has b.name)).run { object := obj } with
  | mk result stand =>
    cases result with
    | ok _ => exact ⟨_, rfl, rfl⟩
    | error e =>
      simp only [Trial.run_bind, Trial.run_sayLine, Trial.run_attempt, Trial.run_randomize]
      cases stand.object.randomize with
      | mk again obj => cases again <;> exact ⟨_, rfl, rfl⟩

include ht

theorem on_drawApart (run : Int) (obj : Object) : ∃ stand,
    (drawApart (boundsOf t) fields run).on obj =
      ((readOut t (apartDraw t obj).2 fields ((active t).map Entry.name)).map
        ((apartDraw t obj).1, ·), stand) := by
  obtain ⟨failed, stand, hrandom, hdraw⟩ := run_drawApart t fields run { object := obj } ht
  obtain ⟨stand', hrandom', hobject⟩ := on_randomizeApart t run obj
  obtain ⟨hfailed, rfl⟩ := Prod.mk.inj (hrandom.symm.trans hrandom')
  obtain rfl := Except.ok.inj hfailed
  refine ⟨stand, ?_⟩
  rw [Trial.on, hdraw, hobject]

theorem drawAllApart_eq_ok {list : List Nat} {b b' : Batch} {d : Desk} :
    ((drawAllApart recipe (boundsOf t) fields runs list b).on d).1 = .ok b' ↔
      ∃ rs, drawnApart recipe t fields list.length = .ok rs ∧ b' = b.addAll fields rs := by
  induction list generalizing b d with
  | nil => simp [drawAllApart, drawnApart, Batch.addAll, eq_comm]
  | cons run list ih =>
    rw [drawAllApart, on_bind, on_ofOutcome, length_cons, drawnApart]
    cases recipe.make with
    | error f => simp
    | ok obj =>
      obtain ⟨stand, hdraw⟩ := on_drawApart ht fields run obj
      simp only [on_bind, on_hold, hdraw, on_ofOutcome, Outcome.ok_bind]
      cases readOut t (apartDraw t obj).2 fields ((active t).map Entry.name) with
      | error f => simp [Except.map]
      | ok v =>
        simp only [Except.map, Outcome.ok_bind, exists_cons_eq_ok]
        split
        · rw [on_bind, on_sayLine]
          simp only [ih]
          rfl
        · simp only [ih]
          rfl

omit ht in
theorem keepsFiles_drawAllApart (bounds : List Bounds) (list : List Nat) (b : Batch) :
    KeepsFiles (drawAllApart recipe bounds fields runs list b) := by
  induction list generalizing b with
  | nil => exact keepsFiles_pure b
  | cons run list ih =>
    rw [drawAllApart]
    refine (keepsFiles_ofOutcome _).bind fun obj => (keepsFiles_hold _ obj).bind fun r =>
      (keepsFiles_ofOutcome _).bind fun v => ?_
    dsimp only
    split
    · exact (keepsFiles_say _).bind fun _ => ih _
    · exact ih _

omit ht in
/-- Each run of a worker is on an object of its own. -/
theorem drawnApart_runs {n : Nat} {rs : List Drawn} (h : drawnApart recipe t fields n = .ok rs) :
    rs.length = n ∧ ∀ r ∈ rs, ∃ obj v, recipe.make = .ok obj ∧
      readOut t (apartDraw t obj).2 fields ((active t).map Entry.name) = .ok v ∧
        r = ⟨v.listed, v, !(apartDraw t obj).1⟩ := by
  induction n generalizing rs with
  | zero =>
    obtain rfl := Except.ok.inj h
    simp
  | succ n ih =>
    obtain ⟨obj, hmake, h⟩ := Outcome.bind_eq_ok.1 h
    obtain ⟨v, hv, h⟩ := Outcome.bind_eq_ok.1 h
    obtain ⟨rest, hrest, h⟩ := Outcome.bind_eq_ok.1 h
    obtain rfl := Except.ok.inj h
    obtain ⟨hlength, hall⟩ := ih hrest
    exact ⟨by rw [length_cons, hlength], forall_mem_cons.2 ⟨⟨obj, v, hmake, hv, rfl⟩, hall⟩⟩

omit ht in
/-- What workers give is the same for all runs, so that the order in which they finish does not show. -/
theorem inPlace_drawn {α : Type} {n : Nat} {rs : List Drawn} (h : drawnApart recipe t fields n = .ok rs)
    {order : List Nat} (horder : order.Perm (List.range n)) (f : Drawn → α) :
    inPlace order (rs.map f) = rs.map f := by
  obtain ⟨hlength, hall⟩ := drawnApart_runs recipe fields h
  have hsame : ∀ r ∈ rs, ∀ r' ∈ rs, r = r' := by
    intro r hr r' hr'
    obtain ⟨obj, v, hmake, hv, rfl⟩ := hall r hr
    obtain ⟨obj', v', hmake', hv', rfl⟩ := hall r' hr'
    obtain rfl := Except.ok.inj (hmake.symm.trans hmake')
    obtain rfl := Except.ok.inj (hv.symm.trans hv')
    rfl
  have hcount : n = order.length := by rw [horder.length_eq, length_range]
  cases rs with
  | nil =>
    obtain rfl : n = 0 := hlength.symm
    rw [inPlace, ← hcount]
    rfl
  | cons r rs =>
    have hrs : (r :: rs).map f = List.replicate n (f r) := by
      rw [eq_replicate_iff, length_map, hlength]
      refine ⟨rfl, forall_mem_map.2 fun r' hr' => ?_⟩
      rw [hsame r' hr' r mem_cons_self]
    have hgiven : ∀ run ∈ List.range n,
        (order.zip (List.replicate n (f r))).lookup run = some (f r) := by
      intro run hrun
      rw [hcount]
      exact lookup_zip_replicate (horder.mem_iff.2 hrun)
    rw [hrs, inPlace, ← hcount, filterMap_congr hgiven]
    simp

omit ht in
theorem writeRuns_eq (t : Table) (rs : List Drawn) (k : Nat) :
    writeRuns s o t ((List.range' k rs.length).zip rs) =
      (((rs.map (·.vectors.listed)).zip (rs.map (·.vectors.overridden))).zipIdx k).forM
        fun ((listed, overridden), run) => writeRun o s.time t run listed overridden := by
  induction rs generalizing k with
  | nil => rfl
  | cons r rs ih =>
    have hrest := ih (k + 1)
    unfold writeRuns at hrest ⊢
    rw [length_cons, range'_succ, zip_cons_cons, map_cons, map_cons,
      zip_cons_cons, zipIdx_cons]
    exact congrArg _ (funext fun _ => hrest)

theorem drawByWorkers_eq_ok {b b' : Batch} {d : Desk} (hb : b.vectors = [] ∧ b.overridden = []) :
    ((drawByWorkers s o recipe t fields runs b).on d).1 = .ok b' ↔
      ∃ rs, drawnApart recipe t fields runs = .ok rs ∧ b' = b.addAll fields rs ∧
        ((writeRuns s o t ((List.range runs).zip rs)).on d).1 = .ok () := by
  obtain ⟨order, horder⟩ : ∃ order, order = s.finished runs := ⟨_, rfl⟩
  have hplaced {rs : List Drawn} (hrs : drawnApart recipe t fields runs = .ok rs) :
      (b.addAll fields rs).placed order.1 = b.addAll fields rs := by
    have hvectors : (b.addAll fields rs).vectors = rs.map (·.vectors.listed) := by
      rw [Batch.vectors_addAll, hb.1, nil_append]
    have hoverridden : (b.addAll fields rs).overridden = rs.map (·.vectors.overridden) := by
      rw [Batch.overridden_addAll, hb.2, nil_append]
    rw [Batch.placed, hvectors, hoverridden, inPlace_drawn recipe fields hrs order.2,
      inPlace_drawn recipe fields hrs order.2, ← hvectors, ← hoverridden]
  have hwrite {rs : List Drawn} (hlength : rs.length = runs) :
      ((((b.addAll fields rs).vectors.zip (b.addAll fields rs).overridden).zipIdx).forM
        fun ((listed, overridden), run) => writeRun o s.time t run listed overridden) =
      writeRuns s o t ((List.range runs).zip rs) := by
    rw [Batch.vectors_addAll, Batch.overridden_addAll, hb.1, hb.2, nil_append, nil_append,
      ← writeRuns_eq, hlength, range_eq_range']
  have hparts : drawByWorkers s o recipe t fields runs b =
      drawAllApart recipe (boundsOf t) fields runs order.1 b >>= fun b =>
        ((((b.placed order.1).vectors.zip (b.placed order.1).overridden).zipIdx).forM
          fun ((listed, overridden), run) => writeRun o s.time t run listed overridden) >>=
            fun _ => pure (b.placed order.1) := by
    rw [horder]
    rfl
  have hstore := keepsFiles_drawAllApart recipe fields runs (boundsOf t) order.1 b d
  have hbatch (b'' : Batch) := @drawAllApart_eq_ok recipe t ht fields runs order.1 b b'' d
  simp only [order.2.length_eq, length_range] at hbatch
  rw [hparts, on_bind]
  cases hdraw : (drawAllApart recipe (boundsOf t) fields runs order.1 b).on d with
  | mk result e =>
    rw [hdraw] at hstore hbatch
    cases result with
    | error f =>
      have hnone : ¬ ∃ rs, drawnApart recipe t fields runs = .ok rs := by
        rintro ⟨rs, hrs⟩
        cases (hbatch _).2 ⟨rs, hrs, rfl⟩
      simp only [reduceCtorEq, false_iff]
      exact fun ⟨rs, hrs, _⟩ => hnone ⟨rs, hrs⟩
    | ok b'' =>
      obtain ⟨rs, hrs, rfl⟩ := (hbatch _).1 rfl
      have hfiles := (onFiles_writeRuns s o t ((List.range runs).zip rs)).result_eq hstore
      simp only [hplaced hrs, hrs, Except.ok.injEq, hwrite (drawnApart_runs recipe fields hrs).1, exists_eq_left',
        on_bind, ← hfiles]
      cases (writeRuns s o t ((List.range runs).zip rs)).on e with
      | mk result e => cases result <;> simp [eq_comm]

end Apart

/-! ## The batch of a program -/

/-- In turn the runs are on one object, and all count as solved. -/
theorem drawnInTurn_runs {solver : Bool} {t : Table} {fields : List Field} {n : Nat} {obj : Object}
    {rs : List Drawn} (h : drawnInTurn solver t fields n obj = .ok rs) : rs.length = n ∧
      ∀ r ∈ rs, ∃ obj v, readOut t obj fields (t.map Entry.name) = .ok v ∧
        r = ⟨listedValues obj fields, v, true⟩ := by
  induction n generalizing obj rs with
  | zero =>
    obtain rfl := Except.ok.inj h
    simp
  | succ n ih =>
    obtain ⟨v, hv, h⟩ := Outcome.bind_eq_ok.1 h
    obtain ⟨rest, hrest, h⟩ := Outcome.bind_eq_ok.1 h
    obtain rfl := Except.ok.inj h
    obtain ⟨hlength, hall⟩ := ih hrest
    exact ⟨by rw [length_cons, hlength], forall_mem_cons.2 ⟨⟨_, v, hv, rfl⟩, hall⟩⟩

/-- What all runs of a program add. -/
def drawn (s : Setting) (o : Order) (recipe : Recipe) (t : Table) (fields : List Field) (obj : Object) :
    Outcome (List Drawn) :=
  if 1 < workers s.processors o.jobs o.runs then drawnApart recipe t fields o.runs.toNat
  else drawnInTurn s.solver t fields o.runs.toNat (redraw s.solver t obj)

section Batch

variable {s : Setting} {o : Order} {recipe : Recipe} {t : Table} {specs : Specs} {fields : List Field}
  {obj : Object} {b : Batch} {d : Desk}

theorem length_drawn {rs : List Drawn} (h : drawn s o recipe t fields obj = .ok rs) :
    rs.length = o.runs.toNat := by
  unfold drawn at h
  split at h
  · exact (drawnApart_runs recipe fields h).1
  · exact (drawnInTurn_runs h).1

theorem on_tryModel (s : Setting) (t : Table) (runs jobs : Int) (obj : Object) (d : Desk) :
    ∃ e, (tryModel s t runs jobs obj).on d = (.ok (redraw s.solver t obj), e) ∧ e.store = d.store := by
  unfold tryModel redraw
  simp only [on_bind, sayLines, on_say, on_hold]
  cases ((randomizeWith s.solver false t).on obj).1 with
  | error f => exact ⟨_, rfl, rfl⟩
  | ok done =>
    cases done with
    | false => exact ⟨_, rfl, rfl⟩
    | true =>
      simp only [Except.bind, if_true, on_bind, on_sayLine]
      split <;> exact ⟨_, rfl, rfl⟩

theorem drawBatch_eq_ok (ht : (t.map Entry.name).Nodup) :
    ((drawBatch s o recipe t specs fields obj).on d).1 = .ok b ↔
      ∃ rs, drawn s o recipe t fields obj = .ok rs ∧
        b = Batch.addAll { series := emptySeries specs fields } fields rs ∧
        ((writeRuns s o t ((List.range o.runs.toNat).zip rs)).on d).1 = .ok () := by
  obtain ⟨e, htry, hstore⟩ := on_tryModel s t o.runs (workers s.processors o.jobs o.runs) obj d
  unfold drawBatch drawn
  simp only [on_bind, htry, sayLines, on_say]
  have hfiles (out : String) (rs : List Drawn) :
      ((writeRuns s o t ((List.range o.runs.toNat).zip rs)).on { e with out }).1 =
        ((writeRuns s o t ((List.range o.runs.toNat).zip rs)).on d).1 :=
    (onFiles_writeRuns s o t _).result_eq hstore
  split
  · rw [drawByWorkers_eq_ok s o recipe ht fields _ ⟨rfl, rfl⟩]
    simp only [hfiles]
  · rw [drawInTurn_eq_ok]
    simp only [hfiles, length_range]

end Batch

end Vector

end Stimulus
