import Stimulus.Run.Basic

/-!
# Running a program step by step

What a program on a desk does, one step at a time, and what a file holds after it is written.
-/

namespace Stimulus

/-! ## Files -/

namespace Store

theorem put_injective {s : Store} {key text new : String} (h : s.put key text = s.put key new) :
    text = new := by
  unfold put at h
  split at h
  · next hkey =>
    obtain ⟨old, hold⟩ := Option.isSome_iff_exists.1 hkey
    obtain ⟨front, back, hfiles, -⟩ := List.lookup_eq_some_iff.1 hold
    have hmap := List.map_inj_left.1 (congrArg files h) (key, old) (by simp [hfiles])
    simpa using hmap
  · simpa using h

theorem write_injective {s t : Store} {path text new : String}
    (h : s.write path text = .ok t) (h' : s.write path new = .ok t) : text = new := by
  unfold write at h h'
  cases hplace : s.place path with
  | error e =>
    rw [hplace] at h
    cases h
  | ok place =>
    rw [hplace] at h h'
    cases place with
    | dir => cases h
    | vacant => cases h
    | file key => exact put_injective (Except.ok.inj (h.trans h'.symm))
    | free key => exact put_injective (Except.ok.inj (h.trans h'.symm))

end Store

/-! ## Steps -/

namespace Run

variable {α β : Type}

theorem on_bind (r : Run α) (f : α → Run β) (d : Desk) : (r >>= f).on d =
    match r.on d with
    | (.ok a, d) => (f a).on d
    | (.error e, d) => (.error e, d) := by
  simp only [Run.on, ExceptT.run, bind, ExceptT.bind, ExceptT.mk, StateT.bind, ExceptT.bindCont]
  cases r d with
  | mk result d => cases result <;> rfl

theorem on_bind_eq_ok {r : Run α} {f : α → Run β} {d e : Desk} {b : β} :
    (r >>= f).on d = (.ok b, e) ↔ ∃ a d', r.on d = (.ok a, d') ∧ (f a).on d' = (.ok b, e) := by
  rw [on_bind]
  rcases r.on d with ⟨_ | a, d'⟩
  · simp
  · constructor
    · exact fun h => ⟨a, d', rfl, h⟩
    · rintro ⟨_, _, ⟨rfl, rfl⟩, h⟩
      exact h

@[simp] theorem on_pure (a : α) (d : Desk) : (pure a : Run α).on d = (.ok a, d) := rfl

@[simp] theorem on_say (text : String) (d : Desk) :
    (say text).on d = (.ok (), { d with out := d.out ++ text }) := rfl

@[simp] theorem on_sayLine (text : String) (d : Desk) :
    (sayLine text).on d = (.ok (), { d with out := d.out ++ (text ++ "\n") }) := rfl

@[simp] theorem on_complain (text : String) (d : Desk) :
    (complain text).on d = (.ok (), { d with err := d.err ++ text ++ "\n" }) := rfl

theorem on_complainAll (lines : List String) (d : Desk) :
    (lines.forM complain).on d = (.ok (), { d with err := d.err ++ Text.unlines lines }) := by
  induction lines generalizing d with
  | nil => simp [Text.unlines]
  | cons line lines ih =>
    have hcons : (line :: lines).forM complain = complain line >>= fun _ => lines.forM complain := rfl
    rw [hcons, on_bind, on_complain]
    simp only [ih]
    simp [Text.unlines, String.append_assoc]

@[simp] theorem on_ofOutcome (o : Outcome α) (d : Desk) : (ofOutcome o).on d = (o, d) := by
  cases o <;> rfl

@[simp] theorem on_get (d : Desk) : (get : Run Desk).on d = (.ok d, d) := rfl

@[simp] theorem on_modify (f : Desk → Desk) (d : Desk) : (modify f : Run Unit).on d = (.ok (), f d) :=
  rfl

@[simp] theorem on_throw (e : Failure) (d : Desk) : (throw e : Run α).on d = (.error e, d) := rfl

@[simp] theorem on_look (f : Store → α) (d : Desk) : (look f).on d = (.ok (f d.store), d) := rfl

@[simp] theorem on_isThere (path : String) (d : Desk) :
    (isThere path).on d = (.ok (d.store.exists path), d) := rfl

@[simp] theorem on_readRaw (path : String) (d : Desk) :
    (readRaw path).on d = (d.store.readRaw path, d) := by
  rw [readRaw, on_bind, on_get]
  exact on_ofOutcome _ d

@[simp] theorem on_readFile (path : String) (d : Desk) :
    (readFile path).on d = (d.store.read path, d) := by
  rw [readFile, on_bind, on_get]
  exact on_ofOutcome _ d

theorem on_change (f : Store → Outcome Store) (d : Desk) : (change f).on d =
    match f d.store with
    | .ok store => (.ok (), { d with store })
    | .error e => (.error e, d) := by
  rw [change, on_bind, on_get]
  simp only [on_bind, on_ofOutcome]
  cases f d.store <;> rfl

theorem on_writeFile (path text : String) (d : Desk) : (writeFile path text).on d =
    match d.store.write path text with
    | .ok store => (.ok (), { d with store })
    | .error e => (.error e, d) :=
  on_change _ d

@[simp] theorem on_attempt (r : Run α) (d : Desk) :
    (attempt r).on d = (.ok (r.on d).1, (r.on d).2) := by
  simp only [attempt, Run.on, ExceptT.run, tryCatch, tryCatchThe, MonadExceptOf.tryCatch,
    ExceptT.tryCatch, bind, ExceptT.bind, ExceptT.mk, StateT.bind, ExceptT.bindCont]
  cases r d with
  | mk result d => cases result <;> rfl

end Run

end Stimulus
