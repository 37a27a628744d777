import Mathlib.Data.List.Basic

/-!
# Values by name

Lists of names with a value each. The value of a name is set at its place, or else at the end.
-/

open List

namespace Stimulus.Named

variable {α : Type}

def assign (t : List (String × α)) (name : String) (value : α) : List (String × α) :=
  if (t.lookup name).isSome then t.map fun (n, old) => if n = name then (n, value) else (n, old)
  else t ++ [(name, value)]

theorem lookup_assign (t : List (String × α)) (name : String) (value : α) (k : String) :
    (assign t name value).lookup k = if k = name then some value else t.lookup k := by
  have hcons (p : String × α) (t : List (String × α)) :
      (p :: t).lookup k = if k = p.1 then some p.2 else t.lookup k := by
    obtain ⟨n, old⟩ := p
    by_cases hk : k = n
    · simp [hk]
    · simp [lookup_cons, hk, beq_false_of_ne hk]
  have hreplace : (t.map fun (n, old) => if n = name then (n, value) else (n, old)).lookup k =
      (t.lookup k).map fun old => if k = name then value else old := by
    induction t with
    | nil => rfl
    | cons p t ih =>
      obtain ⟨n, old⟩ := p
      rw [map_cons, hcons, hcons, ih]
      by_cases hn : n = name <;> by_cases hk : k = n <;> simp_all
  unfold assign
  split
  · next h =>
    obtain ⟨old, hold⟩ := Option.isSome_iff_exists.1 h
    rw [hreplace]
    by_cases hk : k = name <;> simp [hk, hold]
  · next h =>
    rw [Option.not_isSome_iff_eq_none] at h
    rw [lookup_append, hcons]
    by_cases hk : k = name <;> simp [hk, h]

end Stimulus.Named
