import Stimulus.Pattern.Match

/-!
# What a pattern can pass

`walk` takes the first way to match that lets the rest match. Two kinds of facts about it are
needed: that there is no way at all, and which way is the first.
-/

open List hiding count set

namespace Stimulus

/-- What is so for all members of a list is decided by going through the list, also if their type is
finite. -/
instance (priority := 1100) decidableForallMem {α : Type} (p : α → Prop) [DecidablePred p]
    (l : List α) : Decidable (∀ x, x ∈ l → p x) :=
  List.decidableBAll p l

/-- The same for the member of an option. -/
instance (priority := 1100) decidableForallMemOption {α : Type} (p : α → Prop) [DecidablePred p]
    (o : Option α) : Decidable (∀ x, x ∈ o → p x) :=
  Option.decidableForallMem o

/-- Pieces with their numbers, as texts. -/
def piecesOf (kept : List (Nat × Piece)) : List (Nat × List Char) :=
  kept.map fun (n, p) => (n, p.chars)

namespace Spot

/-- The place after passing `w`, with `rest` after it. -/
def pass (s : Spot) (w rest : List Char) : Spot :=
  { s with before := w.reverse ++ s.before, after := rest, pos := s.pos + w.length }

@[simp] theorem pass_before (s : Spot) (w rest : List Char) :
    (s.pass w rest).before = w.reverse ++ s.before := rfl

@[simp] theorem pass_after (s : Spot) (w rest : List Char) : (s.pass w rest).after = rest := rfl

@[simp] theorem pass_pos (s : Spot) (w rest : List Char) :
    (s.pass w rest).pos = s.pos + w.length := rfl

@[simp] theorem pass_kept (s : Spot) (w rest : List Char) : (s.pass w rest).kept = s.kept := rfl

theorem pass_pass (s : Spot) (u v r r' : List Char) :
    (s.pass u r).pass v r' = s.pass (u ++ v) r' := by
  simp [pass, Nat.add_assoc]

/-- The place `t` lies `w` behind the place `s`; the pieces kept may differ. -/
structure Passed (s t : Spot) (w : List Char) : Prop where
  after : s.after = w ++ t.after
  before : t.before = w.reverse ++ s.before
  pos : t.pos = s.pos + w.length

theorem Passed.refl (s : Spot) : s.Passed s [] := ⟨rfl, rfl, rfl⟩

variable {s t u : Spot} {n : Nat} {v w rest : List Char}

theorem Passed.trans (h : s.Passed t v) (k : t.Passed u w) :
    s.Passed u (v ++ w) := by
  refine ⟨?_, ?_, ?_⟩
  · rw [h.after, k.after, append_assoc]
  · rw [k.before, h.before, reverse_append, append_assoc]
  · rw [k.pos, h.pos, length_append, Nat.add_assoc]

theorem passed_pass (h : s.after = w ++ rest) : s.Passed (s.pass w rest) w := ⟨h, rfl, rfl⟩

theorem Passed.keep (h : s.Passed t w) (n : Nat) (since : Spot) :
    s.Passed (t.keep n since) w := ⟨h.after, h.before, h.pos⟩

/-- The pieces kept at a place as texts, newest first. -/
def pieces (s : Spot) : List (Nat × List Char) := piecesOf s.kept

theorem pieces_keep (h : s.Passed t w) (n : Nat) :
    (t.keep n s).pieces = (n, w) :: t.pieces := by
  simp [Spot.pieces, piecesOf, Spot.keep, Piece.chars, h.pos, h.after]

theorem piece?_eq_some (h : s.piece? n = some w) :
    ∃ x ∈ s.pieces.find? (fun (m, _) => m == n), w = x.2 := by
  obtain ⟨x, hx, rfl⟩ := Option.map_eq_some_iff.1 h
  refine ⟨(x.1, x.2.chars), ?_, rfl⟩
  rw [pieces, piecesOf, find?_map]
  exact Option.map_eq_some_iff.2 ⟨x, hx, rfl⟩

theorem retreat_pass_concat (s : Spot) (w : List Char) (c : Char) (rest : List Char) :
    (s.pass (w ++ [c]) rest).retreat = s.pass w (c :: rest) := by
  simp [retreat, pass]

end Spot

namespace Text

variable {start cs rest : List Char}

theorem dropStart?_append (w rest : List Char) : dropStart? w (w ++ rest) = some rest := by
  induction w with
  | nil => rfl
  | cons c w ih => simp [dropStart?, ih]

theorem dropStart?_eq_some : dropStart? start cs = some rest ↔ cs = start ++ rest := by
  constructor
  · intro h
    induction start generalizing cs with
    | nil => simpa [dropStart?] using h
    | cons a as ih =>
      cases cs with
      | nil => simp [dropStart?] at h
      | cons c cs =>
        simp only [dropStart?] at h
        split at h
        · next hac => rw [hac, cons_append, ← ih h]
        · cases h
  · rintro rfl
    exact dropStart?_append start rest

theorem dropStart?_eq_none : dropStart? start cs = none ↔ ¬ start <+: cs := by
  rw [Option.eq_none_iff_forall_ne_some]
  constructor
  · rintro h ⟨rest, rfl⟩
    exact h rest (dropStart?_append start rest)
  · intro h rest hs
    exact h ⟨rest, (dropStart?_eq_some.1 hs).symm⟩

theorem beginsWith_iff : beginsWith start cs = true ↔ start <+: cs := by
  unfold beginsWith
  cases h : dropStart? start cs with
  | none => simpa using dropStart?_eq_none.1 h
  | some rest => simpa using ⟨rest, (dropStart?_eq_some.1 h).symm⟩

end Text

namespace Pattern

open Spot

/-! ## Texts that a pattern can pass -/

/-- Steps taken one after the other, each from what the step before it has kept. -/
inductive Repeats (step : List (Nat × List Char) → List Char → List (Nat × List Char) → Prop) :
    List (Nat × List Char) → List Char → List (Nat × List Char) → Prop
  | nil {kept} : Repeats step kept [] kept
  | cons {kept u mid v kept'} (head : step kept u mid) (tail : Repeats step mid v kept') :
    Repeats step kept (u ++ v) kept'

/-- The pattern can pass this text, as far as its own characters go. -/
def Spells : Pattern → List Char → Prop
  | empty, w => w = []
  | one set, w => ∃ c, set c = true ∧ w = [c]
  | text cs, w => w = cs
  | run set least _, w => (∀ c ∈ w, set c = true) ∧ least ≤ w.length
  | seq p q, w => ∃ u v, w = u ++ v ∧ Spells p u ∧ Spells q v
  | alt p q, w => Spells p w ∨ Spells q w
  | star p, w => ∃ us : List (List Char), w = us.flatten ∧ ∀ u ∈ us, Spells p u
  | group _ p, w => Spells p w
  | same _, _ => True
  | notAhead _, w => w = []
  | notBehind _, w => w = []
  | notAfter _, w => w = []
  | edge, w => w = []
  | first, w => w = []
  | last, w => w = []

/-- The pattern can pass this text, and what it has kept then. -/
def Yields : Pattern → List (Nat × List Char) → List Char → List (Nat × List Char) → Prop
  | seq p q, kept, w, kept' => ∃ u v mid, w = u ++ v ∧ Yields p kept u mid ∧ Yields q mid v kept'
  | alt p q, kept, w, kept' => Yields p kept w kept' ∨ Yields q kept w kept'
  | star p, kept, w, kept' => Repeats (Yields p) kept w kept'
  | group n p, kept, w, kept' => ∃ mid, Yields p kept w mid ∧ kept' = (n, w) :: mid
  | same n, kept, w, kept' => (∃ x ∈ kept.find? (fun (m, _) => m == n), w = x.2) ∧ kept' = kept
  | p, kept, w, kept' => Spells p w ∧ kept' = kept

variable {p q : Pattern} {s t r : Spot} {k : Spot → Option Spot} {cs w : List Char}
  {kept kept' : List (Nat × List Char)} {set : Char → Bool} {least n : Nat} {greedy : Bool}

theorem Yields.spells (h : Yields p kept w kept') : Spells p w := by
  induction p generalizing kept kept' w with
  | seq p q ihp ihq =>
    obtain ⟨u, v, mid, rfl, hu, hv⟩ := h
    exact ⟨u, v, rfl, ihp hu, ihq hv⟩
  | alt p q ihp ihq => exact h.imp ihp ihq
  | group n p ih =>
    obtain ⟨mid, h, -⟩ := h
    exact ih h
  | star p ih =>
    induction (h : Repeats _ _ _ _) with
    | nil => exact ⟨[], rfl, by simp⟩
    | @cons _ u _ _ _ head _ ihs =>
      obtain ⟨us, rfl, hus⟩ := ihs
      exact ⟨u :: us, by simp, by simpa using ⟨ih head, hus⟩⟩
  | same => trivial
  | _ => exact h.1

theorem yields_assoc {r : Pattern} :
    Yields (p ++ q ++ r) kept w kept' ↔ Yields (p ++ (q ++ r)) kept w kept' := by
  constructor
  · rintro ⟨_, c, k, rfl, ⟨a, b, j, rfl, ha, hb⟩, hc⟩
    exact ⟨a, b ++ c, j, append_assoc a b c, ha, b, c, k, rfl, hb, hc⟩
  · rintro ⟨a, _, j, rfl, ha, b, c, k, rfl, hb, hc⟩
    exact ⟨a ++ b, c, k, (append_assoc a b c).symm, ⟨a, b, j, rfl, ha, hb⟩, hc⟩

/-- A way to match: the text passed, and the place after it that `k` accepts. -/
def Way (p : Pattern) (s : Spot) (k : Spot → Option Spot) (r : Spot) : Prop :=
  ∃ w t, s.Passed t w ∧ Yields p s.pieces w t.pieces ∧ k t = some r

private theorem way_of_here (hp : Yields p s.pieces [] s.pieces) (h : k s = some r) : Way p s k r :=
  ⟨[], s, .refl s, hp, h⟩

theorem passText_eq_some (h : passText cs s = some t) :
    s.after = cs ++ t.after ∧ t = s.pass cs t.after := by
  unfold passText at h
  split at h
  · next rest hd =>
    obtain rfl := Option.some.inj h
    exact ⟨Text.dropStart?_eq_some.1 hd, by simp [Spot.pass, reverseAux_eq]⟩
  · cases h

private theorem way_of_passText (hp : Yields p s.pieces cs s.pieces)
    (h : (passText cs s).bind k = some r) : Way p s k r := by
  obtain ⟨t, ht, hk⟩ := Option.bind_eq_some_iff.1 h
  obtain ⟨ha, he⟩ := passText_eq_some ht
  refine ⟨cs, t, he ▸ passed_pass ha, ?_, hk⟩
  rw [he]
  exact hp

private theorem passed_of_retreat {c : Char} (h : s.Passed t (w ++ [c])) : s.Passed t.retreat w := by
  obtain ⟨ha, hb, hp⟩ := h
  have hb' : t.before = c :: (w.reverse ++ s.before) := by simpa using hb
  refine ⟨?_, ?_, ?_⟩
  · rw [ha]; simp [retreat, hb']
  · simp [retreat, hb']
  · simp only [retreat, hb', length_append, length_singleton] at hp ⊢
    omega

private theorem giveBack_way (hw : ∀ c ∈ w, set c = true) (hn : least + n ≤ w.length)
    (hst : s.Passed t w) (hkept : t.kept = s.kept) (h : giveBack k n t = some r) :
    Way (run set least greedy) s k r := by
  induction n generalizing t w with
  | zero => exact ⟨w, t, hst, ⟨⟨hw, by omega⟩, congrArg piecesOf hkept⟩, h⟩
  | succ n ih =>
    simp only [giveBack] at h
    split at h
    · next hk => exact ⟨w, t, hst, ⟨⟨hw, by omega⟩, congrArg piecesOf hkept⟩, hk.trans h⟩
    · rcases eq_nil_or_concat w with rfl | ⟨v, c, rfl⟩
      · simp at hn
      · rw [concat_eq_append] at *
        have hback : t.retreat.kept = s.kept := by
          rw [← hkept, retreat]
          split <;> rfl
        refine ih (fun d hd => hw d (mem_append_left _ hd)) ?_ (passed_of_retreat hst) hback h
        simp only [length_append, length_singleton] at hn
        omega

theorem passRun_spec (set : Char → Bool) (before : List Char) (count : Nat) (cs : List Char) :
    passRun set before count cs =
      ((cs.takeWhile set).reverse ++ before, count + (cs.takeWhile set).length,
        cs.dropWhile set) := by
  induction cs generalizing before count with
  | nil => simp [passRun]
  | cons c cs ih =>
    by_cases hc : set c = true
    · rw [passRun, if_pos hc, ih, takeWhile_cons_of_pos hc, dropWhile_cons_of_pos hc]
      simp only [reverse_cons, append_assoc, singleton_append, length_cons]
      congr 2
      omega
    · simp [passRun, hc]

private theorem creep_way {due pos : Nat} {before : List Char} (hw : ∀ c ∈ w, set c = true)
    (hdue : least ≤ w.length + due) (hst : s.Passed ⟨before, cs, pos, s.kept⟩ w)
    (h : creep set k s.kept due before pos cs = some r) : Way (run set least greedy) s k r := by
  induction cs generalizing due before pos w with
  | nil =>
    cases due with
    | zero => exact ⟨w, _, hst, ⟨⟨hw, by omega⟩, rfl⟩, h⟩
    | succ n => simp [creep] at h
  | cons c cs ih =>
    have hmove : set c = true → ∀ n, least ≤ w.length + 1 + n →
        creep set k s.kept n (c :: before) (pos + 1) cs = some r →
          Way (run set least greedy) s k r := by
      intro hc n hn hcreep
      refine ih (w := w ++ [c]) ?_ (by simp; omega) ?_ hcreep
      · simpa [or_imp, forall_and, hc] using hw
      · exact hst.trans ⟨rfl, rfl, rfl⟩
    cases due with
    | zero =>
      simp only [creep] at h
      split at h
      · next hk => exact ⟨w, _, hst, ⟨⟨hw, by omega⟩, rfl⟩, hk.trans h⟩
      · split at h
        · next hc => exact hmove hc 0 (by omega) h
        · cases h
    | succ n =>
      simp only [creep] at h
      split at h
      · next hc => exact hmove hc n (by omega) h
      · cases h

private theorem repeatStep_way {fuel : Nat} (ih : ∀ {s k}, walk p s k = some r → Way p s k r)
    (h : repeatStep (walk p) k fuel s = some r) : Way (star p) s k r := by
  induction fuel generalizing s with
  | zero => exact ⟨[], s, .refl s, .nil, h⟩
  | succ fuel ihf =>
    simp only [repeatStep] at h
    split at h
    · next hp =>
      obtain ⟨v, t, hst, hv, ht⟩ := ih (hp.trans h)
      simp only at ht
      split at ht
      · cases ht
      · obtain ⟨w, u, htu, hw, hu⟩ := ihf ht
        exact ⟨v ++ w, u, hst.trans htu, .cons hv hw, hu⟩
    · exact ⟨[], s, .refl s, .nil, h⟩

theorem yields_of_walk (h : walk p s k = some r) : Way p s k r := by
  induction p generalizing s k with
  | empty => exact way_of_here ⟨rfl, rfl⟩ h
  | one set =>
    simp only [walk] at h
    split at h
    · cases h
    · next c cs hcs =>
      split at h
      · next hc =>
        refine ⟨[c], s.advance, ?_, ⟨⟨c, hc, rfl⟩, ?_⟩, h⟩
        · exact ⟨by simp [advance, hcs], by simp [advance, hcs], by simp [advance, hcs]⟩
        · simp [Spot.pieces, advance, hcs]
      · cases h
  | text cs => exact way_of_passText ⟨rfl, rfl⟩ h
  | run set least greedy =>
    simp only [walk] at h
    split at h
    · simp only [passRun_spec] at h
      split at h
      · cases h
      · next hle =>
        refine giveBack_way (w := s.after.takeWhile set) (all_eq_true.1 all_takeWhile) (by omega) ?_ ?_ h
        · exact ⟨by simp, rfl, by simp⟩
        · rfl
    · exact creep_way (w := []) (by simp) (by simp) (Spot.Passed.refl s) h
  | seq p q ihp ihq =>
    obtain ⟨u, t, hst, hu, ht⟩ := ihp h
    obtain ⟨v, t', hst', hv, ht'⟩ := ihq ht
    exact ⟨u ++ v, t', hst.trans hst', ⟨u, v, t.pieces, rfl, hu, hv⟩, ht'⟩
  | alt p q ihp ihq =>
    simp only [walk] at h
    split at h
    · next hp =>
      obtain ⟨w, t, hst, hw, ht⟩ := ihp (hp.trans h)
      exact ⟨w, t, hst, .inl hw, ht⟩
    · obtain ⟨w, t, hst, hw, ht⟩ := ihq h
      exact ⟨w, t, hst, .inr hw, ht⟩
  | star p ih => exact repeatStep_way ih h
  | group n p ih =>
    obtain ⟨w, t, hst, hw, ht⟩ := ih h
    exact ⟨w, t.keep n s, hst.keep n s, ⟨t.pieces, hw, pieces_keep hst n⟩, ht⟩
  | same n =>
    simp only [walk] at h
    split at h
    · next cs hcs => exact way_of_passText ⟨piece?_eq_some hcs, rfl⟩ h
    · cases h
  | notAhead | notBehind =>
    simp only [walk] at h
    split at h
    · cases h
    · exact way_of_here ⟨rfl, rfl⟩ h
  | notAfter set =>
    simp only [walk] at h
    split at h
    · exact way_of_here ⟨rfl, rfl⟩ h
    · split at h
      · cases h
      · exact way_of_here ⟨rfl, rfl⟩ h
  | edge | first =>
    simp only [walk] at h
    split at h
    · exact way_of_here ⟨rfl, rfl⟩ h
    · cases h
  | last =>
    simp only [walk] at h
    split at h
    · exact way_of_here ⟨rfl, rfl⟩ h
    · exact way_of_here ⟨rfl, rfl⟩ h
    · cases h

theorem spells_of_walk (h : walk p s k = some r) :
    ∃ w t, s.Passed t w ∧ Spells p w ∧ k t = some r := by
  obtain ⟨w, t, hst, hw, ht⟩ := yields_of_walk h
  exact ⟨w, t, hst, hw.spells, ht⟩

theorem walk_eq_none (h : ∀ w, Spells p w → ¬ w <+: s.after) : walk p s k = none := by
  rw [Option.eq_none_iff_forall_ne_some]
  intro r hr
  obtain ⟨w, t, hst, hw, -⟩ := spells_of_walk hr
  exact h w hw ⟨t.after, hst.after.symm⟩

/-! ## Where pieces end -/

section Moves

variable {z : List Char}

attribute [local simp] walk

theorem walk_append : walk (p ++ q) s k = walk p s fun t => walk q t k := rfl

theorem walk_group : walk (group n p) s k = walk p s fun t => k (t.keep n s) := rfl

theorem walk_lit {t : String} (h : s.after = t.toList ++ z) :
    walk (lit t) s k = k (s.pass t.toList z) := by
  simp [lit, passText, h, Text.dropStart?_append, Spot.pass, reverseAux_eq]

theorem walk_lit_none {t : String} (h : ¬ t.toList <+: s.after) : walk (lit t) s k = none := by
  simp [lit, passText, Text.dropStart?_eq_none.2 h]

theorem walk_text (h : s.after = w ++ z) : walk (text w) s k = k (s.pass w z) := by
  simp [passText, h, Text.dropStart?_append, Spot.pass, reverseAux_eq]

theorem walk_text_none (h : ¬ w <+: s.after) : walk (text w) s k = none := by
  simp [passText, Text.dropStart?_eq_none.2 h]

theorem walk_one {c : Char} (h : s.after = c :: z) (hc : set c = true) :
    walk (one set) s k = k (s.pass [c] z) := by
  simp [h, hc, advance, Spot.pass]

theorem walk_one_none {c : Char} (h : s.after = c :: z) (hc : set c = false) :
    walk (one set) s k = none := by
  simp [h, hc]

theorem giveBack_some (h : k s = some r) : giveBack k n s = some r := by
  cases n <;> simp [giveBack, h]

theorem giveBack_none (hn : n ≤ w.length)
    (h : ∀ u v, w = u ++ v → w.length ≤ u.length + n → k (s.pass u (v ++ z)) = none) :
    giveBack k n (s.pass w z) = none := by
  induction n generalizing w z with
  | zero => simpa [giveBack] using h w [] (by simp) (by simp)
  | succ n ih =>
    have here : k (s.pass w z) = none := by simpa using h w [] (by simp) (by simp)
    simp only [giveBack, here]
    rcases eq_nil_or_concat w with rfl | ⟨v, c, rfl⟩
    · simp at hn
    · rw [concat_eq_append] at *
      rw [retreat_pass_concat]
      simp only [length_append, length_singleton] at hn
      refine ih (by omega) ?_
      intro u x hx hlen
      have := h u (x ++ [c]) (by rw [hx, append_assoc])
      simp only [length_append, length_singleton, append_assoc,
        singleton_append] at this
      exact this (by omega)

/-- Only the first place that `giveBack` tries counts if `k` fails at all others. -/
theorem giveBack_of_later_none (hn : n ≤ w.length)
    (h : ∀ u v, w = u ++ v → v ≠ [] → k (s.pass u (v ++ z)) = none) :
    giveBack k n (s.pass w z) = k (s.pass w z) := by
  cases hk : k (s.pass w z) with
  | some r => exact giveBack_some hk
  | none =>
    refine giveBack_none hn fun u v huv _ => ?_
    by_cases hv : v = []
    · simpa [huv, hv] using hk
    · exact h u v huv hv

theorem takeWhile_append_stop (hw : ∀ c ∈ w, set c = true) (hr : ∀ c ∈ z.head?, set c = false) :
    (w ++ z).takeWhile set = w ∧ (w ++ z).dropWhile set = z := by
  rw [takeWhile_append_of_pos hw, dropWhile_append_of_pos hw]
  cases z with
  | nil => simp
  | cons c cs => simp [hr c rfl]

theorem walk_run_eq (h : s.after = w ++ z) (hw : ∀ c ∈ w, set c = true)
    (hr : ∀ c ∈ z.head?, set c = false) :
    walk (run set least true) s k =
      if w.length < least then none else giveBack k (w.length - least) (s.pass w z) := by
  obtain ⟨ht, hd⟩ := takeWhile_append_stop hw hr
  simp [passRun_spec, h, ht, hd, Spot.pass]

theorem walk_run (h : s.after = w ++ z) (hw : ∀ c ∈ w, set c = true)
    (hr : ∀ c ∈ z.head?, set c = false) (hl : least ≤ w.length)
    (hk : k (s.pass w z) = some r) : walk (run set least true) s k = some r := by
  rw [walk_run_eq h hw hr, if_neg (by omega), giveBack_some hk]

theorem walk_run_none (h : s.after = w ++ z) (hw : ∀ c ∈ w, set c = true)
    (hr : ∀ c ∈ z.head?, set c = false)
    (hk : ∀ u v, w = u ++ v → least ≤ u.length → k (s.pass u (v ++ z)) = none) :
    walk (run set least true) s k = none := by
  rw [walk_run_eq h hw hr]
  split
  · rfl
  · exact giveBack_none (by omega) fun u v huv hlen => hk u v huv (by omega)

private theorem creep_of_first {kept : List (Nat × Piece)} {before : List Char} {due pos : Nat}
    (hw : ∀ c ∈ w, set c = true) (hl : due ≤ w.length)
    (hk : k ⟨w.reverse ++ before, z, pos + w.length, kept⟩ = some r)
    (hfirst : ∀ u v, w = u ++ v → v ≠ [] → due ≤ u.length →
      k ⟨u.reverse ++ before, v ++ z, pos + u.length, kept⟩ = none) :
    creep set k kept due before pos (w ++ z) = some r := by
  induction w generalizing due before pos with
  | nil =>
    obtain rfl : due = 0 := by simpa using hl
    cases z with
    | nil => simpa [creep] using hk
    | cons c cs =>
      simp only [reverse_nil, nil_append, length_nil, Nat.add_zero] at hk ⊢
      simp [creep, hk]
  | cons c w ih =>
    have hrest : ∀ n, n ≤ w.length → (∀ u v, w = u ++ v → v ≠ [] → n ≤ u.length →
        k ⟨u.reverse ++ (c :: before), v ++ z, pos + 1 + u.length, kept⟩ = none) →
        creep set k kept n (c :: before) (pos + 1) (w ++ z) = some r := by
      intro n hn hf
      refine ih (fun d hd => hw d (mem_cons_of_mem _ hd)) hn ?_ hf
      rw [← hk]
      congr 2
      · simp
      · simp; omega
    have hlater : ∀ u v, w = u ++ v → v ≠ [] → due ≤ u.length + 1 →
        k ⟨u.reverse ++ (c :: before), v ++ z, pos + 1 + u.length, kept⟩ = none := by
      intro u v huv hv hu
      have := hfirst (c :: u) v (by simp [huv]) hv (by simpa using hu)
      rw [← this]
      congr 2
      · simp
      · simp; omega
    have hc : set c = true := hw c mem_cons_self
    cases due with
    | zero =>
      have := hfirst [] (c :: w) rfl (by simp) (by simp)
      simp only [reverse_nil, nil_append, cons_append, length_nil,
        Nat.add_zero] at this
      simp only [cons_append, creep, this, hc, if_true]
      exact hrest 0 (by omega) fun u v huv hv _ => hlater u v huv hv (by omega)
    | succ n =>
      simp only [cons_append, creep, hc, if_true]
      refine hrest n (by simpa using hl) fun u v huv hv hu => hlater u v huv hv (by omega)

theorem walk_creep (h : s.after = w ++ z) (hw : ∀ c ∈ w, set c = true) (hl : least ≤ w.length)
    (hk : k (s.pass w z) = some r)
    (hfirst : ∀ u v, w = u ++ v → v ≠ [] → least ≤ u.length → k (s.pass u (v ++ z)) = none) :
    walk (run set least false) s k = some r := by
  simp only [walk, h, Bool.false_eq_true, if_false]
  exact creep_of_first hw hl hk hfirst

/-- A lazy run ends at the first `c` if what follows starts with it. -/
theorem walk_creep_char {c : Char} (h : s.after = w ++ c :: z) (hw : ∀ d ∈ w, set d = true)
    (hl : least ≤ w.length) (hc : c ∉ w) (hk : k (s.pass w (c :: z)) = some r)
    (hnone : ∀ t : Spot, t.after.head? ≠ some c → k t = none) :
    walk (run set least false) s k = some r := by
  refine walk_creep h hw hl hk fun u v huv hv _ => hnone _ ?_
  obtain ⟨d, v, rfl⟩ := exists_cons_of_ne_nil hv
  have hd : d ≠ c := by
    rintro rfl
    exact hc (huv ▸ by simp)
  simpa using hd

end Moves

/-! ## Matches at the start -/

theorem atStart?_eq_none (h : ∀ w, Spells p w → ¬ w <+: cs) :
    p.atStart? (String.ofList cs) = none := by
  have hw : walk p (Spot.start cs) some = none := walk_eq_none h
  simp [atStart?, hw]

theorem fitsStart_eq_false (h : ∀ w, Spells p w → ¬ w <+: cs) :
    p.fitsStart (String.ofList cs) = false := by
  simp [fitsStart, atStart?_eq_none h]

theorem atStart?_of_walk {rest : List Char} {kept : List (Nat × Piece)}
    (h : walk p (Spot.start (w ++ rest)) some = some ⟨w.reverse, rest, w.length, kept⟩) :
    p.atStart? (String.ofList (w ++ rest)) = some ⟨[], w, rest, 0, kept⟩ := by
  simp only [atStart?, String.toList_ofList, h, Option.map_some, Match.between]
  simp [Spot.start]

end Pattern

end Stimulus
