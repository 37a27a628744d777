import Stimulus.Proofs.Pattern.Find

/-!
# What a pattern reads

`Reads p before kept w z kept'` says that `p` first passes the text `w` between `before` and `z`, and
what it has kept then. One rule for each shape puts together what a whole pattern reads.
-/

open List

namespace Stimulus

def Match.pieces (m : Match) : List (Nat × List Char) := piecesOf m.kept

theorem Match.group?_eq (m : Match) (n : Nat) :
    m.group? n = (m.pieces.find? fun (k, _) => k == n).map fun (_, w) => String.ofList w := by
  rw [group?, pieces, piecesOf, find?_map, Option.map_map]
  rfl

theorem Match.group_eq (m : Match) (n : Nat) :
    m.group n = ((m.pieces.find? fun (k, _) => k == n).map fun (_, w) => String.ofList w).getD "" := by
  rw [group, group?_eq]

namespace Pattern

open Spot Text

/-- At a place with these pieces kept and `w ++ z` after it, the pattern first passes `w`. -/
def Reads (p : Pattern) (before : List Char) (kept : List (Nat × List Char)) (w z : List Char)
    (kept' : List (Nat × List Char)) : Prop :=
  ∀ s : Spot, s.before = before → s.pieces = kept → s.after = w ++ z →
    ∃ t, Takes p s t ∧ s.Passed t w ∧ t.pieces = kept'

section Rules

variable {p q r : Pattern} {before v w z : List Char} {kept kept' kept'' : List (Nat × List Char)}
  {set : Char → Bool} {least n : Nat}

theorem reads_lit {l : String} : Reads (lit l) before kept l.toList z kept :=
  fun _ _ hk hs => ⟨_, takes_lit hs, passed_pass hs, hk⟩

theorem reads_one {c : Char} (hc : set c = true) : Reads (one set) before kept [c] z kept :=
  fun _ _ hk hs => ⟨_, takes_one hs hc, passed_pass hs, hk⟩

theorem reads_run (hw : ∀ c ∈ w, set c = true) (hz : ∀ c ∈ z.head?, set c = false)
    (hl : least ≤ w.length) : Reads (run set least true) before kept w z kept :=
  fun _ _ hk hs => ⟨_, takes_run hs hw hz hl, passed_pass hs, hk⟩

theorem Reads.seq (hp : Reads p before kept w (v ++ z) kept')
    (hq : Reads q (w.reverse ++ before) kept' v z kept'') :
    Reads (p ++ q) before kept (w ++ v) z kept'' := by
  intro s hb hk hs
  obtain ⟨t, ht, hst, hkt⟩ := hp s hb hk (by rw [hs, append_assoc])
  obtain ⟨u, hu, htu, hku⟩ := hq t (by rw [hst.before, hb]) hkt
    (append_cancel_left (hst.after.symm.trans (by rw [hs, append_assoc])))
  exact ⟨u, ht.seq hu, hst.trans htu, hku⟩

theorem reads_blanks (hw : Blank w) (hz : ∀ c ∈ z.head?, isBlank c = false) :
    Reads blanks before kept w z kept :=
  reads_run hw hz (Nat.zero_le _)

theorem reads_word (hw : IsWord w) (hz : ∀ c ∈ z.head?, isWordChar c = false) :
    Reads word before kept w z kept :=
  reads_run hw.chars hz (length_pos_iff.2 hw.ne_nil)

theorem reads_gap {gap : List Char} (hgap : Blank gap)
    (hw : ∀ c ∈ (w ++ (v ++ z)).head?, isBlank c = false)
    (hp : Reads p (gap.reverse ++ before) kept w (v ++ z) kept')
    (hq : Reads q (w.reverse ++ (gap.reverse ++ before)) kept' v z kept'') :
    Reads (blanks ++ (p ++ q)) before kept (gap ++ (w ++ v)) z kept'' :=
  (reads_blanks hgap (by rwa [append_assoc])).seq (hp.seq hq)

theorem reads_assoc :
    Reads (p ++ q ++ r) before kept w z kept' ↔ Reads (p ++ (q ++ r)) before kept w z kept' :=
  Iff.rfl

theorem Reads.group (h : Reads p before kept w z kept') (n : Nat) :
    Reads (group n p) before kept w z ((n, w) :: kept') := by
  intro s hb hk hs
  obtain ⟨t, ht, hst, hkt⟩ := h s hb hk hs
  exact ⟨t.keep n s, ht.group n, hst.keep n s, by rw [pieces_keep hst, hkt]⟩

theorem Reads.opt (h : Reads p before kept w z kept') : Reads (opt p) before kept w z kept' := by
  intro s hb hk hs
  obtain ⟨t, ht, hst, hkt⟩ := h s hb hk hs
  exact ⟨t, ht.opt, hst, hkt⟩

theorem reads_opt_none (h : ∀ s : Spot, s.after = z → Fails p s) :
    Reads (Pattern.opt p) before kept [] z kept :=
  fun s _ hk hs => ⟨s, (h s hs).opt, .refl s, hk⟩

theorem Reads.alt (h : Reads p before kept w z kept') : Reads (p <|> q) before kept w z kept' := by
  intro s hb hk hs
  obtain ⟨t, ht, hst, hkt⟩ := h s hb hk hs
  exact ⟨t, ht.alt, hst, hkt⟩

theorem reads_first : Reads first [] kept [] z kept := by
  intro s hb hk _
  refine ⟨s, fun k x hx => ?_, .refl s, hk⟩
  simp [walk, hb, hx]

theorem reads_last : Reads last before kept [] [] kept := by
  intro s _ hk hs
  refine ⟨s, fun k x hx => ?_, .refl s, hk⟩
  simp [walk, show s.after = [] from hs, hx]

theorem reads_edge (hb : before.head?.any isWordChar = true) (hz : Bounded z) :
    Reads edge before kept [] z kept := by
  intro s hs hk hafter
  refine ⟨s, fun k x hx => ?_, .refl s, hk⟩
  have hword : wordBefore s = true := by
    unfold wordBefore
    rw [hs]
    cases before with
    | nil => cases hb
    | cons c r => exact hb
  have hother : wordAfter s = false := by
    unfold wordAfter
    rw [show s.after = z from hafter]
    cases z with
    | nil => rfl
    | cons d z => exact bounded_cons.1 hz
  simp [walk, hword, hother, hx]

theorem reads_same (h : kept.find? (fun (k, _) => k == n) = some (n, w)) :
    Reads (same n) before kept w z kept := by
  intro s _ hk hs
  have hpiece : s.piece? n = some w := by
    rw [← hk, Spot.pieces, piecesOf, find?_map, Option.map_eq_some_iff] at h
    obtain ⟨x, hx, hxw⟩ := h
    exact Option.map_eq_some_iff.2 ⟨x, hx, (Prod.mk.inj hxw).2⟩
  refine ⟨s.pass w z, fun k x hx => ?_, passed_pass hs, hk⟩
  simp only [walk, hpiece]
  rw [← hx]
  exact walk_text hs

theorem reads_star_none (h : ∀ s : Spot, s.after = z → Fails p s) :
    Reads (star p) before kept [] z kept := by
  intro s _ hk hs
  refine ⟨s, fun k x hx => ?_, .refl s, hk⟩
  have hnone : ∀ k, walk p s k = none := h s hs
  simp only [walk, repeatStep, hnone, hx]

theorem reads_creep (hw : ∀ c ∈ w, set c = true) (hl : least ≤ w.length)
    (hq : Reads q (w.reverse ++ before) ((n, w) :: kept) v z kept')
    (hfirst : ∀ a b, w = a ++ b → b ≠ [] → ∀ s : Spot, s.after = b ++ (v ++ z) → Fails q s) :
    Reads (Pattern.group n (run set least false) ++ q) before kept (w ++ v) z kept' := by
  intro s hb hk hs
  have hs' : s.after = w ++ (v ++ z) := by rw [hs, append_assoc]
  have hpass := passed_pass hs'
  obtain ⟨t, ht, hst, hkt⟩ := hq ((s.pass w (v ++ z)).keep n s) (by rw [← hb]; rfl)
    (by rw [pieces_keep hpass, ← hk]; rfl) rfl
  exact ⟨t, takes_creep hs' hw hl ht fun a b hab hb' => hfirst a b hab hb' _ rfl,
    (hpass.keep n s).trans hst, hkt⟩

theorem reads_notAhead (h : ∀ s : Spot, s.after = z → Fails p s) :
    Reads (notAhead p) before kept [] z kept := by
  intro s _ hk hs
  refine ⟨s, fun k x hx => ?_, .refl s, hk⟩
  have hnone : walk p s some = none := h s hs some
  simp [walk, hnone, hx]

theorem fails_lit {l : String} {s : Spot} (h : ¬ l.toList <+: s.after) : Fails (lit l) s :=
  fails_of_leads (leads_lit l) h

end Rules

/-! ## Matches -/

section Matches

variable {p : Pattern} {before v w z : List Char} {kept : List (Nat × List Char)}

theorem yields_of_atStart? {cs : List Char} {m : Match} (h : p.atStart? (String.ofList cs) = some m) :
    ∃ w z, cs = w ++ z ∧ Yields p [] w m.pieces := by
  obtain ⟨t, ht, rfl⟩ := Option.map_eq_some_iff.1 h
  obtain ⟨w, t', hst, hw, ht⟩ := yields_of_walk ht
  obtain rfl := Option.some.inj ht
  rw [String.toList_ofList] at hst
  exact ⟨w, t'.after, hst.after, hw⟩

theorem yields_of_searchFrom {cs : List Char} {pos : Nat} {a b : Spot}
    (h : Pattern.searchFrom p before pos cs = some (a, b)) :
    ∃ u, cs = u ++ ((Match.between a b).chars ++ b.after) ∧
      Yields p [] (Match.between a b).chars (Match.between a b).pieces := by
  have here {before cs : List Char} {pos : Nat} {a b : Spot}
      (h : walk p ⟨before, cs, pos, []⟩ some = some b) (ha : ⟨before, cs, pos, []⟩ = a) :
      cs = (Match.between a b).chars ++ b.after ∧
        Yields p [] (Match.between a b).chars (Match.between a b).pieces := by
    obtain ⟨w, t, hst, hw, ht⟩ := yields_of_walk h
    obtain rfl := Option.some.inj ht
    subst ha
    have hcut : cs = w ++ t.after := hst.after
    have hpos : t.pos = pos + w.length := hst.pos
    have hchars : (Match.between ⟨before, cs, pos, []⟩ t).chars = w := by
      simp [Match.between, hpos, hcut]
    exact ⟨by rw [hchars, ← hcut], hchars ▸ hw⟩
  induction cs generalizing before pos with
  | nil =>
    obtain ⟨t, ht, hab⟩ := Option.map_eq_some_iff.1 h
    obtain ⟨ha, rfl⟩ := Prod.mk.inj hab
    exact ⟨[], here ht ha⟩
  | cons c cs ih =>
    unfold Pattern.searchFrom at h
    simp only at h
    split at h
    · next t ht =>
      obtain ⟨ha, rfl⟩ := Prod.mk.inj (Option.some.inj h)
      exact ⟨[], here ht ha⟩
    · obtain ⟨u, hcs, hw⟩ := ih h
      exact ⟨c :: u, by rw [cons_append, ← hcs], hw⟩

theorem Reads.atStart? (h : Reads p [] [] w z kept) :
    ∃ m, p.atStart? (String.ofList (w ++ z)) = some m ∧ m.pieces = kept := by
  obtain ⟨t, ht, -, hkt⟩ := h (Spot.start (w ++ z)) rfl rfl rfl
  exact ⟨_, atStart?_of_takes ht, hkt⟩

theorem Reads.exists_stop (h : Reads p [] [] w z kept) :
    ∃ m, p.atStart? (String.ofList (w ++ z)) = some m ∧ m.after = z ∧ m.stop = w.length := by
  obtain ⟨t, ht, hst, -⟩ := h (Spot.start (w ++ z)) rfl rfl rfl
  have hpos : t.pos = w.length := hst.pos.trans (Nat.zero_add _)
  refine ⟨_, atStart?_of_takes ht, (append_cancel_left hst.after).symm, ?_⟩
  simp [Match.stop, Match.between, Spot.start, hpos]

theorem Reads.finds {β : Type} {read : Match → β} {b : β} (hw : w ≠ [])
    (h : ∀ before z, Reads p before [] w z kept) (hread : ∀ m : Match, m.pieces = kept → read m = b) :
    Finds p read w [b] := by
  refine finds_of_takes hw fun s z hk hs => ?_
  obtain ⟨t, ht, hst, hkt⟩ := h s.before z s rfl (by rw [Spot.pieces, hk]; rfl) hs
  exact ⟨t, ht, hst, hread _ hkt⟩

theorem Reads.searchFrom {pos : Nat} {u : List Char}
    (hu : ∀ a b, u = a ++ b → b ≠ [] → ∀ s : Spot, s.after = b ++ (w ++ z) → walk p s some = none)
    (h : Reads p (u.reverse ++ before) [] w z kept) :
    ∃ a b, searchFrom p before pos (u ++ (w ++ z)) = some (a, b) ∧ b.after = z ∧
      (Match.between a b).chars = w ∧ (Match.between a b).pieces = kept := by
  obtain ⟨t, ht, hst, hkt⟩ := h ⟨u.reverse ++ before, w ++ z, pos + u.length, []⟩ rfl rfl rfl
  have hpos : t.pos = pos + u.length + w.length := hst.pos
  refine ⟨⟨u.reverse ++ before, w ++ z, pos + u.length, []⟩, t, ?_,
    (append_cancel_left hst.after).symm, by simp [Match.between, hpos], hkt⟩
  rw [searchFrom_append hu, searchFrom_hit (ht some t rfl)]

end Matches

/-! ## Matches of a whole text -/

theorem yields_of_whole {p : Pattern} {s : String} {m : Match} (h : (p ++ last).atStart? s = some m) :
    ∃ w z, s.toList = w ++ z ∧ (z = [] ∨ z = ['\n']) ∧ Yields p [] w m.pieces := by
  obtain ⟨r, hr, rfl⟩ := Option.map_eq_some_iff.1 h
  obtain ⟨w, t, hst, hw, hlast⟩ := yields_of_walk (p := p) hr
  have hend : (t.after = [] ∨ t.after = ['\n']) ∧ t = r := by
    simp only [walk] at hlast
    split at hlast
    · next hnil => exact ⟨.inl hnil, Option.some.inj hlast⟩
    · next hline => exact ⟨.inr hline, Option.some.inj hlast⟩
    · cases hlast
  obtain ⟨hend, rfl⟩ := hend
  exact ⟨w, t.after, hst.after, hend, hw⟩

end Pattern

end Stimulus
