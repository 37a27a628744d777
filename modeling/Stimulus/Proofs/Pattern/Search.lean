import Stimulus.Proofs.Text.Basic

/-!
# Searching past a text

A pattern that starts with a fixed text is searched for by looking for that text. A piece in which
the fixed text starts nowhere is passed, whatever follows the piece.
-/

open List

namespace Stimulus

namespace Text

/-- The text `w` starts nowhere in `t`, whatever follows `t`. -/
def Shuns (w t : List Char) : Prop := ∀ a b z, t = a ++ b → b ≠ [] → ¬ w <+: b ++ z

variable {w t u v z : List Char} {c : Char}

theorem shuns_nil : Shuns w [] := by
  intro a b z h hb
  exact absurd (append_eq_nil_iff.1 h.symm).2 hb

theorem shuns_cons (h : ∀ z, ¬ w <+: c :: (t ++ z)) (ht : Shuns w t) : Shuns w (c :: t) := by
  intro a b z hab hb
  cases a with
  | nil =>
    obtain rfl : c :: t = b := hab
    exact h z
  | cons d a =>
    obtain ⟨-, rfl⟩ := cons_eq_cons.1 hab
    exact ht a b z rfl hb

/-- What holds at every place of `u` and of `v`, whatever follows, holds at every place of both. -/
theorem forall_places_append {P : List Char → Prop} (hu : ∀ a b z, u = a ++ b → b ≠ [] → P (b ++ z))
    (hv : ∀ a b z, v = a ++ b → b ≠ [] → P (b ++ z)) (a b z : List Char) (hab : u ++ v = a ++ b)
    (hb : b ≠ []) : P (b ++ z) := by
  rcases append_eq_append_iff.1 hab with ⟨s, rfl, rfl⟩ | ⟨s, rfl, rfl⟩
  · exact hv s b z rfl hb
  · by_cases hs : s = []
    · subst hs
      exact hv [] v z rfl (by simpa using hb)
    · rw [append_assoc]
      exact hu a s (v ++ z) rfl hs

theorem Shuns.append (hu : Shuns w u) (hv : Shuns w v) : Shuns w (u ++ v) :=
  forall_places_append (P := (¬ w <+: ·)) hu hv

theorem shuns_flatMap {α : Type} {f : α → List Char} {xs : List α} (h : ∀ x ∈ xs, Shuns w (f x)) :
    Shuns w (xs.flatMap f) := by
  induction xs with
  | nil => exact shuns_nil
  | cons x xs ih =>
    obtain ⟨hx, hxs⟩ := forall_mem_cons.1 h
    exact hx.append (ih hxs)

theorem shuns_of_not_mem (h : c ∉ t) : Shuns (c :: w) t := by
  intro a b z hab hb hpre
  obtain ⟨d, b, rfl⟩ := exists_cons_of_ne_nil hb
  obtain ⟨rfl, -⟩ := cons_prefix_cons.1 hpre
  exact h (hab ▸ by simp)

theorem Shuns.mono (h : Shuns w t) (hw : w <+: u) : Shuns u t :=
  fun a b z hab hb hpre => h a b z hab hb (hw.trans hpre)

/-- A text without the character `c` that is a prefix ends before the first `c`. -/
theorem prefix_append_cons (hc : c ∉ w) (h : w <+: u ++ c :: v) : w <+: u := by
  have hcut : u ++ [c] <+: u ++ c :: v := ⟨v, by simp⟩
  rcases prefix_or_prefix_of_prefix h hcut with h | h
  · rcases prefix_concat_iff.1 h with rfl | h
    · exact absurd (by simp) hc
    · exact h
  · exact absurd (h.subset (by simp)) hc

/-- A word whose first letter is nowhere else in it starts nowhere in a text that does not hold it, before
the word or the end. -/
theorem not_prefix_filler {r f a b : List Char} (hw : w = c :: r) (hc : c ∉ r)
    (hf : ¬ w <:+: f) (hab : f = a ++ b) (hb : b ≠ []) (hz : w <+: z) : ¬ w <+: b ++ z := by
  intro hpre
  obtain ⟨d, b, rfl⟩ := exists_cons_of_ne_nil hb
  obtain ⟨z, rfl⟩ := hz
  subst hw
  obtain ⟨rfl, hrest⟩ := cons_prefix_cons.1 hpre
  have hin : c :: r <+: c :: b := cons_prefix_cons.2 ⟨rfl, prefix_append_cons hc hrest⟩
  exact hf (hab ▸ hin.isInfix.trans (suffix_append a _).isInfix)

/-- A text that does not stand in `u` starts nowhere before a character that it lacks. -/
theorem shuns_of_absent (hc : c ∉ w) (hu : ¬ w <:+: u) : Shuns w (u ++ [c]) := by
  intro a b z hab hb hpre
  obtain ⟨b', rfl⟩ : ∃ b', b = b' ++ [c] := by
    rcases eq_nil_or_concat b with rfl | ⟨b', e, rfl⟩
    · exact absurd rfl hb
    · rw [concat_eq_append, ← append_assoc] at hab
      obtain ⟨-, he⟩ := append_inj' hab rfl
      exact ⟨b', by rw [concat_eq_append, List.cons.inj he |>.1]⟩
  rw [← append_assoc] at hab
  have hin := prefix_append_cons hc (v := z) (by simpa using hpre)
  rw [(append_inj' hab rfl).1] at hu
  exact hu (hin.isInfix.trans (suffix_append a b').isInfix)

/-- A text starts nowhere before a character that it lacks, if it needs another one that does not
come before. -/
theorem shuns_of_stop {d : Char} (hc : c ∉ w) (hd : d ∈ w) (hu : d ∉ u) : Shuns w (u ++ [c]) :=
  shuns_of_absent hc fun hin => hu (hin.subset hd)

theorem exists_first_infix (h : w <:+: u) :
    ∃ a b, u = a ++ (w ++ b) ∧ ∀ x y, a = x ++ y → y ≠ [] → ¬ w <+: y ++ (w ++ b) := by
  induction u with
  | nil => exact ⟨[], [], by simpa using (infix_nil.1 h).symm, by simp⟩
  | cons d u ih =>
    by_cases hpre : w <+: d :: u
    · obtain ⟨b, hb⟩ := hpre
      exact ⟨[], b, hb.symm, by simp⟩
    · obtain ⟨a, b, rfl, hfirst⟩ := ih ((infix_cons_iff.1 h).resolve_left hpre)
      refine ⟨d :: a, b, rfl, fun x y hxy hy => ?_⟩
      cases x with
      | nil =>
        obtain rfl : d :: a = y := hxy
        exact hpre
      | cons e x => exact hfirst x y (List.cons.inj hxy).2 hy

/-- The two texts differ at a place that both have. -/
def clash : List Char → List Char → Bool
  | a :: as, b :: bs => a != b || clash as bs
  | _, _ => false

theorem not_prefix_of_clash (h : clash w t = true) : ¬ w <+: t ++ z := by
  induction w generalizing t with
  | nil => simp [clash] at h
  | cons a w ih =>
    cases t with
    | nil => simp [clash] at h
    | cons b t =>
      rw [cons_append, cons_prefix_cons]
      rintro ⟨rfl, hpre⟩
      exact ih (by simpa [clash] using h) hpre

/-- Everywhere in `t` the text `w` clashes with what is there. -/
def shunsCheck (w : List Char) : List Char → Bool
  | [] => true
  | c :: t => clash w (c :: t) && shunsCheck w t

theorem shuns_of_check (h : shunsCheck w t = true) : Shuns w t := by
  induction t with
  | nil => exact shuns_nil
  | cons c t ih =>
    simp only [shunsCheck, Bool.and_eq_true] at h
    exact shuns_cons (fun z => not_prefix_of_clash h.1) (ih h.2)

theorem Shuns.infix_iff (h : Shuns w t) : w <:+: t ++ z ↔ w <:+: z := by
  induction t with
  | nil => rfl
  | cons c t ih =>
    have hhere : ¬ w <+: c :: (t ++ z) := h [] (c :: t) z rfl (by simp)
    rw [cons_append, infix_cons_iff, or_iff_right hhere]
    exact ih fun a b z hab => h (c :: a) b z (by rw [hab]; rfl)

theorem Shuns.absent (h : Shuns w t) (hw : w ≠ []) : ¬ w <:+: t := by
  intro hin
  rw [← append_nil t, h.infix_iff] at hin
  exact hw (infix_nil.1 hin)

end Text

namespace Pattern

open Spot Text

variable {p q : Pattern} {w u v before : List Char} {pos : Nat}

/-- All that the pattern spells starts with `w`. -/
def Leads (p : Pattern) (w : List Char) : Prop := ∀ t, Spells p t → w <+: t

theorem leads_lit (s : String) : Leads (lit s) s.toList := by
  rintro t rfl
  exact prefix_rfl

theorem Leads.seq (h : Leads p w) : Leads (p ++ q) w := by
  rintro t ⟨a, b, rfl, ha, -⟩
  exact (h a ha).trans (prefix_append a b)

theorem Leads.walk_eq_none {s : Spot} {k : Spot → Option Spot} (h : Leads p w)
    (hs : ¬ w <+: s.after) : walk p s k = none :=
  Pattern.walk_eq_none fun t ht hpre => hs ((h t ht).trans hpre)

theorem searchFrom_hit {cs : List Char} {t : Spot} (h : walk p ⟨before, cs, pos, []⟩ some = some t) :
    searchFrom p before pos cs = some (⟨before, cs, pos, []⟩, t) := by
  cases cs <;> simp [searchFrom, h]

theorem searchFrom_of_none {cs : List Char} (h : ∀ s : Spot, s.after <:+ cs → walk p s some = none) :
    searchFrom p before pos cs = none := by
  induction cs generalizing before pos with
  | nil => simp [searchFrom, h ⟨before, [], pos, []⟩ suffix_rfl]
  | cons c cs ih =>
    simp only [searchFrom, h ⟨before, c :: cs, pos, []⟩ suffix_rfl]
    exact ih fun s hs => h s (hs.trans (suffix_cons c cs))

theorem searchFrom_append
    (h : ∀ a b, u = a ++ b → b ≠ [] → ∀ s : Spot, s.after = b ++ v → walk p s some = none) :
    searchFrom p before pos (u ++ v) = searchFrom p (u.reverse ++ before) (pos + u.length) v := by
  induction u generalizing before pos with
  | nil => rfl
  | cons c u ih =>
    have hhere : walk p ⟨before, c :: (u ++ v), pos, []⟩ some = none := h [] (c :: u) rfl (by simp) _ rfl
    simp only [cons_append, searchFrom, hhere]
    rw [ih fun a b hab hb => h (c :: a) b (by rw [hab]; rfl) hb]
    simp [Nat.add_assoc, Nat.add_comm 1]

theorem searchFrom_of_shuns (hp : Leads p w) (h : Shuns w u) :
    searchFrom p before pos (u ++ v) = searchFrom p (u.reverse ++ before) (pos + u.length) v :=
  searchFrom_append fun a b hab hb _ hs => hp.walk_eq_none (hs ▸ h a b v hab hb)

theorem search?_of_shuns (hp : Leads p w) (hw : w ≠ []) {cs : List Char} (h : Shuns w cs) :
    p.search? (String.ofList cs) = none := by
  have hnil (s : Spot) (hs : s.after <:+ []) : walk p s some = none :=
    hp.walk_eq_none fun hpre => hw (prefix_nil.1 (suffix_nil.1 hs ▸ hpre))
  rw [search?, String.toList_ofList, ← append_nil cs, searchFrom_of_shuns hp h,
    searchFrom_of_none hnil, Option.map_none]

theorem search?_of_walk (hp : Leads p w) (hu : Shuns w u) {t : Spot}
    (h : walk p ⟨u.reverse, v, u.length, []⟩ some = some t) :
    p.search? (String.ofList (u ++ v)) = some (Match.between ⟨u.reverse, v, u.length, []⟩ t) := by
  rw [search?, String.toList_ofList, searchFrom_of_shuns hp hu, append_nil, Nat.zero_add,
    searchFrom_hit h, Option.map_some]

end Pattern

end Stimulus

/-!
## The first way to match

`Takes p s t` says that `p`, tried at the place `s`, first leaves the place `t` to what follows. If
what follows accepts `t` the match is settled, however many other ways there are.
-/

namespace Stimulus.Pattern

open Spot Text

/-- If what follows accepts the place `t`, the pattern matches from `s` to `t`. -/
def Takes (p : Pattern) (s t : Spot) : Prop :=
  ∀ (k : Spot → Option Spot) (r : Spot), k t = some r → walk p s k = some r

/-- The pattern does not match at the place, whatever follows. -/
def Fails (p : Pattern) (s : Spot) : Prop := ∀ k : Spot → Option Spot, walk p s k = none

section Rules

variable {p q : Pattern} {s t r : Spot} {u v w z : List Char} {set : Char → Bool} {least n : Nat}

theorem Takes.seq (hp : Takes p s t) (hq : Takes q t r) : Takes (p ++ q) s r :=
  fun k x h => hp _ x (hq k x h)

theorem Takes.to (h : Takes p s t) (ht : t = r) : Takes p s r := ht ▸ h

theorem Takes.group (h : Takes p s t) (n : Nat) : Takes (group n p) s (t.keep n s) :=
  fun k x hk => h (fun t => k (t.keep n s)) x hk

theorem Takes.opt (h : Takes p s t) : Takes (opt p) s t := by
  intro k x hk
  simp [Pattern.opt, walk, h k x hk]

theorem Takes.alt (h : Takes p s t) : Takes (p <|> q) s t := by
  intro k x hk
  change walk (.alt p q) s k = some x
  simp only [walk, h k x hk]

theorem Fails.alt (hp : Fails p s) (hq : Takes q s t) : Takes (p <|> q) s t := by
  intro k x hk
  change walk (.alt p q) s k = some x
  simp only [walk, hp k, hq k x hk]

theorem Fails.opt (h : Fails p s) : Takes (Pattern.opt p) s s := by
  intro k x hk
  simp [Pattern.opt, walk, h k, hk]

theorem Fails.seq (h : Fails p s) : Fails (p ++ q) s := fun _ => h _

theorem Fails.group (h : Fails p s) (n : Nat) : Fails (group n p) s := fun _ => h _

theorem Fails.either (hp : Fails p s) (hq : Fails q s) : Fails (p <|> q) s := by
  intro k
  change walk (.alt p q) s k = none
  simp only [walk, hp k, hq k]

theorem fails_of_leads (h : Leads p w) (hs : ¬ w <+: s.after) : Fails p s := fun _ => h.walk_eq_none hs

theorem takes_lit {l : String} (h : s.after = l.toList ++ z) :
    Takes (lit l) s (s.pass l.toList z) := by
  intro k x hk
  rw [walk_lit h, hk]

theorem takes_one {c : Char} (h : s.after = c :: z) (hc : set c = true) :
    Takes (one set) s (s.pass [c] z) := by
  intro k x hk
  rw [walk_one h hc, hk]

theorem takes_run (h : s.after = w ++ z) (hw : ∀ c ∈ w, set c = true)
    (hz : ∀ c ∈ z.head?, set c = false) (hl : least ≤ w.length) :
    Takes (run set least true) s (s.pass w z) :=
  fun _ _ hk => walk_run h hw hz hl hk

/-- Giving back ends at the last place that `k` accepts. -/
theorem giveBack_at {k : Spot → Option Spot} {s r : Spot} {n : Nat} (hn : v.length ≤ n)
    (hk : k (s.pass u (v ++ w)) = some r)
    (hlater : ∀ a b, v = a ++ b → a ≠ [] → k (s.pass (u ++ a) (b ++ w)) = none) :
    giveBack k n (s.pass (u ++ v) w) = some r := by
  induction n generalizing v w with
  | zero =>
    obtain rfl := length_eq_zero_iff.1 (Nat.le_zero.1 hn)
    simpa [giveBack] using hk
  | succ n ih =>
    rcases eq_nil_or_concat v with rfl | ⟨v, c, rfl⟩
    · exact giveBack_some (by simpa using hk)
    · rw [concat_eq_append] at *
      have hhere : k (s.pass (u ++ (v ++ [c])) w) = none := by
        simpa using hlater (v ++ [c]) [] (by simp) (by simp)
      simp only [giveBack, hhere]
      rw [← append_assoc, retreat_pass_concat]
      refine ih (by simpa using hn) (by simpa using hk) fun a b hab ha => ?_
      simpa using hlater a (b ++ [c]) (by rw [hab, append_assoc]) ha

theorem takes_run_at (h : s.after = u ++ (v ++ w)) (huv : ∀ c ∈ u ++ v, set c = true)
    (hw : ∀ c ∈ w.head?, set c = false) (hl : least ≤ u.length)
    (hq : Takes q (s.pass u (v ++ w)) t)
    (hlater : ∀ a b, v = a ++ b → a ≠ [] → Fails q (s.pass (u ++ a) (b ++ w))) :
    Takes (run set least true ++ q) s t := by
  intro k x hk
  rw [walk_append, walk_run_eq (by rw [h, append_assoc]) huv hw, if_neg (by simp; omega)]
  exact giveBack_at (by simp; omega) (hq k x hk) fun a b hab ha => hlater a b hab ha k

theorem takes_creep (h : s.after = w ++ z) (hw : ∀ c ∈ w, set c = true) (hl : least ≤ w.length)
    (hq : Takes q ((s.pass w z).keep n s) t)
    (hfirst : ∀ a b, w = a ++ b → b ≠ [] → Fails q ((s.pass a (b ++ z)).keep n s)) :
    Takes (group n (run set least false) ++ q) s t := by
  intro k x hk
  rw [walk_append, walk_group]
  exact walk_creep h hw hl (hq k x hk) fun a b hab hb _ => hfirst a b hab hb k

end Rules

/-! ## Matches -/

section Matches

variable {p : Pattern} {u v w cs : List Char} {t : Spot}

theorem atStart?_of_takes (h : Takes p (Spot.start cs) t) :
    p.atStart? (String.ofList cs) = some (Match.between (Spot.start cs) t) := by
  rw [atStart?, String.toList_ofList, h some t rfl, Option.map_some]

theorem search?_of_takes (hp : Leads p w) (hu : Shuns w u)
    (h : Takes p ⟨u.reverse, v, u.length, []⟩ t) :
    p.search? (String.ofList (u ++ v)) = some (Match.between ⟨u.reverse, v, u.length, []⟩ t) :=
  search?_of_walk hp hu (h some t rfl)

end Matches

end Stimulus.Pattern
