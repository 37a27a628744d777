import Stimulus.Proofs.Pattern.Search

/-!
# Replacing from a place on

`replaceAll` first collects all matches and then copies the text between them. Read from the left
it is a scan: at each place either a match is replaced or one character is copied.
-/

open List

namespace Stimulus

variable {cs : List Char} {c : Char} {q : Pattern}

namespace Pattern

open Spot

variable {p : Pattern} {f : Match → String}

variable {before : List Char} {pos : Nat}

/-! ## The scan -/

theorem searchFrom_spec {a b : Spot}
    (h : searchFrom p before pos cs = some (a, b)) :
    ∃ u, cs = u ++ a.after ∧ a.pos = pos + u.length ∧ walk p a some = some b := by
  induction cs generalizing before pos with
  | nil =>
    simp only [searchFrom, Option.map_eq_some_iff] at h
    obtain ⟨t, ht, hab⟩ := h
    cases hab
    exact ⟨[], rfl, rfl, ht⟩
  | cons c cs ih =>
    simp only [searchFrom] at h
    split at h
    · next ht => cases h; exact ⟨[], rfl, rfl, ht⟩
    · obtain ⟨u, hu, hpos, hw⟩ := ih h
      exact ⟨c :: u, by rw [hu]; rfl, by rw [hpos]; simp; omega, hw⟩

theorem searchFrom_rest {a b : Spot}
    (h : searchFrom p before pos cs = some (a, b)) :
    a.after.length ≤ cs.length ∧ ∃ w, a.after = w ++ b.after ∧ b.pos = a.pos + w.length := by
  obtain ⟨u, hu, -, hw⟩ := searchFrom_spec h
  obtain ⟨w, t, hst, -, ht⟩ := spells_of_walk hw
  obtain rfl := Option.some.inj ht
  exact ⟨by simp [hu], w, hst.after, hst.pos⟩

theorem searchFrom_of_spansFrom {n : Nat} {s a b : Spot} {rest : List (Spot × Spot)}
    (h : spansFrom p n s = (a, b) :: rest) : searchFrom p s.before s.pos s.after = some (a, b) := by
  cases n with
  | zero => cases h
  | succ n =>
    rw [spansFrom] at h
    split at h
    · cases h
    · next a' b' hsearch =>
      have hhead : (a', b') = (a, b) := by
        split at h
        · split at h <;> exact (List.cons.inj h).1
        · exact (List.cons.inj h).1
      exact hhead ▸ hsearch

private theorem length_advance {s : Spot} (h : s.after ≠ []) :
    s.advance.after.length + 1 = s.after.length := by
  unfold advance
  split <;> simp_all

private theorem spansFrom_end {n m : Nat} {s : Spot} (h : s.after = []) :
    spansFrom p (n + 1) s = spansFrom p (m + 1) s := by
  simp only [spansFrom, h]
  split
  · rfl
  · next a b h =>
    obtain ⟨hle, w, hw, hpos⟩ := searchFrom_rest h
    have ha : a.after = [] := by simpa using hle
    obtain ⟨rfl, hb⟩ : w = [] ∧ b.after = [] := by simpa [ha] using hw.symm
    simp [hpos, hb]

theorem spansFrom_fuel {n m : Nat} {s : Spot} (hn : s.after.length ≤ n) (hm : s.after.length ≤ m) :
    spansFrom p (n + 1) s = spansFrom p (m + 1) s := by
  induction n generalizing m s with
  | zero => exact spansFrom_end (by simpa using hn)
  | succ n ih =>
    cases m with
    | zero => exact spansFrom_end (by simpa using hm)
    | succ m =>
      rw [spansFrom, spansFrom]
      split
      · rfl
      · next a b h =>
        obtain ⟨hle, w, hw, hpos⟩ := searchFrom_rest h
        have hlen : a.after.length = w.length + b.after.length := by rw [hw, length_append]
        split
        · split
          · rfl
          · next hb =>
            have := length_advance (s := b) (by simpa using hb)
            rw [ih (m := m) (by omega) (by omega)]
        · next hne =>
          have : w.length ≠ 0 := by
            intro h0
            simp [hpos, h0] at hne
          rw [ih (m := m) (by omega) (by omega)]

/-- What `replaceAll` makes of the text `cs` at position `pos`, after the text `before`. -/
def replaceFrom (p : Pattern) (f : Match → String) (before : List Char) (pos : Nat)
    (cs : List Char) : List Char :=
  (splice f ⟨before, cs, pos, []⟩ (spansFrom p (cs.length + 1) ⟨before, cs, pos, []⟩)).flatMap
    String.toList

theorem replaceAll_eq (s : String) :
    p.replaceAll f s = String.ofList (replaceFrom p f [] 0 s.toList) := by
  rw [← String.ofList_toList (s := p.replaceAll f s)]
  simp [replaceAll, replaceFrom, spans, Spot.start]

private theorem spansFrom_kept (fuel : Nat) (s : Spot) (kept : List (Nat × Piece)) :
    spansFrom p fuel { s with kept } = spansFrom p fuel s := by
  cases fuel <;> rfl

private theorem splice_kept (s : Spot) (kept : List (Nat × Piece)) (l : List (Spot × Spot)) :
    splice f { s with kept } l = splice f s l := by
  cases l <;> rfl

theorem replaceFrom_nil
    (h : walk p ⟨before, [], pos, []⟩ some = none) : replaceFrom p f before pos [] = [] := by
  simp [replaceFrom, spansFrom, searchFrom, h, splice]

theorem spansFrom_skip
    (h : walk p ⟨before, c :: cs, pos, []⟩ some = none) :
    spansFrom p ((c :: cs).length + 1) ⟨before, c :: cs, pos, []⟩ =
      spansFrom p (cs.length + 1) ⟨c :: before, cs, pos + 1, []⟩ := by
  have hfuel := @spansFrom_fuel p (cs.length + 1) cs.length ⟨c :: before, cs, pos + 1, []⟩
    (Nat.le_succ _) (Nat.le_refl _)
  rw [← hfuel]
  simp [spansFrom, searchFrom, h]

theorem spansFrom_hit {t : Spot}
    (h : walk p ⟨before, cs, pos, []⟩ some = some t) (hne : t.pos ≠ pos) :
    spansFrom p (cs.length + 1) ⟨before, cs, pos, []⟩ =
      (⟨before, cs, pos, []⟩, t) ::
        spansFrom p (t.after.length + 1) ⟨t.before, t.after, t.pos, []⟩ := by
  obtain ⟨w, t', hst, -, ht⟩ := spells_of_walk h
  obtain rfl := Option.some.inj ht
  have hafter : cs = w ++ t'.after := hst.after
  have hpos : t'.pos = pos + w.length := hst.pos
  have hw : w.length ≠ 0 := by omega
  have hlen : cs.length = w.length + t'.after.length := by rw [hafter, length_append]
  rw [spansFrom]
  simp only [searchFrom_hit h]
  rw [if_neg (by simpa using hne)]
  obtain ⟨n, hn⟩ : ∃ n, cs.length = n + 1 := ⟨cs.length - 1, by omega⟩
  rw [hn, spansFrom_fuel (n := n) (m := t'.after.length) (by omega) (by omega),
    ← spansFrom_kept _ t' []]

theorem replaceFrom_skip
    (h : walk p ⟨before, c :: cs, pos, []⟩ some = none) :
    replaceFrom p f before pos (c :: cs) = c :: replaceFrom p f (c :: before) (pos + 1) cs := by
  simp only [replaceFrom, spansFrom_skip h]
  cases hl : spansFrom p (cs.length + 1) ⟨c :: before, cs, pos + 1, []⟩ with
  | nil => simp [splice]
  | cons ab rest =>
    obtain ⟨a, b⟩ := ab
    have hfirst : searchFrom p (c :: before) (pos + 1) cs = some (a, b) := searchFrom_of_spansFrom hl
    obtain ⟨u, -, hu, -⟩ := searchFrom_spec hfirst
    have h1 : a.pos - pos = u.length + 1 := by omega
    have h2 : a.pos - (pos + 1) = u.length := by omega
    simp [splice, h1, h2]

theorem replaceFrom_hit {t : Spot}
    (h : walk p ⟨before, cs, pos, []⟩ some = some t) (hne : t.pos ≠ pos) :
    replaceFrom p f before pos cs =
      (f (Match.between ⟨before, cs, pos, []⟩ t)).toList
        ++ replaceFrom p f t.before t.pos t.after := by
  simp only [replaceFrom, spansFrom_hit h hne, splice, Nat.sub_self, take_zero,
    flatMap_cons]
  rw [← splice_kept t []]
  simp

theorem replaceFrom_of_none
    (h : ∀ u v, cs = u ++ v → walk p ⟨u.reverse ++ before, v, pos + u.length, []⟩ some = none) :
    replaceFrom p f before pos cs = cs := by
  induction cs generalizing before pos with
  | nil => exact replaceFrom_nil (h [] [] rfl)
  | cons c cs ih =>
    have here : walk p ⟨before, c :: cs, pos, []⟩ some = none := h [] (c :: cs) rfl
    rw [replaceFrom_skip here, ih]
    intro u v huv
    have := h (c :: u) v (by rw [huv]; rfl)
    rw [← this]
    congr 2
    · simp
    · simp; omega

theorem replaceAll_of_spells (h : ∀ w, Spells p w → ¬ w <:+: cs) :
    p.replaceAll f (String.ofList cs) = String.ofList cs := by
  rw [replaceAll_eq, String.toList_ofList, replaceFrom_of_none]
  intro u v huv
  refine walk_eq_none fun w hw hpre => h w hw ?_
  rw [huv]
  exact hpre.isInfix.trans (suffix_append u v).isInfix

/-- The pattern passes only texts that hold `c`. -/
def Needs (p : Pattern) (c : Char) : Prop := ∀ w, Spells p w → c ∈ w

theorem needs_lit {t : String} (h : c ∈ t.toList) : Needs (lit t) c := by
  rintro w rfl
  exact h

theorem Needs.left (h : Needs p c) : Needs (p ++ q) c := by
  rintro w ⟨u, v, rfl, hu, -⟩
  exact mem_append_left _ (h u hu)

theorem Needs.right (h : Needs q c) : Needs (p ++ q) c := by
  rintro w ⟨u, v, rfl, -, hv⟩
  exact mem_append_right _ (h v hv)

theorem Needs.replaceAll (h : Needs p c) (hc : c ∉ cs) :
    p.replaceAll f (String.ofList cs) = String.ofList cs :=
  replaceAll_of_spells fun w hw hin => hc (hin.subset (h w hw))

theorem atStart?_of_needs (h : Needs p c) (hc : c ∉ cs) : p.atStart? (String.ofList cs) = none :=
  atStart?_eq_none fun w hw hp => hc (hp.subset (h w hw))

theorem searchFrom_congr (h : ∀ s, walk p s some = walk q s some)
    (before : List Char) (pos : Nat) (cs : List Char) :
    searchFrom p before pos cs = searchFrom q before pos cs := by
  induction cs generalizing before pos with
  | nil => simp only [searchFrom, h]
  | cons c cs ih => simp only [searchFrom, h, ih]

theorem replaceAll_congr (h : ∀ s, walk p s some = walk q s some) (s : String) :
    p.replaceAll f s = q.replaceAll f s := by
  have hspans : ∀ fuel s, spansFrom p fuel s = spansFrom q fuel s := by
    intro fuel
    induction fuel with
    | zero => intro s; rfl
    | succ fuel ih => intro s; simp only [spansFrom, searchFrom_congr h, ih]
  simp only [replaceAll, spans, hspans]

/-! ## Whole words -/

/-- A whole word that starts with a character of `head` and goes on with characters of `tail`. -/
def wordShape (head tail : Char → Bool) : Pattern :=
  edge ++ (one head ++ run tail 0 true) ++ edge

/-- The character after a place, or before it, is no part of a word. -/
def Bounded (cs : List Char) : Prop := ∀ c ∈ cs.head?, Text.isWordChar c = false

theorem bounded_nil : Bounded [] := by simp [Bounded]

theorem bounded_cons : Bounded (c :: cs) ↔ Text.isWordChar c = false := by simp [Bounded]

/-- The word `w` has the shape of a `wordShape`. -/
def hasShape (head tail : Char → Bool) : List Char → Bool
  | [] => false
  | c :: cs => head c && cs.all tail

section Words

variable {head tail : Char → Bool} {before w rest : List Char} {pos : Nat}
  {kept : List (Nat × Piece)} {k : Spot → Option Spot}

private theorem wordAfter_eq_of_bounded (h : Bounded rest) :
    wordAfter ⟨before, rest, pos, kept⟩ = false := by
  cases rest with
  | nil => rfl
  | cons c cs => exact bounded_cons.1 h

private theorem wordBefore_eq_of_bounded (h : Bounded before) :
    wordBefore ⟨before, rest, pos, kept⟩ = false := by
  cases before with
  | nil => rfl
  | cons c cs => exact bounded_cons.1 h

theorem walk_wordShape_inside {d : Char} (hc : Text.isWordChar c = true)
    (hd : Text.isWordChar d = true) :
    walk (wordShape head tail) ⟨c :: before, d :: rest, pos, kept⟩ k = none := by
  simp [wordShape, HAppend.hAppend, Append.append, walk, wordBefore, wordAfter, hc, hd]

theorem walk_wordShape_other (hhead : ∀ c, head c = true → Text.isWordChar c = true)
    (hc : Text.isWordChar c = false) :
    walk (wordShape head tail) ⟨before, c :: rest, pos, kept⟩ k = none := by
  have hne : head c = false := by
    cases h : head c with
    | false => rfl
    | true => rw [hhead c h] at hc; cases hc
  simp [wordShape, HAppend.hAppend, Append.append, walk, hne]

theorem walk_wordShape_nil : walk (wordShape head tail) ⟨before, [], pos, kept⟩ k = none := by
  simp [wordShape, HAppend.hAppend, Append.append, walk]

theorem walk_wordShape (htail : ∀ c, tail c = true → Text.isWordChar c = true)
    (hb : Bounded before) (hw : ∀ c ∈ w, Text.isWordChar c = true) (hr : Bounded rest)
    (hne : w ≠ []) :
    walk (wordShape head tail) ⟨before, w ++ rest, pos, kept⟩ k =
      if hasShape head tail w then k ⟨w.reverse ++ before, rest, pos + w.length, kept⟩
      else none := by
  obtain ⟨c, w, rfl⟩ := exists_cons_of_ne_nil hne
  obtain ⟨hc, hw⟩ := forall_mem_cons.1 hw
  show (if wordBefore ⟨before, c :: (w ++ rest), pos, kept⟩ !=
      wordAfter ⟨before, c :: (w ++ rest), pos, kept⟩ then
        walk (one head) ⟨before, c :: (w ++ rest), pos, kept⟩ fun t =>
          walk (run tail 0 true) t fun u => walk edge u k
      else none) = _
  rw [wordBefore_eq_of_bounded hb, if_pos (by simpa [wordAfter] using hc)]
  by_cases hhead : head c = true
  case neg =>
    rw [walk_one_none rfl (by simpa using hhead)]
    simp [hasShape, hhead]
  rw [walk_one rfl hhead]
  -- The run of `tail` ends inside the word, or with it.
  have hsplit : w.takeWhile tail ++ w.dropWhile tail = w := takeWhile_append_dropWhile
  have hstop : ∀ d ∈ (w.dropWhile tail ++ rest).head?, tail d = false := by
    intro d hd
    rw [head?_append, Option.mem_def, Option.or_eq_some_iff] at hd
    rcases hd with hd | ⟨-, hd⟩
    · exact Text.head_dropWhile tail w d hd
    · exact Bool.eq_false_iff.2 fun htd => by simpa [hr d hd] using htail d htd
  -- Before the end of the word there is no edge.
  have hinside : ∀ u v, w = u ++ v → v ≠ [] → ∀ r,
      walk edge ((Spot.pass ⟨before, c :: (w ++ rest), pos, kept⟩ [c] (w ++ rest)).pass u
        (v ++ r)) k = none := by
    intro u v huv hv r
    obtain ⟨d, v, rfl⟩ := exists_cons_of_ne_nil hv
    have hd : Text.isWordChar d = true := hw d (by simp [huv])
    have hlast : wordBefore ((Spot.pass ⟨before, c :: (w ++ rest), pos, kept⟩ [c]
        (w ++ rest)).pass u (d :: v ++ r)) = true := by
      rcases eq_nil_or_concat u with rfl | ⟨u', e, rfl⟩
      · simpa [wordBefore] using hc
      · simpa [wordBefore] using hw e (by simp [huv])
    simp only [walk, hlast]
    rw [if_neg]
    simp [wordAfter, hd]
  have hafter : (Spot.pass ⟨before, c :: (w ++ rest), pos, kept⟩ [c] (w ++ rest)).after =
      w.takeWhile tail ++ (w.dropWhile tail ++ rest) := by
    rw [← append_assoc, hsplit]; rfl
  rw [walk_run_eq hafter (all_eq_true.1 all_takeWhile) hstop, if_neg (by omega)]
  rw [giveBack_of_later_none (by omega) fun u v huv hv => by
    rw [← append_assoc]
    exact hinside u (v ++ w.dropWhile tail) (by rw [← append_assoc, ← huv, hsplit])
      (by simp [hv]) rest]
  by_cases hall : w.all tail = true
  · have htw : w.takeWhile tail = w := takeWhile_eq_self_iff.2 (all_eq_true.1 hall)
    have hdw : w.dropWhile tail = [] := by simpa [htw] using hsplit
    have hlast : ∃ e u, (c :: w).reverse ++ before = e :: u ∧ Text.isWordChar e = true := by
      rcases eq_nil_or_concat w with rfl | ⟨u, e, rfl⟩
      · exact ⟨c, before, rfl, hc⟩
      · exact ⟨e, u.reverse ++ c :: before, by simp, hw e (by simp)⟩
    obtain ⟨e, u, heq, he⟩ := hlast
    have hend : Spot.pass (Spot.pass ⟨before, c :: (w ++ rest), pos, kept⟩ [c] (w ++ rest)) w rest =
        ⟨e :: u, rest, pos + (c :: w).length, kept⟩ := by
      rw [Spot.pass_pass, ← heq]; rfl
    rw [htw, hdw, nil_append, hend, heq]
    simp only [walk, wordBefore, he, wordAfter_eq_of_bounded hr, hasShape, hhead, hall]
    simp
  · have hdw : w.dropWhile tail ≠ [] := by
      intro h0
      rw [h0, append_nil] at hsplit
      exact hall (all_eq_true.2 (takeWhile_eq_self_iff.1 hsplit))
    rw [hinside _ _ hsplit.symm hdw rest]
    simp [hasShape, hall]

theorem replaceFrom_wordShape_nil : replaceFrom (wordShape head tail) f before pos [] = [] :=
  replaceFrom_nil walk_wordShape_nil

theorem replaceFrom_other (hhead : ∀ c, head c = true → Text.isWordChar c = true)
    (hc : Text.isWordChar c = false) :
    replaceFrom (wordShape head tail) f before pos (c :: rest) =
      c :: replaceFrom (wordShape head tail) f (c :: before) (pos + 1) rest :=
  replaceFrom_skip (walk_wordShape_other hhead hc)

private theorem replaceFrom_inside (hc : Text.isWordChar c = true)
    (hw : ∀ c ∈ w, Text.isWordChar c = true) :
    replaceFrom (wordShape head tail) f (c :: before) pos (w ++ rest) =
      w ++ replaceFrom (wordShape head tail) f (w.reverse ++ c :: before) (pos + w.length) rest := by
  induction w generalizing c before pos with
  | nil => rfl
  | cons d w ih =>
    obtain ⟨hd, hw⟩ := forall_mem_cons.1 hw
    rw [cons_append, replaceFrom_skip (walk_wordShape_inside hc hd), ih hd hw]
    simp [Nat.add_assoc, Nat.add_comm 1]

theorem replaceFrom_word (htail : ∀ c, tail c = true → Text.isWordChar c = true)
    (hb : Bounded before) (hw : ∀ c ∈ w, Text.isWordChar c = true) (hr : Bounded rest)
    (hne : w ≠ []) :
    replaceFrom (wordShape head tail) f before pos (w ++ rest) =
      (if hasShape head tail w then (f ⟨before, w, rest, pos, []⟩).toList else w)
        ++ replaceFrom (wordShape head tail) f (w.reverse ++ before) (pos + w.length) rest := by
  have hwalk := @walk_wordShape head tail before w rest pos [] some htail hb hw hr hne
  split
  · next hs =>
    rw [if_pos hs] at hwalk
    have hlen : 0 < w.length := length_pos_iff.2 hne
    rw [replaceFrom_hit hwalk (by simp; omega)]
    simp [Match.between]
  · next hs =>
    rw [if_neg hs] at hwalk
    obtain ⟨c, w, rfl⟩ := exists_cons_of_ne_nil hne
    obtain ⟨hc, hw⟩ := forall_mem_cons.1 hw
    rw [cons_append] at hwalk ⊢
    rw [replaceFrom_skip hwalk, replaceFrom_inside hc hw]
    simp [Nat.add_assoc, Nat.add_comm 1]

end Words

end Pattern

end Stimulus
