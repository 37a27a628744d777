import Mathlib.Data.List.Basic
import Stimulus.Proofs.Sv.Lexeme
import Stimulus.Proofs.Text.Closed
import Stimulus.Stmt.Split

/-!
# The pieces of a body

The splitter reads a word of a block or a character at a time, and cuts after some of them. What it
does up to a cut depends on the piece alone: no word runs over a cut, and an `else` that keeps a
statement together is a part of it. So a piece that is split again stays whole.
-/

open List

namespace Stimulus.Stmt

open Text Sv

/-! ## One step -/

variable {cs rest after t w b u : List Char} {prev : Option Char} {d : Depths} {c : Char}

theorem wordAt?_eq_some {kw : List Char} : wordAt? kw prev cs = some rest ↔
      prev.any isAlphanumeric = false ∧ cs = kw ++ rest ∧
        rest.head?.any isAlphanumeric = false := by
  unfold wordAt?
  by_cases hp : prev.any isAlphanumeric = true
  · simp [hp]
  · rw [if_neg hp, Option.filter_eq_some_iff, dropStart?_eq_some]
    simp [hp]

/-- What is read at once: a word of a block, or else a character. -/
inductive Scans (prev : Option Char) : List Char → List Char → Prop where
  | word {kw after : List Char} (hkw : kw ∈ blockWords)
      (h : wordAt? kw prev (kw ++ after) = some after) : Scans prev kw after
  | char {c : Char} {after : List Char} (h : ∀ kw ∈ blockWords, wordAt? kw prev (c :: after) = none) :
      Scans prev [c] after

theorem exists_scans (prev : Option Char) (c : Char) (rest : List Char) :
    ∃ t after, c :: rest = t ++ after ∧ Scans prev t after := by
  by_cases h : ∀ kw ∈ blockWords, wordAt? kw prev (c :: rest) = none
  · exact ⟨[c], rest, rfl, .char h⟩
  · simp only [not_forall] at h
    obtain ⟨kw, hkw, hne⟩ := h
    obtain ⟨after, hafter⟩ := Option.ne_none_iff_exists'.1 hne
    have heq := (wordAt?_eq_some.1 hafter).2.1
    exact ⟨kw, after, heq, .word hkw (heq ▸ hafter)⟩

theorem Scans.ne_nil (h : Scans prev t after) : t ≠ [] := by
  cases h with
  | word hkw => exact (by decide : ∀ kw ∈ blockWords, kw ≠ []) _ hkw
  | char => simp

/-- The depth after a character. -/
def Depths.step (d : Depths) (c : Char) : Depths :=
  if c = '{' then { d with brace := d.brace + 1 }
  else if c = '}' then { d with brace := d.brace - 1 }
  else if c = '(' then { d with paren := d.paren + 1 }
  else if c = ')' then { d with paren := d.paren - 1 }
  else d

/-- The depth after what is read at once. -/
def Depths.read (d : Depths) : List Char → Depths
  | ['b', 'e', 'g', 'i', 'n'] => { d with block := d.block + 1 }
  | ['e', 'n', 'd'] => { d with block := d.block - 1 }
  | c :: _ => d.step c
  | [] => d

/-- A statement can end after this, and it does unless an `else` follows. -/
def endsBefore (after : List Char) : List Char → Bool
  | ['e', 'n', 'd'] => !elseFollows after
  | ['}'] => !elseFollowsBlock after
  | [';'] => !elseFollows after
  | _ => false

/-- A statement ends after this; `d` is the depth there. -/
def cutsAfter (d : Depths) (t after : List Char) : Bool := d.isOuter && endsBefore after t

theorem splitFrom_scans (h : Scans prev t after) (d : Depths) (current : List Char) :
    splitFrom d current prev (t ++ after) =
      if cutsAfter (d.read t) t after then
        finish (t.reverse ++ current) (splitFrom (d.read t) [] t.getLast? after)
      else splitFrom (d.read t) (t.reverse ++ current) t.getLast? after := by
  cases h with
  | word hkw h =>
    simp only [blockWords, mem_cons, not_mem_nil, or_false] at hkw
    rcases hkw with rfl | rfl
    · rw [cons_append, splitFrom]
      split
      · next hb =>
        obtain rfl := Option.some.inj (hb.symm.trans h)
        simp [cutsAfter, endsBefore, Depths.read]
      · next hb => cases hb.symm.trans h
    · have hbegin : wordAt? ['b', 'e', 'g', 'i', 'n'] prev (['e', 'n', 'd'] ++ after) = none := by
        simp [wordAt?, dropStart?]
      rw [cons_append, splitFrom]
      split
      · next hb => cases hb.symm.trans hbegin
      · split
        · next he =>
          obtain rfl := Option.some.inj (he.symm.trans h)
          simp [cutsAfter, endsBefore, Depths.read]
        · next he => cases he.symm.trans h
  | @char c _ h =>
    have hbegin := h _ mem_cons_self
    have hend := h _ (mem_cons_of_mem _ mem_cons_self)
    rw [singleton_append, splitFrom]
    split
    · next hb => cases hb.symm.trans hbegin
    · split
      · next he => cases he.symm.trans hend
      · by_cases h1 : c = '{'
        · subst h1
          simp [cutsAfter, endsBefore, Depths.read, Depths.step]
        by_cases h2 : c = '}'
        · subst h2
          simp [cutsAfter, endsBefore, Depths.read, Depths.step]
        by_cases h3 : c = '('
        · subst h3
          simp [cutsAfter, endsBefore, Depths.read, Depths.step]
        by_cases h4 : c = ')'
        · subst h4
          simp [cutsAfter, endsBefore, Depths.read, Depths.step]
        by_cases h5 : c = ';'
        · subst h5
          simp [cutsAfter, endsBefore, Depths.read, Depths.step]
        simp [cutsAfter, endsBefore, Depths.read, Depths.step, h1, h2, h3, h4, h5]

/-! ## Up to a cut -/

/-- The splitter takes the text off as one piece: it cuts after it, or the text ends there. -/
inductive CutsOff : Depths → Option Char → List Char → List Char → Prop where
  | done {d : Depths} {prev : Option Char} : CutsOff d prev [] []
  | cut {d : Depths} {prev : Option Char} {t rest : List Char} (h : Scans prev t rest)
      (hc : cutsAfter (d.read t) t rest = true) : CutsOff d prev t rest
  | pass {d : Depths} {prev : Option Char} {t w rest : List Char} (h : Scans prev t (w ++ rest))
      (hc : cutsAfter (d.read t) t (w ++ rest) = false) (hw : CutsOff (d.read t) t.getLast? w rest) :
      CutsOff d prev (t ++ w) rest

theorem exists_cutsOff (d : Depths) (prev : Option Char) (cs : List Char) :
    ∃ w rest, cs = w ++ rest ∧ CutsOff d prev w rest := by
  induction hlen : cs.length using Nat.strongRecOn generalizing d prev cs with
  | ind n ih =>
    cases cs with
    | nil => exact ⟨[], [], rfl, .done⟩
    | cons c cs =>
      obtain ⟨t, after, heq, hscan⟩ := exists_scans prev c cs
      cases hc : cutsAfter (d.read t) t after with
      | true => exact ⟨t, after, heq, .cut hscan hc⟩
      | false =>
        have hshort : after.length < n := by
          have hpos := length_pos_iff.2 hscan.ne_nil
          have := congrArg List.length heq
          rw [length_append] at this
          omega
        obtain ⟨w, rest, rfl, hw⟩ := ih _ hshort (d.read t) t.getLast? after rfl
        exact ⟨t ++ w, rest, by simp [heq], .pass hscan hc hw⟩

theorem CutsOff.rest_of_nil (h : CutsOff d prev [] rest) : rest = [] := by
  generalize hw : ([] : List Char) = w at h
  cases h with
  | done => rfl
  | cut h => exact absurd hw.symm h.ne_nil
  | pass h => exact absurd (append_eq_nil_iff.1 hw.symm).1 h.ne_nil

theorem eq_outer_of_cutsAfter (h : cutsAfter d t after = true) : d = {} := by
  obtain ⟨brace, paren, block⟩ := d
  have houter : (brace = 0 ∧ paren = 0) ∧ block = 0 := by
    simpa [Depths.isOuter] using (Bool.and_eq_true_iff.1 h).1
  obtain ⟨⟨rfl, rfl⟩, rfl⟩ := houter
  rfl

theorem splitFrom_cutsOff (h : CutsOff d prev w rest) (current : List Char) :
    splitFrom d current prev (w ++ rest) =
      finish (w.reverse ++ current) (splitFrom {} [] w.getLast? rest) := by
  induction h generalizing current with
  | done =>
    have hnil : splitFrom {} [] none [] = [] := by rw [splitFrom]; rfl
    simp [splitFrom, hnil]
  | cut h hc => rw [splitFrom_scans h, if_pos hc, eq_outer_of_cutsAfter hc]
  | @pass _ _ t w rest h hc hw ih =>
    rw [append_assoc, splitFrom_scans h, hc, if_neg (by simp), ih]
    by_cases hnil : w = []
    · subst hnil
      rw [hw.rest_of_nil, splitFrom, splitFrom]
      simp
    · rw [getLast?_append_of_ne_nil _ hnil]
      simp

/-! ## No word runs over a cut -/

/-- No word runs from one text into the other. -/
def Parted (last : Option Char) (v : List Char) : Prop :=
  last.any isAlphanumeric = true → v.head?.any isAlphanumeric = false

theorem endsBefore_cases (h : endsBefore after t = true) :
    t = ['e', 'n', 'd'] ∨ t = ['}'] ∨ t = [';'] := by
  unfold endsBefore at h
  split at h <;> simp_all

theorem CutsOff.parted (h : CutsOff d prev w rest) : Parted w.getLast? rest := by
  induction h with
  | done => exact fun h => rfl
  | @cut d prev t rest h hc =>
    intro hlast
    rcases endsBefore_cases (Bool.and_eq_true_iff.1 hc).2 with rfl | rfl | rfl
    · cases h with
      | word _ hword => exact (wordAt?_eq_some.1 hword).2.2
    · exact absurd hlast (by decide)
    · exact absurd hlast (by decide)
  | @pass _ _ t w rest _ _ hw ih =>
    by_cases hnil : w = []
    · subst hnil
      exact fun _ => by rw [hw.rest_of_nil]; rfl
    · rwa [getLast?_append_of_ne_nil _ hnil]

theorem Scans.alone {v z : List Char} (h : Scans prev t (v ++ z))
    (hz : Parted (t ++ v).getLast? z) : Scans prev t v := by
  have hhead : ∀ x : List Char, (v ++ x).head?.any isAlphanumeric = false →
      v.head?.any isAlphanumeric = false := by
    intro x hx
    cases v with
    | nil => rfl
    | cons c v => exact hx
  cases h with
  | word hkw h =>
    obtain ⟨hprev, -, hafter⟩ := wordAt?_eq_some.1 h
    exact .word hkw (wordAt?_eq_some.2 ⟨hprev, rfl, hhead z hafter⟩)
  | @char c _ h =>
    refine .char fun kw hkw => Option.eq_none_iff_forall_ne_some.2 fun after hafter => ?_
    obtain ⟨hprev, heq, hbound⟩ := wordAt?_eq_some.1 hafter
    refine absurd (h kw hkw) (Option.ne_none_iff_exists'.2 ⟨after ++ z, ?_⟩)
    refine wordAt?_eq_some.2 ⟨hprev, by rw [← append_assoc, ← heq]; rfl, ?_⟩
    cases after with
    | cons d after => exact hbound
    | nil =>
      -- The word ends where the text does, and its last character is a letter.
      refine hz ?_
      rw [singleton_append, heq, append_nil]
      exact (by decide : ∀ kw ∈ blockWords, kw.getLast?.any isAlphanumeric = true) kw hkw

theorem Scans.first (h : Scans prev t after) (hp : Parted prev (t ++ after)) : Scans none t after := by
  cases h with
  | word hkw h =>
    obtain ⟨-, -, hafter⟩ := wordAt?_eq_some.1 h
    exact .word hkw (wordAt?_eq_some.2 ⟨rfl, rfl, hafter⟩)
  | @char c _ h =>
    refine .char fun kw hkw => Option.eq_none_iff_forall_ne_some.2 fun rest hrest => ?_
    obtain ⟨-, heq, hbound⟩ := wordAt?_eq_some.1 hrest
    have hhead : (kw ++ rest).head?.any isAlphanumeric = true := by
      rw [head?_append]
      have hfirst : kw.head?.any isAlphanumeric = true :=
        (by decide : ∀ kw ∈ blockWords, kw.head?.any isAlphanumeric = true) kw hkw
      cases hkw' : kw.head? with
      | none => simp [hkw'] at hfirst
      | some c => simpa [hkw'] using hfirst
    have hprev : prev.any isAlphanumeric = false := by
      by_contra hne
      have := hp (by simpa using hne)
      rw [singleton_append, heq, hhead] at this
      cases this
    cases (wordAt?_eq_some.2 ⟨hprev, heq, hbound⟩).symm.trans (h kw hkw)

/-! ## What keeps a statement together is a part of it -/

theorem Scans.eq_char {r : List Char} (h : Scans prev t after) (heq : t ++ after = c :: r)
    (hscan : ∀ kw ∈ blockWords, wordAt? kw prev (c :: r) = none) : t = [c] ∧ after = r := by
  cases h with
  | word hkw h => cases (heq ▸ h).symm.trans (hscan _ hkw)
  | char => exact ⟨by simpa using (List.cons.inj heq).1, (List.cons.inj heq).2⟩

theorem CutsOff.tail {r : List Char} (h : CutsOff d prev w rest) (heq : w ++ rest = c :: r)
    (hscan : ∀ kw ∈ blockWords, wordAt? kw prev (c :: r) = none)
    (hc : cutsAfter (d.step c) [c] r = false) :
    ∃ w', w = c :: w' ∧ w' ++ rest = r ∧ CutsOff (d.step c) (some c) w' rest := by
  have hstep : d.read [c] = d.step c := by simp [Depths.read]
  cases h with
  | done => cases heq
  | cut h hcut =>
    obtain ⟨rfl, rfl⟩ := h.eq_char heq hscan
    rw [hstep] at hcut
    cases hcut.symm.trans hc
  | pass h _ hw =>
    rw [append_assoc] at heq
    obtain ⟨rfl, rfl⟩ := h.eq_char heq hscan
    rw [hstep] at hw
    exact ⟨_, rfl, rfl, hw⟩

theorem cutsAfter_char (h1 : c ≠ '}') (h2 : c ≠ ';') (d : Depths) (after : List Char) :
    cutsAfter d [c] after = false := by
  simp [cutsAfter, endsBefore, h1, h2]

theorem wordAt?_of_head (hc : c ≠ 'b' ∧ c ≠ 'e') (prev : Option Char) (r : List Char) :
    ∀ kw ∈ blockWords, wordAt? kw prev (c :: r) = none := by
  simp [blockWords, wordAt?, dropStart?, Ne.symm hc.1, Ne.symm hc.2]

theorem CutsOff.after_blank (hb : Blank b)
    {r : List Char} (h : CutsOff d prev w rest) (heq : w ++ rest = b ++ r) :
    ∃ w', w = b ++ w' ∧ w' ++ rest = r ∧ CutsOff d (b.getLast?.or prev) w' rest := by
  induction b generalizing prev w with
  | nil => exact ⟨w, rfl, heq, h⟩
  | cons c b ih =>
    obtain ⟨hc, hb⟩ := forall_mem_cons.1 hb
    have hne : ∀ x : Char, isBlank x = false → c ≠ x := by
      rintro x hx rfl
      cases hc.symm.trans hx
    have hstep : d.step c = d := by
      simp [Depths.step, hne '{' (by decide), hne '}' (by decide), hne '(' (by decide),
        hne ')' (by decide)]
    obtain ⟨w', rfl, heq', hw⟩ := h.tail heq
      (wordAt?_of_head ⟨hne 'b' (by decide), hne 'e' (by decide)⟩ prev _)
      (cutsAfter_char (hne '}' (by decide)) (hne ';' (by decide)) _ _)
    rw [hstep] at hw
    obtain ⟨w'', rfl, heq'', hw'⟩ := ih hb hw heq'
    refine ⟨w'', rfl, heq'', ?_⟩
    rwa [getLast?_cons, ← Option.or_some, Option.or_assoc, Option.some_or]

theorem elseFollows_iff :
    elseFollows cs = true ↔ ∃ b r, Blank b ∧ cs = b ++ (['e', 'l', 's', 'e'] ++ r) := by
  constructor
  · intro h
    obtain ⟨r, hr⟩ := beginsWith_iff.1 h
    refine ⟨cs.takeWhile isBlank, r, fun c hc => mem_takeWhile_imp hc, ?_⟩
    conv_lhs => rw [← takeWhile_append_dropWhile (p := isBlank) (l := cs), ← hr]
    rfl
  · rintro ⟨b, r, hb, rfl⟩
    rw [elseFollows, dropWhile_blank_append hb, cons_append,
      dropWhile_cons_of_neg (by decide)]
    exact beginsWith_iff.2 ⟨r, rfl⟩

theorem elseFollowsBlock_iff : elseFollowsBlock cs = true ↔
      elseFollows cs = true ∨ ∃ b r, Blank b ∧ cs = b ++ ';' :: r ∧ elseFollows r = true := by
  constructor
  · intro h
    rw [elseFollowsBlock] at h
    split at h
    · next r hr =>
      refine .inr ⟨cs.takeWhile isBlank, r, fun c hc => mem_takeWhile_imp hc, ?_, h⟩
      rw [← hr, takeWhile_append_dropWhile]
    · exact .inl h
  · rintro (h | ⟨b, r, hb, rfl, hr⟩)
    · rw [elseFollows] at h
      rw [elseFollowsBlock]
      split
      · next r hr =>
        rw [hr] at h
        exact absurd (beginsWith_iff.1 h) (by simp)
      · exact h
    · rw [elseFollowsBlock, dropWhile_blank_append hb, dropWhile_cons_of_neg (by decide)]
      exact hr

theorem CutsOff.elseFollows (h : CutsOff d prev w rest) (he : elseFollows (w ++ rest) = true) :
    Stmt.elseFollows w = true := by
  obtain ⟨b, r, hb, heq⟩ := elseFollows_iff.1 he
  obtain ⟨w, rfl, heq, h⟩ := h.after_blank hb heq
  obtain ⟨w, rfl, heq, h⟩ := h.tail heq (by simp [blockWords, wordAt?, dropStart?])
    (cutsAfter_char (by decide) (by decide) _ _)
  obtain ⟨w, rfl, heq, h⟩ := h.tail heq (wordAt?_of_head (by decide) _ _)
    (cutsAfter_char (by decide) (by decide) _ _)
  obtain ⟨w, rfl, heq, h⟩ := h.tail heq (wordAt?_of_head (by decide) _ _)
    (cutsAfter_char (by decide) (by decide) _ _)
  -- The last letter starts no word, since a letter stands before it.
  have hword : ∀ kw ∈ blockWords, wordAt? kw (some 's') ('e' :: r) = none :=
    fun kw _ => if_pos (by decide)
  obtain ⟨w, rfl, -, -⟩ := h.tail heq hword (cutsAfter_char (by decide) (by decide) _ _)
  exact elseFollows_iff.2 ⟨b, w, hb, rfl⟩

theorem CutsOff.elseFollowsBlock
    (h : CutsOff d prev w rest) (he : elseFollowsBlock (w ++ rest) = true) :
    Stmt.elseFollowsBlock w = true := by
  rcases elseFollowsBlock_iff.1 he with he | ⟨b, r, hb, heq, hr⟩
  · exact elseFollowsBlock_iff.2 (.inl (h.elseFollows he))
  · obtain ⟨w, rfl, heq, h⟩ := h.after_blank hb heq
    obtain ⟨w, rfl, rfl, h⟩ := h.tail heq (wordAt?_of_head (by decide) _ _)
      (by simp [cutsAfter, endsBefore, hr])
    exact elseFollowsBlock_iff.2 (.inr ⟨b, w, hb, rfl, h.elseFollows hr⟩)

/-! ## A piece alone -/

theorem prefix_of_append_blank {x : List Char} (hx : ∀ c ∈ x.getLast?, isBlank c = false)
    (hb : Blank b) (h : x <+: u ++ b) : x <+: u := by
  obtain ⟨r, hr⟩ := h
  rcases append_eq_append_iff.1 hr with ⟨a, rfl, -⟩ | ⟨a, rfl, rfl⟩
  · exact prefix_append _ _
  · rcases a.eq_nil_or_concat' with rfl | ⟨a, c, rfl⟩
    · simp
    · have hc := hx c (by simp)
      rw [hb c (by simp)] at hc
      cases hc

theorem elseFollows_of_append_blank (hb : Blank b)
    (h : elseFollows (u ++ b) = true) : elseFollows u = true := by
  obtain ⟨a, r, ha, heq⟩ := elseFollows_iff.1 h
  have hpre : a ++ ['e', 'l', 's', 'e'] <+: u :=
    prefix_of_append_blank (by simp; decide) hb ⟨r, by rw [heq, append_assoc]⟩
  obtain ⟨r', rfl⟩ := hpre
  exact elseFollows_iff.2 ⟨a, r', ha, by simp⟩

theorem elseFollowsBlock_of_append_blank (hb : Blank b)
    (h : elseFollowsBlock (u ++ b) = true) : elseFollowsBlock u = true := by
  rcases elseFollowsBlock_iff.1 h with h | ⟨a, r, ha, heq, hr⟩
  · exact elseFollowsBlock_iff.2 (.inl (elseFollows_of_append_blank hb h))
  · have hpre : a ++ [';'] <+: u :=
      prefix_of_append_blank (by simp; decide) hb ⟨r, by rw [heq]; simp⟩
    obtain ⟨r', rfl⟩ := hpre
    have hrest : r' ++ b = r := by simpa using heq
    refine elseFollowsBlock_iff.2 (.inr ⟨a, r', ha, by simp, ?_⟩)
    exact elseFollows_of_append_blank hb (hrest ▸ hr)

theorem endsBefore_mono {x y : List Char} (h1 : elseFollows x = true → elseFollows y = true)
    (h2 : elseFollowsBlock x = true → elseFollowsBlock y = true) (h : endsBefore x t = false) :
    endsBefore y t = false := by
  unfold endsBefore at h ⊢
  split at h <;> simp_all

theorem isAlphanumeric_of_isBlank (h : isBlank c = true) : isAlphanumeric c = false := by
  by_contra hc
  have hword : isWordChar c = true := by
    rw [Bool.not_eq_false] at hc
    simp [isWordChar, hc]
  cases (isBlank_of_isWordChar hword).symm.trans h

theorem CutsOff.alone
    (h : CutsOff d prev w rest) (hw : w = u ++ b) (hb : Blank b) : CutsOff d prev u [] := by
  induction h generalizing u with
  | done =>
    obtain ⟨rfl, -⟩ := append_eq_nil_iff.1 hw.symm
    exact .done
  | @cut d prev t rest h hc =>
    have hends := (Bool.and_eq_true_iff.1 hc).2
    have hlast : ∀ c ∈ t.getLast?, isBlank c = false := by
      rcases endsBefore_cases hends with rfl | rfl | rfl <;> decide
    obtain ⟨v, rfl⟩ := prefix_of_append_blank hlast hb ⟨[], by rw [← hw, append_nil]⟩
    obtain ⟨rfl, -⟩ : v = [] ∧ b = [] := by simpa using hw
    rw [append_nil]
    refine .cut (Scans.alone (z := rest) h ?_) ?_
    · rw [append_nil]
      exact (CutsOff.cut h hc).parted
    · have hnil : endsBefore [] t = true := by
        rcases endsBefore_cases hends with rfl | rfl | rfl <;> rfl
      rw [cutsAfter, (Bool.and_eq_true_iff.1 hc).1, hnil]
      rfl
  | @pass d prev t w rest h hc hw' ih =>
    by_cases hu : u = []
    · subst hu
      exact .done
    have hpre : t <+: u := by
      cases h with
      | word hkw =>
        refine prefix_of_append_blank ?_ hb ⟨w, hw⟩
        exact (by decide : ∀ kw ∈ blockWords, ∀ c ∈ kw.getLast?, isBlank c = false) _ hkw
      | char =>
        obtain ⟨c, u, rfl⟩ := exists_cons_of_ne_nil hu
        obtain ⟨rfl, -⟩ := List.cons.inj hw
        exact prefix_append [_] u
    obtain ⟨u, rfl⟩ := hpre
    obtain rfl : w = u ++ b := by simpa using hw
    have hparted : Parted (t ++ u).getLast? (b ++ rest) := by
      cases b with
      | nil =>
        rw [append_nil] at h hc hw'
        exact (CutsOff.pass h hc hw').parted
      | cons c b => exact fun _ => isAlphanumeric_of_isBlank (hb c mem_cons_self)
    refine .pass (w := u) ?_ ?_ (ih rfl)
    · rw [append_nil]
      exact Scans.alone (by rwa [← append_assoc]) hparted
    · rw [append_nil]
      cases houter : (d.read t).isOuter with
      | false => rw [cutsAfter, houter]; rfl
      | true =>
        rw [cutsAfter, houter, Bool.true_and] at hc ⊢
        exact endsBefore_mono (fun he => elseFollows_of_append_blank hb (hw'.elseFollows he))
          (fun he => elseFollowsBlock_of_append_blank hb (hw'.elseFollowsBlock he)) hc

theorem CutsOff.first (h : CutsOff d prev w rest)
    (hp : Parted prev (w ++ rest)) : CutsOff d none w rest := by
  cases h with
  | done => exact .done
  | cut h hc => exact .cut (h.first hp) hc
  | pass h hc hw => exact .pass (h.first (by rwa [← append_assoc])) hc hw

/-! ## The whole body -/

/-- The text consists of the pieces, with blanks before, between and after them. -/
def ConsistsOf (cs : List Char) (pieces : List String) : Prop :=
  ∃ (b : List Char) (gaps : List (List Char)), gaps.length = pieces.length ∧
    Blank b ∧ (∀ gap ∈ gaps, Blank gap) ∧
    cs = b ++ (List.zipWith (fun s gap => s.toList ++ gap) pieces gaps).flatten

theorem consistsOf_nil : ConsistsOf [] [] := ⟨[], [], rfl, blank_nil, by simp, rfl⟩

theorem ConsistsOf.blank {pieces : List String} (h : ConsistsOf cs pieces)
    (hb : Blank b) : ConsistsOf (b ++ cs) pieces := by
  obtain ⟨b', gaps, hlen, hb', hgaps, rfl⟩ := h
  exact ⟨b ++ b', gaps, hlen, forall_mem_append.2 ⟨hb, hb'⟩, hgaps, by simp⟩

theorem ConsistsOf.cons {pieces : List String} (h : ConsistsOf cs pieces) (s : String) :
    ConsistsOf (s.toList ++ cs) (s :: pieces) := by
  obtain ⟨b, gaps, hlen, hb, hgaps, rfl⟩ := h
  exact ⟨[], b :: gaps, by simp [hlen], blank_nil, forall_mem_cons.2 ⟨hb, hgaps⟩,
    by simp⟩

/-- A statement that the splitter leaves whole. -/
structure Whole (s : String) : Prop where
  ne_empty : s ≠ ""
  trim : Trim s.toList
  split : Stmt.split s = [s]

theorem whole_of_cutsOff (hne : u ≠ []) (htrim : Trim u) (h : CutsOff {} none u []) :
    Whole (String.ofList u) := by
  have hempty : (String.ofList u).isEmpty = false := by simp [hne]
  refine ⟨fun he => ?_, by rwa [String.toList_ofList], ?_⟩
  · rw [he] at hempty
    cases hempty
  · have hrun := splitFrom_cutsOff h []
    have hnil : splitFrom {} [] u.getLast? [] = [] := by rw [splitFrom]; rfl
    rw [append_nil, hnil, append_nil, finish, reverse_reverse, strip_of_trim htrim]
      at hrun
    rw [Stmt.split, String.toList_ofList, hrun, hempty]
    rfl

theorem CutsOff.whole {a : List Char}
    (h : CutsOff {} prev (a ++ (u ++ b)) rest) (hp : Parted prev (a ++ (u ++ b) ++ rest))
    (ha : Blank a) (hb : Blank b) (hne : u ≠ []) (htrim : Trim u) : Whole (String.ofList u) := by
  have halone := h.alone (u := a ++ u) (by simp) hb
  obtain ⟨v, hv, -, hfirst⟩ := halone.after_blank ha (append_nil _)
  obtain rfl := append_cancel_left hv
  refine whole_of_cutsOff hne htrim (hfirst.first ?_)
  cases a using List.reverseRecOn with
  | nil =>
    obtain ⟨c, u, rfl⟩ := exists_cons_of_ne_nil hne
    exact hp
  | append_singleton a c =>
    intro hlast
    have hc := isAlphanumeric_of_isBlank (ha c (by simp))
    simp [hc] at hlast

theorem splitFrom_consistsOf (cs : List Char) (hp : Parted prev cs) :
    ConsistsOf cs (splitFrom {} [] prev cs) ∧ ∀ s ∈ splitFrom {} [] prev cs, Whole s := by
  induction hlen : cs.length using Nat.strongRecOn generalizing prev cs with
  | ind n ih =>
    obtain ⟨w, rest, rfl, hw⟩ := exists_cutsOff {} prev cs
    by_cases hnil : w = []
    · subst hnil
      rw [hw.rest_of_nil, append_nil, splitFrom]
      exact ⟨consistsOf_nil, by simp [finish, strip, dropEnds, dropTail]⟩
    have hshort : rest.length < n := by
      have := length_pos_iff.2 hnil
      rw [length_append] at hlen
      omega
    obtain ⟨hconsists, hwhole⟩ := ih _ hshort rest hw.parted rfl
    have hstrip : strip (String.ofList w) = String.ofList (dropEnds isBlank w) := by
      rw [strip, String.toList_ofList]
    rw [splitFrom_cutsOff hw, append_nil, finish, reverse_reverse, hstrip]
    obtain ⟨a, b, heq, ha, hb⟩ := exists_dropEnds isBlank w
    generalize hu : dropEnds isBlank w = u at heq
    have htrim : Trim u := hu ▸ trim_dropEnds w
    subst heq
    by_cases hempty : u = []
    · subst hempty
      have hblank : Blank (a ++ ([] ++ b)) := forall_mem_append.2 ⟨ha, by simpa using hb⟩
      exact ⟨hconsists.blank hblank, hwhole⟩
    · rw [if_neg (by simp [hempty])]
      refine ⟨?_, forall_mem_cons.2 ⟨hw.whole hp ha hb hempty htrim, hwhole⟩⟩
      have hcons := ((hconsists.blank hb).cons (String.ofList u)).blank ha
      simpa using hcons

/-- Splitting loses nothing but blanks, and a piece that is split again stays whole. -/
theorem split_consistsOf_whole (body : String) :
    ConsistsOf body.toList (split body) ∧ ∀ s ∈ split body, Whole s :=
  splitFrom_consistsOf body.toList fun h => by cases h

end Stimulus.Stmt
