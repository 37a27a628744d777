import Stimulus.Proofs.Pattern.Replace

/-!
# Words and marks

A text cut into its whole words and the single characters between them. Replacing whole words acts
on the cut text word by word.
-/

open List

namespace Stimulus.Text

open Pattern

/-- A whole word, or a character between words. -/
inductive Chunk where
  | word (w : List Char)
  | mark (c : Char)
deriving DecidableEq, Repr

/-- The characters of a chunk. -/
def Chunk.chars : Chunk → List Char
  | word w => w
  | mark c => [c]

def spell (ks : List Chunk) : List Char := ks.flatMap Chunk.chars

@[simp] theorem spell_nil : spell [] = [] := rfl

@[simp] theorem spell_word (w : List Char) (ks : List Chunk) :
    spell (.word w :: ks) = w ++ spell ks := rfl

@[simp] theorem spell_mark (c : Char) (ks : List Chunk) :
    spell (.mark c :: ks) = c :: spell ks := rfl

@[simp] theorem spell_append (ks ls : List Chunk) : spell (ks ++ ls) = spell ks ++ spell ls := by
  simp [spell]

variable {ks ls : List Chunk} {w v : List Char} {dot : Bool}

theorem spell_infix (h : ks <:+: ls) : spell ks <:+: spell ls := by
  obtain ⟨a, b, rfl⟩ := h
  exact ⟨spell a, spell b, by simp⟩

theorem spell_flatMap {α : Type} (f : α → List Chunk) (xs : List α) :
    spell (xs.flatMap f) = xs.flatMap fun x => spell (f x) := by
  simp only [spell, flatMap_assoc]

/-- The characters between words, as chunks. -/
def marks (cs : List Char) : List Chunk := cs.map .mark

@[simp] theorem spell_marks (cs : List Char) : spell (marks cs) = cs := by
  induction cs with
  | nil => rfl
  | cons c cs ih =>
    show c :: spell (marks cs) = c :: cs
    rw [ih]

/-- A word: characters of a word, and at least one. -/
structure IsWord (w : List Char) : Prop where
  ne_nil : w ≠ []
  chars : ∀ c ∈ w, isWordChar c = true

theorem IsWord.bounded_not {z : List Char} (hw : IsWord w) : ¬ Bounded (w ++ z) := by
  obtain ⟨c, w', rfl⟩ := exists_cons_of_ne_nil hw.ne_nil
  intro h
  have := hw.chars c mem_cons_self
  rw [bounded_cons.1 h] at this
  cases this

def WellCut : List Chunk → Prop
  | [] => True
  | .word w :: ks => IsWord w ∧ Bounded (spell ks) ∧ WellCut ks
  | .mark c :: ks => isWordChar c = false ∧ WellCut ks

theorem wellCut_append (hk : WellCut ks) (hl : WellCut ls)
    (hb : ∀ w, ks.getLast? = some (.word w) → Bounded (spell ls)) : WellCut (ks ++ ls) := by
  induction ks with
  | nil => exact hl
  | cons k ks ih =>
    cases k with
    | mark c =>
      refine ⟨hk.1, ih hk.2 fun w hw => hb w ?_⟩
      rw [getLast?_cons, hw]
      rfl
    | word w =>
      refine ⟨hk.1, ?_, ih hk.2.2 fun v hv => hb v ?_⟩
      · cases ks with
        | nil => exact hb w rfl
        | cons k' ks' =>
          have := hk.2.1
          cases k' with
          | mark d => simpa [Bounded] using this
          | word v => exact absurd this (hk.2.2.1.bounded_not)
      · rw [getLast?_cons, hv]
        rfl

theorem wellCut_marks {cs : List Char} (h : ∀ c ∈ cs, isWordChar c = false)
    (hk : WellCut ks) : WellCut (marks cs ++ ks) := by
  induction cs with
  | nil => exact hk
  | cons c cs ih =>
    exact ⟨h c mem_cons_self, ih fun d hd => h d (mem_cons_of_mem _ hd)⟩

/-! ## Replacing words -/

/-- The next chunk is a dot. -/
def dotNext : List Chunk → Bool
  | .mark '.' :: _ => true
  | _ => false

theorem head?_spell_eq_dot (h : WellCut ks) : ((spell ks).head? == some '.') = dotNext ks := by
  cases ks with
  | nil => rfl
  | cons k ks =>
    cases k with
    | mark c =>
      unfold dotNext
      split
      · next heq => cases heq; rfl
      · next hne =>
        have : c ≠ '.' := fun hc => hne ks (by rw [hc])
        simpa using this
    | word w =>
      obtain ⟨c, w', rfl⟩ := exists_cons_of_ne_nil h.1.ne_nil
      have hc := h.1.chars c mem_cons_self
      have : c ≠ '.' := by rintro rfl; revert hc; decide
      simpa [dotNext] using this

/-- Puts an owner and a dot before words. `owner?` is told whether a dot stands before the word
already, and whether one stands after it. -/
def withOwners (owner? : Bool → List Char → Bool → Option (List Char)) :
    Bool → List Chunk → List Chunk
  | _, [] => []
  | dot, .word w :: ks =>
    match owner? dot w (dotNext ks) with
    | some a => .word a :: .mark '.' :: .word w :: withOwners owner? false ks
    | none => .word w :: withOwners owner? false ks
  | _, .mark c :: ks => .mark c :: withOwners owner? (c == '.') ks

/-- Whether the text before a place, nearest character first, ends in a dot. -/
def endsInDot (before : List Char) : Bool := before.head? == some '.'

section Owners

variable {owner? : Bool → List Char → Bool → Option (List Char)}

theorem bounded_withOwners (hk : WellCut ks)
    (h : Bounded (spell ks)) : Bounded (spell (withOwners owner? dot ks)) := by
  cases ks with
  | nil => exact bounded_nil
  | cons k ks =>
    cases k with
    | mark c => exact bounded_cons.2 hk.1
    | word w => exact absurd h hk.1.bounded_not

theorem wellCut_withOwners (howner : ∀ d w n a, owner? d w n = some a → IsWord a)
    (hk : WellCut ks) : WellCut (withOwners owner? dot ks) := by
  induction ks generalizing dot with
  | nil => trivial
  | cons k ks ih =>
    cases k with
    | mark c => exact ⟨hk.1, ih hk.2⟩
    | word w =>
      have hrest : WellCut (.word w :: withOwners owner? false ks) :=
        ⟨hk.1, bounded_withOwners hk.2.2 hk.2.1, ih hk.2.2⟩
      rw [withOwners]
      split
      · next a ha => exact ⟨howner _ _ _ a ha, bounded_cons.2 (by decide), by decide, hrest⟩
      · exact hrest

private theorem withOwners_marks (dot : Bool) (cs : List Char) (ks : List Chunk) :
    ∃ d, withOwners owner? dot (marks cs ++ ks) = marks cs ++ withOwners owner? d ks := by
  induction cs generalizing dot with
  | nil => exact ⟨dot, rfl⟩
  | cons c cs ih =>
    obtain ⟨d, hd⟩ := ih (c == '.')
    exact ⟨d, congrArg (Chunk.mark c :: ·) hd⟩

theorem withOwners_marks_of_not_mem {cs : List Char} (h : '.' ∉ cs) (ks : List Chunk) :
    withOwners owner? false (marks cs ++ ks) = marks cs ++ withOwners owner? false ks := by
  induction cs with
  | nil => rfl
  | cons c cs ih =>
    have hc : (c == '.') = false := by
      simpa using fun hc : c = '.' => h (hc ▸ mem_cons_self)
    show .mark c :: withOwners owner? (c == '.') (marks cs ++ ks) = _
    rw [hc, ih fun hmem => h (mem_cons_of_mem _ hmem)]
    rfl

theorem withOwners_eq_self
    (h : ∀ d w n, .word w ∈ ks → owner? d w n = none) : withOwners owner? dot ks = ks := by
  induction ks generalizing dot with
  | nil => rfl
  | cons k ks ih =>
    have hrest : ∀ dot, withOwners owner? dot ks = ks :=
      fun dot => ih fun d w n hw => h d w n (mem_cons_of_mem _ hw)
    cases k with
    | mark c => exact congrArg _ (hrest _)
    | word w => rw [withOwners, h _ _ _ mem_cons_self, hrest]

theorem infix_withOwners {k : Chunk} {cs : List Char}
    (h : k :: marks cs <:+: ks) : k :: marks cs <:+: withOwners owner? dot ks := by
  induction ks generalizing dot with
  | nil => simp at h
  | cons l ks ih =>
    rcases infix_cons_iff.1 h with ⟨ls, hls⟩ | hrest
    · obtain ⟨rfl, rfl⟩ : k = l ∧ marks cs ++ ls = ks := List.cons.inj hls
      cases k with
      | mark c =>
        obtain ⟨d, hd⟩ := @withOwners_marks owner? (c == '.') cs ls
        exact ⟨[], withOwners owner? d ls, by simpa [withOwners] using hd.symm⟩
      | word w =>
        obtain ⟨d, hd⟩ := @withOwners_marks owner? false cs ls
        rw [withOwners, hd]
        split
        · next a _ => exact ⟨[.word a, .mark '.'], withOwners owner? d ls, by simp⟩
        · exact ⟨[], withOwners owner? d ls, by simp⟩
    · cases l with
      | mark c => exact (ih hrest).trans (suffix_cons _ _).isInfix
      | word w =>
        rw [withOwners]
        split
        · next a _ =>
          exact (ih hrest).trans
            (suffix_append [Chunk.word a, Chunk.mark '.', Chunk.word w] _).isInfix
        · exact (ih hrest).trans (suffix_cons _ _).isInfix

variable {head tail : Char → Bool} {f : Match → String}
  (hhead : ∀ c, head c = true → isWordChar c = true)
  (htail : ∀ c, tail c = true → isWordChar c = true)
  (hf : ∀ before w rest pos, hasShape head tail w = true → (f ⟨before, w, rest, pos, []⟩).toList =
    match owner? (endsInDot before) w (rest.head? == some '.') with
    | some a => a ++ '.' :: w
    | none => w)
  (howner : ∀ d w n, hasShape head tail w = false → owner? d w n = none)

include hhead htail hf howner

private theorem replaceFrom_spell (hk : WellCut ks) {before : List Char} {pos : Nat}
    (hb : Bounded before ∨ Bounded (spell ks)) :
    replaceFrom (wordShape head tail) f before pos (spell ks) =
      spell (withOwners owner? (endsInDot before) ks) := by
  induction ks generalizing before pos with
  | nil => exact replaceFrom_wordShape_nil
  | cons k ks ih =>
    cases k with
    | mark c =>
      rw [spell_mark, replaceFrom_other hhead hk.1, ih hk.2 (.inl (bounded_cons.2 hk.1))]
      rfl
    | word w =>
      obtain ⟨hw, hr, hks⟩ := hk
      have hb' : Bounded before := by
        rcases hb with hb | hb
        · exact hb
        · exact absurd hb hw.bounded_not
      -- The text before the next chunk ends in a character of the word.
      have hdot : endsInDot (w.reverse ++ before) = false := by
        rcases eq_nil_or_concat w with rfl | ⟨v, c, rfl⟩
        · exact absurd rfl hw.ne_nil
        · have hc := hw.chars c (by simp)
          have : c ≠ '.' := by rintro rfl; revert hc; decide
          simpa [endsInDot] using this
      rw [spell_word, replaceFrom_word htail hb' hw.chars hr hw.ne_nil, ih hks (.inr hr), hdot,
        withOwners]
      split
      · next hs =>
        rw [hf _ _ _ _ hs, head?_spell_eq_dot hks]
        split <;> simp
      · next hs =>
        rw [howner _ _ _ (by simpa using hs)]
        simp

theorem replaceAll_spell (hk : WellCut ks) :
    (wordShape head tail).replaceAll f (String.ofList (spell ks)) =
      String.ofList (spell (withOwners owner? false ks)) := by
  rw [replaceAll_eq, String.toList_ofList,
    replaceFrom_spell hhead htail hf howner hk (.inl bounded_nil)]
  rfl

end Owners

/-! ## The words of a text -/

theorem eq_of_word_prefix {x r s : List Char} (hw : IsWord w) (hx : IsWord x)
    (hr : Bounded r) (hs : Bounded s) (h : w ++ r = x ++ s) : w = x ∧ r = s := by
  have hwr := takeWhile_append_stop (z := r) hw.chars hr
  have hxs := takeWhile_append_stop (z := s) hx.chars hs
  rw [h] at hwr
  exact ⟨hwr.1.symm.trans hxs.1, hwr.2.symm.trans hxs.2⟩

/-- Where a whole word stands in a cut text, the word is a chunk; `u` is the text before it. -/
theorem split_spell (hk : WellCut ks) {u : List Char} (hw : IsWord w)
    (hu : Bounded u.reverse) (hv : Bounded v) (h : spell ks = u ++ w ++ v) :
    ∃ ls ms, ks = ls ++ .word w :: ms ∧ spell ls = u ∧ spell ms = v := by
  induction ks generalizing u with
  | nil =>
    have : u ++ w ++ v = [] := h.symm
    simp [hw.ne_nil] at this
  | cons k ks ih =>
    cases k with
    | mark c =>
      cases u with
      | nil =>
        exfalso
        apply hw.bounded_not (z := v)
        rw [nil_append] at h
        rw [← h]
        exact bounded_cons.2 hk.1
      | cons d u =>
        obtain ⟨rfl, hrest⟩ : c = d ∧ spell ks = u ++ w ++ v := List.cons.inj h
        have hu' : Bounded u.reverse := by
          rcases eq_nil_or_concat u with rfl | ⟨u', e, rfl⟩
          · exact bounded_nil
          · simpa [Bounded] using hu
        obtain ⟨ls, ms, rfl, rfl, rfl⟩ := ih hk.2 hu' hrest
        exact ⟨.mark c :: ls, ms, rfl, rfl, rfl⟩
    | word x =>
      obtain ⟨hx, hb, hks⟩ := hk
      by_cases hu0 : u = []
      · subst hu0
        obtain ⟨rfl, hv'⟩ := eq_of_word_prefix hx hw hb hv (by simpa using h)
        exact ⟨[], ks, rfl, rfl, hv'⟩
      · -- The text before `w` ends with no character of a word, so it holds all of `x`.
        obtain ⟨e, u', hu'⟩ : ∃ e u', u = u' ++ [e] := by
          rcases eq_nil_or_concat u with rfl | ⟨u', e, rfl⟩
          · exact absurd rfl hu0
          · exact ⟨e, u', by simp⟩
        have he : isWordChar e = false := by
          rw [hu', reverse_append] at hu
          exact hu e rfl
        have hxu : x <+: u := by
          have h1 : x <+: u ++ w ++ v := ⟨spell ks, by simpa using h⟩
          have h2 : u <+: u ++ w ++ v := ⟨w ++ v, by simp⟩
          rcases Nat.le_total x.length u.length with hle | hle
          · exact prefix_of_prefix_length_le h1 h2 hle
          · have := prefix_of_prefix_length_le h2 h1 hle
            have hmem : e ∈ x := this.subset (by simp [hu'])
            rw [hx.chars e hmem] at he
            cases he
        obtain ⟨y, hy⟩ := hxu
        have hks' : spell ks = y ++ w ++ v := by
          rw [← hy] at h
          simpa using h
        have hyb : Bounded y.reverse := by
          cases hyc : y.reverse with
          | nil => exact bounded_nil
          | cons d y' =>
            rw [← hy, reverse_append, hyc] at hu
            exact bounded_cons.2 (hu d rfl)
        obtain ⟨ls, ms, hls, rfl, rfl⟩ := ih hks hyb hks'
        exact ⟨.word x :: ls, ms, by rw [hls]; rfl, by rw [spell_word, hy], rfl⟩

theorem wellCut_of_append {ms : List Chunk} (h : WellCut (ls ++ ms)) : WellCut ms := by
  induction ls with
  | nil => exact h
  | cons l ls ih =>
    cases l with
    | mark c => exact ih h.2
    | word x => exact ih h.2.2

theorem mark_before_word {ms : List Chunk} (h : WellCut (ls ++ .word w :: ms)) :
    ls = [] ∨ ∃ ls' c, ls = ls' ++ [.mark c] ∧ isWordChar c = false := by
  rcases eq_nil_or_concat ls with rfl | ⟨ls', k, rfl⟩
  · exact .inl rfl
  · rw [concat_eq_append, append_assoc] at h
    have hk := wellCut_of_append h
    cases k with
    | mark c => exact .inr ⟨ls', c, by simp, hk.1⟩
    | word x => exact absurd hk.2.1 hk.2.2.1.bounded_not

theorem dotted_of_spell (hk : WellCut ks) {u : List Char} (hw : IsWord w)
    (hv : Bounded v) (h : spell ks = u ++ '.' :: w ++ v) : [.mark '.', .word w] <:+: ks := by
  obtain ⟨ls, ms, rfl, hls, -⟩ := split_spell (u := u ++ ['.']) hk hw
    (by simpa using bounded_cons.2 (by decide)) hv (by simpa using h)
  rcases mark_before_word hk with rfl | ⟨ls', c, rfl, -⟩
  · simp at hls
  · obtain ⟨-, rfl⟩ : spell ls' = u ∧ c = '.' := by simpa using hls
    exact ⟨ls', ms, by simp⟩

/-- The word `v` does not stand after a dot; `dot` says whether one stands before the chunks. -/
def NotDotted (v : List Char) : Bool → List Chunk → Prop
  | _, [] => True
  | dot, .word w :: ks => (dot = true → w ≠ v) ∧ NotDotted v false ks
  | _, .mark c :: ks => NotDotted v (c == '.') ks

theorem NotDotted.not_infix (h : NotDotted v dot ks) : ¬ [.mark '.', .word v] <:+: ks := by
  induction ks generalizing dot with
  | nil => simp
  | cons k ks ih =>
    rw [infix_cons_iff]
    rintro (⟨ls, hls⟩ | hin)
    · obtain ⟨rfl, rfl⟩ := List.cons.inj hls
      exact h.1 rfl rfl
    · cases k with
      | mark c => exact ih h hin
      | word w => exact ih h.2 hin

theorem NotDotted.withOwners
    (h : NotDotted v dot ks) {owner? : Bool → List Char → Bool → Option (List Char)}
    (howner : ∀ d w n a, owner? d w n = some a → d = false ∧ w ≠ v) :
    NotDotted v dot (Text.withOwners owner? dot ks) := by
  induction ks generalizing dot with
  | nil => trivial
  | cons k ks ih =>
    cases k with
    | mark c => exact ih h
    | word w =>
      rw [Text.withOwners]
      split
      · next a ha =>
        obtain ⟨rfl, hw⟩ := howner _ _ _ a ha
        exact ⟨by simp, fun _ => hw, ih h.2⟩
      · exact ⟨h.1, ih h.2⟩

/-- The word `v` does not stand after a dot, and would not in what follows the chunks. -/
structure Undotted (v : List Char) (ks : List Chunk) : Prop where
  inner : NotDotted v false ks
  last : ks.getLast? ≠ some (.mark '.')

theorem Undotted.append (hk : Undotted v ks) (hl : Undotted v ls) : Undotted v (ks ++ ls) := by
  have hinner : ∀ dot, NotDotted v dot ks → ks ≠ [] ∨ dot = false →
      ks.getLast? ≠ some (.mark '.') → NotDotted v dot (ks ++ ls) := by
    clear hk
    intro dot hk hdot hlast
    induction ks generalizing dot with
    | nil =>
      obtain rfl : dot = false := by simpa using hdot
      exact hl.inner
    | cons k ks ih =>
      have hrest : ks ≠ [] → ks.getLast? ≠ some (.mark '.') := by
        intro hne
        rwa [getLast?_cons_of_ne_nil hne] at hlast
      cases k with
      | word w =>
        refine ⟨hk.1, ih false hk.2 (.inr rfl) ?_⟩
        by_cases hne : ks = []
        · simp [hne]
        · exact hrest hne
      | mark c =>
        by_cases hne : ks = []
        · subst hne
          have hc : (c == '.') = false := by simpa using hlast
          show NotDotted v (c == '.') ls
          rw [hc]
          exact hl.inner
        · exact ih _ hk (.inl hne) (hrest hne)
  refine ⟨hinner false hk.inner (.inr rfl) hk.last, ?_⟩
  rw [getLast?_append]
  cases h : ls.getLast? with
  | none => simpa using hk.last
  | some k => simpa [h] using hl.last

theorem undotted_of_forall (h : ∀ c, .mark c ∈ ks → c ≠ '.') : Undotted v ks := by
  refine ⟨?_, fun hlast => h '.' (mem_of_getLast? hlast) rfl⟩
  induction ks with
  | nil => trivial
  | cons k ks ih =>
    have hks := ih fun c hc => h c (mem_cons_of_mem _ hc)
    cases k with
    | word w => exact ⟨by simp, hks⟩
    | mark c =>
      have hc : (c == '.') = false := by simpa using h c mem_cons_self
      show NotDotted v (c == '.') ks
      rwa [hc]

theorem undotted_marks (h : '.' ∉ w) : Undotted v (marks w) := by
  refine undotted_of_forall fun c hc => ?_
  rintro rfl
  obtain ⟨d, hd, hd'⟩ := mem_map.1 hc
  cases hd'
  exact h hd

end Stimulus.Text
