import Stimulus.Proofs.Expr.Names
import Stimulus.Proofs.Expr.Logic

/-!
# Value sets of an expression

* `rangeList_entries`, `rangeList_words`: a value set becomes the arguments of a range list.
* `walk_insideSet`: how a value set is read.
* `insideCalls_text`: the memberships of an expression, and nothing else, change.
-/

open List
open String (ofList toList_ofList)

namespace Stimulus.Expr

open Pattern Text Sv

/-! ## Values and ranges of values

The readers of a value set only need to know that a value has no marks of the set in it. So what is
said of value sets holds for any values that have texts.
-/

/-- The text of a value: a number, which may have a size, or a name. -/
structure IsValue (w : List Char) : Prop where
  ne_nil : w ≠ []
  chars : ∀ c ∈ w, nameTail c = true ∨ c = '\''

variable {c : Char} {k : Spot → Option Spot} {n : Nat} {rest : List Char} {s : Spot}

section IsValue

variable {w : List Char}

theorem IsValue.not_mem (h : IsValue w) (hc : nameTail c = false) (hq : c ≠ '\'') : c ∉ w :=
  fun hmem => (h.chars c hmem).elim (by simp [hc]) hq

theorem IsValue.trim (h : IsValue w) : Trim w := by
  have hblank (c : Char) (hc : c ∈ w) : isBlank c = false := by
    rcases h.chars c hc with hc | rfl
    · exact isBlank_of_nameTail hc
    · decide
  exact ⟨fun c hc => hblank c (mem_of_mem_head? hc), fun c hc => hblank c (mem_of_mem_getLast? hc)⟩

theorem isValue_of_isPlain (h : IsPlain w) : IsValue w :=
  ⟨h.ne_nil, fun c hc => .inl (h.chars c hc)⟩

end IsValue

/-- A value, or a range of values. -/
inductive Entry (α : Type) where
  | one (v : α)
  | span (low high : α)

/-- The text of an entry. -/
def Entry.text {α : Type} (text : α → List Char) : Entry α → List Char
  | one v => text v
  | span low high => '[' :: text low ++ ':' :: text high ++ [']']

/-- The text of entries, with commas between them. -/
def entriesText {α : Type} (text : α → List Char) (first : Entry α) (more : List (Entry α)) : List Char :=
  first.text text ++ more.flatMap fun e => ',' :: ' ' :: e.text text

/-- What the solver gets for an entry. -/
def Entry.code {α : Type} (scope : Scope) (text : α → List Char) : Entry α → String
  | one v => setValue scope (ofList (text v))
  | span low high =>
    s!"vsc.rng({setValue scope (ofList (text low))}, {setValue scope (ofList (text high))})"

theorem atStart?_valueRange {low high : List Char} (hlow : IsValue low) (hhigh : IsValue high) :
    valueRange.atStart? (ofList ('[' :: low ++ ':' :: high ++ [']'])) =
      some ⟨[], '[' :: low ++ ':' :: high ++ [']'], [], 0,
        [(2, ⟨high ++ [']'], high.length⟩), (1, ⟨low ++ ':' :: high ++ [']'], low.length⟩)]⟩ := by
  have hline {v : List Char} (hv : IsValue v) : ∀ c ∈ v, notNewline c = true := by
    intro c hc
    have : '\n' ∉ v := hv.not_mem (by decide) (by decide)
    simpa [notNewline] using fun h : c = '\n' => this (h ▸ hc)
  have hpos {v : List Char} (hv : IsValue v) : 1 ≤ v.length := length_pos_iff.2 hv.ne_nil
  have hstop : ∀ (t : Spot) (c : Char) (u : String) (k : Spot → Option Spot), u.toList = [c] →
      t.after.head? ≠ some c → walk (lit u) t k = none := by
    intro t c u k hu ht
    refine walk_lit_none ?_
    rw [hu]
    rintro ⟨r, hr⟩
    exact ht (by rw [← hr]; rfl)
  have h := @atStart?_of_walk valueRange ('[' :: low ++ ':' :: high ++ [']']) []
  rw [append_nil] at h
  apply h
  rw [valueRange, walk_append, walk_append, walk_append, walk_append,
    walk_lit (z := low ++ ':' :: high ++ [']']) (by simp [Spot.start]), walk_group, someLazy]
  refine walk_creep_char (c := ':') (z := high ++ [']']) (by simp) (hline hlow) (hpos hlow)
    (hlow.not_mem (by decide) (by decide)) ?_ fun t ht => hstop _ ':' _ _ rfl ht
  rw [walk_lit (z := high ++ [']']) (by simp [Spot.keep]), walk_group]
  refine walk_creep_char (c := ']') (z := []) (by simp) (hline hhigh) (hpos hhigh)
    (hhigh.not_mem (by decide) (by decide)) ?_ fun t ht => hstop _ ']' _ _ rfl ht
  rw [walk_lit (z := []) (by simp [Spot.keep])]
  simp [Spot.keep, Spot.pass, Spot.start]
  omega

section Entries

variable {α : Type} {text : α → List Char} (ht : ∀ v, IsValue (text v))
include ht

theorem valueOrRange_entry (scope : Scope) (e : Entry α) :
    valueOrRange scope (ofList (e.text text)) = e.code scope text := by
  cases e with
  | one v =>
    have hnone : valueRange.atStart? (ofList (text v)) = none := by
      refine atStart?_eq_none fun w hw hpre => ?_
      have hmem : '[' ∈ text v :=
        hpre.subset ((needs_lit (t := "[") (by decide)).left.left.left.left w hw)
      exact (ht v).not_mem (by decide) (by decide) hmem
    simp only [Entry.text, valueOrRange, hnone, Entry.code]
  | span low high =>
    simp only [Entry.text, valueOrRange, atStart?_valueRange (ht low) (ht high)]
    rw [← String.toList_inj]
    simp [Match.group, Match.group?, Piece.chars, strip_of_trim (ht low).trim,
      strip_of_trim (ht high).trim, Entry.code, toString]

omit ht in
private theorem setItemsFrom_append {depth : Int} {item w cs : List Char}
    (h : ∀ c ∈ w, c ≠ '[' ∧ c ≠ ']' ∧ c ≠ ',') :
    setItemsFrom depth item (w ++ cs) = setItemsFrom depth (w.reverse ++ item) cs := by
  induction w generalizing item with
  | nil => rfl
  | cons c w ih =>
    have hc := h c mem_cons_self
    rw [cons_append, setItemsFrom, if_neg hc.1, if_neg hc.2.1, if_neg (by simp [hc.2.2]),
      ih fun d hd => h d (mem_cons_of_mem _ hd)]
    simp

private theorem setItemsFrom_entry (e : Entry α) {item cs : List Char} :
    setItemsFrom 0 item (e.text text ++ cs) = setItemsFrom 0 ((e.text text).reverse ++ item) cs := by
  have hval (v : α) : ∀ c ∈ text v, c ≠ '[' ∧ c ≠ ']' ∧ c ≠ ',' := by
    intro c hc
    refine ⟨?_, ?_, ?_⟩ <;> rintro rfl <;> exact (ht v).not_mem (by decide) (by decide) hc
  cases e with
  | one v => exact setItemsFrom_append (hval v)
  | span low high =>
    have hinner : ∀ c ∈ text low ++ ':' :: text high, c ≠ '[' ∧ c ≠ ']' ∧ c ≠ ',' := by
      intro c hc
      simp only [mem_append, mem_cons] at hc
      rcases hc with hc | rfl | hc
      · exact hval low c hc
      · decide
      · exact hval high c hc
    have hcut : Entry.text text (.span low high) ++ cs =
        '[' :: (text low ++ ':' :: text high ++ ']' :: cs) := by simp [Entry.text]
    rw [hcut, setItemsFrom, if_pos rfl, setItemsFrom_append hinner]
    simp [setItemsFrom, Entry.text]

theorem trim_entry (e : Entry α) : Trim (e.text text) := by
  cases e with
  | one v => exact (ht v).trim
  | span low high =>
    have := trim_of_ends (a := '[') (b := ']') (w := text low ++ ':' :: text high) (by decide) (by decide)
    simpa [Entry.text] using this

theorem entry_ne_nil (e : Entry α) : e.text text ≠ [] := by
  cases e with
  | one v => exact (ht v).ne_nil
  | span low high => simp [Entry.text]

private theorem strip_collected (e : Entry α) {item : List Char} (h : Blank item) :
    Text.strip (ofList ((e.text text).reverse ++ item).reverse) = ofList (e.text text) := by
  have hitem : Blank item.reverse := by simpa [Blank] using h
  rw [reverse_append, reverse_reverse, strip_left hitem (trim_entry ht e)]

theorem setItems_entries (first : Entry α) (more : List (Entry α)) :
    setItems (ofList (entriesText text first more)) =
      (first :: more).map fun e => ofList (e.text text) := by
  have hrun : ∀ item : List Char, Blank item → setItemsFrom 0 item (entriesText text first more) =
      (first :: more).map fun e => ofList (e.text text) := by
    induction more generalizing first with
    | nil =>
      intro item hitem
      have hempty : (ofList (first.text text)).isEmpty = false := by
        simpa using entry_ne_nil ht first
      rw [entriesText, flatMap_nil, setItemsFrom_entry ht, setItemsFrom]
      simp only [strip_collected ht first hitem, hempty]
      rfl
    | cons e more ih =>
      intro item hitem
      have hcut : entriesText text first (e :: more) =
          first.text text ++ ',' :: ' ' :: entriesText text e more := by simp [entriesText]
      rw [hcut, setItemsFrom_entry ht, setItemsFrom, if_neg (by decide), if_neg (by decide),
        if_pos ⟨rfl, rfl⟩, strip_collected ht first hitem, map_cons, ← ih e [' '] (by decide)]
      rfl
  rw [setItems, toList_ofList]
  exact hrun [] blank_nil

theorem rangeList_entries (scope : Scope) (first : Entry α) (more : List (Entry α)) :
    rangeList scope (ofList (entriesText text first more)) =
      join ", " ((first :: more).map (Entry.code scope text)) := by
  rw [rangeList, setItems_entries ht, map_map]
  congr 1
  exact map_congr_left fun e _ => valueOrRange_entry ht scope e

end Entries

/-! ## Range lists of plain words -/

/-- A word that stands for a value. -/
structure Word where
  chars : List Char
  isPlain : IsPlain chars

/-- The solver's chunks of a value. -/
def valueChunks (scope : Scope) (v : Word) : List Chunk :=
  withOwners (memberOwner? scope) false [.word v.chars]

/-- The solver's chunks of an item. -/
def rangeChunks (scope : Scope) : Entry Word → List Chunk
  | .one v => valueChunks scope v
  | .span low high =>
    .word "vsc".toList :: .mark '.' :: .word "rng".toList :: .mark '('
      :: valueChunks scope low ++ marks [',', ' '] ++ valueChunks scope high ++ [.mark ')']

/-- The solver's chunks of items with commas between them. -/
def rangeListChunks (scope : Scope) (first : Entry Word) (more : List (Entry Word)) : List Chunk :=
  listed (rangeChunks scope) first more

theorem setValue_ofList (scope : Scope) (v : Word) :
    setValue scope (ofList v.chars) = ofList (spell (valueChunks scope v)) := by
  have hk : WellCut [.word v.chars] := ⟨v.isPlain.isWord, bounded_nil, trivial⟩
  rw [setValue, plainNumbers_of_not_mem (v.isPlain.not_mem (by decide)), valueChunks,
    ← qualified_spell scope hk, spell_word, spell_nil, append_nil]

theorem code_word (scope : Scope) (e : Entry Word) :
    e.code scope Word.chars = ofList (spell (rangeChunks scope e)) := by
  cases e with
  | one v => exact setValue_ofList scope v
  | span low high =>
    rw [← String.toList_inj]
    simp [Entry.code, setValue_ofList, rangeChunks, toString]

theorem rangeList_words (scope : Scope) (first : Entry Word) (more : List (Entry Word)) :
    rangeList scope (ofList (entriesText Word.chars first more)) =
      ofList (spell (rangeListChunks scope first more)) := by
  have hcode : Entry.code scope Word.chars = ofList ∘ fun e => spell (rangeChunks scope e) :=
    funext (code_word scope)
  rw [rangeList_entries fun v => isValue_of_isPlain v.isPlain, hcode, ← map_map, map_cons, join_ofList,
    flatMap_map, rangeListChunks, listed, spell_append, spell_flatMap]
  simp

/-! ### Items -/

/-- The item with its values as words. -/
def entryOf : Item → Entry Word
  | .one v => .one ⟨v.chars, v.isPlain⟩
  | .span low high => .span ⟨low.chars, low.isPlain⟩ ⟨high.chars, high.isPlain⟩

theorem text_entryOf (i : Item) : (entryOf i).text Word.chars = spell i.chunks := by
  cases i <;> simp [entryOf, Entry.text, Item.chunks]

theorem entriesText_entryOf (first : Item) (more : List Item) :
    entriesText Word.chars (entryOf first) (more.map entryOf) = spell (itemChunks first more) := by
  simp [entriesText, itemChunks, listed, spell_flatMap, text_entryOf, flatMap_map]

/-! ## Memberships -/

/-- A blank follows, and then the word `inside`. -/
def InsideNext (cs : List Char) : Prop :=
  (∃ c ∈ cs.head?, isBlank c = true) ∧ "inside".toList <+: cs.dropWhile isBlank

theorem insideNext_of_start {b cs : List Char} (hb : Blank b) (hne : b ≠ [])
    (h : b ++ "inside".toList <+: cs) : InsideNext cs := by
  obtain ⟨r, rfl⟩ := h
  obtain ⟨c, b, rfl⟩ := exists_cons_of_ne_nil hne
  refine ⟨⟨c, rfl, hb c mem_cons_self⟩, r, ?_⟩
  rw [append_assoc, dropWhile_blank_append hb]
  rfl

theorem not_insideNext_of_head {cs : List Char} (h : ∀ c ∈ cs.head?, isBlank c = false) :
    ¬ InsideNext cs := by
  rintro ⟨⟨c, hc, hblank⟩, -⟩
  simp [h c hc] at hblank

theorem not_insideNext_of_mark {b cs : List Char} (hb : Blank b)
    (hc : isBlank c = false) (hi : c ≠ 'i') : ¬ InsideNext (b ++ c :: cs) := by
  rintro ⟨-, r, hr⟩
  rw [dropWhile_gap hb (by simpa using hc)] at hr
  exact hi (List.cons.inj hr).1.symm

theorem not_insideNext_joint {cs ds : List Char} (h : IsJoint cs) :
    ¬ InsideNext (cs ++ ds) := by
  obtain ⟨b, c, r, rfl, -, hb, hc⟩ := h.sign
  have hblank : Blank b := fun d hd => by rw [hb d hd]; decide
  rw [append_assoc]
  rcases hc with rfl | rfl <;> exact not_insideNext_of_mark hblank (by decide) (by decide)

theorem not_insideNext_text (j : Joints) (ls : List Lexeme) :
    ¬ InsideNext (spell (textWith j ls)) := by
  cases ls with
  | nil => exact not_insideNext_of_head (by simp)
  | cons l ls =>
    rw [textWith_cons, spell_append]
    cases hl : l.isAtom with
    | true =>
      obtain ⟨c, cs, hc, hhead⟩ := l.exists_head_of_isAtom j hl
      rw [hc]
      refine not_insideNext_of_head fun d hd => ?_
      obtain rfl : c = d := by simpa using hd
      exact isBlank_of_nameTail (nameTail_of_nameHead hhead)
    | false =>
      cases l with
      | compare | member => cases hl
      | and =>
        rw [Lexeme.chunks, spell_marks]
        exact not_insideNext_joint j.isJoint_conj
      | or =>
        rw [Lexeme.chunks, spell_marks]
        exact not_insideNext_joint j.isJoint_disj
      | arrow =>
        exact not_insideNext_of_mark (b := [' ']) (c := '-') (by decide) (by decide)
          (by decide)
      | opening | closing => exact not_insideNext_of_head (by simp [Lexeme.chunks]; decide)

/-! ### Reading a value set -/

theorem walk_insideSet {r : Spot} {items : List Char}
    (h : s.after = "inside \x7b".toList ++ items ++ '}' :: rest) (hi : '}' ∉ items)
    (hne : items ≠ [])
    (hk : k { s.pass ("inside \x7b".toList ++ items ++ ['}']) rest with
      kept := (n, ⟨items ++ '}' :: rest, items.length⟩) :: s.kept } = some r) :
    walk (insideSet n) s k = some r := by
  rw [insideSet, walk_append, walk_append, walk_append, walk_append,
    walk_lit (z := " \x7b".toList ++ items ++ '}' :: rest) (by simpa using h)]
  refine walk_run (w := [' ']) (z := '{' :: items ++ '}' :: rest) (by simp) (by decide)
    (by simp; decide) (by simp) ?_
  rw [walk_lit (z := items ++ '}' :: rest) (by simp), walk_group]
  refine walk_run (w := items) (z := '}' :: rest) (by simp) ?_ (by simp)
    (length_pos_iff.2 hne) ?_
  · intro c hc
    simpa using fun h : c = '}' => hi (h ▸ hc)
  · rw [walk_lit (z := rest) (by simp [Spot.keep]), ← hk]
    simp only [Spot.keep, Spot.pass]
    congr 2
    · simp
    · simp
      omega
    · simp

theorem walk_member {i : Nat} {r : Spot} {x items : List Char}
    (h : s.after = x ++ " inside \x7b".toList ++ items ++ '}' :: rest) (hx : IsPlain x)
    (hi : '}' ∉ items) (hne : items ≠ [])
    (hk : k { s.pass (x ++ " inside \x7b".toList ++ items ++ ['}']) rest with
      kept := (i, ⟨items ++ '}' :: rest, items.length⟩) :: (n, ⟨s.after, x.length⟩) :: s.kept } =
        some r) :
    walk (group n word) s (fun t => walk blanks1 t fun t => walk (insideSet i) t k) = some r := by
  rw [walk_group, word]
  refine walk_run (w := x) (z := " inside \x7b".toList ++ items ++ '}' :: rest) (by simpa using h)
    hx.isWord.chars (by simp; decide) (length_pos_iff.2 hx.ne_nil) ?_
  refine walk_run (w := [' ']) (z := "inside \x7b".toList ++ items ++ '}' :: rest)
    (by simp [Spot.keep]) (by decide) (by simp; decide) (by simp) ?_
  refine @walk_insideSet _ _ rest _ _ items (by simp [Spot.keep]) hi hne ?_
  rw [← hk]
  simp only [Spot.keep, Spot.pass]
  congr 2
  · simp
  · simp
    omega
  · simp

/-- Word characters, blanks and `inside` at the start of a text that starts with a word: the word
ends where the blanks start. -/
theorem insideNext_of_word {w x b v : List Char} (hw : ∀ c ∈ w, nameTail c = true)
    (hr : Bounded rest) (hx : ∀ c ∈ x, isWordChar c = true) (hb : Blank b) (hne : b ≠ [])
    (h : x ++ (b ++ ("inside".toList ++ v)) <+: w ++ rest) : InsideNext rest := by
  obtain ⟨z, hz⟩ := h
  rw [append_assoc] at hz
  rcases append_eq_append_iff.1 hz with ⟨t, rfl, ht⟩ | ⟨t, rfl, ht⟩
  · cases t with
    | nil => exact insideNext_of_start hb hne ⟨v ++ z, by simpa using ht⟩
    | cons c t =>
      obtain ⟨d, b, rfl⟩ := exists_cons_of_ne_nil hne
      obtain ⟨rfl, -⟩ := List.cons.inj ht
      have hblank := hb d mem_cons_self
      rw [isBlank_of_nameTail (hw d (by simp))] at hblank
      cases hblank
  · cases t with
    | nil => exact insideNext_of_start hb hne ⟨v ++ z, by simpa using ht.symm⟩
    | cons c t =>
      have hword := hx c (by simp)
      rw [ht] at hr
      rw [hr c rfl] at hword
      cases hword

theorem walk_member_none {i : Nat} {w : List Char}
    (h : s.after = w ++ rest) (hw : ∀ c ∈ w, nameTail c = true) (hr : Bounded rest)
    (hn : ¬ InsideNext rest) :
    walk (group n word) s (fun t => walk blanks1 t fun t => walk (insideSet i) t k) = none := by
  refine walk_eq_none (p := group n word ++ (blanks1 ++ insideSet i)) fun v hv hpre => hn ?_
  obtain ⟨x, v, rfl, ⟨hx, -⟩, b, v, rfl, ⟨hb, hlen⟩, hset⟩ := hv
  obtain ⟨y, v, rfl, ⟨z, v', rfl, ⟨z', v'', rfl, ⟨z'', b', rfl, rfl, -⟩, -⟩, -⟩, -⟩ := hset
  rw [h] at hpre
  refine insideNext_of_word (v := b' ++ v'' ++ v' ++ v) hw hr hx hb (length_pos_iff.1 hlen) ?_
  simpa using hpre

theorem walk_word_none (h : Bounded s.after) : walk (group n word) s k = none := by
  refine walk_eq_none fun v ⟨hv, hlen⟩ hpre => ?_
  obtain ⟨c, v, rfl⟩ := exists_cons_of_length_pos hlen
  obtain ⟨r, hr⟩ := hpre
  have hc := h c (by rw [← hr]; rfl)
  rw [hv c mem_cons_self] at hc
  cases hc

/-! ### Changing memberships -/

/-- The pattern of a membership. -/
def memberPattern : Pattern := group 1 word ++ blanks1 ++ insideSet 2

theorem walk_memberPattern : walk memberPattern s k =
      walk (group 1 word) s fun t => walk blanks1 t fun t => walk (insideSet 2) t k := rfl

/-- Replacing memberships makes `out` of `cs`, wherever `cs` stands. -/
def Becomes (f : Match → String) (cs out : List Char) : Prop :=
  ∀ before pos, replaceFrom memberPattern f before pos cs = out

section Becomes

variable {f : Match → String} {cs out : List Char}

theorem becomes_nil : Becomes f [] [] :=
  fun _ _ => replaceFrom_nil (walk_memberPattern.trans (walk_word_none bounded_nil))

theorem Becomes.mark (h : Becomes f cs out) (hc : isWordChar c = false) :
    Becomes f (c :: cs) (c :: out) := by
  intro before pos
  rw [replaceFrom_skip (walk_memberPattern.trans (walk_word_none (bounded_cons.2 hc))), h]

theorem Becomes.word {w : List Char} (h : Becomes f cs out) (hw : ∀ c ∈ w, nameTail c = true)
    (hb : Bounded cs) (hn : ¬ InsideNext cs) : Becomes f (w ++ cs) (w ++ out) := by
  induction w with
  | nil => exact h
  | cons c w ih =>
    intro before pos
    have hnone : walk memberPattern ⟨before, c :: (w ++ cs), pos, []⟩ some = none :=
      walk_memberPattern.trans (walk_member_none (w := c :: w) rfl hw hb hn)
    rw [cons_append, replaceFrom_skip hnone, ih fun d hd => hw d (mem_cons_of_mem _ hd)]
    rfl

theorem Becomes.member {x items : List Char} (h : Becomes f cs out) (hx : IsPlain x)
    (hi : '}' ∉ items) (hne : items ≠ []) {new : List Char}
    (hf : ∀ m : Match, m.group 1 = ofList x → m.group 2 = ofList items →
      (f m).toList = new) :
    Becomes f (x ++ " inside \x7b".toList ++ items ++ '}' :: cs) (new ++ out) := by
  intro before pos
  have hwalk := walk_member (n := 1) (i := 2) (k := some)
    (s := ⟨before, x ++ " inside \x7b".toList ++ items ++ '}' :: cs, pos, []⟩) rfl hx hi hne rfl
  rw [replaceFrom_hit (p := memberPattern) hwalk (by simp), hf]
  · exact congrArg _ (h _ _)
  · simp [Match.between, Match.group, Match.group?, Piece.chars]
  · simp [Match.between, Match.group, Match.group?, Piece.chars]

/-- No word of the chunks is followed by a value set, if `rest` follows them. -/
def Quiet : List Chunk → List Char → Prop
  | [], _ => True
  | .word w :: ks, rest =>
    IsPlain w ∧ Bounded (spell ks ++ rest) ∧ ¬ InsideNext (spell ks ++ rest) ∧ Quiet ks rest
  | .mark c :: ks, rest => isWordChar c = false ∧ Quiet ks rest

theorem quiet_append {ks ls : List Chunk} (hk : Quiet ks (spell ls ++ rest))
    (hl : Quiet ls rest) : Quiet (ks ++ ls) rest := by
  induction ks with
  | nil => exact hl
  | cons k ks ih =>
    cases k with
    | mark c => exact ⟨hk.1, ih hk.2⟩
    | word w =>
      obtain ⟨hw, hb, hn, hks⟩ := hk
      rw [← append_assoc, ← spell_append] at hb hn
      exact ⟨hw, hb, hn, ih hks⟩

theorem quiet_marks {cs : List Char} (h : ∀ c ∈ cs, isWordChar c = false) : Quiet (marks cs) rest := by
  induction cs with
  | nil => trivial
  | cons c cs ih => exact ⟨h c mem_cons_self, ih fun d hd => h d (mem_cons_of_mem _ hd)⟩

theorem Becomes.chunks {ks : List Chunk} (h : Becomes f cs out) (hk : Quiet ks cs) :
    Becomes f (spell ks ++ cs) (spell ks ++ out) := by
  induction ks with
  | nil => exact h
  | cons k ks ih =>
    cases k with
    | mark c => exact (ih hk.2).mark hk.1
    | word w =>
      have := (ih hk.2.2.2).word hk.1.chars hk.2.1 hk.2.2.1
      simpa using this

end Becomes

theorem quiet_ref (r : Ref) (hb : Bounded rest) (hn : ¬ InsideNext rest) : Quiet r.chunks rest := by
  cases r with
  | name x => exact ⟨x.isPlain, hb, hn, trivial⟩
  | element x i =>
    refine ⟨x.isPlain, bounded_mark (by decide), not_insideNext_of_head (by simp; decide), by decide,
      i.isPlain, bounded_mark (by decide), not_insideNext_of_head (by simp; decide), by decide, ?_⟩
    trivial

theorem quiet_operand (o : Operand) (hb : Bounded rest)
    (hn : ¬ InsideNext rest) : Quiet o.chunks rest := by
  cases o with
  | num n => exact ⟨isPlain_digitsOf n, hb, hn, trivial⟩
  | ref r => exact quiet_ref r hb hn

theorem quiet_comparison (c : Sv.Comparison) (hb : Bounded rest)
    (hn : ¬ InsideNext rest) : Quiet c.chunks rest := by
  have hrel : ∀ cs : List Char, ¬ InsideNext (' ' :: c.rel.chars ++ cs) := by
    intro cs
    cases c.rel <;>
      exact not_insideNext_of_mark (b := [' ']) (by decide) (by decide) (by decide)
  refine quiet_append (quiet_append (quiet_ref c.left ?_ ?_) (quiet_marks ?_))
    (quiet_operand c.right hb hn)
  · simpa using bounded_mark (c := ' ') (by decide)
  · simpa using hrel _
  · intro d hd
    exact not_isWordChar_of_mem_sourceMarks (c.rel.mem_sourceMarks d hd)

/-- Membership of a field in a set of words. -/
structure Membership where
  subject : Word
  first : Entry Word
  more : List (Entry Word)

def membershipOf (m : Member) : Membership :=
  ⟨⟨m.subject.chars, m.subject.isPlain⟩, entryOf m.first, m.more.map entryOf⟩

/-- The solver's chunks of a membership. In a condition it is a call. -/
def memberChunks (scope : Scope) (isCondition : Bool) (m : Membership) : List Chunk :=
  let range := .word "vsc".toList :: .mark '.' :: .word "rangelist".toList :: .mark '('
    :: rangeListChunks scope m.first m.more ++ [.mark ')']
  if isCondition then
    .word m.subject.chars :: .mark '.' :: .word "inside".toList :: .mark '(' :: range ++ [.mark ')']
  else .word m.subject.chars :: .mark ' ' :: .word "in".toList :: .mark ' ' :: range

/-- The solver's chunks of a lexeme, before names are reached. -/
def solverChunks (scope : Scope) (isCondition : Bool) : Lexeme → List Chunk
  | .member m => memberChunks scope isCondition (membershipOf m)
  | l => l.chunks solverJoints

theorem itemChunks_ne_nil (first : Item) (more : List Item) :
    spell (itemChunks first more) ≠ [] := by
  have := entry_ne_nil (fun v : Word => isValue_of_isPlain v.isPlain) (entryOf first)
  rw [← entriesText_entryOf, entriesText]
  simp [this]

theorem not_mem_itemChunks (first : Item) (more : List Item) :
    '}' ∉ spell (itemChunks first more) := by
  intro hmem
  rcases mem_spell_of_isOf (isOf_itemChunks first more) hmem with h | h <;> revert h <;> decide

private theorem becomes_text {f : Match → String} {scope : Scope} {isCondition : Bool}
    (hf : ∀ (m : Member) (found : Match), found.group 1 = ofList m.subject.chars →
      found.group 2 = ofList (spell (itemChunks m.first m.more)) →
      (f found).toList = spell (memberChunks scope isCondition (membershipOf m)))
    {ls : List Lexeme} (h : Separated ls) :
    Becomes f (spell (textWith solverJoints ls))
      (spell (ls.flatMap (solverChunks scope isCondition))) := by
  induction ls with
  | nil => exact becomes_nil
  | cons l ls ih =>
    have hrest := ih h.of_cons
    rw [textWith_cons, flatMap_cons, spell_append, spell_append]
    cases hl : l.isAtom with
    | false =>
      obtain ⟨c, cs, hc, hmarks⟩ := l.chunks_of_not_isAtom solverJoints hl
      have hsolver : solverChunks scope isCondition l = l.chunks solverJoints := by
        cases l <;> first | rfl | cases hl
      rw [hsolver]
      refine hrest.chunks ?_
      rw [hc]
      exact quiet_marks fun d hd => not_isWordChar_of_mem_sourceMarks (hmarks d hd)
    | true =>
      cases l with
      | compare c =>
        exact hrest.chunks (quiet_comparison c (bounded_textWith _ h hl) (not_insideNext_text _ _))
      | member m =>
        have := hrest.member m.subject.isPlain (not_mem_itemChunks m.first m.more)
          (itemChunks_ne_nil m.first m.more) (hf m)
        simpa [Lexeme.chunks, Member.chunks, Member.setChunks, solverChunks] using this
      | and | or | arrow | opening | closing => cases hl

/-- A list without `c` in front of another: where `c` stands. -/
private theorem exists_of_append_eq {cs ds u v : List Char} (hc : c ∉ cs)
    (h : cs ++ ds = u ++ c :: v) : ∃ u', ds = u' ++ c :: v := by
  rcases append_eq_append_iff.1 h with ⟨t, rfl, ht⟩ | ⟨t, rfl, ht⟩
  · exact ⟨t, ht⟩
  · cases t with
    | nil => exact ⟨[], by simpa using ht.symm⟩
    | cons d t =>
      obtain ⟨rfl, -⟩ := List.cons.inj ht
      exact absurd (by simp) hc

theorem not_insideNext_after_closing (j : Joints) (ls : List Lexeme) {u v : List Char}
    (h : spell (textWith j ls) = u ++ ')' :: v) : ¬ InsideNext v := by
  induction ls generalizing u with
  | nil => simp at h
  | cons l ls ih =>
    rw [textWith_cons, spell_append] at h
    have hskip : ')' ∉ spell (l.chunks j) → ¬ InsideNext v := by
      intro hl
      obtain ⟨u', hu'⟩ := exists_of_append_eq hl h
      exact ih hu'
    have hjoint : ∀ cs, IsJoint cs → ')' ∉ cs := by
      intro cs hcs hmem
      have := hcs.chars _ hmem
      revert this
      decide
    have hatom : l.isAtom = true → ')' ∉ spell (l.chunks j) := by
      intro hl hmem
      rcases mem_spell_of_isOf (l.isOf_of_isAtom j hl) hmem with h | h <;> revert h <;> decide
    cases l with
    | compare | member => exact hskip (hatom rfl)
    | and => exact hskip (by simpa [Lexeme.chunks] using hjoint _ j.isJoint_conj)
    | or => exact hskip (by simpa [Lexeme.chunks] using hjoint _ j.isJoint_disj)
    | arrow | opening => exact hskip (by simp [Lexeme.chunks])
    | closing =>
      cases u with
      | nil =>
        obtain ⟨-, rfl⟩ := List.cons.inj h
        exact not_insideNext_text j ls
      | cons c u => exact ih (List.cons.inj h).2

theorem insideCalls_text (scope : Scope) (isCondition : Bool) {ls : List Lexeme}
    (h : Separated ls) :
    insideCalls scope isCondition (ofList (spell (textWith solverJoints ls))) =
      ofList (spell (ls.flatMap (solverChunks scope isCondition))) := by
  have hparen : ∀ w, Spells (group 1 (lit "(" ++ some1Not ')' ++ lit ")") ++ blanks1 ++ insideSet 2)
      w → ¬ w <:+: spell (textWith solverJoints ls) := by
    rintro w ⟨u, v, rfl, ⟨u', b, rfl, ⟨u'', c, rfl, -, rfl⟩, hb, hlen⟩, hset⟩ ⟨y, z, hyz⟩
    obtain ⟨v, v₁, rfl, ⟨v, v₂, rfl, ⟨v, v₃, rfl, ⟨v, v₄, rfl, rfl, -⟩, -⟩, -⟩, -⟩ := hset
    refine not_insideNext_after_closing solverJoints ls (u := y ++ u'') ?_
      (insideNext_of_start hb (length_pos_iff.1 hlen) ⟨v₄ ++ v₃ ++ v₂ ++ v₁ ++ z, rfl⟩)
    rw [← hyz]
    simp
  have hmethod : Needs (group 1 (word ++ lit "." ++ word ++ lit "()") ++ blanks1 ++ insideSet 2)
      '.' := by
    have : Needs (word ++ lit "." ++ word ++ lit "()") '.' :=
      (needs_lit (t := ".") (by decide)).right.left.left
    exact Needs.left (Needs.left this)
  rw [insideCalls]
  simp only [replaceAll_of_spells hparen, hmethod.replaceAll (not_mem_textWith (by decide)
    (by decide))]
  refine (replaceAll_eq (p := memberPattern) _).trans ?_
  rw [toList_ofList]
  refine congrArg _ (becomes_text ?_ h [] 0)
  intro m found hone htwo
  cases isCondition <;>
    simp [hone, htwo, ← entriesText_entryOf, rangeList_words, memberChunks, membershipOf, toString]

end Stimulus.Expr
