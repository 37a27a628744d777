import Mathlib.Data.List.Range
import Stimulus.Proofs.Register.ClassCode
import Stimulus.Proofs.Run.Files
import Stimulus.Vector.Spec

/-!
# Reading the model of a class back

The fields and ranges of a model are found in the lines that name them, and nowhere else.
-/

open List hiding contains_iff range ranges
open String (ofList toList_ofList)

namespace Stimulus.Model

open Pattern Text Sv Register Scan Stimulus.Vector

/-! ## Fields by their names -/

def Asks (p : Pattern) (c : Char) : Prop :=
  ∀ t, Spells p t → ∃ w b r, t = "self.".toList ++ (w ++ (b ++ c :: r)) ∧
    (∀ d ∈ w, isWordChar d = true) ∧ Blank b ∧ (b ≠ [] ∨ isWordChar c = false)

theorem Asks.leads {p : Pattern} {c : Char} (h : Asks p c) : Leads p "self.".toList := by
  intro t ht
  obtain ⟨w, b, r, rfl, -⟩ := h t ht
  exact prefix_append _ _

theorem Asks.seq {p q : Pattern} {c : Char} (h : Asks p c) : Asks (p ++ q) c := by
  rintro t ⟨a, e, rfl, ha, -⟩
  obtain ⟨w, b, r, rfl, hw⟩ := h a ha
  exact ⟨w, b, r ++ e, by simp, hw⟩

theorem asks_declaration : Asks declaration '=' := by
  have hbase : Asks (lit "self." ++ group 1 word ++ blanks ++ lit "=") '=' := by
    rintro t ⟨_, _, rfl, ⟨_, b, rfl, ⟨_, w, rfl, rfl, hw⟩, hb⟩, rfl⟩
    exact ⟨w, b, [], by simp, hw.1, hb.1, .inr (by decide)⟩
  exact hbase.seq.seq

theorem asks_in : Asks (lit "self." ++ group 1 word ++ blanks1 ++ lit "in") 'i' := by
  rintro t ⟨_, _, rfl, ⟨_, b, rfl, ⟨_, w, rfl, rfl, hw⟩, hb⟩, rfl⟩
  exact ⟨w, b, ['n'], by simp, hw.1, hb.1, .inl (ne_nil_of_length_pos hb.2)⟩

theorem asks_range : Asks range 'i' := asks_in.seq.seq.seq.seq.seq.seq.seq

theorem asks_choice : Asks Specs.choice 'i' := asks_in.seq.seq.seq.seq

theorem mark_eq_of_start {w b r n z : List Char} {c d : Char} (hw : ∀ e ∈ w, isWordChar e = true)
    (hb : Blank b) (hbc : b ≠ [] ∨ isWordChar c = false) (hc : isBlank c = false)
    (hn : ∀ e ∈ n, isWordChar e = true) (hd : isBlank d = false)
    (h : w ++ (b ++ c :: r) <+: n ++ ([' '] ++ d :: z)) : c = d := by
  obtain ⟨t, ht⟩ := h
  have hstop : ∀ e ∈ (b ++ c :: (r ++ t)).head?, isWordChar e = false := by
    cases b with
    | nil => simpa using hbc
    | cons f b => simpa using isWordChar_of_isBlank f (hb f (by simp))
  have hleft : w ++ (b ++ c :: (r ++ t)) = n ++ (' ' :: d :: z) := by simpa using ht
  have hword := congrArg (List.takeWhile isWordChar) hleft
  rw [(takeWhile_append_stop hw hstop).1, (takeWhile_append_stop hn (by simp; decide)).1] at hword
  subst hword
  have hrest : b ++ c :: (r ++ t) = [' '] ++ d :: z := append_cancel_left hleft
  have hpre : b ++ c :: (r ++ t) <+: [' '] ++ d :: z := hrest ▸ prefix_rfl
  exact (blank_start hb (by decide) hd hc hpre).2

theorem Asks.skips {p : Pattern} {c d : Char} (h : Asks p c) (hc : isBlank c = false)
    (hd : isBlank d = false) (hcd : c ≠ d) {n z : List Char} (hn : ∀ e ∈ n, isWordChar e = true)
    (hz : Shuns "self.".toList ("elf.".toList ++ (n ++ ([' '] ++ d :: z)))) :
    Skips p ("self.".toList ++ (n ++ ([' '] ++ d :: z))) := by
  intro a e y hae he s hs
  cases a with
  | nil =>
    refine walk_eq_none fun t ht hpre => ?_
    obtain ⟨w, b, r, rfl, hw, hb, hbc⟩ := h t ht
    obtain rfl : "self.".toList ++ (n ++ ([' '] ++ d :: z)) = e := hae
    rw [hs, append_assoc, prefix_append_right_inj, append_assoc, append_assoc,
      cons_append] at hpre
    exact hcd (mark_eq_of_start hw hb hbc hc hn hd hpre)
  | cons f a =>
    have hrest : "elf.".toList ++ (n ++ ([' '] ++ d :: z)) = a ++ e := by
      have := (List.cons.inj (show 's' :: ("elf.".toList ++ (n ++ ([' '] ++ d :: z))) = f :: (a ++ e) from hae)).2
      exact this
    exact h.leads.walk_eq_none (hs ▸ hz a e y hrest he)

/-! ## Declarations of fields -/

section Declarations

variable {n w args : List Char}

/-- A solver type: its name and its arguments. -/
def typeText (w args : List Char) : List Char :=
  "vsc.".toList ++ (w ++ ("(".toList ++ (args ++ ")".toList)))

/-- A field and its solver type. -/
def declText (n w args : List Char) : List Char :=
  "self.".toList ++ (n ++ (" ".toList ++ ("=".toList ++ (" ".toList ++ typeText w args))))

theorem shuns_named {n z : List Char} (h : '.' ∉ n) (hz : Shuns "self.".toList z) :
    Shuns "self.".toList ("elf.".toList ++ (n ++ ([' '] ++ z))) := by
  rw [← append_assoc n]
  exact (shuns_of_check (by decide)).append ((shuns_of_stop (by decide) (by decide) h).append hz)

theorem dot_not_mem (h : IsWord w) : '.' ∉ w := fun hmem =>
  absurd (h.chars _ hmem) (by decide)

/-- A declaration is passed where something else than `=` is asked for. -/
theorem skips_declText {p : Pattern} (h : Asks p 'i') (hn : IsWord n) (hw : IsWord w)
    (hargs : '.' ∉ args) : Skips p (declText n w args) := by
  have htype : Shuns "self.".toList ("= vsc.".toList ++ ((w ++ ['(']) ++ (args ++ [')']))) :=
    (shuns_of_check (by decide)).append ((shuns_of_stop (by decide) (by decide) (dot_not_mem hw)).append
      (shuns_of_stop (by decide) (by decide) hargs))
  have hcut : declText n w args = "self.".toList ++ (n ++ ([' '] ++ '=' ::
      (" vsc.".toList ++ ((w ++ ['(']) ++ (args ++ [')']))))) := by
    simp [declText, typeText]
  rw [hcut]
  exact h.skips (by decide) (by decide) (by decide) hn.chars (shuns_named (dot_not_mem hn) htype)

theorem reads_typeText {before z : List Char} {kept : List (Nat × List Char)} (hw : IsWord w)
    (hargs : ')' ∉ args) :
    Reads (lit "vsc." ++ (word ++ (opt (lit "_t") ++ (lit "(" ++ (run (· != ')') 0 true ++ lit ")")))))
      before kept (typeText w args) z kept := by
  have hcut : typeText w args = "vsc.".toList ++ (w ++ ([] ++ ("(".toList ++ (args ++ ")".toList)))) := rfl
  rw [hcut]
  refine reads_lit.seq ((reads_word hw ?_).seq
    ((reads_opt_none fun s hs => fails_lit fun hpre => ?_).seq (reads_lit.seq
      ((reads_run ?_ ?_ (Nat.zero_le _)).seq reads_lit))))
  · simp
    decide
  · rw [hs] at hpre
    simp at hpre
  · intro c hc
    rw [bne_iff_ne]
    rintro rfl
    exact hargs hc
  · simp

theorem reads_declText (hn : IsWord n) (hw : IsWord w) (hargs : ')' ∉ args) (before z : List Char) :
    Reads declaration before [] (declText n w args) z [(2, typeText w args), (1, n)] := by
  show Reads (lit "self." ++ (group 1 word ++ (blanks ++ (lit "=" ++ (blanks ++ group 2 (lit "vsc." ++
    (word ++ (opt (lit "_t") ++ (lit "(" ++ (run (· != ')') 0 true ++ lit ")")))))))))) _ _ _ _ _
  refine reads_lit.seq (((reads_word hn ?_).group 1).seq ((reads_blanks (by decide) ?_).seq
    (reads_lit.seq ((reads_blanks (by decide) ?_).seq ((reads_typeText hw hargs).group 2)))))
  · simp
    decide
  · simp
    decide
  · simp [typeText]
    decide

end Declarations

/-! ## The lines of items -/

section Lines

variable (x : Register.Item)

/-- The name of the solver type of an item. -/
def typeName : List Char := if x.signed then "rand_int_t".toList else "rand_bit_t".toList

theorem isWord_typeName : IsWord (typeName x) := by
  unfold typeName
  split <;> exact ⟨by decide, by decide⟩

theorem typeCode_eq : x.typeCode = typeText (typeName x) "32".toList := by
  unfold Item.typeCode typeName
  cases x.signed <;> rfl

theorem fieldCode_eq : x.fieldCode = declText x.name.chars (typeName x) "32".toList := by
  unfold Item.fieldCode declText
  rw [typeCode_eq]
  simp

theorem skips_fieldCode {p : Pattern} (h : Asks p 'i') : Skips p x.fieldCode := by
  rw [fieldCode_eq]
  exact skips_declText h x.name.plain.isWord (isWord_typeName x) (by decide)

theorem skips_rangeCode {p : Pattern} (h : Asks p '=') : Skips p x.rangeCode := by
  have hint (v : Int) : Shuns "self.".toList (intChars v) :=
    @shuns_of_not_mem "elf.".toList _ 's' (not_mem_intChars (by decide) (by decide))
  have hrest : Shuns "self.".toList ("in vsc.rangelist(vsc.rng(".toList ++ (intChars x.low ++
      (", ".toList ++ (intChars x.high ++ "))".toList)))) :=
    (shuns_of_check (by decide)).append ((hint x.low).append ((shuns_of_check (by decide)).append
      ((hint x.high).append (shuns_of_check (by decide)))))
  have hcut : x.rangeCode = "self.".toList ++ (x.name.chars ++ ([' '] ++ 'i' ::
      ("n vsc.rangelist(vsc.rng(".toList ++ (intChars x.low ++ (", ".toList ++ (intChars x.high ++
        "))".toList)))))) := by
    unfold Item.rangeCode
    simp
  rw [hcut]
  exact h.skips (by decide) (by decide) (by decide) x.name.plain.isWord.2
    (shuns_named (x.name.plain.not_mem (by decide)) hrest)

variable {x}

theorem reads_name {before z : List Char} {kept : List (Nat × List Char)} (hz : Bounded z) :
    Reads (group 1 word) before kept x.name.chars z ((1, x.name.chars) :: kept) :=
  (reads_word x.name.plain.isWord hz).group 1

variable (x)

theorem reads_declaration (before z : List Char) : Reads declaration before [] x.fieldCode z
    [(2, x.typeCode), (1, x.name.chars)] := by
  rw [fieldCode_eq, typeCode_eq]
  exact reads_declText x.name.plain.isWord (isWord_typeName x) (by decide) before z

theorem reads_range (before z : List Char) : Reads range before [] x.rangeCode z
    [(3, intChars x.high), (2, intChars x.low), (1, x.name.chars)] := by
  have hcut : x.rangeCode = "self.".toList ++ (x.name.chars ++ (" ".toList ++ ("in".toList ++
      (" ".toList ++ ("vsc.rangelist(vsc.rng(".toList ++ (intChars x.low ++ (",".toList ++ (" ".toList ++
        (intChars x.high ++ "))".toList))))))))) := by
    unfold Item.rangeCode
    simp
  have hint : ∀ c ∈ (intChars x.high ++ "))".toList ++ z).head?, isBlank c = false := by
    rw [append_assoc]
    exact (Override.isNumber_intChars x.high).head
  show Reads (lit "self." ++ (group 1 word ++ (blanks1 ++ (lit "in" ++ (blanks1 ++
    (lit "vsc.rangelist(vsc.rng(" ++ (group 2 signedDigits ++ (lit "," ++ (blanks ++
      (group 3 signedDigits ++ lit "))")))))))))) _ _ _ _ _
  rw [hcut]
  refine reads_lit.seq ((reads_name ?_).seq ((reads_run (by decide) ?_ (by decide)).seq (reads_lit.seq
    ((reads_run (by decide) ?_ (by decide)).seq (reads_lit.seq ((((Override.isNumber_intChars x.low).reads ?_).group 2).seq
      (reads_lit.seq ((reads_blanks (by decide) hint).seq
        ((((Override.isNumber_intChars x.high).reads ?_).group 3).seq reads_lit)))))))))
  · simp [Bounded]
    decide
  · simp
    decide
  · simp
    decide
  · simp
    decide
  · simp
    decide

/-- The list of a range, up to the parenthesis that ends the range. -/
def listCode : List Char := "vsc.rng(".toList ++ (intChars x.low ++ (", ".toList ++ intChars x.high))

/-- What a choice reads of a range. -/
def choiceCode : List Char :=
  "self.".toList ++ (x.name.chars ++ (" ".toList ++ ("in".toList ++ (" ".toList ++
    ("vsc.rangelist(".toList ++ (listCode x ++ ")".toList))))))

theorem rangeCode_eq : x.rangeCode = choiceCode x ++ [')'] := by
  unfold Item.rangeCode choiceCode listCode
  simp

theorem reads_choice (before z : List Char) : Reads Specs.choice before [] (choiceCode x) z
    [(2, listCode x), (1, x.name.chars)] := by
  have hlist : ∀ c ∈ listCode x, (c != ')') = true := by
    have hint (v : Int) : ')' ∉ intChars v := not_mem_intChars (by decide) (by decide)
    have hnot : ')' ∉ listCode x := by
      unfold listCode
      simp [hint]
    intro c hc
    rw [bne_iff_ne]
    rintro rfl
    exact hnot hc
  have hinner {before z : List Char} {kept : List (Nat × List Char)} :
      Reads (run (· != ')') 1 true ++ star (lit "(" ++ run (· != ')') 0 true ++ lit ")" ++
        run (· != ')') 0 true)) before kept (listCode x) (')' :: z) kept := by
    have hnone (s : Spot) (hs : s.after = [] ++ ')' :: z) : Fails (lit "(" ++ run (· != ')') 0 true ++
        lit ")" ++ run (· != ')') 0 true) s :=
      (fails_lit fun hpre => by rw [hs] at hpre; simp at hpre).seq.seq.seq
    have := (@reads_run before (listCode x) (')' :: z) kept (· != ')') 1 hlist (by simp)
      (by unfold listCode; simp)).seq (reads_star_none (p := _) hnone)
    rwa [append_nil] at this
  show Reads (lit "self." ++ (group 1 word ++ (blanks1 ++ (lit "in" ++ (blanks1 ++
    (lit "vsc.rangelist(" ++ (group 2 (run (· != ')') 1 true ++ star (lit "(" ++ run (· != ')') 0 true ++
      lit ")" ++ run (· != ')') 0 true)) ++ lit ")"))))))) _ _ _ _ _
  unfold choiceCode
  refine reads_lit.seq ((reads_name ?_).seq ((reads_run (by decide) ?_ (by decide)).seq (reads_lit.seq
    ((reads_run (by decide) ?_ (by decide)).seq (reads_lit.seq ((hinner.group 2).seq reads_lit))))))
  · simp [Bounded]
    decide
  · simp
    decide
  · simp
    decide

end Lines

theorem findAll_model {β : Type} {p : Pattern} {read : Match → β} (hp : Leads p "self.".toList)
    {f g : Register.Item → List β} (hfield : ∀ x : Register.Item, Finds p read x.fieldCode (f x))
    (hrange : ∀ x : Register.Item, Finds p read x.rangeCode (g x)) {code : String}
    {items kept : List Register.Item} (h : IsModel code items kept) :
    (p.findAll code).map read = items.flatMap f ++ kept.flatMap g := by
  obtain ⟨start, mid, stop, hinert, hcode⟩ := h
  have hplain {ls : List String} (hls : ∀ l ∈ ls, Inert l) :
      Finds p read (ls.flatMap fun l => l.toList ++ ['\n']) [] :=
    (skips_flatMap fun l hl => hp.skips (hls l hl).shuns).finds
  have hlines {w : Register.Item → List Char} {out : Register.Item → List β}
      (hw : ∀ x : Register.Item, Finds p read (w x) (out x)) (xs : List Register.Item) :
      Finds p read ((xs.map fun x => "    " ++ ofList (w x)).flatMap fun l => l.toList ++ ['\n'])
        (xs.flatMap out) := by
    have hblanks : Finds p read "    ".toList [] := (hp.skips (shuns_of_check (by decide))).finds
    have hnewline : Finds p read ['\n'] [] := (hp.skips (shuns_of_check (by decide))).finds
    rw [flatMap_map]
    refine finds_flatMap fun x _ => ?_
    have hline := (hblanks.append (hw x)).append hnewline
    rw [nil_append, append_nil] at hline
    rwa [String.toList_append, @toList_ofList (w x)]
  simp only [forall_mem_append] at hinert
  have hall := ((((hplain hinert.1.1).append (hlines hfield items)).append (hplain hinert.1.2)).append
    (hlines hrange kept)).append (hplain hinert.2)
  have hfind := hall.findAll (hp.lacks_nil (by decide))
  have htext : code = ofList code.toList := String.ofList_toList.symm
  rw [htext, hcode]
  simpa only [← flatMap_append, append_nil, nil_append] using hfind

/-! ## What the model says -/

section Model

variable {code : String} {items kept : List Register.Item}

theorem findAll_fields {β : Type} {p : Pattern} {read : Match → β} (hp : Asks p '=')
    {f : Register.Item → β} (hfield : ∀ x : Register.Item, Finds p read x.fieldCode [f x])
    (h : IsModel code items kept) : (p.findAll code).map read = items.map f := by
  rw [findAll_model hp.leads hfield (fun x => (skips_rangeCode x hp).finds) h, ← map_eq_flatMap,
    flatMap_eq_nil_iff.2 fun _ _ => rfl, append_nil]

theorem findAll_ranges {β : Type} {p : Pattern} {read : Match → β} (hp : Asks p 'i')
    {f : Register.Item → β} (hrange : ∀ x : Register.Item, Finds p read x.rangeCode [f x])
    (h : IsModel code items kept) : (p.findAll code).map read = kept.map f := by
  rw [findAll_model hp.leads (fun x => (skips_fieldCode x hp).finds) hrange h, ← map_eq_flatMap,
    flatMap_eq_nil_iff.2 fun _ _ => rfl, nil_append]

/-- The type of an item in its model: there is none for fields with a sign. -/
def typeOf (x : Register.Item) : Option FieldType := if x.signed then none else some ⟨"bit", false, 32⟩

theorem of?_typeCode (x : Register.Item) : FieldType.of? (ofList x.typeCode) = .ok (typeOf x) := by
  unfold Item.typeCode typeOf
  cases x.signed
  · decide
  · decide

theorem declarations_model (h : IsModel code items kept) :
    declarations code = .ok (items.map fun x => (x.name.name, typeOf x)) := by
  have hfield (x : Register.Item) : Finds declaration
      (fun m => (do return (m.group 1, ← FieldType.of? (m.group 2)) : Outcome (String × Option FieldType)))
      x.fieldCode [.ok (x.name.name, typeOf x)] := by
    refine Reads.finds (by simp [Item.fieldCode]) (reads_declaration x) fun m hm => ?_
    have hname : m.group 1 = x.name.name := by simp [Match.group_eq, hm, Label.name]
    have htype : m.group 2 = ofList x.typeCode := by simp [Match.group_eq, hm]
    simp only [hname, htype, of?_typeCode]
    rfl
  rw [declarations, Outcome.mapM_of_map (findAll_fields asks_declaration hfield h)]
  exact Outcome.mapM_ok fun x _ => rfl

/-- The range of an item as it is read. -/
def boundsOf (x : Register.Item) : Outcome (String × Int × Int) := do
  return (x.name.name, ← Text.integer (ofList (intChars x.low)),
    ← Text.integer (ofList (intChars x.high)))

theorem ranges_model (h : IsModel code items kept) : ranges code = kept.mapM boundsOf := by
  have hrange (x : Register.Item) : Finds range
      (fun m => (do return (m.group 1, ← Text.integer (m.group 2), ← Text.integer (m.group 3)) :
        Outcome (String × Int × Int))) x.rangeCode [boundsOf x] := by
    refine Reads.finds (by simp [Item.rangeCode]) (reads_range x) fun m hm => ?_
    have hname : m.group 1 = x.name.name := by simp [Match.group_eq, hm, Label.name]
    have hlow : m.group 2 = ofList (intChars x.low) := by simp [Match.group_eq, hm]
    have hhigh : m.group 3 = ofList (intChars x.high) := by simp [Match.group_eq, hm]
    simp only [hname, hlow, hhigh, boundsOf]
  rw [ranges, Outcome.mapM_of_map (findAll_ranges asks_range hrange h)]

theorem choices_model (h : IsModel code items kept) : Specs.choices code = .ok [] := by
  have hrng (x : Register.Item) : Text.contains "vsc.rng" (ofList (listCode x)) = true := by
    rw [contains_iff, @toList_ofList (listCode x)]
    unfold listCode
    exact ⟨[], "(".toList ++ (intChars x.low ++ (", ".toList ++ intChars x.high)), by simp⟩
  have hclose : Skips Specs.choice [')'] := asks_choice.leads.skips (shuns_of_check (by decide))
  have hrange (x : Register.Item) : Finds Specs.choice
      (fun m => (do return (m.group 1, ← Specs.choiceRange? code (m.group 2)) :
        Outcome (String × Option (Int × Int)))) x.rangeCode [.ok (x.name.name, none)] := by
    rw [rangeCode_eq]
    refine (Reads.finds (by simp [choiceCode]) (reads_choice x) fun m hm => ?_).append hclose.finds
    have hname : m.group 1 = x.name.name := by simp [Match.group_eq, hm, Label.name]
    have hlist : m.group 2 = ofList (listCode x) := by simp [Match.group_eq, hm]
    simp only [hname, hlist, Specs.choiceRange?, hrng]
    rfl
  rw [Specs.choices, Outcome.mapM_of_map (findAll_ranges asks_choice hrange h),
    Outcome.mapM_ok fun x _ => rfl, Outcome.ok_bind]
  simp
  rfl

end Model

/-! ## Specifications -/

/-- The specification of an item that is declared. -/
def declaredSpec (x : Register.Item) : Spec where
  name := x.name.name
  signed := x.signed
  typeName := if x.signed then "unknown" else "bit"

/-- The specification of an item with its range. -/
def boundedSpec (x : Register.Item) : Spec := { declaredSpec x with range := some (x.low, x.high) }

theorem ofDeclaration_typeOf (x : Register.Item) :
    Specs.ofDeclaration x.name.name (typeOf x) = declaredSpec x := by
  unfold typeOf declaredSpec
  cases x.signed <;> rfl

section Specs

variable {items : List Register.Item} {specs : Specs}

theorem put_new {spec : Spec} (h : ∀ s ∈ specs, s.name ≠ spec.name) :
    specs.put spec = specs ++ [spec] := by
  have hnone : specs.get? spec.name = none := by
    simpa [Specs.get?] using h
  simp [Specs.put, hnone]

/-- A name that comes once is not among the later ones, and not among those that come before them. -/
theorem names_step {x : Register.Item} {spec : Spec} (hspec : spec.name = x.name.name)
    (hx : x.name.name ∉ items.map fun x => x.name.name)
    (hnew : ∀ s ∈ specs, ∀ y ∈ x :: items, s.name ≠ y.name.name) :
    ∀ s ∈ specs ++ [spec], ∀ y ∈ items, s.name ≠ y.name.name := by
  intro s hs y hy
  rcases mem_append.1 hs with hs | hs
  · exact hnew s hs y (mem_cons_of_mem _ hy)
  · rw [mem_singleton.1 hs, hspec]
    exact fun heq => hx (mem_map.2 ⟨y, hy, heq.symm⟩)

theorem foldl_put (hnodup : (items.map fun x => x.name.name).Nodup)
    (hnew : ∀ s ∈ specs, ∀ x ∈ items, s.name ≠ x.name.name) :
    items.foldl (fun specs x => specs.put (declaredSpec x)) specs = specs ++ items.map declaredSpec := by
  induction items generalizing specs with
  | nil => simp
  | cons x items ih =>
    obtain ⟨hx, hnodup⟩ := nodup_cons.1 hnodup
    rw [foldl_cons, put_new fun s hs => hnew s hs x mem_cons_self,
      ih hnodup (names_step rfl hx hnew)]
    simp

theorem putRange_at {x : Register.Item} {before after : Specs} (more : Bool)
    (hbefore : ∀ s ∈ before, s.name ≠ x.name.name) (hafter : ∀ s ∈ after, s.name ≠ x.name.name) :
    Specs.putRange more (before ++ declaredSpec x :: after) x.name.name (x.low, x.high) =
      before ++ boundedSpec x :: after := by
  have hget : Specs.get? (before ++ declaredSpec x :: after) x.name.name = some (declaredSpec x) := by
    rw [Specs.get?, find?_append, find?_eq_none.2 (by simpa using hbefore), Option.none_or,
      find?_cons_of_pos (by simp [declaredSpec])]
  have hkeep {rest : Specs} (hrest : ∀ s ∈ rest, s.name ≠ x.name.name) :
      rest.map (fun old => if old.name = x.name.name then boundedSpec x else old) = rest := by
    refine (map_congr_left fun s hs => ?_).trans (map_id rest)
    rw [if_neg (hrest s hs)]
    rfl
  have hput : Specs.put (before ++ declaredSpec x :: after) (boundedSpec x) =
      before ++ boundedSpec x :: after := by
    rw [Specs.put, show (boundedSpec x).name = x.name.name from rfl, hget, if_pos Option.isSome_some,
      map_append, map_cons, hkeep hbefore, hkeep hafter,
      if_pos (show (declaredSpec x).name = x.name.name from rfl)]
  rw [Specs.putRange, hget]
  exact hput

theorem foldl_putRange (more : Bool) (hnodup : (items.map fun x => x.name.name).Nodup)
    (hnew : ∀ s ∈ specs, ∀ x ∈ items, s.name ≠ x.name.name) :
    items.foldl (fun specs x => Specs.putRange more specs x.name.name (x.low, x.high))
      (specs ++ items.map declaredSpec) = specs ++ items.map boundedSpec := by
  induction items generalizing specs with
  | nil => simp
  | cons x items ih =>
    obtain ⟨hx, hnodup⟩ := nodup_cons.1 hnodup
    have hafter : ∀ s ∈ items.map declaredSpec, s.name ≠ x.name.name := by
      intro s hs heq
      obtain ⟨y, hy, rfl⟩ := mem_map.1 hs
      exact hx (mem_map.2 ⟨y, hy, heq⟩)
    have hrest := ih hnodup (@names_step _ _ x (boundedSpec x) rfl hx hnew)
    rw [foldl_cons, map_cons,
      putRange_at more (fun s hs => hnew s hs x mem_cons_self) hafter]
    simpa using hrest

/-- The bounds of the item can be read. -/
def Short (x : Register.Item) : Prop := IsShort x.low ∧ IsShort x.high

instance (x : Register.Item) : Decidable (Short x) := inferInstanceAs (Decidable (_ ∧ _))

theorem mapM_boundsOf (h : ∀ x ∈ items, Short x) :
    items.mapM boundsOf = .ok (items.map fun x => (x.name.name, x.low, x.high)) := by
  refine Outcome.mapM_ok fun x hx => ?_
  rw [boundsOf, integer_intChars, integer_intChars, if_pos (h x hx).1, if_pos (h x hx).2]
  rfl

theorem short_of_mapM_boundsOf {found : List (String × Int × Int)} (h : items.mapM boundsOf = .ok found) :
    ∀ x ∈ items, Short x := by
  intro x hx
  obtain ⟨r, -, hr⟩ := Outcome.exists_mem_of_mapM h hx
  obtain ⟨low, hlow, hr⟩ := Outcome.bind_eq_ok.1 hr
  obtain ⟨high, hhigh, -⟩ := Outcome.bind_eq_ok.1 hr
  exact ⟨isShort_of_integer_intChars hlow, isShort_of_integer_intChars hhigh⟩

theorem declared_model {code : String} {kept : List Register.Item} (h : IsModel code items kept)
    (hnodup : (items.map fun x => x.name.name).Nodup) (more : Bool) :
    Specs.read more code = kept.mapM boundsOf >>= fun found => .ok (found.foldl
      (fun specs (name, range) => Specs.putRange more specs name range) (items.map declaredSpec)) := by
  have hfold := @foldl_put items [] hnodup (by simp)
  rw [Specs.read, declarations_model h, ranges_model h, choices_model h]
  simp only [Outcome.ok_bind, foldl_map, ofDeclaration_typeOf, hfold, nil_append]
  rfl

theorem read_whole {code : String} (more : Bool) (h : IsModel code items items)
    (hnodup : (items.map fun x => x.name.name).Nodup) (hshort : ∀ x ∈ items, Short x) :
    Specs.read more code = .ok (items.map boundedSpec) := by
  have hfold := @foldl_putRange items [] more hnodup (by simp)
  rw [declared_model h hnodup, mapM_boundsOf hshort, Outcome.ok_bind, foldl_map]
  exact congrArg _ hfold

theorem read_cut {code : String} (more : Bool) (h : IsModel code items [])
    (hnodup : (items.map fun x => x.name.name).Nodup) :
    Specs.read more code = .ok (items.map declaredSpec) := by
  rw [declared_model h hnodup]
  rfl

end Specs

theorem on_ofModule {d : Desk} {module text : String}
    (h : d.store.read (Specs.modulePath module ".py") = .ok text) :
    ((Specs.ofModule module).on d).1 = Specs.read true text := by
  simp only [Specs.ofModule, Run.on_bind, Run.on_isThere, Store.exists_of_read h, Bool.not_true,
    Bool.false_eq_true, if_false, Run.on_readFile, h, Run.on_ofOutcome]
  cases Specs.read true text <;> rfl

end Stimulus.Model
