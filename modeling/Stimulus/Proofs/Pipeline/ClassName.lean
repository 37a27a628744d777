import Stimulus.Console.Job
import Stimulus.Proofs.Model.Names
import Stimulus.Proofs.Run.Files
import Stimulus.Window.Files

/-!
# The class that the pipeline looks for

The pipeline takes the name of the first class from the text of the declarations, with its comments,
and needs no more than the word `class` and a name. The model takes it from the first declaration of a
class outside comments, and drops the mark of a type.
-/

open List

namespace Stimulus.Pipeline

open Pattern Text Sv

variable {p : Pattern} {P : List Char → Prop} {cs name rest text v v' : List Char}

/-! ## The first place of a match -/

/-- The longest end of a text with a property. -/
structure FirstAt (P : List Char → Prop) (text v : List Char) : Prop where
  suffix : v <:+ text
  holds : P v
  first : ∀ v', v' <:+ text → P v' → v'.length ≤ v.length

theorem FirstAt.unique (h : FirstAt P text v) (h' : FirstAt P text v') : v = v' := by
  have hle := h'.first v h.suffix h.holds
  exact (suffix_of_suffix_length_le h.suffix h'.suffix hle).eq_of_length_le
    (h.first v' h'.suffix h'.holds)

section Search

variable (hp : ∀ s : Spot, (walk p s some).isSome = true ↔ P s.after)
include hp

theorem firstAt_of_searchFrom {before : List Char} {pos : Nat} {a b : Spot}
    (h : searchFrom p before pos cs = some (a, b)) :
    FirstAt P cs a.after ∧ a.kept = [] ∧ walk p a some = some b := by
  have hit {s t : Spot} (ht : walk p s some = some t) : FirstAt P s.after s.after :=
    ⟨suffix_refl _, (hp s).1 (by rw [ht]; rfl), fun v' hv' _ => hv'.length_le⟩
  induction cs generalizing before pos with
  | nil =>
    obtain ⟨t, ht, heq⟩ := Option.map_eq_some_iff.1 h
    obtain ⟨rfl, rfl⟩ := Prod.mk.inj heq
    exact ⟨hit ht, rfl, ht⟩
  | cons c cs ih =>
    rw [searchFrom] at h
    split at h
    · next t ht =>
      obtain ⟨rfl, rfl⟩ := Prod.mk.inj (Option.some.inj h)
      exact ⟨hit ht, rfl, ht⟩
    · next hnone =>
      obtain ⟨⟨hsuffix, hholds, hfirst⟩, hspot⟩ := ih h
      refine ⟨⟨hsuffix.trans (suffix_cons c cs), hholds, fun v' hv' hP => ?_⟩, hspot⟩
      rcases suffix_cons_iff.1 hv' with rfl | hv'
      · have := (hp ⟨before, c :: cs, pos, []⟩).2 hP
        rw [hnone] at this
        cases this
      · exact hfirst v' hv' hP

theorem not_of_searchFrom {before : List Char} {pos : Nat} (h : searchFrom p before pos cs = none)
    (hv : v <:+ cs) : ¬ P v := by
  intro hP
  have hsome {s : Spot} (hs : s.after = v) : walk p s some ≠ none := fun hnone => by
    have := (hp s).2 (hs ▸ hP)
    rw [hnone] at this
    cases this
  induction cs generalizing before pos with
  | nil =>
    obtain rfl := suffix_nil.1 hv
    exact hsome rfl (Option.map_eq_none_iff.1 h)
  | cons c cs ih =>
    rw [searchFrom] at h
    split at h
    · cases h
    · next hnone =>
      rcases suffix_cons_iff.1 hv with rfl | hv
      · exact hsome rfl hnone
      · exact ih h hv

end Search

/-! ## The word `class` -/

/-- A text that starts with the word `class`, blanks and a name. -/
structure StartsClass (cs name rest : List Char) : Prop where
  split : ∃ gap, gap ≠ [] ∧ Blank gap ∧ cs = "class".toList ++ (gap ++ (name ++ rest))
  word : IsWord name
  bounded : Bounded rest

theorem reads_classStart (h : StartsClass cs name rest) : ∃ w, cs = w ++ rest ∧
    ∀ before kept, Reads classStart before kept w rest ((1, name) :: kept) := by
  obtain ⟨⟨gap, hne, hgap, rfl⟩, hname, hrest⟩ := h
  refine ⟨"class".toList ++ (gap ++ name), by simp, fun before kept => ?_⟩
  show Reads (lit "class" ++ (blanks1 ++ group 1 word)) _ _ _ _ _
  refine reads_lit.seq ((reads_run hgap (head_word hname) (length_pos_of_ne_nil hne)).seq ?_)
  exact (reads_word hname hrest).group 1

theorem spells_classStart {w : List Char} (h : Spells classStart w) :
    ∃ gap n, gap ≠ [] ∧ Blank gap ∧ IsWord n ∧ w = "class".toList ++ (gap ++ n) := by
  obtain ⟨_, n, rfl, ⟨_, gap, rfl, rfl, hgap, hlen⟩, hn, hlen'⟩ := h
  exact ⟨gap, n, ne_nil_of_length_pos hlen, hgap, ⟨ne_nil_of_length_pos hlen', hn⟩,
    append_assoc ..⟩

theorem startsClass_of_prefix {gap n z : List Char} (hne : gap ≠ []) (hgap : Blank gap)
    (hn : IsWord n) : StartsClass ("class".toList ++ (gap ++ (n ++ z)))
      (n ++ z.takeWhile isWordChar) (z.dropWhile isWordChar) := by
  refine ⟨⟨gap, hne, hgap, by simp [takeWhile_append_dropWhile]⟩,
    ⟨by simp [hn.ne_nil], ?_⟩, head_dropWhile isWordChar z⟩
  exact forall_mem_append.2 ⟨hn.chars, fun c hc => mem_takeWhile_imp hc⟩

/-- A text that starts with a class. -/
def HasClass (cs : List Char) : Prop := ∃ name rest, StartsClass cs name rest

theorem isSome_classStart (s : Spot) :
    (walk classStart s some).isSome = true ↔ HasClass s.after := by
  constructor
  · intro h
    obtain ⟨t, ht⟩ := Option.isSome_iff_exists.1 h
    obtain ⟨w, t, hpass, hw, -⟩ := spells_of_walk ht
    obtain ⟨gap, n, hne, hgap, hn, rfl⟩ := spells_classStart hw
    have hafter : s.after = "class".toList ++ (gap ++ (n ++ t.after)) := by
      rw [hpass.after]
      simp
    exact ⟨_, _, hafter ▸ startsClass_of_prefix hne hgap hn⟩
  · rintro ⟨n, r, h⟩
    obtain ⟨w, hafter, hreads⟩ := reads_classStart h
    obtain ⟨t, htakes, -⟩ := hreads _ _ s rfl rfl hafter
    rw [htakes some t rfl]
    rfl

def FirstClass (text name : List Char) : Prop :=
  ∃ v rest, FirstAt HasClass text v ∧ StartsClass v name rest

theorem group_classStart {a b : Spot} (hkept : a.kept = []) (hwalk : walk classStart a some = some b)
    (h : StartsClass a.after name rest) : (Match.between a b).group 1 = String.ofList name := by
  obtain ⟨w, hafter, hreads⟩ := reads_classStart h
  obtain ⟨t, htakes, -, hpieces⟩ := hreads _ [] a rfl (by rw [Spot.pieces, hkept]; rfl) hafter
  obtain rfl : b = t := Option.some.inj (hwalk.symm.trans (htakes some t rfl))
  have hpieces' : (Match.between a b).pieces = [(1, name)] := hpieces
  simp [Match.group_eq, hpieces']

theorem StartsClass.unique {name' rest' : List Char} (h : StartsClass cs name rest)
    (h' : StartsClass cs name' rest') : name = name' := by
  obtain ⟨w, hcs, hreads⟩ := reads_classStart h
  obtain ⟨t, htakes, -⟩ := hreads [] [] (Spot.start cs) rfl rfl hcs
  have hwalk := htakes some t rfl
  have heq := (group_classStart rfl hwalk h).symm.trans (group_classStart rfl hwalk h')
  simpa using congrArg String.toList heq

theorem FirstClass.unique {name' : List Char} (h : FirstClass text name) (h' : FirstClass text name') :
    name = name' := by
  obtain ⟨v, rest, hfirst, hstarts⟩ := h
  obtain ⟨v', rest', hfirst', hstarts'⟩ := h'
  obtain rfl := hfirst.unique hfirst'
  exact hstarts.unique hstarts'

theorem firstClass_of_classIn? {text name : String} (h : classIn? text = some name) :
    FirstClass text.toList name.toList := by
  obtain ⟨m, hm, hname⟩ := Option.map_eq_some_iff.1 h
  obtain ⟨⟨a, b⟩, hsearch, rfl⟩ := Option.map_eq_some_iff.1 hm
  obtain ⟨hfirst, hkept, hwalk⟩ := firstAt_of_searchFrom isSome_classStart hsearch
  obtain ⟨n, r, hstarts⟩ := hfirst.holds
  obtain rfl : String.ofList n = name := (group_classStart hkept hwalk hstarts).symm.trans hname
  rw [String.toList_ofList]
  exact ⟨_, r, hfirst, hstarts⟩

theorem classIn?_eq_some_iff {text name : String} :
    classIn? text = some name ↔ FirstClass text.toList name.toList := by
  refine ⟨firstClass_of_classIn?, fun h => ?_⟩
  cases hfound : classIn? text with
  | some name' =>
    have heq := (firstClass_of_classIn? hfound).unique h
    rw [String.toList_inj.1 heq]
  | none =>
    obtain ⟨v, -, hfirst, -⟩ := h
    have hnone := Option.map_eq_none_iff.1 (Option.map_eq_none_iff.1 hfound)
    exact absurd hfirst.holds (not_of_searchFrom isSome_classStart hnone hfirst.suffix)

/-! ## The first declaration -/

/-- What may stand between the name of a class and the semicolon: blanks, or a parent among blanks. -/
def IsParent (cs : List Char) : Prop :=
  Blank cs ∨ ∃ gap gap' parent blanks, gap ≠ [] ∧ Blank gap ∧ gap' ≠ [] ∧ Blank gap' ∧ IsWord parent ∧
    Blank blanks ∧ cs = gap ++ ("extends".toList ++ (gap' ++ (parent ++ blanks)))

/-- What follows the name of a class that is declared: perhaps a parent, a semicolon, and somewhere the
end of the class. -/
def HeadsBody (rest : List Char) : Prop :=
  ∃ parent body tail, IsParent parent ∧ rest = parent ++ ';' :: (body ++ ("endclass".toList ++ tail))

/-- A text that starts with the declaration of a class. -/
def HasDecl (cs : List Char) : Prop := ∃ name rest, StartsClass cs name rest ∧ HeadsBody rest

def FirstDecl (text name : List Char) : Prop :=
  ∃ v rest, FirstAt HasDecl text v ∧ StartsClass v name rest ∧ HeadsBody rest

theorem reads_body (body tail : List Char) : ∃ w z, body ++ ("endclass".toList ++ tail) = w ++ z ∧
    ∀ before kept, ∃ kept', Reads (group 3 upTo ++ lit "endclass") before kept w z kept' := by
  obtain ⟨a, b, hsplit, hfirst⟩ := exists_first_infix
    (show "endclass".toList <:+: body ++ ("endclass".toList ++ tail) from ⟨body, tail, by simp⟩)
  refine ⟨a ++ "endclass".toList, b, by rw [hsplit]; simp, fun before kept => ⟨(3, a) :: kept, ?_⟩⟩
  refine reads_creep (by simp) (by simp) reads_lit fun x y hxy hy s hs => fails_lit ?_
  rw [hs]
  exact hfirst x y hxy hy

theorem bounded_of_blank {g : List Char} (hne : g ≠ []) (hg : Blank g) (z : List Char) :
    Bounded (g ++ z) :=
  head_of_ne_nil hne fun c hc => isWordChar_of_isBlank c (hg c hc)

theorem bounded_semicolon {b z : List Char} (hb : Blank b) : Bounded (b ++ ';' :: z) :=
  head_gap hb isWordChar_of_isBlank (by simp; decide)

theorem fails_parent {s : Spot} {b z : List Char} (hb : Blank b) (hs : s.after = b ++ ';' :: z) :
    Fails (blanks1 ++ (lit "extends" ++ (blanks1 ++ group 2 word))) s := by
  intro k
  refine walk_run_none hs hb (by simp; decide) fun u v huv _ => walk_lit_none ?_
  rintro ⟨r, hr⟩
  have hbounded : Bounded (v ++ ';' :: z) :=
    bounded_semicolon fun c hc => hb c (huv ▸ mem_append_right u hc)
  rw [← show _ = v ++ ';' :: z from hr] at hbounded
  exact IsWord.bounded_not ⟨by decide, by decide⟩ hbounded

theorem reads_headsBody (h : HeadsBody rest) : ∃ w z, rest = w ++ z ∧ ∀ before kept, ∃ kept',
    Reads (opt (blanks1 ++ (lit "extends" ++ (blanks1 ++ group 2 word))) ++
      (blanks ++ (lit ";" ++ (group 3 upTo ++ lit "endclass")))) before kept w z kept' := by
  obtain ⟨parent, body, tail, hparent, rfl⟩ := h
  obtain ⟨w, z, hbody, hreads⟩ := reads_body body tail
  have hend {b : List Char} (hb : Blank b) (before : List Char) (kept : List (Nat × List Char)) : ∃ kept',
      Reads (blanks ++ (lit ";" ++ (group 3 upTo ++ lit "endclass"))) before kept
        (b ++ (";".toList ++ w)) z kept' := by
    obtain ⟨kept', hread⟩ := hreads (";".toList.reverse ++ (b.reverse ++ before)) kept
    exact ⟨kept', (reads_blanks hb (by simp; decide)).seq (reads_lit.seq hread)⟩
  rw [hbody]
  rcases hparent with hblank | ⟨gap, gap', parent, after, hne, hgap, hne', hgap', hword, hafter, rfl⟩
  · refine ⟨[] ++ (parent ++ (";".toList ++ w)), z, by simp, fun before kept => ?_⟩
    obtain ⟨kept', hread⟩ := hend hblank before kept
    exact ⟨kept', (reads_opt_none fun s hs =>
      fails_parent hblank (hs.trans (append_assoc ..))).seq hread⟩
  · refine ⟨(gap ++ ("extends".toList ++ (gap' ++ parent))) ++ (after ++ (";".toList ++ w)), z,
      by simp, fun before kept => ?_⟩
    obtain ⟨kept', hread⟩ := hend hafter ((gap ++ ("extends".toList ++ (gap' ++ parent))).reverse
      ++ before) ((2, parent) :: kept)
    refine ⟨kept', Reads.seq (Reads.opt ?_) hread⟩
    refine (reads_run hgap (by simp; decide) (length_pos_of_ne_nil hne)).seq (reads_lit.seq
      ((reads_run hgap' (head_word hword) (length_pos_of_ne_nil hne')).seq ?_))
    refine (reads_word hword ?_).group 2
    rw [append_assoc]
    exact bounded_semicolon hafter

theorem isSome_classDecl_of_hasDecl {s : Spot} (h : HasDecl s.after) :
    (walk classDecl s some).isSome = true := by
  obtain ⟨name, rest, hstarts, hbody⟩ := h
  obtain ⟨w, hafter, hstart⟩ := reads_classStart hstarts
  obtain ⟨v, z, hrest, hread⟩ := reads_headsBody hbody
  obtain ⟨kept', hread⟩ := hread (w.reverse ++ s.before) ((1, name) :: s.pieces)
  have hdecl : Reads classDecl s.before s.pieces (w ++ v) z kept' := by
    show Reads (classStart ++ (opt (blanks1 ++ (lit "extends" ++ (blanks1 ++ group 2 word))) ++
      (blanks ++ (lit ";" ++ (group 3 upTo ++ lit "endclass"))))) _ _ _ _ _
    exact Reads.seq (hrest ▸ hstart s.before s.pieces) hread
  obtain ⟨t, htakes, -⟩ := hdecl s rfl rfl (by rw [hafter, hrest, append_assoc])
  rw [htakes some t rfl]
  rfl

theorem IsParent.bounded {parent : List Char} (h : IsParent parent) (z : List Char) :
    Bounded (parent ++ ';' :: z) := by
  rcases h with hblank | ⟨gap, gap', word, after, hne, hgap, -, -, -, -, rfl⟩
  · exact bounded_semicolon hblank
  · rw [append_assoc]
    exact bounded_of_blank hne hgap _

theorem parent_of_yields {o b : List Char} {kept kept' : List (Nat × List Char)} (hb : Blank b)
    (h : Yields (opt (blanks1 ++ lit "extends" ++ blanks1 ++ group 2 word)) kept o kept') :
    IsParent (o ++ b) ∧ (kept' = kept ∨ ∃ w, kept' = (2, w) :: kept) := by
  rcases h with ⟨_, p, _, rfl, ⟨_, gap', _, rfl, ⟨gap, _, _, rfl, ⟨⟨hgap, hlen⟩, rfl⟩, rfl, rfl⟩,
    ⟨hgap', hlen'⟩, rfl⟩, _, ⟨⟨hp, hlen''⟩, rfl⟩, rfl⟩ | ⟨rfl, rfl⟩
  · refine ⟨.inr ⟨gap, gap', p, b, ne_nil_of_length_pos hlen, hgap,
      ne_nil_of_length_pos hlen', hgap', ⟨ne_nil_of_length_pos hlen'', hp⟩, hb, ?_⟩,
      .inr ⟨p, rfl⟩⟩
    simp
  · exact ⟨.inl hb, .inl rfl⟩

theorem declares_of_walk {s t : Spot} (h : walk classDecl s some = some t) :
    ∃ name rest, StartsClass s.after name rest ∧ HeadsBody rest ∧
      (Match.between s t).group 1 = String.ofList name := by
  obtain ⟨w, t', hpass, hyields, ht⟩ := yields_of_walk h
  obtain rfl : t' = t := Option.some.inj ht
  obtain ⟨_, _, _, rfl, ⟨_, body, _, rfl, ⟨_, _, _, rfl, ⟨_, b, _, rfl, ⟨_, o, _, rfl, ⟨_, n, _, rfl,
    ⟨_, gap, _, rfl, ⟨rfl, rfl⟩, ⟨hgap, hlen⟩, rfl⟩, _, ⟨⟨hn, hlen'⟩, rfl⟩, rfl⟩, ho⟩, ⟨hb, -⟩, rfl⟩,
    rfl, rfl⟩, _, ⟨-, rfl⟩, rfl⟩, rfl, hpieces⟩ := hyields
  obtain ⟨hparent, hkept'⟩ := parent_of_yields hb ho
  have hname : IsWord n := ⟨ne_nil_of_length_pos hlen', hn⟩
  have hafter : s.after = "class".toList ++ (gap ++ (n ++ (o ++ b ++ ';' ::
      (body ++ ("endclass".toList ++ t'.after))))) := by
    rw [hpass.after]
    simp
  refine ⟨n, _, ⟨⟨gap, ne_nil_of_length_pos hlen, hgap, hafter⟩, hname, hparent.bounded _⟩,
    ⟨_, _, _, hparent, rfl⟩, ?_⟩
  have hgroup : (Match.between s t').pieces = t'.pieces := rfl
  rw [Match.group_eq, hgroup, hpieces]
  rcases hkept' with rfl | ⟨w, rfl⟩ <;> rfl

theorem isSome_classDecl (s : Spot) : (walk classDecl s some).isSome = true ↔ HasDecl s.after := by
  refine ⟨fun h => ?_, isSome_classDecl_of_hasDecl⟩
  obtain ⟨t, ht⟩ := Option.isSome_iff_exists.1 h
  obtain ⟨name, rest, hstarts, hbody, -⟩ := declares_of_walk ht
  exact ⟨name, rest, hstarts, hbody⟩

theorem searchFrom_of_findAll {s : String} {m : Match} {ms : List Match} (h : p.findAll s = m :: ms) :
    ∃ a b, searchFrom p [] 0 s.toList = some (a, b) ∧ m = Match.between a b := by
  obtain ⟨⟨a, b⟩, l, hspans, hm, -⟩ := map_eq_cons_iff.1 h
  exact ⟨a, b, searchFrom_of_spansFrom hspans, hm.symm⟩

theorem firstDecl_of_read {text : String} {src : Source} {c : ClassDecl} {others : List ClassDecl}
    (hread : Sv.read text = .ok src) (hclasses : src.classes = c :: others) :
    FirstDecl (dropComments text).toList c.name.toList := by
  obtain ⟨enums, -, hread⟩ := Outcome.bind_eq_ok.1 hread
  obtain ⟨classes, hmap, hsrc⟩ := Outcome.bind_eq_ok.1 hread
  obtain rfl : classes = c :: others := by
    rw [← hclasses, ← Except.ok.inj hsrc]
  obtain ⟨m, ms, hmatch, -, hfind⟩ := forall₂_cons_right_iff.1 (Outcome.mapM_eq_ok.1 hmap)
  obtain ⟨a, b, hsearch, rfl⟩ := searchFrom_of_findAll hfind
  obtain ⟨hfirst, -, hwalk⟩ := firstAt_of_searchFrom isSome_classDecl hsearch
  obtain ⟨name, rest, hstarts, hbody, hgroup⟩ := declares_of_walk hwalk
  obtain ⟨fields, -, hdecl⟩ := Outcome.bind_eq_ok.1 hmatch
  obtain rfl : _ = c := Except.ok.inj hdecl
  have hname : ((Match.between a b).group 1).toList = name := by rw [hgroup, String.toList_ofList]
  exact ⟨a.after, rest, hfirst, hname ▸ hstarts, hbody⟩

/-! ## The class in the model -/

/-- The name that the pipeline takes for the model is the one of a class of this name. -/
def Detects (text name : String) : Prop :=
  ∃ found : String, FirstClass text.toList found.toList ∧ modelName found = Model.className name

theorem modelName_eq_iff {found name : String} (hfound : Model.IsIdent found)
    (hname : Model.IsIdent name) : modelName found = Model.className name ↔
      Model.letters true found.toList = Model.letters true (Model.unmarked name.toList) := by
  have hmodel := Model.toList_modelName hfound
  rw [String.ofList_toList] at hmodel
  rw [← String.toList_inj, hmodel, Model.toList_className hname]
  exact Model.joinedParts_inj hfound fun c hc => hname c (Model.unmarked_subset _ hc)

theorem length_letters (cs : List Char) (start : Bool) :
    (Model.letters start cs).length = cs.countP (· != '_') := by
  induction cs generalizing start with
  | nil => rfl
  | cons c cs ih =>
    rw [Model.letters, countP_cons]
    split <;> simp [*]

theorem letters_unmarked_iff (cs : List Char) :
    Model.letters true cs = Model.letters true (Model.unmarked cs) ↔ ¬ Model.Marked cs := by
  constructor
  · intro heq hmarked
    obtain ⟨u, x, hx, rfl⟩ := hmarked.exists_append
    have hlen := congrArg List.length heq
    rw [Model.unmarked_append hx, length_letters, length_letters, countP_append] at hlen
    rcases hx with rfl | rfl <;> simp at hlen
  · intro hmarked
    rw [Model.unmarked, if_neg hmarked]

theorem Detects.iff_of_firstClass {text found name : String}
    (h : FirstClass text.toList found.toList) :
    Detects text name ↔ modelName found = Model.className name := by
  constructor
  · rintro ⟨found', h', hname⟩
    rwa [String.toList_inj.1 (h.unique h')]
  · exact fun hname => ⟨found, h, hname⟩

theorem detects_iff_classIn? {text name : String} :
    Detects text name ↔ (classIn? text).map modelName = some (Model.className name) := by
  rw [Option.map_eq_some_iff]
  exact exists_congr fun found => and_congr_left fun _ => classIn?_eq_some_iff.symm

/-- Without comments, and with a declaration at the first word `class`, only the mark makes a
difference. -/
theorem firstClass_of_firstDecl (h : FirstDecl text name)
    (hfirst : ∀ v, FirstAt HasClass text v → HasDecl v) : FirstClass text name := by
  obtain ⟨v, rest, hdecl, hstarts, hbody⟩ := h
  cases hsearch : searchFrom classStart [] 0 text with
  | none => exact absurd ⟨name, rest, hstarts⟩ (not_of_searchFrom isSome_classStart hsearch hdecl.suffix)
  | some ab =>
    obtain ⟨hclass, -⟩ := firstAt_of_searchFrom isSome_classStart hsearch
    have hboth : FirstAt HasDecl text ab.1.after :=
      ⟨hclass.suffix, hfirst _ hclass, fun v' hv' ⟨n, r, hn, _⟩ => hclass.first v' hv' ⟨n, r, hn⟩⟩
    exact ⟨v, rest, hdecl.unique hboth ▸ hclass, hstarts⟩

theorem on_detectClass {j : Console.Job} {d : Desk} {text : String}
    (h : d.store.read j.input.source = .ok text) :
    j.detectClass.on d = (.ok ((classIn? text).map modelName), d) := by
  have hthere := Store.exists_of_read h
  unfold Console.Job.detectClass
  simp only [Run.on_bind, Run.on_isThere, hthere, Bool.not_true, Bool.false_eq_true, if_false,
    Run.on_attempt, Run.on_readFile, h, Run.on_pure]

theorem run_bind {α β : Type} {a : Window.Act α} {f : α → Window.Act β} {s t : Window.Scene} {x : α}
    (h : a.run.run s = (.ok x, t)) : (a >>= f).run.run s = (f x).run.run t := by
  rw [ExceptT.run_bind, StateT.run_bind, h]
  rfl

theorem run_onDesk {α : Type} {r : Run α} {s : Window.Scene} {x : α}
    (h : r.on s.desk = (.ok x, s.desk)) : (Window.onDesk r).run.run s = (.ok x, s) := by
  have hget : (get : Window.Act Window.Scene).run.run s = (.ok s, s) := rfl
  unfold Window.onDesk
  rw [run_bind hget, h]
  rfl

theorem run_attempt {α : Type} {a : Window.Act α} {s t : Window.Scene} {x : α}
    (h : a.run.run s = (.ok x, t)) : (Window.attempt a).run.run s = (.ok (.ok x), t) := by
  have hrun : a s = (.ok x, t) := h
  simp only [Window.attempt, ExceptT.run, StateT.run, tryCatch, tryCatchThe, MonadExceptOf.tryCatch,
    ExceptT.tryCatch, bind, ExceptT.bind, ExceptT.mk, StateT.bind, ExceptT.bindCont, hrun]
  rfl

theorem run_detectClass {scene : Window.Scene} {path text : String}
    (hpath : scene.window.vars .source = .str path) (h : scene.desk.store.read path = .ok text) :
    ∃ after, Window.detectClass.run.run scene = (.ok (), after) ∧
      after.window.written = scene.window.written ++ (classIn? text).toList.map (fun _ => .className) ∧
      ∀ name ∈ classIn? text, after.window.vars .className = .str (modelName name) := by
  have hthere := Store.exists_of_read h
  have hvar : (Window.read .source).run.run scene = (.ok (.str path), scene) := by
    rw [← hpath]
    rfl
  have hleads : (Window.leadsSomewhere (.str path)).run.run scene = (.ok true, scene) := by
    rw [Window.leadsSomewhere]
    exact run_onDesk (by rw [Run.on_isThere, hthere])
  have hfile : (Window.attempt (Window.onDesk (Run.readFile path))).run.run scene =
      (.ok (.ok text), scene) := run_attempt (run_onDesk (by rw [Run.on_readFile, h]))
  unfold Window.detectClass
  rw [run_bind hvar, run_bind hleads]
  simp only [Bool.not_true, Bool.false_eq_true, if_false, pathOf]
  rw [run_bind hfile]
  dsimp only
  cases classIn? text with
  | none => exact ⟨scene, rfl, by simp, by simp⟩
  | some name => exact ⟨_, rfl, rfl, by simp⟩

/-- The window was set to this class. -/
def Shows (before after : Window.Scene) (name : String) : Prop :=
  after.window.written = before.window.written ++ [.className] ∧
    after.window.vars .className = .str name

/-- The window is set to a class exactly if the text has the word `class` with its name. -/
theorem shows_iff {scene : Window.Scene} {path text : String}
    (hpath : scene.window.vars .source = .str path) (h : scene.desk.store.read path = .ok text)
    (name : String) : (∃ after, Window.detectClass.run.run scene = (.ok (), after) ∧
      Shows scene after name) ↔ (classIn? text).map modelName = some name := by
  obtain ⟨after, hrun, hwritten, hvar⟩ := run_detectClass hpath h
  have hafter : (∃ after, Window.detectClass.run.run scene = (.ok (), after) ∧ Shows scene after name) ↔
      Shows scene after name := by
    constructor
    · rintro ⟨after', hrun', hshows⟩
      rw [hrun] at hrun'
      exact (Prod.mk.inj hrun').2 ▸ hshows
    · exact fun hshows => ⟨after, hrun, hshows⟩
  rw [hafter, Shows, hwritten]
  cases hfound : classIn? text with
  | none => simp
  | some found => simp [hvar found hfound]

/-- A console and a window look for the class in a text from which declarations are read. They find the
class of the model exactly if the name after the first word `class` becomes the name of the class that is
declared first outside comments. For plain names this is so if their letters are the same without the
mark. In a text without comments, with a declaration at the first word `class`, it is so exactly if the
name has no mark. -/
theorem detected_class_iff {text : String} {src : Source} {c : ClassDecl} {others : List ClassDecl}
    {j : Console.Job} {d : Desk} {scene : Window.Scene} {path : String}
    (hread : Sv.read text = .ok src) (hclasses : src.classes = c :: others)
    (hname : Model.IsIdent c.name) (hconsole : d.store.read j.input.source = .ok text)
    (hpath : scene.window.vars .source = .str path)
    (hwindow : scene.desk.store.read path = .ok text) :
    FirstDecl (dropComments text).toList c.name.toList ∧
    (j.detectClass.on d = (.ok (some (Model.className c.name)), d) ↔ Detects text c.name) ∧
    ((∃ after, Window.detectClass.run.run scene = (.ok (), after) ∧
      Shows scene after (Model.className c.name)) ↔ Detects text c.name) ∧
    (∀ found : String, FirstClass text.toList found.toList → Model.IsIdent found →
      (Detects text c.name ↔
        Model.letters true found.toList = Model.letters true (Model.unmarked c.name.toList))) ∧
    (dropComments text = text → (∀ v, FirstAt HasClass text.toList v → HasDecl v) →
      (Detects text c.name ↔ ¬ Model.Marked c.name.toList)) := by
  have hdecl := firstDecl_of_read hread hclasses
  refine ⟨hdecl, ?_, ?_, fun found hfound hident => ?_, fun hbare hfirst => ?_⟩
  · rw [on_detectClass hconsole, detects_iff_classIn?]
    simp
  · rw [shows_iff hpath hwindow, detects_iff_classIn?]
  · rw [Detects.iff_of_firstClass hfound, modelName_eq_iff hident hname]
  · rw [hbare] at hdecl
    rw [Detects.iff_of_firstClass (firstClass_of_firstDecl hdecl hfirst), modelName_eq_iff hname hname,
      letters_unmarked_iff]

/-- A class with the mark of a type. -/
def markedText : String := "class foo_t;\nendclass\n"

/-- What `markedText` declares. -/
def markedClass : ClassDecl where
  name := "foo_t"
  parent := none
  fields := []
  constraints := []
  source := "class foo_t;\nendclass"

/-- A file with `markedText`. -/
def markedDesk : Desk := { store := { files := [("a.sv", markedText)] } }

/-- A console that works on this file. -/
def markedJob : Console.Job where
  look := ⟨"", false⟩
  verbose := false
  quiet := true
  settings := { input := .str "a.sv", hwFields := .str "", className := .str "", vectors := .int 1
                seed := .int 1, outputDir := .str ".", subsystem := .bool false, overrides := .str "" }
  environment := []
  input := Input.of "a.sv"
  steps := []

/-- A window that works on this file. -/
def markedScene : Window.Scene where
  window := { vars := fun v => if v = .source then .str "a.sv" else v.start }
  desk := markedDesk
  clock := ""

/-- The class is called `Foo` in the model, and neither finds it. -/
theorem detected_class_of_marked : Model.className markedClass.name = "Foo" ∧
    markedJob.detectClass.on markedDesk ≠ (.ok (some "Foo"), markedDesk) ∧
    ¬ ∃ after, Window.detectClass.run.run markedScene = (.ok (), after) ∧
      Shows markedScene after "Foo" := by
  have hread : Sv.read markedText = .ok { enums := [], classes := [markedClass] } := by decide +kernel
  have hfile : markedDesk.store.read "a.sv" = .ok markedText := by decide +kernel
  have hclass : Model.className markedClass.name = "Foo" := by decide +kernel
  have hstarts : StartsClass markedText.toList markedClass.name.toList ";\nendclass\n".toList :=
    ⟨⟨[' '], by decide, by decide, by decide⟩, ⟨by decide, by decide⟩,
      bounded_cons.2 (by decide)⟩
  have hbody : HeadsBody ";\nendclass\n".toList :=
    ⟨[], ['\n'], ['\n'], .inl (by decide), by decide⟩
  obtain ⟨-, hconsole, hwindow, -, hmarked⟩ :=
    @detected_class_iff _ _ _ _ markedJob markedDesk markedScene _ hread rfl (by decide) hfile rfl
      hfile
  have hfirst : ∀ v, FirstAt HasClass markedText.toList v → HasDecl v := by
    intro v hv
    have hall : FirstAt HasClass markedText.toList markedText.toList :=
      ⟨List.suffix_refl _, ⟨_, _, hstarts⟩, fun v' hv' _ => hv'.length_le⟩
    exact hv.unique hall ▸ ⟨_, _, hstarts, hbody⟩
  have hnot : ¬ Detects markedText markedClass.name := fun h =>
    (hmarked (by decide +kernel) hfirst).1 h (by decide +kernel)
  rw [hclass] at hconsole hwindow
  exact ⟨hclass, fun h => hnot (hconsole.1 h), fun h => hnot (hwindow.1 h)⟩

end Stimulus.Pipeline
