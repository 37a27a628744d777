import Mathlib.Algebra.Order.Ring.Nat
import Mathlib.Data.List.Basic
import Mathlib.Data.Option.Basic
import Stimulus.Model.Enum
import Stimulus.Proofs.Expr.Negation
import Stimulus.Proofs.Pattern.Find
import Stimulus.Proofs.Sv.Literal
import Stimulus.Proofs.Text.Lines

/-!
# Enumerations and the values of their members

An enumeration as it is written: `typedef enum logic [3:0] { A, B = 4'hA, C } mode_e;`, with blanks of any
number between the parts.

* `readEnums_enumeration`: the enumeration is found, and its members are written with their values. A
  member without a literal is one more than the one before it, and the first one is zero. There is an
  error instead exactly if a number in base ten has more digits than are read.
-/

open List
open String (ofList toList_ofList)

namespace Stimulus.Sv

open Pattern Text Model

/-! ## The parts of an enumeration -/

/-- The value of a member: a literal after `=`, with the blanks on both sides of it. -/
structure Setting where
  left : List Char
  right : List Char
  literal : Literal
  blank_left : Blank left
  blank_right : Blank right

def Setting.chars (s : Setting) : List Char := s.left ++ '=' :: (s.right ++ s.literal.chars)

/-- A member of an enumeration, with the blanks around it. -/
structure Enumerator where
  before : List Char
  name : List Char
  setting? : Option Setting
  after : List Char
  name_ne_nil : name ≠ []
  isName : ∀ c ∈ name, isWordChar c = true ∨ c = '$'
  blank_before : Blank before
  blank_after : Blank after

namespace Enumerator

variable (m : Enumerator)

/-- The member without the blanks around it. -/
def core : List Char := m.name ++ (m.setting?.elim [] Setting.chars)

def chars : List Char := m.before ++ m.core ++ m.after

def IsShort : Prop := ∀ s ∈ m.setting?, s.literal.IsShort

instance : Decidable m.IsShort := inferInstanceAs (Decidable (∀ s ∈ m.setting?, _))

/-- The value of the member, after a member with the given value. -/
def value (previous : Option Int) : Int :=
  match m.setting?, previous with
  | some s, _ => s.literal.value
  | none, none => 0
  | none, some k => k + 1

end Enumerator

/-- The names of members with their values, after a member with the given value. -/
def valuesFrom (previous : Option Int) : List Enumerator → List (String × Int)
  | [] => []
  | m :: rest => (ofList m.name, m.value previous) :: valuesFrom (some (m.value previous)) rest

/-- The type that an enumeration is based on: a word, and perhaps a range `[n:0]`. -/
structure BaseType where
  gap : List Char
  word : List Char
  /-- The range, with the blanks before it. -/
  range? : Option (List Char × Numeral)
  gap_ne_nil : gap ≠ []
  word_ne_nil : word ≠ []
  blank_gap : Blank gap
  isWord : ∀ c ∈ word, isWordChar c = true
  blank_range : ∀ r ∈ range?, Blank r.1

namespace BaseType

def rangeChars (r : List Char × Numeral) : List Char := r.1 ++ '[' :: (r.2.chars ++ ":0]".toList)

def chars (b : BaseType) : List Char := b.gap ++ (b.word ++ b.range?.elim [] rangeChars)

end BaseType

/-- An enumeration as it is written. -/
structure Enumeration where
  gap : List Char
  base? : Option BaseType
  beforeOpen : List Char
  first : Enumerator
  more : List Enumerator
  afterClose : List Char
  name : List Char
  beforeEnd : List Char
  gap_ne_nil : gap ≠ []
  name_ne_nil : name ≠ []
  isName : ∀ c ∈ name, isWordChar c = true
  blank_gap : Blank gap
  blank_beforeOpen : Blank beforeOpen
  blank_afterClose : Blank afterClose
  blank_beforeEnd : Blank beforeEnd

namespace Enumeration

variable (e : Enumeration)

def members : List Enumerator := e.first :: e.more

/-- The text between the braces. -/
def inner : List Char := e.first.chars ++ (e.more.map Enumerator.chars).flatMap (',' :: ·)

def chars : List Char :=
  "typedef".toList ++ (e.gap ++ ("enum".toList ++ ((e.base?.elim [] BaseType.chars ++ e.beforeOpen) ++
    ("\x7b".toList ++ (e.inner ++ ("\x7d".toList ++ (e.afterClose ++ (e.name ++ (e.beforeEnd ++ ";".toList)))))))))

def range? : Option Numeral := e.base?.bind fun b => b.range?.map Prod.snd

/-- No number in base ten has more digits than are read. -/
def IsShort : Prop := (∀ n ∈ e.range?, n.IsShort) ∧ ∀ m ∈ e.members, m.IsShort

instance : Decidable e.IsShort := inferInstanceAs (Decidable (_ ∧ _))

def width : Int := e.range?.elim 32 fun n => (n.value : Int) + 1

end Enumeration

/-! ## Reading members -/

namespace Enumerator

variable (m : Enumerator)

theorem not_blank_name {c : Char} (h : c ∈ m.name) : isBlank c = false := by
  rcases m.isName c h with h | rfl
  · exact isBlank_of_isWordChar h
  · decide

theorem core_ne_nil : m.core ≠ [] := by
  simp [core, m.name_ne_nil]

theorem trim_name : Trim m.name :=
  ⟨fun _ hc => m.not_blank_name (mem_of_mem_head? hc),
    fun _ hc => m.not_blank_name (mem_of_mem_getLast? hc)⟩

theorem trim_core : Trim m.core := by
  refine ⟨fun c hc => ?_, fun c hc => ?_⟩
  · rw [core, head?_append_of_ne_nil _ m.name_ne_nil] at hc
    exact m.trim_name.head c hc
  · cases hs : m.setting? with
    | none =>
      rw [core, hs, Option.elim_none, append_nil] at hc
      exact m.trim_name.last c hc
    | some s =>
      have hcut : m.core = (m.name ++ s.left ++ '=' :: s.right) ++ s.literal.chars := by
        simp [core, hs, Setting.chars]
      rw [hcut, getLast?_append_of_ne_nil _ s.literal.chars_ne_nil] at hc
      exact s.literal.not_blank (mem_of_mem_getLast? hc)

theorem strip_chars : strip (ofList m.chars) = ofList m.core :=
  strip_append m.blank_before m.trim_core m.blank_after

/-- A character of a member is a blank, a character of a name, of a literal or the mark `=`. -/
theorem mem_chars {c : Char} (h : c ∈ m.chars) : isBlank c = true ∨ isWordChar c = true ∨
    c ∈ ['$', '=', '\'', '-', '+'] := by
  simp only [chars, core, mem_append] at h
  rcases h with (h | h | h) | h
  · exact .inl (m.blank_before c h)
  · rcases m.isName c h with h | rfl
    · exact .inr (.inl h)
    · exact .inr (.inr (by decide))
  · cases hs : m.setting? with
    | none => simp [hs] at h
    | some s =>
      simp only [hs, Option.elim_some, Setting.chars, mem_append, mem_cons] at h
      rcases h with h | rfl | h | h
      · exact .inl (s.blank_left c h)
      · exact .inr (.inr (by decide))
      · exact .inl (s.blank_right c h)
      · exact .inr ((s.literal.mem_chars h).imp_right fun h => mem_cons_of_mem _ (mem_cons_of_mem _ h))
  · exact .inl (m.blank_after c h)

theorem ne_close {c : Char} (h : c ∈ m.chars) : (c != '}') = true := by
  rw [bne_iff_ne]
  rintro rfl
  rcases m.mem_chars h with h | h | h <;> revert h <;> decide

theorem readMember_core : readMember (ofList m.core) =
    match m.setting? with
    | none => .ok (ofList m.name, none)
    | some s => s.literal.outcome.map fun v => (ofList m.name, some v) := by
  have hname : '=' ∉ m.name := by
    intro h
    rcases m.isName _ h with h | h
    · revert h; decide
    · exact absurd h (by decide)
  cases hs : m.setting? with
  | none =>
    have hpart : partition "=" (ofList m.core) = (ofList m.core, none) := by
      have hnot : ¬ ['='] <:+: (ofList m.core).toList := by
        rw [core, hs, Option.elim_none, append_nil, toList_ofList]
        exact fun hin => hname (hin.subset mem_cons_self)
      exact partition_eq_self hnot
    have hcore : m.core = m.name := by rw [core, hs, Option.elim_none, append_nil]
    rw [readMember, hpart, hcore]
    rfl
  | some s =>
    have hleft : '=' ∉ m.name ++ s.left := by
      rw [mem_append, not_or]
      exact ⟨hname, fun h => absurd (s.blank_left _ h) (by decide)⟩
    have hcut : m.core = (m.name ++ s.left) ++ (['='] ++ (s.right ++ s.literal.chars)) := by
      simp [core, hs, Setting.chars]
    have hpart : partition "=" (ofList m.core) =
        (ofList (m.name ++ s.left), some (ofList (s.right ++ s.literal.chars))) := by
      rw [hcut]
      exact partition_shuns (shuns_of_not_mem hleft)
    have hstrip : strip (ofList (m.name ++ s.left)) = ofList m.name :=
      strip_right m.trim_name s.blank_left
    have hvalue : strip (ofList (s.right ++ s.literal.chars)) = ofList s.literal.chars :=
      strip_left s.blank_right s.literal.trim_chars
    rw [readMember, hpart]
    simp only [hstrip, hvalue, readNumber_literal]
    rfl

end Enumerator

theorem readMembers_inner (e : Enumeration) :
    readMembers (ofList e.inner) = e.members.mapM fun m => readMember (ofList m.core) := by
  have hcomma (m : Enumerator) : ',' ∉ m.chars := fun h => by
    rcases m.mem_chars h with h | h | h <;> revert h <;> decide
  have hsplit : splitOn "," (ofList e.inner) = e.members.map fun m => ofList m.chars := by
    have hcut : splitAux [','] [] (e.first.chars ++ (e.more.map Enumerator.chars).flatMap (',' :: ·)) =
        e.first.chars :: e.more.map Enumerator.chars :=
      splitAux_flatMap (hcomma _) (by simpa using fun m _ => hcomma m)
    change (splitAux [','] [] (ofList e.inner).toList).map ofList = _
    rw [toList_ofList, Enumeration.inner, hcut]
    simp [Enumeration.members]
  have hpieces : ((splitOn "," (ofList e.inner)).map strip).filter (! ·.isEmpty) =
      e.members.map fun m => ofList m.core := by
    have hstrip : (e.members.map fun m => ofList m.chars).map strip =
        e.members.map fun m => ofList m.core := by
      rw [map_map]
      exact map_congr_left fun m _ => m.strip_chars
    rw [hsplit, hstrip, filter_eq_self]
    rintro x hx
    obtain ⟨m, -, rfl⟩ := mem_map.1 hx
    simp [m.core_ne_nil]
  rw [readMembers, hpieces]
  exact Outcome.mapM_of_map (by simp)

/-! ## Finding the declaration -/

section Base

variable {before z : List Char}

variable {kept : List (Nat × List Char)}

theorem reads_range (n : Numeral) :
    Reads (opt (lit "[" ++ group 1 digits ++ lit ":0]")) before kept ('[' :: (n.chars ++ ":0]".toList)) z
      ((1, n.chars) :: kept) := by
  have hcolon : ∀ c ∈ (":0]".toList ++ z).head?, isDecimal c = false := by simp; decide
  refine Reads.opt ?_
  rw [reads_assoc]
  exact reads_lit (l := "[").seq
    (((reads_run (fun _ => n.isDecimal_of_mem) hcolon (by simp [Numeral.chars])).group 1).seq reads_lit)

/-- The pattern of a range does not match at an opening brace. -/
theorem reads_noRange (hz : z.head? = some '\x7b') :
    Reads (opt (lit "[" ++ group 1 digits ++ lit ":0]")) before kept [] z kept := by
  obtain ⟨r, rfl⟩ := head?_eq_some_iff.1 hz
  exact reads_opt_none fun s hs => ((fails_lit (by rw [hs]; simp)).seq).seq

theorem reads_baseWord (b : BaseType) {v : List Char}
    (hv : ∀ c ∈ (v ++ z).head?, isWordChar c = false)
    (h : Reads (blanks ++ opt (lit "[" ++ group 1 digits ++ lit ":0]"))
      (b.word.reverse ++ (b.gap.reverse ++ before)) [] v z kept) :
    Reads (opt (blanks1 ++ word ++ blanks ++ opt (lit "[" ++ group 1 digits ++ lit ":0]"))) before []
      (b.gap ++ (b.word ++ v)) z kept := by
  have hword : IsWord b.word := ⟨b.word_ne_nil, b.isWord⟩
  refine Reads.opt ?_
  show Reads (blanks1 ++ (word ++ (blanks ++ opt (lit "[" ++ group 1 digits ++ lit ":0]")))) _ _ _ _ _
  refine Reads.seq (reads_run b.blank_gap ?_ (length_pos_iff.2 b.gap_ne_nil)) ((reads_word hword hv).seq h)
  rw [append_assoc]
  exact head_word hword

/-- Blanks and a word do not match before an opening brace. -/
theorem fails_blanks_word {b : List Char} {s : Spot} (hb : Blank b) (hz : z.head? = some '\x7b')
    (hs : s.after = b ++ z) : Fails (blanks1 ++ word) s := by
  intro k
  refine walk_eq_none fun w hw hpre => ?_
  obtain ⟨u, v, rfl, ⟨hu, -⟩, hv, hlen⟩ := hw
  obtain ⟨d, v, rfl⟩ := exists_cons_of_length_pos hlen
  obtain ⟨r, rfl⟩ := head?_eq_some_iff.1 hz
  obtain ⟨t, ht⟩ := hpre
  have hd : isWordChar d = true := hv d mem_cons_self
  rw [hs, append_assoc] at ht
  -- The word starts in the blanks, at the brace or behind it.
  rcases append_eq_append_iff.1 ht with ⟨y, rfl, hy⟩ | ⟨y, rfl, hy⟩
  · cases y with
    | nil =>
      obtain ⟨rfl, -⟩ := List.cons.inj hy
      revert hd
      decide
    | cons c y =>
      obtain ⟨rfl, -⟩ := List.cons.inj hy
      exact absurd (hb d (by simp)) (by simp [isBlank_of_isWordChar hd])
  · cases y with
    | nil =>
      obtain ⟨rfl, -⟩ := List.cons.inj hy
      revert hd
      decide
    | cons c y =>
      obtain ⟨rfl, -⟩ := List.cons.inj hy
      have := hu '\x7b' (by simp)
      revert this
      decide

theorem reads_base (e : Enumeration) (hz : z.head? = some '\x7b') :
    Reads (opt (blanks1 ++ word ++ blanks ++ opt (lit "[" ++ group 1 digits ++ lit ":0]")) ++ blanks)
      before [] (e.base?.elim [] BaseType.chars ++ e.beforeOpen) z
      (e.range?.elim [] fun n => [(1, n.chars)]) := by
  have hopen : ∀ c ∈ z.head?, isBlank c = false := by simp [hz]; decide
  have hbrace : ∀ c ∈ z.head?, isWordChar c = false := by simp [hz]; decide
  cases hb : e.base? with
  | none =>
    have hrange : e.range? = none := by simp [Enumeration.range?, hb]
    rw [hrange]
    have hblanks {before : List Char} : Reads blanks before [] e.beforeOpen z [] :=
      reads_blanks e.blank_beforeOpen hopen
    refine Reads.seq (reads_opt_none fun s hs => ?_) hblanks
    exact (fails_blanks_word e.blank_beforeOpen hz (hs.trans rfl)).seq.seq
  | some b =>
    cases hr : b.range? with
    | none =>
      have hrange : e.range? = none := by simp [Enumeration.range?, hb, hr]
      rw [hrange]
      have hchars : (some b).elim [] BaseType.chars ++ e.beforeOpen =
          (b.gap ++ (b.word ++ (e.beforeOpen ++ []))) ++ [] := by
        simp [BaseType.chars, hr]
      rw [hchars]
      refine (reads_baseWord b ?_ ?_).seq (reads_blanks blank_nil hopen)
      · rw [append_nil]
        exact head_gap e.blank_beforeOpen isWordChar_of_isBlank hbrace
      · exact Reads.seq (reads_blanks e.blank_beforeOpen hopen) (reads_noRange hz)
    | some r =>
      obtain ⟨u, n⟩ := r
      have hrange : e.range? = some n := by simp [Enumeration.range?, hb, hr]
      rw [hrange]
      have hchars : (some b).elim [] BaseType.chars ++ e.beforeOpen =
          (b.gap ++ (b.word ++ (u ++ '[' :: (n.chars ++ ":0]".toList)))) ++ e.beforeOpen := by
        simp [BaseType.chars, hr, BaseType.rangeChars]
      rw [hchars]
      refine (reads_baseWord b ?_ ?_).seq (reads_blanks e.blank_beforeOpen hopen)
      · rw [append_assoc]
        exact head_gap (b.blank_range _ hr) isWordChar_of_isBlank (by simp; decide)
      · exact Reads.seq (reads_blanks (b.blank_range _ hr) (by simp; decide)) (reads_range n)

end Base

/-- What follows the members. -/
theorem reads_nameEnd (e : Enumeration) {kept : List (Nat × List Char)} (before z : List Char) :
    Reads (blanks ++ (group 3 word ++ (blanks ++ lit ";"))) before kept
      (e.afterClose ++ (e.name ++ (e.beforeEnd ++ ";".toList))) z ((3, e.name) :: kept) := by
  have hname : IsWord e.name := ⟨e.name_ne_nil, e.isName⟩
  have hend : ∀ c ∈ (e.beforeEnd ++ ";".toList ++ z).head?, isWordChar c = false := by
    rw [append_assoc]
    exact head_gap e.blank_beforeEnd isWordChar_of_isBlank (by simp; decide)
  have hsemi : ∀ c ∈ (";".toList ++ z).head?, isBlank c = false := by simp; decide
  refine Reads.seq (reads_blanks e.blank_afterClose ?_) (((reads_word hname hend).group 3).seq
    (Reads.seq (reads_blanks e.blank_beforeEnd hsemi) reads_lit))
  rw [append_assoc]
  exact head_word hname

theorem reads_enumDecl (e : Enumeration) (before z : List Char) :
    Reads enumDecl before [] e.chars z
      ((3, e.name) :: (2, e.inner) :: e.range?.elim [] fun n => [(1, n.chars)]) := by
  have hgap {r : List Char} : ∀ c ∈ ("enum".toList ++ r).head?, isBlank c = false := by simp; decide
  have hclose {r : List Char} : ∀ c ∈ ("\x7d".toList ++ r).head?, (c != '}') = false := by simp
  have hinner : ∀ c ∈ e.inner, (c != '}') = true := by
    intro c hc
    simp only [Enumeration.inner, mem_append, mem_flatMap, mem_map, mem_cons] at hc
    rcases hc with hc | ⟨_, ⟨m, -, rfl⟩, rfl | hc⟩
    · exact e.first.ne_close hc
    · decide
    · exact m.ne_close hc
  have hlen : 1 ≤ e.inner.length := by
    have := length_pos_iff.2 e.first.core_ne_nil
    simp only [Enumeration.inner, Enumerator.chars, length_append]
    omega
  show Reads (lit "typedef" ++ (blanks1 ++ (lit "enum" ++ ((opt (blanks1 ++ word ++ blanks ++
    opt (lit "[" ++ group 1 digits ++ lit ":0]")) ++ blanks) ++ (lit "\x7b" ++ (group 2 (some1Not '}') ++
      (lit "\x7d" ++ (blanks ++ (group 3 word ++ (blanks ++ lit ";")))))))))) _ _ _ _ _
  refine reads_lit.seq (Reads.seq (reads_run e.blank_gap ?_ (length_pos_iff.2 e.gap_ne_nil))
    (reads_lit.seq ((reads_base e ?_).seq (reads_lit.seq (Reads.seq ((reads_run hinner ?_ hlen).group 2)
      (reads_lit.seq (reads_nameEnd e _ _)))))))
  · rw [append_assoc]
    exact hgap
  · simp
  · rw [append_assoc]
    exact hclose

/-! ## Values -/

/-- A member as it is read. -/
def Enumerator.read (m : Enumerator) : String × Option Int :=
  (ofList m.name, m.setting?.map fun s => s.literal.value)

theorem readMember_of_isShort {m : Enumerator} (h : m.IsShort) :
    readMember (ofList m.core) = .ok m.read := by
  rw [m.readMember_core, Enumerator.read]
  cases hs : m.setting? with
  | none => rfl
  | some s => simp [Literal.outcome_eq, h s hs, Except.map]

theorem isShort_of_readMember {m : Enumerator} {x : String × Option Int}
    (h : readMember (ofList m.core) = .ok x) : m.IsShort := by
  intro s hs
  rw [m.readMember_core, Option.mem_def.1 hs] at h
  by_contra hlong
  simp [Literal.outcome_eq, hlong, Except.map] at h

/-- The error says that there are too many digits. -/
theorem eq_longInteger_of_readMember {m : Enumerator} {f : Failure}
    (h : readMember (ofList m.core) = .error f) : ∃ digits, mostDigits < digits ∧ f = .longInteger digits := by
  rw [m.readMember_core] at h
  cases hs : m.setting? with
  | none =>
    rw [hs] at h
    cases h
  | some s =>
    by_cases hshort : s.literal.IsShort
    · simp [hs, Literal.outcome_eq, hshort, Except.map] at h
    · simp only [hs, Literal.outcome_eq, if_neg hshort, Except.map] at h
      exact ⟨_, Literal.lt_digitCount hshort, (Except.error.inj h).symm⟩

theorem numbered_read (previous : Option Int) (ms : List Enumerator) :
    numbered (previous.elim 0 (· + 1)) (ms.map Enumerator.read) = valuesFrom previous ms := by
  induction ms generalizing previous with
  | nil => rfl
  | cons m ms ih =>
    have hvalue : (m.setting?.map fun s => s.literal.value).getD (previous.elim 0 (· + 1)) =
        m.value previous := by
      unfold Enumerator.value
      cases m.setting? <;> cases previous <;> rfl
    rw [map_cons, valuesFrom, ← ih (some (m.value previous)), Enumerator.read, numbered, hvalue]
    rfl

theorem findAll_enumeration (e : Enumeration) : (enumDecl.findAll (ofList e.chars)).map Match.pieces =
    [(3, e.name) :: (2, e.inner) :: e.range?.elim [] fun n => [(1, n.chars)]] := by
  have hfinds : Finds enumDecl Match.pieces e.chars
      [(3, e.name) :: (2, e.inner) :: e.range?.elim [] fun n => [(1, n.chars)]] :=
    Reads.finds (append_ne_nil_of_left_ne_nil (by decide) _) (reads_enumDecl e) fun _ hm => hm
  have hleads : Leads enumDecl "typedef".toList :=
    (leads_lit "typedef").seq.seq.seq.seq.seq.seq.seq.seq.seq.seq.seq
  have := hfinds.findAll (hleads.lacks_nil (by decide))
  rwa [append_nil] at this

/-- The width is read from the range. -/
def Enumeration.readWidth (e : Enumeration) : Outcome Int :=
  match e.range? with
  | some n => do pure ((← integer (ofList n.chars)) + 1)
  | none => pure 32

theorem exists_readEnums (e : Enumeration) : ∃ source, readEnums (ofList e.chars) = do
    let width ← e.readWidth
    let members ← readMembers (ofList e.inner)
    return [{ name := ofList e.name, members, width, source }] := by
  obtain ⟨m, hm, hpieces⟩ := map_eq_singleton_iff.1 (findAll_enumeration e)
  refine ⟨m.text, ?_⟩
  have hname : m.group 3 = ofList e.name := by simp [Match.group_eq, hpieces]
  have hinner : m.group 2 = ofList e.inner := by simp [Match.group_eq, hpieces]
  have hrange : m.group? 1 = e.range?.map fun n => ofList n.chars := by
    cases hr : e.range? <;> simp [Match.group?_eq, hpieces, hr]
  rw [readEnums, hm, mapM_cons, mapM_nil, Enum.ofMatch, hrange, hname, hinner,
    Enumeration.readWidth]
  cases e.range? with
  | none => cases readMembers (ofList e.inner) <;> rfl
  | some n =>
    simp only [Option.map_some]
    cases integer (ofList n.chars) with
    | error f => rfl
    | ok w => cases readMembers (ofList e.inner) <;> rfl

theorem isShort_of_readEnums {e : Enumeration} {ds : List Enum}
    (h : readEnums (ofList e.chars) = .ok ds) : e.IsShort := by
  obtain ⟨source, hread⟩ := exists_readEnums e
  rw [hread, readMembers_inner] at h
  obtain ⟨w, hwidth, h⟩ := Outcome.bind_eq_ok.1 h
  obtain ⟨xs, hxs, -⟩ := Outcome.bind_eq_ok.1 h
  refine ⟨fun n hn => ?_, fun m hm => ?_⟩
  · rw [Enumeration.readWidth, Option.mem_def.1 hn] at hwidth
    obtain ⟨v, hv, -⟩ := Outcome.bind_eq_ok.1 hwidth
    by_contra hn
    simp [n.integer_chars, hn] at hv
  · obtain ⟨x, -, hx⟩ := Outcome.exists_mem_of_mapM hxs hm
    exact isShort_of_readMember hx

theorem eq_longInteger_of_readEnums {e : Enumeration} {f : Failure}
    (h : readEnums (ofList e.chars) = .error f) : ∃ digits, mostDigits < digits ∧ f = .longInteger digits := by
  obtain ⟨source, hread⟩ := exists_readEnums e
  rw [hread, readMembers_inner] at h
  cases hwidth : e.readWidth with
  | error g =>
    rw [hwidth] at h
    obtain rfl := Except.error.inj h
    unfold Enumeration.readWidth at hwidth
    cases hr : e.range? with
    | none =>
      rw [hr] at hwidth
      cases hwidth
    | some n =>
      by_cases hshort : n.IsShort
      · simp [hr, n.integer_chars, hshort, pure, Except.pure] at hwidth
      · simp only [hr, n.integer_chars, if_neg hshort, Outcome.error_bind, Except.error.injEq] at hwidth
        exact ⟨_, Nat.lt_of_not_le hshort, hwidth.symm⟩
  | ok w =>
    cases hmembers : e.members.mapM fun m => readMember (ofList m.core) with
    | ok xs =>
      rw [hwidth, hmembers] at h
      cases h
    | error g =>
      rw [hwidth, hmembers] at h
      obtain rfl := Except.error.inj h
      obtain ⟨m, -, hm⟩ := Outcome.exists_of_mapM_eq_error hmembers
      exact eq_longInteger_of_readMember hm

/-- An enumeration is found if no number in base ten is too long, and each member is written with its
value. Else the error says that there are too many digits. -/
theorem readEnums_enumeration (e : Enumeration) :
    (e.IsShort → ∃ d, readEnums (String.ofList e.chars) = .ok [d] ∧ d.name = String.ofList e.name ∧
      d.width = e.width ∧
      enumText d = join "\n" (s!"class {className d.name}(IntEnum):"
        :: s!"    \"\"\"Translated from SV enum: {d.name}\"\"\""
        :: (valuesFrom none e.members).map fun (name, value) => s!"    {name} = {value}")) ∧
    (¬ e.IsShort → ∃ digits, mostDigits < digits ∧
      readEnums (String.ofList e.chars) = .error (.longInteger digits)) := by
  refine ⟨fun ⟨hrange, hmembers⟩ => ?_, fun hlong => ?_⟩
  · obtain ⟨source, hread⟩ := exists_readEnums e
    have hwidth : e.readWidth = .ok e.width := by
      rw [Enumeration.readWidth, Enumeration.width]
      cases hr : e.range? with
      | none => rfl
      | some n => simp [n.integer_chars, hrange n hr]
    rw [hread, readMembers_inner, hwidth,
      Outcome.mapM_ok fun m hm => readMember_of_isShort (hmembers m hm)]
    refine ⟨_, rfl, rfl, rfl, ?_⟩
    rw [enumText, ← numbered_read none e.members]
    rfl
  · obtain ⟨f, hf⟩ := Outcome.exists_error_iff.2 fun ds hok => hlong (isShort_of_readEnums hok)
    obtain ⟨digits, hdigits, rfl⟩ := eq_longInteger_of_readEnums hf
    exact ⟨digits, hdigits, hf⟩

private theorem blank_space : Blank [' '] := by decide

private theorem space_ne_nil : [' '] ≠ ([] : List Char) := by decide

private theorem blank_none : Blank [] := by decide

private theorem four_ne_nil : ['4'] ≠ ([] : List Char) := by decide

private theorem isDigit_four : ∀ c ∈ ['4'], c.isDigit = true := by decide

/-- A member with one letter as its name, perhaps with a literal, and no blanks around it. -/
def letterMember (c : Char) (h : isWordChar c = true) (l : Option Literal) : Enumerator where
  before := []
  name := [c]
  setting? := l.map fun l => ⟨[' '], [], l, blank_space, blank_none⟩
  after := []
  name_ne_nil := cons_ne_nil _ _
  isName := by simp [h]
  blank_before := blank_none
  blank_after := blank_none

/-- An enumeration with the name `e`, with a base type or without one. -/
def enumerationOf (base? : Option BaseType) (first : Enumerator) (more : List Enumerator) : Enumeration where
  gap := [' ']
  base? := base?
  beforeOpen := []
  first := first
  more := more
  afterClose := [' ']
  name := ['e']
  beforeEnd := []
  gap_ne_nil := space_ne_nil
  name_ne_nil := cons_ne_nil _ _
  isName := by decide
  blank_gap := blank_space
  blank_beforeOpen := blank_none
  blank_afterClose := blank_space
  blank_beforeEnd := blank_none

/-- `typedef enum bit[3:0]{A,B =4'hA,C,D =-3} e;` -/
def signedEnum : Enumeration :=
  enumerationOf (some ⟨[' '], "bit".toList, some ([], ⟨'3', [], by decide⟩), space_ne_nil, by decide, blank_space,
      by decide, by simp [blank_none]⟩)
    (letterMember 'A' (by decide) none)
    [letterMember 'B' (by decide) (some (.sized ⟨['4'], .hex, false, ⟨'A', [], by decide, by decide⟩,
      four_ne_nil, isDigit_four⟩)),
    letterMember 'C' (by decide) none,
    letterMember 'D' (by decide) (some (.decimal (some true) ⟨'3', [], by decide, by decide⟩))]

theorem readEnums_signedEnum : ∃ d, readEnums "typedef enum bit[3:0]\x7bA,B =4'hA,C,D =-3\x7d e;" = .ok [d] ∧
    d.name = "e" ∧ d.width = 4 ∧ enumText d =
      "class E(IntEnum):\n    \"\"\"Translated from SV enum: e\"\"\"\n    A = 0\n    B = 10\n    C = 11\n    D = -3" := by
  obtain ⟨d, hread, hname, hwidth, htext⟩ := (readEnums_enumeration signedEnum).1 (by decide)
  refine ⟨d, hread, hname, hwidth, htext.trans ?_⟩
  rw [hname]
  decide +kernel

/-- An enumeration with a number that is too long is not found. -/
theorem readEnums_too_long : ∃ e : Enumeration, ∀ ds, readEnums (String.ofList e.chars) ≠ .ok ds := by
  let t : DigitText .dec :=
    ⟨'1', List.replicate mostDigits (false, '1'), by decide, fun x hx => by
      rw [List.eq_of_mem_replicate hx]
      decide⟩
  refine ⟨enumerationOf none (letterMember 'A' (by decide) (some (.decimal none t))) [], fun ds h => ?_⟩
  have hshort : t.IsShort := (isShort_of_readEnums h).2 _ List.mem_cons_self _ rfl
  have hcount : mostDigits + 1 ≤ mostDigits := by
    simpa [t, DigitText.digits] using hshort rfl
  omega

end Stimulus.Sv
