import Stimulus.Proofs.Pattern.Reads
import Stimulus.Proofs.Sv.Lexeme
import Stimulus.Proofs.Text.Integer
import Stimulus.Proofs.Text.Lines
import Stimulus.Register.RandItem

/-!
# Descriptions as rows of tags

A description is a list of tags and of integers between them, with line breaks at will between any
two of these. What the reader sees of a row depends on the tags that share it.
-/

open List hiding contains contains_iff splitOn
open String (ofList toList_ofList)

namespace Stimulus.Text

open Sv

/-! ## Letter case of plain text -/

variable {c : Char} {cs : List Char}

theorem forall_ascii {p : Char → Prop} (h : ∀ n : Fin 128, p (Char.ofNat n))
    (hc : c.toNat < 128) : p c := by
  simpa using h ⟨c.toNat, hc⟩

theorem forall_nameTail {p : Char → Prop} (h : ∀ n : Fin 128, nameTail (Char.ofNat n) = true →
    p (Char.ofNat n)) (hc : nameTail c = true) : p c :=
  forall_ascii (p := fun c => nameTail c = true → p c) h (toNat_of_nameTail hc).2 hc

theorem nameTail_toLower (h : nameTail c = true) : nameTail c.toLower = true :=
  forall_nameTail (p := fun c => nameTail c.toLower = true) (by decide) h

theorem lowerAfter_ascii (h : ∀ c ∈ cs, c.toNat < 128) (before : List Char) :
    lowerAfter before cs = cs.map Char.toLower := by
  induction cs generalizing before with
  | nil => rfl
  | cons c cs ih =>
    obtain ⟨hc, hcs⟩ := forall_mem_cons.1 h
    rw [lowerAfter, lowerChar, if_pos hc, ih hcs]
    rfl

theorem lower_plain (h : IsPlain cs) :
    lower (ofList cs) = ofList (cs.map Char.toLower) := by
  rw [lower, toList_ofList, lowerAfter_ascii fun c hc => (toNat_of_nameTail (h.chars c hc)).2]

theorem isPlain_map_toLower (h : IsPlain cs) : IsPlain (cs.map Char.toLower) := by
  refine ⟨by simpa using h.ne_nil, fun c hc => ?_⟩
  obtain ⟨d, hd, rfl⟩ := mem_map.1 hc
  exact nameTail_toLower (h.chars d hd)

end Stimulus.Text

namespace Stimulus.Register

open Pattern Text Sv

/-! ## Lines -/

theorem linesOf_flatMap {α : Type} {f : α → List Char} {xs : List α}
    (h : ∀ x ∈ xs, '\n' ∉ f x ∧ ∀ c ∈ f x, c.toNat < 128) :
    linesOf (ofList (xs.flatMap fun x => f x ++ ['\n'])) =
      xs.map fun x => decode (ofList (f x ++ ['\n'])) := by
  have hascii : ∀ c ∈ xs.flatMap fun x => f x ++ ['\n'], decide (c.toNat < 128) = true := by
    simp only [mem_flatMap, mem_append, mem_singleton]
    rintro c ⟨x, hx, hc | rfl⟩
    · simpa using (h x hx).2 c hc
    · decide
  rw [linesOf, toList_ofList, filter_eq_self.2 hascii, fileLines_flatMap fun x hx => (h x hx).1,
    map_map]
  rfl

variable {n : Label} {t : Tag} {r : Row} {side : Side}

/-! ## Tags -/

/-- A name of plain letters, digits and underscores. -/
@[ext] structure Label where
  chars : List Char
  plain : IsPlain chars
deriving DecidableEq

/-- The name as a text. -/
def Label.name (n : Label) : String := ofList n.chars

/-- One of the two bounds of a range. -/
inductive Side where
  | low
  | high
deriving DecidableEq

/-- The name of the element that gives the bound. -/
def Side.tag : Side → String
  | low => "MinValue"
  | high => "MaxValue"

/-- A tag, or the integer between two tags. -/
inductive Tag where
  | mapStart (ip : Label)
  | mapStop
  | start (name : Label)
  | stop
  | boundStart (side : Side)
  | bound (side : Side) (value : Int)
  | boundStop (side : Side)
deriving DecidableEq

namespace Tag

/-- The text of a tag. -/
def chars : Tag → List Char
  | mapStart ip => "<FunctionMap IP=\"".toList ++ (ip.chars ++ ['"']) ++ ['>']
  | mapStop => "</FunctionMap>".toList
  | start name => "<Parameter name=\"".toList ++ (name.chars ++ ['"']) ++ ['>']
  | stop => "</Parameter>".toList
  | boundStart side => '<' :: (side.tag.toList ++ ['>'])
  | bound _ value => intChars value
  | boundStop side => '<' :: '/' :: (side.tag.toList ++ ['>'])

theorem chars_bound (side : Side) (value : Int) : (bound side value).chars = intChars value := rfl

def name? : Tag → Option Label
  | start name => some name
  | _ => none

/-- The first name in quotes. -/
def label? : Tag → Option Label
  | mapStart label | start label => some label
  | _ => none

/-- The tag names the block of registers. -/
def isMapStart : Tag → Bool
  | mapStart _ => true
  | _ => false

/-- What may follow a tag: an integer stands between the tags of its side. -/
def Before : Tag → Tag → Prop
  | boundStart side, t => ∃ value, t = bound side value
  | bound side _, t => t = boundStop side
  | _, _ => True

/-- The characters of descriptions. -/
def isChar (c : Char) : Bool := nameTail c || ['<', '>', '/', '=', '"', ' ', '-'].contains c

theorem isChar_of_nameTail {c : Char} (h : nameTail c = true) : isChar c = true := by
  simp [isChar, h]

theorem isChar_of_mem (t : Tag) : ∀ c ∈ t.chars, isChar c = true := by
  have hlabel (n : Label) : ∀ c ∈ n.chars, isChar c = true :=
    fun c hc => isChar_of_nameTail (n.plain.chars c hc)
  cases t with
  | mapStart n | start n =>
    unfold chars
    simp only [forall_mem_append, forall_mem_cons]
    exact ⟨⟨by decide, hlabel n, by decide, by simp⟩, by decide, by simp⟩
  | mapStop | stop => decide
  | boundStart side | boundStop side => cases side <;> decide
  | bound side value =>
    intro c hc
    rcases mem_intChars hc with rfl | hc
    · decide
    · exact isChar_of_nameTail (nameTail_of_isDigit hc)

end Tag

/-! ## Rows -/

/-- A line: blanks and then tags. -/
structure Row where
  indent : Nat
  tags : List Tag
deriving DecidableEq

namespace Row

/-- The text of a row before its newline. -/
def chars (r : Row) : List Char := List.replicate r.indent ' ' ++ r.tags.flatMap Tag.chars

/-- The text of a row. -/
def line (r : Row) : String := ofList (r.chars ++ ['\n'])

theorem toList_line (r : Row) : r.line.toList = r.chars ++ ['\n'] := toList_ofList

def name? (r : Row) : Option Label := r.tags.findSome? Tag.name?

/-- The integer of the first element of a side on the row. There is none if the row ends before the
element does. -/
def whole? (side : Side) (r : Row) : Option Int :=
  match r.tags.dropWhile (· ≠ .boundStart side) with
  | _ :: .bound _ value :: .boundStop _ :: _ => some value
  | _ => none

def Closes (r : Row) : Prop := .stop ∈ r.tags

instance (r : Row) : Decidable r.Closes := inferInstanceAs (Decidable (_ ∈ _))

/-- The name of the block of registers, if the row has one: the first name in quotes. -/
def ip? (r : Row) : Option String :=
  if r.tags.any Tag.isMapStart then (r.tags.findSome? Tag.label?).map fun n => lower n.name else none

theorem isChar_of_mem (r : Row) : ∀ c ∈ r.chars, Tag.isChar c = true := by
  simp only [chars, mem_append, mem_flatMap]
  rintro c (hc | ⟨t, -, hc⟩)
  · obtain rfl := eq_of_mem_replicate hc
    decide
  · exact t.isChar_of_mem c hc

theorem not_mem_chars (r : Row) {c : Char} (h : Tag.isChar c = false) : c ∉ r.chars := by
  intro hc
  rw [r.isChar_of_mem c hc] at h
  cases h

end Row

def textOf (rows : List Row) : String := ofList (rows.flatMap fun r => r.chars ++ ['\n'])

/-! ## Character entities -/

/-- A character as XML writes it in a text. -/
def escapeChar : Char → List Char
  | '<' => "&lt;".toList
  | '>' => "&gt;".toList
  | '&' => "&amp;".toList
  | '\x27' => "&apos;".toList
  | '"' => "&quot;".toList
  | c => [c]

def escape (s : String) : String := ofList (s.toList.flatMap escapeChar)

theorem entityAt?_of_ne {c : Char} (h : c ≠ '&') (cs : List Char) : entityAt? (c :: cs) = none := by
  simp [entityAt?, entities, beginsWith, dropStart?, h.symm]

theorem decodeFrom_of_not_mem {cs : List Char} (h : '&' ∉ cs) : decodeFrom 0 cs = cs := by
  induction cs with
  | nil => rfl
  | cons c cs ih =>
    obtain ⟨hc, hcs⟩ := not_or.1 (mem_cons.not.1 h)
    simp only [decodeFrom, entityAt?_of_ne (Ne.symm hc), ih hcs]

/-- The character that an entity gives is not looked at again: decoding goes on behind the entity,
whatever the character and the rest would spell together. -/
theorem decodeFrom_escapeChar (c : Char) (rest : List Char) :
    decodeFrom 0 (escapeChar c ++ rest) = c :: decodeFrom 0 rest := by
  unfold escapeChar
  split
  case h_6 hamp _ _ => rw [singleton_append, decodeFrom, entityAt?_of_ne hamp]
  all_goals rfl

theorem decode_escape_append (s rest : String) : decode (escape s ++ rest) = s ++ decode rest := by
  have hchars (cs : List Char) :
      decodeFrom 0 (cs.flatMap escapeChar ++ rest.toList) = cs ++ decodeFrom 0 rest.toList := by
    induction cs with
    | nil => rfl
    | cons c cs ih => rw [flatMap_cons, append_assoc, decodeFrom_escapeChar, ih, cons_append]
  apply String.toList_inj.1
  simpa [decode, escape] using hchars s.toList

/-- Decoding takes back one level of escaping, on each line of a text. -/
theorem map_decode_escape (lines : List String) :
    (lines.map escape).map decode = lines ∧
      ((lines.map escape).map escape).map decode = lines.map escape ∧
      decode "&amp;lt;" = "&lt;" := by
  have hline : decode ∘ escape = id := by
    funext s
    simpa [show decode "" = "" from rfl] using decode_escape_append s ""
  have hlines (lines : List String) : (lines.map escape).map decode = lines := by
    rw [map_map, hline, map_id]
  exact ⟨hlines lines, hlines _, decode_escape_append "&" "lt;"⟩

theorem toNat_of_isChar {c : Char} (h : Tag.isChar c = true) : c.toNat < 128 := by
  simp only [Tag.isChar, Bool.or_eq_true, contains_iff_mem] at h
  rcases h with h | h
  · exact (toNat_of_nameTail h).2
  · revert c
    decide

theorem linesOf_textOf (rows : List Row) : linesOf (textOf rows) = rows.map Row.line := by
  have hdecode (r : Row) : decode r.line = r.line := by
    have hmem : '&' ∉ r.chars ++ ['\n'] := by
      simpa using r.not_mem_chars (by decide)
    rw [decode, Row.line, toList_ofList, decodeFrom_of_not_mem hmem]
  have hchars : ∀ r ∈ rows, '\n' ∉ r.chars ∧ ∀ c ∈ r.chars, c.toNat < 128 := fun r _ =>
    ⟨r.not_mem_chars (by decide), fun c hc => toNat_of_isChar (r.isChar_of_mem c hc)⟩
  rw [textOf, linesOf_flatMap hchars]
  exact map_congr_left fun r _ => hdecode r

/-! ## What is not on a row -/

/-- A text that has a mark in it, and that can start neither in an integer nor at the end of a tag.
-/
def isNeedle : List Char → Bool
  | [] => false
  | c :: w => !(c.isDigit || ['-', '>', ' ', '\n'].contains c) && !(c :: w).contains '"'
    && (c :: w).any fun d => !nameTail d

/-- The fixed text at the start of a tag. -/
def Tag.lead : Tag → List Char
  | mapStart _ => "<FunctionMap IP=\"".toList
  | start _ => "<Parameter name=\"".toList
  | bound _ _ => []
  | t => t.chars

/-- The fixed texts at the start of tags. -/
def Tag.leads : List (List Char) :=
  ["<FunctionMap IP=\"", "</FunctionMap>", "<Parameter name=\"", "</Parameter>", "<MinValue>",
    "<MaxValue>", "</MinValue>", "</MaxValue>", ""].map String.toList

theorem Tag.lead_mem (t : Tag) : t.lead ∈ leads := by
  cases t with
  | boundStart side | boundStop side => cases side <;> decide
  | mapStart _ => exact (by decide : "<FunctionMap IP=\"".toList ∈ leads)
  | start _ => exact (by decide : "<Parameter name=\"".toList ∈ leads)
  | bound _ _ => exact (by decide : [] ∈ leads)
  | mapStop | stop => decide

section Needles

variable {w : List Char}

theorem shuns_label (hw : isNeedle w = true) (n : Label) : Shuns w (n.chars ++ ['"']) := by
  cases w with
  | nil => cases hw
  | cons c w =>
    simp only [isNeedle, Bool.and_eq_true, any_eq_true, Bool.not_eq_true'] at hw
    obtain ⟨⟨-, hquote⟩, d, hd, hmark⟩ := hw
    exact shuns_of_stop (by simpa using hquote) hd (n.plain.not_mem hmark)

theorem shuns_of_needle (hw : isNeedle w = true) {cs : List Char}
    (h : ∀ c ∈ cs, c.isDigit = true ∨ c ∈ ['-', '>', ' ', '\n']) : Shuns w cs := by
  cases w with
  | nil => cases hw
  | cons c w =>
    refine shuns_of_not_mem fun hc => ?_
    simp only [isNeedle, Bool.and_eq_true, Bool.not_eq_true', Bool.or_eq_false_iff] at hw
    rcases h c hc with h | h
    · rw [hw.1.1.1] at h
      cases h
    · rw [contains_iff_mem.2 h] at hw
      cases hw.1.1.2

theorem Tag.shuns (hw : isNeedle w = true) {t : Tag} (h : shunsCheck w t.lead = true) :
    Shuns w t.chars := by
  have hend : Shuns w ['>'] := shuns_of_needle hw (by simp)
  cases t with
  | mapStart n | start n =>
    exact ((shuns_of_check h).append (shuns_label hw n)).append hend
  | mapStop | stop | boundStart _ | boundStop _ => exact shuns_of_check h
  | bound _ value =>
    refine shuns_of_needle hw fun c hc => ?_
    rcases mem_intChars hc with rfl | hc
    · exact .inr (by decide)
    · exact .inl hc

theorem shuns_indent (hw : isNeedle w = true) (n : Nat) : Shuns w (List.replicate n ' ') :=
  shuns_of_needle hw fun c hc => .inr (by simp [eq_of_mem_replicate hc])

/-- The text of a row before one of its tags. -/
def Row.before (indent : Nat) (tags : List Tag) : List Char :=
  List.replicate indent ' ' ++ tags.flatMap Tag.chars

theorem Row.shuns_before (hw : isNeedle w = true) (indent : Nat) {tags : List Tag}
    (h : ∀ t ∈ tags, shunsCheck w t.lead = true) : Shuns w (Row.before indent tags) :=
  (shuns_indent hw indent).append (shuns_flatMap fun t ht => Tag.shuns hw (h t ht))

theorem Row.shuns (hw : isNeedle w = true) {r : Row}
    (h : ∀ t ∈ r.tags, shunsCheck w t.lead = true) : Shuns w (r.chars ++ ['\n']) :=
  (Row.shuns_before hw r.indent h).append (shuns_of_needle hw (by simp))

theorem Row.contains_eq_false {needle : String} (hw : isNeedle needle.toList = true) {r : Row}
    (h : ∀ t ∈ r.tags, shunsCheck needle.toList t.lead = true) : contains needle r.line = false := by
  rw [contains_eq_false_iff, Row.toList_line]
  refine Shuns.absent (Row.shuns hw h) fun hnil => ?_
  rw [hnil] at hw
  cases hw

theorem Row.startsWith_strip {needle : String} {r : Row} (h : contains needle r.line = false) :
    startsWith needle (strip r.line) = false := by
  rw [contains_eq_false_iff] at h
  refine Bool.eq_false_iff.2 fun hs => h ?_
  exact (beginsWith_iff.1 hs).isInfix.trans (isInfix_strip r.line)

end Needles

/-! ## Names -/

theorem takes_opening {s : Spot} {z : List Char}
    (h : s.after = (Tag.start n).chars ++ z) :
    Takes Kind.parameter.opening s
      { s.pass ("<Parameter name=\"".toList ++ (n.chars ++ ['"'])) ('>' :: z) with
        kept := (1, ⟨n.chars ++ '"' :: '>' :: z, n.chars.length⟩) :: s.kept } := by
  have hopening : Takes Kind.parameter.opening s = Takes (lit "<Parameter" ++
      (run (· != '>') 0 true ++ (lit "name=\"" ++ (group 1 (some1Not '"') ++ lit "\"")))) s := rfl
  have hquote : '"' ∉ n.chars := n.plain.not_mem (by decide)
  have hclose : '>' ∉ n.chars := n.plain.not_mem (by decide)
  rw [hopening]
  refine (takes_lit (z := " name=\"".toList ++ (n.chars ++ ['"']) ++ '>' :: z) ?_).seq ?_
  · rw [h]
    unfold Tag.chars
    simp
  refine takes_run_at (u := [' ']) (v := "name=\"".toList ++ (n.chars ++ ['"'])) (w := '>' :: z)
    (by simp) ?_ (by simp) (by simp) ?_ ?_
  · intro c hc
    simp only [mem_append, mem_singleton] at hc
    rcases hc with rfl | hc | hc | rfl
    · decide
    · revert c
      decide
    · simpa using fun h : c = '>' => hclose (h ▸ hc)
    · decide
  · refine (takes_lit (z := n.chars ++ '"' :: '>' :: z) (by simp)).seq ?_
    refine ((takes_run (w := n.chars) (z := '"' :: '>' :: z) rfl ?_ (by simp)
      (length_pos_iff.2 n.plain.ne_nil)).group 1).seq ?_
    · exact fun c hc => by simpa using fun h : c = '"' => hquote (h ▸ hc)
    · refine (takes_lit (z := '>' :: z) rfl).to ?_
      simp [Spot.pass, Spot.keep]
      omega
  · -- the attribute starts once: no later place in the tag has an equals sign
    intro a b hab ha
    have hshuns : Shuns "name=".toList ("ame=\"".toList ++ (n.chars ++ ['"'])) :=
      (shuns_of_check (by decide)).append
        (shuns_of_stop (d := '=') (by decide) (by decide) (n.plain.not_mem (by decide)))
    refine fails_of_leads ((leads_lit _).seq) fun hpre => ?_
    obtain ⟨c, a, rfl⟩ := exists_cons_of_ne_nil ha
    have htail : "ame=\"".toList ++ (n.chars ++ ['"']) = a ++ b := by simpa using congrArg List.tail hab
    by_cases hb : b = []
    · simp [hb] at hpre
    · exact (hshuns.mono (u := "name=\"".toList) (by decide)) a b ('>' :: z) htail hb hpre

theorem leads_opening : Leads Kind.parameter.opening "<Parameter".toList := by
  have hlead := leads_lit ("<" ++ Kind.parameter.tag)
  exact hlead.seq.seq.seq.seq

theorem shuns_of_name?_eq_none (h : t.name? = none) :
    shunsCheck "<Parameter".toList t.lead = true := by
  cases t with
  | start n => cases h
  | boundStart side | boundStop side => cases side <;> rfl
  | _ => rfl

theorem Row.chars_eq {front back : List Tag} (h : r.tags = front ++ t :: back) :
    r.chars ++ ['\n'] =
      Row.before r.indent front ++ (t.chars ++ (back.flatMap Tag.chars ++ ['\n'])) := by
  simp [Row.chars, Row.before, h]

theorem search?_opening (r : Row) :
    (Kind.parameter.opening.search? r.line).map (fun m => m.group 1) = r.name?.map Label.name := by
  cases hname : r.name? with
  | none =>
    have hnone : ∀ t ∈ r.tags, t.name? = none := by simpa [Row.name?] using hname
    have hshuns := Row.shuns (w := "<Parameter".toList) (by decide) fun t ht =>
      shuns_of_name?_eq_none (hnone t ht)
    rw [Row.line, search?_of_shuns leads_opening (by simp) hshuns]
    rfl
  | some n =>
    obtain ⟨front, t, back, htags, ht, hfront⟩ := findSome?_eq_some_iff.1 hname
    obtain rfl : t = .start n := by
      cases t with
      | start m => rw [Option.some.inj ht]
      | _ => cases ht
    have hshuns := Row.shuns_before (w := "<Parameter".toList) (by decide) r.indent fun t ht =>
      shuns_of_name?_eq_none (hfront t ht)
    rw [Row.line, Row.chars_eq htags, search?_of_takes leads_opening hshuns (takes_opening rfl)]
    simp [Match.between, Match.group, Match.group?, Piece.chars, Label.name]

/-! ## Bounds -/

theorem leads_element (side : Side) :
    Leads (element side.tag) ('<' :: (side.tag.toList ++ ['>'])) := by
  have hlead := leads_lit s!"<{side.tag}>"
  have hchars : (s!"<{side.tag}>").toList = '<' :: (side.tag.toList ++ ['>']) := by
    cases side <;> decide
  rw [hchars] at hlead
  exact hlead.seq.seq

theorem shuns_of_ne_boundStart (h : t ≠ .boundStart side) :
    shunsCheck ('<' :: (side.tag.toList ++ ['>'])) t.lead = true := by
  cases t with
  | boundStart s =>
    cases side with
    | low =>
      cases s with
      | low => exact absurd rfl h
      | high => rfl
    | high =>
      cases s with
      | low => rfl
      | high => exact absurd rfl h
  | boundStop s => cases side <;> cases s <;> rfl
  | _ => cases side <;> rfl

theorem isNeedle_boundStart (side : Side) :
    isNeedle ('<' :: (side.tag.toList ++ ['>'])) = true := by
  cases side <;> decide

theorem takes_element (side : Side) (value : Int) (z : List Char) {s : Spot}
    (h : s.after = (Tag.boundStart side).chars ++ (intChars value ++
      ((Tag.boundStop side).chars ++ z))) :
    ∃ t, Takes (element side.tag) s t ∧
      t.kept = (1, ⟨intChars value ++ ((Tag.boundStop side).chars ++ z), (intChars value).length⟩) ::
        s.kept := by
  have hstart : (s!"<{side.tag}>").toList = (Tag.boundStart side).chars := by
    cases side <;> decide
  have hstop : (s!"</{side.tag}>").toList = (Tag.boundStop side).chars := by
    cases side <;> decide
  have helement : Takes (element side.tag) s = Takes (lit s!"<{side.tag}>" ++
      (group 1 someLazy ++ lit s!"</{side.tag}>")) s := rfl
  rw [helement]
  refine ⟨_, (takes_lit (hstart ▸ h)).seq (takes_creep (w := intChars value)
    (z := (Tag.boundStop side).chars ++ z) rfl ?_ (length_pos_iff.2 (intChars_ne_nil value))
    (takes_lit (z := z) (by rw [hstop]; rfl)) ?_), ?_⟩
  · intro c hc
    simpa [notNewline] using fun h : c = '\n' => not_mem_intChars (by decide) (by decide) (h ▸ hc)
  · intro a b hab hb
    refine fails_of_leads (leads_lit _) fun hpre => ?_
    obtain ⟨c, b, rfl⟩ := exists_cons_of_ne_nil hb
    rw [hstop] at hpre
    obtain ⟨rfl, -⟩ := cons_prefix_cons.1 hpre
    have hmem : '<' ∈ intChars value := by simp [hab]
    exact not_mem_intChars (by decide) (by decide) hmem
  · simp [Spot.keep, Spot.pass]

theorem isChain_boundStart {tags : List Tag}
    (h : List.IsChain Tag.Before (.boundStart side :: tags)) :
    tags = [] ∨ ∃ value, tags = [.bound side value] ∨
      ∃ more, tags = .bound side value :: .boundStop side :: more := by
  cases tags with
  | nil => exact .inl rfl
  | cons t tags =>
    obtain ⟨⟨value, rfl⟩, h⟩ := isChain_cons_cons.1 h
    refine .inr ⟨value, ?_⟩
    cases tags with
    | nil => exact .inl rfl
    | cons t tags =>
      obtain ⟨ht, -⟩ := isChain_cons_cons.1 h
      exact .inr ⟨tags, by rw [show t = _ from ht]⟩

theorem search?_element_of_cut {u v : List Char}
    (hu : Shuns ('<' :: (side.tag.toList ++ ['>'])) u) (hv : '/' ∉ v) :
    (element side.tag).search? (ofList (u ++ v)) = none := by
  have hneeds : Needs (element side.tag) '/' :=
    (needs_lit (by cases side <;> decide)).right
  rw [search?, toList_ofList, searchFrom_of_shuns (leads_element side) hu,
    searchFrom_of_none, Option.map_none]
  exact fun s hs => walk_eq_none fun w hw hpre => hv (hs.subset (hpre.subset (hneeds w hw)))

theorem elementText?_line (h : r.tags.IsChain Tag.Before) (side : Side) :
    elementText? side.tag r.line =
      (r.whole? side).map fun value => ofList (intChars value) := by
  rw [elementText?, Row.line]
  by_cases hmem : .boundStart side ∈ r.tags
  · obtain ⟨front, back, htags, hfront⟩ := eq_append_cons_of_mem hmem
    have hne : ∀ t ∈ front, t ≠ .boundStart side := fun t ht h => hfront (h ▸ ht)
    have hshuns := Row.shuns_before (isNeedle_boundStart side) r.indent fun t ht =>
      shuns_of_ne_boundStart (hne t ht)
    have hdrop : r.tags.dropWhile (· ≠ .boundStart side) = .boundStart side :: back := by
      rw [htags, dropWhile_append_of_pos (by simpa using hne), dropWhile_cons_of_neg]
      simp
    have hcut (hback : '/' ∉ back.flatMap Tag.chars) :
        (element side.tag).search? (ofList (r.chars ++ ['\n'])) = none := by
      rw [Row.chars_eq htags]
      refine search?_element_of_cut hshuns ?_
      have hstart : '/' ∉ (Tag.boundStart side).chars := by cases side <;> decide
      simp [hstart, hback]
    have hdigits (value : Int) : '/' ∉ intChars value := not_mem_intChars (by decide) (by decide)
    rw [Row.whole?, hdrop]
    rcases isChain_boundStart (htags ▸ h).right_of_append with
      rfl | ⟨value, rfl | ⟨more, rfl⟩⟩
    · rw [hcut (by simp)]
      rfl
    · rw [hcut (by simpa [Tag.chars_bound] using hdigits value)]
      rfl
    · obtain ⟨t, ht, hkept⟩ := takes_element side value (more.flatMap Tag.chars ++ ['\n'])
        (s := ⟨(Row.before r.indent front).reverse, _, (Row.before r.indent front).length, []⟩) rfl
      have hline : r.chars ++ ['\n'] = Row.before r.indent front ++ ((Tag.boundStart side).chars ++
          (intChars value ++ ((Tag.boundStop side).chars ++ (more.flatMap Tag.chars ++ ['\n'])))) := by
        rw [Row.chars_eq htags]
        simp [Tag.chars_bound]
      rw [hline, search?_of_takes (leads_element side) hshuns ht]
      simp [Match.between, Match.group, Match.group?, hkept, Piece.chars]
  · have hne : ∀ t ∈ r.tags, t ≠ .boundStart side := fun t ht h => hmem (h ▸ ht)
    have hshuns := Row.shuns (isNeedle_boundStart side) fun t ht => shuns_of_ne_boundStart (hne t ht)
    have hwhole : r.whole? side = none := by
      rw [Row.whole?, dropWhile_eq_nil_iff.2 (by simpa using hne)]
    rw [hwhole, search?_of_shuns (leads_element side) (by simp) hshuns]
    rfl

/-! ## Other texts on a row -/

theorem shuns_of_ne_stop (h : t ≠ .stop) :
    shunsCheck "</Parameter>".toList t.lead = true := by
  cases t with
  | stop => exact absurd rfl h
  | boundStart side | boundStop side => cases side <;> rfl
  | _ => rfl

theorem shuns_of_isMapStart (h : t.isMapStart = false) :
    shunsCheck "FunctionMap IP".toList t.lead = true := by
  cases t with
  | mapStart n => cases h
  | boundStart side | boundStop side => cases side <;> rfl
  | _ => rfl

theorem contains_stop (r : Row) : contains "</Parameter>" r.line = decide r.Closes := by
  by_cases h : r.Closes
  · obtain ⟨front, back, htags⟩ := append_of_mem h
    rw [decide_eq_true h, contains_iff, Row.toList_line, Row.chars_eq htags]
    exact ⟨_, _, append_assoc ..⟩
  · rw [decide_eq_false h]
    refine r.contains_eq_false (by decide) fun t ht => shuns_of_ne_stop ?_
    rintro rfl
    exact h ht

/-- Texts that are on no row. -/
def strangers : List String :=
  ["<TestConstraint>", "<SimParameter", "</SimParameter", "<TopParameter", "Field name"]

theorem contains_stranger {needle : String} (h : needle ∈ strangers) (r : Row) :
    contains needle r.line = false := by
  have hneedle : ∀ needle ∈ strangers, isNeedle needle.toList = true := by decide
  have hlead : ∀ needle ∈ strangers, ∀ l ∈ Tag.leads, shunsCheck needle.toList l = true := by decide
  exact r.contains_eq_false (hneedle needle h) fun t _ => hlead needle h t.lead t.lead_mem

/-! ## The name of the block of registers -/

theorem Tag.quote_not_mem (h : t.label? = none) : '"' ∉ t.chars := by
  cases t with
  | mapStart _ | start _ => cases h
  | mapStop | stop => decide
  | boundStart side | boundStop side => cases side <;> decide
  | bound _ value => exact not_mem_intChars (by decide) (by decide)

theorem Tag.exists_chars_of_label? (h : t.label? = some n) :
    ∃ u, '"' ∉ u ∧ t.chars = u ++ '"' :: (n.chars ++ ['"', '>']) := by
  cases t with
  | mapStart m =>
    obtain rfl : m = n := Option.some.inj h
    exact ⟨"<FunctionMap IP=".toList, by decide, by unfold chars; simp⟩
  | start m =>
    obtain rfl : m = n := Option.some.inj h
    exact ⟨"<Parameter name=".toList, by decide, by unfold chars; simp⟩
  | _ => cases h

theorem quotedName_line (h : r.tags.findSome? Tag.label? = some n) :
    quotedName r.line = .ok (lower n.name) := by
  obtain ⟨front, t, back, htags, ht, hfront⟩ := findSome?_eq_some_iff.1 h
  obtain ⟨u, hu, hchars⟩ := Tag.exists_chars_of_label? ht
  have hbefore : '"' ∉ Row.before r.indent front := by
    simp only [Row.before, mem_append, mem_flatMap, mem_replicate, not_or,
      not_exists, not_and]
    exact ⟨fun _ => by decide, fun t ht => Tag.quote_not_mem (hfront t ht)⟩
  have hline : r.chars ++ ['\n'] = (Row.before r.indent front ++ u) ++
      '"' :: (n.chars ++ '"' :: ('>' :: (back.flatMap Tag.chars ++ ['\n']))) := by
    rw [Row.chars_eq htags, hchars]
    simp
  have hsplit : splitAux ['"'] [] r.line.toList =
      (Row.before r.indent front ++ u) :: n.chars ::
        splitAux ['"'] [] ('>' :: (back.flatMap Tag.chars ++ ['\n'])) := by
    rw [Row.toList_line, hline, splitAux_append_cons (by simp [hbefore, hu]),
      splitAux_append_cons (n.plain.not_mem (by decide))]
    rfl
  have hquote : "\"".toList = ['"'] := rfl
  simp [quotedName, splitOn, hquote, hsplit, Label.name]

theorem contains_mapStart (r : Row) :
    contains "FunctionMap IP" r.line = r.tags.any Tag.isMapStart := by
  cases hany : r.tags.any Tag.isMapStart with
  | false =>
    exact r.contains_eq_false (by decide) fun t ht =>
      shuns_of_isMapStart (by simpa using any_eq_false.1 hany t ht)
  | true =>
    obtain ⟨t, ht, hmap⟩ := any_eq_true.1 hany
    obtain ⟨front, back, htags⟩ := append_of_mem ht
    cases t with
    | mapStart n =>
      have hlead : "FunctionMap IP".toList <:+: (Tag.mapStart n).chars :=
        ⟨['<'], "=\"".toList ++ (n.chars ++ ['"']) ++ ['>'], by unfold Tag.chars; simp⟩
      rw [contains_iff, Row.toList_line, Row.chars_eq htags]
      exact hlead.trans ⟨_, _, append_assoc ..⟩
    | _ => cases hmap

theorem ipAfter_line (r : Row) (ip : String) : ipAfter ip r.line = .ok (r.ip?.getD ip) := by
  rw [ipAfter, contains_mapStart, Row.ip?]
  cases hany : r.tags.any Tag.isMapStart with
  | false => rfl
  | true =>
    obtain ⟨t, ht, hmap⟩ := any_eq_true.1 hany
    obtain ⟨n, hn⟩ : ∃ n, r.tags.findSome? Tag.label? = some n := by
      rw [← Option.isSome_iff_exists, findSome?_isSome_iff]
      refine ⟨t, ht, ?_⟩
      cases t with
      | mapStart n => rfl
      | _ => cases hmap
    simp [hn, quotedName_line hn]

end Stimulus.Register
