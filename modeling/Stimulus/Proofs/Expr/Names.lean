import Stimulus.Expr.Names
import Stimulus.Proofs.Sv.Lexeme

/-!
# Names of a cut text

Qualifying members and reaching fields through `self` put an owner before some words and change
nothing else.
-/

open String (ofList toList_ofList)

namespace Stimulus.Expr

open Pattern Text Sv

variable {ks : List Chunk} {scope : Scope}

def Scope.Proper (scope : Scope) : Prop :=
  ∀ x cls, scope.classOf? x = some cls → IsWord cls.toList

/-! ## Members -/

/-- A character of a word of capitals. -/
def capitalTail (c : Char) : Bool := c.isUpper || c.isDigit || c == '_'

def memberOwner? (scope : Scope) (dot : Bool) (w : List Char) (_ : Bool) : Option (List Char) :=
  if dot || !hasShape Char.isUpper capitalTail w then none
  else (scope.classOf? (ofList w)).map String.toList

theorem nameTail_of_isUpper {c : Char} (h : c.isUpper = true) : nameTail c = true := by
  simp [nameTail, Char.isAlphanum, isAlpha_of_isUpper h]

theorem nameTail_of_capitalTail {c : Char} (h : capitalTail c = true) :
    nameTail c = true := by
  simp only [capitalTail, Bool.or_eq_true] at h
  rcases h with (h | h) | h
  · exact nameTail_of_isUpper h
  · exact nameTail_of_isDigit h
  · simp [nameTail, h]

theorem qualified_spell (scope : Scope) (hk : WellCut ks) :
    qualified scope (ofList (spell ks)) =
      ofList (spell (withOwners (memberOwner? scope) false ks)) := by
  refine (replaceAll_congr (p := capitals) (q := wordShape Char.isUpper capitalTail)
    (fun _ => rfl) _).trans ?_
  refine replaceAll_spell (fun c h => isWordChar_of_nameTail (nameTail_of_isUpper h))
    (fun c h => isWordChar_of_nameTail (nameTail_of_capitalTail h)) ?_ ?_ hk
  · intro before w rest pos hw
    have hdot : afterDot ⟨before, w, rest, pos, []⟩ = endsInDot before := rfl
    simp only [Match.text, memberOwner?, hw, hdot]
    cases hd : endsInDot before <;> cases hc : scope.classOf? (ofList w) <;>
      simp [toString]
  · intro d w n hw
    simp [memberOwner?, hw]

theorem isWord_of_memberOwner? (hs : scope.Proper) :
    ∀ d w n a, memberOwner? scope d w n = some a → IsWord a := by
  intro d w n a h
  unfold memberOwner? at h
  split at h
  · cases h
  · obtain ⟨cls, hcls, rfl⟩ := Option.map_eq_some_iff.1 h
    exact hs _ cls hcls

/-! ## Fields -/

/-- How a word is reached: through its class if it is a member, and through `self` if it is a
field. -/
def fieldOwner? (scope : Scope) (dot : Bool) (w : List Char) (next : Bool) : Option (List Char) :=
  if dot || !hasShape nameHead nameTail w || reservedWords.contains (ofList w)
      || scope.loopVars.contains (ofList w) then none
  else match scope.classOf? (ofList w) with
    | some cls => some cls.toList
    | none =>
      if scope.classes.contains (ofList w) && next then none else some "self".toList

theorem replaceAll_plainWord (scope : Scope) (hk : WellCut ks) :
    plainWord.replaceAll (reached scope) (ofList (spell ks)) =
      ofList (spell (withOwners (fieldOwner? scope) false ks)) := by
  refine @replaceAll_spell _ _ nameHead nameTail _
    (fun c h => isWordChar_of_nameTail (nameTail_of_nameHead h))
    (fun c h => isWordChar_of_nameTail h) ?_ ?_ hk
  · intro before w rest pos hw
    have hdot : afterDot ⟨before, w, rest, pos, []⟩ = endsInDot before := rfl
    simp only [reached, Match.text, fieldOwner?, hw, hdot]
    by_cases hskip : (reservedWords.contains (ofList w)
        || scope.loopVars.contains (ofList w) || endsInDot before) = true
    · rw [if_pos hskip, if_pos]
      · exact toList_ofList
      · simp only [Bool.or_eq_true] at hskip ⊢
        tauto
    · rw [if_neg hskip, if_neg]
      · cases scope.classOf? (ofList w) with
        | some cls => simp [toString]
        | none =>
          by_cases hn : (scope.classes.contains (ofList w) && rest.head? == some '.') = true
          · simp only [hn, if_true]
            exact toList_ofList
          · simp only [hn]
            simp [toString]
      · simp only [Bool.or_eq_true, Bool.not_true, Bool.false_eq_true, or_false] at hskip ⊢
        tauto
  · intro d w n hw
    simp [fieldOwner?, hw]

theorem isWord_of_fieldOwner? (hs : scope.Proper) :
    ∀ d w n a, fieldOwner? scope d w n = some a → IsWord a := by
  intro d w n a h
  unfold fieldOwner? at h
  split at h
  · cases h
  · split at h
    · next cls hcls =>
      obtain rfl := Option.some.inj h
      exact hs _ cls hcls
    · split at h
      · cases h
      · obtain rfl := Option.some.inj h
        exact ⟨by decide, by decide⟩

theorem not_reserved_of_fieldOwner? {d : Bool} {w : List Char} {n : Bool}
    {a : List Char} (h : fieldOwner? scope d w n = some a) :
    d = false ∧ ofList w ∉ reservedWords := by
  unfold fieldOwner? at h
  split at h
  · cases h
  · next hn =>
    simp only [Bool.or_eq_true, not_or, Bool.not_eq_true] at hn
    exact ⟨hn.1.1.1, by simpa using hn.1.2⟩

/-- No name stands after `self.` that is reached through nothing. -/
private theorem replace_self_self (hk : WellCut ks)
    (h : NotDotted "self".toList false ks) :
    Text.replace "self.self." "self." (ofList (spell ks)) = ofList (spell ks) := by
  refine replace_of_not_infix ?_
  rintro ⟨u, v, huv⟩
  have hspell := huv.trans toList_ofList
  refine h.not_infix (dotted_of_spell (u := u ++ "self".toList) (v := '.' :: v) hk
    ⟨by decide, by decide⟩ (bounded_cons.2 (by decide)) ?_)
  rw [← hspell]
  simp

private theorem replace_selfLibrary (hk : WellCut ks)
    (h : NotDotted "vsc".toList false ks) (f : Match → String) :
    selfLibrary.replaceAll f (ofList (spell ks)) = ofList (spell ks) := by
  rw [replaceAll_eq, toList_ofList, replaceFrom_of_none]
  intro u v huv
  by_cases hpre : "self.vsc".toList <+: v
  · obtain ⟨r, rfl⟩ := hpre
    have hr : ¬ Bounded r := by
      intro hr
      refine h.not_infix (dotted_of_spell (u := u ++ "self".toList) (v := r) hk
        ⟨by decide, by decide⟩ hr ?_)
      rw [huv]
      simp
    rw [selfLibrary, show lit "self.vsc" ++ edge = seq (text "self.vsc".toList) edge from rfl,
      walk, walk_text rfl]
    cases r with
    | nil => exact absurd bounded_nil hr
    | cons c r =>
      have hc : isWordChar c = true := by simpa [bounded_cons] using hr
      have hbefore : isWordChar 'c' = true := by decide
      simp [walk, wordBefore, wordAfter, Spot.pass, hc, hbefore]
  · exact walk_text_none hpre

theorem selfPrefixed_spell (hk : WellCut ks)
    (hwell : WellCut (withOwners (fieldOwner? scope) false ks))
    (hself : NotDotted "self".toList false ks) (hvsc : NotDotted "vsc".toList false ks) :
    selfPrefixed scope (ofList (spell ks)) =
      ofList (spell (withOwners (fieldOwner? scope) false ks)) := by
  have howner : ∀ v, ofList v ∈ reservedWords → ∀ d w n a,
      fieldOwner? scope d w n = some a → d = false ∧ w ≠ v := by
    intro v hv d w n a ha
    obtain ⟨hd, hw⟩ := not_reserved_of_fieldOwner? ha
    exact ⟨hd, fun hwv => hw (hwv ▸ hv)⟩
  rw [selfPrefixed]
  simp only [replaceAll_plainWord scope hk]
  rw [replace_self_self hwell (hself.withOwners (howner _ (by decide))),
    replace_selfLibrary hwell (hvsc.withOwners (howner _ (by decide)))]

end Stimulus.Expr

/-!
## Members are qualified once

Qualifying the members of a text puts a class and a dot before each of them. Reaching the names of a text
does the same for members and leaves alone what has a class already, so that the one after the other is
the second alone.
-/

namespace Stimulus

namespace Text

open Pattern

/-- Every text can be cut. -/
theorem exists_wellCut (cs : List Char) : ∃ ks, WellCut ks ∧ spell ks = cs := by
  induction cs with
  | nil => exact ⟨[], trivial, rfl⟩
  | cons c cs ih =>
    obtain ⟨ks, hk, rfl⟩ := ih
    cases hc : isWordChar c with
    | false => exact ⟨.mark c :: ks, ⟨hc, hk⟩, rfl⟩
    | true =>
      have hone : IsWord [c] := ⟨by simp, by simpa using hc⟩
      cases ks with
      | nil => exact ⟨[.word [c]], ⟨hone, bounded_nil, trivial⟩, rfl⟩
      | cons k ks =>
        cases k with
        | mark d => exact ⟨.word [c] :: .mark d :: ks, ⟨hone, bounded_cons.2 hk.1, hk⟩, rfl⟩
        | word w =>
          obtain ⟨hw, hb, hks⟩ := hk
          exact ⟨.word (c :: w) :: ks, ⟨⟨by simp, List.forall_mem_cons.2 ⟨hc, hw.chars⟩⟩, hb, hks⟩, rfl⟩

theorem dotNext_withOwners (owner? : Bool → List Char → Bool → Option (List Char)) (dot : Bool)
    (ks : List Chunk) : dotNext (withOwners owner? dot ks) = dotNext ks := by
  cases ks with
  | nil => rfl
  | cons k ks =>
    cases k with
    | mark c => rw [withOwners]; unfold dotNext; split <;> simp_all
    | word w => rw [withOwners]; split <;> rfl

end Text

namespace Expr

open Pattern Text Sv

/-- The classes of a scope are those of its members, and their names can be written. Neither they nor the
indices of loops are members. -/
structure Scope.Tidy (scope : Scope) : Prop where
  written : ∀ p ∈ scope.members, hasShape nameHead nameTail p.2.toList = true
  classes : ∀ cls, cls ∈ scope.classes ↔ ∃ p ∈ scope.members, p.2 = cls
  indices : ∀ v ∈ scope.loopVars, ∀ p ∈ scope.members, p.1 ≠ v
  apart : ∀ cls ∈ scope.classes, ∀ p ∈ scope.members, p.1 ≠ cls

theorem mem_of_classOf? {scope : Scope} {x cls : String} (h : scope.classOf? x = some cls) :
    (x, cls) ∈ scope.members := by
  obtain ⟨l, r, hlr, -⟩ := List.lookup_eq_some_iff.1 h
  simp [hlr]

/-- A word of capitals is a name. -/
theorem hasShape_of_capitals {w : List Char} (h : hasShape Char.isUpper capitalTail w = true) :
    hasShape nameHead nameTail w = true := by
  cases w with
  | nil => exact h
  | cons c w =>
    simp only [hasShape, Bool.and_eq_true, List.all_eq_true] at h ⊢
    exact ⟨by simp [nameHead, isAlpha_of_isUpper h.1], fun d hd => nameTail_of_capitalTail (h.2 d hd)⟩

namespace Scope.Tidy

variable {scope : Scope} (h : scope.Tidy)

include h

theorem proper : scope.Proper := by
  intro x cls hx
  have hshape := h.written _ (mem_of_classOf? hx)
  cases hcls : cls.toList with
  | nil => simp [hcls, hasShape] at hshape
  | cons c cs =>
    simp only [hcls, hasShape, Bool.and_eq_true, List.all_eq_true] at hshape
    refine ⟨by simp, List.forall_mem_cons.2 ⟨?_, fun d hd => isWordChar_of_nameTail (hshape.2 d hd)⟩⟩
    exact isWordChar_of_nameTail (nameTail_of_nameHead hshape.1)

/-- A member that is qualified gets the same class when it is reached, and that class gets nothing. -/
theorem fieldOwner?_of_memberOwner? {dot next : Bool} {w a : List Char}
    (ha : memberOwner? scope dot w next = some a) :
    dot = false ∧ (∀ next, fieldOwner? scope false w next = some a) ∧ fieldOwner? scope false a true = none := by
  unfold memberOwner? at ha
  split at ha
  · cases ha
  next hw =>
  simp only [Bool.or_eq_true, Bool.not_eq_true', not_or, Bool.not_eq_true, Bool.not_eq_false] at hw
  obtain ⟨rfl, hshape⟩ := hw
  obtain ⟨cls, hcls, rfl⟩ := Option.map_eq_some_iff.1 ha
  have hmem := mem_of_classOf? hcls
  have hclass := (h.classes cls).2 ⟨_, hmem, rfl⟩
  refine ⟨rfl, fun next => ?_, ?_⟩
  · have hname := hasShape_of_capitals hshape
    have hreserved : ofList w ∉ reservedWords := by
      intro hmem
      have := (by decide : ∀ r ∈ reservedWords, hasShape Char.isUpper capitalTail r.toList = false) _ hmem
      rw [toList_ofList, hshape] at this
      cases this
    have hindex : ofList w ∉ scope.loopVars := fun hv => h.indices _ hv _ hmem rfl
    simp [fieldOwner?, hname, hreserved, hindex, hcls]
  · have hnone : scope.classOf? cls = none := by
      cases hsome : scope.classOf? cls with
      | none => rfl
      | some other => exact absurd rfl (h.apart cls hclass _ (mem_of_classOf? hsome))
    simp [fieldOwner?, hclass, hnone]

theorem withOwners_withOwners (dot : Bool) (ks : List Chunk) :
    withOwners (fieldOwner? scope) dot (withOwners (memberOwner? scope) dot ks) =
      withOwners (fieldOwner? scope) dot ks := by
  induction ks generalizing dot with
  | nil => rfl
  | cons k ks ih =>
    cases k with
    | mark c => exact congrArg (Chunk.mark c :: ·) (ih _)
    | word w =>
      rw [withOwners.eq_2 (memberOwner? scope), withOwners.eq_2 (fieldOwner? scope) dot w ks]
      cases ha : memberOwner? scope dot w (dotNext ks) with
      | none =>
        dsimp only
        rw [withOwners, dotNext_withOwners, ih]
      | some a =>
        obtain ⟨rfl, hmember, hclass⟩ := h.fieldOwner?_of_memberOwner? ha
        have hdotted : fieldOwner? scope true w (dotNext (withOwners (memberOwner? scope) false ks)) = none := by
          simp [fieldOwner?]
        have hnext : dotNext (.mark '.' :: .word w :: withOwners (memberOwner? scope) false ks) = true := rfl
        have hdot : ('.' == '.') = true := rfl
        dsimp only
        rw [withOwners, hnext, hclass, hmember]
        dsimp only
        rw [withOwners, hdot, withOwners, hdotted]
        dsimp only
        rw [ih]

end Scope.Tidy

/-- To qualify the members of an expression and then to reach its names is to reach its names. -/
theorem selfPrefixed_qualified {scope : Scope} (h : scope.Tidy) (e : String) :
    selfPrefixed scope (qualified scope e) = selfPrefixed scope e := by
  obtain ⟨ks, hk, hspell⟩ := exists_wellCut e.toList
  obtain rfl : e = String.ofList (spell ks) := by rw [hspell, String.ofList_toList]
  have hcut : WellCut (withOwners (memberOwner? scope) false ks) :=
    wellCut_withOwners (isWord_of_memberOwner? h.proper) hk
  rw [qualified_spell scope hk, selfPrefixed, selfPrefixed, replaceAll_plainWord scope hcut,
    replaceAll_plainWord scope hk, h.withOwners_withOwners]

/-- Members with and without their class, an index and fields. -/
theorem selfPrefixed_qualified_colors :
    let scope : Scope :=
      {members := [("RED", "Color"), ("GREEN", "Color")], classes := ["Color"], loopVars := ["i"]}
    scope.Tidy ∧ selfPrefixed scope (qualified scope "x[i] == RED | Color.GREEN != RED_y") =
      selfPrefixed scope "x[i] == RED | Color.GREEN != RED_y" := by
  intro scope
  have htidy : scope.Tidy := ⟨by decide, by simp [scope, eq_comm], by decide, by decide⟩
  exact ⟨htidy, selfPrefixed_qualified htidy _⟩

end Expr

end Stimulus
