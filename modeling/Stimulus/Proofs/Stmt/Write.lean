import Stimulus.Proofs.Stmt.Form

/-!
# What is written for a statement

The lines of a constraint body by recursion on its tree, without its text.
-/

open List
open String (ofList)

namespace Stimulus.Stmt

open Text Sv Pattern Expr

/-! ## Lines -/

/-- What is written for a comparison. -/
def comparisonLines (c : Sv.Comparison) : Conversion (List String) := do
  return tidyLines (expressionLines (← get).scope (ofList c.text))

/-- What is written for an implication. -/
def arrowLines (a b : Relation) : Conversion (List String) := do
  let scope := (← get).scope
  return tidyLines [s!"with vsc.implies({Expr.convert scope (ofList a.text) true}):",
    s!"    {Expr.convert scope (ofList b.text)}"]

/-- The head of a loop and its lines; an empty loop passes. -/
def loopSuite (x i : Name) (lines : List String) : List String :=
  s!"with vsc.foreach(self.{ofList x.ident.chars}, idx=True) as {ofList i.ident.chars}:"
    :: (if lines.isEmpty then ["    pass"] else lines)

/-- What is written for a loop, given that for its body. -/
def inLoop (x i : Name) (body : Conversion (List String)) : Conversion (List String) := do
  modify (Context.enterLoop (ofList i.ident.chars))
  let lines ← body
  modify (Context.leaveLoop (ofList i.ident.chars))
  return tidyLines (loopSuite x i lines)

/-- What is written for a statement in a loop, given its lines. -/
def shifted (i : Name) (lines : List String) : List String :=
  lines.map fun line => "    " ++
    (selfIndex (ofList i.ident.chars)).replaceAll (fun _ => ofList i.ident.chars) line

/-- The head of a branch and its lines; an empty branch passes. -/
def suite (level : Nat) (head : String) (lines : List String) : List String :=
  (indent level ++ head) :: (if lines.isEmpty then [indent (level + 1) ++ "pass"] else lines)

/-- The head of a first branch. -/
def ifLine (cond : String) : String := s!"with vsc.if_then({cond}):"

/-- The head of a further branch. -/
def elseIfLine (cond : String) : String := s!"with vsc.else_if({cond}):"

/-- What is written for a branch with a condition, given that for its body and for the branches
after it. -/
def inBranch (level : Nat) (line : String → String) (c : Condition)
    (body more : Conversion (List String)) : Conversion (List String) := do
  let cond ← convertCondition (ofList c.text)
  let lines := suite level (line cond) (← body)
  return lines ++ (← more)

/-- What is written for one statement after another. -/
def both (first rest : Conversion (List String)) : Conversion (List String) := do
  let lines ← first
  return lines ++ (← rest)

end Stimulus.Stmt

namespace Stimulus.Sv

open Stimulus.Stmt

/-! ## Trees -/

/-- Where a statement stands in a block. -/
inductive Place where
  /-- At the start of the body of a branch. -/
  | first
  /-- There, after conditionals that the first statement takes in, itself one of them. -/
  | passing
  /-- Elsewhere. -/
  | later
deriving DecidableEq

/-- Where the next statement stands. -/
def Place.next (place : Place) : Stmt → Place
  | .cond _ _ more => if place = .later || more.isClosed then .later else .passing
  | _ => .later

/-- The statement is taken in by one before it. -/
def Place.skips (place : Place) (s : Stmt) : Bool := place = .passing && s.isCond

mutual

def Stmt.pruned : Stmt → Stmt
  | .leaf c => .leaf c
  | .implies a b => .implies a b
  | .loop x i body => .loop x i (body.pruned .later)
  | .cond c body more => .cond c (body.pruned .first) more.pruned

def Branches.pruned : Branches → Branches
  | .done => .done
  | .elseIf c body more => .elseIf c (body.pruned .first) more.pruned
  | .otherwise body => .otherwise (body.pruned .first)

def Block.pruned (place : Place) : Block → Block
  | .nil => .nil
  | .cons s rest =>
    if place.skips s then rest.pruned (place.next s) else .cons s.pruned (rest.pruned (place.next s))

end

mutual

def Stmt.write : Stmt → Conversion (List String)
  | .leaf c => comparisonLines c.comparison
  | .implies a b => arrowLines a b
  | .loop x i body => inLoop x i (body.writeEach (shifted i))
  | .cond c body more => do
    modify (Context.note conditionalNote)
    return tidyLines (← inBranch 0 ifLine c (body.write 1) (more.write 0))

/-- What is written for a statement in the body of a branch at a level. -/
def Stmt.writeIn (level : Nat) : Stmt → Conversion (List String)
  | .leaf c => return relined level (← comparisonLines c.comparison)
  | .implies a b => return relined level (← arrowLines a b)
  | .loop x i body => return relined level (← inLoop x i (body.writeEach (shifted i)))
  | .cond c body more => inBranch level ifLine c (body.write (level + 1)) (more.write level)

def Branches.write (level : Nat) : Branches → Conversion (List String)
  | .done => return []
  | .elseIf c body more => inBranch level elseIfLine c (body.write (level + 1)) (more.write level)
  | .otherwise body => return suite level "with vsc.else_then:" (← body.write (level + 1))

def Block.write (level : Nat) : Block → Conversion (List String)
  | .nil => return []
  | .cons s rest => both (s.writeIn level) (rest.write level)

/-- What is written for statements one by one, each changed in the same way. -/
def Block.writeEach (change : List String → List String) : Block → Conversion (List String)
  | .nil => return []
  | .cons s rest => both (return change (← s.write)) (rest.writeEach change)

end

theorem Stmt.isCond_pruned (s : Stmt) : s.pruned.isCond = s.isCond := by
  cases s <;> rw [Stmt.pruned] <;> rfl

namespace Block

theorem pruned_of_not_isCond (place : Place) {s : Stmt} (h : s.isCond = false) (rest : Block) :
    Block.pruned place (.cons s rest) = .cons s.pruned (rest.pruned .later) := by
  have hnext : place.next s = .later := by
    cases s with
    | leaf | implies | loop => rfl
    | cond => cases h
  rw [Block.pruned, if_neg (by simp [Place.skips, h]), hnext]

theorem pruned_cons_later (s : Stmt) (rest : Block) :
    Block.pruned .later (.cons s rest) = .cons s.pruned (rest.pruned .later) := by
  have hnext : Place.next .later s = .later := by
    cases s <;> rfl
  rw [Block.pruned, if_neg (by simp [Place.skips]), hnext]

theorem pruned_passing : ∀ b : Block, b.pruned .passing = b.beyond.pruned .later
  | .nil => by rw [Block.pruned, beyond, Block.pruned]; simp
  | .cons (.leaf _) rest | .cons (.implies _ _) rest | .cons (.loop _ _ _) rest =>
    (pruned_of_not_isCond .passing rfl rest).trans (pruned_of_not_isCond .later rfl rest).symm
  | .cons (.cond c body more) rest => by
    rw [Block.pruned, if_pos (by rfl), beyond, Place.next]
    cases more.isClosed with
    | true => rfl
    | false => exact pruned_passing rest

theorem pruned_first_cond (c : Condition) (body : Block) (more : Branches) (rest : Block) :
    Block.pruned .first (.cons (.cond c body more) rest) =
      .cons (Stmt.pruned (.cond c body more)) ((remaining more rest).pruned .later) := by
  rw [Block.pruned, if_neg (by simp [Place.skips]), remaining, Place.next]
  cases more.isClosed with
  | true => rfl
  | false => exact congrArg (Block.cons _) (pruned_passing rest)

end Block

end Stimulus.Sv

namespace Stimulus.Stmt

open Text Sv Pattern Expr

/-! ## Texts of statements, stripped -/

section Bare

variable (l : Layout) (n : Nat) (s : Sv.Stmt)

theorem ne_semicolon_of_isLast {c : Char} (h : IsLast c) : c ≠ ';' := by
  rintro rfl
  rcases h with h | h
  · revert h
    decide
  · revert h
    decide

theorem strip_semicolon {cs e : List Char} (hends : Ends IsLast cs) (ht : Trim cs)
    (he : e = [] ∨ e = [';']) :
    strip (stripRightOf ';' (ofList (cs ++ e))) = ofList cs := by
  have hlast : ∀ d ∈ cs.getLast?, d ≠ ';' := (hends.mono fun _ => ne_semicolon_of_isLast).last
  have hstrip : stripRightOf ';' (ofList (cs ++ e)) = ofList cs := by
    rcases he with rfl | rfl
    · rw [append_nil, stripRightOf_of_last hlast]
    · rw [stripRightOf_concat hlast]
  rw [hstrip, strip_of_trim ht]

theorem strip_chars {e : List Char} (he : e = [] ∨ e = [';']) :
    strip (stripRightOf ';' (ofList (s.chars l n ++ e))) = ofList (s.chars l n) :=
  strip_semicolon (s.ends_chars l n) (s.trim_chars l n) he

theorem stop_cases : s.stop = [] ∨ s.stop = [';'] := by
  cases s with
  | leaf | implies => exact .inr rfl
  | loop | cond => exact .inl rfl

theorem bare_text : bare (ofList (s.text l n)) = ofList (s.chars l n) := by
  rw [bare, strip_of_trim (s.trim_text l n), Sv.Stmt.text, strip_chars l n s (stop_cases s)]

theorem isEmpty_of_starts {p : Char → Prop} {cs : List Char} (h : Starts p cs) :
    ¬ (ofList cs).isEmpty = true := by
  obtain ⟨c, r, rfl, -⟩ := h
  simp

end Bare

/-! ## Statements that hold no others -/

section Single

variable (l : Layout) (n : Nat) (statement conditional : String → Conversion (List String))

theorem statementLines_comparison (c : Sv.Comparison) {e : List Char} (he : e = [] ∨ e = [';']) :
    statementLines statement conditional (ofList (c.text ++ e)) = comparisonLines c := by
  have hopens : OpensWithName c.text := c.opensWithName
  have hstarts : Starts (nameHead · = true) c.text := c.starts_text
  have htrim : Trim c.text :=
    trim_of_starts_ends (hstarts.mono fun _ h => isBlank_of_nameTail (nameTail_of_nameHead h))
      (c.ends_text.mono fun _ => isBlank_of_isLast)
  have hstrip : strip (stripRightOf ';' (ofList (c.text ++ e))) = ofList c.text :=
    strip_semicolon c.ends_text htrim he
  have hmark : ∀ d ∈ ['{', '-', '.', '&'], d ∉ c.text := fun d hd =>
    not_mem_comparison ((by decide : ∀ d ∈ ['{', '-', '.', '&'], nameTail d = false) d hd)
      ((by decide : ∀ d ∈ ['{', '-', '.', '&'], d ∉ relationMarks) d hd) c
  have hparen : ∀ d ∈ c.text.head?, d ≠ '(' :=
    (hstarts.mono fun d hd => by rintro rfl; revert hd; decide).head
  have hif : ¬ (blanks ++ ifHead).fitsStart (ofList c.text) = true := by
    rw [fitsStart, atStart?_blanks htrim.head, not_ifHead hopens]
    decide
  rw [statementLines, hstrip]
  refine (if_neg (isEmpty_of_starts hstarts)).trans (bind_congr fun ctx => ?_)
  dsimp only
  rw [leadingForms_none ctx.scope (hmark '{' (by decide)) hopens,
    loopHead_none (hmark '{' (by decide)), valueForms_braceless ctx.scope (hmark '{' (by decide)),
    implies?_none ctx.scope (hmark '-' (by decide)),
    trailingForms_none ctx.scope htrim hparen (hmark '.' (by decide)) (hmark '&' (by decide))]
  dsimp only
  rw [if_neg hif, Option.getD_none]

theorem statementLines_leaf (c : Leaf) {e : List Char} (he : e = [] ∨ e = [';']) :
    statementLines statement conditional (ofList (Sv.Stmt.chars l n (.leaf c) ++ e)) =
      comparisonLines c.comparison :=
  statementLines_comparison statement conditional c.comparison he

theorem statementLines_implies (a b : Relation) {e : List Char} (he : e = [] ∨ e = [';']) :
    statementLines statement conditional (ofList (Sv.Stmt.chars l n (.implies a b) ++ e)) =
      arrowLines a b := by
  have hstrip : strip (stripRightOf ';' (ofList (Sv.Stmt.chars l n (.implies a b) ++ e))) =
      ofList (arrowed a.text b.text) := strip_chars l n _ he
  have hopens : OpensWithName (arrowed a.text b.text) := (a.formula.opensWithName.append _).append _
  have hbrace : '{' ∉ arrowed a.text b.text := by
    simp only [arrowed, mem_append, not_or]
    exact ⟨⟨not_mem_relation (by decide) (by decide) a, by decide⟩,
      not_mem_relation (by decide) (by decide) b⟩
  rw [statementLines, hstrip]
  refine (if_neg (isEmpty_of_starts (Sv.Stmt.starts_chars l n (.implies a b)))).trans
    (bind_congr fun ctx => ?_)
  dsimp only
  simp only [leadingForms_none ctx.scope hbrace hopens, loopHead_none hbrace,
    valueForms_braceless ctx.scope hbrace, implies?_arrowed]

end Single

/-! ## Loops -/

section Loop

variable (l : Layout) (n : Nat) (statement conditional : String → Conversion (List String))

theorem loopStatement_text (i : Name) (s : Sv.Stmt)
    (h : statement (ofList (s.chars l n)) = s.pruned.write) :
    loopStatement (ofList i.ident.chars) statement (ofList (s.text l n)) =
      (do return shifted i (← s.pruned.write)) := by
  rw [loopStatement, bare_text, if_neg (isEmpty_of_starts (s.starts_chars l n)),
    elementInside_chars, h]
  rfl

theorem collect_cons {α : Type} (f : α → Conversion (List String)) (x : α) (xs : List α) :
    collect f (x :: xs) = both (f x) (collect f xs) := rfl

theorem collect_loop (i : Name) : ∀ b : Block,
    (∀ s ∈ b.list, statement (ofList (s.chars l n)) = s.pruned.write) →
    collect (loopStatement (ofList i.ident.chars) statement)
      (b.list.map fun s => ofList (s.text l n)) = (b.pruned .later).writeEach (shifted i)
  | .nil, _ => by
    rw [Block.pruned, Block.writeEach]
    rfl
  | .cons s rest, h => by
    obtain ⟨hs, hrest⟩ := forall_mem_cons.1 h
    rw [Block.list, map_cons, collect_cons, loopStatement_text l n statement i s hs,
      collect_loop i rest hrest, Block.pruned_cons_later, Block.writeEach]

theorem statementLines_loop (x i : Name) (body : Block) {e : List Char} (he : e = [] ∨ e = [';'])
    (h : ∀ s ∈ body.list, statement (ofList (s.chars l (n + 1))) = s.pruned.write) :
    statementLines statement conditional (ofList (Sv.Stmt.chars l n (.loop x i body) ++ e)) =
      (Sv.Stmt.loop x i body).pruned.write := by
  obtain ⟨inner, hinner⟩ : ∃ inner, inner = '\n' :: body.text l (n + 1) ++ l.margin n := ⟨_, rfl⟩
  have htext : Sv.Stmt.chars l n (.loop x i body) = loopText x i inner := by
    simp [Sv.Stmt.chars, Layout.headed, Layout.braced, indexed, loopText, loopEnd, hinner]
  have hsplit : split (ofList inner) =
      body.list.map fun s => ofList (s.text l (n + 1)) :=
    split_spread l (n + 1) (hinner ▸ Block.spread_inner l (n + 1) n body)
  have hhead : ∀ c ∈ (loopText x i inner).head?, c = 'f' := fun c hc => (Option.some.inj hc).symm
  have hforms : ∀ scope, firstForm? leadingForms scope (ofList (loopText x i inner)) = none :=
    fun scope => leadingForms_of_head scope (fun c hc => by simp [hhead c hc])
      (fun c hc => by simp [hhead c hc])
  obtain ⟨hx, hi, hbody⟩ := group_loopParts x i inner
  rw [statementLines, strip_chars l n _ he, htext]
  refine (if_neg (isEmpty_of_starts (p := fun _ => True) ⟨'f', _, rfl, trivial⟩)).trans ?_
  simp only [hforms, loopHead_text x i inner (by simp [hinner])]
  rw [loopLines, hx, hi, hbody, hsplit, collect_loop l (n + 1) statement i body h, Sv.Stmt.pruned,
    Sv.Stmt.write]
  rfl

end Loop

/-! ## Conditionals -/

section Conditional

variable (l : Layout) (n : Nat)

theorem length_tight_le (b : Block) : (b.tight l n).length ≤ (b.text l n).length := by
  obtain ⟨a, z, -, -, h⟩ := Block.spread_text l n b
  rw [h]
  simp
  omega

theorem last_branches (more : Branches) {rest : List Char} (h : Inert rest) :
    ∀ d ∈ (more.chars l n ++ rest).getLast?, isBlank d = false := by
  cases more with
  | done => simpa [Branches.chars] using h.last
  | elseIf c body more => exact last_append (more.ends_append l n (l.ends_headed n _ _ _)) h.last
  | otherwise body => exact last_append ((l.ends_braced n _).append _) h.last

section Further

variable {block : String → Conversion (List String)} {level depth : Nat}
  (hblock : ∀ b : Block, (b.tight l (n + 1)).length + 1 ≤ depth →
    block (ofList (b.tight l (n + 1))) = (b.pruned .first).write (level + 1))

omit hblock in
theorem furtherBranches_inert {rest : List Char} (h : Inert rest) {s : String}
    (hs : strip s = strip (ofList rest)) (fuel : Nat) :
    furtherBranches block level fuel s = return [] := by
  cases fuel with
  | zero => rfl
  | succ fuel =>
    obtain ⟨hif, helse⟩ := no_branch_of_inert h hs
    rw [furtherBranches, hif, helse]

include hblock

theorem furtherBranches_chars : ∀ (more : Branches) {rest : List Char}, Inert rest → ∀ {fuel : Nat},
    (more.chars l n).length ≤ fuel → (more.chars l n).length ≤ depth → ∀ {s : String},
    strip s = strip (ofList (more.chars l n ++ rest)) →
    furtherBranches block level fuel s = more.pruned.write level
  | .done, rest, hrest, fuel, _, _, s, hs => by
    rw [furtherBranches_inert hrest hs fuel, Branches.pruned, Branches.write]
  | .elseIf c body more, rest, hrest, fuel, hfuel, hdepth, s, hs => by
    have hlen := length_tight_le l (n + 1) body
    simp only [Branches.chars, Layout.headed, Layout.braced, length_append, length_cons,
      length_nil] at hfuel hdepth
    obtain ⟨fuel, rfl⟩ := Nat.exists_eq_add_of_lt (by omega : 0 < fuel)
    rw [Nat.zero_add] at hfuel ⊢
    rw [furtherBranches, elseIfBranch?_chars l n c body (last_branches l n more hrest)
      (by rw [hs, Branches.chars, append_assoc])]
    dsimp only [bracedBranch]
    rw [furtherBranches_chars more hrest (by omega) (by omega) (strip_strip _),
      Branches.pruned, Branches.write]
    refine bind_congr fun cond => ?_
    rw [branchLines, hblock body (by omega)]
    rfl
  | .otherwise body, rest, hrest, fuel, hfuel, hdepth, s, hs => by
    have hlen := length_tight_le l (n + 1) body
    simp only [Branches.chars, Layout.braced, length_append, length_cons,
      length_nil] at hfuel hdepth
    obtain ⟨fuel, rfl⟩ := Nat.exists_eq_add_of_lt (by omega : 0 < fuel)
    obtain ⟨hif, helse⟩ := elseBranch?_chars l n body hrest.last hs
    rw [Nat.zero_add, furtherBranches, hif, helse]
    dsimp only
    rw [furtherBranches_inert hrest (strip_strip _), branchLines, hblock body (by omega),
      Branches.pruned, Branches.write]
    simp [suite]

end Further

theorem conditionalWithin_chars {fuel level : Nat} (hblock : ∀ b : Block,
      (b.tight l (n + 1)).length + 1 ≤ fuel →
      blockWithin fuel (ofList (b.tight l (n + 1))) (level + 1) =
        (b.pruned .first).write (level + 1))
    (c : Condition) (body : Block) (more : Branches) {rest : List Char} (hrest : Inert rest)
    (hfuel : (Sv.Stmt.chars l n (.cond c body more)).length ≤ fuel + 2) :
    conditionalWithin (fuel + 1) (ofList (Sv.Stmt.chars l n (.cond c body more) ++ rest))
      level =
        inBranch level ifLine c ((body.pruned .first).write (level + 1)) (more.pruned.write level) := by
  have htext : Sv.Stmt.chars l n (.cond c body more) ++ rest =
      l.headed n ifWord c.text (body.text l (n + 1)) ++ (more.chars l n ++ rest) := by
    rw [Sv.Stmt.chars, append_assoc]
  have htrim : Trim (l.headed n ifWord c.text (body.text l (n + 1)) ++ (more.chars l n ++ rest)) :=
    ⟨by simp [Layout.headed, ifWord]; decide,
      last_append (l.ends_headed n _ _ _) (last_branches l n more hrest)⟩
  have hlen := length_tight_le l (n + 1) body
  simp only [Sv.Stmt.chars, Layout.headed, Layout.braced, ifWord, length_append,
    length_cons, length_nil] at hfuel
  rw [conditionalWithin_succ, chainLines, htext, ifBranch?_chars l n c body _ (strip_of_trim htrim)]
  dsimp only [bracedBranch]
  rw [furtherBranches_chars l n hblock more hrest _ (by omega) (strip_strip _)]
  · refine bind_congr fun cond => ?_
    rw [branchLines, hblock body (by omega)]
    rfl
  · simp
    omega

theorem head_after_brace (b : Block) {a rest : List Char} (ha : Blank a) :
    ∀ c ∈ ((b.text l n ++ (a ++ '}' :: rest)).dropWhile isBlank).head?, c ≠ '-' := by
  intro c hc
  cases b with
  | nil =>
    rw [Block.text, nil_append, dropWhile_blank_append ha] at hc
    obtain rfl : '}' = c := Option.some.inj hc
    decide
  | cons s b =>
    rw [Block.text, append_assoc, append_assoc, append_assoc,
      dropWhile_blank_append (l.blank n)] at hc
    have hstarts : Starts IsFirst (s.chars l n ++ (s.stop ++ ('\n' :: b.text l n ++ (a ++ '}' :: rest)))) :=
      (s.starts_chars l n).append _
    rw [dropWhile_of_head (hstarts.mono fun _ => isBlank_of_isFirst).head] at hc
    have := hstarts.head c hc
    rintro rfl
    rcases this with h | h
    · revert h
      decide
    · revert h
      decide

theorem bind_inBranch {α : Type} {f g : List String → Conversion α}
    (h : ∀ x xs, f (x :: xs) = g (x :: xs)) (level : Nat) (line : String → String) (c : Condition)
    (body more : Conversion (List String)) :
    inBranch level line c body more >>= f = inBranch level line c body more >>= g := by
  simp only [inBranch, bind_assoc, pure_bind]
  exact bind_congr fun cond => bind_congr fun lines => bind_congr fun rest => h _ _

theorem get_bind {α : Type} (x : Conversion α) : (get >>= fun _ => x) = x := rfl

theorem statementLines_cond {statement conditional : String → Conversion (List String)}
    (c : Condition) (body : Block) (more : Branches) {e : List Char} (he : e = [] ∨ e = [';'])
    (h : conditional (ofList (Sv.Stmt.chars l n (.cond c body more))) =
      inBranch 0 ifLine c ((body.pruned .first).write 1) (more.pruned.write 0)) :
    statementLines statement conditional
      (ofList (Sv.Stmt.chars l n (.cond c body more) ++ e)) =
        (Sv.Stmt.cond c body more).pruned.write := by
  obtain ⟨z, hz⟩ : ∃ z, z = branchTail l n c body (more.chars l n) := ⟨_, rfl⟩
  have htext : Sv.Stmt.chars l n (.cond c body more) = ifWord ++ '(' :: z := by
    rw [Sv.Stmt.chars, headed_append, hz]
  have hline : ifWord ++ '(' :: z = (ifWord ++ '(' :: c.text ++ [')', ' ', '{']) ++
      '\n' :: (body.text l (n + 1) ++ (l.margin n ++ '}' :: more.chars l n)) := by
    simp [hz, branchTail, Layout.braced]
  have harrow : Free arrows (ifWord ++ '(' :: c.text ++ [')', ' ', '{']) := by
    rw [append_assoc]
    refine (free_append_cons (by decide)).2 ⟨by decide, ?_⟩
    exact (free_append_cons (by decide)).2 ⟨c.arrowless, by decide⟩
  have hhead : ∀ d ∈ (ifWord ++ '(' :: z).head?, d = 'i' := fun d hd => (Option.some.inj hd).symm
  have hforms : ∀ scope, firstForm? leadingForms scope (ofList (ifWord ++ '(' :: z)) = none :=
    fun scope => leadingForms_of_head scope (fun d hd => by simp [hhead d hd])
      (fun d hd => by simp [hhead d hd])
  have hvalues : ∀ scope, firstForm? valueForms scope (ofList (ifWord ++ '(' :: z)) = none :=
    fun scope => valueForms_cond scope hline harrow (head_after_brace l (n + 1) body (l.blank n))
  have hloop : loopHead.atStart? (ofList (ifWord ++ '(' :: z)) = none :=
    atStart?_of_walk_none rfl
  have hif : (blanks ++ ifHead).fitsStart (ofList (ifWord ++ '(' :: z)) = true := by
    rw [fitsStart, atStart?_blanks (fun d hd => by rw [hhead d hd]; decide), atStart?_ifHead]
    rfl
  rw [statementLines, strip_chars l n _ he]
  rw [htext] at h ⊢
  refine (if_neg (isEmpty_of_starts (p := fun _ => True) ⟨'i', _, rfl, trivial⟩)).trans ?_
  simp only [hforms, hvalues, hloop, hif, h, if_true]
  rw [get_bind, Sv.Stmt.pruned, Sv.Stmt.write]
  refine bind_congr fun _ => bind_inBranch (fun x xs => ?_) 0 ifLine c _ _
  exact if_pos (by simp)

end Conditional

end Stimulus.Stmt
