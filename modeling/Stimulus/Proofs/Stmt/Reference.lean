import Mathlib.Data.Set.List
import Stimulus.Proofs.Stmt.Line

/-!
# The lines of conditionals

Constraint bodies of comparisons and conditionals, and the lines that stand for them: a head for each
branch and, one level deeper, the lines of all the statements of its block.
-/

open List

namespace Stimulus.Sv

open Stimulus.Stmt Stimulus.Expr

mutual

/-- The statement is made of comparisons and conditionals. -/
def Stmt.isBranching : Stmt → Bool
  | .leaf _ => true
  | .implies .. | .loop .. => false
  | .cond _ body more => body.isBranching && more.isBranching

/-- The branches are made of comparisons and conditionals. -/
def Branches.isBranching : Branches → Bool
  | .done => true
  | .elseIf _ body more => body.isBranching && more.isBranching
  | .otherwise body => body.isBranching

/-- The block is made of comparisons and conditionals. -/
def Block.isBranching : Block → Bool
  | .nil => true
  | .cons s rest => s.isBranching && rest.isBranching

end

mutual

/-- The conditions in a statement. -/
def Stmt.conditions : Stmt → List Condition
  | .leaf _ | .implies .. => []
  | .loop _ _ body => body.conditions
  | .cond c body more => c :: body.conditions ++ more.conditions

/-- The conditions in further branches. -/
def Branches.conditions : Branches → List Condition
  | .done => []
  | .elseIf c body more => c :: body.conditions ++ more.conditions
  | .otherwise body => body.conditions

/-- The conditions in a block. -/
def Block.conditions : Block → List Condition
  | .nil => []
  | .cons s rest => s.conditions ++ rest.conditions

end

mutual

def Stmt.reference (scope : Scope) (level : Nat) : Stmt → List String
  | .leaf c => [indent level ++ convert scope (String.ofList c.text)]
  | .implies .. | .loop .. => []
  | .cond c body more =>
    suite level (ifLine (convert scope (String.ofList c.text) true))
      (body.reference scope (level + 1)) ++ more.reference scope level

def Branches.reference (scope : Scope) (level : Nat) : Branches → List String
  | .done => []
  | .elseIf c body more =>
    suite level (elseIfLine (convert scope (String.ofList c.text) true))
      (body.reference scope (level + 1)) ++ more.reference scope level
  | .otherwise body => suite level "with vsc.else_then:" (body.reference scope (level + 1))

def Block.reference (scope : Scope) (level : Nat) : Block → List String
  | .nil => []
  | .cons s rest => s.reference scope level ++ rest.reference scope level

end

/-- A conditional without `else` comes first and another conditional right after it. -/
def Block.takesIn : Block → Bool
  | .cons (.cond _ _ more) (.cons s _) => !more.isClosed && s.isCond
  | _ => false

mutual

/-- In no block of a branch a conditional without `else` comes first and another conditional right
after it. -/
def Stmt.isIntact : Stmt → Bool
  | .leaf _ | .implies .. => true
  | .loop _ _ body => body.isIntact
  | .cond _ body more => !body.takesIn && body.isIntact && more.isIntact

def Branches.isIntact : Branches → Bool
  | .done => true
  | .elseIf _ body more => !body.takesIn && body.isIntact && more.isIntact
  | .otherwise body => !body.takesIn && body.isIntact

def Block.isIntact : Block → Bool
  | .nil => true
  | .cons s rest => s.isIntact && rest.isIntact

end

/-! ## Statements taken in -/

mutual

theorem Stmt.isBranching_pruned : ∀ s : Stmt, s.isBranching = true → s.pruned.isBranching = true
  | .leaf c, h => h
  | .cond c body more, h => by
    rw [Stmt.isBranching, Bool.and_eq_true] at h
    rw [Stmt.pruned, Stmt.isBranching, body.isBranching_pruned .first h.1,
      more.isBranching_pruned h.2]
    rfl

theorem Branches.isBranching_pruned : ∀ more : Branches, more.isBranching = true →
    more.pruned.isBranching = true
  | .done, h => h
  | .elseIf c body more, h => by
    rw [Branches.isBranching, Bool.and_eq_true] at h
    rw [Branches.pruned, Branches.isBranching, body.isBranching_pruned .first h.1,
      more.isBranching_pruned h.2]
    rfl
  | .otherwise body, h => by
    rw [Branches.pruned, Branches.isBranching]
    exact body.isBranching_pruned .first h

theorem Block.isBranching_pruned : ∀ (b : Block) (place : Place), b.isBranching = true →
    (b.pruned place).isBranching = true
  | .nil, _, h => by rwa [Block.pruned]
  | .cons s rest, place, h => by
    rw [Block.isBranching, Bool.and_eq_true] at h
    rw [Block.pruned]
    split
    · exact rest.isBranching_pruned _ h.2
    · rw [Block.isBranching, s.isBranching_pruned h.1, rest.isBranching_pruned _ h.2]
      rfl

end

theorem append_subset_append {as bs cs ds : List Condition} (h : as ⊆ cs) (k : bs ⊆ ds) :
    as ++ bs ⊆ cs ++ ds :=
  append_subset.2
    ⟨subset_append_of_subset_left _ h, subset_append_of_subset_right _ k⟩

mutual

theorem Stmt.conditions_pruned : ∀ s : Stmt, s.pruned.conditions ⊆ s.conditions
  | .leaf c | .implies a b => by rw [Stmt.pruned]; exact List.Subset.refl _
  | .loop x i body => by
    rw [Stmt.pruned]
    exact body.conditions_pruned .later
  | .cond c body more => by
    rw [Stmt.pruned]
    exact append_subset_append
      (cons_subset_cons c (body.conditions_pruned .first)) more.conditions_pruned

theorem Branches.conditions_pruned : ∀ more : Branches, more.pruned.conditions ⊆ more.conditions
  | .done => by rw [Branches.pruned]; exact List.Subset.refl _
  | .elseIf c body more => by
    rw [Branches.pruned]
    exact append_subset_append
      (cons_subset_cons c (body.conditions_pruned .first)) more.conditions_pruned
  | .otherwise body => by
    rw [Branches.pruned]
    exact body.conditions_pruned .first

theorem Block.conditions_pruned : ∀ (b : Block) (place : Place),
    (b.pruned place).conditions ⊆ b.conditions
  | .nil, _ => by rw [Block.pruned]; exact List.Subset.refl _
  | .cons s rest, place => by
    rw [Block.pruned]
    split
    · exact subset_append_of_subset_right _ (rest.conditions_pruned _)
    · exact append_subset_append s.conditions_pruned (rest.conditions_pruned _)

end

/-- Something is taken in at the start of the block. -/
def Place.takesIn : Place → Block → Bool
  | .first, b => b.takesIn
  | .passing, .cons s _ => s.isCond
  | _, _ => false

theorem Place.takesIn_next {s : Stmt} {rest : Block} (place : Place)
    (h : place.takesIn (.cons s rest) = false) : (place.next s).takesIn rest = false := by
  cases s with
  | leaf | implies | loop => rfl
  | cond c body more =>
    rw [Place.next]
    split
    · rfl
    · next hopen =>
      obtain ⟨hplace, hclosed⟩ : place ≠ .later ∧ more.isClosed = false := by simpa using hopen
      cases place with
      | later => exact absurd rfl hplace
      | passing => cases h
      | first =>
        cases rest with
        | nil => rfl
        | cons t rest => simpa [Place.takesIn, Block.takesIn, hclosed] using h

mutual

theorem Stmt.pruned_of_isIntact : ∀ s : Stmt, s.isIntact = true → s.pruned = s
  | .leaf c, _ | .implies a b, _ => by rw [Stmt.pruned]
  | .loop x i body, h => by rw [Stmt.pruned, body.pruned_of_isIntact .later h rfl]
  | .cond c body more, h => by
    simp only [Stmt.isIntact, Bool.and_eq_true, Bool.not_eq_true'] at h
    rw [Stmt.pruned, body.pruned_of_isIntact .first h.1.2 h.1.1, more.pruned_of_isIntact h.2]

theorem Branches.pruned_of_isIntact : ∀ more : Branches, more.isIntact = true →
    more.pruned = more
  | .done, _ => by rw [Branches.pruned]
  | .elseIf c body more, h => by
    simp only [Branches.isIntact, Bool.and_eq_true, Bool.not_eq_true'] at h
    rw [Branches.pruned, body.pruned_of_isIntact .first h.1.2 h.1.1, more.pruned_of_isIntact h.2]
  | .otherwise body, h => by
    simp only [Branches.isIntact, Bool.and_eq_true, Bool.not_eq_true'] at h
    rw [Branches.pruned, body.pruned_of_isIntact .first h.2 h.1]

theorem Block.pruned_of_isIntact : ∀ (b : Block) (place : Place), b.isIntact = true →
    place.takesIn b = false → b.pruned place = b
  | .nil, _, _, _ => by rw [Block.pruned]
  | .cons s rest, place, h, hplace => by
    rw [Block.isIntact, Bool.and_eq_true] at h
    have hskips : ¬ place.skips s = true := by
      cases place with
      | first | later => simp [Place.skips]
      | passing => simpa [Place.skips, Place.takesIn] using hplace
    have hnext : (place.next s).takesIn rest = false := place.takesIn_next hplace
    rw [Block.pruned, if_neg hskips, s.pruned_of_isIntact h.1,
      rest.pruned_of_isIntact _ h.2 hnext]

end

theorem Place.takesIn_of_next {s : Stmt} {rest : Block} (place : Place)
    (hskips : ¬ place.skips s = true) (h : (place.next s).takesIn rest = false) :
    place.takesIn (.cons s rest) = false := by
  cases place with
  | later => rfl
  | passing => simpa [Place.skips, Place.takesIn] using hskips
  | first =>
    cases s with
    | leaf | implies | loop => rfl
    | cond c body more =>
      cases rest with
      | nil => rfl
      | cons t rest =>
        cases hclosed : more.isClosed with
        | true => simp [Place.takesIn, Block.takesIn, hclosed]
        | false => simpa [Place.takesIn, Block.takesIn, Place.next, hclosed] using h

/-! ## Counting lines -/

theorem length_suite (level : Nat) (head : String) (lines : List String) :
    (suite level head lines).length = 1 + max 1 lines.length := by
  cases lines with
  | nil => rfl
  | cons line lines => simp [suite]; omega

section Length

variable (scope : Scope)

theorem Stmt.length_reference_pos {s : Stmt} (h : s.isBranching = true) (level : Nat) :
    0 < (s.reference scope level).length := by
  cases s with
  | leaf c => exact Nat.one_pos
  | implies | loop => cases h
  | cond c body more =>
    rw [Stmt.reference, length_append, length_suite]
    omega

theorem Block.length_first_pos {b : Block} (h : b.isBranching = true) {level : Nat}
    (hpos : 0 < (b.reference scope level).length) :
    0 < ((b.pruned .first).reference scope level).length := by
  cases b with
  | nil => cases hpos
  | cons s rest =>
    rw [Block.isBranching, Bool.and_eq_true] at h
    have := (s.pruned).length_reference_pos scope (s.isBranching_pruned h.1) level
    rw [Block.pruned, if_neg (by simp [Place.skips]), Block.reference, length_append]
    omega

/-- The text `x` has no fewer lines than `y`, and as many only if `p` holds. -/
def Sheds (x y : List String) (p : Prop) : Prop :=
  y.length ≤ x.length ∧ (y.length = x.length → p)

theorem Sheds.suite {b : Block} (h : b.isBranching = true) {level : Nat} {head : String}
    (hb : Sheds (b.reference scope (level + 1)) ((b.pruned .first).reference scope (level + 1))
      (b.isIntact = true ∧ b.takesIn = false)) :
    Sheds (suite level head (b.reference scope (level + 1)))
      (suite level head ((b.pruned .first).reference scope (level + 1)))
      ((!b.takesIn && b.isIntact) = true) := by
  have hpos := @Block.length_first_pos scope b h (level + 1)
  obtain ⟨hle, heq⟩ := hb
  rw [Sheds, length_suite, length_suite]
  refine ⟨by omega, fun hlen => ?_⟩
  obtain ⟨hintact, htakes⟩ := heq (by omega)
  rw [hintact, htakes]
  rfl

theorem Sheds.append {x x' y y' : List String} {p q : Bool} (hx : Sheds x y (p = true))
    (hx' : Sheds x' y' (q = true)) : Sheds (x ++ x') (y ++ y') ((p && q) = true) := by
  obtain ⟨hle, heq⟩ := hx
  obtain ⟨hle', heq'⟩ := hx'
  rw [Sheds, length_append, length_append, Bool.and_eq_true]
  exact ⟨by omega, fun hlen => ⟨heq (by omega), heq' (by omega)⟩⟩

theorem sheds_self {x : List String} {p : Prop} (h : p) : Sheds x x p := ⟨Nat.le_refl _, fun _ => h⟩

mutual

/-- A tree has no fewer lines than what is left of it, and as many only if nothing is taken in. -/
theorem Stmt.sheds_pruned : ∀ (s : Stmt) (level : Nat), s.isBranching = true →
    Sheds (s.reference scope level) (s.pruned.reference scope level) (s.isIntact = true)
  | .leaf c, level, _ => by
    rw [Stmt.pruned]
    exact sheds_self rfl
  | .cond c body more, level, h => by
    rw [Stmt.isBranching, Bool.and_eq_true] at h
    rw [Stmt.pruned, Stmt.reference, Stmt.reference, Stmt.isIntact]
    exact .append (.suite scope h.1 (body.sheds_pruned (level + 1) .first h.1))
      (more.sheds_pruned level h.2)

theorem Branches.sheds_pruned : ∀ (more : Branches) (level : Nat), more.isBranching = true →
    Sheds (more.reference scope level) (more.pruned.reference scope level) (more.isIntact = true)
  | .done, level, _ => by
    rw [Branches.pruned]
    exact sheds_self rfl
  | .elseIf c body more, level, h => by
    rw [Branches.isBranching, Bool.and_eq_true] at h
    rw [Branches.pruned, Branches.reference, Branches.reference, Branches.isIntact]
    exact .append (.suite scope h.1 (body.sheds_pruned (level + 1) .first h.1))
      (more.sheds_pruned level h.2)
  | .otherwise body, level, h => by
    rw [Branches.pruned, Branches.reference, Branches.reference, Branches.isIntact]
    exact .suite scope h (body.sheds_pruned (level + 1) .first h)

theorem Block.sheds_pruned : ∀ (b : Block) (level : Nat) (place : Place), b.isBranching = true →
    Sheds (b.reference scope level) ((b.pruned place).reference scope level)
      (b.isIntact = true ∧ place.takesIn b = false)
  | .nil, level, place, _ => by
    rw [Block.pruned]
    exact sheds_self ⟨rfl, by cases place <;> rfl⟩
  | .cons s rest, level, place, h => by
    rw [Block.isBranching, Bool.and_eq_true] at h
    obtain ⟨hs, hs'⟩ := s.sheds_pruned level h.1
    obtain ⟨hrest, hrest'⟩ := rest.sheds_pruned level (place.next s) h.2
    have hpos := s.length_reference_pos scope h.1 level
    rw [Block.pruned, Sheds]
    split
    · rw [Block.reference, length_append]
      exact ⟨by omega, fun heq => by omega⟩
    · next hskips =>
      simp only [Block.reference, length_append]
      refine ⟨by omega, fun heq => ?_⟩
      obtain ⟨hintact, htakes⟩ := hrest' (by omega)
      refine ⟨?_, place.takesIn_of_next hskips htakes⟩
      rw [Block.isIntact, hs' (by omega), hintact]
      rfl

end

theorem Block.reference_pruned_iff {b : Block} (h : b.isBranching = true) (level : Nat) :
    (b.pruned .later).reference scope level = b.reference scope level ↔ b.isIntact = true := by
  constructor
  · intro heq
    exact ((b.sheds_pruned scope level .later h).2 (congrArg List.length heq)).1
  · intro hintact
    rw [b.pruned_of_isIntact .later hintact rfl]

end Length

end Stimulus.Sv

namespace Stimulus.Stmt

open Text Sv Expr Pattern

/-! ## The lines of conversion -/

section Texts

variable {scope : Scope}

theorem comparison_text (hs : scope.Proper) (level : Nat) (c : Sv.Comparison) :
    indent level ++ Expr.convert scope (String.ofList c.text) =
      (Line.ofFormula hs (4 * level) (.compare c)).text := by
  have hconvert := convert_formula hs false (.compare c)
  rw [Formula.text_compare] at hconvert
  rw [hconvert, indent_append]
  rfl

theorem leaf_reference (hs : scope.Proper) (level : Nat) (c : Leaf) : Sv.Stmt.reference scope level (.leaf c) =
    texts [.ofFormula hs (4 * level) (.compare c.comparison)] := by
  rw [Sv.Stmt.reference, Leaf.text, comparison_text hs]
  rfl

/-- The property that the lines of leaves, heads and empty blocks have, given what holds of the
conditions. -/
structure Covers (scope : Scope) (Q : Condition → Prop) (P : String → Prop) : Prop where
  leaf : ∀ level (c : Leaf), P (indent level ++ Expr.convert scope (String.ofList c.text))
  empty : ∀ level, P (indent level ++ "pass")
  last : ∀ level, P (indent level ++ "with vsc.else_then:")
  head : ∀ level c, Q c → P (indent level ++ ifLine (Expr.convert scope (String.ofList c.text) true)) ∧
    P (indent level ++ elseIfLine (Expr.convert scope (String.ofList c.text) true))

section Covers

variable {Q : Condition → Prop} {P : String → Prop}

theorem Covers.suite (hP : Covers scope Q P) {level : Nat} {head : String} {lines : List String}
    (hhead : P (indent level ++ head)) (h : ∀ line ∈ lines, P line) :
    ∀ line ∈ suite level head lines, P line := by
  rw [Stmt.suite, forall_mem_cons]
  refine ⟨hhead, ?_⟩
  split
  · exact forall_mem_singleton.2 (hP.empty (level + 1))
  · exact h

mutual

theorem Covers.reference (hP : Covers scope Q P) : ∀ (s : Sv.Stmt) (level : Nat),
    (∀ c ∈ s.conditions, Q c) → ∀ line ∈ s.reference scope level, P line
  | .leaf c, level, _ => forall_mem_singleton.2 (hP.leaf level c)
  | .implies a b, level, _ | .loop x i body, level, _ => by simp [Sv.Stmt.reference]
  | .cond c body more, level, h => by
    rw [Sv.Stmt.conditions, forall_mem_append, forall_mem_cons] at h
    rw [Sv.Stmt.reference, forall_mem_append]
    exact ⟨hP.suite (hP.head level c h.1.1).1 (hP.block body (level + 1) h.1.2),
      hP.branches more level h.2⟩

theorem Covers.branches (hP : Covers scope Q P) : ∀ (more : Branches) (level : Nat),
    (∀ c ∈ more.conditions, Q c) → ∀ line ∈ more.reference scope level, P line
  | .done, level, _ => by simp [Branches.reference]
  | .elseIf c body more, level, h => by
    rw [Branches.conditions, forall_mem_append, forall_mem_cons] at h
    rw [Branches.reference, forall_mem_append]
    exact ⟨hP.suite (hP.head level c h.1.1).2 (hP.block body (level + 1) h.1.2),
      hP.branches more level h.2⟩
  | .otherwise body, level, h => by
    rw [Branches.reference]
    exact hP.suite (hP.last level) (hP.block body (level + 1) h)

theorem Covers.block (hP : Covers scope Q P) : ∀ (b : Block) (level : Nat),
    (∀ c ∈ b.conditions, Q c) → ∀ line ∈ b.reference scope level, P line
  | .nil, level, _ => by simp [Block.reference]
  | .cons s rest, level, h => by
    rw [Block.conditions, forall_mem_append] at h
    rw [Block.reference, forall_mem_append]
    exact ⟨hP.reference s level h.1, hP.block rest level h.2⟩

end

end Covers

theorem exists_texts (hs : scope.Proper) (s : Sv.Stmt) (level : Nat) :
    ∃ ls, texts ls = s.reference scope level := by
  have hlines : Covers scope (fun _ => True) (· ∈ Set.range Line.text) :=
    { leaf := fun level c => ⟨_, (comparison_text hs level c.comparison).symm⟩
      empty := fun level => ⟨_, (pass_text level).symm⟩
      last := fun level => ⟨_, (elseLine_text level).symm⟩
      head := fun level c _ => ⟨⟨_, (ifLine_text level _).symm⟩, _, (elseIfLine_text level _).symm⟩ }
  exact (Set.range_list_map Line.text).ge (hlines.reference s level fun _ _ => trivial)

end Texts

section Reference

variable {scope : Scope}

theorem yields_comparison (hs : scope.Proper) (c : Sv.Comparison) :
    Yields (· = scope) (· = texts [.ofFormula hs 0 (.compare c)]) (comparisonLines c) := by
  rintro ctx rfl
  rw [comparisonLines_run hs c]
  exact ⟨rfl, rfl⟩

mutual

theorem yields_writeIn (hs : scope.Proper) : ∀ (s : Sv.Stmt) (level : Nat), s.isBranching = true →
    Yields (· = scope) (· = s.reference scope level) (s.writeIn level)
  | .leaf c, level, _ => by
    rw [Sv.Stmt.writeIn, leaf_reference hs]
    refine (yields_comparison hs c.comparison).change ?_
    rintro _ rfl
    exact relined_texts level _
  | .cond c body more, level, h => by
    rw [Sv.Stmt.isBranching, Bool.and_eq_true] at h
    rw [Sv.Stmt.writeIn, Sv.Stmt.reference]
    refine (yields_block hs body (level + 1) h.1).inBranch (yields_branches hs more level h.2) ?_
    rintro _ rfl _ _ rfl rfl
    rfl

theorem yields_branches (hs : scope.Proper) : ∀ (more : Branches) (level : Nat), more.isBranching = true →
    Yields (· = scope) (· = more.reference scope level) (more.write level)
  | .done, level, _ => by
    rw [Branches.write]
    exact yields_pure rfl
  | .elseIf c body more, level, h => by
    rw [Branches.isBranching, Bool.and_eq_true] at h
    rw [Branches.write, Branches.reference]
    refine (yields_block hs body (level + 1) h.1).inBranch (yields_branches hs more level h.2) ?_
    rintro _ rfl _ _ rfl rfl
    rfl
  | .otherwise body, level, h => by
    rw [Branches.write, Branches.reference]
    refine (yields_block hs body (level + 1) h).change ?_
    rintro _ rfl
    rfl

theorem yields_block (hs : scope.Proper) : ∀ (b : Block) (level : Nat), b.isBranching = true →
    Yields (· = scope) (· = b.reference scope level) (b.write level)
  | .nil, level, _ => by
    rw [Block.write]
    exact yields_pure rfl
  | .cons s rest, level, h => by
    rw [Block.isBranching, Bool.and_eq_true] at h
    rw [Block.write, Block.reference]
    refine (yields_writeIn hs s level h.1).both (yields_block hs rest level h.2) ?_
    rintro _ _ rfl rfl
    rfl

end

theorem yields_write (hs : scope.Proper) (s : Sv.Stmt) (h : s.isBranching = true) :
    Yields (· = scope) (· = s.reference scope 0) s.write := by
  cases s with
  | leaf c =>
    rw [Sv.Stmt.write, leaf_reference hs]
    exact yields_comparison hs c.comparison
  | implies | loop => cases h
  | cond c body more =>
    have hwrite := yields_writeIn hs (.cond c body more) 0 h
    obtain ⟨ls, hls⟩ := exists_texts hs (.cond c body more) 0
    rw [Sv.Stmt.writeIn, ← hls] at hwrite
    rw [Sv.Stmt.write, ← hls]
    refine (hwrite.change (f := tidyLines) ?_).note conditionalNote
    rintro _ rfl
    exact tidyLines_texts ls

theorem yields_writeEach (hs : scope.Proper) : ∀ b : Block, b.isBranching = true →
    Yields (· = scope) (· = b.reference scope 0) (b.writeEach id)
  | .nil, _ => by
    rw [Block.writeEach]
    exact yields_pure rfl
  | .cons s rest, h => by
    rw [Block.isBranching, Bool.and_eq_true] at h
    rw [Block.writeEach, Block.reference]
    refine ((yields_write hs s h.1).change (f := id) (Q := (· = s.reference scope 0))
      fun _ => id).both (yields_writeEach hs rest h.2) ?_
    rintro _ _ rfl rfl
    rfl

end Reference

/-! ## Orderings -/

/-- What marks an ordering. -/
def orderingMark : List Char :=
  ['v', 's', 'c', '.', 's', 'o', 'l', 'v', 'e', '_', 'o', 'r', 'd', 'e', 'r', '(']

theorem isOrdering_eq_false_iff {line : String} :
    isOrdering line = false ↔ ¬ orderingMark <:+: line.toList := by
  have hmark : "vsc.solve_order(".toList = orderingMark := by decide
  rw [isOrdering, contains_eq_false_iff, hmark]

theorem not_ordering_of_uncalled {cs : List Char} (h : Uncalled cs) : ¬ orderingMark <:+: cs := by
  intro hin
  have := List.IsChain.infix h (List.IsInfix.trans ⟨orderingMark.take 14, [], rfl⟩ hin :
    ['r', '('] <:+: cs)
  exact (isChain_cons_cons.1 this).1 rfl rfl

theorem Line.isOrdering_text (l : Line) (h : ¬ orderingMark <:+: l.code) :
    isOrdering l.text = false := by
  rw [isOrdering_eq_false_iff, Line.text, String.toList_ofList]
  induction l.depth with
  | zero => exact h
  | succ n ih =>
    rw [replicate_succ, cons_append, infix_cons_iff, not_or]
    refine ⟨?_, ih⟩
    rintro ⟨t, ht⟩
    cases (cons_eq_cons.1 ht).1

theorem not_ordering_head {name cond : List Char} (depth : Nat)
    (hname : name = ifThen ∨ name = elseIf) (h : ¬ orderingMark <:+: cond) :
    ¬ orderingMark <:+: (Line.head depth name ('(' :: cond ++ [')'])).code := by
  intro hin
  have hcode : (Line.head depth name ('(' :: cond ++ [')'])).code =
      (withWord ++ (name ++ '(' :: cond)) ++ ')' :: [':'] := by simp [Line.head]
  rw [hcode] at hin
  rcases infix_append_cons (by decide) hin with hin | hin
  · rcases hname with rfl | rfl
    · simp [orderingMark, withWord, ifThen, infix_cons_iff] at hin h
      exact h hin
    · simp [orderingMark, withWord, elseIf, infix_cons_iff] at hin h
      exact h hin
  · revert hin
    decide

theorem isOrdering_formula {scope : Scope} (hs : scope.Proper) (isCondition : Bool) (f : Formula) :
    isOrdering (Expr.convert scope (String.ofList f.text) isCondition) = false := by
  rw [convert_formula hs, isOrdering_eq_false_iff, String.toList_ofList]
  exact not_ordering_of_uncalled (uncalled_solved isCondition hs f)

theorem filter_isOrdering_append {lines : List String} (h : ∀ line ∈ lines, isOrdering line = false) :
    lines.filter isOrdering ++ lines.filter (fun line => !isOrdering line) = lines := by
  rw [filter_eq_nil_iff.2 fun line hline => by simp [h line hline],
    filter_eq_self.2 fun line hline => by simp [h line hline], nil_append]

/-- The solver's texts of conditions are no orderings. -/
def Calm (scope : Scope) (cs : List Condition) : Prop :=
  ∀ c ∈ cs, isOrdering (Expr.convert scope (String.ofList c.text) true) = false

section Calm

variable {scope : Scope}

theorem isOrdering_head {cond : String} (h : isOrdering cond = false) (level : Nat) :
    isOrdering (indent level ++ ifLine cond) = false ∧
      isOrdering (indent level ++ elseIfLine cond) = false := by
  rw [isOrdering_eq_false_iff] at h
  rw [ifLine_text, elseIfLine_text]
  exact ⟨Line.isOrdering_text _ (not_ordering_head _ (.inl rfl) h),
    Line.isOrdering_text _ (not_ordering_head _ (.inr rfl) h)⟩

theorem isOrdering_elseLine (level : Nat) :
    isOrdering (indent level ++ "with vsc.else_then:") = false := by
  rw [elseLine_text]
  exact Line.isOrdering_text _ (by decide : ¬ orderingMark <:+: withWord ++ (elseThen ++ []) ++ [':'])

theorem covers_isOrdering (hs : scope.Proper) : Covers scope
    (fun c => isOrdering (Expr.convert scope (String.ofList c.text) true) = false)
    (isOrdering · = false) where
  leaf level c := by
    rw [Leaf.text, comparison_text hs]
    exact Line.isOrdering_text _ (not_ordering_of_uncalled (uncalled_solved false hs _))
  empty level := by
    rw [pass_text]
    exact Line.isOrdering_text _ (by simp [Line.pass, orderingMark, infix_cons_iff])
  last level := isOrdering_elseLine level
  head level c hc := isOrdering_head hc level

end Calm

/-! ## Constraint bodies -/

/-- What conversion gives for a body of comparisons and conditionals: the lines of all statements but
the conditionals that others take in. These are the lines of the whole body exactly if in no block of
a branch a conditional without `else` comes first and another conditional right after it. -/
theorem convertBody_eq_reference_iff (l : Layout) {ctx : Context} (hs : ctx.scope.Proper) {b : Block}
    (hb : b.isBranching = true) (hc : Calm ctx.scope b.conditions) :
    ((convertBody (String.ofList (b.text l 0))).run ctx).1 =
        (b.pruned .later).reference ctx.scope 0 ∧
      (((convertBody (String.ofList (b.text l 0))).run ctx).1 = b.reference ctx.scope 0 ↔
        b.isIntact = true) := by
  have hlines := (yields_writeEach hs (b.pruned .later) (b.isBranching_pruned .later hb) ctx rfl).1
  have hcalm := (covers_isOrdering hs).block (b.pruned .later) 0
    fun c hmem => hc c (b.conditions_pruned .later hmem)
  have hrun : ((convertBody (String.ofList (b.text l 0))).run ctx).1 =
      (b.pruned .later).reference ctx.scope 0 := by
    rw [convertBody_text]
    show List.filter isOrdering (((b.pruned .later).writeEach id).run ctx).1 ++
      List.filter _ (((b.pruned .later).writeEach id).run ctx).1 = _
    rw [hlines, filter_isOrdering_append hcalm]
  exact ⟨hrun, hrun ▸ Block.reference_pruned_iff ctx.scope hb 0⟩

/-- A name of one letter. -/
def letter (c : Char) (h : nameHead c = true := by decide) (hk : [c] ∉ keywords := by decide) :
    Ident :=
  ⟨[c], by simp [hasShape, h], hk⟩

/-- A field of one letter compared with a number. -/
def letterIs (c : Char) (n : Nat) (h : nameHead c = true := by decide)
    (hk : [c] ∉ keywords := by decide) : Sv.Comparison :=
  ⟨.name (letter c h hk), .eq, .num n⟩

/-- `if (a == 1) {if (b == 2) {c == 3;} if (d == 4) {e == 5;}}` -/
def twoInBranch : Block :=
  let when := fun (c : Sv.Comparison) h h' body =>
    Sv.Stmt.cond (.ofFormula (.compare c) h h') body .done
  .cons (when (letterIs 'a' 1) (by decide) (by decide)
    (.cons (when (letterIs 'b' 2) (by decide) (by decide)
      (.cons (.leaf ⟨letterIs 'c' 3, by decide⟩) .nil))
    (.cons (when (letterIs 'd' 4) (by decide) (by decide)
      (.cons (.leaf ⟨letterIs 'e' 5, by decide⟩) .nil)) .nil))) .nil

theorem convertBody_loses_conditional :
    String.ofList (twoInBranch.text .fours 0) = "if (a == 1) \x7b\n    if (b == 2) \x7b\n" ++
        "        c == 3;\n    \x7d\n    if (d == 4) \x7b\n        e == 5;\n    \x7d\n\x7d\n" ∧
      ((convertBody (String.ofList (twoInBranch.text .fours 0))).run {}).1 =
        ["with vsc.if_then(self.a == 1):", "    with vsc.if_then(self.b == 2):",
          "        self.c == 3"] ∧
      ((convertBody (String.ofList (twoInBranch.text .fours 0))).run {}).1 ≠
        twoInBranch.reference {} 0 := by
  have hs : Scope.Proper {} := fun x cls h => by cases h
  have hcalm : Calm {} twoInBranch.conditions := by
    unfold Calm
    decide +kernel
  obtain ⟨hlines, hiff⟩ :=
    @convertBody_eq_reference_iff .fours {} hs twoInBranch (by decide) hcalm
  have hpruned : (twoInBranch.pruned .later).reference {} 0 =
      ["with vsc.if_then(self.a == 1):", "    with vsc.if_then(self.b == 2):",
        "        self.c == 3"] := by decide +kernel
  refine ⟨by decide +kernel, hlines.trans hpruned, fun heq => ?_⟩
  have := hiff.1 heq
  revert this
  decide

end Stimulus.Stmt
