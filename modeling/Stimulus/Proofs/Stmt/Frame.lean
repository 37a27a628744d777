import Stimulus.Stmt.Basic

/-!
# What a conversion depends on

A conversion reads the names in scope and notes points for a reader down. It never reads these
points, and it closes the loops that it opens.
-/

namespace Stimulus.Stmt

open Stimulus.Expr

/-- The points with one more, once. -/
def noted (review : List String) (item : String) : List String :=
  if review.contains item then review else review ++ [item]

theorem mem_noted {review : List String} {item x : String} :
    x ∈ noted review item ↔ x ∈ review ∨ x = item := by
  unfold noted
  split
  · next h =>
    refine ⟨.inl, ?_⟩
    rintro (hx | rfl)
    · exact hx
    · exact List.contains_iff_mem.1 h
  · rw [List.mem_append, List.mem_singleton]

theorem mem_foldl_noted {points review : List String} {x : String} :
    x ∈ points.foldl noted review ↔ x ∈ review ∨ x ∈ points := by
  induction points generalizing review with
  | nil => simp
  | cons item points ih => rw [List.foldl_cons, ih, mem_noted, List.mem_cons, or_assoc]

/-- In every scope a conversion gives one result and notes the same points down, whatever was noted
before, and afterwards no loop is open that was not open before. -/
def Framed {α : Type} (m : Conversion α) : Prop :=
  ∀ scope, ∃ (a : α) (points vars : List String), vars ⊆ scope.loopVars ∧
    ∀ review, m.run ⟨scope, review⟩ = (a, ⟨{ scope with loopVars := vars }, points.foldl noted review⟩)

section Framed

variable {α β : Type} {m : Conversion α}

theorem framed_pure (a : α) : Framed (pure a) := fun scope =>
  ⟨a, [], scope.loopVars, List.Subset.refl _, fun _ => rfl⟩

theorem Framed.bind {f : α → Conversion β} (hm : Framed m) (hf : ∀ a, Framed (f a)) :
    Framed (m >>= f) := by
  intro scope
  obtain ⟨a, points, vars, hvars, hrun⟩ := hm scope
  obtain ⟨b, points', vars', hvars', hrun'⟩ := hf a { scope with loopVars := vars }
  refine ⟨b, points ++ points', vars', List.Subset.trans hvars' hvars, fun review => ?_⟩
  rw [StateT.run_bind, hrun, List.foldl_append]
  exact hrun' _

theorem Framed.map (hm : Framed m) (f : α → β) : Framed (do return f (← m)) :=
  hm.bind fun a => framed_pure (f a)

theorem framed_get {f : Context → Conversion α}
    (hscope : ∀ scope review review', f ⟨scope, review⟩ = f ⟨scope, review'⟩)
    (hf : ∀ ctx, Framed (f ctx)) : Framed (get >>= f) := by
  intro scope
  obtain ⟨a, points, vars, hvars, hrun⟩ := hf ⟨scope, []⟩ scope
  refine ⟨a, points, vars, hvars, fun review => ?_⟩
  rw [← hrun review, hscope scope [] review]
  rfl

theorem framed_note (item : String) : Framed (modify (Context.note item)) := by
  refine fun scope => ⟨(), [item], scope.loopVars, List.Subset.refl _, fun review => ?_⟩
  have hnote : Context.note item ⟨scope, review⟩ = ⟨scope, noted review item⟩ := by
    unfold Context.note noted
    split <;> rfl
  exact congrArg (Prod.mk ()) hnote

theorem Framed.within (hm : Framed m) (i : String) (f : α → β) : Framed (do
    modify (Context.enterLoop i)
    let a ← m
    modify (Context.leaveLoop i)
    return f a) := by
  intro scope
  obtain ⟨opened, hopened, hmem⟩ : ∃ opened : List String,
      (∀ review, Context.enterLoop i ⟨scope, review⟩ = ⟨{ scope with loopVars := opened }, review⟩) ∧
        ∀ v ∈ opened, v ∈ scope.loopVars ∨ v = i := by
    by_cases h : scope.loopVars.contains i = true
    · exact ⟨scope.loopVars, fun _ => if_pos h, fun v hv => .inl hv⟩
    · exact ⟨scope.loopVars ++ [i], fun _ => if_neg h, fun v hv => by simpa using hv⟩
  obtain ⟨a, points, vars, hvars, hrun⟩ := hm { scope with loopVars := opened }
  refine ⟨f a, points, vars.filter (· != i), fun v hv => ?_, fun review => ?_⟩
  · obtain ⟨hv, hne⟩ := List.mem_filter.1 hv
    exact (hmem v (hvars hv)).resolve_right (bne_iff_ne.1 hne)
  · have henter : (modify (Context.enterLoop i) : Conversion PUnit).run ⟨scope, review⟩ =
        ((), ⟨{ scope with loopVars := opened }, review⟩) := congrArg (Prod.mk ()) (hopened review)
    rw [StateT.run_bind, henter]
    show (m >>= fun a => _).run _ = _
    rw [StateT.run_bind, hrun]
    rfl

end Framed

/-! ## Conversions -/

theorem framed_convertCondition (e : String) : Framed (convertCondition e) :=
  framed_get (fun _ _ _ => rfl) fun _ => framed_pure _

theorem framed_collect {α : Type} {f : α → Conversion (List String)} (hf : ∀ x, Framed (f x)) :
    ∀ xs, Framed (collect f xs)
  | [] => framed_pure []
  | x :: xs => (hf x).bind fun lines => (framed_collect hf xs).map (lines ++ ·)

section Statement

variable {statement conditional : String → Conversion (List String)}
  (hstatement : ∀ s, Framed (statement s))

include hstatement

theorem framed_loopStatement (index s : String) : Framed (loopStatement index statement s) := by
  unfold loopStatement
  dsimp only
  split
  · exact framed_pure []
  · split
    · exact framed_get (fun _ _ _ => rfl) fun _ => framed_pure _
    · exact (hstatement _).map _

theorem framed_loopLines (m : Match) : Framed (loopLines statement m) := by
  have hbody := framed_collect (framed_loopStatement hstatement (m.group 2)) (split (m.group 3))
  exact hbody.within (m.group 2) _

theorem framed_branchLines (level : Nat) (head body : String) :
    Framed (branchLines statement level head body) :=
  (hstatement body).map _

theorem framed_furtherBranches (level : Nat) : ∀ (fuel : Nat) (rest : String),
    Framed (furtherBranches statement level fuel rest)
  | 0, _ => framed_pure []
  | fuel + 1, rest => by
    unfold furtherBranches
    split
    · refine (framed_convertCondition _).bind fun cond => ?_
      exact (framed_branchLines hstatement level _ _).bind fun lines =>
        (framed_furtherBranches level fuel _).map (lines ++ ·)
    · split
      · exact (framed_branchLines hstatement level _ _).bind fun lines =>
          (framed_furtherBranches level fuel _).map (lines ++ ·)
      · exact framed_pure []

theorem framed_statementLines (hconditional : ∀ s, Framed (conditional s)) (s : String) :
    Framed (statementLines statement conditional s) := by
  unfold statementLines
  dsimp only
  split
  · exact framed_pure []
  refine framed_get (fun _ _ _ => by dsimp only) fun ctx => ?_
  split
  · exact framed_pure _
  split
  · exact (framed_loopLines hstatement _).map tidyLines
  split
  · exact framed_pure _
  split
  · refine (framed_note conditionalNote).bind fun _ => (hconditional _).bind fun lines => ?_
    split
    · exact framed_pure _
    · exact (framed_note _).map fun _ => _
  · exact framed_pure _

theorem framed_chainLines (level : Nat) (s : String) : Framed (chainLines statement level s) := by
  unfold chainLines
  split
  · exact framed_pure []
  · exact (framed_convertCondition _).bind fun cond =>
      (framed_branchLines hstatement level _ _).bind fun lines =>
        (framed_furtherBranches hstatement level _ _).map (lines ++ ·)

theorem framed_partLines (hconditional : ∀ s, Framed (conditional s)) (level : Nat) (part : String) :
    Framed (partLines statement conditional level part) := by
  unfold partLines
  split
  · exact framed_pure []
  split
  · exact hconditional part
  · exact (hstatement part).map (relined level)

end Statement

theorem framed_within (fuel : Nat) : (∀ s, Framed (convertWithin fuel s)) ∧
    (∀ s level, Framed (conditionalWithin fuel s level)) ∧
      ∀ body level, Framed (blockWithin fuel body level) := by
  induction fuel with
  | zero =>
    exact ⟨fun _ => framed_pure [], fun _ _ => framed_pure [], fun _ _ => framed_pure []⟩
  | succ fuel ih =>
    obtain ⟨hconvert, hconditional, hblock⟩ := ih
    refine ⟨fun s => ?_, fun s level => ?_, fun body level => ?_⟩
    · rw [convertWithin_succ]
      exact framed_statementLines hconvert (hconditional · 0) s
    · rw [conditionalWithin_succ]
      exact framed_chainLines (hblock · (level + 1)) level s
    · rw [blockWithin_succ]
      exact framed_collect (framed_partLines hconvert (hconditional · level) level) _

theorem framed_convertBody (body : String) : Framed (convertBody body) := by
  have hlines := framed_collect (fun s => (framed_within (depthBound s)).1 s) (split body)
  exact hlines.map fun lines =>
    (lines.partition isOrdering).1 ++ (lines.partition isOrdering).2

end Stimulus.Stmt
