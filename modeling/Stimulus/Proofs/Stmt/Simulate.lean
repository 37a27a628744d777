import Stimulus.Proofs.Stmt.Write

/-!
# Converting the text of a tree

Conversion of a text calls itself on the texts inside, with less fuel. With as much fuel as the text
is long it makes what is written for the tree of the text.
-/

open List
open String (ofList toList_ofList)

namespace Stimulus.Sv

open Stimulus.Stmt

theorem Stmt.writeIn_of_not_isCond (level : Nat) {s : Stmt} (h : s.isCond = false) :
    s.writeIn level = (do return relined level (← s.write)) := by
  cases s with
  | leaf | implies => rfl
  | loop x i body => rw [Stmt.writeIn, Stmt.write]
  | cond => cases h

namespace Block

section Length

variable (l : Layout) (n : Nat) {s : Stmt}

theorem length_lt_after : ∀ b : Block, s ∈ b.list → (s.chars l n).length < (b.after l n).length
  | .nil, h => absurd h not_mem_nil
  | .cons t rest, h => by
    rw [after, Stmt.text]
    rcases mem_cons.1 h with rfl | h
    · simp
      omega
    · have := rest.length_lt_after h
      simp
      omega

theorem length_lt_text {b : Block} (h : s ∈ b.list) :
    (s.chars l n).length < (b.text l n).length := by
  have htext := congrArg List.length (b.cons_text l n)
  have := b.length_lt_after l n h
  simp at htext
  omega

theorem length_le_tight {b : Block} (h : s ∈ b.list) :
    (s.chars l n).length ≤ (b.tight l n).length := by
  cases b with
  | nil => exact absurd h not_mem_nil
  | cons t rest =>
    rw [tight, Stmt.text]
    rcases mem_cons.1 h with rfl | h
    · simp
    · have := rest.length_lt_after l n h
      simp
      omega

end Length

theorem list_beyond_subset : ∀ b : Block, b.beyond.list ⊆ b.list
  | .nil | .cons (.leaf _) _ | .cons (.implies _ _) _ | .cons (.loop _ _ _) _ => List.Subset.refl _
  | .cons (.cond c body more) rest => by
    rw [beyond]
    refine List.Subset.trans ?_ (subset_cons_self _ _)
    split
    · exact List.Subset.refl _
    · exact rest.list_beyond_subset

theorem list_remaining_subset (more : Branches) (rest : Block) :
    (remaining more rest).list ⊆ rest.list := by
  rw [remaining]
  split
  · exact List.Subset.refl _
  · exact rest.list_beyond_subset

end Block

end Stimulus.Sv

namespace Stimulus.Stmt

open Text Sv Pattern Expr

/-! ## The parts of a body -/

section Parts

variable (l : Layout) (n : Nat)

theorem split_bare {b : Block} {cs : List Char} (h : b.Spread l n cs) :
    (split (ofList cs)).map bare = b.list.map fun s => ofList (s.chars l n) := by
  rw [split_spread l n h, map_map]
  exact map_congr_left fun s _ => bare_text l n s

theorem blockParts_nil : blockParts (ofList (Block.tight l n .nil)) = [] := by
  have hif : ¬ ifHead.fitsStart (ofList (Block.tight l n .nil)) = true := by
    rw [Block.tight]
    decide
  rw [blockParts, if_neg hif, split_bare l n (Block.spread_tight _)]
  rfl

theorem blockParts_of_not_isCond {s : Sv.Stmt} (hs : s.isCond = false) (rest : Block) :
    blockParts (ofList (Block.tight l n (.cons s rest))) =
      (s :: rest.list).map fun s => ofList (s.chars l n) := by
  have hif : ifHead.fitsStart (ofList (Block.tight l n (.cons s rest))) = false := by
    rw [fitsStart, Block.tight, Sv.Stmt.text, append_assoc, not_ifHead_chars l n s hs]
    rfl
  rw [blockParts, hif, if_neg Bool.false_ne_true, split_bare l n (Block.spread_tight _)]
  rfl

theorem blockParts_cond (c : Condition) (body : Block) (more : Branches) (rest : Block) :
    blockParts (ofList (Block.tight l n (.cons (.cond c body more) rest))) =
      ofList (Sv.Stmt.chars l n (.cond c body more) ++ swallowed l n more rest) ::
        (remaining more rest).list.map fun s => ofList (s.chars l n) := by
  obtain ⟨b, v, htight, hb, hv, hend⟩ := conditionalEnd_tight l n c body more rest
  have hends : Ends (· = '}') (Sv.Stmt.chars l n (.cond c body more)) :=
    more.ends_append l n (l.ends_headed n _ _ _)
  have htrim : Trim (Sv.Stmt.chars l n (.cond c body more) ++ swallowed l n more rest) :=
    ⟨(((Sv.Stmt.starts_chars l n (.cond c body more)).mono fun _ => isBlank_of_isFirst).append _).head,
      last_append hends (inert_swallowed l n more rest).last⟩
  have hif : ifHead.fitsStart
      (ofList (Block.tight l n (.cons (.cond c body more) rest))) = true := by
    rw [fitsStart, htight, Sv.Stmt.chars, append_assoc, append_assoc, append_assoc,
      headed_append, atStart?_ifHead]
    rfl
  rw [blockParts, if_pos hif, hend, htight]
  dsimp only
  rw [Text.take, Text.drop, toList_ofList, take_left, drop_left, hv.strip,
    split_bare l n (Block.spread_tight _), strip_right htrim hb]

end Parts

theorem collect_later (l : Layout) (n level : Nat) {part : String → Conversion (List String)} :
    ∀ b : Block, (∀ s ∈ b.list, part (ofList (s.chars l n)) = s.pruned.writeIn level) →
    collect part (b.list.map fun s => ofList (s.chars l n)) = (b.pruned .later).write level
  | .nil, _ => by
    rw [Block.pruned, Block.write]
    rfl
  | .cons s rest, h => by
    obtain ⟨hs, hrest⟩ := forall_mem_cons.1 h
    rw [Block.list, map_cons, collect_cons, hs, collect_later l n level rest hrest,
      Block.pruned_cons_later, Block.write]

/-! ## Fuel -/

/-- What conversion with this much fuel makes of texts that are not longer. -/
structure Simulates (fuel : Nat) : Prop where
  statement : ∀ (l : Layout) (n : Nat) (s : Sv.Stmt) {e : List Char}, e = [] ∨ e = [';'] →
    (s.chars l n).length ≤ fuel →
    convertWithin fuel (ofList (s.chars l n ++ e)) = s.pruned.write
  conditional : ∀ (l : Layout) (n level : Nat) (c : Condition) (body : Block) (more : Branches)
    {rest : List Char}, Inert rest →
    (Sv.Stmt.chars l n (.cond c body more)).length ≤ fuel + 1 →
    conditionalWithin fuel (ofList (Sv.Stmt.chars l n (.cond c body more) ++ rest)) level =
      inBranch level ifLine c ((body.pruned .first).write (level + 1)) (more.pruned.write level)
  block : ∀ (l : Layout) (n level : Nat) (b : Block), (b.tight l n).length < fuel →
    blockWithin fuel (ofList (b.tight l n)) level = (b.pruned .first).write level

section Step

variable (l : Layout) (n level : Nat) {fuel : Nat} (ih : Simulates fuel)

include ih

theorem statement_step (s : Sv.Stmt) {e : List Char} (he : e = [] ∨ e = [';'])
    (hfuel : (s.chars l n).length ≤ fuel + 1) :
    convertWithin (fuel + 1) (ofList (s.chars l n ++ e)) = s.pruned.write := by
  rw [convertWithin_succ]
  cases s with
  | leaf c => rw [statementLines_leaf l n _ _ c he, Sv.Stmt.pruned, Sv.Stmt.write]
  | implies a b => rw [statementLines_implies l n _ _ a b he, Sv.Stmt.pruned, Sv.Stmt.write]
  | loop x i body =>
    refine statementLines_loop l n _ _ x i body he fun s hs => ?_
    have hlen : (s.chars l (n + 1)).length ≤ fuel := by
      have := Block.length_lt_text l (n + 1) hs
      simp [Sv.Stmt.chars, Layout.headed, Layout.braced] at hfuel
      omega
    have := ih.statement l (n + 1) s (.inl rfl) hlen
    rwa [append_nil] at this
  | cond c body more =>
    refine statementLines_cond l n c body more he ?_
    have := ih.conditional l n 0 c body more inert_nil hfuel
    rwa [append_nil] at this

theorem partLines_cond (c : Condition) (body : Block) (more : Branches) {rest : List Char}
    (hrest : Inert rest) (hfuel : (Sv.Stmt.chars l n (.cond c body more)).length ≤ fuel) :
    partLines (convertWithin fuel) (conditionalWithin fuel · level) level (ofList (Sv.Stmt.chars l n (.cond c body more) ++ rest)) =
      (Sv.Stmt.cond c body more).pruned.writeIn level := by
  have hif : ifHead.fitsStart
      (ofList (Sv.Stmt.chars l n (.cond c body more) ++ rest)) = true := by
    rw [fitsStart, Sv.Stmt.chars, append_assoc, headed_append, atStart?_ifHead]
    rfl
  rw [partLines, if_neg (isEmpty_of_starts ((Sv.Stmt.starts_chars l n _).append rest)), if_pos hif,
    ih.conditional l n level c body more hrest (by omega), Sv.Stmt.pruned, Sv.Stmt.writeIn]

theorem partLines_chars (s : Sv.Stmt) (hfuel : (s.chars l n).length ≤ fuel) :
    partLines (convertWithin fuel) (conditionalWithin fuel · level) level (ofList (s.chars l n)) = s.pruned.writeIn level := by
  cases hs : s.isCond with
  | true =>
    cases s with
    | leaf | implies | loop => cases hs
    | cond c body more =>
      have := partLines_cond l n level ih c body more inert_nil hfuel
      rwa [append_nil] at this
  | false =>
    have hif : ¬ ifHead.fitsStart (ofList (s.chars l n)) = true := by
      have := not_ifHead_chars l n s hs []
      rw [append_nil] at this
      rw [fitsStart, this]
      decide
    have hconvert := ih.statement l n s (.inl rfl) hfuel
    rw [append_nil] at hconvert
    rw [partLines, if_neg (isEmpty_of_starts (s.starts_chars l n)), if_neg hif, hconvert,
      Sv.Stmt.writeIn_of_not_isCond level (s.isCond_pruned.trans hs)]

theorem block_step (b : Block) (hfuel : (b.tight l n).length < fuel + 1) :
    blockWithin (fuel + 1) (ofList (b.tight l n)) level = (b.pruned .first).write level := by
  have hpart : ∀ s ∈ b.list,
      partLines (convertWithin fuel) (conditionalWithin fuel · level) level (ofList (s.chars l n)) = s.pruned.writeIn level := by
    intro s hs
    have := Block.length_le_tight l n hs
    exact partLines_chars l n level ih s (by omega)
  rw [blockWithin_succ, strip_of_trim b.trim_tight]
  cases b with
  | nil =>
    rw [blockParts_nil, Block.pruned, Block.write]
    rfl
  | cons s rest =>
    cases hs : s.isCond with
    | false =>
      have hlater := collect_later l n level (.cons s rest) hpart
      rw [blockParts_of_not_isCond l n hs, Block.pruned_of_not_isCond .first hs,
        ← Block.pruned_cons_later]
      exact hlater
    | true =>
      cases s with
      | leaf | implies | loop => cases hs
      | cond c body more =>
        have hlen := Block.length_le_tight l n (b := .cons (.cond c body more) rest)
          mem_cons_self
        rw [blockParts_cond, collect_cons, Block.pruned_first_cond, Block.write,
          partLines_cond l n level ih c body more (inert_swallowed l n more rest) (by omega),
          collect_later l n level _ fun s hs =>
            hpart s (mem_cons_of_mem _ (Block.list_remaining_subset more rest hs))]

end Step

theorem simulates (fuel : Nat) : Simulates fuel := by
  induction fuel with
  | zero =>
    refine ⟨fun l n s e _ hfuel => ?_, fun l n level c body more rest _ hfuel => ?_,
      fun l n level b hfuel => absurd hfuel (by omega)⟩
    · exact absurd (length_eq_zero_iff.1 (by omega)) (s.starts_chars l n).ne_nil
    · simp [Sv.Stmt.chars, Layout.headed, ifWord] at hfuel
  | succ fuel ih =>
    refine ⟨fun l n s e he hfuel => statement_step l n ih s he hfuel,
      fun l n level c body more rest hrest hfuel => ?_,
      fun l n level b hfuel => block_step l n level ih b hfuel⟩
    exact conditionalWithin_chars l n (fun b hb => ih.block l (n + 1) (level + 1) b hb) c body more
      hrest hfuel

theorem convert_text (l : Layout) (n : Nat) (s : Sv.Stmt) :
    convert (ofList (s.text l n)) = s.pruned.write := by
  refine (simulates _).statement l n s (stop_cases s) ?_
  simp [depthBound, Sv.Stmt.text]
  omega

theorem collect_convert (l : Layout) (n : Nat) (b : Block) :
    collect convert (b.list.map fun s => ofList (s.text l n)) =
      (b.pruned .later).writeEach id := by
  cases b with
  | nil =>
    rw [Block.pruned, Block.writeEach]
    rfl
  | cons s rest =>
    rw [Block.list, map_cons, collect_cons, convert_text, collect_convert l n rest,
      Block.pruned_cons_later, Block.writeEach]
    rfl

theorem convertBody_text (l : Layout) (b : Block) :
    convertBody (ofList (b.text l 0)) = (do
      let lines ← (b.pruned .later).writeEach id
      return lines.filter isOrdering ++ lines.filter fun line => !isOrdering line) := by
  rw [convertBody, split_spread l 0 (Block.spread_text l 0 b), collect_convert]
  simp only [partition_eq_filter_filter]
  rfl

end Stimulus.Stmt
