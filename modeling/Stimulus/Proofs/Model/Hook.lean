import Stimulus.Model.Class
import Stimulus.Proofs.Model.Names

/-!
# Lines of a hook

The body of a hook stands in a comment of the method that is written for it, cut after eighty characters.
The comment ends with its line, and a body may have several.
-/

namespace Stimulus.Model

open Text Sv

def hookNames : List String := ["pre_randomize", "post_randomize"]

/-- The part of a body that is written. -/
def shownBody (body : String) : String := if body.length > 80 then take 80 body ++ "..." else body

/-- The lines of the text that is written for a hook. -/
def hookLines (name body : String) : List String :=
  splitOn "\n" (join "\n" ((writeHook name body).run {}).1)

/-- When a hook runs. -/
def hookMoment (name : String) : String := if name = "pre_randomize" then "before" else "after successful"

/-- A line of a method that does nothing: its head, its docstring, a comment or its statement. -/
inductive Idle (name : String) : String → Prop where
  | head : Idle name s!"    def {name}(self):"
  | docstring : Idle name s!"        \"\"\"Called {hookMoment name} randomization\"\"\""
  | comment {line : String} (h : (line.toList.dropWhile isBlank).head? = some '#') : Idle name line
  | pass : Idle name s!"        pass  # TODO: Translate {name} logic"

/-- A text before the first line of another is a part of that line. -/
theorem splitOn_append_first {p : String} (hp : '\n' ∉ p.toList) (q : String) :
    ∃ first rest, splitOn "\n" q = first :: rest ∧ splitOn "\n" (p ++ q) = (p ++ first) :: rest := by
  by_cases hq : '\n' ∈ q.toList
  · obtain ⟨u, v, huv, hu⟩ := List.eq_append_cons_of_mem hq
    have hcut : q = String.ofList u ++ "\n" ++ String.ofList v := by
      rw [← String.toList_inj, huv]
      simp
    refine ⟨String.ofList u, splitOn "\n" (String.ofList v), ?_, ?_⟩
    · rw [hcut, splitOn_newline_append, splitOn_of_not_mem (by simpa using hu)]
      rfl
    · have hfirst : p ++ q = (p ++ String.ofList u) ++ "\n" ++ String.ofList v := by
        rw [hcut, String.append_assoc, String.append_assoc, String.append_assoc]
      rw [hfirst, splitOn_newline_append, splitOn_of_not_mem (by simp [hp, hu])]
      rfl
  · exact ⟨q, [], splitOn_of_not_mem hq, splitOn_of_not_mem (by simp [hp, hq])⟩

theorem hookLines_eq {name : String} (hname : name ∈ hookNames) (body : String) : ∃ first rest,
    splitOn "\n" (shownBody body) = first :: rest ∧
      hookLines name body = s!"    def {name}(self):" ::
        s!"        \"\"\"Called {hookMoment name} randomization\"\"\"" ::
        ("        # Original SV: " ++ first) :: (rest ++ [s!"        pass  # TODO: Translate {name} logic"]) := by
  obtain ⟨first, rest, hbody, hline⟩ :=
    splitOn_append_first (p := "        # Original SV: ") (by decide) (shownBody body)
  have hcomment : s!"        # Original SV: {shownBody body}" = "        # Original SV: " ++ shownBody body := by
    simp [toString]
  have hwrite : ((writeHook name body).run {}).1 = [s!"    def {name}(self):",
      s!"        \"\"\"Called {hookMoment name} randomization\"\"\"",
      s!"        # Original SV: {shownBody body}", s!"        pass  # TODO: Translate {name} logic"] := rfl
  have hone : ∀ n ∈ hookNames, '\n' ∉ (s!"    def {n}(self):").toList ∧
      '\n' ∉ (s!"        \"\"\"Called {hookMoment n} randomization\"\"\"").toList ∧
      '\n' ∉ (s!"        pass  # TODO: Translate {n} logic").toList := by decide
  obtain ⟨hhead, hdoc, hpass⟩ := hone name hname
  refine ⟨first, rest, hbody, ?_⟩
  rw [hookLines, hwrite, splitOn_join (by simp), hcomment]
  simp only [List.flatMap_cons, List.flatMap_nil, hline, splitOn_of_not_mem hhead, splitOn_of_not_mem hdoc,
    splitOn_of_not_mem hpass]
  simp

/-- The method written for a hook does nothing if and only if each further line of the body, as far as the
body is written, is a comment itself or one of the other lines of the method. -/
theorem hookLines_idle_iff {name : String} (hname : name ∈ hookNames) (body : String) :
    (∀ line ∈ hookLines name body, Idle name line) ↔
      ∀ line ∈ (splitOn "\n" (shownBody body)).tail, Idle name line := by
  obtain ⟨first, rest, hbody, hlines⟩ := hookLines_eq hname body
  rw [hlines, hbody, List.tail_cons]
  constructor
  · intro h line hline
    exact h line (by simp [hline])
  · intro h line hline
    simp only [List.mem_cons, List.mem_append, List.not_mem_nil, or_false] at hline
    rcases hline with rfl | rfl | rfl | hline | rfl
    · exact .head
    · exact .docstring
    · exact .comment (by rw [String.toList_append]; rfl)
    · exact h line hline
    · exact .pass

/-- The second line of a body is a statement of the method. -/
theorem hookLines_escape :
    readFunction "function void pre_randomize();\n  a = 1;\n  b = 2;\nendfunction" "pre_randomize" =
        some "a = 1;\n  b = 2;" ∧
      "  b = 2;" ∈ hookLines "pre_randomize" "a = 1;\n  b = 2;" ∧
      ¬ ∀ line ∈ hookLines "pre_randomize" "a = 1;\n  b = 2;", Idle "pre_randomize" line := by
  have hidle : ¬ Idle "pre_randomize" "  b = 2;" := by
    intro h
    generalize hline : "  b = 2;" = line at h
    cases h with
    | comment h => subst hline; revert h; decide
    | head | docstring | pass => revert hline; decide
  refine ⟨by decide, by decide +kernel, fun h => hidle ?_⟩
  exact (hookLines_idle_iff (by decide) _).1 h _ (by decide +kernel)

end Stimulus.Model
