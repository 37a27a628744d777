import Stimulus.Text.Basic

/-!
# Comments

Block comments go first and line comments after them. A block comment that is never closed is
left in place.
-/

namespace Stimulus.Sv

def afterBlockEnd? : List Char → Option (List Char)
  | [] => none
  | '*' :: '/' :: cs => some cs
  | _ :: cs => afterBlockEnd? cs

theorem length_afterBlockEnd? {cs rest : List Char} (h : afterBlockEnd? cs = some rest) :
    rest.length < cs.length := by
  fun_induction afterBlockEnd? cs with
  | case1 => cases h
  | case2 cs =>
    cases h
    exact Nat.lt_succ_of_lt (Nat.lt_succ_self _)
  | case3 c cs _ ih => exact Nat.lt_succ_of_lt (ih h)

def dropBlockComments (cs : List Char) : List Char :=
  match cs with
  | [] => []
  | '/' :: '*' :: cs =>
    match _h : afterBlockEnd? cs with
    | some rest => dropBlockComments rest
    | none => '/' :: '*' :: cs
  | c :: cs => c :: dropBlockComments cs
termination_by cs.length
decreasing_by
  · have := length_afterBlockEnd? _h
    simp only [List.length_cons]
    omega
  · simp

/-- The text without its line comments; `inComment` says whether one is under way. -/
def dropLineCommentsFrom : (inComment : Bool) → List Char → List Char
  | _, [] => []
  | true, c :: cs =>
    if c = '\n' then '\n' :: dropLineCommentsFrom false cs else dropLineCommentsFrom true cs
  | false, '/' :: '/' :: cs => dropLineCommentsFrom true cs
  | false, c :: cs => c :: dropLineCommentsFrom false cs

def dropLineComments (s : String) : String :=
  String.ofList (dropLineCommentsFrom false s.toList)

def dropComments (s : String) : String :=
  dropLineComments (String.ofList (dropBlockComments s.toList))

end Stimulus.Sv
