/-!
# Closing delimiters

The closing delimiter that belongs to an opening one. Delimiters of one kind are counted on their
own, whatever else stands between them.
-/

namespace Stimulus.Text

/-- The text up to the delimiter that closes `depth + 1` open ones, and the text after it. `inner`
is the text passed so far, last character first. -/
def closing? (opener closer : Char) (depth : Nat) (inner : List Char) :
    List Char → Option (List Char × List Char)
  | [] => none
  | c :: cs =>
    if c = opener then closing? opener closer (depth + 1) (c :: inner) cs
    else if c = closer then
      match depth with
      | 0 => some (inner.reverse, cs)
      | depth + 1 => closing? opener closer depth (c :: inner) cs
    else closing? opener closer depth (c :: inner) cs

theorem length_closing? {opener closer : Char} {depth : Nat} {inner cs : List Char}
    {r : List Char × List Char} (h : closing? opener closer depth inner cs = some r) :
    r.2.length < cs.length := by
  fun_induction closing? opener closer depth inner cs with
  | case1 => cases h
  | case2 _ _ _ ih => have := ih h; simp; omega
  | case3 => cases h; simp
  | case4 _ _ _ _ ih => have := ih h; simp; omega
  | case5 _ _ _ _ _ _ ih => have := ih h; simp; omega

end Stimulus.Text
