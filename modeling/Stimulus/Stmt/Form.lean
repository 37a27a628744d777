import Stimulus.Expr.Basic

/-!
# Statement forms

The forms of constraint statement that hold no further statements. Each recogniser answers with the
lines of the statement, or with `none` if the statement has another form. They are asked in a fixed
order, with loops and conditionals in between.
-/

namespace Stimulus.Stmt

open Pattern Stimulus.Expr

abbrev Form := Scope → String → Option (List String)

/-- Everything up to the last character that lets the rest match, over several lines. -/
def bulk : Pattern := run (fun _ => true) 1 true

/-- `solve a before b`. -/
def solveBefore? : Form := fun _ s =>
  ((lit "solve" ++ blanks1 ++ group 1 word ++ blanks1 ++ lit "before" ++ blanks1
    ++ group 2 word).atStart? s).map fun m =>
      [s!"vsc.solve_order(self.{m.group 1}, self.{m.group 2})"]

/-- `soft e`. -/
def soft? : Form := fun scope s =>
  ((lit "soft" ++ blanks1 ++ group 1 someGreedy).atStart? s).map fun m =>
    [s!"vsc.soft({convert scope (m.group 1)})"]

/-- `unique {a, b}`. -/
def unique? : Form := fun _ s =>
  ((lit "unique" ++ blanks ++ lit "\x7b" ++ group 1 (some1Not '}') ++ lit "\x7d").atStart? s).map
    fun m =>
      let fields := (Text.splitOn "," (Text.strip (m.group 1))).map fun v => s!"self.{Text.strip v}"
      ["vsc.unique(" ++ Text.join ", " fields ++ ")"]

def weightMarks : List Pattern :=
  [":=", ":/"].map fun mark =>
    group 1 someLazy ++ blanks ++ lit mark ++ blanks ++ group 2 digits

def weightOf? (scope : Scope) (item : String) : Option String :=
  (weightMarks.findSome? fun p => p.atStart? (Text.strip item)).map fun m =>
    s!"vsc.weight({valueOrRange scope (Text.strip (m.group 1))}, {m.group 2})"

def distribution (scope : Scope) (name body : String) : List String :=
  let weights := (Text.splitOn "," body).filterMap (weightOf? scope)
  s!"vsc.dist(self.{name}, [" :: weights.map (fun w => s!"    {w},") ++ ["])"]

/-- `v dist {1 := 10, [2:5] :/ 20}`. -/
def distribution? : Form := fun scope s =>
  ((group 1 word ++ blanks1 ++ lit "dist" ++ blanks ++ lit "\x7b" ++ group 2 bulk
    ++ lit "\x7d").atStart? s).map fun m => distribution scope (m.group 1) (m.group 2)

/-- A field with a range of bits: the name and the two ends are kept under 2, 3 and 4. -/
def bitSlice : Pattern :=
  group 2 word ++ lit "[" ++ group 3 digits ++ lit ":" ++ group 4 digits ++ lit "]"

def sliceMembership (scope : Scope) (m : Match) : String :=
  s!"self.{m.group 2}[{m.group 3}:{m.group 4}] in vsc.rangelist({rangeList scope (m.group 5)})"

/-- `v[7:0] inside {1, 2}`. -/
def sliceInside? : Form := fun scope s =>
  ((bitSlice ++ blanks1 ++ insideSet 5).atStart? s).map fun m => [sliceMembership scope m]

/-- `(a - b) inside {1, 2}`. -/
def parenInside? : Form := fun scope s =>
  ((group 1 (lit "(" ++ someLazy ++ lit ")") ++ blanks1 ++ insideSet 2).atStart? s).map fun m =>
    [s!"{convert scope (m.group 1)}.inside(vsc.rangelist({rangeList scope (m.group 2)}))"]

/-- `v inside {1, 2}`. -/
def inside? : Form := fun scope s =>
  ((group 1 (word ++ opt (lit "." ++ word ++ lit "()")) ++ blanks1 ++ insideSet 2).atStart? s).map
    fun m =>
      let var := Text.replace ".size()" ".size" (m.group 1)
      [s!"self.{var} in vsc.rangelist({rangeList scope (m.group 2)})"]

/-- `!(v inside {1, 2})`. -/
def notInside? : Form := fun scope s =>
  ((lit "!" ++ blanks ++ opt (lit "(") ++ blanks ++ group 1 word ++ blanks1 ++ insideSet 2 ++ blanks
    ++ opt (lit ")")).atStart? s).map fun m =>
      [s!"vsc.not_inside(self.{m.group 1}, vsc.rangelist({rangeList scope (m.group 2)}))"]

def impliesHead : Pattern := group 1 someLazy ++ blanks ++ lit "->" ++ blanks

def implication (scope : Scope) (m : Match) (consequence : String) : List String :=
  [s!"with vsc.implies({convert scope (Text.strip (m.group 1)) true}):", s!"    {consequence}"]

/-- `c -> (v[7:0] inside {1, 2})`. -/
def impliesSliceInside? : Form := fun scope s =>
  ((impliesHead ++ opt (lit "(") ++ blanks ++ bitSlice ++ blanks1 ++ insideSet 5 ++ blanks
    ++ opt (lit ")")).atStart? s).map fun m => implication scope m (sliceMembership scope m)

/-- `c -> (v inside {1, 2})`. -/
def impliesInside? : Form := fun scope s =>
  ((impliesHead ++ opt (lit "(") ++ blanks ++ group 2 word ++ blanks1 ++ insideSet 3 ++ blanks
    ++ opt (lit ")")).atStart? s).map fun m =>
      implication scope m s!"self.{m.group 2} in vsc.rangelist({rangeList scope (m.group 3)})"

/-- `c -> e`. -/
def implies? : Form := fun scope s =>
  ((impliesHead ++ group 2 someGreedy).atStart? s).map fun m =>
    implication scope m (convert scope (Text.strip (m.group 2)))

def comparisonMark : Pattern :=
  lit "==" <|> lit "!=" <|> lit "<" <|> lit ">" <|> lit "<=" <|> lit ">="

/-- `a.size() == 4`. -/
def arraySize? : Form := fun scope s =>
  ((group 1 word ++ lit ".size()" ++ blanks ++ group 2 comparisonMark ++ blanks
    ++ group 3 someGreedy).atStart? s).map fun m =>
      [s!"self.{m.group 1}.size {m.group 2} {convert scope (Text.strip (m.group 3))}"]

/-- The text has no place before its last character at which its parentheses are balanced. -/
def closesLast (depth : Int) : List Char → Bool
  | [] => true
  | c :: cs =>
    let depth := if c = '(' then depth + 1 else if c = ')' then depth - 1 else depth
    if depth == 0 && !cs.isEmpty then false else closesLast depth cs

def withoutParens : (fuel : Nat) → String → String
  | 0, s => s
  | fuel + 1, s =>
    if Text.startsWith "(" s && Text.endsWith ")" s && closesLast 0 s.toList then
      withoutParens fuel (Text.strip (Text.slice 1 (s.length - 1) s))
    else s

/-- Two bounds of one kind each, in this order. The names are kept under 1 and 3, the bounds under
2 and 4. -/
def boundPair (firstMark secondMark : String) : Pattern :=
  let bound := fun (n : Nat) (mark : String) =>
    group n word ++ blanks ++ lit mark ++ blanks ++ group (n + 1) signedDigits
  bound 1 firstMark ++ blanks ++ (lit "&&" <|> lit "&") ++ blanks ++ bound 3 secondMark

/-- The names and the ends of a range given by two bounds, if both are for one field. -/
def boundsOf? (s : String) : Option (String × String × String) :=
  let rising := do
    let m ← (boundPair ">=" "<=").atStart? s
    if m.group 1 = m.group 3 then some (m.group 1, m.group 2, m.group 4) else none
  let falling := do
    let m ← (boundPair "<=" ">=").atStart? s
    if m.group 1 = m.group 3 then some (m.group 1, m.group 4, m.group 2) else none
  rising.or falling

/-- `v >= 1 && v <= 5`. -/
def range? : Form := fun _ s =>
  let inner := withoutParens s.length (Text.strip s)
  (boundsOf? inner).map fun (name, low, high) =>
    [s!"self.{name} in vsc.rangelist(vsc.rng({low}, {high}))"]

def leadingForms : List Form := [solveBefore?, soft?, unique?]

def valueForms : List Form :=
  [distribution?, sliceInside?, parenInside?, inside?, notInside?, impliesSliceInside?,
    impliesInside?, implies?]

def trailingForms : List Form := [arraySize?, range?]

def firstForm? (forms : List Form) : Form := fun scope s =>
  forms.findSome? fun form => form scope s

def expressionLines (scope : Scope) (s : String) : List String :=
  let e := convert scope s
  if Text.hasInk e then [e] else []

end Stimulus.Stmt
