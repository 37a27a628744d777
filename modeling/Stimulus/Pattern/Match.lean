import Stimulus.Pattern.Basic

/-!
# Matches

Where a pattern matches in a text, and replacing what it matches. Matches are found from the left
and do not overlap.
-/

namespace Stimulus

/-- A piece of a text that a pattern matched. -/
structure Match where
  /-- The text before the piece, nearest character first. -/
  before : List Char
  chars : List Char
  after : List Char
  start : Nat
  kept : List (Nat × Piece)

namespace Match

def between (s t : Spot) : Match :=
  ⟨s.before, s.after.take (t.pos - s.pos), t.after, s.pos, t.kept⟩

def text (m : Match) : String := String.ofList m.chars

def stop (m : Match) : Nat := m.start + m.chars.length

def group? (m : Match) (n : Nat) : Option String :=
  (m.kept.find? fun (k, _) => k == n).map fun (_, p) => String.ofList p.chars

def group (m : Match) (n : Nat) : String := (m.group? n).getD ""

def rest (m : Match) : String := String.ofList m.after

end Match

namespace Pattern

/-- The first place from `before` on at which the pattern matches, and the place after it. -/
def searchFrom (p : Pattern) (before : List Char) (pos : Nat) : List Char → Option (Spot × Spot)
  | [] =>
    let s : Spot := ⟨before, [], pos, []⟩
    (walk p s some).map fun t => (s, t)
  | c :: cs =>
    let s : Spot := ⟨before, c :: cs, pos, []⟩
    match walk p s some with
    | some t => some (s, t)
    | none => searchFrom p (c :: before) (pos + 1) cs

def atStart? (p : Pattern) (s : String) : Option Match :=
  let here := Spot.start s.toList
  (walk p here some).map (Match.between here)

def fitsStart (p : Pattern) (s : String) : Bool :=
  (p.atStart? s).isSome

def search? (p : Pattern) (s : String) : Option Match :=
  (searchFrom p [] 0 s.toList).map fun (a, b) => Match.between a b

def occursIn (p : Pattern) (s : String) : Bool :=
  (p.search? s).isSome

/-- The matches from a place on, each as its two ends. After an empty match the search goes on
one character later. -/
def spansFrom (p : Pattern) : (fuel : Nat) → Spot → List (Spot × Spot)
  | 0, _ => []
  | fuel + 1, s =>
    match searchFrom p s.before s.pos s.after with
    | none => []
    | some (a, b) =>
      if b.pos == a.pos then
        if b.after.isEmpty then [(a, b)] else (a, b) :: spansFrom p fuel b.advance
      else (a, b) :: spansFrom p fuel b

def spans (p : Pattern) (cs : List Char) : List (Spot × Spot) :=
  spansFrom p (cs.length + 1) (Spot.start cs)

def findAll (p : Pattern) (s : String) : List Match :=
  (p.spans s.toList).map fun (a, b) => Match.between a b

def countIn (p : Pattern) (s : String) : Nat :=
  (p.spans s.toList).length

/-- Copies the text from `here` on, with a new text in place of every span. -/
def splice (f : Match → String) (here : Spot) : List (Spot × Spot) → List String
  | [] => [String.ofList here.after]
  | (a, b) :: rest =>
    String.ofList (here.after.take (a.pos - here.pos)) :: f (Match.between a b) :: splice f b rest

def replaceAll (p : Pattern) (f : Match → String) (s : String) : String :=
  String.join (splice f (Spot.start s.toList) (p.spans s.toList))

def removeAll (p : Pattern) (s : String) : String :=
  p.replaceAll (fun _ => "") s

end Pattern

end Stimulus
