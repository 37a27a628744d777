import Stimulus.Text.Basic

/-!
# Patterns

A pattern describes a piece of text and what to keep of it. Alternatives are ordered: the first
way to match that lets the rest match is the one taken, a greedy run tries its longest piece
first and a lazy run its shortest.
-/

namespace Stimulus

/-- A piece of text to keep: where it starts and how long it is. Its characters are copied only when
they are asked for, so that trying many ends for a piece costs nothing. -/
structure Piece where
  /-- The text from the start of the piece on. -/
  text : List Char
  size : Nat

def Piece.chars (p : Piece) : List Char := p.text.take p.size

/-- A place in a text, with the pieces kept so far. -/
structure Spot where
  /-- The text before the place, nearest character first. -/
  before : List Char
  after : List Char
  /-- How many characters stand before the place. -/
  pos : Nat
  kept : List (Nat × Piece)

namespace Spot

def start (cs : List Char) : Spot := ⟨[], cs, 0, []⟩

def advance (s : Spot) : Spot :=
  match s.after with
  | [] => s
  | c :: cs => { s with before := c :: s.before, after := cs, pos := s.pos + 1 }

def retreat (s : Spot) : Spot :=
  match s.before with
  | [] => s
  | c :: cs => { s with before := cs, after := c :: s.after, pos := s.pos - 1 }

def piece? (s : Spot) (n : Nat) : Option (List Char) :=
  (s.kept.find? fun (m, _) => m == n).map fun (_, p) => p.chars

def keep (s : Spot) (n : Nat) (since : Spot) : Spot :=
  { s with kept := (n, ⟨since.after, s.pos - since.pos⟩) :: s.kept }

end Spot

/-- A shape of text. -/
inductive Pattern where
  | empty
  | one (set : Char → Bool)
  | text (cs : List Char)
  /-- At least `least` characters of a set, as many or as few as the rest allows. -/
  | run (set : Char → Bool) (least : Nat) (greedy : Bool)
  /-- One piece and then another. -/
  | seq (p q : Pattern)
  /-- The first shape, or else the second. -/
  | alt (p q : Pattern)
  /-- A piece repeated as often as the rest allows. -/
  | star (p : Pattern)
  /-- A piece to keep under a number. -/
  | group (n : Nat) (p : Pattern)
  /-- The piece kept under a number, once more. -/
  | same (n : Nat)
  /-- Nothing, where the given shape does not follow. -/
  | notAhead (p : Pattern)
  /-- Nothing, where the given text does not stand before. -/
  | notBehind (cs : List Char)
  /-- Nothing, where no character of the set stands just before. -/
  | notAfter (set : Char → Bool)
  /-- Nothing, at the edge of a word. -/
  | edge
  /-- Nothing, at the start of the text. -/
  | first
  /-- Nothing, at the end of the text or before a newline that ends it. -/
  | last

namespace Pattern

instance : Append Pattern := ⟨seq⟩

instance : OrElse Pattern := ⟨fun p q => alt p (q ())⟩

def lit (s : String) : Pattern := text s.toList

def oneOf (s : String) : Pattern := one s.toList.contains

def opt (p : Pattern) : Pattern := alt p empty

def blanks : Pattern := run Text.isBlank 0 true

def blanks1 : Pattern := run Text.isBlank 1 true

def word : Pattern := run Text.isWordChar 1 true

def digits : Pattern := run Text.isDecimal 1 true

def signedDigits : Pattern := opt (lit "-") ++ digits

def notNewline (c : Char) : Bool := c != '\n'

def someLazy : Pattern := run notNewline 1 false

def someGreedy : Pattern := run notNewline 1 true

def upTo : Pattern := run (fun _ => true) 0 false

/-- At least one character, none of them `c`. -/
def some1Not (c : Char) : Pattern := run (· != c) 1 true

/-- An identifier of plain letters, digits and underscores, not starting with a digit. -/
def identifier : Pattern :=
  one (fun c => c.isAlpha || c == '_') ++ run (fun c => c.isAlphanum || c == '_') 0 true

/-- Passes the longest run of a set: the new place and the number of characters passed. -/
def passRun (set : Char → Bool) (before : List Char) (count : Nat) :
    List Char → List Char × Nat × List Char
  | [] => (before, count, [])
  | c :: cs => if set c then passRun set (c :: before) (count + 1) cs else (before, count, c :: cs)

/-- Tries `k` at a place and then at up to `n` places before it. -/
def giveBack (k : Spot → Option Spot) : Nat → Spot → Option Spot
  | 0, s => k s
  | n + 1, s =>
    match k s with
    | some r => some r
    | none => giveBack k n s.retreat

/-- Tries `k` after passing `due` more characters of the set, and then after ever more. -/
def creep (set : Char → Bool) (k : Spot → Option Spot) (kept : List (Nat × Piece)) :
    (due : Nat) → (before : List Char) → (pos : Nat) → List Char → Option Spot
  | 0, before, pos, [] => k ⟨before, [], pos, kept⟩
  | 0, before, pos, c :: cs =>
    match k ⟨before, c :: cs, pos, kept⟩ with
    | some r => some r
    | none => if set c then creep set k kept 0 (c :: before) (pos + 1) cs else none
  | _ + 1, _, _, [] => none
  | n + 1, before, pos, c :: cs =>
    if set c then creep set k kept n (c :: before) (pos + 1) cs else none

/-- Repeats `step`, at most `fuel` times, as often as possible; each time it has to move on. -/
def repeatStep (step : Spot → (Spot → Option Spot) → Option Spot) (k : Spot → Option Spot) :
    (fuel : Nat) → Spot → Option Spot
  | 0, s => k s
  | fuel + 1, s =>
    match step s fun t => if t.pos == s.pos then none else repeatStep step k fuel t with
    | some r => some r
    | none => k s

def wordBefore (s : Spot) : Bool :=
  match s.before with
  | [] => false
  | c :: _ => Text.isWordChar c

def wordAfter (s : Spot) : Bool :=
  match s.after with
  | [] => false
  | c :: _ => Text.isWordChar c

def passText (cs : List Char) (s : Spot) : Option Spot :=
  match Text.dropStart? cs s.after with
  | some rest =>
    some { s with before := cs.reverseAux s.before, after := rest, pos := s.pos + cs.length }
  | none => none

/-- Looks for a way to match the pattern at a place such that `k` accepts the place after it, and
answers with what `k` says of the first such way. -/
def walk : Pattern → Spot → (Spot → Option Spot) → Option Spot
  | empty, s, k => k s
  | one set, s, k =>
    match s.after with
    | [] => none
    | c :: _ => if set c then k s.advance else none
  | text cs, s, k => (passText cs s).bind k
  | run set least greedy, s, k =>
    if greedy then
      match passRun set s.before 0 s.after with
      | (before, count, after) =>
        if count < least then none
        else giveBack k (count - least) ⟨before, after, s.pos + count, s.kept⟩
    else creep set k s.kept least s.before s.pos s.after
  | seq p q, s, k => walk p s fun t => walk q t k
  | alt p q, s, k =>
    match walk p s k with
    | some r => some r
    | none => walk q s k
  | star p, s, k => repeatStep (walk p) k (s.after.length + 1) s
  | group n p, s, k => walk p s fun t => k (t.keep n s)
  | same n, s, k =>
    match s.piece? n with
    | some cs => (passText cs s).bind k
    | none => none
  | notAhead p, s, k => if (walk p s some).isSome then none else k s
  | notBehind cs, s, k => if Text.beginsWith cs.reverse s.before then none else k s
  | notAfter set, s, k =>
    match s.before with
    | [] => k s
    | c :: _ => if set c then none else k s
  | edge, s, k => if wordBefore s != wordAfter s then k s else none
  | first, s, k => if s.before.isEmpty then k s else none
  | last, s, k =>
    match s.after with
    | [] => k s
    | ['\n'] => k s
    | _ => none

end Pattern

end Stimulus
