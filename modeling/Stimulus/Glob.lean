import Stimulus.Store

/-!
# File name patterns

In a pattern `*` stands for any characters, `?` for one, and brackets for one of a set.
-/

namespace Stimulus

namespace Glob

/-- One character or several of them. -/
inductive Piece where
  | char (c : Char)
  | anyOne
  | anyMany
  /-- One of these ranges, or one of none of them. -/
  | oneOf (negated : Bool) (ranges : List (Char × Char))
deriving DecidableEq, Repr

def ranges : List Char → List (Char × Char)
  | a :: '-' :: b :: rest => (a, b) :: ranges rest
  | a :: rest => (a, a) :: ranges rest
  | [] => []

/-- The members of a set up to its bracket, and what stands behind it. A bracket that comes first is
a member. -/
def members? : List Char → Option (List Char × List Char)
  | ']' :: rest => (upTo rest).map fun (set, rest) => (']' :: set, rest)
  | cs => upTo cs
where
  /-- What stands before the first bracket, and behind it. -/
  upTo (cs : List Char) : Option (List Char × List Char) :=
    match cs.span (· != ']') with
    | (set, _ :: rest) => some (set, rest)
    | (_, []) => none

def set? (cs : List Char) : Option (Piece × List Char) :=
  let (negated, cs) := match cs with
    | '!' :: rest => (true, rest)
    | cs => (false, cs)
  (members? cs).map fun (set, rest) => (.oneOf negated (ranges set), rest)

def pieces : (fuel : Nat) → List Char → List Piece
  | 0, _ => []
  | _, [] => []
  | fuel + 1, c :: rest =>
    if c = '*' then .anyMany :: pieces fuel rest
    else if c = '?' then .anyOne :: pieces fuel rest
    else
      match if c = '[' then set? rest else none with
      | some (piece, rest) => piece :: pieces fuel rest
      | none => .char c :: pieces fuel rest

def Piece.holds (p : Piece) (c : Char) : Bool :=
  match p with
  | char d => c == d
  | anyOne | anyMany => true
  | oneOf negated rs => rs.any (fun (a, b) => a ≤ c && c ≤ b) != negated

def fitsPieces : List Piece → List Char → Bool
  | [], cs => cs.isEmpty
  | .anyMany :: ps, cs => (List.range (cs.length + 1)).any fun n => fitsPieces ps (cs.drop n)
  | p :: ps, c :: cs => p.holds c && fitsPieces ps cs
  | _ :: _, [] => false

def fits (pattern name : String) : Bool :=
  fitsPieces (pieces pattern.length pattern.toList) name.toList

def isPattern (s : String) : Bool := s.toList.any fun c => c == '*' || c == '?' || c == '['

end Glob

namespace Store

def inside (dir name : String) : String := if dir.isEmpty then name else dir ++ "/" ++ name

def below (s : Store) (dir : String) : List String :=
  let keys := s.files.map (·.1) ++ s.dirs
  if dir.isEmpty then keys
  else keys.filterMap fun k =>
    (Text.dropStart? (dir ++ "/").toList k.toList).map String.ofList

def namesIn (s : Store) (path : String) : List String :=
  match s.place (if path.isEmpty then "." else path) with
  | .ok (.dir dir) => (s.below dir).filter fun k => !Text.contains "/" k
  | _ => []

/-- The paths that fit the rest of a pattern, below paths that fit its start. Names that start with
a point fit only patterns that do so too. -/
def matchingFrom (s : Store) (found : List String) : List String → List String
  | [] => found
  | [""] => (found.filter s.isDir).map (· ++ "/")
  | part :: rest =>
    let next := found.flatMap fun dir =>
      if part.isEmpty then [dir]
      else if Glob.isPattern part then
        ((s.namesIn dir).filter fun n =>
          (Text.startsWith "." part || !Text.startsWith "." n) && Glob.fits part n).map (inside dir)
      else [inside dir part].filter s.exists
    matchingFrom s next rest

def matching (s : Store) (pattern : String) : List String :=
  if Path.isAbsolute pattern then
    Text.sorted (s.matchingFrom [Path.home] (namesAfterHome pattern))
  else Text.sorted (s.matchingFrom [""] (Text.splitOn "/" pattern))
where
  /-- The names of an absolute pattern below the working directory. -/
  namesAfterHome (pattern : String) : List String :=
    match Text.dropStart? (Path.home ++ "/").toList pattern.toList with
    | some rest => Text.splitOn "/" (String.ofList rest)
    | none => ["["]

def namesInOrder : List String → List String → Bool
  | [], _ => true
  | _ :: _, [] => false
  | a :: as, b :: bs => decide (a < b) || (a == b && namesInOrder as bs)

def endingIn (s : Store) (path tail : String) : List String :=
  match s.place (if path.isEmpty then "." else path) with
  | .ok (.dir dir) =>
    (((s.below dir).filter fun k => Text.endsWith tail k).map (Path.child path)).mergeSort
      fun a b => namesInOrder (Path.names a) (Path.names b)
  | _ => []

end Store

end Stimulus
