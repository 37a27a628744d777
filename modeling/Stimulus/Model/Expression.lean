import Stimulus.Model.Term

/-!
# Reading expressions of a model
-/

namespace Stimulus.Model

/-- A piece of an expression. -/
inductive Token where
  | word (s : String)
  | number (n : Nat)
  | mark (s : String)
deriving DecidableEq, Repr

def isNameChar (c : Char) : Bool := c.isAlphanum || c == '_'

def longMarks : List String := ["==", "!=", "<=", ">=", "<<", ">>", "//"]

def tokensOf : List Char → List Token
  | [] => []
  | c :: rest =>
    if Text.isBlank c then tokensOf rest
    else if isNameChar c then
      let run := c :: rest.takeWhile isNameChar
      let token := if c.isDigit then .number (run.foldl (fun n d => n * 10 + (d.toNat - 48)) 0)
        else .word (String.ofList run)
      token :: tokensOf (rest.dropWhile isNameChar)
    else
      let more := if longMarks.contains (String.ofList (c :: rest.take 1)) then 1 else 0
      .mark (String.ofList (c :: rest.take more)) :: tokensOf (rest.drop more)
termination_by cs => cs.length
decreasing_by
  · exact Nat.lt_succ_self _
  · exact Nat.lt_succ_of_le (List.dropWhile_sublist _).length_le
  · exact Nat.lt_succ_of_le (by simp)

/-! ## Terms -/

def levels : List (List String) :=
  [["in", "==", "!=", "<", "<=", ">", ">="], ["|"], ["^"], ["&"], ["<<", ">>"], ["+", "-"],
    ["*", "//", "%"]]

def Token.operator? (ops : List String) : Token → Option String
  | word s | mark s => if ops.contains s then some s else none
  | number _ => none

def exchanged? : String → Option String
  | "==" => some "=="
  | "!=" => some "!="
  | "<" => some ">"
  | "<=" => some ">="
  | ">" => some "<"
  | ">=" => some "<="
  | _ => none

/-- How far to the left of a comparison a term belongs: a field first, a number last. -/
def Term.rank : Term → Nat
  | .field _ => 0
  | .apply .. => 1
  | .number _ => 2

/-- An operator between two terms. The term that belongs further left of a comparison stands
there. -/
def Term.combine (op : String) (a b : Term) : Term :=
  match exchanged? op with
  | some other => if b.rank < a.rank then .apply other [b, a] else .apply op [a, b]
  | none => .apply op [a, b]

mutual

def readLevel : (fuel : Nat) → List (List String) → List Token → Option (Term × List Token)
  | 0, _, _ => none
  | fuel + 1, [], ts => readSigned fuel ts
  | fuel + 1, ops :: tighter, ts => do
    let (first, rest) ← readLevel fuel tighter ts
    readMore fuel ops tighter first rest

def readMore : (fuel : Nat) → List String → List (List String) → Term → List Token →
    Option (Term × List Token)
  | 0, _, _, _, _ => none
  | fuel + 1, ops, tighter, first, ts =>
    match ts with
    | [] => some (first, [])
    | t :: rest =>
      match t.operator? ops with
      | none => some (first, ts)
      | some op => do
        let (second, rest) ← readLevel fuel tighter rest
        readMore fuel ops tighter (first.combine op second) rest

def readSigned : (fuel : Nat) → List Token → Option (Term × List Token)
  | 0, _ => none
  | fuel + 1, ts =>
    match ts with
    | .mark "-" :: .number n :: rest => some (.number (-n), rest)
    | .mark "-" :: rest => do
      let (t, rest) ← readSigned fuel rest
      return (.apply "-" [t], rest)
    | .mark "~" :: rest => do
      let (t, rest) ← readSigned fuel rest
      return (.apply "~" [t], rest)
    | ts => readAtom fuel ts

def readAtom : (fuel : Nat) → List Token → Option (Term × List Token)
  | 0, _ => none
  | fuel + 1, ts =>
    match ts with
    | .number n :: rest => some (.number n, rest)
    | .mark "(" :: rest => do
      let (t, rest) ← readLevel fuel levels rest
      match rest with
      | .mark ")" :: rest => readMethod fuel t rest
      | _ => none
    | .word "self" :: .mark "." :: .word name :: rest => readMethod fuel (.field name) rest
    | .word "vsc" :: .mark "." :: .word f :: .mark "(" :: rest => do
      let (args, rest) ← readArguments fuel rest
      return (.apply f args, rest)
    | _ => none

def readMethod : (fuel : Nat) → Term → List Token → Option (Term × List Token)
  | 0, _, _ => none
  | fuel + 1, t, ts =>
    match ts with
    | .mark "." :: .word f :: .mark "(" :: rest => do
      let (args, rest) ← readArguments fuel rest
      readMethod fuel (.apply f (t :: args)) rest
    | ts => some (t, ts)

def readArguments : (fuel : Nat) → List Token → Option (List Term × List Token)
  | 0, _ => none
  | fuel + 1, ts =>
    match ts with
    | .mark ")" :: rest => some ([], rest)
    | ts => do
      let (t, rest) ← readLevel fuel levels ts
      match rest with
      | .mark "," :: rest =>
        let (more, rest) ← readArguments fuel rest
        return (t :: more, rest)
      | .mark ")" :: rest => return ([t], rest)
      | _ => none

end

def Term.read? (s : String) : Option Term := do
  let ts := tokensOf s.toList
  match ← readLevel ((ts.length + 1) * (levels.length + 4)) levels ts with
  | (t, []) => some t
  | _ => none

end Stimulus.Model
