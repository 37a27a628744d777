/-!
# Character tables

Properties of characters are given as tables of code points: plain spans, runs with a stride (the
alternating upper and lower letters of several scripts), and runs with a shift. A long table is
written as the steps from one entry to the next: how far an entry begins past the end of the one
before, how far it reaches from there, then its stride and shift.
-/

namespace Stimulus.Text

/-- The spans past `stop`. -/
def spansAfter (stop : Nat) : List Nat → List (Nat × Nat)
  | gap :: reach :: rest => (stop + gap, stop + gap + reach) :: spansAfter (stop + gap + reach) rest
  | _ => []

def spansOf (steps : List Nat) : Array (Nat × Nat) := (spansAfter 0 steps).toArray

/-- The shifted runs past `stop`. -/
def shiftsAfter (stop : Nat) : List Int → List (Nat × Nat × Nat × Int)
  | gap :: reach :: stride :: shift :: rest =>
    let lo := stop + gap.toNat
    let hi := lo + reach.toNat
    (lo, hi, stride.toNat, shift) :: shiftsAfter hi rest
  | _ => []

def shiftsOf (steps : List Int) : Array (Nat × Nat × Nat × Int) := (shiftsAfter 0 steps).toArray

/-- The runs past `stop`. -/
def runsAfter (stop : Nat) : List Nat → List (Nat × Nat × Nat)
  | gap :: reach :: stride :: rest =>
    (stop + gap, stop + gap + reach, stride) :: runsAfter (stop + gap + reach) rest
  | _ => []

def runsOf (steps : List Nat) : Array (Nat × Nat × Nat) := (runsAfter 0 steps).toArray

def inSpans (spans : Array (Nat × Nat)) (c : Char) : Bool :=
  spans.any fun (lo, hi) => lo ≤ c.toNat && c.toNat ≤ hi

def inRuns (runs : Array (Nat × Nat × Nat)) (c : Char) : Bool :=
  runs.any fun (lo, hi, stride) =>
    lo ≤ c.toNat && c.toNat ≤ hi && (c.toNat - lo) % stride == 0

/-- The character that a table of shifted runs assigns, if the table mentions the character. -/
def shifted? (runs : Array (Nat × Nat × Nat × Int)) (c : Char) : Option Char :=
  (runs.find? fun (lo, hi, stride, _) =>
    lo ≤ c.toNat && c.toNat ≤ hi && (c.toNat - lo) % stride == 0).map
      fun (_, _, _, shift) => Char.ofNat ((c.toNat : Int) + shift).toNat

end Stimulus.Text
