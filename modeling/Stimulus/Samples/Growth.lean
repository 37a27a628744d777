import Stimulus.Model.Program
import Stimulus.Samples.Constructs
import Stimulus.Samples.Registers

/-!
# How models grow

Sources with the converter several times, and the sizes of what is made of them.
-/

namespace Stimulus.Samples

/-- The converter under `n` names. -/
def numberedCopies (n : Nat) : String :=
  copies ((List.range n).map fun i => s!"_{i}")

/-- Writes the model of the converter under `n` names: how the program ends, and how many characters
the model has. -/
def modelSize (n : Nat) : Run (Cli.Exit × Nat) := do
  Run.writeFile "item.sv" (numberedCopies n)
  let exit ← Model.program ["item.sv", "-o", "item.py"]
  return (exit, (← Run.readFile "item.py").length)

/-- The converter under `n` names, and then one of each construct. -/
def grown (n : Nat) : String :=
  Text.join "\n" [numberedCopies n, constructs]

def members (src : Sv.Source) : Nat :=
  src.classes.foldl (fun n c => n + c.fields.length + c.constraints.length) 0

/-- How many fields and constraints are read from the small example and from the grown source. -/
def memberCount (n : Nat) : Outcome Nat := do
  return members (← Sv.read exampleText) + members (← Sv.read (grown n))

/-- How many characters the model of the grown source has if its comments hold the source. -/
def verboseSize (n : Nat) : Outcome Nat := do
  return (← Model.ofText { verbose := true, metrics := true } 1 (grown n)).code.length

/-- How many characters and how many warnings the model of the grown source has if two jobs write
its classes. -/
def apartSize (n : Nat) : Outcome (Nat × Nat) := do
  let draft ← Model.ofText { metrics := true } 2 (grown n)
  return (draft.code.length, draft.journal.warnings.length)

end Stimulus.Samples
