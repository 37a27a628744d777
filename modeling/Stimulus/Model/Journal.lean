/-!
# The journal of a run

What writing a model notes down beside the text: warnings, points for a reader to look at, which
name became which, and how many declarations there were.
-/

namespace Stimulus.Model

/-- How many declarations were written. -/
structure Tally where
  classes : Nat := 0
  fields : Nat := 0
  constraints : Nat := 0
  enums : Nat := 0
deriving DecidableEq, Repr

/-- What is noted down while a model is written. -/
structure Journal where
  /-- Warnings, in order of their first mention. -/
  warnings : List String := []
  /-- Points for a reader to look at, in order of their first mention. -/
  review : List String := []
  notes : List String := []
  tally : Tally := {}
  /-- The indices of the loops that are open. -/
  loopVars : List String := []
deriving DecidableEq, Repr

namespace Journal

def warn (text : String) (j : Journal) : Journal :=
  if j.warnings.contains text then j else { j with warnings := j.warnings ++ [text] }

def warnAll (texts : List String) (j : Journal) : Journal := texts.foldl (fun j t => j.warn t) j

def ask (text : String) (j : Journal) : Journal :=
  if j.review.contains text then j else { j with review := j.review ++ [text] }

def note (text : String) (j : Journal) : Journal := { j with notes := j.notes ++ [text] }

def countFields (n : Nat) (j : Journal) : Journal :=
  { j with tally := { j.tally with fields := j.tally.fields + n } }

def countConstraint (j : Journal) : Journal :=
  { j with tally := { j.tally with constraints := j.tally.constraints + 1 } }

def countClasses (n : Nat) (j : Journal) : Journal :=
  { j with tally := { j.tally with classes := j.tally.classes + n } }

def countEnum (j : Journal) : Journal :=
  { j with tally := { j.tally with enums := j.tally.enums + 1 } }

/-- The two journals one after the other. Texts in both stay twice; the second one's counts of
fields and constraints are added if `counted`. -/
def append (j k : Journal) (counted : Bool) : Journal :=
  { j with
    warnings := j.warnings ++ k.warnings
    review := j.review ++ k.review
    notes := j.notes ++ k.notes
    tally := if counted then
        { j.tally with fields := j.tally.fields + k.tally.fields
                       constraints := j.tally.constraints + k.tally.constraints }
      else j.tally }

end Journal

abbrev Writing := StateM Journal

end Stimulus.Model
