import Stimulus.Model.Basic

/-!
# Sessions

Several sources read one after the other. What is kept between them is what was last read, what was
last written and which loops are open: a source that cannot be read leaves the rest as it was. Of a
model that cannot be finished what was noted for it up to there is kept.
-/

namespace Stimulus.Model

open Sv

/-- What is kept between sources. -/
structure Session where
  settings : Settings := {}
  enums : List Enum := []
  classes : List ClassDecl := []
  /-- The model written last. -/
  last? : Option Draft := none
  /-- The indices of the loops that are open. -/
  loopVars : List String := []
deriving DecidableEq, Repr

/-- Notes what is noted for a class up to a field that cannot be written. -/
def noteFields (c : ClassDecl) : Writing Unit := do
  if let some p := c.parent then modify (Journal.note s!"Class '{c.name}' extends '{p}'")
  modify (Journal.countFields (c.fields.takeWhile fun f => fieldIsPrintable f.toFieldShape).length)

/-- Notes what is noted for declarations up to the one that cannot be written. What jobs of their own
have noted for other classes is lost. -/
def noteUnfinished (settings : Settings) (jobs : Int) (scope : Expr.Scope) (src : Source) :
    Writing Unit := do
  let enums := distinctEnums src.enums
  discard (writeEnums (enums.takeWhile enumIsPrintable))
  if enums.all enumIsPrintable then
    let parents := undeclaredParents src.classes
    if !parents.isEmpty then discard (writeStubs parents)
    if jobs ≤ 1 || src.classes.length ≤ 1 then
      let (done, rest) := src.classes.span fun c => (classObstacle? settings c).isNone
      discard (writeInTurn settings scope done)
      rest.head?.forM noteFields

/-- The draft of a model that cannot be finished has no text. -/
def unfinished (settings : Settings) (jobs : Int) (src : Source) (loopVars : List String) : Draft :=
  let (scope, journal) := scopeOf src.enums { loopVars }
  { code := "", scope, journal := ((noteUnfinished settings jobs scope src).run journal).2 }

/-- Reads a source and writes its model. Enumerations are read before classes, so they are kept even
if a class cannot be read. -/
def Session.step (s : Session) (jobs : Int) (text : String) : Outcome Draft × Session :=
  let bare := dropComments text
  match readEnums bare with
  | .error e => (.error e, s)
  | .ok enums =>
    let s := { s with enums }
    match readClasses bare with
    | .error e => (.error e, s)
    | .ok classes =>
      let s := { s with classes }
      if classes.isEmpty then (.ok emptyDraft, s)
      else match write s.settings jobs { enums, classes } s.loopVars with
        | .error e =>
          (.error e, { s with last? := some (unfinished s.settings jobs { enums, classes } s.loopVars) })
        | .ok draft => (.ok draft, { s with last? := some draft, loopVars := draft.journal.loopVars })

end Stimulus.Model
