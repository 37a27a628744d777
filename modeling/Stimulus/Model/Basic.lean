import Stimulus.Model.Check
import Stimulus.Model.Class
import Stimulus.Model.Enum
import Stimulus.Model.Count
import Stimulus.Sv.ClassDecl

/-!
# Models

A model is the text of a solver model for the classes of a source: a head, the enumerations, stubs
for undeclared parents, the classes and an example of their use.
-/

namespace Stimulus.Model

open Sv

def headText : String :=
  Text.join "\n"
    ["#!/usr/bin/env python3", "\"\"\"", "Auto-generated pyvsc translation from SystemVerilog", "",
      "IMPORTANT: This is a SUGGESTED translation that requires manual review.", "Please verify:",
      "1. All constraint semantics are preserved", "2. Data type mappings are correct",
      "3. Distribution weights match original intent", "4. Solve order effects are equivalent", "",
      "Generated by: SV-to-pyvsc Translation Assistant", "\"\"\""]

def importText : String :=
  Text.join "\n"
    ["import vsc", "from enum import IntEnum", "import random", "from typing import Optional"]

def halveIndent (line : String) : String :=
  let rest := line.toList.dropWhile (· == ' ')
  let blanks := line.length - rest.length
  Text.rule ' ' (blanks / 4 * 2 + blanks % 4) ++ String.ofList rest

def narrowed (code : String) : String :=
  Text.join "\n" ((Text.splitOn "\n" code).map halveIndent)

/-- What was counted while a model was written. -/
inductive Counting where
  /-- No model was written: there were no classes. -/
  | unwritten
  /-- Nothing was counted. -/
  | uncounted
  | counted (m : Metrics)
deriving DecidableEq, Repr

/-- A model and what was noted while it was written. -/
structure Draft where
  code : String
  journal : Journal
  scope : Expr.Scope := {}
  counting : Counting := .unwritten
  source : String := ""
deriving DecidableEq, Repr

def writeEnums : List Enum → Writing (List String)
  | [] => return []
  | e :: rest => do
    let text ← writeEnum e
    modify Journal.countEnum
    return text :: (← writeEnums rest)

def writeChecked (settings : Settings) (scope : Expr.Scope) (c : ClassDecl) : Writing String := do
  let text ← writeClass settings scope c
  if settings.metrics then modify (Journal.warnAll (missingParts c text))
  return text

def writeInTurn (settings : Settings) (scope : Expr.Scope) : List ClassDecl → Writing (List String)
  | [] => return []
  | c :: rest => do
    let text ← writeChecked settings scope c
    modify (Journal.countClasses 1)
    return text :: (← writeInTurn settings scope rest)

/-- Writes each class with a journal of its own, and puts the journals together in order. -/
def writeApart (settings : Settings) (scope : Expr.Scope) (classes : List ClassDecl) :
    Writing (List String) := do
  let parts := classes.map fun c => (writeChecked settings scope c).run {}
  modify fun j => (parts.foldl (fun j part => j.append part.2 settings.metrics) j).countClasses
    classes.length
  return parts.map Prod.fst

def writeParts (settings : Settings) (jobs : Int) (scope : Expr.Scope) (src : Source) :
    Writing (List String) := do
  let enums ← writeEnums (distinctEnums src.enums)
  let parents := undeclaredParents src.classes
  let stubs ← if parents.isEmpty then pure [] else (fun text => [text]) <$> writeStubs parents
  let classes ←
    if jobs > 1 && src.classes.length > 1 then writeApart settings scope src.classes
    else writeInTurn settings scope src.classes
  return enums ++ stubs ++ classes

/-- Why declarations have no model. The enumerations are written first, and then the classes. -/
def obstacle? (settings : Settings) (src : Source) : Option Failure :=
  if !(distinctEnums src.enums).all enumIsPrintable then some (.badValue Text.tooManyDigits)
  else src.classes.findSome? (classObstacle? settings)

/-- The model of declarations that have one, with some loops open. More than one job writes the
classes apart from each other, and then warnings that two classes share stay twice. -/
def draft (settings : Settings) (jobs : Int) (src : Source) (loopVars : List String := []) : Draft :=
  let (scope, journal) := scopeOf src.enums { loopVars }
  let (parts, journal) := (writeParts settings jobs scope src).run journal
  let parts := [headText, importText] ++ parts ++ [usageText src.classes]
  let code := narrowed (Text.join "\n\n" (parts.filter fun part => !part.isEmpty))
  let journal := if settings.metrics then journal.warnAll (leftovers code) else journal
  { code, journal, scope
    counting := if settings.metrics then .counted (.of src.classes code) else .uncounted
    source := Text.join "\n\n" (src.classes.map (·.source)) }

def write (settings : Settings) (jobs : Int) (src : Source) (loopVars : List String := []) :
    Outcome Draft :=
  match obstacle? settings src with
  | some e => .error e
  | none => .ok (draft settings jobs src loopVars)

def emptyDraft : Draft where
  code := "# No classes found in input"
  journal := { warnings := ["No SystemVerilog classes found in input"] }

def ofText (settings : Settings) (jobs : Int) (text : String) : Outcome Draft := do
  let src ← Sv.read text
  if src.classes.isEmpty then return emptyDraft else write settings jobs src

end Stimulus.Model
