import Stimulus.Store

/-!
# Runs of programs

A program reads and writes files, prints text and starts commands. What it did up to a failure stays
done.
-/

namespace Stimulus

/-! ## Commands

A program may start other programs. What they do is not part of the desk: it is given beforehand, one
reply per command.
-/

/-- How a command is called. -/
inductive CommandLine where
  | shell (line : String)
  /-- By a program and its arguments. -/
  | words (words : List String)
deriving DecidableEq, Repr

/-- A command that was started. -/
structure Command where
  line : CommandLine
  /-- The directory it runs in, if one was named. -/
  dir : Option String := none
  /-- It was told not to hold its output back. -/
  unbuffered : Bool := false
deriving DecidableEq, Repr

/-- What a command does. -/
structure Reply where
  lines : List String := []
  code : Int := 0
  writes : List (String × String) := []
  fault : Option String := none
deriving DecidableEq, Repr

/-! ## Programs -/

/-- What a program finds and leaves. -/
structure Desk where
  store : Store := {}
  /-- The lines still to be read from the standard input. -/
  input : List String := []
  out : String := ""
  err : String := ""
  /-- What the next commands do; one without a reply does nothing and succeeds. -/
  replies : List Reply := []
  commands : List Command := []
deriving DecidableEq, Repr

abbrev Run := ExceptT Failure (StateM Desk)

namespace Run

def say (text : String) : Run Unit := modify fun d => { d with out := d.out ++ text }

def sayLine (text : String) : Run Unit := say (text ++ "\n")

def sayLines (lines : List String) : Run Unit := say (Text.unlines lines)

def complain (text : String) : Run Unit := modify fun d => { d with err := d.err ++ text ++ "\n" }

def ask (prompt : String) : Run String := do
  say prompt
  match (← get).input with
  | [] => throw .endOfInput
  | line :: rest =>
    modify fun d => { d with input := rest }
    return line

def look {α : Type} (f : Store → α) : Run α := return f (← get).store

def isThere (path : String) : Run Bool := look (·.exists path)

def ofOutcome {α : Type} : Outcome α → Run α
  | .ok a => pure a
  | .error e => throw e

def readFile (path : String) : Run String := do ofOutcome ((← get).store.read path)

def readRaw (path : String) : Run String := do ofOutcome ((← get).store.readRaw path)

def change (f : Store → Outcome Store) : Run Unit := do
  let store ← ofOutcome (f (← get).store)
  modify fun d => { d with store }

def writeFile (path text : String) : Run Unit := change (·.write path text)

def appendFile (path text : String) : Run Unit := change (·.append path text)

def makeDirs (path : String) : Run Unit := change (·.makeDirs path)

def start (c : Command) : Run Reply := do
  let desk ← get
  let reply := desk.replies.headD {}
  set { desk with replies := desk.replies.tail, commands := desk.commands ++ [c] }
  match reply.fault with
  | some text => throw (.commandFailed text)
  | none =>
    let put := fun (s : Store) (key, text) => s.putBelow key text
    modify fun d => { d with store := reply.writes.foldl put d.store }
    return reply

def attempt {α : Type} (r : Run α) : Run (Outcome α) := do
  try
    return .ok (← r)
  catch e => return .error e

/-- Runs a program on the same files, with its own output: how it ended and what it printed. -/
def apart {α : Type} (r : Run α) : Run (Outcome α × String × String) := do
  let desk ← get
  let (result, after) := r.run { desk with out := "", err := "" }
  set { after with out := desk.out, err := desk.err }
  return (result, after.out, after.err)

def on {α : Type} (r : Run α) (d : Desk) : Outcome α × Desk := r.run d

end Run

end Stimulus
