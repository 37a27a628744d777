import Stimulus.Pipeline.Tone
import Stimulus.Run.Basic

/-!
# Messages on a terminal

Each message has the time before it. On a terminal its colour shows how it is to be taken.
-/

namespace Stimulus.Console

open Pipeline

/-- How messages are shown. -/
structure Look where
  clock : String
  coloured : Bool
deriving DecidableEq, Repr

/-- Colours by the codes that switch a terminal to them. -/
inductive Colour where
  | red
  | green
  | yellow
  | cyan
  | boldCyan
  | orange
  | grey
deriving DecidableEq, Repr

def Colour.code : Colour → String
  | red => "\x1b[91m"
  | green => "\x1b[92m"
  | yellow => "\x1b[93m"
  | cyan => "\x1b[96m"
  | boldCyan => "\x1b[96m\x1b[1m"
  | orange => "\x1b[38;5;208m"
  | grey => "\x1b[90m"

def colourOf? : Tone → Option Colour
  | .info => none
  | .success => some .green
  | .warning => some .yellow
  | .error => some .red
  | .header => some .cyan
  | .command => some .orange

namespace Look

def paint (l : Look) (c : Colour) (text : String) : String :=
  if l.coloured then c.code ++ text ++ "\x1b[0m" else text

def messageLine (l : Look) (tone : Tone) (text : String) : String :=
  if text.isEmpty then ""
  else
    let shown := match colourOf? tone with
      | some c => l.paint c text
      | none => text
    l.paint .grey s!"[{l.clock}]" ++ " " ++ shown

def tell (l : Look) (tone : Tone) (text : String) : Run Unit :=
  Run.sayLine (l.messageLine tone text)

end Look

end Stimulus.Console
