import Stimulus.Text.Basic

/-!
# The tone of a message
-/

namespace Stimulus.Pipeline

/-- How a message is to be taken. -/
inductive Tone where
  | info
  | success
  | warning
  | error
  | header
  | command
deriving DecidableEq, Repr

namespace Tone

def name : Tone → String
  | info => "info"
  | success => "success"
  | warning => "warning"
  | error => "error"
  | header => "header"
  | command => "command"

/-- How a line that a command printed is to be taken: by the words in it, in either case. -/
def ofOutput (line : String) : Tone :=
  let has := fun word => Text.contains word (Text.lower line)
  if has "error" || has "exception" then error
  else if has "warning" then warning
  else if has "success" || has "complete" then success
  else info

end Tone

end Stimulus.Pipeline
