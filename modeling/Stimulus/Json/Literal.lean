import Stimulus.Json.Basic
import Stimulus.Text.Basic

/-!
# Values as literals
-/

namespace Stimulus.Json

mutual

def literal : Json → String
  | null => "None"
  | bool b => if b then "True" else "False"
  | int n => toString n
  | decimal x => Decimal.text x
  | str s => Text.quoted s
  | arr items => "[" ++ Text.join ", " (literals items) ++ "]"
  | obj fields => "\x7b" ++ Text.join ", " (fieldLiterals fields) ++ "\x7d"

def literals : List Json → List String
  | [] => []
  | v :: rest => literal v :: literals rest

def fieldLiterals : List (String × Json) → List String
  | [] => []
  | (key, v) :: rest => (Text.quoted key ++ ": " ++ literal v) :: fieldLiterals rest

end

def shown : Json → String
  | str s => s
  | v => v.literal

end Stimulus.Json
