import Stimulus.Text.Quoted

/-!
# Failures

The causes for which an operation gives up, and the words in which each one is reported.
-/

namespace Stimulus

/-- Why an operation gave up. -/
inductive Failure where
  | badInteger (base : Nat) (text : String)
  /-- The text has more digits than are read. -/
  | longInteger (digits : Nat)
  | badDecimal (text : String)
  | infiniteInteger
  /-- A decimal that is not a number has no integer part. -/
  | undefinedInteger
  /-- A quotient of integers is beyond the range of decimals. -/
  | hugeQuotient
  /-- An integer is beyond the range of decimals. -/
  | hugeInteger
  | listTooShort
  | recordTooShort
  | noAttribute (type name : String)
  /-- A module cannot be loaded. -/
  | noModule (name : String)
  | noMember (module name : String)
  /-- A table has no such key. -/
  | missingKey (key : String)
  /-- A file or directory does not exist. -/
  | noSuchFile (path : String)
  /-- The caller's own words for a file that does not exist. -/
  | missing (text : String)
  /-- A directory stands where a file is needed. -/
  | isDirectory (path : String)
  /-- A file stands where a directory is needed. -/
  | notDirectory (path : String)
  /-- A file stands where something new is to be made. -/
  | alreadyExists (path : String)
  | divisionByZero
  | endOfInput
  | notInteger (type : String)
  /-- Values of these types are not compared. -/
  | notOrdered (comparison left right : String)
  /-- The model, or the machine, reports a failure in its own words. -/
  | reported (text : String)
  | commandFailed (text : String)
  /-- A command ended with an exit code other than zero. -/
  | exitCode (command : String) (code : Int)
  | badValue (text : String)
  | badOperand (text : String)
deriving DecidableEq, Repr

namespace Failure

def message : Failure → String
  | badInteger base text =>
    s!"invalid literal for int() with base {base}: "
      ++ String.ofList ((Text.quoted text).toList.take 200)
  | longInteger digits =>
    s!"Exceeds the limit (4300 digits) for integer string conversion: value has {digits} "
      ++ "digits; use sys.set_int_max_str_digits() to increase the limit"
  | badDecimal text => "could not convert string to float: " ++ Text.quoted text
  | infiniteInteger => "cannot convert float infinity to integer"
  | undefinedInteger => "cannot convert float NaN to integer"
  | hugeQuotient => "integer division result too large for a float"
  | hugeInteger => "int too large to convert to float"
  | listTooShort => "list index out of range"
  | recordTooShort => "tuple index out of range"
  | noAttribute type name => s!"'{type}' object has no attribute '{name}'"
  | noModule name => s!"No module named '{name}'"
  | noMember module name => s!"module '{module}' has no attribute '{name}'"
  | missingKey key => Text.quoted key
  | noSuchFile path => "[Errno 2] No such file or directory: " ++ Text.quoted path
  | missing text => text
  | isDirectory path => "[Errno 21] Is a directory: " ++ Text.quoted path
  | notDirectory path => "[Errno 20] Not a directory: " ++ Text.quoted path
  | alreadyExists path => "[Errno 17] File exists: " ++ Text.quoted path
  | divisionByZero => "division by zero"
  | endOfInput => "EOF when reading a line"
  | notInteger type =>
    s!"int() argument must be a string, a bytes-like object or a real number, not '{type}'"
  | notOrdered comparison left right =>
    s!"'{comparison}' not supported between instances of '{left}' and '{right}'"
  | reported text => text
  | commandFailed text => text
  | exitCode command code => s!"Command '{command}' returned non-zero exit status {code}."
  | badValue text => text
  | badOperand text => text

def isBadValue : Failure → Bool
  | badInteger .. | longInteger .. | badDecimal .. | undefinedInteger | badValue .. => true
  | _ => false

def isBadType : Failure → Bool
  | notInteger .. | notOrdered .. | badOperand .. => true
  | _ => false

def isNoAttribute : Failure → Bool
  | noAttribute .. | noMember .. => true
  | _ => false

end Failure

abbrev Outcome := Except Failure

end Stimulus
