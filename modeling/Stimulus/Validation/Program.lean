import Stimulus.Cli.Basic

/-!
# The program that tells how models are checked
-/

namespace Stimulus.Validation

def notice : List String :=
  ["Validation utilities loaded.", "Use PyVSCValidator(YourClass) to validate pyvsc models.", "",
    "Example:", "    validator = PyVSCValidator(MyTransaction)",
    "    results = validator.validate_all(iterations=10000)", "    validator.print_report()"]

def program : Run Cli.Exit := do
  Run.sayLines notice
  return .ok

end Stimulus.Validation
