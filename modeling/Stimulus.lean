import Stimulus.Console.Program
import Stimulus.Main
import Stimulus.Random.Script
import Stimulus.Register.View
import Stimulus.Run.Script
import Stimulus.Samples.Growth
import Stimulus.Samples.Models
import Stimulus.Validation.Check
import Stimulus.Validation.Samples
import Stimulus.Validation.View
import Stimulus.Vector.View
import Stimulus.Window.Program
import Stimulus.Window.View
import Stimulus.Proofs.Sv.Constraints
import Stimulus.Proofs.Expr.Meaning
import Stimulus.Proofs.Stmt.Indent
import Stimulus.Proofs.Stmt.Else
import Stimulus.Proofs.Expr.Names
import Stimulus.Proofs.Stmt.Inside
import Stimulus.Proofs.Model.Writing
import Stimulus.Proofs.Model.Program
import Stimulus.Proofs.Vector.Steady
import Stimulus.Proofs.Model.Log
import Stimulus.Proofs.Override.Source
import Stimulus.Proofs.Model.Targets
import Stimulus.Proofs.Pipeline.ClassName
import Stimulus.Proofs.Model.FieldTypes
import Stimulus.Proofs.Model.Bounds
import Stimulus.Proofs.Sv.Enumeration
import Stimulus.Proofs.Model.Hook
import Stimulus.Proofs.Console.Settings
import Stimulus.Proofs.Stmt.Delimiter
import Stimulus.Proofs.Env.Update
import Stimulus.Proofs.Register.Block
