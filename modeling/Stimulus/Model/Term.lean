import Stimulus.Json.Access

/-!
# What a model says

The classes of a model, with their fields and constraints as terms and statements.
-/

namespace Stimulus.Model

/-- An expression of a model. -/
inductive Term where
  | field (name : String)
  | number (n : Int)
  | apply (op : String) (operands : List Term)

/-- A statement of a constraint. -/
inductive Statement where
  | holds (t : Term)
  | ifThen (condition : Term) (body : List Statement)
  | elseIf (condition : Term) (body : List Statement)
  | elseThen (body : List Statement)

/-- A random field: its name, its type and its width in bits. -/
structure FieldView where
  name : String
  type : String
  width : Nat
deriving DecidableEq, Repr

/-- A class of a model. -/
structure ClassView where
  name : String
  base : Option String
  fields : List FieldView
  constraints : List (String × List Statement)

/-! ## Terms as values -/

mutual

def Term.toJson : Term → Json
  | .field name => .str name
  | .number n => .int n
  | .apply op operands => .arr (.str op :: Term.listToJson operands)

def Term.listToJson : List Term → List Json
  | [] => []
  | t :: rest => t.toJson :: Term.listToJson rest

end

mutual

def Statement.toJson : Statement → Json
  | .holds t => t.toJson
  | .ifThen c body => .arr [.str "if", c.toJson, .arr (Statement.listToJson body)]
  | .elseIf c body => .arr [.str "else_if", c.toJson, .arr (Statement.listToJson body)]
  | .elseThen body => .arr [.str "else", .arr (Statement.listToJson body)]

def Statement.listToJson : List Statement → List Json
  | [] => []
  | s :: rest => s.toJson :: Statement.listToJson rest

end

/-! ## Classes with what they inherit -/

def ClassView.base? (c : ClassView) (classes : List ClassView) : Option ClassView :=
  c.base.bind fun name => classes.find? fun b => b.name = name

def ClassView.toJson (classes : List ClassView) (c : ClassView) : Json :=
  let fields := ((c.base? classes).map (·.fields)).getD [] ++ c.fields
  let constraints := ((c.base? classes).map (·.constraints)).getD [] ++ c.constraints
  .obj [("bases", .strs [c.base.getD "object"]),
    ("fields", .arr (fields.map fun f => .arr [.str f.name, .str f.type, .nat f.width])),
    ("constraints", .arr (constraints.map fun (name, body) =>
      .arr [.str name, .arr (Statement.listToJson body)]))]

end Stimulus.Model
