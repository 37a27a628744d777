import Stimulus.Cli.Basic
import Stimulus.Pattern.Match
import Stimulus.Text.Integer

/-!
# Reading command lines

First every argument is taken for an option, a value or the mark `--` after which all are values.
Then options and operands are filled from left to right: an option takes the values behind it that
it needs, and a row of values fills as many operands as it can.
-/

namespace Stimulus.Cli

/-- Why there are no arguments to work with. -/
inductive Stop where
  | help
  | version (text : String)
  /-- The command line is wrong. -/
  | wrong (text : String)
deriving DecidableEq, Repr

/-- What an argument is taken for. -/
inductive Item where
  | value (text : String)
  /-- The mark after which all arguments are values. -/
  | divider
  /-- An option, with the text attached to it and whether an equals sign stands between them. -/
  | option (opt : Opt) (name : String) (attached : Option (Bool × String))
  /-- Written like an option, but there is none. -/
  | unknown (text : String)
deriving DecidableEq, Repr

def Item.text : Item → String
  | value text | unknown text => text
  | divider => "--"
  | option _ name _ => name

def Item.isOption : Item → Bool
  | option .. | unknown _ => true
  | _ => false

/-! ## What arguments are taken for -/

def Command.find? (c : Command) (name : String) : Option Opt :=
  c.allOptions.find? fun o => o.names.contains name

def Command.spellings (c : Command) : List (String × Opt) :=
  c.allOptions.flatMap fun o => o.names.map fun n => (n, o)

open Pattern in
def negativeNumber : Pattern :=
  lit "-" ++ .alt (digits ++ last) (run Text.isDecimal 0 true ++ lit "." ++ digits ++ last)

/-- The options that an argument may abbreviate. A long name may lack its end; a letter may have its
value right behind it. -/
def Command.abbreviated (c : Command) (arg : String) : List Item :=
  if Text.startsWith "--" arg then
    let (start, rest) := Text.partition "=" arg
    (c.spellings.filter fun (n, _) => Text.startsWith start n).map fun (n, o) =>
      .option o n (rest.map (true, ·))
  else
    (c.spellings.filter fun (n, _) => n == Text.take 2 arg).map fun (n, o) =>
      .option o n (some (false, Text.drop 2 arg))

def Command.itemOfDashed (c : Command) (arg : String) : Except Stop Item :=
  let (start, rest) := Text.partition "=" arg
  match c.find? arg, rest.bind fun _ => c.find? start with
  | some o, _ => .ok (.option o arg none)
  | none, some o => .ok (.option o start (rest.map (true, ·)))
  | none, none =>
    match c.abbreviated arg with
    | [item] => .ok item
    | [] =>
      if (negativeNumber.atStart? arg).isSome || Text.contains " " arg then .ok (.value arg)
      else .ok (.unknown arg)
    | items =>
      let names := Text.join ", " (items.map Item.text)
      .error (.wrong s!"ambiguous option: {arg} could match {names}")

def Command.itemOf (c : Command) (arg : String) : Except Stop Item :=
  if arg = "-" || !Text.startsWith "-" arg then .ok (.value arg) else c.itemOfDashed arg

def Command.items (c : Command) : List String → Except Stop (List Item)
  | [] => .ok []
  | "--" :: rest => .ok (.divider :: rest.map .value)
  | arg :: rest => do return (← c.itemOf arg) :: (← c.items rest)

/-! ## Values -/

def Kind.read (name : String) (k : Kind) (s : String) : Except Stop Value :=
  let wrong := fun text => Except.error (Stop.wrong s!"argument {name}: {text}")
  match k with
  | text => .ok (.text s)
  | integer =>
    match Text.integer s with
    | .ok n => .ok (.integer n)
    | .error _ => wrong s!"invalid int value: {Text.quoted s}"
  | oneOf choices =>
    if choices.contains s then .ok (.text s)
    else
      let all := Text.join ", " (choices.map Text.quoted)
      wrong s!"invalid choice: {Text.quoted s} (choose from {all})"

def Opt.title (o : Opt) : String := Text.join "/" o.names

/-- A use of an option, with the texts given to it. -/
structure Use where
  opt : Opt
  name : String
  texts : List String := []
deriving DecidableEq, Repr

def Effect.hasValue : Effect → Bool
  | value _ | values _ => true
  | _ => false

/-- What has been read so far. -/
structure Progress where
  arguments : Arguments := []
  operands : List Operand
  extras : List String := []

def Use.take (u : Use) (p : Progress) : Except Stop Progress :=
  let set := fun v => { p with arguments := p.arguments.set u.opt.key v }
  match u.opt.effect with
  | .help => .error .help
  | .version text => .error (.version text)
  | .flag on => .ok (set (.flag on))
  | .toggle => .ok (set (.flag !(Text.startsWith "--no-" u.name)))
  | .value k => do return set (← k.read u.opt.title (Text.join "" u.texts))
  | .values k => do
    u.texts.forM fun t => discard (k.read u.opt.title t)
    return set (.texts u.texts)

def leadingValues : List Item → List String
  | .value text :: rest => text :: leadingValues rest
  | _ => []

def Opt.takes (o : Opt) (rest : List Item) : Except Stop (List String) :=
  let found := leadingValues rest
  match o.effect with
  | .value _ =>
    if found.isEmpty then .error (.wrong s!"argument {o.title}: expected one argument")
    else .ok (found.take 1)
  | .values _ =>
    if found.isEmpty then .error (.wrong s!"argument {o.title}: expected at least one argument")
    else .ok found
  | _ => .ok []

/-- The uses in one argument: an option, its spelling and the text attached. The text is the value
of the option; of one without values it is a row of further letters. Letters that are no options are
left over. -/
def Command.uses (c : Command) (o : Opt) (name : String) (equals : Bool) (attached : List Char) :
    Except Stop (List Use × Option String) :=
  if o.effect.hasValue then .ok ([{ opt := o, name, texts := [String.ofList attached] }], none)
  else
    let ignored : Except Stop (List Use × Option String) := .error (.wrong
      s!"argument {o.title}: ignored explicit argument {Text.quoted (String.ofList attached)}")
    match attached with
    | [] => ignored
    | letter :: rest =>
      if Text.startsWith "--" name || equals || letter = '-' then ignored
      else
        let next := String.ofList ['-', letter]
        let use : Use := { opt := o, name }
        match c.find? next, rest with
        | none, _ => .ok ([use], some (String.ofList ('-' :: attached)))
        | some o, [] => .ok ([use, { opt := o, name := next }], none)
        | some o, '=' :: rest => do
          let (uses, left) ← c.uses o next true rest
          return (use :: uses, left)
        | some o, rest@(_ :: _) => do
          let (uses, left) ← c.uses o next false rest
          return (use :: uses, left)

/-- The last use takes what it needs from the items behind it: the uses, and how many were taken. -/
def supply (rest : List Item) : List Use → Except Stop (List Use × Nat)
  | [] => .ok ([], 0)
  | [u] => do
    if u.opt.effect.hasValue && u.texts.isEmpty then
      let texts ← u.opt.takes rest
      return ([{ u with texts }], texts.length)
    return ([u], 0)
  | u :: more => do
    let (uses, n) ← supply rest more
    return (u :: uses, n)

def Command.takeOption (c : Command) (o : Opt) (name : String) (attached : Option (Bool × String))
    (rest : List Item) (p : Progress) : Except Stop (Progress × Nat) := do
  let (uses, left) ← match attached with
    | none => .ok ([{ opt := o, name }], none)
    | some (equals, text) => c.uses o name equals text.toList
  let (uses, n) ← supply rest uses
  let p ← uses.foldlM (fun p u => u.take p) { p with extras := p.extras ++ left.toList }
  return (p, n)

/-! ## Operands -/

def Operand.count? (o : Operand) (items : List Item) : Option Nat :=
  let marks := fun (xs : List Item) => (xs.takeWhile (· == .divider)).length
  let before := marks items
  match items.drop before with
  | .value _ :: rest => some (before + 1 + marks rest)
  | _ => if o.required then none else some before

def fill : List Operand → List Item → Progress → Except Stop (Progress × Nat)
  | [], _, p => .ok ({ p with operands := [] }, 0)
  | o :: more, items, p =>
    match o.count? items with
    | none => .ok ({ p with operands := o :: more }, 0)
    | some n => do
      let arguments ← match ((items.take n).map Item.text).erase "--" with
        | [text] => do pure (p.arguments.set o.key (← o.kind.read o.key text))
        | _ => pure p.arguments
      let (p, k) ← fill more (items.drop n) { p with arguments }
      return (p, n + k)

/-! ## The whole line -/

def Command.consume (c : Command) (items : List Item) (p : Progress) : Except Stop Progress :=
  match items with
  | [] => .ok p
  | .unknown text :: rest => c.consume rest { p with extras := p.extras ++ [text] }
  | .option o name attached :: rest => do
    let (p, n) ← c.takeOption o name attached rest p
    c.consume (rest.drop n) p
  | item :: rest => do
    let (p, n) ← fill p.operands (item :: rest) p
    match n with
    | n + 1 => c.consume (rest.drop n) p
    | 0 => c.consume rest { p with extras := p.extras ++ [item.text] }
termination_by items.length

def Command.read (c : Command) (args : List String) : Except Stop Arguments := do
  let items ← c.items args
  let p ← c.consume items { operands := c.operands }
  let missing := p.operands.filter (·.required)
  if !missing.isEmpty then
    let names := Text.join ", " (missing.map (·.key))
    throw (.wrong s!"the following arguments are required: {names}")
  if !p.extras.isEmpty then
    throw (.wrong ("unrecognized arguments: " ++ Text.join " " p.extras))
  return p.arguments

def Command.refuse (c : Command) (text : String) : Run Exit := do
  (c.usage ++ [s!"{c.name}: error: {text}"]).forM Run.complain
  return .code 2

def Command.run (c : Command) (args : List String) (program : Arguments → Run Exit) : Run Exit :=
  match c.read args with
  | .ok arguments => program arguments
  | .error .help => do
    Run.sayLines c.help
    return .ok
  | .error (.version text) => do
    Run.sayLine text
    return .ok
  | .error (.wrong text) => c.refuse text

end Stimulus.Cli
