import Stimulus.Window.Basic

/-!
# Widgets

A layout is what a toolkit is asked for: widgets with their options, and calls on them.
-/

namespace Stimulus.Window

/-- The class of a widget. -/
inductive Kind where
  | window
  | style
  | menu
  | frame
  | labelFrame
  | label
  | entry
  | button
  | separator
  | spinbox
  | checkbutton
  | scrolledText
  | text
deriving DecidableEq, Repr

def Kind.name : Kind → String
  | window => "Tk"
  | style => "Style"
  | menu => "Menu"
  | frame => "Frame"
  | labelFrame => "LabelFrame"
  | label => "Label"
  | entry => "Entry"
  | button => "Button"
  | separator => "Separator"
  | spinbox => "Spinbox"
  | checkbutton => "Checkbutton"
  | scrolledText => "ScrolledText"
  | text => "Text"

/-- The value of an option or argument. -/
inductive Value where
  | text (s : String)
  | number (n : Int)
  | decimal (x : Float)
  | flag (b : Bool)
  | row (items : List Value)
  | widget (id : Nat)
  | var (v : Var)
  | action (a : Action)

abbrev Options := List (String × Value)

/-- A widget. Its number is its place among the widgets. -/
structure Widget where
  kind : Kind
  parent : Option Nat
  options : Options

/-- A call of a method of a widget. -/
structure Call where
  widget : Nat
  method : String
  arguments : List Value := []
  options : Options := []

/-- What a toolkit is asked for. -/
structure Layout where
  widgets : List Widget := []
  calls : List Call := []

abbrev Build := StateM Layout

namespace Build

def add (kind : Kind) (parent : Option Nat) (options : Options) : Build Nat := do
  let layout : Layout ← get
  let widget : Widget := { kind, parent, options }
  set { layout with widgets := layout.widgets ++ [widget] }
  return layout.widgets.length

def call (widget : Nat) (method : String) (arguments : List Value) (options : Options) :
    Build Unit :=
  let made : Call := { widget, method, arguments, options }
  modify fun (l : Layout) => { l with calls := l.calls ++ [made] }

def configure (widget : Nat) (options : Options) : Build Unit := do
  call widget "config" [] options
  modify fun (l : Layout) => { l with widgets := l.widgets.modify widget fun w =>
    { w with options := w.options ++ options } }

/-! ## Values -/

def spanning (column columns : Int) : Options :=
  [("column", .number column), ("columnspan", .number columns)]

def pair (a b : Int) : Value := .row [.number a, .number b]

def font (family : String) (size : Int) (bold : Bool) : Value :=
  .row ([.text family, .number size] ++ if bold then [.text "bold"] else [])

end Build

/-! ## What buttons and menus do -/

def labelled? (key : String) (options : Options) : Option (String × Action) :=
  match options.lookup key, options.lookup "command" with
  | some (.text label), some (.action a) => some (label, a)
  | _, _ => none

def Layout.buttons (l : Layout) : List (String × Action) :=
  (l.widgets.filter fun w => w.kind = .button).filterMap fun w => labelled? "text" w.options

def Layout.entries (l : Layout) : List (String × Action) :=
  (l.calls.filter fun c => c.method = "add_command").filterMap fun c => labelled? "label" c.options

end Stimulus.Window
