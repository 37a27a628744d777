import Stimulus.Json.Access
import Stimulus.Window.Layout

/-!
# Windows as values
-/

namespace Stimulus.Window

open Json (strs nat opt)

def Dialog.toJson : Dialog → Json
  | openFile title types =>
    .arr [.str "askopenfilename", .arr [], .obj [("title", .str title),
      ("filetypes", .arr (types.map fun (name, names) => strs [name, names]))]]
  | chooseDir title => .arr [.str "askdirectory", .arr [], .obj [("title", .str title)]]
  | info title text => .arr [.str "showinfo", strs [title, text], .obj []]
  | warning title text => .arr [.str "showwarning", strs [title, text], .obj []]
  | error title text => .arr [.str "showerror", strs [title, text], .obj []]

mutual

def Value.toJson (name : Action → String) : Value → Json
  | .text s => .str s
  | .number n => .int n
  | .decimal x => .decimal x
  | .flag b => .bool b
  | .row items => .arr (Value.rowToJson name items)
  | .widget id => .obj [("widget", nat id)]
  | .var v => .str ("$" ++ v.name)
  | .action a => .str ("@" ++ name a)

def Value.rowToJson (name : Action → String) : List Value → List Json
  | [] => []
  | v :: rest => v.toJson name :: Value.rowToJson name rest

end

def optionsToJson (name : Action → String) (options : Options) : Json :=
  .obj (options.map fun (key, v) => (key, v.toJson name))

def Layout.toJson (name : Action → String) (l : Layout) : Json :=
  .obj [("widgets", .arr (l.widgets.map fun w =>
      .arr [.str w.kind.name, opt nat w.parent, optionsToJson name w.options])),
    ("calls", .arr (l.calls.map fun c =>
      .arr [nat c.widget, .str c.method, .arr (c.arguments.map (Value.toJson name)),
        optionsToJson name c.options]))]

/-- What there is to see. Of the log only what was added since it had `seen` messages is shown, or
all of it if it has fewer now. -/
def State.fields (w : State) (seen : Nat) : List (String × Json) :=
  let shown := if w.log.length < seen then w.log else w.log.drop seen
  let button := opt (fun on => .str (if on then "normal" else "disabled")) w.enabled
  [("vars", .obj (Var.all.map fun v => (v.name, w.vars v))),
    ("log", .arr (shown.map fun (text, tone) => strs [text, tone.name])),
    ("log_entries", nat w.log.length), ("results", .str w.results),
    ("buttons", .arr (List.replicate 5 button)), ("dialogs", .arr (w.dialogs.map Dialog.toJson))]

end Stimulus.Window
