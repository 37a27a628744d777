import Stimulus.Json.Access
import Stimulus.Run.Basic

/-!
# Scripts for desks

A script is an object with files and directories, and with what the commands do.
-/

namespace Stimulus

def Store.ofJson (j : Json) : Store :=
  Store.ofFiles (j.field "files").asTexts (j.field "dirs").asStrs

def Reply.ofJson (j : Json) : Reply :=
  { lines := (j.field "lines").asStrs, code := j.getInt "rc", writes := (j.field "writes").asTexts
    fault := (j.field "fail").asStr? }

def CommandLine.toJson : CommandLine → Json
  | shell line => .str line
  | words ws => .strs ws

def Command.toJson (c : Command) : Json :=
  .obj [("cmd", c.line.toJson), ("cwd", .opt .str c.dir),
    ("unbuffered", if c.unbuffered then .str "1" else .null)]

def Desk.ofJson (j : Json) : Desk :=
  { store := .ofJson j, replies := (j.field "commands").asList.map Reply.ofJson }

end Stimulus
