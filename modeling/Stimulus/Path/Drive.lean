import Stimulus.Path

/-!
# Paths with drives

On some machines a path may begin with a drive, and its names stand between backslashes.
-/

namespace Stimulus.Path

/-- Whose rules paths follow. -/
inductive System where
  | posix
  | windows
deriving DecidableEq, Repr

/-! ## Rules of drives, for paths with backslashes only -/

def backslashed (path : String) : String := Text.replace "/" "\\" path

/-- The length of a drive that names a machine and a share of it; `start` is where the machine's
name begins. A path that lacks one of the two is nothing but a drive. -/
def shareLength (path : String) (start : Nat) : Nat :=
  match (Text.findAfter? "\\" path start).bind fun i => Text.findAfter? "\\" path (i + 1) with
  | some i => i
  | none => path.length

def driveLength (path : String) : Nat :=
  match path.toList with
  | '\\' :: '\\' :: _ =>
    shareLength path (if Text.lower (Text.take 8 path) = "\\\\?\\unc\\" then 8 else 2)
  | _ :: ':' :: _ => 2
  | _ => 0

def isRooted (path : String) : Bool :=
  match path.toList with
  | '\\' :: _ => true
  | _ :: ':' :: '\\' :: _ => true
  | _ => false

def shortest (path : String) : String :=
  let drive := Text.take (driveLength path) path
  let rest := Text.drop (driveLength path) path
  let root := if Text.startsWith "\\" rest then drive ++ "\\" else drive
  let names := (Text.splitOn "\\" rest).filter fun n => !n.isEmpty && n != "."
  let names := withoutUps (Text.endsWith "\\" root) [] names
  if root.isEmpty && names.isEmpty then "." else root ++ Text.join "\\" names

/-! ## Either system -/

namespace System

def start : System → String
  | posix => home
  | windows => "C:\\cwd"

def absolute : System → String → String
  | posix, path => Path.absolute path
  | windows, path =>
    let path := backslashed path
    let rooted := isRooted path || 0 < driveLength path
    shortest (if rooted then path else backslashed home ++ "\\" ++ path)

def splitDrive : System → String → String × String
  | posix, path => ("", path)
  | windows, path =>
    let n := driveLength (backslashed path)
    (Text.take n path, Text.drop n path)

end System

/-- Where a subsystem with slashes finds a path that begins with a drive letter; another path only
gets slashes. -/
def mounted (path : String) : String :=
  match (Text.replace "\\" "/" path).toList with
  | letter :: ':' :: rest => "/mnt/" ++ Text.lower (String.ofList [letter]) ++ String.ofList rest
  | rest => String.ofList rest

end Stimulus.Path
