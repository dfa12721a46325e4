import Playback.Command.Codec
import Playback.Files.Tree
/-!
# Mapping files

The recordings of an application lie in command files below a mapping root, one folder per kind.
Loading a file decodes every entry of it; appending keeps every entry as it was.
-/

namespace Playback

inductive MappingKind where
  | base
  | navigation
  | action
  | goingBack
  deriving DecidableEq, Repr, Inhabited

namespace MappingKind

def folder : MappingKind → String
  | base => "Base"
  | navigation => "Nav"
  | action => "Act"
  | goingBack => "Ret"

end MappingKind

def FileTree.commandEntries (t : FileTree) (path : String) : Except Fault (Option (List Json)) :=
  match t.readText path with
  | .error .notFound => .ok none
  | .error _ => .error .io
  | .ok content =>
    if Text.blank content then .ok none
    else
      match (Json.parse? content).bind Json.items? with
      | some items => .ok (some items)
      | none => .error .json

def decodeEntries (path : String) : Nat → List Json → Except Fault (List Command)
  | _, [] => .ok []
  | i, v :: rest =>
    match RawCommand.ofJson? v with
    | none => .error (.invalidCommand (path ++ " entry " ++ toString i))
    | some raw => do
      let c ← raw.decode
      let cs ← decodeEntries path (i + 1) rest
      .ok (c :: cs)

/-- The commands of a command file; a missing or blank file holds none. -/
def FileTree.loadCommands (t : FileTree) (path : String) : Except Fault (List Command) := do
  match ← t.commandEntries path with
  | none => .ok []
  | some items => decodeEntries path 0 items

/-- Adds a command at the end of a command file, which is written anew. -/
def FileTree.appendCommand (t : FileTree) (c : Command) (path : String) :
    Except Fault FileTree := do
  let items := (← t.commandEntries path).getD []
  match t.putFile path (.text ((Json.arr (items ++ [c.toJson])).pretty 0)) with
  | .ok t => .ok t
  | .error _ => .error .io

structure MappingRoot where
  root : String
  deriving DecidableEq, Repr, Inhabited

namespace MappingRoot

def appFolder (m : MappingRoot) (app : String) : String :=
  Path.join m.root (Text.toLower (Text.trim app))

/-- The command file of a recording; the base recording has one fixed name. -/
def path (m : MappingRoot) (app : String) (kind : MappingKind) (name : String) : String :=
  let file := match kind with
    | .base => "Base"
    | _ => Text.trim name
  Path.join (Path.join (m.appFolder app) kind.folder) (file ++ ".txt")

def load (m : MappingRoot) (t : FileTree) (app : String) (kind : MappingKind) (name : String) :
    Except Fault (List Command) :=
  t.loadCommands (m.path app kind name)

end MappingRoot

end Playback
