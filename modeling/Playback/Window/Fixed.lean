import Playback.Files.Tree
import Playback.Geometry
/-!
# Windows at a fixed place

Where windows cannot be located, the client area is given beforehand, and an application is its
launcher's process: it is open while the process that was started last is running.
-/

namespace Playback

inductive ProcessState where
  | running
  /-- It ended by itself, and nobody has asked for its end yet. -/
  | ended
  /-- Its end was asked for. -/
  | reaped
  deriving DecidableEq, Repr, Inhabited

structure FixedWindow where
  title : String
  rect : ClientRect
  processes : List ProcessState
  /-- The process that the window watches, by its place among all. -/
  child : Option Nat
  deriving DecidableEq, Repr, Inhabited

namespace FixedWindow

def fresh (title : String) (rect : ClientRect) : FixedWindow := ⟨title, rect, [], none⟩

def clientRect (w : FixedWindow) : Except Fault ClientRect :=
  if w.rect.width = 0 ∨ w.rect.height = 0 then
    .error (.windowNotFound (w.title ++ " has no configured client area"))
  else .ok w.rect

def childState (w : FixedWindow) : Option ProcessState := w.child.bind fun i => w.processes[i]?

def setChild (w : FixedWindow) (p : ProcessState) : FixedWindow :=
  match w.child with
  | some i => { w with processes := w.processes.set i p }
  | none => w

/-- Whether the process is running. One that ended is let go of; the state of one whose end somebody
else asked for cannot be told. -/
def isOpen (w : FixedWindow) : Bool × FixedWindow :=
  match w.childState with
  | some .running => (true, w)
  | some .ended => (false, { w.setChild .reaped with child := none })
  | some .reaped => (false, w)
  | none => (false, w)

def close (w : FixedWindow) : Except Fault Unit × FixedWindow :=
  match w.childState with
  | some .reaped => (.error .io, { w with child := none })
  | some _ => (.ok (), { w.setChild .reaped with child := none })
  | none => (.ok (), { w with child := none })

def terminate (w : FixedWindow) : Except Fault Unit × FixedWindow := w.close

def started (w : FixedWindow) : FixedWindow :=
  { w with processes := w.processes ++ [.running], child := some w.processes.length }

def childEnds (w : FixedWindow) : FixedWindow :=
  match w.childState with
  | some .running => w.setChild .ended
  | _ => w

def childReaped (w : FixedWindow) : FixedWindow := w.setChild .reaped

end FixedWindow

structure Launchers where
  files : FileTree
  executables : List String
  deriving DecidableEq, Repr, Inhabited

namespace Launchers

/-- Whether a process can be started from the file: it is named by a path and not a bare name, may
be executed, and says in its first line what executes it. -/
def canStart (l : Launchers) (launcher : String) : Bool :=
  launcher.toList.contains '/'
    && (l.executables.any fun p => Path.components p == Path.components launcher)
    && (match l.files.readText launcher with
      | .ok content =>
        match content.toList with
        | '#' :: '!' :: rest => (rest.dropWhile fun c => c == ' ' || c == '\t').head? == some '/'
        | _ => false
      | .error _ => false)

def start (l : Launchers) (launcher : String) : Except Fault Unit :=
  if !l.files.pathExists launcher then
    .error (.windowNotFound ("launcher " ++ launcher ++ " not found"))
  else if l.canStart launcher then .ok ()
  else .error .io

end Launchers

namespace FixedWindow

def launch (w : FixedWindow) (l : Launchers) (launcher : String) :
    Except Fault Unit × FixedWindow :=
  match l.start launcher with
  | .ok () => (.ok (), w.started)
  | .error f => (.error f, w)

end FixedWindow

end Playback
