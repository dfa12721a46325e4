import Playback.Desk
import Playback.Lock
import Playback.Window.Fixed
/-!
# Rehearsals

A desk that plays from a script: it answers with given pixels and texts, keeps a log of what it was
asked, and lets something go wrong at chosen points.
-/

namespace Playback

inductive Mishap where
  | fail (f : Fault)
  | abort
  /-- An abort is requested, and the call would never end. -/
  | stall
  | steal
  deriving DecidableEq, Repr, Inhabited

structure Hook where
  kind : String
  /-- At which call of the kind it happens, counted from 1; at every one if 0. -/
  nth : Nat
  mishap : Mishap
  deriving DecidableEq, Repr, Inhabited

structure ScriptedWindow where
  rect : ClientRect
  shows : Bool
  /-- How many looks at the closed window still find it open after each request to close. -/
  linger : Nat
  ignoresClose : Bool
  ignoresTerminate : Bool
  failsToAppear : Bool
  lingering : Nat
  deriving DecidableEq, Repr, Inhabited

namespace ScriptedWindow

def isOpen (w : ScriptedWindow) : Bool × ScriptedWindow :=
  if w.shows then (true, w)
  else if w.lingering = 0 then (false, w)
  else (true, { w with lingering := w.lingering - 1 })

def close (w : ScriptedWindow) : ScriptedWindow :=
  { w with shows := w.shows && w.ignoresClose, lingering := w.linger }

def terminate (w : ScriptedWindow) : ScriptedWindow :=
  { w with shows := w.shows && w.ignoresTerminate }

def launch (w : ScriptedWindow) : ScriptedWindow :=
  { w with shows := w.shows || !w.failsToAppear }

end ScriptedWindow

inductive RehearsedWindow where
  | scripted (w : ScriptedWindow)
  | fixed (w : FixedWindow)
  deriving DecidableEq, Repr, Inhabited

structure Rehearsal where
  /-- Colors for the next samples. -/
  pixelScript : List Color
  /-- Colors of the points `x,y` after that; black elsewhere. -/
  pixels : Dict Color
  /-- Texts for the next recognitions. -/
  textScript : List String
  /-- Texts in the pictures captured at `left,top` after that. -/
  texts : Dict String
  captured : String
  recognizes : Bool
  hooks : List Hook
  counts : Dict Nat
  windows : Dict RehearsedWindow
  launchers : Launchers
  files : FileTree
  logsResults : Bool
  logsSignals : Bool
  undeliverable : Option Fault
  log : List Call

namespace Rehearsal

def blank : Rehearsal :=
  ⟨[], .empty, [], .empty, "", true, [], .empty, .empty, ⟨.empty, []⟩, .empty, true, true, none, []⟩

instance : Inhabited Rehearsal := ⟨blank⟩

def coordinates (x y : Int32) : String := toString x.toInt ++ "," ++ toString y.toInt

def mishaps : List Mishap → Option Fault × AbortRequest × List RivalMove
  | [] => (none, .none, [])
  | .fail f :: _ => (some f, .none, [])
  | .abort :: rest =>
    let (f, a, ms) := mishaps rest
    (f, if a = .cutting then .cutting else .noticed, ms)
  | .stall :: _ => (none, .cutting, [])
  | .steal :: rest =>
    let (f, a, ms) := mishaps rest
    (f, a, .take "thief" :: ms)

/-- Logs a call of the given kind and has its hooks happen; if none of them makes it fail or stall,
the script is played by `act`. -/
def logged {α : Type} (r : Rehearsal) (kind : String) (c : Call)
    (act : Rehearsal → Except Fault α × Rehearsal) : Response α × Rehearsal :=
  let count := (r.counts.get? kind).getD 0 + 1
  let r := { r with counts := r.counts.insert kind count, log := c :: r.log }
  let due := r.hooks.filter fun h => h.kind == kind && (h.nth == 0 || h.nth == count)
  let (failure, abort, rivals) := mishaps (due.map Hook.mishap)
  match failure, abort with
  | some f, abort => (⟨.error f, 1000, abort, rivals⟩, r)
  | none, .cutting =>
    if c.interruptible then (⟨.error c.abortFault, 1000, .cutting, rivals⟩, r)
    else
      let (outcome, r) := act r
      (⟨outcome, 1000, .cutting, rivals⟩, r)
  | none, abort =>
    let (outcome, r) := act r
    (⟨outcome, 1000, abort, rivals⟩, r)

def unlogged {α : Type} (outcome : Except Fault α) (elapsed : Nat) (r : Rehearsal) :
    Response α × Rehearsal :=
  (⟨outcome, elapsed, .none, []⟩, r)

def samplePixel (point : Point) (r : Rehearsal) : Except Fault Color × Rehearsal :=
  match r.pixelScript with
  | color :: rest => (.ok color, { r with pixelScript := rest })
  | [] => (.ok ((r.pixels.get? (coordinates point.x point.y)).getD .black), r)

def capture (region : Region) (r : Rehearsal) : Except Fault Image × Rehearsal :=
  (.ok (.blank region.width.toNat region.height.toNat),
    { r with captured := coordinates region.left region.top })

def readText (r : Rehearsal) : Except Fault String × Rehearsal :=
  match r.textScript with
  | text :: rest => (.ok text, { r with textScript := rest })
  | [] => (.ok ((r.texts.get? r.captured).getD ""), r)

def setWindow (r : Rehearsal) (app : String) (w : RehearsedWindow) : Rehearsal :=
  { r with windows := r.windows.insert app w }

/-- A call to a window: a scripted one is logged and changed by `scripted`, a fixed one answers by
`fixed`. -/
def onWindow (r : Rehearsal) (app kind : String) (c : Call)
    (scripted : ScriptedWindow → ScriptedWindow)
    (fixed : FixedWindow → Except Fault Unit × FixedWindow) : Response Unit × Rehearsal :=
  match r.windows.get? app with
  | some (.fixed w) =>
    let (outcome, w) := fixed w
    unlogged outcome 1000 (r.setWindow app (.fixed w))
  | some (.scripted w) =>
    r.logged kind c fun r => (.ok (), r.setWindow app (.scripted (scripted w)))
  | none => r.logged kind c fun r => (.ok (), r)

def lookSpan : Nat := 100000

def idleSpan : Nat := 10000

def lookAtWindow (r : Rehearsal) (app : String) : Bool × Rehearsal :=
  match r.windows.get? app with
  | some (.scripted w) =>
    let (b, w) := w.isOpen
    (b, r.setWindow app (.scripted w))
  | some (.fixed w) =>
    let (b, w) := w.isOpen
    (b, r.setWindow app (.fixed w))
  | none => (false, r)

def clientRect (r : Rehearsal) (app : String) : Except Fault ClientRect :=
  match r.windows.get? app with
  | some (.scripted w) => if w.rect.width = 0 then .error (.windowNotFound app) else .ok w.rect
  | some (.fixed w) => w.clientRect
  | none => .error (.windowNotFound app)

def keepPicture (r : Rehearsal) (folder file : String) : Rehearsal :=
  match r.files.makeFolders folder with
  | .ok files =>
    { r with files := (files.writeFile (Path.join folder file) .binary).toOption.getD files }
  | .error _ => r

def respond : (c : Call) → Rehearsal → Response c.Reply × Rehearsal
  | .move p t, r => r.logged "move" (.move p t) fun r => (.ok (), r)
  | .click, r => r.logged "click" .click fun r => (.ok (), r)
  | .press, r => r.logged "down" .press fun r => (.ok (), r)
  | .release, r => r.logged "up" .release fun r => (.ok (), r)
  | .write s, r => r.logged "write" (.write s) fun r => (.ok (), r)
  | .backspace n i, r => r.logged "backspace" (.backspace n i) fun r => (.ok (), r)
  | .pixel p, r => r.logged "pixel" (.pixel p) (samplePixel p)
  | .screenshot region, r => r.logged "screenshot" (.screenshot region) (capture region)
  | .recognize i m, r =>
    if r.recognizes then r.logged "ocr" (.recognize i m) readText
    else
      unlogged (.error (.platform "no OCR backend compiled in (enable the \x60ocr\x60 feature)"))
        1000 r
  | .keep folder file _, r => unlogged (.ok ()) 1000 (r.keepPicture folder file)
  | .isOpen app, r =>
    let (b, r) := r.lookAtWindow app
    unlogged (.ok b) lookSpan r
  | .clientRect app, r => unlogged (r.clientRect app) 1000 r
  | .focus app, r => r.onWindow app "focus" (.focus app) id fun w => (.ok (), w)
  | .minimize app, r => r.onWindow app "minimize" (.minimize app) id fun w => (.ok (), w)
  | .close app, r => r.onWindow app "close" (.close app) ScriptedWindow.close FixedWindow.close
  | .terminate app, r =>
    r.onWindow app "terminate" (.terminate app) ScriptedWindow.terminate FixedWindow.terminate
  | .launch app launcher, r =>
    r.onWindow app "open" (.launch app launcher) ScriptedWindow.launch fun w =>
      w.launch r.launchers launcher
  | .deliver results, r =>
    match r.undeliverable with
    | some f => unlogged (.error f) 1000 r
    | none =>
      if r.logsResults then r.logged "export" (.deliver results) fun r => (.ok (), r)
      else unlogged (.ok ()) 1000 r
  | .signal app, r =>
    if r.logsSignals then r.logged "signal" (.signal app) fun r => (.ok (), r)
    else unlogged (.ok ()) 1000 r
  | .wait span, r => unlogged (.ok ()) (if span = 0 then idleSpan else nanoseconds span) r

instance : Desk Rehearsal := ⟨respond⟩

end Rehearsal

end Playback
