import Playback.Dict
import Playback.Fault
import Playback.Geometry
import Playback.Json.Value
import Playback.Screen.Image
import Playback.Screen.Recognition
/-!
# The desk

Everything outside that an engine works with: pointer and keyboard, the screen, the recognizer of
text, the applications' windows, the receiver of results and the clock. An engine makes calls, and a
desk is anything that answers every call.
-/

namespace Playback

/-- What an engine asks of the world. Spans of time are in milliseconds. -/
inductive Call where
  | move (target : Point) (travel : Nat)
  | click
  | press
  | release
  | write (text : String)
  | backspace (presses interval : Nat)
  | pixel (point : Point)
  | screenshot (region : Region)
  | recognize (picture : Image) (mode : RecognitionMode)
  | keep (folder file : String) (picture : Image)
  | isOpen (app : String)
  | clientRect (app : String)
  | focus (app : String)
  | minimize (app : String)
  | close (app : String)
  | terminate (app : String)
  | launch (app launcher : String)
  | deliver (results : Dict Json)
  /-- Tells that the application's engine has no work left. -/
  | signal (app : String)
  | wait (span : Nat)

namespace Call

@[reducible] def Reply : Call → Type
  | pixel _ => Color
  | screenshot _ => Image
  | recognize .. => String
  | isOpen _ => Bool
  | clientRect _ => ClientRect
  | _ => Unit

/-- Whether an abort need not wait for the call to end. -/
def interruptible : Call → Bool
  | move .. => true
  | click => true
  | press => true
  | release => true
  | write _ => true
  | backspace .. => true
  | recognize .. => true
  | wait span => span != 0
  | _ => false

def abortFault : Call → Fault
  | wait _ => .cancelled "abort requested during wait"
  | _ => .cancelled "abort requested"

end Call

inductive AbortRequest where
  | none
  /-- Requested, but the call came to its end. -/
  | noticed
  /-- Requested before the call came to its end. -/
  | cutting
  deriving DecidableEq, Repr, Inhabited

/-- What another party does to the input lock. Its leases are counted in the order it took them. -/
inductive RivalMove where
  | take (app : String)
  | renew (index : Nat)
  | release (index : Nat)
  deriving DecidableEq, Repr, Inhabited

structure Response (α : Type) where
  outcome : Except Fault α
  /-- Nanoseconds until the answer. -/
  elapsed : Nat
  abort : AbortRequest
  rivals : List RivalMove

class Desk (σ : Type) where
  respond : (c : Call) → σ → Response c.Reply × σ

/-- What comes of a call. Waiting, signals and kept pictures do not fail, and a window whose state
cannot be told counts as closed. -/
def Call.settle : (c : Call) → Response c.Reply → Except Fault c.Reply
  | .wait span, r =>
    if span ≠ 0 ∧ r.abort = .cutting then .error (Call.abortFault (.wait span)) else .ok ()
  | .signal _, _ => .ok ()
  | .keep .., _ => .ok ()
  | .isOpen _, r =>
    match r.outcome with
    | .ok b => .ok b
    | .error _ => .ok false
  | c, r => if c.interruptible ∧ r.abort = .cutting then .error c.abortFault else r.outcome

end Playback
