import Playback.Screen.Tolerance
import Playback.Stage
/-!
# Waiting for a color

A pixel is sampled until it shows the expected color or the attempts are used up. A sample that
fails counts as a miss.
-/

namespace Playback

structure ColorWait where
  tolerance : ColorTolerance
  /-- How many samples are taken; at least one. -/
  attempts : Nat
  interval : Nat
  deriving DecidableEq, Repr, Inhabited

namespace ColorWait

variable {σ : Type} [Desk σ]

def sample (w : ColorWait) (point : Point) (expected : Color) : Action (Stage σ) Bool := do
  match ← (Stage.call (.pixel point)).attempt with
  | .ok observed => return w.tolerance.accepts observed expected
  | .error _ => return false

/-- Samples once and up to `more` times again, with a pause before each of those. -/
def sampling (w : ColorWait) (point : Point) (expected : Color) : Nat → Action (Stage σ) Bool
  | 0 => w.sample point expected
  | more + 1 => do
    if ← w.sample point expected then return true
    Stage.pause w.interval
    w.sampling point expected more

def wait (w : ColorWait) (point : Point) (expected : Color) : Action (Stage σ) Bool :=
  w.sampling point expected (w.attempts - 1)

end ColorWait

end Playback
