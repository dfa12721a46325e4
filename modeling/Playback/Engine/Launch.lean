import Playback.Arbiter
import Playback.Engine.Expansion
/-!
# Starting the application

An engine starts its application where it is not open, and starts it anew after an expected screen
did not show up. What it knows of the application is only whether its window is open.
-/

namespace Playback.Setup

variable {σ : Type} [Desk σ]

theorem nearer_deadline (e : Setup) {deadline : Nat} {s t u : Stage σ} {seen : Bool}
    (hl : Stage.isOpen e.app s = (seen, t)) (late : ¬deadline ≤ t.clock)
    (hp : Stage.pause e.config.windowPollInterval t = (.ok (), u)) :
    deadline - u.clock < deadline - s.clock := by
  have hlook := Stage.clock_le_isOpen e.app s
  have hpause := Stage.clock_lt_of_pause hp
  rw [hl] at hlook
  dsimp only at hlook
  omega

/-- Looks at the window until it is open, or closed, as wanted, or the deadline has passed. It is
looked at once at least. -/
def awaitWindow (e : Setup) (wanted : Bool) (deadline : Nat) (s : Stage σ) :
    Except Fault Bool × Stage σ :=
  match hl : Stage.isOpen e.app s with
  | (seen, t) =>
    if seen = wanted then (.ok true, t)
    else if late : deadline ≤ t.clock then (.ok false, t)
    else
      match hp : Stage.pause e.config.windowPollInterval t with
      | (.error f, u) => (.error f, u)
      | (.ok (), u) =>
        have := nearer_deadline e hl late hp
        awaitWindow e wanted deadline u
termination_by deadline - s.clock
decreasing_by assumption

def windowBecomes (e : Setup) (wanted : Bool) (timeout : Nat) : Action (Stage σ) Bool := fun s =>
  e.awaitWindow wanted (s.clock + nanoseconds timeout) s

def launcher (e : Setup) : String := e.config.launcherFor e.app

def missingFault (e : Setup) : Fault :=
  .windowNotFound (e.app ++ " did not appear within " ++ describeMillis e.config.openTimeout
    ++ " of launching " ++ e.launcher)

def start (e : Setup) : Action (Stage σ) Unit := do
  Stage.call (.launch e.app e.launcher)
  if ← e.windowBecomes true e.config.openTimeout then
    Stage.pause e.config.launchGrace
    .modify (Arbiter.invalidateFront e.app)
  else Action.fail e.missingFault

def ensureOpen (e : Setup) : Action (Stage σ) Unit := do
  let isOpen ← fun s => let (b, s) := Stage.isOpen e.app s; (.ok b, s)
  if isOpen then pure () else e.start

def terminate (e : Setup) : Action (Stage σ) Unit := do
  Stage.call (.terminate e.app)
  if ← e.windowBecomes false e.config.closeTimeout then pure ()
  else Action.fail (.platform (e.app ++ " survived termination"))

/-- Asks the application to close, ends it if it stays, and starts it again. A refusal to close does
not matter. -/
def relaunch (e : Setup) : Action (Stage σ) Unit := do
  let _ ← (Stage.call (.close e.app)).attempt
  if ← e.windowBecomes false e.config.closeTimeout then pure () else e.terminate
  .modify (Arbiter.invalidateFront e.app)
  e.ensureOpen

end Playback.Setup
