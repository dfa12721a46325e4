import Playback.Stage
/-!
# Who may use the input

An engine gets the input together with the front of the screen: once it has the lock, every other
open window is minimized and its own one is brought to the front.
-/

namespace Playback.Arbiter

variable {σ : Type} [Desk σ]

def register (app : String) (s : Stage σ) : Stage σ := { s with windows := s.windows.insert app () }

def acquireUntil (app : String) (deadline : Nat) (s : Stage σ) : Except Fault Lease × Stage σ :=
  match s.lock.tryAcquire app s.clock with
  | (some lease, lock) => (.ok lease, { s with lock })
  | (none, _) =>
    if deadline ≤ s.clock then (.error (s.lock.waitedFault app), s)
    else
      match h : Stage.pause s.lock.retryInterval s with
      | (.error f, t) => (.error f, t)
      | (.ok (), t) =>
        have := Stage.clock_lt_of_pause h
        acquireUntil app deadline t
termination_by deadline - s.clock

def acquireLock (app : String) : Action (Stage σ) Lease := fun s =>
  acquireUntil app (s.clock + nanoseconds s.lock.acquireTimeout) s

/-- Minimizes the windows of these applications that are open. One that refuses stays. -/
def minimizeAll : List String → Action (Stage σ) Unit
  | [] => pure ()
  | app :: rest => do
    let isOpen ← fun s => let (b, s) := Stage.isOpen app s; (.ok b, s)
    if isOpen then
      let _ ← (Stage.call (.minimize app)).attempt
    minimizeAll rest

def bringToFront (app : String) : Action (Stage σ) Unit := do
  let front ← .gets Stage.front
  if front != some app then
    let windows ← .gets Stage.windows
    minimizeAll (windows.keys.filter (· != app))
    if windows.contains app then Stage.call (.focus app)
    .modify fun s => { s with front := some app }

/-- Takes the lock and brings the application to the front. Where that fails the lock is let go of.
-/
def acquire (app : String) : Action (Stage σ) Lease := do
  let lease ← acquireLock app
  match ← (bringToFront app).attempt with
  | .ok () => return lease
  | .error f =>
    .modify (·.dropLease lease)
    Action.fail f

/-- Has the application focused anew when it next gets the input. -/
def invalidateFront (app : String) (s : Stage σ) : Stage σ :=
  if s.front = some app then { s with front := none } else s

end Playback.Arbiter
