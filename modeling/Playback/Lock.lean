import Playback.Duration
import Playback.Fault
/-!
# The input lock

One pointer and one keyboard are shared by all. Whoever drives them holds the lock under a lease,
and a lease that was not renewed for too long counts as abandoned: the next party takes the lock
over. Moments are in nanoseconds, the settings in milliseconds.
-/

namespace Playback

def nanoseconds (ms : Nat) : Nat := ms * 1000000

structure Holder where
  owner : Nat
  app : String
  since : Nat
  deriving DecidableEq, Repr, Inhabited

/-- What a party that acquired the lock keeps until it lets go of it. -/
structure Lease where
  owner : Nat
  deriving DecidableEq, Repr, Inhabited

structure InputLock where
  acquireTimeout : Nat
  retryInterval : Nat
  span : Nat
  holder : Option Holder
  /-- The number of leases given out; each has a number of its own. -/
  issued : Nat
  deriving DecidableEq, Repr, Inhabited

namespace InputLock

def free (acquireTimeout retryInterval span : Nat) : InputLock :=
  ⟨acquireTimeout, retryInterval, span, none, 0⟩

def expired (l : InputLock) (h : Holder) (now : Nat) : Bool :=
  nanoseconds l.span ≤ now - h.since

def available (l : InputLock) (now : Nat) : Bool :=
  match l.holder with
  | none => true
  | some h => l.expired h now

/-- Takes the lock if it is free or its holder's lease has run out. -/
def tryAcquire (l : InputLock) (app : String) (now : Nat) : Option Lease × InputLock :=
  if l.available now then
    (some ⟨l.issued⟩, { l with holder := some ⟨l.issued, app, now⟩, issued := l.issued + 1 })
  else (none, l)

def heldBy (l : InputLock) (lease : Lease) : Bool :=
  match l.holder with
  | some h => h.owner == lease.owner
  | none => false

/-- Starts the span of the lease anew. False once another party has taken the lock over. -/
def renew (l : InputLock) (lease : Lease) (now : Nat) : Bool × InputLock :=
  match l.holder with
  | some h =>
    if h.owner == lease.owner then (true, { l with holder := some { h with since := now } })
    else (false, l)
  | none => (false, l)

def drop (l : InputLock) (lease : Lease) : InputLock :=
  if l.heldBy lease then { l with holder := none } else l

def holderApp? (l : InputLock) : Option String := l.holder.map (·.app)

def lostFault : Fault := .acquisitionTimeout "input lock expired and was taken over"

def waitedFault (l : InputLock) (app : String) : Fault :=
  .acquisitionTimeout
    (app ++ " waited " ++ describeMillis l.acquireTimeout ++ " for the input lock")

end InputLock

end Playback
