import Playback.Action
import Playback.Command.Basic
import Playback.Desk
import Playback.Lock
import Playback.Overlay
/-!
# The stage

The state that all engines share while they work: the desk, the clock, the abort switch, the input
lock, the registered windows and the journal of what was done. Every call to the desk goes through
`Stage.call`, which keeps the journal and moves the clock on.
-/

namespace Playback

/-- What an engine writes into the journal about its own work. -/
inductive Note where
  | queued (job : Job)
  | expanded (job : Job) (commands : List Command)
  | dispatched (command : Command)
  | performed (command : Command) (outcome : Except Fault Unit)
  | retired (job : Job)
  | abandoned (job : Job) (reason : Fault)
  | retrying (count : Nat)

inductive Entry where
  | called (call : Call) (outcome : Except Fault call.Reply)
  | shown (marker : Marker) (span : Nat)
  | noted (app : String) (note : Note)

/-- The shared state of all engines. -/
structure Stage (σ : Type) where
  desk : σ
  clock : Nat
  aborted : Bool
  lock : InputLock
  /-- The leases that other parties took. -/
  rivals : List Lease
  windows : Dict Unit
  front : Option String
  /-- What happened, the latest first. -/
  journal : List Entry

namespace Stage

variable {σ : Type}

def fresh (desk : σ) (lock : InputLock) : Stage σ :=
  ⟨desk, 0, false, lock, [], .empty, none, []⟩

def record (s : Stage σ) (e : Entry) : Stage σ := { s with journal := e :: s.journal }

def rivalTakes (s : Stage σ) (app : String) : Bool × Stage σ :=
  match s.lock.tryAcquire app s.clock with
  | (some lease, lock) => (true, { s with lock, rivals := s.rivals ++ [lease] })
  | (none, lock) => (false, { s with lock })

def rivalsRelease (s : Stage σ) : Stage σ :=
  { s with lock := s.rivals.foldl InputLock.drop s.lock, rivals := [] }

def rivalMove (s : Stage σ) : RivalMove → Stage σ
  | .take app => (s.rivalTakes app).2
  | .renew i =>
    match s.rivals[i]? with
    | some lease => { s with lock := (s.lock.renew lease s.clock).2 }
    | none => s
  | .release i =>
    match s.rivals[i]? with
    | some lease => { s with lock := s.lock.drop lease, rivals := s.rivals.eraseIdx i }
    | none => s

variable [Desk σ]

def afterCall (s : Stage σ) (c : Call) : Stage σ :=
  let (r, desk) := Desk.respond c s.desk
  r.rivals.foldl rivalMove
    { s with
      desk
      clock := s.clock + r.elapsed + 1
      aborted := s.aborted || r.abort != .none
      journal := .called c (c.settle r) :: s.journal }

/-- Makes a call. One that an abort may interrupt is not even begun after an abort. -/
def call (c : Call) : Action (Stage σ) c.Reply := fun s =>
  if c.interruptible && s.aborted then (.error c.abortFault, s)
  else (c.settle (Desk.respond c s.desk).1, s.afterCall c)

def ensureRunning : Action (Stage σ) Unit := fun s =>
  if s.aborted then (.error (.cancelled "abort requested"), s) else (.ok (), s)

def pause (span : Nat) : Action (Stage σ) Unit := do
  if span = 0 then ensureRunning
  call (.wait span)

def isOpen (app : String) (s : Stage σ) : Bool × Stage σ :=
  match call (.isOpen app) s with
  | (.ok b, s) => (b, s)
  | (.error _, s) => (false, s)

def mark (m : Marker) : Action (Stage σ) Unit := .modify fun s => s.record (.shown m markerSpan)

/-- Restarts the span of a lease, or fails if another party has taken the lock over. -/
def ensureHeld (lease : Lease) : Action (Stage σ) Unit := fun s =>
  match s.lock.renew lease s.clock with
  | (true, lock) => (.ok (), { s with lock })
  | (false, lock) => (.error InputLock.lostFault, { s with lock })

def dropLease (s : Stage σ) (lease : Lease) : Stage σ := { s with lock := s.lock.drop lease }

/-! ## The clock moves on -/

omit [Desk σ] in
theorem clock_rivalMove (s : Stage σ) (m : RivalMove) : (s.rivalMove m).clock = s.clock := by
  cases m <;> simp only [rivalMove, rivalTakes] <;> split <;> rfl

omit [Desk σ] in
theorem clock_foldl_rivalMove (ms : List RivalMove) (s : Stage σ) :
    (ms.foldl rivalMove s).clock = s.clock := by
  induction ms generalizing s with
  | nil => rfl
  | cons m ms ih => rw [List.foldl_cons, ih, clock_rivalMove]

theorem clock_lt_afterCall (s : Stage σ) (c : Call) : s.clock < (s.afterCall c).clock := by
  simp only [afterCall, clock_foldl_rivalMove]
  omega

theorem clock_lt_of_call {c : Call} {s t : Stage σ} {a : c.Reply} (h : call c s = (.ok a, t)) :
    s.clock < t.clock := by
  simp only [call] at h
  split at h
  · cases h
  · rw [← (Prod.mk.inj h).2]
    exact clock_lt_afterCall s c

theorem clock_le_call (c : Call) (s : Stage σ) : s.clock ≤ (call c s).2.clock := by
  simp only [call]
  split
  · exact Nat.le_refl _
  · exact Nat.le_of_lt (clock_lt_afterCall s c)

theorem clock_le_isOpen (app : String) (s : Stage σ) : s.clock ≤ (isOpen app s).2.clock := by
  have h := clock_le_call (.isOpen app) s
  simp only [isOpen]
  split <;> simp_all

theorem clock_lt_of_pause {span : Nat} {s t : Stage σ} {a : Unit}
    (h : pause span s = (.ok a, t)) : s.clock < t.clock := by
  by_cases hs : span = 0
  · by_cases ha : s.aborted
    · rw [pause, if_pos hs, Action.bind_of_error (e := .cancelled "abort requested") (t := s)
        (by simp [ensureRunning, ha])] at h
      cases h
    · rw [pause, if_pos hs, Action.bind_of_ok (a := ()) (t := s) (by simp [ensureRunning, ha])] at h
      exact clock_lt_of_call h
  · rw [pause, if_neg hs] at h
    exact clock_lt_of_call h

end Stage

end Playback
