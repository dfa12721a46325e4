import Playback.Engine.Agenda
import Playback.Engine.Launch
import Playback.Engine.Perform
/-!
# Engines

An engine works through its agenda: it expands the first job, performs its commands one by one, and
goes on to the next job when the results are delivered. A verification timeout starts the
application and the job anew, up to a limit; any other failure of a command costs the job. Only an
abort and an application that cannot be started or ended stop the engine itself.
-/

namespace Playback

structure Engine where
  agenda : Agenda
  memory : Memory
  deriving DecidableEq, Repr, Inhabited

structure Session (σ : Type) where
  engine : Engine
  stage : Stage σ

def Engine.fresh : Engine := ⟨.fresh, .fresh⟩

namespace Session

variable {σ : Type}

def agenda (s : Session σ) : Agenda := s.engine.agenda

def setAgenda (s : Session σ) (a : Agenda) : Session σ :=
  { s with engine := { s.engine with agenda := a } }

def onStage {α : Type} (x : Action (Stage σ) α) : Action (Session σ) α := fun s =>
  let (r, stage) := x s.stage
  (r, { s with stage })

def onMemory {α : Type} (x : Action (Memory × Stage σ) α) : Action (Session σ) α := fun s =>
  let (r, memory, stage) := x (s.engine.memory, s.stage)
  (r, { engine := { s.engine with memory }, stage })

def changeAgenda (f : Agenda → Agenda) : Action (Session σ) Unit :=
  .modify fun s => s.setAgenda (f s.agenda)

end Session

namespace Setup

open Session

variable {σ : Type} [Desk σ]

def note (e : Setup) (n : Note) : Action (Session σ) Unit :=
  onStage (.modify fun s => s.record (.noted e.app n))

def signal (e : Setup) : Action (Session σ) Unit := onStage (Stage.call (.signal e.app))

def noteDropped (e : Setup) : List (Job × Fault) → Action (Session σ) Unit
  | [] => pure ()
  | (job, f) :: rest => do
    e.note (.abandoned job f)
    e.noteDropped rest

/-- Goes on to the next job that can be expanded, and sees that the application is open. -/
def next (e : Setup) : Action (Session σ) Unit := do
  let (dropped, found, agenda) ← .gets fun s => s.agenda.load e.expand
  changeAgenda fun _ => agenda
  e.noteDropped dropped
  match found with
  | some (job, x) =>
    e.note (.expanded job x.commands)
    onStage e.ensureOpen
  | none => if dropped.isEmpty then pure () else e.signal

def dropFirst (e : Setup) (n : Job → Note) : Action (Session σ) Unit := do
  let pending ← .gets fun s => s.agenda.pending
  changeAgenda Agenda.dropFirst
  match pending with
  | [] => e.signal
  | job :: rest =>
    e.note (n job)
    if rest.isEmpty then e.signal else pure ()

def retire (e : Setup) : Action (Session σ) Unit := do
  e.dropFirst .retired
  changeAgenda fun a => { a with phase := .awaiting }
  e.next

def giveUp (e : Setup) (f : Fault) : Action (Session σ) Unit := do
  e.dropFirst (.abandoned · f)
  e.next

def beginAgain (e : Setup) : Action (Session σ) Unit := do
  let agenda ← .gets agenda
  e.note (.retrying (agenda.retries + 1))
  onMemory do
    let operation ← .gets fun m => m.1.operationLabel
    answering (·.set okAttribute (.text ("Could not perform operation " ++ operation)))
  changeAgenda Agenda.beginAgain
  onStage e.relaunch
  e.next

/-- What follows a verification timeout: the first job is begun again, or given up at the limit. -/
def retry (e : Setup) (cause : Fault) : Action (Session σ) Unit := fun s =>
  if e.config.maxRetries ≤ s.agenda.retries + 1 then e.giveUp cause s else e.beginAgain s

def recover (e : Setup) (f : Fault) : Action (Session σ) Unit :=
  if f.isCancelled then Action.fail f
  else if f.retryable then e.retry f
  else e.giveUp f

def proceed (e : Setup) : Command → Action (Session σ) Unit
  | .webhook _ => e.retire
  | _ => pure ()

def dispatch (e : Setup) (c : Command) : Action (Session σ) (Except Fault Unit) := do
  onStage Stage.ensureRunning
  e.note (.dispatched c)
  let outcome ← (onMemory (e.perform c)).attempt
  e.note (.performed c outcome)
  return outcome

/-- What follows from the outcome of a command. -/
def follow (e : Setup) (c : Command) : Except Fault Unit → Action (Session σ) Unit
  | .ok () => e.proceed c
  | .error f => e.recover f

def rest (e : Setup) : Action (Session σ) Unit := fun s =>
  if s.agenda.commands.isEmpty then (.ok (), s) else onStage (Stage.pause e.config.stepPause) s

def step (e : Setup) (c : Command) : Action (Session σ) Unit := do
  let outcome ← e.dispatch c
  e.follow c outcome
  e.rest

/-! ## Every step leaves less work -/

def Spares {α : Type} (x : Action (Session σ) α) : Prop := ∀ s, (x s).2.agenda = s.agenda

omit [Desk σ] in
theorem spares_onStage {α : Type} (x : Action (Stage σ) α) : Spares (onStage x) := fun _ => rfl

omit [Desk σ] in
theorem spares_onMemory {α : Type} (x : Action (Memory × Stage σ) α) : Spares (onMemory x) :=
  fun _ => rfl

omit [Desk σ] in
theorem spares_pure {α : Type} (a : α) : Spares (pure a : Action (Session σ) α) := fun _ => rfl

omit [Desk σ] in
theorem Spares.bind {α β : Type} {x : Action (Session σ) α} {f : α → Action (Session σ) β}
    (hx : Spares x) (hf : ∀ a, Spares (f a)) : Spares (x >>= f) := fun s => by
  have h := hx s
  cases hr : x s with
  | mk r t =>
    rw [hr] at h
    cases r with
    | ok a => rw [Action.bind_of_ok hr, hf a t, h]
    | error e => rw [Action.bind_of_error hr, h]

omit [Desk σ] in
theorem Spares.agenda_eq {α : Type} {x : Action (Session σ) α} (hx : Spares x) {s t : Session σ}
    {r : Except Fault α} (h : x s = (r, t)) : t.agenda = s.agenda := by
  have := hx s
  rwa [h] at this

omit [Desk σ] in
theorem spares_noteDropped (e : Setup) :
    ∀ dropped, Spares (e.noteDropped dropped : Action (Session σ) Unit)
  | [] => spares_pure ()
  | (_, _) :: rest => (spares_onStage _).bind fun _ => spares_noteDropped e rest

theorem agenda_next (e : Setup) (s : Session σ) :
    (e.next s).2.agenda = s.agenda.loaded e.expand := by
  have key : ∀ l : List (Job × Fault) × Option (Job × Expansion) × Agenda,
      Spares (do
        e.noteDropped l.1
        match l.2.1 with
        | some (job, x) =>
          e.note (.expanded job x.commands)
          onStage e.ensureOpen
        | none => if l.1.isEmpty then pure () else e.signal : Action (Session σ) Unit) := by
    intro l
    refine (spares_noteDropped e l.1).bind fun _ => ?_
    split
    · exact (spares_onStage _).bind fun _ => spares_onStage _
    · split
      · exact spares_pure ()
      · exact spares_onStage _
  exact key (s.agenda.load e.expand) (s.setAgenda (s.agenda.load e.expand).2.2)

theorem agenda_dropFirst (e : Setup) (n : Job → Note) (s : Session σ) :
    (e.dropFirst n s).2.agenda = s.agenda.dropFirst := by
  have key : ∀ pending : List Job, Spares (match pending with
      | [] => e.signal
      | job :: rest => do
        e.note (n job)
        if rest.isEmpty then e.signal else pure () : Action (Session σ) Unit) := by
    intro pending
    split
    · exact spares_onStage _
    · refine (spares_onStage _).bind fun _ => ?_
      split
      · exact spares_onStage _
      · exact spares_pure ()
  exact key s.agenda.pending (s.setAgenda s.agenda.dropFirst)

/-- How the agenda is after a step that succeeded and left commands: untouched, or with fewer jobs,
or with fewer retries left. -/
def Lighter (e : Setup) (b a : Agenda) : Prop :=
  b.pending.length < a.pending.length ∨
    b.pending.length = a.pending.length ∧
      e.config.maxRetries - b.retries < e.config.maxRetries - a.retries

theorem next_shortens (e : Setup) {s t : Session σ} {r : Except Fault Unit} (h : e.next s = (r, t))
    (hc : t.agenda.commands ≠ []) :
    t.agenda.pending.length < s.agenda.pending.length ∨
      t.agenda.pending.length = s.agenda.pending.length ∧ t.agenda.retries = s.agenda.retries ∧
        s.agenda.pending ≠ [] := by
  have hn : t.agenda = s.agenda.loaded e.expand := by
    have := agenda_next e s
    rwa [h] at this
  rw [hn] at hc ⊢
  exact Agenda.loaded_shortens e.expand s.agenda hc

theorem pending_dropFirst (e : Setup) {n : Job → Note} {s t : Session σ} {r : Except Fault Unit}
    (h : e.dropFirst n s = (r, t)) : t.agenda.pending = s.agenda.pending.tail := by
  have := agenda_dropFirst e n s
  rw [h] at this
  exact congrArg Agenda.pending this

theorem next_shortens_after_drop (e : Setup) {s t u : Session σ} {r : Except Fault Unit}
    (hu : u.agenda.pending = s.agenda.pending.tail) (h : e.next u = (r, t))
    (hc : t.agenda.commands ≠ []) : t.agenda.pending.length < s.agenda.pending.length := by
  have hl := List.length_tail (l := s.agenda.pending)
  rcases next_shortens e h hc with h | ⟨h, -, hne⟩
  · rw [hu] at h
    omega
  · rw [hu] at h hne
    have := List.length_pos_iff.2 hne
    omega

theorem giveUp_shortens (e : Setup) {f : Fault} {s t : Session σ} (h : e.giveUp f s = (.ok (), t))
    (hc : t.agenda.commands ≠ []) : t.agenda.pending.length < s.agenda.pending.length := by
  obtain ⟨_, u, hd, hn⟩ := Action.bind_eq_ok.1 h
  exact next_shortens_after_drop e (pending_dropFirst e hd) hn hc

theorem retire_shortens (e : Setup) {s t : Session σ} (h : e.retire s = (.ok (), t))
    (hc : t.agenda.commands ≠ []) : t.agenda.pending.length < s.agenda.pending.length := by
  obtain ⟨_, u, hd, h⟩ := Action.bind_eq_ok.1 h
  have hu : u.agenda.pending = s.agenda.pending.tail := pending_dropFirst e hd
  obtain ⟨_, v, hv, h⟩ := Action.bind_eq_ok.1 h
  cases hv
  exact next_shortens_after_drop e hu h hc

theorem lighter_of_beginAgain (e : Setup) {s t : Session σ} (h : e.beginAgain s = (.ok (), t))
    (hr : s.agenda.retries + 1 < e.config.maxRetries) (hc : t.agenda.commands ≠ []) :
    Lighter e t.agenda s.agenda := by
  obtain ⟨_, u, hu, h⟩ := Action.bind_eq_ok.1 h
  obtain ⟨_, v, hv, h⟩ := Action.bind_eq_ok.1 h
  obtain ⟨_, w, hw, h⟩ := Action.bind_eq_ok.1 h
  obtain ⟨_, x, hx, h⟩ := Action.bind_eq_ok.1 h
  cases hu
  have hw : w.agenda = s.agenda := ((spares_onMemory _).agenda_eq hw).trans
    ((spares_onStage _).agenda_eq hv)
  cases hx
  obtain ⟨_, y, hy, h⟩ := Action.bind_eq_ok.1 h
  have hy : y.agenda = s.agenda.beginAgain := by
    rw [(spares_onStage _).agenda_eq hy, ← hw]
    rfl
  rcases next_shortens e h hc with h | ⟨h, hret, -⟩
  · left
    rwa [hy] at h
  · right
    rw [hy] at h hret
    refine ⟨h, ?_⟩
    rw [hret]
    simp only [Agenda.beginAgain]
    omega

theorem lighter_of_recover (e : Setup) {f : Fault} {s t : Session σ}
    (h : e.recover f s = (.ok (), t)) (hc : t.agenda.commands ≠ []) :
    Lighter e t.agenda s.agenda := by
  simp only [recover] at h
  split at h
  · cases h
  · split at h
    · simp only [retry] at h
      split at h
      · exact .inl (giveUp_shortens e h hc)
      · exact lighter_of_beginAgain e h (by omega) hc
    · exact .inl (giveUp_shortens e h hc)

theorem step_lightens (e : Setup) {c : Command} {s t : Session σ} (h : e.step c s = (.ok (), t))
    (hc : t.agenda.commands ≠ []) : t.agenda = s.agenda ∨ Lighter e t.agenda s.agenda := by
  obtain ⟨outcome, u, hu, h⟩ := Action.bind_eq_ok.1 h
  obtain ⟨_, v, hv, h⟩ := Action.bind_eq_ok.1 h
  have hu : u.agenda = s.agenda := by
    have key : Spares (e.dispatch c : Action (Session σ) (Except Fault Unit)) :=
      (spares_onStage _).bind fun _ => (spares_onStage _).bind fun _ =>
        Spares.bind (fun s => rfl) fun _ => (spares_onStage _).bind fun _ => spares_pure _
    exact key.agenda_eq hu
  have ht : t.agenda = v.agenda := by
    simp only [rest] at h
    split at h
    · cases h
      rfl
    · exact (spares_onStage _).agenda_eq h
  rw [ht] at hc ⊢
  rw [← hu]
  cases outcome with
  | error f => exact .inr (lighter_of_recover e hv hc)
  | ok _ =>
    cases c with
    | webhook _ => exact .inr (.inl (retire_shortens e hv hc))
    | _ =>
      cases hv
      exact .inl rfl

/-! ## Working through the agenda -/

/-- The work left: jobs, then retries, then commands. -/
def work (e : Setup) (a : Agenda) : Nat × Nat × Nat :=
  (a.pending.length, e.config.maxRetries - a.retries, a.commands.length)

def Less (v w : Nat × Nat × Nat) : Prop :=
  Prod.Lex (· < ·) (Prod.Lex (· < ·) (· < ·)) v w

theorem work_lt (e : Setup) {a b : Agenda} {c : Command} {commands : List Command}
    (hs : a.commands = c :: commands)
    (h : b = { a with commands } ∨ Lighter e b { a with commands }) :
    Less (work e b) (work e a) := by
  rcases h with rfl | h | ⟨h, hr⟩
  · refine Prod.Lex.right _ (Prod.Lex.right _ ?_)
    simp [hs]
  · exact Prod.Lex.left _ _ h
  · simp only [Less, work, h]
    exact Prod.Lex.right _ (Prod.Lex.left _ _ hr)

def performAll (e : Setup) (s : Session σ) : Except Fault Unit × Session σ :=
  match hs : s.agenda.commands with
  | [] => (.ok (), s)
  | c :: commands =>
    match h : e.step c (s.setAgenda { s.agenda with commands }) with
    | (.error f, t) => (.error f, t)
    | (.ok (), t) =>
      if hc : t.agenda.commands = [] then (.ok (), t)
      else
        have := work_lt e hs (step_lightens e h hc)
        performAll e t
termination_by work e s.agenda
decreasing_by assumption

/-- Puts a job on the agenda. An engine without work expands it at once. -/
def add (e : Setup) (job : Job) : Action (Session σ) Unit := do
  let idle ← .gets fun s => s.agenda.phase == .idle && s.agenda.commands.isEmpty
  changeAgenda (·.queue job)
  e.note (.queued job)
  if idle then e.next else pure ()

def run (e : Setup) : Action (Session σ) Unit := do
  let agenda ← .gets agenda
  if !agenda.commands.isEmpty then onStage e.ensureOpen
  else if !agenda.pending.isEmpty then e.next
  else pure ()
  e.performAll
  changeAgenda fun a => { a with phase := .idle }

end Setup

end Playback
