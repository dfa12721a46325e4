import Playback.Proofs.Career
import Playback.Proofs.Checking
/-!
# Skipping a job that cannot be expanded

A job with a recording that cannot be loaded leaves the queue before any of its commands is
performed. The engine then goes on as it would without the job: from the same history, to the same
commands. A recording that is missing or blank is no reason to skip a job; it holds no commands.
-/

namespace Playback.Proofs.Skipping

open Career Checking Footprints Launching Loading Moves

variable {σ : Type}

/-- Entries of an engine that goes on to its next job: notes on jobs, the signal that there is none,
and what brings the application up. -/
def AdvanceEntry : Entry → Prop
  | .noted _ (.abandoned ..) => True
  | .noted _ (.expanded ..) => True
  | .called (.signal _) _ => True
  | entry => Within opens entry

/-- Where the way through the queue, after the operations in the history, ends: at the first job
that can be expanded, or with none. -/
inductive Resumed (e : Setup) (history : List String) (queue : List Job) (b : Agenda) : Prop
  | idle (hpending : b.pending = []) (hphase : b.phase = .idle) (hcommands : b.commands = [])
      (hhistory : b.history = history)
  | running {skipped rest : List Job} {job : Job} {x : Expansion}
      (hqueue : queue = skipped ++ job :: rest) (hpending : b.pending = job :: rest)
      (hexpand : e.expand history job = .ok x) (hphase : b.phase = .running)
      (hcommands : b.commands = x.commands)
      (hhistory : b.history = Agenda.remember history x.operation)

variable {e : Setup} {a b : Agenda} {job : Job} {rest : List Job}

theorem Resumed.behind {history : List String} (h : Resumed e history rest b) (job : Job) :
    Resumed e history (job :: rest) b := by
  cases h with
  | idle hpending hphase hcommands hhistory => exact .idle hpending hphase hcommands hhistory
  | @running skipped more next x hqueue hpending hexpand hphase hcommands hhistory =>
    have hbehind : job :: rest = (job :: skipped) ++ next :: more := by
      rw [hqueue, List.cons_append]
    exact .running hbehind hpending hexpand hphase hcommands hhistory

theorem Resumed.suffix {history : List String} (h : Resumed e history rest b) :
    b.pending <:+ rest := by
  cases h with
  | idle hpending =>
    rw [hpending]
    exact List.nil_suffix
  | running hqueue hpending =>
    rw [hpending, hqueue]
    exact List.suffix_append _ _

theorem resumed_of_advances {news : List Entry} {r : Except Fault Unit}
    (h : Advances e a news r b) : Resumed e a.history a.pending b := by
  induction h with
  | idle hpending => exact .idle hpending rfl rfl rfl
  | found hpending hexpand =>
    exact .running (hpending.trans (List.nil_append _).symm) hpending hexpand rfl rfl rfl
  | @dropped a b job rest f news r hpending hexpand hnext ih =>
    rw [pending_of_dropFirst hpending] at ih
    rw [hpending]
    exact ih.behind job

theorem advances_of_error {news : List Entry} {r : Except Fault Unit} {f : Fault}
    (hpending : a.pending = job :: rest) (hexpand : e.expand a.history job = .error f)
    (h : Advances e a news r b) :
    ∃ onward, news = departure e (.abandoned · f) a.pending ++ onward ∧
      Advances e a.dropFirst onward r b := by
  cases h with
  | idle hnone =>
    rw [hpending] at hnone
    cases hnone
  | found hqueue hok =>
    rw [hpending, List.cons.injEq] at hqueue
    rw [← hqueue.1, hexpand] at hok
    cases hok
  | dropped hqueue herror hnext =>
    rw [hpending, List.cons.injEq] at hqueue
    rw [← hqueue.1, hexpand, Except.error.injEq] at herror
    subst herror
    exact ⟨_, rfl, hnext⟩

theorem advanceEntry_of_opens {entry : Entry} (h : Within opens entry) : AdvanceEntry entry := by
  unfold AdvanceEntry
  split <;> trivial

theorem advanceEntry_departure (f : Fault) (jobs : List Job) :
    ∀ entry ∈ departure e (.abandoned · f) jobs, AdvanceEntry entry :=
  forall_mem_departure (fun _ => trivial) trivial jobs

theorem advanceEntry_of_advances {news : List Entry} {r : Except Fault Unit}
    (h : Advances e a news r b) : ∀ entry ∈ news, AdvanceEntry entry := by
  induction h with
  | idle => simp
  | found _ _ hopening =>
    intro entry hentry
    rcases List.mem_cons.1 hentry with rfl | hentry
    · trivial
    · exact advanceEntry_of_opens (hopening entry hentry)
  | dropped _ _ _ ih =>
    intro entry hentry
    rcases List.mem_append.1 hentry with hentry | hentry
    · exact advanceEntry_departure _ _ entry hentry
    · exact ih entry hentry

/-- What is loaded next depends on the queue and the history alone. -/
theorem loaded_dropFirst (expand : List String → Job → Except Fault Expansion)
    (h : a.pending = job :: rest) :
    a.dropFirst.loaded expand =
      { Agenda.loaded expand { a with pending := rest } with retries := 0 } := by
  simp only [Agenda.loaded, Agenda.load, Agenda.dropFirst, h, List.tail_cons]
  cases (Agenda.seek (expand a.history) rest).2 <;> simp

section Sessions

variable [Desk σ] (e : Setup)

/-- A job with a recording that cannot be loaded is skipped. No command is performed on the way, and
the engine arrives where it would without the job, but that the retries count from zero. -/
theorem malformed_skipped {s : Session σ} {operation : String} {feature : Feature} {r : Recording}
    (hpending : s.agenda.pending = job :: rest) (hoperation : job.operation? = some operation)
    (hfeature : e.config.catalog.get? operation = some feature)
    (hr : r ∈ Setup.recordings (e.previousScreen? s.agenda.history) feature.screen operation)
    (hbad : Malformed e.files (recordingPath e r)) :
    ∃ f news, e.expand s.agenda.history job = .error f ∧
      Adds s (e.next s).2 (noted e (.abandoned job f) :: news) ∧
      (∀ entry ∈ news, AdvanceEntry entry) ∧
      (e.next s).2.engine.memory = s.engine.memory ∧
      Resumed e s.agenda.history rest (e.next s).2.agenda ∧
      (e.next s).2.agenda =
        { (e.next (s.setAgenda { s.agenda with pending := rest })).2.agenda with
          retries := 0 } := by
  obtain ⟨f, hexpand⟩ := (expand_error_iff hoperation hfeature).2 ⟨r, hr, hbad⟩
  have hagenda : (e.next s).2.agenda = s.agenda.dropFirst.loaded e.expand := by
    rw [Setup.agenda_next, Agenda.loaded, load_of_error e.expand hpending hexpand]
    rfl
  have hwithout : (e.next s).2.agenda =
      { (e.next (s.setAgenda { s.agenda with pending := rest })).2.agenda with retries := 0 } := by
    rw [hagenda, loaded_dropFirst e.expand hpending, Setup.agenda_next]
    rfl
  have hmemory : (e.next s).2.engine.memory = s.engine.memory := by rw [engine_next]
  obtain ⟨news, hnews, hadvances⟩ := realizes_next e s
  obtain ⟨onward, rfl, hnext⟩ := advances_of_error hpending hexpand hadvances
  have hhead : s.agenda.pending.head? = some job := by rw [hpending, List.head?_cons]
  obtain ⟨signal, hdeparture⟩ := departure_cons e (.abandoned · f) hhead
  have hresumed := resumed_of_advances hnext
  rw [pending_of_dropFirst hpending] at hresumed
  rw [hdeparture] at hnews
  refine ⟨f, signal ++ onward, hexpand, hnews, ?_, hmemory, hresumed, hwithout⟩
  intro entry hentry
  rcases List.mem_append.1 hentry with hentry | hentry
  · apply advanceEntry_departure f s.agenda.pending
    rw [hdeparture]
    exact List.mem_cons_of_mem _ hentry
  · exact advanceEntry_of_advances hnext entry hentry

end Sessions

/-! ## Two jobs, the first with a spoiled recording -/

def recorded (content : String) : FileTree :=
  .ofList [("Mapeamentos", .folder), ("Mapeamentos/pppoker", .folder),
    ("Mapeamentos/pppoker/Act", .folder), ("Mapeamentos/pppoker/Act/balance.txt", .text content)]

/-- An entry without a text follows one that is as it should be. -/
def spoiled : Setup :=
  { shelved with
    files :=
      recorded "[\x7b\"action\":\"write\",\"value\":\"7\"\x7d,\x7b\"action\":\"write\"\x7d]" }

def landing : Job := ⟨.ofAttrs (.ofList [("Action", .text "base")]), ""⟩

def waitingFor (jobs : List Job) : Session Rehearsal :=
  ⟨⟨{ Agenda.fresh with pending := jobs }, .fresh⟩, stageWith true true⟩

def cashier : Feature := ⟨.passive, "cashier", ["Saldo"]⟩

theorem spoiled_facts :
    balance.operation? = some "balance" ∧
    spoiled.config.catalog.get? "balance" = some cashier ∧
    (⟨.action, "balance"⟩ : Recording) ∈
      Setup.recordings (spoiled.previousScreen? []) cashier.screen "balance" ∧
    spoiled.files.loadCommands (recordingPath spoiled ⟨.action, "balance"⟩) =
      .error (.invalidCommand "write: missing value") ∧
    ((waitingFor [balance, landing]).agenda.loaded spoiled.expand).pending = [landing] := by
  decide +kernel

/-- The first job is skipped, and the second one has its turn. -/
theorem spoiled_skipped :
    let s := waitingFor [balance, landing]
    (∃ f news, Adds s (spoiled.next s).2 (noted spoiled (.abandoned balance f) :: news) ∧
      ∀ entry ∈ news, AdvanceEntry entry) ∧
    (spoiled.next s).2.agenda.pending = [landing] := by
  intro s
  obtain ⟨hoperation, hfeature, hneeded, hload, hpending⟩ := spoiled_facts
  have hbad : Malformed spoiled.files (recordingPath spoiled ⟨.action, "balance"⟩) :=
    malformed_of_error hload
  obtain ⟨f, news, -, hnews, hadvanceEntry, -⟩ :=
    malformed_skipped spoiled (s := s) rfl hoperation hfeature hneeded hbad
  refine ⟨⟨f, news, hnews, hadvanceEntry⟩, ?_⟩
  rw [Setup.agenda_next]
  exact hpending

/-! ## A blank recording -/

/-- A file that cannot be loaded, or holds no list, be it for being blank. -/
def Unlisted (t : FileTree) (path : String) : Prop :=
  Malformed t path ∨ ∃ content, t.readText path = .ok content ∧
    ∀ items, Json.parse? content ≠ some (.arr items)

/-- Every job with such a recording leaves the queue. -/
def UnlistedSkipped : Prop :=
  ∀ (e : Setup) (s : Session Rehearsal) (job : Job) (rest : List Job) (operation : String)
    (feature : Feature) (r : Recording), s.agenda.pending = job :: rest →
      job.operation? = some operation → e.config.catalog.get? operation = some feature →
      r ∈ Setup.recordings (e.previousScreen? s.agenda.history) feature.screen operation →
      Unlisted e.files (recordingPath e r) → (e.next s).2.agenda.pending <:+ rest

def blankly : Setup := { shelved with files := recorded "\n" }

theorem blankly_facts :
    balance.operation? = some "balance" ∧
    blankly.config.catalog.get? "balance" = some cashier ∧
    (⟨.action, "balance"⟩ : Recording) ∈
      Setup.recordings (blankly.previousScreen? []) cashier.screen "balance" ∧
    blankly.files.readText (recordingPath blankly ⟨.action, "balance"⟩) = .ok "\n" ∧
    (Json.parse? "\n").isNone = true ∧
    ((waitingFor [balance]).agenda.loaded blankly.expand).pending = [balance] := by
  decide +kernel

/-- A blank recording holds no list, and its job is expanded all the same. -/
theorem blank_not_skipped : ¬ UnlistedSkipped := by
  intro hall
  obtain ⟨hoperation, hfeature, hneeded, hread, hnone, hpending⟩ := blankly_facts
  have hunlisted : Unlisted blankly.files (recordingPath blankly ⟨.action, "balance"⟩) := by
    refine .inr ⟨"\n", hread, fun items hitems => ?_⟩
    rw [hitems] at hnone
    cases hnone
  have hleft := hall blankly (waitingFor [balance]) balance [] "balance" cashier
    ⟨.action, "balance"⟩ rfl hoperation hfeature hneeded hunlisted
  rw [Setup.agenda_next, hpending] at hleft
  exact absurd (List.suffix_nil.1 hleft) (List.cons_ne_nil _ _)

end Playback.Proofs.Skipping
