import Mathlib.Data.List.Induction
import Playback.Proofs.Moves
import Playback.Rehearsal
/-!
# The career of an engine

An engine is asked to add jobs, to go on to the next one and to run, as often and in whatever order
its owner likes. Between two requests everything around it may change: the recordings, the day, the
stage and whatever answers from there. Its career is what has become of it, with the entries its own
work added to the journals of those stages.

`Course` lists how a career goes on, in terms of agendas and entries only. What is to hold of every
career is shown by induction on it.
-/

namespace Playback.Proofs.Career

open Footprints Launching Moves

variable {σ : Type}

inductive Request where
  | add (job : Job)
  | next
  | run

def Request.jobs : Request → List Job
  | .add job => [job]
  | .next => []
  | .run => []

structure Setting where
  files : FileTree
  env : Dict String
  today : Day

def Setting.setup (w : Setting) (app : String) (config : Config) : Setup :=
  ⟨app, config, w.files, w.env, w.today⟩

/-- A request, with the setting and the stage it meets. -/
structure Turn (σ : Type) where
  request : Request
  setting : Setting
  stage : Stage σ

structure Past where
  engine : Engine
  story : List Entry

/-- The entries that were added to the journal of `s`, the earliest first. -/
def since (s t : Stage σ) : List Entry :=
  (t.journal.take (t.journal.length - s.journal.length)).reverse

/-- Two steps that agree on a state may stand for each other in a sequence. -/
theorem bind_congr_left {τ α β : Type} {x y : Action τ α} {f : α → Action τ β} {s : τ}
    (h : x s = y s) : (x >>= f) s = (y >>= f) s := by
  show Action.bind x f s = Action.bind y f s
  simp only [Action.bind, h]

theorem since_of_adds {s t : Stage σ} {news : List Entry} (h : Adds s t news) :
    since s t = news := by
  have hjournal : t.journal = news.reverse ++ s.journal := h
  have hlength : t.journal.length - s.journal.length = news.reverse.length := by
    rw [hjournal, List.length_append, Nat.add_sub_cancel]
  rw [since, hlength, hjournal, List.take_left, List.reverse_reverse]

def submitted (turns : List (Turn σ)) : List Job := turns.flatMap (·.request.jobs)

variable [Desk σ]

def serve (e : Setup) : Request → Action (Session σ) Unit
  | .add job => e.add job
  | .next => e.next
  | .run => e.run

variable (app : String) (config : Config)

def Past.turn (p : Past) (turn : Turn σ) : Past :=
  let s := (serve (turn.setting.setup app config) turn.request ⟨p.engine, turn.stage⟩).2
  ⟨s.engine, p.story ++ since turn.stage s.stage⟩

def career (turns : List (Turn σ)) : Past := turns.foldl (Past.turn app config) ⟨.fresh, []⟩

/-! ## Adding a job -/

omit [Desk σ] in
def joining (e : Setup) (job : Job) (s : Session σ) : Session σ :=
  ⟨(s.setAgenda (s.agenda.queue job)).engine, s.stage.record (noted e (.queued job))⟩

theorem add_eq (e : Setup) (job : Job) (s : Session σ) :
    e.add job s =
      if s.agenda.phase = .idle ∧ s.agenda.commands = [] then e.next (joining e job s)
      else (.ok (), joining e job s) := by
  have hadd : e.add job s =
      (if (s.agenda.phase == .idle && s.agenda.commands.isEmpty) = true then e.next
        else pure ()) (joining e job s) := rfl
  rw [hadd]
  by_cases hidle : s.agenda.phase = .idle ∧ s.agenda.commands = []
  · rw [if_pos hidle, if_pos (by simp [hidle])]
  · rw [if_neg hidle, if_neg (by simpa using hidle)]
    rfl

/-! ## Inside a run -/

section Runs

variable (e : Setup)

def begin : Action (Session σ) Unit := fun s =>
  if s.agenda.commands ≠ [] then Session.onStage e.ensureOpen s
  else if s.agenda.pending ≠ [] then e.next s
  else (.ok (), s)

theorem run_eq (s : Session σ) :
    e.run s = (do
      begin e
      e.performAll
      Session.changeAgenda fun a => { a with phase := .idle }) s := by
  have hgets : Action.gets Session.agenda s = (.ok s.agenda, s) := rfl
  unfold Setup.run
  refine (Action.bind_of_ok hgets).trans ?_
  by_cases hcommands : s.agenda.commands = []
  · by_cases hpending : s.agenda.pending = []
    · have hbegin : begin e s = (.ok (), s) := by simp [begin, hcommands, hpending]
      rw [Action.bind_of_ok hbegin]
      simp [hcommands, hpending]
    · have hbegin : begin e s = e.next s := by simp [begin, hcommands, hpending]
      simp only [hcommands, hpending, List.isEmpty_nil, List.isEmpty_eq_false_iff.2, ne_eq,
        not_false_eq_true, Bool.not_true, Bool.not_false, Bool.false_eq_true, if_false, if_true]
      exact bind_congr_left hbegin.symm
  · have hbegin : begin e s = Session.onStage e.ensureOpen s := by simp [begin, hcommands]
    simp only [hcommands, List.isEmpty_eq_false_iff.2, ne_eq, not_false_eq_true, Bool.not_false,
      if_true]
    exact bind_congr_left hbegin.symm

omit [Desk σ] in
def pop (s : Session σ) (commands : List Command) : Session σ :=
  s.setAgenda { s.agenda with commands }

theorem performAll_nil {s : Session σ} (h : s.agenda.commands = []) :
    e.performAll s = (.ok (), s) := by
  unfold Setup.performAll
  split
  · rfl
  · rename_i hcommands
    rw [h] at hcommands
    cases hcommands

/-- Performing the commands is performing the first one, and then those that are left. -/
theorem performAll_cons {s : Session σ} {c : Command} {commands : List Command}
    (h : s.agenda.commands = c :: commands) :
    e.performAll s =
      match e.step c (pop s commands) with
      | (.error f, t) => (.error f, t)
      | (.ok (), t) => e.performAll t := by
  fun_cases e.performAll s with
  | case1 hnone =>
    rw [h] at hnone
    cases hnone
  | case2 c' commands' hcommands f t hstep =>
    rw [h, List.cons.injEq] at hcommands
    obtain ⟨rfl, rfl⟩ := hcommands
    rw [pop, hstep]
  | case3 c' commands' hcommands t hstep hnone =>
    rw [h, List.cons.injEq] at hcommands
    obtain ⟨rfl, rfl⟩ := hcommands
    rw [pop, hstep]
    exact (performAll_nil e hnone).symm
  | case4 c' commands' hcommands t hstep =>
    rw [h, List.cons.injEq] at hcommands
    obtain ⟨rfl, rfl⟩ := hcommands
    rw [pop, hstep]

theorem steps_of_pop {s t : Session σ} {c : Command} {commands : List Command}
    {r : Except Fault Unit} (hstep : e.step c (pop s commands) = (r, t)) :
    ∃ news, Adds s t news ∧ Steps e c { s.agenda with commands } news r t.agenda := by
  obtain ⟨news, hnews, hsteps⟩ := realizes_step e c (pop s commands)
  rw [hstep] at hnews hsteps
  exact ⟨news, hnews, hsteps⟩

/-- A run that began at `s` stands at `t`, between two commands or at its end. -/
inductive Stands (s : Session σ) : Session σ → Prop
  | begun {t : Session σ} (hbegin : begin e s = (.ok (), t)) : Stands s t
  | onward {t u : Session σ} {c : Command} {commands : List Command} (ht : Stands s t)
      (hcommands : t.agenda.commands = c :: commands)
      (hstep : e.step c (pop t commands) = (.ok (), u)) : Stands s u

theorem performAll_cases {s t : Session σ} (ht : Stands e s t) :
    (∃ u, Stands e s u ∧ u.agenda.commands = [] ∧ e.performAll t = (.ok (), u)) ∨
    ∃ u v c commands f, Stands e s u ∧ u.agenda.commands = c :: commands ∧
      e.step c (pop u commands) = (.error f, v) ∧ e.performAll t = (.error f, v) := by
  -- the cases are those of a command: none is left, it fails, it was the last one, others are left
  fun_induction e.performAll t with
  | case1 t hnone => exact .inl ⟨t, ht, hnone, rfl⟩
  | case2 t c commands hcommands f v hstep =>
    exact .inr ⟨t, v, c, commands, f, ht, hcommands, hstep, rfl⟩
  | case3 t c commands hcommands u hstep hnone =>
    exact .inl ⟨u, ht.onward hcommands hstep, hnone, rfl⟩
  | case4 t c commands hcommands u hstep hmore _ ih => exact ih (ht.onward hcommands hstep)

theorem run_cases (s : Session σ) :
    (∃ f t, begin e s = (.error f, t) ∧ e.run s = (.error f, t)) ∨
    (∃ t u c commands f, Stands e s t ∧ t.agenda.commands = c :: commands ∧
      e.step c (pop t commands) = (.error f, u) ∧ e.run s = (.error f, u)) ∨
    ∃ t, Stands e s t ∧ t.agenda.commands = [] ∧
      e.run s = (.ok (), t.setAgenda { t.agenda with phase := .idle }) := by
  rw [run_eq]
  rcases hbegin : begin e s with ⟨r, t⟩
  cases r with
  | error f => exact .inl ⟨f, t, rfl, Action.bind_of_error hbegin⟩
  | ok _ =>
    right
    rw [Action.bind_of_ok hbegin]
    rcases performAll_cases e (.begun hbegin) with ⟨u, hu, hnone, hperform⟩ |
      ⟨u, v, c, commands, f, hu, hcommands, hstep, hperform⟩
    · rw [Action.bind_of_ok hperform]
      exact .inr ⟨u, hu, hnone, rfl⟩
    · rw [Action.bind_of_error hperform]
      exact .inl ⟨u, v, c, commands, f, hu, hcommands, hstep, rfl⟩

def performWithin : Nat → Session σ → Option (Except Fault Unit × Session σ)
  | 0, _ => none
  | limit + 1, s =>
    match s.agenda.commands with
    | [] => some (.ok (), s)
    | c :: commands =>
      match e.step c (pop s commands) with
      | (.error f, t) => some (.error f, t)
      | (.ok (), t) => performWithin limit t

theorem performAll_of_within {limit : Nat} {s : Session σ}
    {result : Except Fault Unit × Session σ} (h : performWithin e limit s = some result) :
    e.performAll s = result := by
  induction limit generalizing s with
  | zero => cases h
  | succ limit ih =>
    unfold performWithin at h
    cases hcommands : s.agenda.commands with
    | nil =>
      rw [hcommands] at h
      rw [performAll_nil e hcommands]
      exact Option.some.inj h
    | cons c commands =>
      rw [hcommands] at h
      dsimp only at h
      rw [performAll_cons e hcommands]
      generalize e.step c (pop s commands) = stepped at h ⊢
      obtain ⟨r, t⟩ := stepped
      cases r with
      | error f => exact Option.some.inj h
      | ok _ => exact ih h

/-- A run that performs so many commands at most. -/
def runWithin (limit : Nat) (s : Session σ) : Option (Except Fault Unit × Session σ) :=
  match begin e s with
  | (.error f, t) => some (.error f, t)
  | (.ok (), t) =>
    match performWithin e limit t with
    | some (.ok (), u) => some (.ok (), u.setAgenda { u.agenda with phase := .idle })
    | result => result

theorem run_of_within {limit : Nat} {s : Session σ} {result : Except Fault Unit × Session σ}
    (h : runWithin e limit s = some result) : e.run s = result := by
  unfold runWithin at h
  rw [run_eq]
  rcases hbegin : begin e s with ⟨r, t⟩
  rw [hbegin] at h
  cases r with
  | error f =>
    cases h
    exact Action.bind_of_error hbegin
  | ok _ =>
    rw [Action.bind_of_ok hbegin]
    dsimp only at h
    rcases hperform : performWithin e limit t with _ | ⟨r, u⟩
    · rw [hperform] at h
      cases h
    · rw [hperform] at h
      have hall := performAll_of_within e hperform
      cases r with
      | error f =>
        cases h
        exact Action.bind_of_error hall
      | ok _ =>
        cases h
        exact Action.bind_of_ok hall

end Runs

/-! ## Courses -/

/-- How the career of an engine goes on: the jobs that were added, the setting of the run it is in,
its agenda, and the entries of its work. -/
inductive Course (seen : List Setting) :
    List Job → Option Setting → Agenda → List Entry → Prop
  | fresh : Course seen [] none .fresh []
  | queued {jobs : List Job} {a : Agenda} {story : List Entry} {job : Job}
      (h : Course seen jobs none a story) (hbusy : ¬(a.phase = .idle ∧ a.commands = [])) :
      Course seen (jobs ++ [job]) none (a.queue job) (story ++ [.noted app (.queued job)])
  | begun {jobs : List Job} {a b : Agenda} {story news : List Entry} {job : Job} {w : Setting}
      {r : Except Fault Unit} (h : Course seen jobs none a story) (hw : w ∈ seen)
      (hidle : a.phase = .idle) (hcommands : a.commands = [])
      (hnext : Advances (w.setup app config) (a.queue job) news r b) :
      Course seen (jobs ++ [job]) none b (story ++ .noted app (.queued job) :: news)
  | advanced {jobs : List Job} {a b : Agenda} {story news : List Entry} {w : Setting}
      {r : Except Fault Unit} (h : Course seen jobs none a story) (hw : w ∈ seen)
      (hnext : Advances (w.setup app config) a news r b) :
      Course seen jobs none b (story ++ news)
  | held {jobs : List Job} {a : Agenda} {story opening : List Entry}
      (h : Course seen jobs none a story) (hopening : ∀ entry ∈ opening, Within opens entry) :
      Course seen jobs none a (story ++ opening)
  | resumed {jobs : List Job} {a : Agenda} {story opening : List Entry} {w : Setting}
      (h : Course seen jobs none a story) (hw : w ∈ seen) (hcommands : a.commands ≠ [])
      (hopening : ∀ entry ∈ opening, Within opens entry) :
      Course seen jobs (some w) a (story ++ opening)
  | started {jobs : List Job} {a b : Agenda} {story news : List Entry} {w : Setting}
      (h : Course seen jobs none a story) (hw : w ∈ seen)
      (hnext : Advances (w.setup app config) a news (.ok ()) b) :
      Course seen jobs (some w) b (story ++ news)
  | spared {jobs : List Job} {a : Agenda} {story : List Entry} {w : Setting}
      (h : Course seen jobs none a story) (hw : w ∈ seen) (hcommands : a.commands = [])
      (hpending : a.pending = []) : Course seen jobs (some w) a story
  | stepped {jobs : List Job} {a b : Agenda} {story news : List Entry} {w : Setting} {c : Command}
      {commands : List Command} (h : Course seen jobs (some w) a story)
      (hcommands : a.commands = c :: commands)
      (hstep : Steps (w.setup app config) c { a with commands } news (.ok ()) b) :
      Course seen jobs (some w) b (story ++ news)
  | stopped {jobs : List Job} {a b : Agenda} {story news : List Entry} {w : Setting} {c : Command}
      {commands : List Command} {f : Fault} (h : Course seen jobs (some w) a story)
      (hcommands : a.commands = c :: commands)
      (hstep : Steps (w.setup app config) c { a with commands } news (.error f) b) :
      Course seen jobs none b (story ++ news)
  | finished {jobs : List Job} {a : Agenda} {story : List Entry} {w : Setting}
      (h : Course seen jobs (some w) a story) (hcommands : a.commands = []) :
      Course seen jobs none { a with phase := .idle } story

variable {app config}
variable {seen : List Setting} {jobs : List Job} {story : List Entry} {w : Setting}

theorem course_add {s : Session σ} (job : Job)
    (h : Course app config seen jobs none s.agenda story) (hw : w ∈ seen) :
    ∃ news, Adds s ((w.setup app config).add job s).2 news ∧
      Course app config seen (jobs ++ [job]) none ((w.setup app config).add job s).2.agenda
        (story ++ news) := by
  have hadds : Adds s (joining (w.setup app config) job s) [.noted app (.queued job)] :=
    adds_cons rfl
  rw [add_eq]
  by_cases hidle : s.agenda.phase = .idle ∧ s.agenda.commands = []
  · rw [if_pos hidle]
    obtain ⟨news, hnews, hnext⟩ := realizes_next (w.setup app config) (joining _ job s)
    exact ⟨_, hadds.trans hnews, .begun h hw hidle.1 hidle.2 hnext⟩
  · rw [if_neg hidle]
    exact ⟨_, hadds, .queued h hidle⟩

theorem course_next {s : Session σ} (h : Course app config seen jobs none s.agenda story)
    (hw : w ∈ seen) :
    ∃ news, Adds s ((w.setup app config).next s).2 news ∧
      Course app config seen jobs none ((w.setup app config).next s).2.agenda (story ++ news) := by
  obtain ⟨news, hnews, hnext⟩ := realizes_next (w.setup app config) s
  exact ⟨news, hnews, .advanced h hw hnext⟩

theorem course_begin {s : Session σ} (h : Course app config seen jobs none s.agenda story)
    (hw : w ∈ seen) :
    ∃ news, Adds s (begin (w.setup app config) s).2 news ∧
      Course app config seen jobs none (begin (w.setup app config) s).2.agenda (story ++ news) ∧
      ((begin (w.setup app config) s).1 = .ok () →
        Course app config seen jobs (some w) (begin (w.setup app config) s).2.agenda
          (story ++ news)) := by
  unfold begin
  by_cases hcommands : s.agenda.commands = []
  · rw [if_neg (by simp [hcommands])]
    by_cases hpending : s.agenda.pending = []
    · rw [if_neg (by simp [hpending])]
      refine ⟨[], adds_of_journal_eq rfl, ?_, fun _ => ?_⟩
      · rw [List.append_nil]
        exact h
      · rw [List.append_nil]
        exact .spared h hw hcommands hpending
    · rw [if_pos hpending]
      obtain ⟨news, hnews, hnext⟩ := realizes_next (w.setup app config) s
      refine ⟨news, hnews, .advanced h hw hnext, fun hok => ?_⟩
      rw [hok] at hnext
      exact .started h hw hnext
  · rw [if_pos hcommands]
    obtain ⟨r, t, opening, ht, hadds, hagenda, hopening, -⟩ :=
      adds_onStage (footprint_ensureOpen (w.setup app config)) s
    rw [ht]
    refine ⟨opening, hadds, ?_, fun _ => ?_⟩
    · rw [hagenda]
      exact .held h hopening
    · rw [hagenda]
      exact .resumed h hw hcommands hopening

theorem course_stands {s t : Session σ} (h : Course app config seen jobs none s.agenda story)
    (hw : w ∈ seen) (ht : Stands (w.setup app config) s t) :
    ∃ news, Adds s t news ∧ Course app config seen jobs (some w) t.agenda (story ++ news) := by
  induction ht with
  | begun hbegin =>
    obtain ⟨news, hnews, -, hcourse⟩ := course_begin h hw
    rw [hbegin] at hnews hcourse
    exact ⟨news, hnews, hcourse rfl⟩
  | @onward t u c commands _ hcommands hstep ih =>
    obtain ⟨old, hold, hcourse⟩ := ih
    obtain ⟨news, hnews, hsteps⟩ := steps_of_pop (w.setup app config) hstep
    refine ⟨_, hold.trans hnews, ?_⟩
    rw [← List.append_assoc]
    exact .stepped hcourse hcommands hsteps

theorem course_run {s : Session σ} (h : Course app config seen jobs none s.agenda story)
    (hw : w ∈ seen) :
    ∃ news, Adds s ((w.setup app config).run s).2 news ∧
      Course app config seen jobs none ((w.setup app config).run s).2.agenda (story ++ news) := by
  rcases run_cases (w.setup app config) s with ⟨f, t, hbegin, hrun⟩ |
    ⟨t, u, c, commands, f, ht, hcommands, hstep, hrun⟩ | ⟨t, ht, hcommands, hrun⟩
  · obtain ⟨news, hnews, hcourse, -⟩ := course_begin h hw
    rw [hbegin] at hnews hcourse
    rw [hrun]
    exact ⟨news, hnews, hcourse⟩
  · obtain ⟨old, hold, hcourse⟩ := course_stands h hw ht
    obtain ⟨news, hnews, hsteps⟩ := steps_of_pop (w.setup app config) hstep
    rw [hrun]
    refine ⟨_, hold.trans hnews, ?_⟩
    rw [← List.append_assoc]
    exact .stopped hcourse hcommands hsteps
  · obtain ⟨news, hnews, hcourse⟩ := course_stands h hw ht
    rw [hrun]
    exact ⟨news, hnews, .finished hcourse hcommands⟩

theorem course_serve {s : Session σ} (request : Request)
    (h : Course app config seen jobs none s.agenda story) (hw : w ∈ seen) :
    ∃ news, Adds s (serve (w.setup app config) request s).2 news ∧
      Course app config seen (jobs ++ request.jobs) none
        (serve (w.setup app config) request s).2.agenda (story ++ news) := by
  cases request with
  | add job => exact course_add job h hw
  | next =>
    rw [Request.jobs, List.append_nil]
    exact course_next h hw
  | run =>
    rw [Request.jobs, List.append_nil]
    exact course_run h hw

theorem course_career (app : String) (config : Config) (turns : List (Turn σ))
    (hseen : ∀ turn ∈ turns, turn.setting ∈ seen) :
    Course app config seen (submitted turns) none (career app config turns).engine.agenda
      (career app config turns).story := by
  induction turns using List.reverseRecOn with
  | nil => exact .fresh
  | append_singleton turns turn ih =>
    have h := ih fun turn hturn => hseen turn (List.mem_append_left _ hturn)
    have hw : turn.setting ∈ seen := hseen turn (by simp)
    let past := career app config turns
    let t := (serve (turn.setting.setup app config) turn.request ⟨past.engine, turn.stage⟩).2
    obtain ⟨news, hnews, hcourse⟩ :=
      course_serve (s := ⟨past.engine, turn.stage⟩) turn.request h hw
    have hsince : since turn.stage t.stage = news := since_of_adds hnews
    have hcareer : career app config (turns ++ [turn]) = ⟨t.engine, past.story ++ news⟩ := by
      rw [← hsince, career, List.foldl_append]
      rfl
    have hjobs : submitted (turns ++ [turn]) = submitted turns ++ turn.request.jobs := by
      simp [submitted]
    rw [hcareer, hjobs]
    exact hcourse

theorem course_of_turns (app : String) (config : Config) (turns : List (Turn σ)) :
    Course app config (turns.map (·.setting)) (submitted turns) none
      (career app config turns).engine.agenda (career app config turns).story :=
  course_career app config turns fun _ hturn => List.mem_map_of_mem hturn

/-! ## A career to rehearse -/

def small : Catalog where
  operations := .ofList [("pay", ⟨.active, "bank", [okAttribute]⟩)]
  inputs := ⟨[appAttribute, actionAttribute]⟩

/-- A configuration that hardly waits and tries little. -/
def hasty : Config :=
  { Config.standard with
    mappingRoot := "m"
    launchGrace := 0
    openTimeout := 2
    closeTimeout := 2
    windowPollInterval := 1
    colorAttempts := 1
    stepPause := 0
    maxRetries := 2
    catalog := small }

def errand : Job :=
  ⟨.ofAttrs (.ofList [("Action", .text "pay"), ("App", .text "app")]), ""⟩

def bare : Setting := ⟨.empty, .empty, ⟨2024, 1, 1, by decide⟩⟩

def stageWith (shows appears : Bool) : Stage Rehearsal :=
  .fresh { Rehearsal.blank with windows := .ofList [("app", .scripted
    ⟨⟨0, 0, 1000, 1000⟩, shows, 0, false, false, !appears, 0⟩)] } (.free 30000 1 60000)

def errandAdded (w : Setting) : List (Turn Rehearsal) := [⟨.add errand, w, stageWith true true⟩]

end Playback.Proofs.Career
