import Playback.Registry
import Playback.Proofs.Queue
import Playback.Proofs.Story
/-!
# Submitting a job

A job joins the queue before its application is started. If the start fails the submission fails,
but the job stays where it is with all its commands, and the next run on an open application
performs it like any other. So a submission is all or nothing only where it does not fail at all,
and it fails exactly for an engine without work whose application cannot be started.
-/

namespace Playback.Proofs.Submission

open Footprints Launching Moves Career Queue Story

variable {σ : Type}

/-- Entries of work for the first job: a command is dispatched, or its results are delivered. -/
def Works : Entry → Prop
  | .noted _ (.dispatched _) => True
  | .called (.deliver _) _ => True
  | _ => False

/-- Something is done for the job in a story that begins with this queue. -/
inductive Served (job : Job) : List Job → List Entry → Prop
  | now {queue : List Job} {entry : Entry} {story : List Entry} (hhead : queue.head? = some job)
      (hworks : Works entry) : Served job queue (entry :: story)
  | later {queue : List Job} {entry : Entry} {story : List Entry}
      (h : Served job (advance queue entry) story) : Served job queue (entry :: story)

theorem served_of_dispatched {job : Job} {queue : List Job} {opening story : List Entry}
    {app : String} {c : Command} (hopening : ∀ entry ∈ opening, Still entry)
    (hhead : queue.head? = some job) :
    Served job queue (opening ++ .noted app (.dispatched c) :: story) := by
  induction opening with
  | nil => exact .now hhead trivial
  | cons entry rest ih =>
    apply Served.later
    rw [advance_of_still (hopening entry List.mem_cons_self)]
    exact ih fun e he => hopening e (List.mem_cons_of_mem _ he)

variable [Desk σ]

def storyFrom (e : Setup) (engine : Engine) (turns : List (Turn σ)) : List Entry :=
  (turns.foldl (Past.turn e.app e.config) ⟨engine, []⟩).story

/-- A submission that fails leaves no trace of the job: it does not stay in the queue, and no later
run does anything for it. -/
def AllOrNothing (e : Setup) (job : Job) (s : Session σ) : Prop :=
  ∀ f t, e.add job s = (.error f, t) →
    job ∉ t.agenda.pending ∧
    ∀ later : List (Turn σ), (∀ turn ∈ later, turn.request = .run) →
      ¬ Served job t.agenda.pending (storyFrom e t.engine later)

def announced (e : Setup) (job : Job) (x : Expansion) (stage : Stage σ) : Stage σ :=
  (stage.record (noted e (.queued job))).record (noted e (.expanded job x.commands))

/-- The engine has nothing to do, the job can be expanded, and the application cannot be started. -/
def Unlaunched (e : Setup) (job : Job) (s : Session σ) (x : Expansion) (f : Fault) : Prop :=
  s.agenda.phase = .idle ∧ e.expand s.agenda.history job = .ok x ∧
    (e.ensureOpen (announced e job x s.stage)).1 = .error f

/-- What a submission that failed leaves behind: the job with all its commands, the first of which
the next run on an open application performs. -/
structure Kept (e : Setup) (job : Job) (s t : Session σ) (f : Fault) : Prop where
  pending_eq : t.agenda.pending = [job]
  commands_eq : ∃ x, Unlaunched e job s x f ∧ t.agenda.commands = x.commands
  served : ∀ (w : Setting) (stage u : Stage σ),
    (w.setup e.app e.config).ensureOpen stage = (.ok (), u) → u.aborted = false →
      Served job t.agenda.pending (storyFrom e t.engine [⟨.run, w, stage⟩])

/-! ## Adding a job -/

section Adding

variable (e : Setup) (job : Job) {s : Session σ}

def begun (a : Agenda) (x : Expansion) : Agenda :=
  { a with
    phase := .running
    commands := x.commands
    pending := [job]
    history := Agenda.remember a.history x.operation }

omit [Desk σ] in
theorem pending_joining (hpending : s.agenda.pending = []) :
    (joining e job s).agenda.pending = [job] := by
  show s.agenda.pending ++ [job] = [job]
  rw [hpending, List.nil_append]

theorem add_of_busy (hphase : s.agenda.phase ≠ .idle) : (e.add job s).1 = .ok () := by
  rw [add_eq, if_neg fun hidle => hphase hidle.1]

/-- A job that cannot be expanded is given up at once, and nothing is started for it. -/
theorem add_of_error {f : Fault} (hpending : s.agenda.pending = [])
    (hexpand : e.expand s.agenda.history job = .error f) : (e.add job s).1 = .ok () := by
  rw [add_eq]
  split
  · have hqueue := pending_joining e job hpending
    obtain ⟨news, -, hnext⟩ := realizes_next e (joining e job s)
    rcases heq : e.next (joining e job s) with ⟨r, t⟩
    rw [heq] at hnext
    dsimp only at hnext ⊢
    generalize t.agenda = b at hnext
    cases hnext with
    | idle => rfl
    | found hjob hok =>
      rw [hqueue, List.cons.injEq] at hjob
      rw [← hjob.1] at hok
      exact absurd (hexpand.symm.trans hok) (by simp)
    | dropped hjob _ hrest =>
      have hnil := pending_of_dropFirst hqueue
      cases hrest with
      | idle => rfl
      | found hjob => exact absurd (hnil.symm.trans hjob) (List.cons_ne_nil _ _).symm
      | dropped hjob => exact absurd (hnil.symm.trans hjob) (List.cons_ne_nil _ _).symm
  · rfl

theorem add_of_ok {x : Expansion} (hphase : s.agenda.phase = .idle)
    (hcommands : s.agenda.commands = []) (hpending : s.agenda.pending = [])
    (hexpand : e.expand s.agenda.history job = .ok x) :
    e.add job s = ((e.ensureOpen (announced e job x s.stage)).1,
      ⟨⟨begun job s.agenda x, s.engine.memory⟩,
        (e.ensureOpen (announced e job x s.stage)).2⟩) := by
  have hqueue := pending_joining e job hpending
  have hload := load_of_ok e.expand hqueue hexpand
  have hbegun : begun job s.agenda x = { (joining e job s).agenda with
      phase := .running
      commands := x.commands
      history := Agenda.remember (joining e job s).agenda.history x.operation } := by
    rw [begun, ← hqueue]
    rfl
  rw [add_eq, if_pos ⟨hphase, hcommands⟩, next_eq, hload, ← hbegun]
  rfl

end Adding

/-! ## Running afterwards -/

theorem adds_performAll (e : Setup) (s : Session σ) :
    ∃ news, Adds s (e.performAll s).2 news := by
  fun_induction e.performAll s with
  | case1 s hnone => exact ⟨[], adds_of_journal_eq rfl⟩
  | case2 s c commands hcommands f t hstep =>
    obtain ⟨news, hnews, -⟩ := steps_of_pop e hstep
    exact ⟨news, hnews⟩
  | case3 s c commands hcommands t hstep hnone =>
    obtain ⟨news, hnews, -⟩ := steps_of_pop e hstep
    exact ⟨news, hnews⟩
  | case4 s c commands hcommands t hstep hmore _ ih =>
    obtain ⟨news, hnews, -⟩ := steps_of_pop e hstep
    obtain ⟨later, hlater⟩ := ih
    exact ⟨news ++ later, hnews.trans hlater⟩

theorem dispatched_of_performAll (e : Setup) {s : Session σ} {c : Command}
    {commands : List Command} (hcommands : s.agenda.commands = c :: commands)
    (hrunning : s.stage.aborted = false) :
    ∃ rest, Adds s (e.performAll s).2 (noted e (.dispatched c) :: rest) := by
  obtain ⟨first, hfirst⟩ := adds_step e (s := pop s commands) c hrunning
  have hfirst : Adds s (e.step c (pop s commands)).2 (noted e (.dispatched c) :: first) := hfirst
  rw [performAll_cons e hcommands]
  generalize e.step c (pop s commands) = stepped at hfirst ⊢
  obtain ⟨r, t⟩ := stepped
  cases r with
  | error f => exact ⟨first, hfirst⟩
  | ok _ =>
    obtain ⟨later, hlater⟩ := adds_performAll e t
    exact ⟨first ++ later, hfirst.trans hlater⟩

theorem dispatched_of_run (e : Setup) {s : Session σ} {t : Stage σ} {c : Command}
    {commands : List Command} (hcommands : s.agenda.commands = c :: commands)
    (hopen : e.ensureOpen s.stage = (.ok (), t)) (hrunning : t.aborted = false) :
    ∃ opening rest, (∀ entry ∈ opening, Within opens entry) ∧
      Adds s (e.run s).2 (opening ++ noted e (.dispatched c) :: rest) := by
  obtain ⟨opening, hopening⟩ := footprint_ensureOpen e s.stage
  rw [hopen] at hopening
  let u : Session σ := { s with stage := t }
  have hbegin : begin e s = (.ok (), u) := by
    simp only [begin, hcommands, ne_eq, reduceCtorEq, not_false_eq_true, if_true, Session.onStage,
      hopen, u]
  obtain ⟨rest, hnews⟩ := dispatched_of_performAll e (s := u) hcommands hrunning
  have hadds : Adds s u opening := hopening.adds
  refine ⟨opening, rest, hopening.within, ?_⟩
  rw [run_eq, Action.bind_of_ok hbegin]
  rcases hperform : e.performAll u with ⟨r, v⟩
  rw [hperform] at hnews
  cases r with
  | error f =>
    rw [Action.bind_of_error hperform]
    exact hadds.trans hnews
  | ok _ =>
    rw [Action.bind_of_ok hperform]
    exact hadds.trans hnews

/-! ## Submitting -/

theorem kept_of_unlaunched {e : Setup} {job : Job} {s t : Session σ} {x : Expansion} {f : Fault}
    (h : Unlaunched e job s x f) (hpending : t.agenda.pending = [job])
    (hcommands : t.agenda.commands = x.commands) : Kept e job s t f := by
  refine ⟨hpending, ⟨x, h, hcommands⟩, fun w stage u hopen hrunning => ?_⟩
  obtain ⟨feature, recorded, -, -, -, hx⟩ := commands_of_expand h.2.1
  rw [List.cons_append] at hx
  let s' : Session σ := ⟨t.engine, stage⟩
  obtain ⟨opening, rest, hopening, hadds⟩ := dispatched_of_run (w.setup e.app e.config) (s := s')
    (hcommands.trans hx) hopen hrunning
  have hstory : storyFrom e t.engine [⟨.run, w, stage⟩] =
      opening ++ noted (w.setup e.app e.config) (.dispatched (.paramChange (e.params job
        x.operation))) :: rest :=
    since_of_adds hadds
  rw [hstory, hpending]
  apply served_of_dispatched _ rfl
  intro entry hentry
  exact (hopening entry hentry).cases (fun _ _ _ => trivial) fun _ _ => trivial

theorem kept_of_add {e : Setup} {job : Job} {s t : Session σ} {f : Fault}
    (hidle : s.agenda.phase = .idle → s.agenda.pending = [] ∧ s.agenda.commands = [])
    (hadd : e.add job s = (.error f, t)) : Kept e job s t f := by
  have herror : (e.add job s).1 = .error f := by rw [hadd]
  by_cases hphase : s.agenda.phase = .idle
  · obtain ⟨hpending, hcommands⟩ := hidle hphase
    cases hexpand : e.expand s.agenda.history job with
    | error g =>
      rw [add_of_error e job hpending hexpand] at herror
      cases herror
    | ok x =>
      have heq := add_of_ok e job hphase hcommands hpending hexpand
      rw [heq, Prod.mk.injEq] at hadd
      obtain ⟨hopen, rfl⟩ := hadd
      exact kept_of_unlaunched ⟨hphase, hexpand, hopen⟩ rfl rfl
  · rw [add_of_busy e job hphase] at herror
    cases herror

theorem submit_of_route (e : Setup) (job : Job) {registry : Registry} {engine : Engine}
    (stage : Stage σ) (hroute : registry.route job = .ok e.app)
    (hengine : registry.engines.get? e.app = some engine) :
    Registry.submit e job (registry, stage) = ((e.add job ⟨engine, stage⟩).1,
      ⟨registry.engines.insert e.app (e.add job ⟨engine, stage⟩).2.engine⟩,
      (e.add job ⟨engine, stage⟩).2.stage) := by
  let start : Registry × Stage σ := (registry, stage)
  have hrouted : (fun s : Registry × Stage σ => (s.1.route job, s)) start = (.ok e.app, start) :=
    congrArg (·, start) hroute
  refine (Action.bind_of_ok hrouted).trans ?_
  unfold Registry.onEngine
  rw [show start.1.engines.get? e.app = some engine from hengine]
  rfl

/-- A submission is all or nothing exactly if it does not come to an application that cannot be
started. If it does, the submission fails and the job is kept. -/
theorem allOrNothing_iff (app : String) (config : Config) (turns : List (Turn σ)) (w : Setting)
    (stage : Stage σ) (job : Job) :
    let e := w.setup app config
    let s : Session σ := ⟨(career app config turns).engine, stage⟩
    (AllOrNothing e job s ↔ ∀ x f, ¬ Unlaunched e job s x f) ∧
    (∀ f t, e.add job s = (.error f, t) → Kept e job s t f) ∧
    ∀ registry : Registry, registry.route job = .ok app →
      registry.engines.get? app = some s.engine →
        Registry.submit e job (registry, stage) = ((e.add job s).1,
          ⟨registry.engines.insert app (e.add job s).2.engine⟩, (e.add job s).2.stage) := by
  intro e s
  have horderly := (orderly_of_course (course_of_turns app config turns)).1
  have hidle : s.agenda.phase = .idle → s.agenda.pending = [] ∧ s.agenda.commands = [] := by
    intro hphase
    have hpending := horderly.idle_iff.1 hphase
    exact ⟨hpending, horderly.commands_eq hpending⟩
  refine ⟨⟨fun hall x f hunlaunched => ?_, fun hlaunched f t hadd => ?_⟩,
    fun f t hadd => kept_of_add hidle hadd, fun registry => submit_of_route e job stage⟩
  · obtain ⟨hphase, hexpand, hopen⟩ := hunlaunched
    have hadd := add_of_ok e job hphase (hidle hphase).2 (hidle hphase).1 hexpand
    rw [hopen] at hadd
    exact (hall f _ hadd).1 List.mem_cons_self
  · obtain ⟨x, hunlaunched, -⟩ := (kept_of_add hidle hadd).commands_eq
    exact absurd hunlaunched (hlaunched x f)

/-! ## A submission that fails and is performed -/

def delivers : Entry → Bool
  | .called (.deliver _) _ => true
  | _ => false

def rejection : Except Fault Unit × Session Rehearsal :=
  (bare.setup "app" hasty).add errand ⟨.fresh, stageWith false false⟩

theorem rejection_fst : rejection.1 = .error (.windowNotFound
    "app did not appear within 2ms of launching app.lnk") := by
  decide +kernel

theorem pending_rejection : rejection.2.agenda.pending = [errand] := by
  decide +kernel

theorem run_after_rejection :
    (runWithin (bare.setup "app" hasty) 3 ⟨rejection.2.engine, stageWith true false⟩).map
      (fun r => (r.1, r.2.stage.journal.any delivers)) = some (.ok (), true) := by
  decide +kernel

/-- The submission failed, but the results of the job are delivered. -/
theorem rejected_errand_delivered :
    let e := bare.setup "app" hasty
    ¬ AllOrNothing e errand ⟨.fresh, stageWith false false⟩ ∧
    ∃ f t u, e.add errand ⟨.fresh, stageWith false false⟩ = (.error f, t) ∧
      t.agenda.pending = [errand] ∧ e.run ⟨t.engine, stageWith true false⟩ = (.ok (), u) ∧
      u.stage.journal.any delivers = true := by
  intro e
  have hfails := rejection_fst
  have hpending := pending_rejection
  have hrun := run_after_rejection
  generalize hrejection : rejection = outcome at hfails hpending hrun
  obtain ⟨r, t⟩ := outcome
  dsimp only at hfails hpending hrun
  subst hfails
  obtain ⟨⟨r, u⟩, hwithin, hresult⟩ := Option.map_eq_some_iff.1 hrun
  rw [Prod.mk.injEq] at hresult
  obtain ⟨rfl, hdelivers⟩ := hresult
  refine ⟨fun hall => ?_, _, t, u, hrejection, hpending, run_of_within e hwithin, hdelivers⟩
  apply (hall _ t hrejection).1
  rw [hpending]
  exact List.mem_cons_self

end Playback.Proofs.Submission
