import Playback.Engine.Run
import Playback.Proofs.Launching
import Playback.Proofs.Performing
/-!
# Moves of an agenda

What the steps of an engine do to its agenda, together with the entries they add to the journal.
Each relation lists every way a step can go; the theorems at the end of a section say that the step
goes one of these ways, so that nothing later opens the steps themselves.
-/

namespace Playback.Proofs.Moves

open Effects Footprints Launching Performing

variable {σ : Type}

instance : Journaled (Session σ) := ⟨fun s => s.stage.journal⟩

def noted (e : Setup) (n : Note) : Entry := .noted e.app n

def signalled (e : Setup) : Entry := .called (.signal e.app) (.ok ())

/-- The first of these jobs leaves the queue; the last one to leave is followed by the signal. -/
def departure (e : Setup) (n : Job → Note) : List Job → List Entry
  | [] => [signalled e]
  | [job] => [noted e (n job), signalled e]
  | job :: _ :: _ => [noted e (n job)]

theorem departure_cons (e : Setup) (n : Job → Note) {jobs : List Job} {job : Job}
    (h : jobs.head? = some job) : ∃ signal, departure e n jobs = noted e (n job) :: signal := by
  match jobs with
  | [first] =>
    cases h
    exact ⟨_, rfl⟩
  | first :: _ :: _ =>
    cases h
    exact ⟨_, rfl⟩

theorem mem_departure {e : Setup} {n : Job → Note} {jobs : List Job} {entry : Entry}
    (h : entry ∈ departure e n jobs) : (∃ job, entry = noted e (n job)) ∨ entry = signalled e := by
  match jobs with
  | [] => exact .inr (List.mem_singleton.1 h)
  | [job] =>
    simp only [departure, List.mem_cons, List.not_mem_nil, or_false] at h
    exact h.imp_left fun h => ⟨job, h⟩
  | job :: _ :: _ => exact .inl ⟨job, List.mem_singleton.1 h⟩

/-- What holds of the notes and of the signal holds of every entry of a departure. -/
theorem forall_mem_departure {P : Entry → Prop} {e : Setup} {n : Job → Note}
    (hnote : ∀ job, P (noted e (n job))) (hsignal : P (signalled e)) (jobs : List Job) :
    ∀ entry ∈ departure e n jobs, P entry := by
  intro entry hentry
  rcases mem_departure hentry with ⟨job, rfl⟩ | rfl
  · exact hnote job
  · exact hsignal

theorem filterMap_departure {β : Type} {select : Entry → Option β} {e : Setup} {n : Job → Note}
    (hnote : ∀ job, select (noted e (n job)) = none) (hsignal : select (signalled e) = none)
    (jobs : List Job) : (departure e n jobs).filterMap select = [] :=
  List.filterMap_eq_nil_iff.2
    (forall_mem_departure (P := fun entry => select entry = none) hnote hsignal jobs)

/-- Going on to the next job that can be expanded. -/
inductive Advances (e : Setup) : Agenda → List Entry → Except Fault Unit → Agenda → Prop
  | idle {a : Agenda} (hpending : a.pending = []) :
      Advances e a [] (.ok ()) { a with phase := .idle, commands := [] }
  | found {a : Agenda} {job : Job} {rest : List Job} {x : Expansion} {opening : List Entry}
      {r : Except Fault Unit} (hpending : a.pending = job :: rest)
      (hexpand : e.expand a.history job = .ok x)
      (hopening : ∀ entry ∈ opening, Within opens entry) (hblame : Blamed LaunchFault r opening) :
      Advances e a (noted e (.expanded job x.commands) :: opening) r
        { a with
          phase := .running
          commands := x.commands
          history := Agenda.remember a.history x.operation }
  | dropped {a b : Agenda} {job : Job} {rest : List Job} {f : Fault} {news : List Entry}
      {r : Except Fault Unit} (hpending : a.pending = job :: rest)
      (hexpand : e.expand a.history job = .error f) (hnext : Advances e a.dropFirst news r b) :
      Advances e a (departure e (.abandoned · f) a.pending ++ news) r b

/-- What follows the outcome of a command. -/
inductive Follows (e : Setup) (c : Command) (a : Agenda) :
    Except Fault Unit → List Entry → Except Fault Unit → Agenda → Prop
  | onward (hc : ∀ params, c ≠ .webhook params) : Follows e c a (.ok ()) [] (.ok ()) a
  | retired {params : Dict Answer} {news : List Entry} {r : Except Fault Unit} {b : Agenda}
      (hc : c = .webhook params)
      (hnext : Advances e { a.dropFirst with phase := .awaiting } news r b) :
      Follows e c a (.ok ()) (departure e .retired a.pending ++ news) r b
  | cut {f : Fault} (hf : f.isCancelled = true) : Follows e c a (.error f) [] (.error f) a
  | abandoned {f : Fault} {news : List Entry} {r : Except Fault Unit} {b : Agenda}
      (hf : f.isCancelled = false)
      (hlimit : f.retryable = true → e.config.maxRetries ≤ a.retries + 1)
      (hnext : Advances e a.dropFirst news r b) :
      Follows e c a (.error f) (departure e (.abandoned · f) a.pending ++ news) r b
  | stuck {f g : Fault} {news : List Entry} (hf : f.retryable = true)
      (hlimit : a.retries + 1 < e.config.maxRetries)
      (hnews : ∀ entry ∈ news, Within reopens entry)
      (hblame : Blamed LaunchFault (.error g : Except Fault Unit) news) :
      Follows e c a (.error f) (noted e (.retrying (a.retries + 1)) :: news) (.error g)
        a.beginAgain
  | begunAgain {f : Fault} {relaunch news : List Entry} {r : Except Fault Unit} {b : Agenda}
      (hf : f.retryable = true) (hlimit : a.retries + 1 < e.config.maxRetries)
      (hrelaunch : ∀ entry ∈ relaunch, Within reopens entry)
      (hnext : Advances e a.beginAgain news r b) :
      Follows e c a (.error f) (noted e (.retrying (a.retries + 1)) :: relaunch ++ news) r b

def waits : Call → Bool
  | .wait _ => true
  | _ => false

/-- Performing a command that was taken off the agenda. -/
inductive Steps (e : Setup) (c : Command) (a : Agenda) :
    List Entry → Except Fault Unit → Agenda → Prop
  | refused {f : Fault} (hf : f.isCancelled = true) : Steps e c a [] (.error f) a
  | performed {work news pause : List Entry} {outcome r r' : Except Fault Unit} {b : Agenda}
      (hwork : Performs c work outcome) (hfollow : Follows e c a outcome news r b)
      (hpause : ∀ entry ∈ pause, Within waits entry) (hr : r' = .ok () → r = .ok ()) :
      Steps e c a (noted e (.dispatched c) :: work ++ noted e (.performed c outcome) :: news
        ++ pause) r' b

def Realizes (R : Agenda → List Entry → Except Fault Unit → Agenda → Prop)
    (x : Action (Session σ) Unit) : Prop :=
  ∀ s, ∃ news, Adds s (x s).2 news ∧ R s.agenda news (x s).1 (x s).2.agenda

/-! ## Going on to the next job -/

theorem pending_of_dropFirst {a : Agenda} {job : Job} {rest : List Job}
    (h : a.pending = job :: rest) : a.dropFirst.pending = rest := by
  rw [Agenda.dropFirst, h, List.tail_cons]

theorem load_of_nil (expand : List String → Job → Except Fault Expansion) {a : Agenda}
    (h : a.pending = []) :
    a.load expand = ([], none, { a with phase := .idle, commands := [] }) := by
  cases a
  subst h
  rfl

theorem load_of_ok (expand : List String → Job → Except Fault Expansion) {a : Agenda} {job : Job}
    {rest : List Job} {x : Expansion} (h : a.pending = job :: rest)
    (hx : expand a.history job = .ok x) :
    a.load expand = ([], some (job, x),
      { a with
        phase := .running
        commands := x.commands
        history := Agenda.remember a.history x.operation }) := by
  simp [Agenda.load, Agenda.seek, h, hx]

theorem load_of_error (expand : List String → Job → Except Fault Expansion) {a : Agenda} {job : Job}
    {rest : List Job} {f : Fault} (h : a.pending = job :: rest)
    (hf : expand a.history job = .error f) :
    a.load expand = ((job, f) :: (a.dropFirst.load expand).1, (a.dropFirst.load expand).2) := by
  simp only [Agenda.load, Agenda.dropFirst, Agenda.seek, h, hf, List.tail_cons]
  cases (Agenda.seek (expand a.history) rest).2 <;> simp

theorem isEmpty_of_load_none {expand : List String → Job → Except Fault Expansion} {a b : Agenda}
    {dropped : List (Job × Fault)} (h : a.load expand = (dropped, none, b)) :
    dropped.isEmpty = a.pending.isEmpty := by
  cases hp : a.pending with
  | nil =>
    rw [load_of_nil expand hp] at h
    cases h
    rfl
  | cons job rest =>
    cases hx : expand a.history job with
    | ok x =>
      rw [load_of_ok expand hp hx] at h
      cases h
    | error f =>
      rw [load_of_error expand hp hx, Prod.mk.injEq] at h
      rw [← h.1]
      rfl

def droppedEntries (e : Setup) (dropped : List (Job × Fault)) : List Entry :=
  dropped.map fun d => noted e (.abandoned d.1 d.2)

/-- Jobs that cannot be expanded leave one after the other. -/
theorem advances_of_load (e : Setup) (jobs : List Job) :
    ∀ a : Agenda, a.pending = jobs →
      match a.load e.expand with
      | (dropped, some (job, x), b) =>
        ∀ opening r, (∀ entry ∈ opening, Within opens entry) → Blamed LaunchFault r opening →
          Advances e a (droppedEntries e dropped ++ noted e (.expanded job x.commands) :: opening)
            r b
      | (dropped, none, b) =>
        Advances e a (droppedEntries e dropped ++ if dropped.isEmpty then [] else [signalled e])
          (.ok ()) b := by
  -- on the queue, as every job that is dropped shortens it
  induction jobs with
  | nil =>
    intro a ha
    rw [load_of_nil e.expand ha]
    exact .idle ha
  | cons job rest ih =>
    intro a ha
    cases hx : e.expand a.history job with
    | ok x =>
      rw [load_of_ok e.expand ha hx]
      intro opening r hopening hblame
      exact .found ha hx hopening hblame
    | error f =>
      have hdrop := pending_of_dropFirst ha
      rw [load_of_error e.expand ha hx]
      cases rest with
      | nil =>
        rw [load_of_nil e.expand hdrop]
        simpa [departure, ha, droppedEntries] using Advances.dropped ha hx (.idle hdrop)
      | cons next more =>
        have hrest := ih a.dropFirst hdrop
        rcases hload : a.dropFirst.load e.expand with ⟨dropped, found, b⟩
        rw [hload] at hrest
        cases found with
        | some found =>
          intro opening r hopening hblame
          have hnext := Advances.dropped ha hx (hrest opening r hopening hblame)
          simpa [departure, ha, droppedEntries] using hnext
        | none =>
          have hdropped : dropped.isEmpty = false := by
            rw [isEmpty_of_load_none hload, hdrop]
            rfl
          have hnext := Advances.dropped ha hx hrest
          simpa [departure, ha, droppedEntries, hdropped] using hnext

section Sessions

variable [Desk σ] (e : Setup)

omit [Desk σ] in
theorem adds_note (n : Note) (s : Session σ) :
    ∃ t, e.note n s = (.ok (), t) ∧ Adds s t [noted e n] ∧ t.agenda = s.agenda :=
  ⟨_, rfl, adds_cons rfl, rfl⟩

omit [Desk σ] in
theorem onStage_eq {α : Type} {x : Action (Stage σ) α} {s : Session σ} {r : Except Fault α}
    {stage : Stage σ} (h : x s.stage = (r, stage)) :
    Session.onStage x s = (r, ⟨s.engine, stage⟩) := by
  simp only [Session.onStage, h]

omit [Desk σ] in
theorem adds_onStage {x : Action (Stage σ) Unit} {kind : Call → Bool} {own : Fault → Prop}
    (hx : Footprint kind own x) (s : Session σ) :
    ∃ r t news, Session.onStage x s = (r, t) ∧ Adds s t news ∧ t.agenda = s.agenda ∧
      (∀ entry ∈ news, Within kind entry) ∧ Blamed own r news := by
  obtain ⟨news, hnews⟩ := hx s.stage
  exact ⟨_, _, news, rfl, hnews.adds, rfl, hnews.within, hnews.blame⟩

theorem adds_signal (s : Session σ) :
    ∃ t, e.signal s = (.ok (), t) ∧ Adds s t [signalled e] ∧ t.agenda = s.agenda := by
  have hcall : Stage.call (.signal e.app) s.stage = (.ok (), s.stage.afterCall (.signal e.app)) :=
    rfl
  refine ⟨{ s with stage := s.stage.afterCall (.signal e.app) }, ?_, ?_, rfl⟩
  · simp only [Setup.signal, Session.onStage, hcall]
  · exact adds_cons (journal_afterCall s.stage (.signal e.app))

omit [Desk σ] in
theorem adds_noteDropped (dropped : List (Job × Fault)) (s : Session σ) :
    ∃ t, e.noteDropped dropped s = (.ok (), t) ∧ Adds s t (droppedEntries e dropped) ∧
      t.agenda = s.agenda := by
  induction dropped generalizing s with
  | nil => exact ⟨s, rfl, adds_of_journal_eq rfl, rfl⟩
  | cons d rest ih =>
    obtain ⟨job, f⟩ := d
    obtain ⟨t, ht, hadds, hagenda⟩ := adds_note e (.abandoned job f) s
    obtain ⟨u, hu, hadds', hagenda'⟩ := ih t
    refine ⟨u, ?_, hadds.trans hadds', hagenda'.trans hagenda⟩
    rw [Setup.noteDropped, Action.bind_of_ok ht, hu]

def announce (l : List (Job × Fault) × Option (Job × Expansion) × Agenda) :
    Action (Session σ) Unit := do
  e.noteDropped l.1
  match l.2.1 with
  | some (job, x) =>
    e.note (.expanded job x.commands)
    Session.onStage e.ensureOpen
  | none => if l.1.isEmpty then pure () else e.signal

theorem next_eq (s : Session σ) :
    e.next s = announce e (s.agenda.load e.expand) (s.setAgenda (s.agenda.load e.expand).2.2) :=
  rfl

theorem realizes_next : Realizes (Advances e) (e.next : Action (Session σ) Unit) := by
  intro s
  have hload := advances_of_load e s.agenda.pending s.agenda rfl
  rw [next_eq]
  generalize s.agenda.load e.expand = loaded at hload ⊢
  obtain ⟨dropped, found, b⟩ := loaded
  obtain ⟨t, ht, hadds, hagenda⟩ := adds_noteDropped e dropped (s.setAgenda b)
  have hadds : Adds s t (droppedEntries e dropped) := hadds
  unfold announce
  rw [Action.bind_of_ok ht]
  cases found with
  | some found =>
    obtain ⟨job, x⟩ := found
    obtain ⟨u, hu, haddsu, hagendau⟩ := adds_note e (.expanded job x.commands) t
    obtain ⟨r, v, opening, hv, haddsv, hagendav, hopening, hblame⟩ :=
      adds_onStage (footprint_ensureOpen e) u
    dsimp only
    rw [Action.bind_of_ok hu, hv]
    refine ⟨_, hadds.trans (haddsu.trans haddsv), ?_⟩
    show Advances e s.agenda _ r v.agenda
    rw [hagendav, hagendau, hagenda]
    exact hload opening r hopening hblame
  | none =>
    dsimp only at hload ⊢
    by_cases hd : dropped.isEmpty = true
    · rw [if_pos hd] at hload ⊢
      rw [List.append_nil] at hload
      refine ⟨_, hadds, ?_⟩
      show Advances e s.agenda _ (.ok ()) t.agenda
      rw [hagenda]
      exact hload
    · rw [if_neg hd] at hload ⊢
      obtain ⟨u, hu, haddsu, hagendau⟩ := adds_signal e t
      rw [hu]
      refine ⟨_, hadds.trans haddsu, ?_⟩
      show Advances e s.agenda _ (.ok ()) u.agenda
      rw [hagendau, hagenda]
      exact hload

/-! ## The first job leaves or is begun again -/

def announceLeaving (n : Job → Note) : List Job → Action (Session σ) Unit
  | [] => e.signal
  | job :: rest => do
    e.note (n job)
    if rest.isEmpty then e.signal else pure ()

theorem adds_dropFirst (n : Job → Note) (s : Session σ) :
    ∃ t, e.dropFirst n s = (.ok (), t) ∧ Adds s t (departure e n s.agenda.pending) ∧
      t.agenda = s.agenda.dropFirst := by
  have hdrop : e.dropFirst n s =
      announceLeaving e n s.agenda.pending (s.setAgenda s.agenda.dropFirst) := rfl
  rw [hdrop]
  have hstart : Adds s (s.setAgenda s.agenda.dropFirst) [] := adds_of_journal_eq rfl
  generalize hs' : s.setAgenda s.agenda.dropFirst = s' at hstart ⊢
  have hagenda : s'.agenda = s.agenda.dropFirst := by rw [← hs']; rfl
  cases s.agenda.pending with
  | nil =>
    obtain ⟨t, ht, hadds, hagendat⟩ := adds_signal e s'
    exact ⟨t, ht, hstart.trans hadds, hagendat.trans hagenda⟩
  | cons job rest =>
    obtain ⟨t, ht, hadds, hagendat⟩ := adds_note e (n job) s'
    rw [announceLeaving, Action.bind_of_ok ht]
    cases rest with
    | nil =>
      obtain ⟨u, hu, haddsu, hagendau⟩ := adds_signal e t
      exact ⟨u, hu, hstart.trans (hadds.trans haddsu), hagendau.trans (hagendat.trans hagenda)⟩
    | cons next more => exact ⟨t, rfl, hstart.trans hadds, hagendat.trans hagenda⟩

variable {c : Command}

theorem realizes_giveUp {f : Fault} (hf : f.isCancelled = false)
    (s : Session σ) (hlimit : f.retryable = true → e.config.maxRetries ≤ s.agenda.retries + 1) :
    ∃ news, Adds s (e.giveUp f s).2 news ∧
      Follows e c s.agenda (.error f) news (e.giveUp f s).1 (e.giveUp f s).2.agenda := by
  obtain ⟨t, ht, hadds, hagenda⟩ := adds_dropFirst e (.abandoned · f) s
  obtain ⟨news, hnews, hnext⟩ := realizes_next e t
  rw [hagenda] at hnext
  rw [Setup.giveUp, Action.bind_of_ok ht]
  exact ⟨_, hadds.trans hnews, .abandoned hf hlimit hnext⟩

theorem realizes_retire (params : Dict Answer) :
    Realizes (Follows e (.webhook params) · (.ok ())) (e.retire : Action (Session σ) Unit) := by
  intro s
  obtain ⟨t, ht, hadds, hagenda⟩ := adds_dropFirst e .retired s
  let u := t.setAgenda { t.agenda with phase := .awaiting }
  have hu : Session.changeAgenda (fun a => { a with phase := .awaiting }) t = (.ok (), u) := rfl
  obtain ⟨news, hnews, hnext⟩ := realizes_next e u
  have hagendau : u.agenda = { s.agenda.dropFirst with phase := .awaiting } := by
    show { t.agenda with phase := .awaiting } = _
    rw [hagenda]
  have haddsu : Adds t u [] := adds_of_journal_eq rfl
  rw [hagendau] at hnext
  rw [Setup.retire, Action.bind_of_ok ht, Action.bind_of_ok hu]
  exact ⟨_, hadds.trans (haddsu.trans hnews), .retired rfl hnext⟩

/-- Up to the start of the application, beginning a job again is bookkeeping. -/
theorem beginAgain_eq (s : Session σ) :
    ∃ memory, e.beginAgain s = (do Session.onStage e.relaunch; e.next)
      ⟨⟨s.agenda.beginAgain, memory⟩,
        s.stage.record (noted e (.retrying (s.agenda.retries + 1)))⟩ := by
  let n := noted e (.retrying (s.agenda.retries + 1))
  let failure := fun q : Question => q.set okAttribute
    (.text ("Could not perform operation " ++ s.engine.memory.operationLabel))
  let memory := { s.engine.memory with question := failure s.engine.memory.question }
  let noting : Session σ := { s with stage := s.stage.record n }
  let answered : Session σ := ⟨{ s.engine with memory }, s.stage.record n⟩
  let again : Session σ := ⟨⟨s.agenda.beginAgain, memory⟩, s.stage.record n⟩
  have hgets : Action.gets Session.agenda s = (.ok s.agenda, s) := rfl
  have hnote : e.note (.retrying (s.agenda.retries + 1)) s = (.ok (), noting) := rfl
  have hlabel : Action.gets (fun m : Memory × Stage σ => m.1.operationLabel)
      (s.engine.memory, s.stage.record n) = (.ok s.engine.memory.operationLabel, _) := rfl
  have hanswer : Session.onMemory (do
      let operation ← .gets fun m => m.1.operationLabel
      Setup.answering (·.set okAttribute (.text ("Could not perform operation " ++ operation))))
      noting = (.ok (), answered) := by
    unfold Session.onMemory
    rw [Action.bind_of_ok hlabel]
    rfl
  have hagain : Session.changeAgenda Agenda.beginAgain answered = (.ok (), again) := rfl
  refine ⟨memory, ?_⟩
  unfold Setup.beginAgain
  rw [Action.bind_of_ok hgets, Action.bind_of_ok hnote, Action.bind_of_ok hanswer,
    Action.bind_of_ok hagain]

/-- An application that was started anew has the first job expanded again; otherwise the engine
stops with the fault of the start. -/
theorem beginAgain_cases (s : Session σ) :
    ∃ memory,
      (∀ stage, e.relaunch (s.stage.record (noted e (.retrying (s.agenda.retries + 1)))) =
          (.ok (), stage) → e.beginAgain s = e.next ⟨⟨s.agenda.beginAgain, memory⟩, stage⟩) ∧
      ∀ g stage, e.relaunch (s.stage.record (noted e (.retrying (s.agenda.retries + 1)))) =
          (.error g, stage) →
        e.beginAgain s = (.error g, ⟨⟨s.agenda.beginAgain, memory⟩, stage⟩) := by
  obtain ⟨memory, heq⟩ := beginAgain_eq e s
  refine ⟨memory, fun stage hrelaunch => ?_, fun g stage hrelaunch => ?_⟩
  · exact heq.trans (Action.bind_of_ok (onStage_eq hrelaunch))
  · exact heq.trans (Action.bind_of_error (onStage_eq hrelaunch))

theorem realizes_beginAgain {f : Fault} (hf : f.retryable = true) (s : Session σ)
    (hlimit : s.agenda.retries + 1 < e.config.maxRetries) :
    ∃ news, Adds s (e.beginAgain s).2 news ∧
      Follows e c s.agenda (.error f) news (e.beginAgain s).1 (e.beginAgain s).2.agenda := by
  obtain ⟨memory, hok, herror⟩ := beginAgain_cases e s
  let n := noted e (.retrying (s.agenda.retries + 1))
  obtain ⟨relaunch, hrelaunch⟩ := footprint_relaunch e (s.stage.record n)
  have hnote : Adds s.stage (s.stage.record n) [n] := adds_cons rfl
  rcases hr : e.relaunch (s.stage.record n) with ⟨r, stage⟩
  rw [hr] at hrelaunch
  have hadds : Adds s.stage stage (n :: relaunch) := hnote.trans hrelaunch.adds
  cases r with
  | ok _ =>
    let t : Session σ := ⟨⟨s.agenda.beginAgain, memory⟩, stage⟩
    have hadds : Adds s t (n :: relaunch) := hadds
    obtain ⟨news, hnews, hnext⟩ := realizes_next e t
    rw [hok stage hr]
    exact ⟨_, hadds.trans hnews, .begunAgain hf hlimit hrelaunch.within hnext⟩
  | error g =>
    rw [herror g stage hr]
    exact ⟨_, hadds, .stuck hf hlimit hrelaunch.within hrelaunch.blame⟩

/-! ## One command -/

theorem realizes_recover (f : Fault) :
    Realizes (Follows e c · (.error f)) (e.recover f : Action (Session σ) Unit) := by
  intro s
  unfold Setup.recover
  by_cases hcancelled : f.isCancelled = true
  · rw [if_pos hcancelled]
    exact ⟨[], adds_of_journal_eq rfl, .cut hcancelled⟩
  rw [if_neg hcancelled]
  have hcancelled : f.isCancelled = false := Bool.eq_false_iff.2 hcancelled
  by_cases hretry : f.retryable = true
  · rw [if_pos hretry]
    unfold Setup.retry
    by_cases hlimit : e.config.maxRetries ≤ s.agenda.retries + 1
    · rw [if_pos hlimit]
      exact realizes_giveUp e hcancelled s fun _ => hlimit
    · rw [if_neg hlimit]
      exact realizes_beginAgain e hretry s (by omega)
  · rw [if_neg hretry]
    exact realizes_giveUp e hcancelled s fun h => absurd h hretry

theorem realizes_follow (c : Command) (outcome : Except Fault Unit) :
    Realizes (Follows e c · outcome) (e.follow c outcome : Action (Session σ) Unit) := by
  cases outcome with
  | error f => exact realizes_recover e f
  | ok _ =>
    cases c with
    | webhook params => exact realizes_retire e params
    | _ => exact fun s => ⟨[], adds_of_journal_eq rfl, .onward fun _ h => by cases h⟩

theorem dispatch_cases (c : Command) (s : Session σ) :
    (∃ f, e.dispatch c s = (.error f, s) ∧ f.isCancelled = true ∧ s.stage.aborted = true) ∨
    ∃ outcome work t, e.dispatch c s = (.ok outcome, t) ∧ t.agenda = s.agenda ∧
      Adds s t (noted e (.dispatched c) :: work ++ [noted e (.performed c outcome)]) ∧
      Performs c work outcome := by
  unfold Setup.dispatch
  by_cases haborted : s.stage.aborted = true
  · left
    have hcheck : Session.onStage Stage.ensureRunning s =
        (.error (.cancelled "abort requested"), s) := by
      simp [Session.onStage, Stage.ensureRunning, haborted]
    exact ⟨_, Action.bind_of_error hcheck, rfl, haborted⟩
  · right
    have hcheck : Session.onStage Stage.ensureRunning s = (.ok (), s) := by
      simp [Session.onStage, Stage.ensureRunning, haborted]
    obtain ⟨t, ht, hadds, hagenda⟩ := adds_note e (.dispatched c) s
    obtain ⟨work, hwork, hperforms⟩ := performs_perform e c (t.engine.memory, t.stage)
    rcases hperform : e.perform c (t.engine.memory, t.stage) with ⟨outcome, memory, stage⟩
    rw [hperform] at hwork hperforms
    let u : Session σ := ⟨{ t.engine with memory }, stage⟩
    have hattempt : (Session.onMemory (e.perform c)).attempt t = (.ok outcome, u) := by
      simp only [Action.attempt, Session.onMemory, hperform, u]
    have haddsu : Adds t u work := hwork
    obtain ⟨v, hv, haddsv, hagendav⟩ := adds_note e (.performed c outcome) u
    refine ⟨outcome, work, v, ?_, ?_, hadds.trans (haddsu.trans haddsv), hperforms⟩
    · rw [Action.bind_of_ok hcheck, Action.bind_of_ok ht, Action.bind_of_ok hattempt,
        Action.bind_of_ok hv]
      rfl
    · rw [hagendav]
      exact hagenda

theorem step_of_aborted (c : Command) {s : Session σ} (h : s.stage.aborted = true) :
    e.step c s = (.error (.cancelled "abort requested"), s) := by
  have hcheck : Session.onStage Stage.ensureRunning s =
      (.error (.cancelled "abort requested"), s) := by
    simp [Session.onStage, Stage.ensureRunning, h]
  exact Action.bind_of_error (Action.bind_of_error hcheck)

omit e in
theorem pause_cases (span : Nat) (s : Stage σ) :
    ∃ r t pause, Stage.pause span s = (r, t) ∧ Adds s t pause ∧
      (∀ entry ∈ pause, Within waits entry) ∧
      ∀ f, r = .error f → f.isCancelled = true ∧ t.aborted = true := by
  have hwaiting : Waiting (Trails (σ := σ) waits fun _ => True) :=
    waiting_trails (fun _ => trivial) fun _ => rfl
  obtain ⟨pause, hadds, hwaits, -⟩ := obeys_pause hwaiting span s
  have haborts := obeys_pause (waiting_aborts (σ := σ)) span s
  rcases hpause : Stage.pause span s with ⟨r, t⟩
  rw [hpause] at hadds haborts
  exact ⟨r, t, pause, rfl, hadds, hwaits, fun f hf => haborts f (faultOf_eq_some.2 hf)⟩

theorem rest_cases (s : Session σ) :
    ∃ pause, Adds s (e.rest s).2 pause ∧ (e.rest s).2.agenda = s.agenda ∧
      ∀ entry ∈ pause, Within waits entry := by
  unfold Setup.rest
  by_cases hdone : s.agenda.commands.isEmpty = true
  · rw [if_pos hdone]
    exact ⟨[], adds_of_journal_eq rfl, rfl, by simp⟩
  · rw [if_neg hdone]
    obtain ⟨r, t, pause, hpause, hadds, hwaits, -⟩ := pause_cases e.config.stepPause s.stage
    have hrest : Session.onStage (Stage.pause e.config.stepPause) s =
        (r, { s with stage := t }) := by
      simp only [Session.onStage, hpause]
    rw [hrest]
    exact ⟨pause, hadds, rfl, hwaits⟩

theorem performs_of_dispatch {s t : Session σ} {outcome : Except Fault Unit}
    (ht : e.dispatch c s = (.ok outcome, t)) :
    t.agenda = s.agenda ∧ ∃ work,
      Adds s t (noted e (.dispatched c) :: work ++ [noted e (.performed c outcome)]) ∧
      Performs c work outcome := by
  rcases dispatch_cases e c s with ⟨f, hrefused, -⟩ |
    ⟨outcome', work, t', ht', hagenda, hadds, hwork⟩
  · rw [ht, Prod.mk.injEq] at hrefused
    cases hrefused.1
  · rw [ht, Prod.mk.injEq, Except.ok.injEq] at ht'
    obtain ⟨rfl, rfl⟩ := ht'
    exact ⟨hagenda, work, hadds, hwork⟩

theorem step_of_follow {s t u : Session σ} {outcome r : Except Fault Unit}
    (ht : e.dispatch c s = (.ok outcome, t)) (hu : e.follow c outcome t = (r, u)) :
    ∃ pause, Adds u (e.step c s).2 pause ∧ (e.step c s).2.agenda = u.agenda ∧
      (∀ entry ∈ pause, Within waits entry) ∧ ∀ g, r = .error g → (e.step c s).1 = .error g := by
  unfold Setup.step
  rw [Action.bind_of_ok ht]
  cases r with
  | error f =>
    rw [Action.bind_of_error hu]
    exact ⟨[], adds_of_journal_eq rfl, rfl, by simp, fun g hg => hg⟩
  | ok _ =>
    obtain ⟨pause, hpause, hsame, hwaits⟩ := rest_cases e u
    rw [Action.bind_of_ok hu]
    exact ⟨pause, hpause, hsame, hwaits, by rintro g ⟨⟩⟩

theorem step_of_dispatch {s t : Session σ} {outcome : Except Fault Unit}
    (ht : e.dispatch c s = (.ok outcome, t)) :
    ∃ rest, Adds s (e.step c s).2 (noted e (.dispatched c) :: rest) ∧
      Steps e c s.agenda (noted e (.dispatched c) :: rest) (e.step c s).1
        (e.step c s).2.agenda := by
  obtain ⟨hagenda, work, hadds, hwork⟩ := performs_of_dispatch e ht
  obtain ⟨news, hnews, hfollow⟩ := realizes_follow e c outcome t
  rcases hu : e.follow c outcome t with ⟨r, u⟩
  rw [hu] at hnews hfollow
  rw [hagenda] at hfollow
  obtain ⟨pause, hpause, hsame, hwaits, herror⟩ := step_of_follow e ht hu
  have hr : (e.step c s).1 = .ok () → r = .ok () := by
    intro hok
    cases r with
    | ok _ => rfl
    | error g =>
      rw [herror g rfl] at hok
      cases hok
  rw [hsame]
  refine ⟨_, ?_, .performed hwork hfollow hwaits hr⟩
  simpa using (hadds.trans hnews).trans hpause

theorem realizes_step (c : Command) :
    Realizes (Steps e c) (e.step c : Action (Session σ) Unit) := by
  intro s
  rcases dispatch_cases e c s with ⟨f, hrefused, hf, -⟩ | ⟨outcome, work, t, ht, -⟩
  · have hstep : e.step c s = (.error f, s) := Action.bind_of_error hrefused
    rw [hstep]
    exact ⟨[], adds_of_journal_eq rfl, .refused hf⟩
  · obtain ⟨rest, hrest, hsteps⟩ := step_of_dispatch e ht
    exact ⟨_, hrest, hsteps⟩

/-- Unless there was an abort, the first entry of a step tells of the command. -/
theorem adds_step {s : Session σ} (c : Command) (hrunning : s.stage.aborted = false) :
    ∃ rest, Adds s (e.step c s).2 (noted e (.dispatched c) :: rest) := by
  rcases dispatch_cases e c s with ⟨f, -, -, haborted⟩ | ⟨outcome, work, t, ht, -⟩
  · rw [hrunning] at haborted
    cases haborted
  · obtain ⟨rest, hrest, -⟩ := step_of_dispatch e ht
    exact ⟨rest, hrest⟩

end Sessions

/-! ## What changes of the engine -/

section Engines

/-- A step that leaves the engine itself alone. -/
def Outward {α : Type} (x : Action (Session σ) α) : Prop := ∀ s, (x s).2.engine = s.engine

theorem outward_onStage {α : Type} (x : Action (Stage σ) α) : Outward (Session.onStage x) :=
  fun _ => rfl

theorem outward_pure {α : Type} (a : α) : Outward (pure a : Action (Session σ) α) := fun _ => rfl

theorem Outward.bind {α β : Type} {x : Action (Session σ) α} {f : α → Action (Session σ) β}
    (hx : Outward x) (hf : ∀ a, Outward (f a)) : Outward (x >>= f) := by
  intro s
  have h := hx s
  rcases hr : x s with ⟨r, t⟩
  rw [hr] at h
  cases r with
  | ok a => rw [Action.bind_of_ok hr, hf a t, h]
  | error g => rw [Action.bind_of_error hr, h]

theorem outward_noteDropped (e : Setup) (dropped : List (Job × Fault)) :
    Outward (e.noteDropped dropped : Action (Session σ) Unit) := by
  induction dropped with
  | nil => exact outward_pure ()
  | cons d rest ih => exact (outward_onStage _).bind fun _ => ih

variable [Desk σ] (e : Setup)

theorem outward_announce (l : List (Job × Fault) × Option (Job × Expansion) × Agenda) :
    Outward (announce e l : Action (Session σ) Unit) := by
  refine (outward_noteDropped e l.1).bind fun _ => ?_
  split
  · exact (outward_onStage _).bind fun _ => outward_onStage _
  · split
    · exact outward_pure ()
    · exact outward_onStage _

theorem engine_next (s : Session σ) :
    (e.next s).2.engine = { s.engine with agenda := s.agenda.loaded e.expand } := by
  rw [next_eq, outward_announce]
  rfl

theorem outward_announceLeaving (n : Job → Note) (jobs : List Job) :
    Outward (announceLeaving e n jobs : Action (Session σ) Unit) := by
  unfold announceLeaving
  split
  · exact outward_onStage _
  · refine (outward_onStage _).bind fun _ => ?_
    split
    · exact outward_onStage _
    · exact outward_pure ()

theorem engine_dropFirst (n : Job → Note) (s : Session σ) :
    (e.dropFirst n s).2.engine = { s.engine with agenda := s.agenda.dropFirst } :=
  outward_announceLeaving e n s.agenda.pending (s.setAgenda s.agenda.dropFirst)

theorem engine_retire (s : Session σ) :
    (e.retire s).2.engine =
      { s.engine with
        agenda := Agenda.loaded e.expand { s.agenda.dropFirst with phase := .awaiting } } := by
  obtain ⟨t, ht, -, hagenda⟩ := adds_dropFirst e .retired s
  let u := t.setAgenda { t.agenda with phase := .awaiting }
  have hu : Session.changeAgenda (fun a => { a with phase := .awaiting }) t = (.ok (), u) := rfl
  have hengine := engine_dropFirst e .retired s
  rw [ht] at hengine
  have hmemory := congrArg Engine.memory hengine
  have hagendau : u.agenda = { s.agenda.dropFirst with phase := .awaiting } := by
    show { t.agenda with phase := .awaiting } = _
    rw [hagenda]
  rw [Setup.retire, Action.bind_of_ok ht, Action.bind_of_ok hu, engine_next, hagendau]
  exact congrArg (Engine.mk _) hmemory

theorem outward_rest : Outward (e.rest : Action (Session σ) Unit) := by
  intro s
  unfold Setup.rest
  split
  · rfl
  · rfl

theorem engine_step {c : Command} {s t u : Session σ} {outcome r : Except Fault Unit}
    (ht : e.dispatch c s = (.ok outcome, t)) (hu : e.follow c outcome t = (r, u)) :
    (e.step c s).2.engine = u.engine := by
  unfold Setup.step
  rw [Action.bind_of_ok ht]
  cases r with
  | error f => rw [Action.bind_of_error hu]
  | ok _ => rw [Action.bind_of_ok hu, outward_rest e u]

end Engines

end Playback.Proofs.Moves
