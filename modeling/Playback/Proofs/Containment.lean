import Playback.Proofs.Absorbing
import Playback.Proofs.Accounts
import Playback.Proofs.Retries
/-!
# Failures stay with their jobs

A run stops early after an abort only, or with an application that cannot be started or ended. Any
other failure is dealt with at once: a verification timeout begins the first job again, or has it
given up at the limit; whatever else a command fails with, and a job that cannot be expanded, costs
this job alone. The next one has its turn right after it.
-/

namespace Playback.Proofs.Containment

open Effects Footprints Launching Performing Moves Career Queue Story Accounts Retries Causes
  Absorbing

variable {σ : Type}

/-! ## How failures are dealt with -/

def restart (count : Nat) : Entry → Nat
  | .noted _ (.retrying _) => count + 1
  | .noted _ (.retired _) => 0
  | .noted _ (.abandoned ..) => 0
  | _ => count

def restarts (story : List Entry) : Nat := counted restart story

/-- The first of the jobs that are left is taken up: it is expanded, or it leaves as it cannot be.
-/
def TakenUp (app : String) : List Job → List Entry → Prop
  | [], _ => True
  | job :: _, after => ∃ more, (∃ commands, after = .noted app (.expanded job commands) :: more) ∨
    ∃ f, after = .noted app (.abandoned job f) :: more

/-- What follows a command that failed. -/
inductive Recovers (e : Setup) (f : Fault) (before : List Entry) (job : Job) : List Entry → Prop
  | retried {more : List Entry} (hf : f.retryable = true)
      (hlimit : restarts before + 1 < e.config.maxRetries) :
      Recovers e f before job (.noted e.app (.retrying (restarts before + 1)) :: more)
  | abandoned {more : List Entry}
      (hlimit : f.retryable = true → e.config.maxRetries ≤ restarts before + 1) :
      Recovers e f before job (.noted e.app (.abandoned job f) :: more)

/-- Why a job is given up: its last command failed, or it cannot be expanded. -/
def JobCause (e : Setup) (before : List Entry) (job : Job) (f : Fault) : Prop :=
  (∃ c, before.getLast? = some (.noted e.app (.performed c (.error f)))) ∨
    ∃ history, e.expand history job = .error f

/-- How each failure is dealt with, and that no job leaves for the failure of another one. -/
def Handled (e : Setup) : Rule := fun before entry after =>
  match entry with
  | .noted _ (.performed _ (.error f)) => f.isCancelled = false →
    ∃ job rest, waiting before = job :: rest ∧ Recovers e f before job after
  | .noted _ (.abandoned job f) => ∃ rest, waiting before = job :: rest ∧
    JobCause e before job f ∧ TakenUp e.app rest after
  | .noted _ (.retired job) => ∃ rest, waiting before = job :: rest ∧ TakenUp e.app rest after
  | _ => True

def Neutral : Entry → Prop
  | .noted _ (.performed _ (.error _)) => False
  | .noted _ (.abandoned ..) => False
  | .noted _ (.retired _) => False
  | _ => True

section Rules

variable {e : Setup} {story news : List Entry}

theorem TakenUp.append {app : String} {jobs : List Job} {after : List Entry}
    (h : TakenUp app jobs after) (later : List Entry) : TakenUp app jobs (after ++ later) := by
  cases jobs with
  | nil => trivial
  | cons job rest =>
    obtain ⟨more, ⟨commands, rfl⟩ | ⟨f, rfl⟩⟩ := h
    · exact ⟨more ++ later, .inl ⟨commands, rfl⟩⟩
    · exact ⟨more ++ later, .inr ⟨f, rfl⟩⟩

theorem Recovers.append {f : Fault} {before after : List Entry} {job : Job}
    (h : Recovers e f before job after) (later : List Entry) :
    Recovers e f before job (after ++ later) := by
  cases h with
  | retried hf hlimit => exact .retried hf hlimit
  | abandoned hlimit => exact .abandoned hlimit

theorem stable_handled : Stable (Handled e) := by
  intro before entry after more h
  unfold Handled at *
  split at h
  · intro hf
    obtain ⟨job, rest, hqueue, hrecovers⟩ := h hf
    exact ⟨job, rest, hqueue, hrecovers.append more⟩
  · obtain ⟨rest, hqueue, hcause, htaken⟩ := h
    exact ⟨rest, hqueue, hcause, htaken.append more⟩
  · obtain ⟨rest, hqueue, htaken⟩ := h
    exact ⟨rest, hqueue, htaken.append more⟩
  · trivial

theorem handled_of_neutral {entry : Entry} (h : Neutral entry) (before after : List Entry) :
    Handled e before entry after := by
  unfold Neutral at h
  unfold Handled
  split <;> simp_all

theorem throughout_of_neutral (h : ∀ entry ∈ news, Neutral entry) :
    Throughout (Handled e) story news :=
  throughout_of_forall fun entry hentry => handled_of_neutral (h entry hentry)

theorem still_of_within {kind : Call → Bool} {entry : Entry} (h : Within kind entry) :
    Still entry :=
  h.cases (fun _ _ _ => trivial) fun _ _ => trivial

theorem counter_restart : Counter restart :=
  ⟨fun _ _ _ => rfl, fun _ _ _ => rfl, fun _ _ _ _ => rfl, fun _ _ _ _ => rfl⟩

theorem neutral_of_within {kind : Call → Bool} {entry : Entry} (h : Within kind entry) :
    Neutral entry :=
  h.cases (fun _ _ _ => trivial) fun _ _ => trivial

end Rules

/-! ## Steps -/

section Steps

variable {e : Setup} {a b : Agenda} {story news work : List Entry} {job : Job} {rest : List Job}
  {c : Command} {outcome r : Except Fault Unit}

theorem quiet_of_performs (e : Setup) (h : Performs c work outcome) :
    ∀ entry ∈ noted e (.dispatched c) :: work,
      Neutral entry ∧ Still entry ∧ ∀ count, restart count entry = count := by
  obtain ⟨kind, hcalls⟩ := within_of_performs h
  refine List.forall_mem_cons.2 ⟨⟨trivial, trivial, fun _ => rfl⟩, fun entry hentry => ?_⟩
  have hwithin := hcalls entry hentry
  exact ⟨neutral_of_within hwithin, still_of_within hwithin, counter_restart.of_within hwithin⟩

theorem handled_departure {n : Job → Note} (hqueue : waiting story = job :: rest)
    (hentry : ∀ after, TakenUp e.app rest after → Handled e story (noted e (n job)) after)
    (hnews : Throughout (Handled e) (story ++ departure e n (job :: rest)) news)
    (htaken : TakenUp e.app rest news) :
    Throughout (Handled e) story (departure e n (job :: rest) ++ news) := by
  cases rest with
  | nil =>
    have hsignal : Throughout (Handled e) (story ++ [noted e (n job)]) (signalled e :: news) := by
      refine throughout_cons trivial ?_
      simpa [departure] using hnews
    exact throughout_cons (hentry _ trivial) hsignal
  | cons next more => exact throughout_cons (hentry news htaken) hnews

theorem taken_of_advances (h : Advances e a news r b) : TakenUp e.app a.pending news := by
  cases h with
  | idle hpending =>
    rw [hpending]
    trivial
  | found hpending =>
    rw [hpending]
    exact ⟨_, .inl ⟨_, rfl⟩⟩
  | @dropped _ _ job rest f news _ hpending =>
    rw [hpending]
    cases rest with
    | nil => exact ⟨signalled e :: news, .inr ⟨f, rfl⟩⟩
    | cons next more => exact ⟨news, .inr ⟨f, rfl⟩⟩

theorem handled_of_advances (h : Advances e a news r b) (hqueue : waiting story = a.pending) :
    Throughout (Handled e) story news := by
  -- the jobs that cannot be expanded leave one by one, so the story grows along with the induction
  induction h generalizing story with
  | idle => exact throughout_nil
  | found _ _ hopening =>
    refine throughout_of_neutral fun entry hentry => ?_
    rcases List.mem_cons.1 hentry with rfl | hentry
    · trivial
    · exact neutral_of_within (hopening entry hentry)
  | @dropped a b job rest f news r hpending hexpand hnext ih =>
    have hdrop := pending_of_dropFirst hpending
    rw [hpending] at hqueue ⊢
    have hleave : Keeps e.app story (departure e (.abandoned · f) (job :: rest)) rest :=
      keeps_abandoned f rfl hqueue
    have htaken := taken_of_advances hnext
    rw [hdrop] at htaken
    refine handled_departure hqueue (fun after hafter => ?_)
      (ih (hleave.waiting_eq.trans hdrop.symm)) htaken
    exact ⟨rest, hqueue, .inr ⟨a.history, hexpand⟩, hafter⟩

theorem recovers_of_follows {f : Fault} {before : List Entry} (hf : f.isCancelled = false)
    (h : Follows e c a (.error f) news r b) (hpending : a.pending = job :: rest)
    (hretries : a.retries = restarts before) : Recovers e f before job news := by
  cases h with
  | cut hcancelled =>
    rw [hf] at hcancelled
    cases hcancelled
  | abandoned _ hlimit _ =>
    rw [hretries] at hlimit
    rw [hpending]
    cases rest with
    | nil => exact .abandoned hlimit
    | cons next more => exact .abandoned hlimit
  | stuck hretry hlimit _ =>
    rw [hretries] at hlimit ⊢
    exact .retried hretry hlimit
  | begunAgain hretry hlimit _ _ =>
    rw [hretries] at hlimit ⊢
    exact .retried hretry hlimit

theorem handled_of_leaving {d : Agenda} {n : Job → Note} (hqueue : waiting story = job :: rest)
    (hleave : Keeps e.app story (departure e n (job :: rest)) rest)
    (hentry : ∀ after, TakenUp e.app rest after → Handled e story (noted e (n job)) after)
    (hdrop : d.pending = rest) (hnext : Advances e d news r b) :
    Throughout (Handled e) story (departure e n (job :: rest) ++ news) := by
  have htaken := taken_of_advances hnext
  rw [hdrop] at htaken
  refine handled_departure hqueue hentry (handled_of_advances hnext ?_) htaken
  rw [hleave.waiting_eq, hdrop]

theorem handled_of_follows (h : Follows e c a outcome news r b)
    (hlast : story.getLast? = some (.noted e.app (.performed c outcome)))
    (hqueue : waiting story = a.pending) (hpending : a.pending = job :: rest) :
    Throughout (Handled e) story news := by
  have hfirst := hqueue.trans hpending
  have hdrop := pending_of_dropFirst hpending
  have hretrying : ∀ {count relaunch}, (∀ entry ∈ relaunch, Within reopens entry) →
      ∀ entry ∈ noted e (.retrying count) :: relaunch, Neutral entry :=
    fun hrelaunch => List.forall_mem_cons.2
      ⟨trivial, fun entry hentry => neutral_of_within (hrelaunch entry hentry)⟩
  cases h with
  | onward => exact throughout_nil
  | cut => exact throughout_nil
  | retired hc hnext =>
    subst hc
    rw [hpending]
    exact handled_of_leaving hfirst (keeps_retired rfl hfirst hlast)
      (fun after hafter => ⟨rest, hfirst, hafter⟩) (d := { a.dropFirst with phase := .awaiting })
      hdrop hnext
  | @abandoned f _ _ _ hf hlimit hnext =>
    rw [hpending]
    exact handled_of_leaving hfirst (keeps_abandoned f rfl hfirst)
      (fun after hafter => ⟨rest, hfirst, .inl ⟨c, hlast⟩, hafter⟩) hdrop hnext
  | stuck _ _ hrelaunch => exact throughout_of_neutral (hretrying hrelaunch)
  | @begunAgain f relaunch news _ _ hf hlimit hrelaunch hnext =>
    have hneutral : ∀ entry ∈ noted e (.retrying (a.retries + 1)) :: relaunch, Neutral entry :=
      hretrying hrelaunch
    have hqueue' : waiting (story ++ noted e (.retrying (a.retries + 1)) :: relaunch) =
        a.beginAgain.pending := by
      rw [waiting_append_of_still story, hqueue]
      · rfl
      · exact List.forall_mem_cons.2
          ⟨trivial, fun entry hentry => still_of_within (hrelaunch entry hentry)⟩
    exact (throughout_of_neutral hneutral).append stable_handled
      (handled_of_advances hnext hqueue')

theorem handled_of_steps (h : Steps e c a news r b) (hqueue : waiting story = a.pending)
    (hpending : a.pending = job :: rest) (hretries : a.retries = restarts story) :
    Throughout (Handled e) story news := by
  cases h with
  | refused => exact throughout_nil
  | @performed work later pause outcome r _ b hwork hfollow hpause hr =>
    let start := noted e (.dispatched c) :: work
    let done := noted e (.performed c outcome)
    -- the queue and the count are still those of before when the outcome becomes known
    have hquiet := quiet_of_performs e hwork
    have hqueue' : waiting (story ++ start) = a.pending :=
      (waiting_append_of_still story fun entry hentry => (hquiet entry hentry).2.1).trans hqueue
    have hretries' : a.retries = restarts (story ++ start) := hretries.trans
      (counted_append_of_unchanged story fun entry hentry => (hquiet entry hentry).2.2).symm
    have hdone : Handled e (story ++ start) done later := by
      cases outcome with
      | ok _ => trivial
      | error f =>
        exact fun hf =>
          ⟨job, rest, hqueue'.trans hpending, recovers_of_follows hf hfollow hpending hretries'⟩
    have hlater : Throughout (Handled e) (story ++ start ++ [done]) later := by
      refine handled_of_follows hfollow List.getLast?_concat ?_ hpending
      rw [waiting_append_singleton]
      exact hqueue'
    have hpaused : ∀ {before}, Throughout (Handled e) before pause :=
      throughout_of_neutral fun entry hentry => neutral_of_within (hpause entry hentry)
    have hstart : Throughout (Handled e) story start :=
      throughout_of_neutral fun entry hentry => (hquiet entry hentry).1
    exact (hstart.append stable_handled (throughout_cons hdone hlater)).append stable_handled
      hpaused

/-! ## Counting restarts -/

theorem restarts_of_leaving {d : Agenda} {n : Job → Note} (story : List Entry)
    (hn : ∀ count, restart count (noted e (n job)) = 0) (hd : d.retries = 0)
    (hnext : Advances e d news r b) :
    b.retries = restarts (story ++ (departure e n (job :: rest) ++ news)) := by
  rw [← List.append_assoc]
  exact counter_restart.advance hnext (hd.trans (counter_restart.departure story hn).symm)

theorem restarts_of_relaunch {relaunch : List Entry}
    (hrelaunch : ∀ entry ∈ relaunch, Within reopens entry) (hretries : a.retries = restarts story) :
    a.beginAgain.retries =
      restarts (story ++ noted e (.retrying (a.retries + 1)) :: relaunch) := by
  show a.retries + 1 = counted restart _
  rw [List.append_cons, counted_append_of_unchanged, counted_append_singleton, hretries]
  · rfl
  · exact fun entry hentry => counter_restart.of_within (hrelaunch entry hentry)

theorem restarts_of_follows (h : Follows e c a outcome news r b)
    (hpending : a.pending = job :: rest) (hretries : a.retries = restarts story) :
    b.retries = restarts (story ++ news) := by
  cases h with
  | onward =>
    rw [List.append_nil]
    exact hretries
  | cut =>
    rw [List.append_nil]
    exact hretries
  | retired _ hnext =>
    rw [hpending]
    exact restarts_of_leaving story (fun _ => rfl) rfl hnext
  | abandoned _ _ hnext =>
    rw [hpending]
    exact restarts_of_leaving (n := (.abandoned · _)) story (fun _ => rfl) rfl hnext
  | stuck _ _ hrelaunch => exact restarts_of_relaunch hrelaunch hretries
  | begunAgain _ _ hrelaunch hnext =>
    rw [← List.append_assoc]
    exact counter_restart.advance hnext (restarts_of_relaunch hrelaunch hretries)

theorem restarts_of_steps (h : Steps e c a news r b) (hpending : a.pending = job :: rest)
    (hretries : a.retries = restarts story) : b.retries = restarts (story ++ news) := by
  cases h with
  | refused =>
    rw [List.append_nil]
    exact hretries
  | @performed work later pause outcome r _ b hwork hfollow hpause hr =>
    let opening := noted e (.dispatched c) :: work ++ [noted e (.performed c outcome)]
    have hsteady : ∀ entry ∈ opening, ∀ count, restart count entry = count :=
      List.forall_mem_append.2 ⟨fun entry hentry => (quiet_of_performs e hwork entry hentry).2.2,
        List.forall_mem_singleton.2 fun _ => rfl⟩
    have hretries' : a.retries = restarts (story ++ opening) :=
      hretries.trans (counted_append_of_unchanged story hsteady).symm
    have hlater := restarts_of_follows hfollow hpending hretries'
    have hshape : story ++ (noted e (.dispatched c) :: work ++
        noted e (.performed c outcome) :: later ++ pause) = story ++ opening ++ later ++ pause := by
      simp [opening]
    rw [hshape]
    exact hlater.trans (counted_append_of_unchanged _ fun entry hentry =>
      counter_restart.of_within (hpause entry hentry)).symm

end Steps

/-! ## Careers -/

section Courses

variable {app : String} {config : Config} {seen : List Setting} {jobs : List Job}
  {mode : Option Setting} {a : Agenda} {story : List Entry}

theorem restarts_of_course (h : Course app config seen jobs mode a story) :
    a.retries = restarts story := by
  have hsame : ∀ {count : Nat} {story news : List Entry}, count = restarts story →
      (∀ entry ∈ news, ∀ count, restart count entry = count) → count = restarts (story ++ news) :=
    fun hcount hsteady => hcount.trans (counted_append_of_unchanged _ hsteady).symm
  induction h with
  | fresh => rfl
  | queued h hbusy ih => exact hsame ih (List.forall_mem_singleton.2 fun _ => rfl)
  | @begun jobs a b story news job w r h hw hidle hcommands hnext ih =>
    have hjoined : (a.queue job).retries = restarts (story ++ [.noted app (.queued job)]) :=
      hsame ih (List.forall_mem_singleton.2 fun _ => rfl)
    rw [List.append_cons]
    exact counter_restart.advance hnext hjoined
  | advanced h hw hnext ih => exact counter_restart.advance hnext ih
  | held h hopening ih =>
    exact hsame ih fun entry hentry => counter_restart.of_within (hopening entry hentry)
  | resumed h hw hcommands hopening ih =>
    exact hsame ih fun entry hentry => counter_restart.of_within (hopening entry hentry)
  | started h hw hnext ih => exact counter_restart.advance hnext ih
  | spared h hw hcommands hpending ih => exact ih
  | @stepped jobs a b story news w c commands h hcommands hstep ih =>
    obtain ⟨job, rest, hpending⟩ :=
      List.exists_cons_of_ne_nil (pending_of_commands (orderly_of_course h).1 hcommands)
    exact restarts_of_steps (a := { a with commands }) hstep hpending ih
  | @stopped jobs a b story news w c commands f h hcommands hstep ih =>
    obtain ⟨job, rest, hpending⟩ :=
      List.exists_cons_of_ne_nil (pending_of_commands (orderly_of_course h).1 hcommands)
    exact restarts_of_steps (a := { a with commands }) hstep hpending ih
  | finished h hcommands ih => exact ih

variable [Desk σ] {w : Setting} {s : Session σ}

theorem handled_of_begin (h : Course app config seen jobs none s.agenda story) :
    Throughout (Handled (w.setup app config)) story
      (since s.stage (begin (w.setup app config) s).2.stage) := by
  unfold begin
  split
  · obtain ⟨r, t, opening, ht, hadds, -, hopening, -⟩ :=
      adds_onStage (footprint_ensureOpen (w.setup app config)) s
    rw [ht, since_of_adds (s := s.stage) hadds]
    exact throughout_of_neutral fun entry hentry => neutral_of_within (hopening entry hentry)
  split
  · obtain ⟨news, hnews, hnext⟩ := realizes_next (w.setup app config) s
    rw [since_of_adds (s := s.stage) hnews]
    exact handled_of_advances hnext (settles_of_course h).waiting_eq
  · rw [since_of_adds (s := s.stage) (adds_of_journal_eq rfl)]
    exact throughout_nil

theorem handled_of_pop {t u : Session σ} {c : Command} {commands : List Command}
    {r : Except Fault Unit} (h : Course app config seen jobs none s.agenda story) (hw : w ∈ seen)
    (ht : Stands (w.setup app config) s t) (hcommands : t.agenda.commands = c :: commands)
    (hstep : (w.setup app config).step c (pop t commands) = (r, u))
    (hhandled : Throughout (Handled (w.setup app config)) story (since s.stage t.stage)) :
    Throughout (Handled (w.setup app config)) story (since s.stage u.stage) := by
  obtain ⟨old, hold, hcourse⟩ := course_stands h hw ht
  obtain ⟨news, hnews, hsteps⟩ := steps_of_pop (w.setup app config) hstep
  obtain ⟨job, rest, hpending⟩ :=
    List.exists_cons_of_ne_nil (pending_of_commands (orderly_of_course hcourse).1 hcommands)
  have hqueue := (settles_of_course hcourse).waiting_eq
  have hretries := restarts_of_course hcourse
  rw [since_of_adds (s := s.stage) hold] at hhandled
  rw [since_of_adds (s := s.stage) (hold.trans hnews)]
  exact hhandled.append stable_handled (handled_of_steps hsteps hqueue hpending hretries)

theorem handled_of_stands {t : Session σ}
    (h : Course app config seen jobs none s.agenda story) (hw : w ∈ seen)
    (ht : Stands (w.setup app config) s t) :
    Throughout (Handled (w.setup app config)) story (since s.stage t.stage) := by
  induction ht with
  | begun hbegin =>
    have hhandled := handled_of_begin (w := w) h
    rwa [hbegin] at hhandled
  | onward ht hcommands hstep ih => exact handled_of_pop h hw ht hcommands hstep ih

theorem handled_of_run (h : Course app config seen jobs none s.agenda story) (hw : w ∈ seen) :
    Throughout (Handled (w.setup app config)) story
      (since s.stage ((w.setup app config).run s).2.stage) := by
  rcases run_cases (w.setup app config) s with ⟨f, t, hbegin, hrun⟩ |
    ⟨t, u, c, commands, f, ht, hcommands, hstep, hrun⟩ | ⟨t, ht, -, hrun⟩
  · have hhandled := handled_of_begin (w := w) h
    rw [hbegin] at hhandled
    rw [hrun]
    exact hhandled
  · rw [hrun]
    exact handled_of_pop h hw ht hcommands hstep (handled_of_stands h hw ht)
  · have hhandled := handled_of_stands h hw ht
    rw [hrun]
    exact hhandled

theorem left_of_run (h : Course app config seen jobs none s.agenda story) (hw : w ∈ seen) :
    left (since s.stage ((w.setup app config).run s).2.stage) ++
      ((w.setup app config).run s).2.agenda.pending = s.agenda.pending := by
  obtain ⟨news, hnews, hcourse⟩ := course_run h hw
  have hbefore := (settles_of_course h).settled
  have hafter := (settles_of_course hcourse).settled
  rw [left_append, List.append_assoc, ← hbefore] at hafter
  rw [since_of_adds (s := s.stage) hnews]
  exact List.append_cancel_left hafter

end Courses

/-! ## Runs -/

/-- A run, as far as failures are concerned. -/
structure Contained [Desk σ] (e : Setup) (past : Past) (stage : Stage σ) : Prop where
  stops : ∀ f, (e.run ⟨past.engine, stage⟩).1 = .error f →
    Due (StartCause e) f (e.run ⟨past.engine, stage⟩).2.stage
  handled : ∀ before entry after,
    since stage (e.run ⟨past.engine, stage⟩).2.stage = before ++ entry :: after →
      Handled e (past.story ++ before) entry after
  left_eq : left (since stage (e.run ⟨past.engine, stage⟩).2.stage) ++
    (e.run ⟨past.engine, stage⟩).2.agenda.pending = past.engine.agenda.pending
  drained : (e.run ⟨past.engine, stage⟩).1 = .ok () →
    Drained (e.run ⟨past.engine, stage⟩).2.agenda

theorem Contained.left_of_ok [Desk σ] {e : Setup} {past : Past} {stage : Stage σ} {t : Session σ}
    (h : Contained e past stage) (hrun : e.run ⟨past.engine, stage⟩ = (.ok (), t)) :
    left (since stage t.stage) = past.engine.agenda.pending := by
  have hleft := h.left_eq
  have hdrained := h.drained (congrArg Prod.fst hrun)
  rw [hrun] at hleft hdrained
  rwa [hdrained.pending, List.append_nil] at hleft

/-- Where the desk cancels nothing by itself, every run of every career contains its failures. -/
theorem failures_contained [Desk σ] (app : String) (config : Config) (turns : List (Turn σ))
    (w : Setting) (stage : Stage σ) (good : σ → Prop) (hneverCancels : NeverCancels good)
    (hgood : good stage.desk) :
    Contained (w.setup app config) (career app config turns) stage ∧
      Absorbs (w.setup app config) good := by
  have hcourse : Course app config (w :: turns.map (·.setting)) _ none _ _ :=
    course_career app config turns fun turn hturn =>
      List.mem_cons_of_mem _ (List.mem_map_of_mem hturn)
  have hw : w ∈ w :: turns.map (·.setting) := List.mem_cons_self
  refine ⟨⟨?_, ?_, ?_, ?_⟩, absorbs_of_neverCancels hneverCancels _⟩
  · exact fun f hf => due_of_run hneverCancels _ hgood hf
  · exact handled_of_run (s := ⟨_, stage⟩) hcourse hw
  · exact left_of_run (s := ⟨_, stage⟩) hcourse hw
  · exact fun hok => drained_of_run (s := ⟨_, stage⟩) hcourse hw hok

/-! ## A click that slips -/

def clicking : Setting :=
  { bare with
    files := .ofList [("m", .folder), ("m/app", .folder), ("m/app/Act", .folder),
      ("m/app/Act/pay.txt", .text "[\x7b\"action\":\"click\",\"position\":[0.5,0.5]\x7d]")] }

def twoErrands : List (Turn Rehearsal) :=
  [⟨.add errand, clicking, stageWith true true⟩, ⟨.add errand, clicking, stageWith true true⟩]

def slip : Fault := .platform "pointer gone"

/-- The first click is refused. -/
def slippery : Stage Rehearsal :=
  let s := stageWith true true
  { s with desk := { s.desk with hooks := [⟨"click", 1, .fail slip⟩] } }

def withTwoErrands : Session Rehearsal := ⟨(career "app" hasty twoErrands).engine, slippery⟩

def slips : Entry → Bool
  | .called .click (.error f) => f == slip
  | _ => false

theorem runWithin_slippery :
    (runWithin (clicking.setup "app" hasty) 6 withTwoErrands).map
      (fun x => (x.1, (since slippery x.2.stage).any slips)) = some (.ok (), true) := by
  decide +kernel

theorem pending_twoErrands :
    (career "app" hasty twoErrands).engine.agenda.pending = [errand, errand] := by
  decide +kernel

theorem scriptsNoCancel_slippery : ScriptsNoCancel slippery.desk := by
  refine ⟨fun hook hhook f hf => ?_, by rintro f ⟨⟩⟩
  rw [List.mem_singleton.1 hhook] at hf
  cases hf
  rfl

/-- The first job is lost to the click, and both jobs are done with when the run ends. -/
theorem slip_contained :
    ScriptsNoCancel slippery.desk ∧
    ∃ t, (clicking.setup "app" hasty).run withTwoErrands = (.ok (), t) ∧
      (since slippery t.stage).any slips = true ∧
      left (since slippery t.stage) = [errand, errand] := by
  obtain ⟨⟨r, t⟩, hresult, hfacts⟩ := Option.map_eq_some_iff.1 runWithin_slippery
  obtain ⟨rfl, hslips⟩ := Prod.mk.inj hfacts
  have hrun := run_of_within _ hresult
  obtain ⟨hcontained, -⟩ :=
    failures_contained "app" hasty twoErrands clicking slippery ScriptsNoCancel
      neverCancels_scriptsNoCancel scriptsNoCancel_slippery
  have hleft := hcontained.left_of_ok hrun
  rw [pending_twoErrands] at hleft
  exact ⟨scriptsNoCancel_slippery, t, hrun, hslips, hleft⟩

end Playback.Proofs.Containment
