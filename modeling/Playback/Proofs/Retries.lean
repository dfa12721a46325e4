import Playback.Proofs.Queue
import Playback.Proofs.Story
/-!
# Starting a job anew

An engine counts how often it started the first job anew. As long as no call reports a verification
timeout of its own, that is how often a color was not seen since the job came to the head of the
queue. Below the limit such a timeout closes the application and begins the job from its base
screen; at the limit the job is given up. Nothing else moves the counter up or closes the
application.
-/

namespace Playback.Proofs.Retries

open Footprints Launching Performing Moves Career Queue Story

variable {σ : Type}

/-- No call reports a verification timeout. -/
def ReportsNoTimeout (story : List Entry) : Prop :=
  ∀ entry ∈ story, ∀ f, Reports f entry → f.retryable = false

def tally (count : Nat) : Entry → Nat
  | .noted _ (.performed (.color ..) (.error f)) => if f.retryable then count + 1 else count
  | .noted _ (.retired _) => 0
  | .noted _ (.abandoned ..) => 0
  | _ => count

/-- How many colors timed out since the first job came to the head of the queue. -/
def timeouts (story : List Entry) : Nat := story.foldl tally 0

def TimedOut (app : String) (before : List Entry) : Prop :=
  ∃ p expected f, f.retryable = true ∧
    before.getLast? = some (.noted app (.performed (.color p expected) (.error f)))

/-- An application is closed or ended only while it is started anew, and it is started anew only
after a timeout below the limit. -/
def Governed (app : String) (config : Config) (before : List Entry) (entry : Entry)
    (_ : List Entry) : Prop :=
  match entry with
  | .called c _ => shuts c = true → ∃ opening count relaunch,
      before = opening ++ .noted app (.retrying count) :: relaunch ∧
        ∀ entry ∈ relaunch, Within reopens entry
  | .noted _ (.retrying count) =>
    TimedOut app before ∧ count = timeouts before ∧ count < config.maxRetries
  | _ => True

def Calm : Entry → Prop
  | .called c _ => shuts c = false
  | .noted _ (.retrying _) => False
  | _ => True

def Plain : Entry → Prop
  | .called (.deliver _) _ => False
  | entry => Calm entry

/-- Entries that leave the number of timeouts as it is. -/
def Steady (entry : Entry) : Prop := ∀ count, tally count entry = count

/-! ## Counting -/

def counted (step : Nat → Entry → Nat) (story : List Entry) : Nat := story.foldl step 0

/-- Counts that calls and expansions leave alone, and that start over when a job leaves. -/
structure Counter (step : Nat → Entry → Nat) : Prop where
  called : ∀ count c outcome, step count (.called c outcome) = count
  shown : ∀ count m span, step count (.shown m span) = count
  expanded : ∀ count app job commands, step count (.noted app (.expanded job commands)) = count
  abandoned : ∀ count app job f, step count (.noted app (.abandoned job f)) = 0

section Counters

variable {step : Nat → Entry → Nat} {a b : Agenda} {story news : List Entry} {r : Except Fault Unit}

theorem counted_append_singleton (story : List Entry) (entry : Entry) :
    counted step (story ++ [entry]) = step (counted step story) entry := by
  rw [counted, List.foldl_append]
  rfl

theorem counted_append_of_unchanged (story : List Entry)
    (h : ∀ entry ∈ news, ∀ count, step count entry = count) :
    counted step (story ++ news) = counted step story := by
  rw [counted, List.foldl_append]
  exact foldl_of_unchanged h _

variable (hstep : Counter step)

include hstep

theorem Counter.of_within {kind : Call → Bool} {entry : Entry} (h : Within kind entry)
    (count : Nat) : step count entry = count :=
  h.cases (fun c outcome _ => hstep.called count c outcome) (hstep.shown count)

theorem Counter.departure {e : Setup} {n : Job → Note} (story : List Entry) {job : Job}
    {rest : List Job} (hn : ∀ count, step count (noted e (n job)) = 0) :
    counted step (story ++ departure e n (job :: rest)) = 0 := by
  have hleft : counted step (story ++ [noted e (n job)]) = 0 := by
    rw [counted_append_singleton, hn]
  cases rest with
  | nil =>
    rw [Moves.departure, List.append_cons, counted_append_singleton, hleft]
    exact hstep.called 0 _ _
  | cons next more => exact hleft

theorem Counter.advance {e : Setup} (h : Advances e a news r b)
    (hretries : a.retries = counted step story) :
    b.retries = counted step (story ++ news) := by
  induction h generalizing story with
  | idle => rw [List.append_nil, ← hretries]
  | found _ _ hopening =>
    rw [counted_append_of_unchanged, ← hretries]
    intro entry hentry
    rcases List.mem_cons.1 hentry with rfl | hentry
    · exact fun count => hstep.expanded count _ _ _
    · exact hstep.of_within (hopening entry hentry)
  | @dropped a b job rest f news r hpending _ _ ih =>
    rw [← List.append_assoc]
    apply ih
    rw [hpending, hstep.departure (n := (.abandoned · f)) story fun count =>
      hstep.abandoned count _ _ _]
    rfl

end Counters

section Timeouts

variable {story news : List Entry}

theorem counter_tally : Counter tally :=
  ⟨fun _ _ _ => rfl, fun _ _ _ => rfl, fun _ _ _ _ => rfl, fun _ _ _ _ => rfl⟩

theorem timeouts_append_singleton (story : List Entry) (entry : Entry) :
    timeouts (story ++ [entry]) = tally (timeouts story) entry :=
  counted_append_singleton story entry

theorem timeouts_append_of_steady (story : List Entry) (h : ∀ entry ∈ news, Steady entry) :
    timeouts (story ++ news) = timeouts story :=
  counted_append_of_unchanged story h

theorem ReportsNoTimeout.of_append_left (h : ReportsNoTimeout (story ++ news)) :
    ReportsNoTimeout story :=
  fun entry hentry => h entry (List.mem_append_left _ hentry)

theorem ReportsNoTimeout.of_append_right (h : ReportsNoTimeout (story ++ news)) :
    ReportsNoTimeout news :=
  fun entry hentry => h entry (List.mem_append_right _ hentry)

end Timeouts

/-! ## What a counter records -/

structure Tracked (app : String) (config : Config) (a : Agenda) (story : List Entry) : Prop where
  retries_eq : a.retries = timeouts story
  governed : Throughout (Governed app config) [] story

section Tracking

variable {app : String} {config : Config} {a b : Agenda} {story news : List Entry}
variable {r : Except Fault Unit}

theorem stable_governed : Stable (Governed app config) :=
  fun _ _ _ _ h => h

theorem governed_of_calm {entry : Entry} (h : Calm entry) (before after : List Entry) :
    Governed app config before entry after := by
  unfold Calm at h
  unfold Governed
  split
  · intro hshuts
    rw [h] at hshuts
    cases hshuts
  · exact h.elim
  · trivial

theorem throughout_of_calm (h : ∀ entry ∈ news, Calm entry) :
    Throughout (Governed app config) story news :=
  throughout_of_forall fun entry hentry => governed_of_calm (h entry hentry)

theorem calm_of_within {kind : Call → Bool} {entry : Entry} (h : Within kind entry)
    (hkind : ∀ c, kind c = true → shuts c = false) : Calm entry :=
  h.cases (fun c _ => hkind c) fun _ _ => trivial

theorem calm_of_opens {entry : Entry} (h : Within opens entry) : Calm entry :=
  calm_of_within h fun c hc => by cases c <;> simp_all [opens, shuts]

theorem calm_of_plays {entry : Entry} (h : Within plays entry) : Calm entry :=
  calm_of_within h fun c hc => by cases c <;> simp_all [plays, shuts]

theorem calm_of_waits {entry : Entry} (h : Within waits entry) : Calm entry :=
  calm_of_within h fun c hc => by cases c <;> simp_all [waits, shuts]

theorem calm_of_plain {entry : Entry} (h : Plain entry) : Calm entry := by
  unfold Plain at h
  split at h
  · exact h.elim
  · exact h

theorem plain_of_within {kind : Call → Bool} {entry : Entry} (h : Within kind entry)
    (hcalm : Calm entry) (hdeliver : ∀ results, kind (.deliver results) = false) : Plain entry := by
  unfold Plain
  split
  · rw [Within, hdeliver] at h
    cases h
  · exact hcalm

theorem plain_departure {e : Setup} {n : Job → Note} (jobs : List Job)
    (hn : ∀ job, Plain (noted e (n job))) : ∀ entry ∈ departure e n jobs, Plain entry :=
  forall_mem_departure hn rfl jobs

theorem plain_of_advances {e : Setup} (h : Advances e a news r b) :
    ∀ entry ∈ news, Plain entry := by
  induction h with
  | idle => simp
  | found _ _ hopening =>
    intro entry hentry
    rcases List.mem_cons.1 hentry with rfl | hentry
    · trivial
    · have hwithin := hopening entry hentry
      exact plain_of_within hwithin (calm_of_opens hwithin) fun _ => rfl
  | dropped _ _ _ ih =>
    intro entry hentry
    rcases List.mem_append.1 hentry with hentry | hentry
    · exact plain_departure (n := (.abandoned · _)) _ (fun _ => trivial) entry hentry
    · exact ih entry hentry

theorem plain_of_departure {e : Setup} {n : Job → Note} (jobs : List Job)
    (hn : ∀ job, Plain (noted e (n job))) (h : Advances e a news r b) :
    ∀ entry ∈ departure e n jobs ++ news, Plain entry := by
  intro entry hentry
  rcases List.mem_append.1 hentry with hentry | hentry
  · exact plain_departure jobs hn entry hentry
  · exact plain_of_advances h entry hentry

theorem Tracked.advance {e : Setup} (h : Tracked app config a story)
    (hnext : Advances e a news r b) : Tracked app config b (story ++ news) :=
  ⟨counter_tally.advance hnext h.retries_eq,
    h.governed.append stable_governed (throughout_of_calm fun entry hentry =>
      calm_of_plain (plain_of_advances hnext entry hentry))⟩

theorem Tracked.calm (h : Tracked app config a story) (hretries : b.retries = a.retries)
    (hsteady : ∀ entry ∈ news, Steady entry) (hcalm : ∀ entry ∈ news, Calm entry) :
    Tracked app config b (story ++ news) := by
  refine ⟨?_, h.governed.append stable_governed (throughout_of_calm hcalm)⟩
  rw [timeouts_append_of_steady story hsteady, hretries, h.retries_eq]

theorem Tracked.entry {entry : Entry} (h : Tracked app config a story)
    (hretries : b.retries = a.retries) (hsteady : Steady entry) (hcalm : Calm entry) :
    Tracked app config b (story ++ [entry]) := by
  apply h.calm hretries
  · intro e he
    rw [List.mem_singleton.1 he]
    exact hsteady
  · intro e he
    rw [List.mem_singleton.1 he]
    exact hcalm

theorem tracked_of_departure {e : Setup} {n : Job → Note} {job : Job} {rest : List Job}
    (h : Throughout (Governed app config) [] story) (hpending : a.pending = job :: rest)
    (hn : ∀ job, Plain (noted e (n job))) (htally : ∀ count, tally count (noted e (n job)) = 0)
    (hretries : b.retries = 0) : Tracked app config b (story ++ departure e n a.pending) := by
  rw [hpending]
  refine ⟨?_, h.append stable_governed (throughout_of_calm fun entry hentry =>
    calm_of_plain (plain_departure _ hn entry hentry))⟩
  exact hretries.trans (counter_tally.departure story htally).symm

theorem governed_relaunch {count : Nat} {relaunch : List Entry} (htimeout : TimedOut app story)
    (hcount : count = timeouts story) (hlimit : count < config.maxRetries)
    (hrelaunch : ∀ entry ∈ relaunch, Within reopens entry) :
    Throughout (Governed app config) story (.noted app (.retrying count) :: relaunch) := by
  refine throughout_cons ⟨htimeout, hcount, hlimit⟩ fun before entry after hsplit => ?_
  have hbefore : ∀ entry ∈ before, Within reopens entry := fun entry hentry =>
    hrelaunch entry (by rw [hsplit]; exact List.mem_append_left _ hentry)
  have hwithin : Within reopens entry := hrelaunch entry (by rw [hsplit]; simp)
  unfold Governed
  split
  · exact fun _ => ⟨story, count, before, by simp, hbefore⟩
  · exact hwithin.elim
  · trivial

theorem tracked_of_relaunch {relaunch : List Entry} (h : Throughout (Governed app config) [] story)
    (htimeout : TimedOut app story) (hcount : timeouts story = a.retries + 1)
    (hlimit : a.retries + 1 < config.maxRetries)
    (hrelaunch : ∀ entry ∈ relaunch, Within reopens entry) :
    Tracked app config a.beginAgain
      (story ++ .noted app (.retrying (a.retries + 1)) :: relaunch) := by
  have hsteady : ∀ entry ∈ relaunch, Steady entry :=
    fun entry hentry => counter_tally.of_within (hrelaunch entry hentry)
  refine ⟨?_, h.append stable_governed (governed_relaunch htimeout hcount.symm hlimit hrelaunch)⟩
  rw [List.append_cons, timeouts_append_of_steady _ hsteady, timeouts_append_singleton, hcount]
  rfl

theorem isCancelled_of_retryable {f : Fault} (h : f.retryable = true) : f.isCancelled = false := by
  cases f <;> simp_all [Fault.retryable, Fault.isCancelled]

theorem tracked_of_timeout {e : Setup} {c : Command} {f : Fault} {job : Job} {rest : List Job}
    (happ : e.app = app) (hconfig : e.config = config)
    (h : Throughout (Governed app config) [] story) (htimeout : TimedOut app story)
    (hcount : timeouts story = a.retries + 1) (hf : f.retryable = true)
    (hpending : a.pending = job :: rest) (hfollow : Follows e c a (.error f) news r b) :
    Tracked app config b (story ++ news) := by
  subst happ hconfig
  cases hfollow with
  | cut hcancelled =>
    rw [isCancelled_of_retryable hf] at hcancelled
    cases hcancelled
  | abandoned _ _ hnext =>
    rw [← List.append_assoc]
    exact (tracked_of_departure (n := (.abandoned · _)) h hpending (fun _ => trivial)
      (fun _ => rfl) rfl).advance hnext
  | stuck _ hlimit hrelaunch => exact tracked_of_relaunch h htimeout hcount hlimit hrelaunch
  | begunAgain _ hlimit hrelaunch hnext =>
    rw [← List.append_assoc]
    exact (tracked_of_relaunch h htimeout hcount hlimit hrelaunch).advance hnext

theorem tracked_of_rest {e : Setup} {c : Command} {outcome : Except Fault Unit} {job : Job}
    {rest : List Job} (h : Tracked app config a story)
    (hother : ∀ f, outcome = .error f → f.retryable = false)
    (hpending : a.pending = job :: rest) (hfollow : Follows e c a outcome news r b) :
    Tracked app config b (story ++ news) := by
  cases hfollow with
  | onward =>
    rw [List.append_nil]
    exact h
  | retired _ hnext =>
    rw [← List.append_assoc]
    exact (tracked_of_departure (n := .retired) h.governed hpending (fun _ => trivial)
      (fun _ => rfl) rfl).advance hnext
  | cut =>
    rw [List.append_nil]
    exact h
  | abandoned _ _ hnext =>
    rw [← List.append_assoc]
    exact (tracked_of_departure (n := (.abandoned · _)) h.governed hpending (fun _ => trivial)
      (fun _ => rfl) rfl).advance hnext
  | stuck hf =>
    rw [hother _ rfl] at hf
    cases hf
  | begunAgain hf =>
    rw [hother _ rfl] at hf
    cases hf

theorem color_of_performs {c : Command} {work : List Entry} {f : Fault}
    (h : Performs c work (.error f)) (hreports : ReportsNoTimeout work)
    (hf : f.retryable = true) :
    ∃ p expected, c = .color p expected := by
  cases h with
  | played _ _ htimeout =>
    rcases htimeout f rfl hf with hcolor | ⟨entry, hentry, hreport⟩
    · exact hcolor
    · rw [hreports entry hentry f hreport] at hf
      cases hf

theorem steady_of_performs {e : Setup} {c : Command} {work : List Entry}
    {outcome : Except Fault Unit} (h : Performs c work outcome) :
    ∀ entry ∈ noted e (.dispatched c) :: work, Steady entry ∧ Calm entry := by
  intro entry hentry
  rcases List.mem_cons.1 hentry with rfl | hworked
  · exact ⟨fun _ => rfl, trivial⟩
  cases h with
  | empty => cases hworked
  | delivered =>
    rw [List.mem_singleton.1 hworked]
    exact ⟨fun _ => rfl, rfl⟩
  | played _ hwork =>
    have hwithin := hwork entry hworked
    exact ⟨counter_tally.of_within hwithin, calm_of_plays hwithin⟩

theorem steady_performed {app : String} {c : Command} {outcome : Except Fault Unit}
    (h : ∀ f, outcome = .error f → f.retryable = false) :
    Steady (.noted app (.performed c outcome)) := by
  intro count
  unfold tally
  split
  · rename_i f heq
    cases heq
    rw [h f rfl]
    rfl
  · rename_i heq
    cases heq
  · rename_i heq
    cases heq
  · rfl

theorem tracked_of_steps {e : Setup} {c : Command} {job : Job} {rest : List Job}
    (happ : e.app = app) (hconfig : e.config = config) (h : Tracked app config a story)
    (hpending : a.pending = job :: rest) (hreports : ReportsNoTimeout news)
    (hstep : Steps e c a news r b) : Tracked app config b (story ++ news) := by
  cases hstep with
  | refused =>
    rw [List.append_nil]
    exact h
  | @performed work later pause outcome r _ b hwork hfollow hpause _ =>
    let start := noted e (.dispatched c) :: work
    let done := noted e (.performed c outcome)
    have hstart := steady_of_performs (e := e) hwork
    have hbegun : Tracked app config a (story ++ start) :=
      h.calm rfl (fun entry hentry => (hstart entry hentry).1) fun entry hentry =>
        (hstart entry hentry).2
    have hpaused : ∀ story', Tracked app config b story' → Tracked app config b (story' ++ pause) :=
      fun story' hstory => hstory.calm rfl
        (fun entry hentry => counter_tally.of_within (hpause entry hentry))
        fun entry hentry => calm_of_waits (hpause entry hentry)
    have hshape : story ++ (start ++ done :: later ++ pause) =
        story ++ start ++ [done] ++ later ++ pause := by simp
    show Tracked app config b (story ++ (start ++ done :: later ++ pause))
    rw [hshape]
    apply hpaused
    -- a timeout puts the count one ahead of the counter, until what follows it catches up
    by_cases htimeout : ∃ f, outcome = .error f ∧ f.retryable = true
    · obtain ⟨f, rfl, hf⟩ := htimeout
      have hworkReports : ReportsNoTimeout work := fun entry hentry =>
        hreports entry (by simp [hentry])
      obtain ⟨p, expected, rfl⟩ := color_of_performs hwork hworkReports hf
      have htimedOut : TimedOut app (story ++ start ++ [done]) :=
        ⟨p, expected, f, hf, by rw [List.getLast?_concat]; simp only [done, noted, happ]⟩
      have hcount : timeouts (story ++ start ++ [done]) = a.retries + 1 := by
        rw [timeouts_append_singleton, ← hbegun.retries_eq]
        exact if_pos hf
      have hgoverned : Throughout (Governed app config) [] (story ++ start ++ [done]) :=
        hbegun.governed.append stable_governed (throughout_cons trivial throughout_nil)
      exact tracked_of_timeout happ hconfig hgoverned htimedOut hcount hf hpending hfollow
    · have hother : ∀ f, outcome = .error f → f.retryable = false := by
        intro f hf
        by_contra hretry
        exact htimeout ⟨f, hf, by simpa using hretry⟩
      have hdone : Tracked app config a (story ++ start ++ [done]) :=
        hbegun.entry rfl (steady_performed hother) trivial
      exact tracked_of_rest hdone hother hpending hfollow

end Tracking

/-! ## Careers -/

theorem tracked_of_course {app : String} {config : Config} {seen : List Setting} {jobs : List Job}
    {mode : Option Setting} {a : Agenda} {story : List Entry}
    (h : Course app config seen jobs mode a story) (hreports : ReportsNoTimeout story) :
    Tracked app config a story := by
  induction h with
  | fresh => exact ⟨rfl, throughout_nil⟩
  | queued h hbusy ih =>
    exact (ih hreports.of_append_left).entry rfl (fun _ => rfl) trivial
  | @begun jobs a b story news job w r h hw hidle hcommands hnext ih =>
    have hjoined : Tracked app config (a.queue job) (story ++ [.noted app (.queued job)]) :=
      (ih hreports.of_append_left).entry rfl (fun _ => rfl) trivial
    rw [List.append_cons]
    exact hjoined.advance hnext
  | advanced h hw hnext ih => exact (ih hreports.of_append_left).advance hnext
  | held h hopening ih =>
    exact (ih hreports.of_append_left).calm rfl
      (fun entry hentry => counter_tally.of_within (hopening entry hentry))
      fun entry hentry => calm_of_opens (hopening entry hentry)
  | resumed h hw hcommands hopening ih =>
    exact (ih hreports.of_append_left).calm rfl
      (fun entry hentry => counter_tally.of_within (hopening entry hentry))
      fun entry hentry => calm_of_opens (hopening entry hentry)
  | started h hw hnext ih => exact (ih hreports.of_append_left).advance hnext
  | spared h hw hcommands hpending ih => exact ih hreports
  | @stepped jobs a b story news w c commands h hcommands hstep ih =>
    obtain ⟨job, rest, hpending⟩ :=
      List.exists_cons_of_ne_nil (pending_of_commands (orderly_of_course h).1 hcommands)
    have ha := ih hreports.of_append_left
    have hpop : Tracked app config { a with commands } story := ⟨ha.retries_eq, ha.governed⟩
    exact tracked_of_steps rfl rfl hpop hpending hreports.of_append_right hstep
  | @stopped jobs a b story news w c commands f h hcommands hstep ih =>
    obtain ⟨job, rest, hpending⟩ :=
      List.exists_cons_of_ne_nil (pending_of_commands (orderly_of_course h).1 hcommands)
    have ha := ih hreports.of_append_left
    have hpop : Tracked app config { a with commands } story := ⟨ha.retries_eq, ha.governed⟩
    exact tracked_of_steps rfl rfl hpop hpending hreports.of_append_right hstep
  | finished h hcommands ih =>
    have ha := ih hreports
    exact ⟨ha.retries_eq, ha.governed⟩

/-! ## What follows a command -/

def FirstExpansion (e : Setup) (job : Job) (commands : List Command) : Prop :=
  ∃ operation feature base navigation recorded,
    job.operation? = some operation ∧ e.config.catalog.get? operation = some feature ∧
    e.loadRecording ⟨.base, "Base"⟩ = .ok base ∧
    e.loadRecording ⟨.navigation, feature.screen⟩ = .ok navigation ∧
    e.loadRecording ⟨.action, operation⟩ = .ok recorded ∧
    commands = .paramChange (e.params job operation) :: base ++ navigation ++ recorded ++
      [.webhook (e.params job operation)]

theorem expand_of_first {e : Setup} {job : Job} {commands : List Command}
    (h : FirstExpansion e job commands) : ∃ x, e.expand [] job = .ok x ∧ x.commands = commands := by
  obtain ⟨operation, feature, base, navigation, recorded, hoperation, hfeature, hbase, hnavigation,
    hrecorded, rfl⟩ := h
  have hload : e.loadAll (Setup.recordings (e.previousScreen? []) feature.screen operation) =
      .ok (base ++ (navigation ++ (recorded ++ []))) := by
    show e.loadAll [⟨.base, "Base"⟩, ⟨.navigation, feature.screen⟩, ⟨.action, operation⟩] = _
    simp only [Setup.loadAll, hbase, hnavigation, hrecorded]
    rfl
  refine ⟨⟨operation, _⟩, ?_, rfl⟩
  unfold Setup.expand
  rw [hoperation]
  dsimp only
  rw [hfeature]
  dsimp only
  rw [hload]
  show Except.ok _ = _
  simp

variable [Desk σ]

/-- What an engine at `t` does after performing the command taken off its agenda, where `u` is the
session right after that. -/
structure Answered (e : Setup) (t u : Session σ) (c : Command) (commands : List Command)
    (outcome : Except Fault Unit) : Prop where
  /-- Below the limit a timeout that the application does not survive stops the run. -/
  stuck : ∀ f g stage, outcome = .error f → f.retryable = true →
    t.agenda.retries + 1 < e.config.maxRetries →
    e.relaunch (u.stage.record (noted e (.retrying (t.agenda.retries + 1)))) = (.error g, stage) →
    (e.step c (pop t commands)).1 = .error g ∧
      (e.step c (pop t commands)).2.agenda = t.agenda.beginAgain
  /-- Below the limit a timeout that the application survives begins the job anew. -/
  begunAgain : ∀ f stage job rest all, outcome = .error f → f.retryable = true →
    t.agenda.retries + 1 < e.config.maxRetries →
    e.relaunch (u.stage.record (noted e (.retrying (t.agenda.retries + 1)))) = (.ok (), stage) →
    t.agenda.pending = job :: rest → FirstExpansion e job all →
    (e.step c (pop t commands)).2.agenda.pending = job :: rest ∧
      (e.step c (pop t commands)).2.agenda.commands = all ∧
      (e.step c (pop t commands)).2.agenda.retries = t.agenda.retries + 1
  /-- At the limit the job is given up; the application is not closed, nothing is delivered. -/
  givenUp : ∀ f job rest, outcome = .error f → f.retryable = true →
    e.config.maxRetries ≤ t.agenda.retries + 1 → t.agenda.pending = job :: rest →
    (e.step c (pop t commands)).2.agenda.pending <:+ rest ∧
      (e.step c (pop t commands)).2.agenda.retries = 0 ∧
      (since u.stage (e.step c (pop t commands)).2.stage).head? =
        some (noted e (.abandoned job f)) ∧
      ∀ entry ∈ since u.stage (e.step c (pop t commands)).2.stage, Plain entry
  /-- A command that succeeds leaves the agenda alone, the delivery of the results apart. -/
  passed : (∀ params, c ≠ .webhook params) → outcome = .ok () →
    (e.step c (pop t commands)).2.agenda = { t.agenda with commands }
  /-- Where nothing timed out, the counter does not rise, and the application is not closed. -/
  spared : (∀ f, outcome = .error f → f.retryable = false) →
    ((e.step c (pop t commands)).2.agenda.retries = t.agenda.retries ∨
      (e.step c (pop t commands)).2.agenda.retries = 0) ∧
    ∀ entry ∈ since t.stage (e.step c (pop t commands)).2.stage, Calm entry

section Answering

variable {e : Setup} {t u : Session σ} {c : Command} {commands : List Command}

theorem follow_of_timeout {f : Fault} (hf : f.retryable = true)
    (hlimit : u.agenda.retries + 1 < e.config.maxRetries) :
    e.follow c (.error f) u = e.beginAgain u := by
  have hcancelled : ¬ f.isCancelled = true := by simp [isCancelled_of_retryable hf]
  have hbelow : ¬ e.config.maxRetries ≤ u.agenda.retries + 1 := by omega
  rw [Setup.follow, Setup.recover, if_neg hcancelled, if_pos hf, Setup.retry, if_neg hbelow]

omit [Desk σ] in
theorem pending_of_advances {a b : Agenda} {news : List Entry} {r : Except Fault Unit}
    (h : Advances e a news r b) : b.pending <:+ a.pending ∧ (a.retries = 0 → b.retries = 0) := by
  induction h with
  | idle => exact ⟨List.suffix_refl _, fun h => h⟩
  | found => exact ⟨List.suffix_refl _, fun h => h⟩
  | dropped _ _ _ ih => exact ⟨ih.1.trans (List.tail_suffix _), fun _ => ih.2 rfl⟩

/-- Beginning a job again after a timeout, as far as the start of the application decides it. -/
theorem step_of_timeout {f : Fault} (hu : e.dispatch c (pop t commands) = (.ok (.error f), u))
    (hf : f.retryable = true) (hlimit : t.agenda.retries + 1 < e.config.maxRetries) :
    (∀ g stage,
      e.relaunch (u.stage.record (noted e (.retrying (t.agenda.retries + 1)))) =
        (.error g, stage) →
      (e.step c (pop t commands)).1 = .error g ∧
        (e.step c (pop t commands)).2.agenda = t.agenda.beginAgain) ∧
    ∀ stage,
      e.relaunch (u.stage.record (noted e (.retrying (t.agenda.retries + 1)))) = (.ok (), stage) →
      (e.step c (pop t commands)).2.agenda = t.agenda.beginAgain.loaded e.expand := by
  obtain ⟨hagenda, -⟩ := performs_of_dispatch e hu
  have hretries : u.agenda.retries = t.agenda.retries := by rw [hagenda]; rfl
  have hagain : u.agenda.beginAgain = t.agenda.beginAgain := by rw [hagenda]; rfl
  have hfollow := follow_of_timeout (c := c) hf (by rw [hretries]; exact hlimit)
  obtain ⟨memory, hok, herror⟩ := beginAgain_cases e u
  rw [hretries, hagain] at hok herror
  constructor
  · intro g stage hrelaunch
    rw [herror g stage hrelaunch] at hfollow
    obtain ⟨pause, -, hsame, -, hfails⟩ := step_of_follow e hu hfollow
    exact ⟨hfails g rfl, hsame⟩
  · intro stage hrelaunch
    rw [hok stage hrelaunch] at hfollow
    rcases hnext : e.next ⟨⟨t.agenda.beginAgain, memory⟩, stage⟩ with ⟨r, v⟩
    rw [hnext] at hfollow
    obtain ⟨pause, -, hsame, -⟩ := step_of_follow e hu hfollow
    rw [hsame, ← congrArg (·.2.agenda) hnext]
    exact Setup.agenda_next e _

theorem begunAgain_of_timeout {f : Fault} {stage : Stage σ} {job : Job} {rest : List Job}
    {all : List Command} (hu : e.dispatch c (pop t commands) = (.ok (.error f), u))
    (hf : f.retryable = true) (hlimit : t.agenda.retries + 1 < e.config.maxRetries)
    (hrelaunch : e.relaunch (u.stage.record (noted e (.retrying (t.agenda.retries + 1)))) =
      (.ok (), stage))
    (hpending : t.agenda.pending = job :: rest) (hfirst : FirstExpansion e job all) :
    (e.step c (pop t commands)).2.agenda.pending = job :: rest ∧
      (e.step c (pop t commands)).2.agenda.commands = all ∧
      (e.step c (pop t commands)).2.agenda.retries = t.agenda.retries + 1 := by
  obtain ⟨x, hexpand, hx⟩ := expand_of_first hfirst
  have hagain : t.agenda.beginAgain.pending = job :: rest := hpending
  have hload := load_of_ok e.expand hagain hexpand
  rw [(step_of_timeout hu hf hlimit).2 stage hrelaunch, Agenda.loaded, hload]
  exact ⟨hpending, hx, rfl⟩

theorem givenUp_of_timeout {f : Fault} {job : Job} {rest : List Job}
    (hu : e.dispatch c (pop t commands) = (.ok (.error f), u)) (hf : f.retryable = true)
    (hlimit : e.config.maxRetries ≤ t.agenda.retries + 1)
    (hpending : t.agenda.pending = job :: rest) :
    (e.step c (pop t commands)).2.agenda.pending <:+ rest ∧
      (e.step c (pop t commands)).2.agenda.retries = 0 ∧
      (since u.stage (e.step c (pop t commands)).2.stage).head? =
        some (noted e (.abandoned job f)) ∧
      ∀ entry ∈ since u.stage (e.step c (pop t commands)).2.stage, Plain entry := by
  obtain ⟨hagenda, -⟩ := performs_of_dispatch e hu
  have hretries : u.agenda.retries = t.agenda.retries := by rw [hagenda]; rfl
  have hjobs : u.agenda.pending = job :: rest := by rw [hagenda]; exact hpending
  obtain ⟨news, hnews, hfollows⟩ := realizes_follow e c (.error f) u
  rcases hv : e.follow c (.error f) u with ⟨r, v⟩
  rw [hv] at hnews hfollows
  obtain ⟨pause, hpause, hsame, hwaits, -⟩ := step_of_follow e hu hv
  have hsince : since u.stage (e.step c (pop t commands)).2.stage = news ++ pause :=
    since_of_adds (hnews.trans hpause)
  rw [hsame, hsince]
  dsimp only at hfollows
  generalize v.agenda = b at hfollows ⊢
  cases hfollows with
  | cut hcancelled =>
    rw [isCancelled_of_retryable hf] at hcancelled
    cases hcancelled
  | stuck _ hbelow => omega
  | begunAgain _ hbelow => omega
  | @abandoned _ news _ _ _ _ hnext =>
    obtain ⟨hsuffix, hzero⟩ := pending_of_advances hnext
    rw [pending_of_dropFirst hjobs] at hsuffix
    refine ⟨hsuffix, hzero rfl, ?_, ?_⟩
    · rw [hjobs]
      cases rest <;> rfl
    · intro entry hentry
      rcases List.mem_append.1 hentry with hentry | hentry
      · exact plain_of_departure (n := (.abandoned · f)) _ (fun _ => trivial) hnext entry hentry
      · have hwithin := hwaits entry hentry
        exact plain_of_within hwithin (calm_of_waits hwithin) fun _ => rfl

theorem passed_of_ok (hu : e.dispatch c (pop t commands) = (.ok (.ok ()), u))
    (hc : ∀ params, c ≠ .webhook params) :
    (e.step c (pop t commands)).2.agenda = { t.agenda with commands } := by
  obtain ⟨hagenda, -⟩ := performs_of_dispatch e hu
  have hfollow : e.follow c (.ok ()) u = (.ok (), u) := by
    cases c with
    | webhook params => exact absurd rfl (hc params)
    | _ => rfl
  obtain ⟨pause, -, hsame, -⟩ := step_of_follow e hu hfollow
  rw [hsame, hagenda]
  rfl

theorem spared_of_dispatch {outcome : Except Fault Unit}
    (hu : e.dispatch c (pop t commands) = (.ok outcome, u))
    (hother : ∀ f, outcome = .error f → f.retryable = false) :
    ((e.step c (pop t commands)).2.agenda.retries = t.agenda.retries ∨
      (e.step c (pop t commands)).2.agenda.retries = 0) ∧
    ∀ entry ∈ since t.stage (e.step c (pop t commands)).2.stage, Calm entry := by
  obtain ⟨hagenda, work, hadds, hwork⟩ := performs_of_dispatch e hu
  obtain ⟨news, hnews, hfollows⟩ := realizes_follow e c outcome u
  rcases hv : e.follow c outcome u with ⟨r, v⟩
  rw [hv] at hnews hfollows
  obtain ⟨pause, hpause, hsame, hwaits, -⟩ := step_of_follow e hu hv
  have hsince := since_of_adds (s := t.stage) ((hadds.trans hnews).trans hpause)
  have hretries : u.agenda.retries = t.agenda.retries := by rw [hagenda]; rfl
  rw [hsame, hsince, ← hretries]
  dsimp only at hfollows
  generalize v.agenda = b at hfollows ⊢
  have hkey : (b.retries = u.agenda.retries ∨ b.retries = 0) ∧ ∀ entry ∈ news, Calm entry := by
    cases hfollows with
    | onward => exact ⟨.inl rfl, by simp⟩
    | cut => exact ⟨.inl rfl, by simp⟩
    | retired _ hnext =>
      refine ⟨.inr ((pending_of_advances hnext).2 rfl), fun entry hentry => calm_of_plain ?_⟩
      exact plain_of_departure (n := .retired) _ (fun _ => trivial) hnext entry hentry
    | abandoned _ _ hnext =>
      refine ⟨.inr ((pending_of_advances hnext).2 rfl), fun entry hentry => calm_of_plain ?_⟩
      exact plain_of_departure (n := (.abandoned · _)) _ (fun _ => trivial) hnext entry hentry
    | stuck hf =>
      rw [hother _ rfl] at hf
      cases hf
    | begunAgain hf =>
      rw [hother _ rfl] at hf
      cases hf
  refine ⟨hkey.1, fun entry hentry => ?_⟩
  rcases List.mem_append.1 hentry with hentry | hentry
  · rcases List.mem_append.1 hentry with hentry | hentry
    · rcases List.mem_append.1 hentry with hentry | hentry
      · exact (steady_of_performs hwork entry hentry).2
      · rw [List.mem_singleton.1 hentry]
        trivial
    · exact hkey.2 entry hentry
  · exact calm_of_waits (hwaits entry hentry)

theorem answered_of_dispatch {outcome : Except Fault Unit}
    (hu : e.dispatch c (pop t commands) = (.ok outcome, u)) :
    Answered e t u c commands outcome := by
  refine ⟨?_, ?_, ?_, ?_, spared_of_dispatch hu⟩
  · rintro f g stage rfl hf hlimit hrelaunch
    exact (step_of_timeout hu hf hlimit).1 g stage hrelaunch
  · rintro f stage job rest all rfl hf hlimit hrelaunch hpending hfirst
    exact begunAgain_of_timeout hu hf hlimit hrelaunch hpending hfirst
  · rintro f job rest rfl hf hlimit hpending
    exact givenUp_of_timeout hu hf hlimit hpending
  · rintro hc rfl
    exact passed_of_ok hu hc

end Answering

/-- The counter of an engine is the number of timeouts of its first job, between requests and
between the commands of a run; and what follows a command keeps to the limit. -/
theorem retries_counted (app : String) (config : Config) (turns : List (Turn σ)) :
    (ReportsNoTimeout (career app config turns).story →
      (career app config turns).engine.agenda.retries = timeouts (career app config turns).story ∧
      ∀ before entry after, (career app config turns).story = before ++ entry :: after →
        Governed app config before entry after) ∧
    ∀ (w : Setting) (stage : Stage σ) (t : Session σ),
      let e := w.setup app config
      let story := (career app config turns).story ++ since stage t.stage
      Stands e ⟨(career app config turns).engine, stage⟩ t → ReportsNoTimeout story →
        t.agenda.retries = timeouts story ∧
        ∀ c commands outcome u, t.agenda.commands = c :: commands →
          e.dispatch c (pop t commands) = (.ok outcome, u) →
            ReportsNoTimeout (since t.stage u.stage) →
            (∀ f, outcome = .error f → f.retryable = true → ∃ p expected, c = .color p expected) ∧
            Answered e t u c commands outcome := by
  constructor
  · intro hreports
    have htracked := tracked_of_course (course_of_turns app config turns) hreports
    refine ⟨htracked.retries_eq, fun before entry after hsplit => ?_⟩
    simpa using htracked.governed before entry after hsplit
  · intro w stage t e story ht hreports
    have hcourse : Course app config (w :: turns.map (·.setting)) _ none _ _ :=
      course_career app config turns fun turn hturn =>
        List.mem_cons_of_mem _ (List.mem_map_of_mem hturn)
    obtain ⟨news, hnews, hstands⟩ := course_stands
      (s := ⟨(career app config turns).engine, stage⟩) hcourse List.mem_cons_self ht
    have hsince : since stage t.stage = news := since_of_adds hnews
    have hstory : story = (career app config turns).story ++ news := by rw [← hsince]
    rw [hstory] at hreports ⊢
    refine ⟨(tracked_of_course hstands hreports).retries_eq, ?_⟩
    intro c commands outcome u _ hu hown
    refine ⟨?_, answered_of_dispatch hu⟩
    rintro f rfl hf
    obtain ⟨-, work, hadds, hwork⟩ := performs_of_dispatch e hu
    have hentries := since_of_adds (s := t.stage) hadds
    rw [hentries] at hown
    exact color_of_performs hwork (fun entry hentry => hown entry (by simp [hentry])) hf

/-! ## A color that does not show up -/

def watchful : Setting :=
  { bare with
    files := .ofList [("m", .folder), ("m/app", .folder), ("m/app/Act", .folder),
      ("m/app/Act/pay.txt",
        .text "[\x7b\"action\":\"color\",\"position\":[0.5,0.5],\"value\":[9,9,9]\x7d]")] }

def watching : Setup := watchful.setup "app" hasty

def opening : Command := .paramChange (watching.params errand "pay")

def watched : Command :=
  .color ⟨.finite false 4503599627370496 (-53), .finite false 4503599627370496 (-53)⟩ ⟨9, 9, 9⟩

def closing : Command := .webhook (watching.params errand "pay")

def watch : Session Rehearsal :=
  ⟨(career "app" hasty (errandAdded watchful)).engine, stageWith true true⟩

def watchBegun : Except Fault Unit × Session Rehearsal := begin watching watch

def atColor : Except Fault Unit × Session Rehearsal :=
  watching.step opening (pop watchBegun.2 [watched, closing])

def unseen : Except Fault (Except Fault Unit) × Session Rehearsal :=
  watching.dispatch watched (pop atColor.2 [closing])

def restarted : Except Fault Unit × Stage Rehearsal :=
  watching.relaunch (unseen.2.stage.record (noted watching (.retrying 1)))

def unseenFault : Fault :=
  .verificationTimeout "Rgb(9, 9, 9) not detected at (500, 500) after 1 attempts"

def isNoTimeout : Entry → Bool
  | .called _ (.error f) => !f.retryable
  | _ => true

theorem reportsNoTimeout_of_isNoTimeout {story : List Entry} (h : story.all isNoTimeout = true) :
    ReportsNoTimeout story := by
  intro entry hentry f hreport
  have hall := List.all_eq_true.1 h entry hentry
  unfold Reports at hreport
  split at hreport
  · subst hreport
    simpa [isNoTimeout] using hall
  · exact hreport.elim

theorem watch_facts :
    watchBegun.1 = .ok () ∧ watchBegun.2.agenda.commands = [opening, watched, closing] ∧
    atColor.1 = .ok () ∧ atColor.2.agenda.commands = [watched, closing] ∧
    atColor.2.agenda.retries = 0 ∧ atColor.2.agenda.pending = [errand] ∧
    unseen.1 = .ok (.error unseenFault) ∧ restarted.1 = .ok () ∧
    ((career "app" hasty (errandAdded watchful)).story ++
      since (stageWith true true) atColor.2.stage).all isNoTimeout = true ∧
    (since atColor.2.stage unseen.2.stage).all isNoTimeout = true := by
  decide +kernel

theorem firstExpansion_errand :
    FirstExpansion watching errand [opening, watched, closing] := by
  have hfeature : ((watching.config.catalog.get? "pay").map fun feature =>
      watching.loadRecording ⟨.navigation, feature.screen⟩) = some (.ok []) := by decide +kernel
  obtain ⟨feature, hget, hnavigation⟩ := Option.map_eq_some_iff.1 hfeature
  exact ⟨"pay", feature, [], [], [watched], by decide +kernel, hget, by decide +kernel,
    hnavigation, by decide +kernel, rfl⟩

theorem eq_of_fst {α β : Type} {x : α × β} {a : α} (h : x.1 = a) : x = (a, x.2) := by
  rw [← h]

/-- The color times out for the first time, and the job is begun anew with all its commands. -/
theorem errand_begun_anew :
    let again := (watching.step watched (pop atColor.2 [closing])).2.agenda
    Stands watching watch atColor.2 ∧ again.pending = [errand] ∧
      again.commands = [opening, watched, closing] ∧ again.retries = 1 := by
  intro again
  obtain ⟨hbegun, hcommands, hreached, hleft, hretries, hpending, hunseen, hrestarted, hstory,
    hown⟩ := watch_facts
  have hstands : Stands watching watch atColor.2 :=
    (Stands.begun (eq_of_fst hbegun)).onward hcommands (eq_of_fst hreached)
  obtain ⟨-, hnext⟩ := (retries_counted "app" hasty (errandAdded watchful)).2 watchful
    (stageWith true true) atColor.2 hstands (reportsNoTimeout_of_isNoTimeout hstory)
  obtain ⟨-, hanswered⟩ := hnext watched [closing] (.error unseenFault) unseen.2 hleft
    (eq_of_fst hunseen) (reportsNoTimeout_of_isNoTimeout hown)
  have hlimit : atColor.2.agenda.retries + 1 < watching.config.maxRetries := by
    rw [hretries]
    decide
  have hrelaunch : watching.relaunch (unseen.2.stage.record
      (noted watching (.retrying (atColor.2.agenda.retries + 1)))) = (.ok (), restarted.2) := by
    rw [hretries]
    exact eq_of_fst hrestarted
  have hagain := hanswered.begunAgain unseenFault restarted.2 errand [] _ rfl rfl hlimit hrelaunch
    hpending firstExpansion_errand
  rw [hretries] at hagain
  exact ⟨hstands, hagain⟩

end Playback.Proofs.Retries
