import Playback.Proofs.Queue
import Playback.Proofs.Story
/-!
# The account of an engine's jobs

The jobs that left the queue of an engine and those that still wait are exactly the jobs it was
given, in their order. A job leaves for one of two reasons: its results were delivered, or it was
given up. The account of a story says for each entry what stands right before it or right after it:
a delivery is followed by the job at the head leaving with its results, and the last job to leave is
followed by the signal, which is sent for no other reason.
-/

namespace Playback.Proofs.Accounts

open Footprints Launching Performing Moves Career Queue Story

variable {σ : Type} (app : String)

def idleSignal : Entry := .called (.signal app) (.ok ())

def Leaves (job : Job) (queue : List Job) (after : List Entry) : Prop :=
  ∃ rest, queue = job :: rest ∧ (rest = [] → ∃ more, after = idleSignal app :: more)

def Departed (before : List Entry) : Prop :=
  ∃ job, before.getLast? = some (.noted app (.retired job)) ∨
    ∃ reason, before.getLast? = some (.noted app (.abandoned job reason))

/-- What an entry has to do with the jobs. -/
def Accounted (before : List Entry) (entry : Entry) (after : List Entry) : Prop :=
  match entry with
  | .called (.deliver _) _ =>
    ∃ params job rest more, waiting before = job :: rest ∧
      after =
        .noted app (.performed (.webhook params) (.ok ())) :: .noted app (.retired job) :: more
  | .noted _ (.performed (.webhook _) outcome) =>
    outcome = .ok () ∧ ∃ job rest more, waiting before = job :: rest ∧
      after = .noted app (.retired job) :: more
  | .noted _ (.retired job) =>
    (∃ params, before.getLast? = some (.noted app (.performed (.webhook params) (.ok ())))) ∧
      Leaves app job (waiting before) after
  | .noted _ (.abandoned job _) => Leaves app job (waiting before) after
  | .called (.signal who) _ => who = app ∧ waiting before = [] ∧ Departed app before
  | _ => True

def Silent : Entry → Prop
  | .called (.deliver _) _ => False
  | .called (.signal _) _ => False
  | .noted _ (.performed (.webhook _) _) => False
  | entry => Still entry

/-- What a part of a story does to the account: every entry of it is accounted for, and the jobs
that leave are those the queue is short of afterwards. -/
structure Keeps (story news : List Entry) (queue : List Job) : Prop where
  accounted : Throughout (Accounted app) story news
  waiting_eq : waiting (story ++ news) = queue
  joined_eq : joined news = []
  settled : left news ++ queue = waiting story

variable {app}

theorem Leaves.append {job : Job} {queue : List Job} {after : List Entry}
    (h : Leaves app job queue after) (more : List Entry) :
    Leaves app job queue (after ++ more) := by
  obtain ⟨rest, hqueue, hsignal⟩ := h
  refine ⟨rest, hqueue, fun hrest => ?_⟩
  obtain ⟨later, hlater⟩ := hsignal hrest
  exact ⟨later ++ more, by rw [hlater, List.cons_append]⟩

theorem stable_accounted : Stable (Accounted app) := by
  intro before entry after more h
  unfold Accounted at *
  split at h
  · obtain ⟨params, job, rest, later, hqueue, hafter⟩ := h
    exact ⟨params, job, rest, later ++ more, hqueue, by simp [hafter]⟩
  · obtain ⟨hok, job, rest, later, hqueue, hafter⟩ := h
    exact ⟨hok, job, rest, later ++ more, hqueue, by simp [hafter]⟩
  · exact ⟨h.1, h.2.append more⟩
  · exact h.append more
  · exact h
  · trivial

theorem still_of_silent {entry : Entry} (h : Silent entry) : Still entry := by
  unfold Silent at h
  split at h
  · exact h.elim
  · exact h.elim
  · exact h.elim
  · exact h

theorem accounted_of_silent {entry : Entry} (h : Silent entry) (before after : List Entry) :
    Accounted app before entry after := by
  unfold Silent Still at h
  unfold Accounted
  split <;> simp_all

/-! ## Parts of a story -/

variable {story old new news : List Entry} {queue rest : List Job} {job : Job}

theorem Keeps.append (hold : Keeps app story old queue) (hnew : Keeps app (story ++ old) new rest) :
    Keeps app story (old ++ new) rest := by
  refine ⟨hold.accounted.append stable_accounted hnew.accounted, ?_, ?_, ?_⟩
  · rw [← List.append_assoc, hnew.waiting_eq]
  · rw [joined_append, hold.joined_eq, hnew.joined_eq, List.nil_append]
  · calc
      left (old ++ new) ++ rest = left old ++ (left new ++ rest) := by
        rw [left_append, List.append_assoc]
      _ = left old ++ queue := by rw [hnew.settled, hold.waiting_eq]
      _ = waiting story := hold.settled

theorem keeps_of_silent (h : ∀ entry ∈ news, Silent entry) :
    Keeps app story news (waiting story) := by
  have hstill : ∀ entry ∈ news, Still entry := fun entry hentry => still_of_silent (h entry hentry)
  refine ⟨?_, waiting_append_of_still story hstill, joined_of_still hstill, ?_⟩
  · exact throughout_of_forall fun entry hentry => accounted_of_silent (h entry hentry)
  · rw [left_of_still hstill, List.nil_append]

theorem keeps_departure {e : Setup} {n : Job → Note} (happ : e.app = app)
    (hqueue : waiting story = job :: rest)
    (hleft : left [noted e (n job)] = [job]) (hjoined : joined [noted e (n job)] = [])
    (hadvance : ∀ queue, advance queue (noted e (n job)) = queue.tail)
    (hdeparted : Departed app (story ++ [noted e (n job)]))
    (haccounted : ∀ after, Leaves app job (waiting story) after →
      Accounted app story (noted e (n job)) after) :
    Keeps app story (departure e n (job :: rest)) rest := by
  have hrest : waiting (story ++ [noted e (n job)]) = rest := by
    rw [waiting_append_singleton, hadvance, hqueue, List.tail_cons]
  cases rest with
  | nil =>
    have hleaves : Leaves app job (waiting story) [signalled e] :=
      ⟨[], hqueue, fun _ => ⟨[], by rw [signalled, happ, idleSignal]⟩⟩
    have hsignal : Accounted app (story ++ [noted e (n job)]) (signalled e) [] :=
      ⟨happ, hrest, hdeparted⟩
    refine ⟨?_, ?_, ?_, ?_⟩
    · exact throughout_cons (haccounted _ hleaves) (throughout_cons hsignal throughout_nil)
    · rw [departure, List.append_cons, waiting_append_singleton, hrest]
      rfl
    · rw [departure, ← List.singleton_append, joined_append, hjoined]
      rfl
    · rw [departure, ← List.singleton_append, left_append, hleft, hqueue]
      rfl
  | cons next more =>
    have hleaves : Leaves app job (waiting story) [] :=
      ⟨next :: more, hqueue, fun h => absurd h (List.cons_ne_nil _ _)⟩
    refine ⟨throughout_cons (haccounted _ hleaves) throughout_nil, hrest, hjoined, ?_⟩
    rw [departure, hleft, hqueue, List.singleton_append]

theorem keeps_abandoned {e : Setup} (f : Fault) (happ : e.app = app)
    (hqueue : waiting story = job :: rest) :
    Keeps app story (departure e (.abandoned · f) (job :: rest)) rest := by
  refine keeps_departure happ hqueue rfl rfl (fun _ => rfl) ?_ fun after h => h
  refine ⟨job, .inr ⟨f, ?_⟩⟩
  rw [List.getLast?_concat, noted, happ]

theorem keeps_retired {e : Setup} {params : Dict Answer} (happ : e.app = app)
    (hqueue : waiting story = job :: rest)
    (hlast : story.getLast? = some (.noted app (.performed (.webhook params) (.ok ())))) :
    Keeps app story (departure e .retired (job :: rest)) rest := by
  refine keeps_departure happ hqueue rfl rfl (fun _ => rfl) ?_ fun after h => ⟨⟨params, hlast⟩, h⟩
  refine ⟨job, .inl ?_⟩
  rw [List.getLast?_concat, noted, happ]

/-! ## Steps -/

variable {a b : Agenda} {c : Command} {work : List Entry} {outcome r : Except Fault Unit}

theorem silent_of_within {kind : Call → Bool} {entry : Entry} (h : Within kind entry)
    (hdeliver : ∀ results, kind (.deliver results) = false)
    (hsignal : ∀ who, kind (.signal who) = false) : Silent entry := by
  refine h.cases (fun c outcome hc => ?_) fun _ _ => trivial
  unfold Silent
  split <;> simp_all [Still]

theorem silent_of_opens {entry : Entry} (h : Within opens entry) : Silent entry :=
  silent_of_within h (fun _ => rfl) fun _ => rfl

theorem silent_of_reopens {entry : Entry} (h : Within reopens entry) : Silent entry :=
  silent_of_within h (fun _ => rfl) fun _ => rfl

theorem silent_of_waits {entry : Entry} (h : Within waits entry) : Silent entry :=
  silent_of_within h (fun _ => rfl) fun _ => rfl

theorem quiet_of_within {kind : Call → Bool} {entry : Entry} (h : Within kind entry) :
    Quiet entry :=
  h.cases (fun _ _ _ => trivial) fun _ _ => trivial

theorem quiet_of_performs {e : Setup} (h : Performs c work outcome) :
    ∀ entry ∈ noted e (.dispatched c) :: work ++ [noted e (.performed c outcome)],
      Quiet entry := by
  obtain ⟨kind, hwithin⟩ := within_of_performs h
  intro entry hentry
  simp only [List.cons_append, List.mem_cons, List.mem_append, List.not_mem_nil, or_false] at hentry
  rcases hentry with rfl | hentry | rfl
  · trivial
  · exact quiet_of_within (hwithin entry hentry)
  · trivial

theorem departure_quiet (e : Setup) (n : Job → Note) (job : Job) (rest : List Job) :
    ∃ signal, departure e n (job :: rest) = noted e (n job) :: signal ∧
      ∀ entry ∈ signal, Quiet entry := by
  cases rest with
  | nil =>
    refine ⟨[signalled e], rfl, fun entry hentry => ?_⟩
    rw [List.mem_singleton.1 hentry]
    trivial
  | cons next more => exact ⟨[], rfl, fun entry hentry => absurd hentry List.not_mem_nil⟩

theorem silent_of_performs {e : Setup} (h : Performs c work outcome)
    (hc : ∀ params, c ≠ .webhook params) :
    ∀ entry ∈ noted e (.dispatched c) :: work ++ [noted e (.performed c outcome)],
      Silent entry := by
  have hperformed : Silent (noted e (.performed c outcome)) := by
    unfold noted Silent
    split <;> simp_all [Still]
  have hwork : ∀ entry ∈ work, Silent entry := by
    cases h with
    | empty => exact absurd rfl (hc _)
    | delivered => exact absurd rfl (hc _)
    | played _ hwork =>
      exact fun entry hentry => silent_of_within (hwork entry hentry) (fun _ => rfl) fun _ => rfl
  intro entry hentry
  simp only [List.cons_append, List.mem_cons, List.mem_append, List.not_mem_nil, or_false] at hentry
  rcases hentry with rfl | hentry | rfl
  · trivial
  · exact hwork entry hentry
  · exact hperformed

theorem delivery_of_performs {params : Dict Answer} (h : Performs (.webhook params) work outcome) :
    outcome = .ok () ∧
      (work = [] ∨ ∃ results reply, work = [.called (.deliver results) reply]) := by
  cases h with
  | empty => exact ⟨rfl, .inl rfl⟩
  | delivered => exact ⟨rfl, .inr ⟨_, _, rfl⟩⟩
  | played hc => exact absurd rfl (hc params)

theorem keeps_delivery {e : Setup} {params : Dict Answer} (happ : e.app = app)
    (hqueue : waiting story = job :: rest) (hwork : Performs (.webhook params) work outcome) :
    Keeps app story (noted e (.dispatched (.webhook params)) :: work ++
      [noted e (.performed (.webhook params) outcome)] ++ departure e .retired (job :: rest))
      rest := by
  obtain ⟨rfl, hcases⟩ := delivery_of_performs hwork
  subst happ
  let start := noted e (.dispatched (.webhook params))
  let done := noted e (.performed (.webhook params) (.ok ()))
  let leave := departure e .retired (job :: rest)
  let opening := start :: work ++ [done]
  have hstill : ∀ entry ∈ opening, Still entry := by
    intro entry hentry
    rcases hcases with rfl | ⟨results, reply, rfl⟩ <;>
      simp only [opening, start, done, List.cons_append, List.nil_append, List.mem_cons,
        List.not_mem_nil, or_false] at hentry
    · rcases hentry with rfl | rfl <;> trivial
    · rcases hentry with rfl | rfl | rfl <;> trivial
  have hhead : ∀ before, before <+: opening → waiting (story ++ before) = job :: rest := by
    intro before hbefore
    rw [waiting_append_of_still _ fun entry hentry => hstill entry (hbefore.subset hentry), hqueue]
  obtain ⟨more, hmore⟩ : ∃ more, leave = .noted e.app (.retired job) :: more := by
    cases rest with
    | nil => exact ⟨[signalled e], rfl⟩
    | cons next more => exact ⟨[], rfl⟩
  have hleaves : Keeps e.app (story ++ opening) leave rest := by
    apply keeps_retired rfl (hhead opening (List.prefix_refl _))
    rw [← List.append_assoc, List.getLast?_concat]
    rfl
  have hdone : ∀ before, before <+: opening → Accounted e.app (story ++ before) done leave :=
    fun before hbefore => ⟨rfl, job, rest, more, hhead before hbefore, hmore⟩
  -- both without a call and with one, the outcome and the departure close the story
  have haccounted : Throughout (Accounted e.app) story (opening ++ leave) := by
    rcases hcases with rfl | ⟨results, reply, rfl⟩
    · refine throughout_cons trivial (throughout_cons (hdone [start] ?_) ?_)
      · exact ⟨[done], rfl⟩
      · simpa [opening] using hleaves.accounted
    · refine throughout_cons trivial (throughout_cons ?_ (throughout_cons ?_ ?_))
      · exact ⟨params, job, rest, more, hhead [start] ⟨_, rfl⟩, congrArg (done :: ·) hmore⟩
      · rw [List.append_assoc]
        exact hdone _ ⟨[done], rfl⟩
      · simpa [opening] using hleaves.accounted
  refine ⟨haccounted, ?_, ?_, ?_⟩
  · rw [← List.append_assoc, hleaves.waiting_eq]
  · rw [joined_append, joined_of_still hstill, hleaves.joined_eq, List.nil_append]
  · rw [left_append, left_of_still hstill, List.nil_append, hleaves.settled,
      hhead opening (List.prefix_refl _), hqueue]

theorem keeps_of_advances {e : Setup} (happ : e.app = app) (h : Advances e a news r b)
    (hqueue : waiting story = a.pending) : Keeps app story news b.pending := by
  induction h generalizing story with
  | idle hpending =>
    rw [← hqueue]
    exact keeps_of_silent (by simp)
  | @found a job rest x opening r hpending hexpand hopening _ =>
    rw [← hqueue]
    apply keeps_of_silent
    intro entry hentry
    rcases List.mem_cons.1 hentry with rfl | hentry
    · trivial
    · exact silent_of_opens (hopening entry hentry)
  | @dropped a b job rest f news r hpending hexpand hnext ih =>
    have hleave : Keeps app story (departure e (.abandoned · f) a.pending) rest := by
      rw [hpending] at hqueue ⊢
      exact keeps_abandoned f happ hqueue
    have hdrop := pending_of_dropFirst hpending
    exact hleave.append (ih (hleave.waiting_eq.trans hdrop.symm))

theorem keeps_of_recovery {e : Setup} {f : Fault} (happ : e.app = app)
    (h : Follows e c a (.error f) news r b) (hqueue : waiting story = a.pending)
    (hpending : a.pending = job :: rest) : Keeps app story news b.pending := by
  have hretrying : ∀ (count : Nat) {relaunch : List Entry},
      (∀ entry ∈ relaunch, Within reopens entry) →
      Keeps app story (noted e (.retrying count) :: relaunch) a.pending := by
    intro count relaunch hrelaunch
    rw [← hqueue]
    apply keeps_of_silent
    intro entry hentry
    rcases List.mem_cons.1 hentry with rfl | hentry
    · trivial
    · exact silent_of_reopens (hrelaunch entry hentry)
  cases h with
  | cut =>
    rw [← hqueue]
    exact keeps_of_silent (by simp)
  | abandoned hf hlimit hnext =>
    have hleave : Keeps app story (departure e (.abandoned · f) a.pending) rest := by
      rw [hpending] at hqueue ⊢
      exact keeps_abandoned f happ hqueue
    have hdrop := pending_of_dropFirst hpending
    exact hleave.append (keeps_of_advances happ hnext (hleave.waiting_eq.trans hdrop.symm))
  | stuck hf hlimit hnews => exact hretrying _ hnews
  | begunAgain hf hlimit hrelaunch hnext =>
    have hagain := hretrying (a.retries + 1) hrelaunch
    exact hagain.append (keeps_of_advances happ hnext hagain.waiting_eq)

theorem keeps_of_steps {e : Setup} (happ : e.app = app) (h : Steps e c a news r b)
    (hqueue : waiting story = a.pending) (hpending : a.pending = job :: rest) :
    Keeps app story news b.pending := by
  cases h with
  | refused =>
    rw [← hqueue]
    exact keeps_of_silent (by simp)
  | @performed work later pause outcome r _ b hwork hfollow hpause hr =>
    let opening := noted e (.dispatched c) :: work ++ [noted e (.performed c outcome)]
    have hwaits : ∀ {story'}, Keeps app story' pause (waiting story') :=
      keeps_of_silent fun entry hentry => silent_of_waits (hpause entry hentry)
    -- only a delivery has the first job leave with its command; any other command is silent, and
    -- the queue is kept by what follows it
    have hkeeps : Keeps app story (opening ++ later) b.pending := by
      by_cases hc : ∃ params, c = .webhook params
      · obtain ⟨params, rfl⟩ := hc
        obtain ⟨rfl, -⟩ := delivery_of_performs hwork
        cases hfollow with
        | onward hc => exact absurd rfl (hc params)
        | retired hc hnext =>
          have hdelivery := keeps_delivery happ (hqueue.trans hpending) hwork
          have hdrop : ({ a.dropFirst with phase := .awaiting } : Agenda).pending = rest :=
            pending_of_dropFirst hpending
          rw [hpending, ← List.append_assoc]
          exact hdelivery.append
            (keeps_of_advances happ hnext (hdelivery.waiting_eq.trans hdrop.symm))
      · have hc : ∀ params, c ≠ .webhook params := fun params h => hc ⟨params, h⟩
        have hsilent : Keeps app story opening a.pending := by
          rw [← hqueue]
          exact keeps_of_silent (silent_of_performs hwork hc)
        apply hsilent.append
        cases outcome with
        | error f => exact keeps_of_recovery happ hfollow hsilent.waiting_eq hpending
        | ok _ =>
          cases hfollow with
          | onward =>
            rw [← hsilent.waiting_eq]
            exact keeps_of_silent (by simp)
          | retired hc' => exact absurd hc' (hc _)
    have hall := hkeeps.append hwaits
    rw [hkeeps.waiting_eq] at hall
    simpa [opening] using hall

/-! ## Careers -/

section Courses

variable {config : Config} {seen : List Setting} {jobs : List Job} {mode : Option Setting}

/-- The account of a whole story, for an engine that was given these jobs and has these left. -/
structure Settles (app : String) (jobs pending : List Job) (story : List Entry) : Prop where
  accounted : Throughout (Accounted app) [] story
  waiting_eq : waiting story = pending
  joined_eq : joined story = jobs
  settled : left story ++ pending = jobs

theorem Settles.append {pending pending' : List Job} (h : Settles app jobs pending story)
    (hnews : Keeps app story news pending') : Settles app jobs pending' (story ++ news) := by
  refine ⟨h.accounted.append stable_accounted hnews.accounted, hnews.waiting_eq, ?_, ?_⟩
  · rw [joined_append, hnews.joined_eq, h.joined_eq, List.append_nil]
  · rw [left_append, List.append_assoc, hnews.settled, h.waiting_eq, h.settled]

theorem Settles.silent {pending : List Job} (h : Settles app jobs pending story)
    (hnews : ∀ entry ∈ news, Silent entry) : Settles app jobs pending (story ++ news) := by
  have hkeeps : Keeps app story news pending := by
    rw [← h.waiting_eq]
    exact keeps_of_silent hnews
  exact h.append hkeeps

theorem Settles.queued {pending : List Job} (h : Settles app jobs pending story) (job : Job) :
    Settles app (jobs ++ [job]) (pending ++ [job]) (story ++ [.noted app (.queued job)]) := by
  refine ⟨h.accounted.append stable_accounted (throughout_cons trivial throughout_nil), ?_, ?_, ?_⟩
  · rw [waiting_append_singleton, h.waiting_eq]
    rfl
  · rw [joined_append, h.joined_eq]
    rfl
  · rw [left_append, ← h.settled, ← List.append_assoc]
    simp [left]

theorem settles_of_course (h : Course app config seen jobs mode a story) :
    Settles app jobs a.pending story := by
  induction h with
  | fresh => exact ⟨throughout_nil, rfl, rfl, rfl⟩
  | queued h hbusy ih => exact ih.queued _
  | @begun jobs a b story news job w r h hw hidle hcommands hnext ih =>
    have hqueue := ih.queued job
    have hall := hqueue.append (keeps_of_advances rfl hnext hqueue.waiting_eq)
    rwa [List.append_assoc] at hall
  | advanced h hw hnext ih => exact ih.append (keeps_of_advances rfl hnext ih.waiting_eq)
  | held h hopening ih =>
    exact ih.silent fun entry hentry => silent_of_opens (hopening entry hentry)
  | resumed h hw hcommands hopening ih =>
    exact ih.silent fun entry hentry => silent_of_opens (hopening entry hentry)
  | started h hw hnext ih => exact ih.append (keeps_of_advances rfl hnext ih.waiting_eq)
  | spared h hw hcommands hpending ih => exact ih
  | @stepped jobs a b story news w c commands h hcommands hstep ih =>
    obtain ⟨job, rest, hpending⟩ :=
      List.exists_cons_of_ne_nil (pending_of_commands (orderly_of_course h).1 hcommands)
    exact ih.append (keeps_of_steps rfl hstep ih.waiting_eq hpending)
  | @stopped jobs a b story news w c commands f h hcommands hstep ih =>
    obtain ⟨job, rest, hpending⟩ :=
      List.exists_cons_of_ne_nil (pending_of_commands (orderly_of_course h).1 hcommands)
    exact ih.append (keeps_of_steps rfl hstep ih.waiting_eq hpending)
  | finished h hcommands ih => exact ih

end Courses

/-- The jobs that left and those that still wait are those that were added, in their order; and
every entry of the story is accounted for. -/
theorem career_accounted [Desk σ] (app : String) (config : Config) (turns : List (Turn σ)) :
    left (career app config turns).story ++ (career app config turns).engine.agenda.pending =
      submitted turns ∧
    waiting (career app config turns).story = (career app config turns).engine.agenda.pending ∧
    ∀ before entry after, (career app config turns).story = before ++ entry :: after →
      Accounted app before entry after := by
  have h := settles_of_course (course_of_turns app config turns)
  refine ⟨h.settled, h.waiting_eq, fun before entry after hstory => ?_⟩
  simpa using h.accounted before entry after hstory

end Playback.Proofs.Accounts
