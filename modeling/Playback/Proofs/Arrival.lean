import Playback.Proofs.BaseSetup
import Playback.Proofs.Story
import Playback.Proofs.Submission
/-!
# Arriving at a screen

A job that goes on from a screen relies on an earlier attempt that led there. If no request is
aborted, that attempt performed all the commands that lead to the screen, unless it was cut short:
its job was given up after a failure, a recording delivered the results before the last command, or
the job was expanded once more before its end. The history does not tell these attempts from the
others.
-/

namespace Playback.Proofs.Arrival

open Footprints Launching Moves Career Expanding Reachability Attempts Story BaseSetup

variable {σ : Type}

def GivenUp (attempt : Attempt) : Prop :=
  ∃ front app f back, attempt.since = front ++ .noted app (.abandoned attempt.job f) :: back ∧
    left front = []

/-- The results are delivered before the last command. -/
def DeliveredEarly (attempt : Attempt) : Prop :=
  ∃ front params back, attempt.commands = front ++ .webhook params :: back ∧ back ≠ [] ∧
    attempt.performed = front ++ [.webhook params]

def NotLeft (attempt : Attempt) : Prop := left attempt.since = []

/-- What may end an attempt before all its commands were performed. -/
def CutShort (attempt : Attempt) : Prop :=
  GivenUp attempt ∨ DeliveredEarly attempt ∨ NotLeft attempt

structure Ended (attempt : Attempt) : Prop where
  performed : attempt.performed <+: attempt.commands
  why : attempt.performed = attempt.commands ∨ GivenUp attempt ∨ DeliveredEarly attempt

structure Over (attempt : Attempt) : Prop where
  performed : attempt.performed <+: attempt.commands
  why : attempt.performed = attempt.commands ∨ CutShort attempt

/-- How far the present attempt has come. -/
inductive Current (a : Agenda) : List Attempt → Prop
  | none (hcommands : a.commands = []) : Current a []
  | underway {attempt : Attempt} {earlier : List Attempt} (hleft : NotLeft attempt)
      (hcommands : attempt.commands = attempt.performed ++ a.commands) (hsome : a.commands ≠ []) :
      Current a (attempt :: earlier)
  | ended {attempt : Attempt} {earlier : List Attempt} (hcommands : a.commands = [])
      (hended : Ended attempt) :
      Current a (attempt :: earlier)

def AfterOthers (app : String) (config : Config) (seen : List Setting) (before : List Entry)
    (entry : Entry) (_ : List Entry) : Prop :=
  match entry with
  | .noted _ (.expanded job commands) =>
    (∃ v ∈ seen, ExpandsAfter (v.setup app config) (attempts before) ⟨job, commands, []⟩) ∧
      Chained app config seen (attempts before) ∧ ∀ attempt ∈ attempts before, Over attempt
  | _ => True

structure InOrder (app : String) (config : Config) (seen : List Setting) (a : Agenda)
    (story : List Entry) : Prop where
  atLatest : AtLatest app config seen a story
  current : Current a (attempts story)
  behind : ∀ attempt ∈ (attempts story).tail, Over attempt
  afterOthers : Throughout (AfterOthers app config seen) [] story

/-- The commands that lead to the screen were performed, and succeeded. -/
def Reached (attempt : Attempt) (lead : List Command) : Prop :=
  ∃ params, .paramChange params :: lead <+: attempt.performed

/-- One of the attempts led to the screen, and those after it stayed there. -/
inductive LedTo (app : String) (config : Config) (seen : List Setting) (screen : String)
    (arrived : Attempt → List Command → Prop) : List Attempt → Prop
  | here {attempt : Attempt} {earlier : List Attempt} {v : Setting} {lead own : List Command}
      (hv : v ∈ seen) (hscreen : attempt.screen? config.catalog = some screen)
      (hprevious : earlier.head?.bind (Attempt.screen? config.catalog) ≠ some screen)
      (hcomposed : Composed (v.setup app config)
        (earlier.head?.bind (Attempt.screen? config.catalog)) screen attempt.job lead own
          attempt.commands)
      (harrived : arrived attempt lead) : LedTo app config seen screen arrived (attempt :: earlier)
  | stayed {attempt : Attempt} {earlier : List Attempt}
      (hscreen : attempt.screen? config.catalog = some screen)
      (h : LedTo app config seen screen arrived earlier) :
      LedTo app config seen screen arrived (attempt :: earlier)

/-! ## What is noted on an attempt -/

/-- Entries that tell neither of a success nor of a job that left, and do not end the attempt. -/
structure Quiet (entry : Entry) : Prop where
  continues : Continues entry
  left_eq : left [entry] = []
  successes_eq : successes [entry] = []

section Notes

variable {e : Setup} {attempt : Attempt} {l : List Attempt} {news : List Entry} {a : Agenda}

theorem successes_of_quiet (h : ∀ entry ∈ news, Quiet entry) : successes news = [] := by
  unfold successes
  rw [List.filterMap_eq_nil_iff]
  intro entry hentry
  exact List.filterMap_eq_nil_iff.1 (h entry hentry).successes_eq entry List.mem_cons_self

theorem left_of_quiet (h : ∀ entry ∈ news, Quiet entry) : left news = [] := by
  unfold left
  rw [List.filterMap_eq_nil_iff]
  intro entry hentry
  exact List.filterMap_eq_nil_iff.1 (h entry hentry).left_eq entry List.mem_cons_self

theorem notLeft_later (hleft : NotLeft attempt) (h : left news = []) :
    NotLeft (attempt.later news) := by
  show left (attempt.since ++ news) = []
  rw [left_append, hleft, h]
  rfl

theorem Ended.later (h : Ended attempt) (hnone : successes news = []) :
    Ended (attempt.later news) := by
  have hperformed : (attempt.later news).performed = attempt.performed := by
    rw [performed_later, hnone, List.append_nil]
  refine ⟨?_, ?_⟩
  · rw [hperformed]
    exact h.performed
  · rw [hperformed]
    refine h.why.imp id (Or.imp ?_ ?_)
    · rintro ⟨front, app, f, back, hsince, hfront⟩
      refine ⟨front, app, f, back ++ news, ?_, hfront⟩
      show attempt.since ++ news = _
      rw [hsince, List.append_assoc, List.cons_append]
      rfl
    · rintro ⟨front, params, back, hcommands, hback, hfront⟩
      exact ⟨front, params, back, hcommands, hback, hperformed.trans hfront⟩

theorem Current.quiet (h : Current a l) (hnews : ∀ entry ∈ news, Quiet entry) :
    Current a (extend news l) := by
  have hnone := successes_of_quiet hnews
  cases h with
  | none hcommands => exact .none hcommands
  | @underway attempt earlier hleft hcommands hsome =>
    refine .underway (notLeft_later hleft (left_of_quiet hnews)) ?_ hsome
    show attempt.commands = _
    rw [performed_later, hnone, List.append_nil, hcommands]
  | ended hcommands hended => exact .ended hcommands (hended.later hnone)

theorem Current.congr {b : Agenda} (h : Current a l) (hcommands : b.commands = a.commands) :
    Current b l := by
  cases h with
  | none hnone => exact .none (hcommands.trans hnone)
  | underway hleft hrest hsome =>
    exact .underway hleft (by rw [hcommands]; exact hrest) (by rw [hcommands]; exact hsome)
  | ended hnone hended => exact .ended (hcommands.trans hnone) hended

theorem Current.all_over (h : Current a l) (htail : ∀ attempt ∈ l.tail, Over attempt) :
    ∀ attempt ∈ l, Over attempt := by
  intro attempt hattempt
  cases h with
  | none => cases hattempt
  | underway hleft hcommands _ =>
    rcases List.mem_cons.1 hattempt with rfl | hattempt
    · exact ⟨⟨_, hcommands.symm⟩, .inr (.inr (.inr hleft))⟩
    · exact htail attempt hattempt
  | ended _ hended =>
    rcases List.mem_cons.1 hattempt with rfl | hattempt
    · refine ⟨hended.performed, hended.why.imp id ?_⟩
      rintro (hgivenUp | hearly)
      · exact .inl hgivenUp
      · exact .inr (.inl hearly)
    · exact htail attempt hattempt

theorem quiet_of_within {kind : Call → Bool} {entry : Entry} (h : Within kind entry) :
    Quiet entry :=
  h.cases (fun _ _ _ => ⟨trivial, rfl, rfl⟩) fun _ _ => ⟨trivial, rfl, rfl⟩

theorem quiet_of_performs {c : Command} {work : List Entry} {outcome : Except Fault Unit}
    (h : Performing.Performs c work outcome) :
    ∀ entry ∈ noted e (.dispatched c) :: work, Quiet entry := by
  intro entry hentry
  rcases List.mem_cons.1 hentry with rfl | hworked
  · exact ⟨trivial, rfl, rfl⟩
  cases h with
  | empty => cases hworked
  | delivered =>
    rw [List.mem_singleton.1 hworked]
    exact ⟨trivial, rfl, rfl⟩
  | played _ hplays => exact quiet_of_within (hplays entry hworked)

theorem successes_departure (e : Setup) (n : Job → Note)
    (hn : ∀ job, successes [noted e (n job)] = []) (jobs : List Job) :
    successes (departure e n jobs) = [] := by
  refine filterMap_departure (fun job => ?_) rfl jobs
  exact List.filterMap_eq_nil_iff.1 (hn job) _ (List.mem_singleton_self _)

theorem givenUp_later {f : Fault} {jobs : List Job} (hleft : NotLeft attempt)
    (hjob : jobs.head? = some attempt.job) :
    GivenUp (attempt.later (departure e (.abandoned · f) jobs)) := by
  obtain ⟨signal, hdeparture⟩ := departure_cons e (.abandoned · f) hjob
  refine ⟨attempt.since, e.app, f, signal, ?_, hleft⟩
  show attempt.since ++ departure e (.abandoned · f) jobs = _
  rw [hdeparture]
  rfl

end Notes

/-! ## Moves -/

section Order

variable {app : String} {config : Config} {seen : List Setting} {a b : Agenda}
variable {story news : List Entry} {w : Setting} {r : Except Fault Unit}

theorem stable_afterOthers : Stable (AfterOthers app config seen) := fun _ _ _ _ h => h

theorem throughout_of_continues (h : ∀ entry ∈ news, Continues entry) :
    Throughout (AfterOthers app config seen) story news := by
  refine throughout_of_forall fun entry hentry _ _ => ?_
  have hcontinues := h entry hentry
  unfold Continues at hcontinues
  unfold AfterOthers
  split
  · exact hcontinues.elim
  · trivial

theorem InOrder.continues (h : InOrder app config seen a story)
    (hcontinues : ∀ entry ∈ news, Continues entry)
    (hlatest : AtLatest app config seen b (story ++ news))
    (hcurrent : Current b (extend news (attempts story))) :
    InOrder app config seen b (story ++ news) := by
  have hattempts : attempts (story ++ news) = extend news (attempts story) :=
    attempts_of_continues hcontinues
  refine ⟨hlatest, ?_, ?_, h.afterOthers.append stable_afterOthers
    (throughout_of_continues hcontinues)⟩
  · rw [hattempts]
    exact hcurrent
  · rw [hattempts]
    have hover := h.behind
    cases hpresent : attempts story with
    | nil => simp [extend]
    | cons attempt earlier =>
      rw [hpresent] at hover
      exact hover

theorem InOrder.quiet (h : InOrder app config seen a story)
    (hnews : ∀ entry ∈ news, Quiet entry) : InOrder app config seen a (story ++ news) := by
  have hcontinues : ∀ entry ∈ news, Continues entry := fun entry hentry =>
    (hnews entry hentry).continues
  exact h.continues hcontinues (h.atLatest.continues hcontinues) (h.current.quiet hnews)

theorem InOrder.within {kind : Call → Bool} (h : InOrder app config seen a story)
    (hnews : ∀ entry ∈ news, Within kind entry) : InOrder app config seen a (story ++ news) :=
  h.quiet fun entry hentry => quiet_of_within (hnews entry hentry)

theorem inOrder_found {job : Job} {rest : List Job} {x : Expansion} {opening : List Entry}
    (hw : w ∈ seen) (h : InOrder app config seen a story) (hpending : a.pending = job :: rest)
    (hexpand : (w.setup app config).expand a.history job = .ok x)
    (hopening : ∀ entry ∈ opening, Within opens entry)
    (hblame : Blamed LaunchFault r opening) :
    InOrder app config seen
      { a with
        phase := .running
        commands := x.commands
        history := Agenda.remember a.history x.operation }
      (story ++ noted (w.setup app config) (.expanded job x.commands) :: opening) := by
  have hnext := Advances.found hpending hexpand hopening hblame
  have hover : ∀ attempt ∈ attempts story, Over attempt := h.current.all_over h.behind
  have hquiet : ∀ entry ∈ opening, Quiet entry :=
    fun entry hentry => quiet_of_within (hopening entry hentry)
  have hcontinues : ∀ entry ∈ opening, Continues entry := fun entry hentry =>
    (hquiet entry hentry).continues
  have hattempts :
      attempts (story ++ noted (w.setup app config) (.expanded job x.commands) :: opening) =
      ⟨job, x.commands, opening⟩ :: attempts story := attempts_of_expanded hcontinues
  have hexpands : ExpandsAfter (w.setup app config) (attempts story) ⟨job, x.commands, []⟩ := by
    rw [h.atLatest.history_eq] at hexpand
    exact ⟨x, hexpand, rfl⟩
  have hsome : x.commands ≠ [] := by
    obtain ⟨screen, lead, own, -, operation, -, -, -, -, hx⟩ :=
      composed_of_expandsAfter rfl hexpands h.atLatest.chained
    rw [show x.commands = _ from hx]
    simp
  refine ⟨atLatest_of_advances hw h.atLatest hnext, ?_, ?_,
    h.afterOthers.append stable_afterOthers ?_⟩
  · rw [hattempts]
    refine .underway (left_of_quiet hquiet) ?_ hsome
    show x.commands = successes opening ++ x.commands
    rw [successes_of_quiet hquiet, List.nil_append]
  · rw [hattempts]
    exact hover
  · refine throughout_cons ?_ (throughout_of_continues hcontinues)
    exact ⟨⟨w, hw, hexpands⟩, h.atLatest.chained, hover⟩

theorem inOrder_abandoned {f : Fault} (h : InOrder app config seen a story)
    (hcommands : b.commands = []) (hhistory : b.history = a.history) :
    InOrder app config seen b
      (story ++ departure (w.setup app config) (.abandoned · f) a.pending) := by
  have hcontinues := continues_departure (w.setup app config) (.abandoned · f)
    (fun _ => trivial) a.pending
  have hnone := successes_departure (w.setup app config) (.abandoned · f)
    (fun _ => rfl) a.pending
  have hlatest : AtLatest app config seen b story := h.atLatest.clear hhistory hcommands
  refine h.continues hcontinues (hlatest.continues hcontinues) ?_
  have hcurrent := h.current
  cases hpresent : attempts story with
  | nil => exact .none hcommands
  | cons attempt earlier =>
    rw [hpresent] at hcurrent
    refine .ended hcommands ?_
    cases hcurrent with
    | underway hleft hrest hsome =>
      obtain ⟨attempt', earlier', hattempts, hjob, -⟩ := h.atLatest.underway hsome
      rw [hpresent, List.cons.injEq] at hattempts
      obtain ⟨rfl, rfl⟩ := hattempts
      refine ⟨?_, .inr (.inl (givenUp_later hleft hjob))⟩
      rw [performed_later, hnone, List.append_nil]
      exact ⟨_, hrest.symm⟩
    | ended _ hended => exact hended.later hnone

theorem inOrder_of_advances (hw : w ∈ seen) (h : InOrder app config seen a story)
    (hnext : Advances (w.setup app config) a news r b) :
    InOrder app config seen b (story ++ news) := by
  induction hnext generalizing story with
  | @idle a hpending =>
    -- commands are at hand only for a job that waits
    have hnone : a.commands = [] := by
      by_contra hsome
      obtain ⟨attempt, earlier, -, hjob, -⟩ := h.atLatest.underway hsome
      rw [hpending] at hjob
      cases hjob
    rw [List.append_nil]
    exact ⟨h.atLatest.clear rfl rfl, h.current.congr hnone.symm, h.behind, h.afterOthers⟩
  | found hpending hexpand hopening hblame =>
    exact inOrder_found hw h hpending hexpand hopening hblame
  | dropped hpending hexpand hnext ih =>
    rw [← List.append_assoc]
    exact ih (inOrder_abandoned h rfl rfl)

theorem inOrder_of_retrying {count : Nat} (h : Throughout (AfterOthers app config seen) [] story)
    (hcontinues : ∀ entry ∈ news, Continues entry) (hhistory : a.history = [])
    (hcommands : a.commands = []) :
    InOrder app config seen a (story ++ .noted app (.retrying count) :: news) := by
  have hattempts : attempts (story ++ .noted app (.retrying count) :: news) = [] :=
    attempts_of_retrying hcontinues
  refine ⟨atLatest_of_retrying hcontinues hhistory hcommands, ?_, ?_, ?_⟩
  · rw [hattempts]
    exact .none hcommands
  · rw [hattempts]
    simp
  · exact h.append stable_afterOthers (throughout_cons trivial (throughout_of_continues hcontinues))

theorem current_onward {attempt : Attempt} {earlier : List Attempt} {c : Command}
    {commands : List Command}
    {notes : List Entry} (hleft : NotLeft attempt)
    (hrest : attempt.commands = attempt.performed ++ c :: commands) (hnotes : left notes = [])
    (hdone : successes notes = [c]) :
    Current { a with commands } (extend notes (attempt :: earlier)) := by
  have hperformed : (attempt.later notes).performed = attempt.performed ++ [c] := by
    rw [performed_later, hdone]
  have hcommands : (attempt.later notes).commands =
      (attempt.later notes).performed ++ commands := by
    rw [hperformed, List.append_assoc]
    exact hrest
  by_cases hnone : commands = []
  · refine .ended hnone ⟨⟨commands, hcommands.symm⟩, .inl ?_⟩
    rw [hcommands, hnone, List.append_nil]
  · exact .underway (notLeft_later hleft hnotes) hcommands hnone

theorem ended_delivered {attempt : Attempt} {params : Dict Answer} {commands : List Command}
    {notes : List Entry}
    (hrest : attempt.commands = attempt.performed ++ .webhook params :: commands)
    (hdone : successes notes = [.webhook params]) : Ended (attempt.later notes) := by
  have hperformed : (attempt.later notes).performed = attempt.performed ++ [.webhook params] := by
    rw [performed_later, hdone]
  have hcommands : (attempt.later notes).commands =
      (attempt.later notes).performed ++ commands := by
    rw [hperformed, List.append_assoc]
    exact hrest
  refine ⟨⟨commands, hcommands.symm⟩, ?_⟩
  by_cases hnone : commands = []
  · left
    rw [hcommands, hnone, List.append_nil]
  · exact .inr (.inr ⟨attempt.performed, params, commands, hrest, hnone, hperformed⟩)

theorem InOrder.present {c : Command} {commands : List Command}
    (h : InOrder app config seen a story) (hcommands : a.commands = c :: commands) :
    ∃ attempt earlier, attempts story = attempt :: earlier ∧ NotLeft attempt ∧
      attempt.commands = attempt.performed ++ c :: commands := by
  have hcurrent := h.current
  cases hpresent : attempts story with
  | nil =>
    rw [hpresent] at hcurrent
    cases hcurrent with
    | none hnone =>
      rw [hcommands] at hnone
      cases hnone
  | cons attempt earlier =>
    rw [hpresent] at hcurrent
    cases hcurrent with
    | underway hleft hrest _ =>
      rw [hcommands] at hrest
      exact ⟨attempt, earlier, rfl, hleft, hrest⟩
    | ended hnone _ =>
      rw [hcommands] at hnone
      cases hnone

theorem inOrder_of_ok {c : Command} {commands : List Command} {notes : List Entry}
    (hw : w ∈ seen) (h : InOrder app config seen a story) (hcommands : a.commands = c :: commands)
    (hcontinues : ∀ entry ∈ notes, Continues entry) (hleft : left notes = [])
    (hdone : successes notes = [c])
    (hfollow : Follows (w.setup app config) c { a with commands } (.ok ()) news r b) :
    InOrder app config seen b (story ++ notes ++ news) := by
  obtain ⟨attempt, earlier, hpresent, hnotLeft, hrest⟩ := h.present hcommands
  cases hfollow with
  | onward =>
    rw [List.append_nil]
    refine h.continues hcontinues ((h.atLatest.pop hcommands).continues hcontinues) ?_
    rw [hpresent]
    exact current_onward hnotLeft hrest hleft hdone
  | @retired params news _ _ hc hnext =>
    subst hc
    let leaving := departure (w.setup app config) .retired a.pending
    have hleaving : ∀ entry ∈ leaving, Continues entry :=
      continues_departure _ .retired (fun _ => trivial) _
    have hboth : ∀ entry ∈ notes ++ leaving, Continues entry := by
      intro entry hentry
      rcases List.mem_append.1 hentry with hentry | hentry
      · exact hcontinues entry hentry
      · exact hleaving entry hentry
    have hsuccesses : successes (notes ++ leaving) = [.webhook params] := by
      rw [successes_append, hdone, successes_departure _ .retired fun _ => rfl]
      rfl
    have hlatest : AtLatest app config seen { a.dropFirst with phase := .awaiting } story :=
      h.atLatest.clear rfl rfl
    have hretired := h.continues hboth (hlatest.continues hboth) (by
      rw [hpresent]
      exact .ended rfl (ended_delivered hrest hsuccesses))
    have hadvanced := inOrder_of_advances hw hretired hnext
    simpa [leaving] using hadvanced

theorem inOrder_of_error {c : Command} {commands : List Command} {notes : List Entry} {f : Fault}
    (hw : w ∈ seen) (h : InOrder app config seen a story)
    (hnotes : ∀ entry ∈ notes, Quiet entry) (hf : f.isCancelled = false)
    (hfollow : Follows (w.setup app config) c { a with commands } (.error f) news r b) :
    InOrder app config seen b (story ++ notes ++ news) := by
  -- the failed command counts as left to do, as it was not performed
  have hnoted : InOrder app config seen a (story ++ notes) := h.quiet hnotes
  cases hfollow with
  | cut hcancelled =>
    rw [hf] at hcancelled
    cases hcancelled
  | abandoned _ _ hnext =>
    have hleft : { a with commands }.dropFirst.history = a.history := rfl
    rw [← List.append_assoc]
    exact inOrder_of_advances hw (inOrder_abandoned (a := a) hnoted rfl hleft) hnext
  | stuck _ _ hnews =>
    exact inOrder_of_retrying hnoted.afterOthers
      (fun entry hentry => continues_of_within (hnews entry hentry)) rfl rfl
  | begunAgain _ _ hrelaunch hnext =>
    rw [← List.append_assoc]
    exact inOrder_of_advances hw (inOrder_of_retrying hnoted.afterOthers
      (fun entry hentry => continues_of_within (hrelaunch entry hentry)) rfl rfl) hnext

theorem inOrder_of_stepsUncancelled {c : Command} {commands : List Command} (hw : w ∈ seen)
    (h : InOrder app config seen a story) (hcommands : a.commands = c :: commands)
    (hstep : StepsUncancelled (w.setup app config) c { a with commands } news b) :
    InOrder app config seen b (story ++ news) := by
  cases hstep with
  | @intro work news pause outcome r _ hwork huncancelled hfollow hpause =>
    let start := noted (w.setup app config) (.dispatched c) :: work
    let done := noted (w.setup app config) (.performed c outcome)
    have hstart : ∀ entry ∈ start, Quiet entry := quiet_of_performs hwork
    have hfollowed : InOrder app config seen b (story ++ (start ++ [done]) ++ news) := by
      cases outcome with
      | ok _ =>
        refine inOrder_of_ok hw h hcommands (continues_performed hwork) ?_ ?_ hfollow
        · rw [left_append, left_of_quiet hstart]
          rfl
        · rw [successes_append, successes_of_quiet hstart]
          rfl
      | error f =>
        refine inOrder_of_error hw h ?_ (huncancelled f rfl) hfollow
        intro entry hentry
        rcases List.mem_append.1 hentry with hentry | hentry
        · exact hstart entry hentry
        · rw [List.mem_singleton.1 hentry]
          exact ⟨trivial, rfl, rfl⟩
    simpa [start, done] using hfollowed.within hpause

theorem inOrder_of_reachable (h : Reachable StepsUncancelled app config seen a story) :
    InOrder app config seen a story := by
  induction h with
  | fresh =>
    exact ⟨atLatest_of_reachable .fresh, .none rfl, by simp [attempts], throughout_nil⟩
  | @queued a story job h ih =>
    have hquiet : ∀ entry ∈ [Entry.noted app (.queued job)], Quiet entry := by
      intro entry hentry
      rw [List.mem_singleton.1 hentry]
      exact ⟨trivial, rfl, rfl⟩
    have hqueued := ih.quiet hquiet
    exact ⟨hqueued.atLatest.queue job, hqueued.current.congr rfl, hqueued.behind,
      hqueued.afterOthers⟩
  | advanced _ hw hnext ih => exact inOrder_of_advances hw ih hnext
  | opened _ hopening ih => exact ih.within hopening
  | stepped _ hw hcommands hstep ih => exact inOrder_of_stepsUncancelled hw ih hcommands hstep
  | finished _ hcommands ih =>
    exact ⟨ih.atLatest.clear rfl hcommands, ih.current.congr rfl, ih.behind, ih.afterOthers⟩

end Order

/-! ## Going on from a screen -/

theorem reached_of_over {e : Setup} {previous : Option String} {screen : String} {attempt : Attempt}
    {lead own : List Command} (h : Over attempt)
    (hcomposed : Composed e previous screen attempt.job lead own attempt.commands) :
    Reached attempt lead ∨ CutShort attempt := by
  refine h.why.imp (fun hall => ?_) id
  obtain ⟨operation, -, -, -, -, hcommands⟩ := hcomposed
  refine ⟨e.params attempt.job operation, own ++ [.webhook (e.params attempt.job operation)], ?_⟩
  rw [hall, hcommands]
  simp

theorem ledTo_of_over {app : String} {config : Config} {seen : List Setting} {screen : String}
    {l : List Attempt} (hchained : Chained app config seen l) (hover : ∀ attempt ∈ l, Over attempt)
    (hscreen : l.head?.bind (Attempt.screen? config.catalog) = some screen) :
    LedTo app config seen screen (fun attempt lead => Reached attempt lead ∨ CutShort attempt)
      l := by
  induction l with
  | nil => cases hscreen
  | cons attempt earlier ih =>
    obtain ⟨⟨v, hv, hexpands⟩, hearlier⟩ := hchained
    have hscreen : attempt.screen? config.catalog = some screen := hscreen
    by_cases hstays : earlier.head?.bind (Attempt.screen? config.catalog) = some screen
    · exact .stayed hscreen
        (ih hearlier (fun other hother => hover other (List.mem_cons_of_mem _ hother)) hstays)
    · obtain ⟨own, lead, rest, hown, hcomposed⟩ := composed_of_expandsAfter rfl hexpands hearlier
      have hsame : some own = some screen := hown.symm.trans hscreen
      cases hsame
      exact .here hv hscreen hstays hcomposed
        (reached_of_over (hover attempt List.mem_cons_self) hcomposed)

variable [Desk σ]

/-- Where a job goes on from a screen, the latest attempt that led there performed all the commands
that lead there, or it was cut short. -/
theorem led_or_cutShort (app : String) (config : Config) (turns : List (Turn σ))
    (huncancelled : AllGood Uncancelled app config turns) (before after : List Entry)
    (app' : String)
    (job : Job) (commands : List Command) (previous : Attempt) (earlier : List Attempt)
    (hstory : (career app config turns).story =
      before ++ .noted app' (.expanded job commands) :: after)
    (hattempts : attempts before = previous :: earlier) :
    ∃ screen, previous.screen? config.catalog = some screen ∧
      (∃ v ∈ turns.map (·.setting), FromScreen (v.setup app config) screen job commands) ∧
      LedTo app config (turns.map (·.setting)) screen
        (fun attempt lead => Reached attempt lead ∨ CutShort attempt) (previous :: earlier) := by
  have hreachable := reachable_career allows_stepsUncancelled
    (fun _ hturn => List.mem_map_of_mem hturn) huncancelled
  have hothers := (inOrder_of_reachable hreachable).afterOthers before _ after hstory
  rw [List.nil_append] at hothers
  obtain ⟨⟨v, hv, hexpands⟩, hchained, hover⟩ := hothers
  rw [hattempts] at hexpands hchained hover
  obtain ⟨screen, hscreen⟩ := hchained.screen
  have hhead : (previous :: earlier).head?.bind (Attempt.screen? config.catalog) = some screen :=
    hscreen
  obtain ⟨own, lead, rest, -, hcomposed⟩ := composed_of_expandsAfter rfl hexpands hchained
  have hcomposed : Composed (v.setup app config)
      ((previous :: earlier).head?.bind (Attempt.screen? config.catalog)) own job lead rest
        commands :=
    hcomposed
  rw [hhead] at hcomposed
  exact ⟨screen, hscreen, ⟨v, hv, own, lead, rest, hcomposed⟩, ledTo_of_over hchained hover hhead⟩

/-- What a job that is expanded at once adds to the story. -/
theorem since_add {e : Setup} {job : Job} {s : Session σ} {x : Expansion}
    (hphase : s.agenda.phase = .idle) (hcommands : s.agenda.commands = [])
    (hpending : s.agenda.pending = []) (hexpand : e.expand s.agenda.history job = .ok x) :
    ∃ opening, since s.stage (e.add job s).2.stage =
      noted e (.queued job) :: noted e (.expanded job x.commands) :: opening := by
  let announced := Submission.announced e job x s.stage
  obtain ⟨opening, hopening⟩ := footprint_ensureOpen e announced
  have hannounced : Adds s.stage announced
      [noted e (.queued job), noted e (.expanded job x.commands)] := rfl
  rw [Submission.add_of_ok e job hphase hcommands hpending hexpand]
  exact ⟨opening, since_of_adds (hannounced.trans hopening.adds)⟩

/-! ## A job that is given up on its way -/

def staysOpen : Entry → Bool
  | .called (.isOpen _) (.ok shown) => shown
  | .called (.isOpen _) (.error _) => false
  | .called (.launch ..) _ => false
  | .called c _ => !shuts c
  | _ => true

def barred : Setting :=
  { bare with
    files := .ofList [("m", .folder), ("m/app", .folder), ("m/app/Nav", .folder),
      ("m/app/Nav/bank.txt",
        .text "[\x7b\"action\":\"write\",\"position\":[0,0],\"value\":\"$PIN\"\x7d]")] }

def barredRun : List (Turn Rehearsal) :=
  [⟨.add errand, barred, stageWith true true⟩, ⟨.run, barred, stageWith true true⟩]

def barredAgain : List (Turn Rehearsal) :=
  barredRun ++ [⟨.add errand, barred, stageWith true true⟩]

theorem barredRun_facts :
    (careerWithin 5 "app" hasty barredRun).map (fun r => (r.2.engine.agenda,
      (attempts r.2.story).map fun attempt => (attempt.job, attempt.performed.length))) =
        some (⟨.idle, 0, [], [], ["pay"]⟩, [(errand, 1)]) ∧
    ((barred.setup "app" hasty).expand ["pay"] errand).toOption.isSome = true := by
  decide +kernel

theorem barredAgain_facts :
    (careerWithin 5 "app" hasty barredAgain).map (fun r => (r.1, r.2.story.all staysOpen)) =
      some ([.ok (), .ok (), .ok ()], true) := by
  decide +kernel

/-- One attempt comes before the second expansion, and only its first command was performed. -/
theorem barred_split :
    ∃ before after commands previous,
      (career "app" hasty barredAgain).story =
        before ++ .noted "app" (.expanded errand commands) :: after ∧
      attempts before = [previous] ∧ previous.job = errand ∧ previous.performed.length = 1 := by
  obtain ⟨hrun, hexpands⟩ := barredRun_facts
  obtain ⟨⟨results, past⟩, hcareer, hfacts⟩ := Option.map_eq_some_iff.1 hrun
  rw [Prod.mk.injEq] at hfacts
  obtain ⟨hagenda, hattempts⟩ := hfacts
  have hpast := career_of_within hcareer
  let e := barred.setup "app" hasty
  let s : Session Rehearsal := ⟨past.engine, stageWith true true⟩
  have hagenda : s.agenda = ⟨.idle, 0, [], [], ["pay"]⟩ := hagenda
  obtain ⟨x, hx⟩ : ∃ x, e.expand s.agenda.history errand = .ok x := by
    rw [hagenda]
    cases hexpand : e.expand ["pay"] errand with
    | ok x => exact ⟨x, rfl⟩
    | error f =>
      rw [show (barred.setup "app" hasty).expand ["pay"] errand = .error f from hexpand] at hexpands
      cases hexpands
  obtain ⟨opening, hadded⟩ := since_add (s := s) (by rw [hagenda]) (by rw [hagenda])
    (by rw [hagenda]) hx
  have hstory : (career "app" hasty barredAgain).story =
      past.story ++ since s.stage (e.add errand s).2.stage := by
    rw [barredAgain, career, List.foldl_append, ← career, hpast]
    rfl
  obtain ⟨previous, hprevious⟩ : ∃ previous, attempts past.story = [previous] := by
    have hone := congrArg List.length hattempts
    rw [List.length_map] at hone
    exact List.length_eq_one_iff.1 hone
  rw [hprevious] at hattempts
  simp only [List.map_cons, List.map_nil, List.cons.injEq, Prod.mk.injEq, and_true] at hattempts
  refine ⟨past.story ++ [noted e (.queued errand)], opening, x.commands,
    previous.later [noted e (.queued errand)], ?_, ?_, hattempts.1, ?_⟩
  · rw [hstory, hadded, List.append_cons]
    rfl
  · rw [attempts_of_continues, hprevious]
    · rfl
    · intro entry hentry
      rw [List.mem_singleton.1 hentry]
      trivial
  · have hnone : successes [noted e (.queued errand)] = [] := rfl
    rw [performed_later, hnone, List.append_nil]
    exact hattempts.2

theorem allGood_barredAgain :
    AllGood Uncancelled "app" hasty barredAgain ∧
      (career "app" hasty barredAgain).story.all staysOpen = true := by
  obtain ⟨⟨results, past⟩, hcareer, hfacts⟩ := Option.map_eq_some_iff.1 barredAgain_facts
  rw [Prod.mk.injEq] at hfacts
  obtain ⟨hresults, hopen⟩ := hfacts
  refine ⟨allGood_of_within hcareer fun r hr => ?_, by rw [career_of_within hcareer]; exact hopen⟩
  have hok : r = .ok () := by
    have hresults : results = [.ok (), .ok (), .ok ()] := hresults
    rw [hresults] at hr
    simpa using hr
  rw [hok]
  rintro f ⟨⟩

theorem barred_led_or_cutShort :
    ∃ before after commands previous, AllGood Uncancelled "app" hasty barredAgain ∧
      (career "app" hasty barredAgain).story =
        before ++ .noted "app" (.expanded errand commands) :: after ∧
      attempts before = [previous] ∧
      ∃ screen, previous.screen? hasty.catalog = some screen ∧
        LedTo "app" hasty (barredAgain.map (·.setting)) screen
          (fun attempt lead => Reached attempt lead ∨ CutShort attempt) [previous] := by
  obtain ⟨before, after, commands, previous, hstory, hattempts, -⟩ := barred_split
  obtain ⟨screen, hscreen, -, hled⟩ := led_or_cutShort "app" hasty barredAgain
    allGood_barredAgain.1 before after "app" errand commands previous [] hstory hattempts
  exact ⟨before, after, commands, previous, allGood_barredAgain.1, hstory, hattempts, screen,
    hscreen,
    hled⟩

/-- As long as the application stays open, every job that goes on from a screen has the commands
that lead there performed before it. -/
def AlwaysReached (σ : Type) [Desk σ] : Prop :=
  ∀ (app : String) (config : Config) (turns : List (Turn σ)) (before after : List Entry)
    (app' : String) (job : Job) (commands : List Command) (previous : Attempt)
    (earlier : List Attempt),
    (career app config turns).story.all staysOpen = true →
      (career app config turns).story =
        before ++ .noted app' (.expanded job commands) :: after →
      attempts before = previous :: earlier →
        ∃ screen, previous.screen? config.catalog = some screen ∧
          LedTo app config (turns.map (·.setting)) screen Reached (previous :: earlier)

theorem lead_facts :
    (barred.setup "app" hasty).loadAll (approach none "bank") = .ok [.write (.secret "PIN")] ∧
    errand.operation? = some "pay" ∧ small.screenOf? "pay" = some "bank" := by
  decide +kernel

/-- The command that leads to the screen failed, and still the next job goes on from there. -/
theorem unreached_screen : ¬ AlwaysReached Rehearsal := by
  intro hall
  obtain ⟨before, after, commands, previous, hstory, hattempts, hjob, hone⟩ := barred_split
  obtain ⟨hlead, herrand, hbank⟩ := lead_facts
  obtain ⟨screen, -, hled⟩ := hall "app" hasty barredAgain before after "app" errand commands
    previous [] allGood_barredAgain.2 hstory hattempts
  cases hled with
  | stayed _ hnone => cases hnone
  | @here _ _ v lead own hv _ _ hcomposed harrived =>
    have hbarred : v = barred := by simpa [barredAgain, barredRun] using hv
    subst hbarred
    rw [hjob] at hcomposed
    obtain ⟨hsame, -, -⟩ := hcomposed.settled herrand hbank hlead
    subst hsame
    obtain ⟨params, hprefix⟩ := harrived
    have hlength := hprefix.length_le
    rw [hone] at hlength
    simp at hlength

end Playback.Proofs.Arrival
