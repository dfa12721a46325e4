import Playback.Proofs.Expanding
import Playback.Proofs.Reachability
/-!
# Attempts at jobs

Each expansion of a job is an attempt at it. The story tells the attempts since the application was
last started anew: with each of them which job it is for, the commands, and what was noted until the
next one. The history of an agenda names the operations of the latest two attempts; so an attempt
begins on the screen of the one before it, and only the first one begins on no screen at all.
-/

namespace Playback.Proofs.Attempts

open Footprints Launching Moves Career Expanding Reachability

structure Attempt where
  job : Job
  commands : List Command
  since : List Entry

def successes (story : List Entry) : List Command :=
  story.filterMap fun
    | .noted _ (.performed c (.ok _)) => some c
    | _ => none

namespace Attempt

def screen? (c : Catalog) (attempt : Attempt) : Option String :=
  attempt.job.operation?.bind c.screenOf?

def performed (attempt : Attempt) : List Command := successes attempt.since

/-- The attempt with more noted on it. -/
def later (attempt : Attempt) (news : List Entry) : Attempt :=
  { attempt with since := attempt.since ++ news }

end Attempt

def extend (news : List Entry) : List Attempt → List Attempt
  | [] => []
  | attempt :: earlier => attempt.later news :: earlier

def addEntry (attempts : List Attempt) : Entry → List Attempt
  | .noted _ (.expanded job commands) => ⟨job, commands, []⟩ :: attempts
  | .noted _ (.retrying _) => []
  | entry => extend [entry] attempts

/-- The attempts since the application was last started anew, the latest one first. -/
def attempts (story : List Entry) : List Attempt := story.foldl addEntry []

/-- The latest two operations, the older one first. -/
def recent (attempts : List Attempt) : List String :=
  ((attempts.filterMap (·.job.operation?)).take 2).reverse

def ExpandsAfter (e : Setup) (earlier : List Attempt) (attempt : Attempt) : Prop :=
  ∃ x, e.expand (recent earlier) attempt.job = .ok x ∧ x.commands = attempt.commands

def Chained (app : String) (config : Config) (seen : List Setting) : List Attempt → Prop
  | [] => True
  | attempt :: earlier =>
    (∃ v ∈ seen, ExpandsAfter (v.setup app config) earlier attempt) ∧
      Chained app config seen earlier

/-- The agenda is at the present attempt. -/
structure AtLatest (app : String) (config : Config) (seen : List Setting) (a : Agenda)
    (story : List Entry) : Prop where
  history_eq : a.history = recent (attempts story)
  chained : Chained app config seen (attempts story)
  underway : a.commands ≠ [] → ∃ attempt earlier, attempts story = attempt :: earlier ∧
    a.pending.head? = some attempt.job ∧ a.commands <:+ attempt.commands

/-! ## Attempts in a story -/

def Continues : Entry → Prop
  | .noted _ (.expanded ..) => False
  | .noted _ (.retrying _) => False
  | _ => True

section Stories

variable {story news : List Entry}

theorem extend_nil (l : List Attempt) : extend [] l = l := by
  cases l with
  | nil => rfl
  | cons attempt earlier => simp [extend, Attempt.later]

theorem extend_extend (old new : List Entry) (l : List Attempt) :
    extend new (extend old l) = extend (old ++ new) l := by
  cases l with
  | nil => rfl
  | cons attempt earlier => simp [extend, Attempt.later]

theorem addEntry_of_continues {entry : Entry} (h : Continues entry) (l : List Attempt) :
    addEntry l entry = extend [entry] l := by
  unfold Continues at h
  unfold addEntry
  split <;> simp_all

theorem successes_append (old new : List Entry) :
    successes (old ++ new) = successes old ++ successes new :=
  List.filterMap_append

theorem performed_later (attempt : Attempt) (news : List Entry) :
    (attempt.later news).performed = attempt.performed ++ successes news :=
  successes_append attempt.since news

theorem attempts_append (old new : List Entry) :
    attempts (old ++ new) = new.foldl addEntry (attempts old) :=
  List.foldl_append

theorem foldl_addEntry_of_continues (h : ∀ entry ∈ news, Continues entry) (l : List Attempt) :
    news.foldl addEntry l = extend news l := by
  induction news generalizing l with
  | nil => exact (extend_nil l).symm
  | cons entry rest ih =>
    have hentry := addEntry_of_continues (h entry List.mem_cons_self) l
    have hrest := ih (fun e he => h e (List.mem_cons_of_mem _ he)) (extend [entry] l)
    rw [List.foldl_cons, hentry, hrest, extend_extend]
    rfl

theorem attempts_of_continues (h : ∀ entry ∈ news, Continues entry) :
    attempts (story ++ news) = extend news (attempts story) := by
  rw [attempts_append, foldl_addEntry_of_continues h]

theorem attempts_of_expanded {app : String} {job : Job} {commands : List Command}
    (h : ∀ entry ∈ news, Continues entry) :
    attempts (story ++ .noted app (.expanded job commands) :: news) =
      ⟨job, commands, news⟩ :: attempts story := by
  rw [attempts_append, List.foldl_cons, foldl_addEntry_of_continues h]
  rfl

theorem attempts_of_retrying {app : String} {count : Nat} (h : ∀ entry ∈ news, Continues entry) :
    attempts (story ++ .noted app (.retrying count) :: news) = [] := by
  rw [attempts_append, List.foldl_cons, foldl_addEntry_of_continues h]
  rfl

theorem continues_of_within {kind : Call → Bool} {entry : Entry} (h : Within kind entry) :
    Continues entry :=
  h.cases (fun _ _ _ => trivial) fun _ _ => trivial

theorem continues_departure (e : Setup) (n : Job → Note) (hn : ∀ job, Continues (noted e (n job)))
    (jobs : List Job) : ∀ entry ∈ departure e n jobs, Continues entry :=
  forall_mem_departure hn trivial jobs

theorem continues_performed {e : Setup} {c : Command} {work : List Entry}
    {outcome : Except Fault Unit}
    (hwork : Performing.Performs c work outcome) :
    ∀ entry ∈ noted e (.dispatched c) :: work ++ [noted e (.performed c outcome)],
      Continues entry := by
  intro entry hentry
  rw [List.mem_append, List.mem_cons, List.mem_singleton] at hentry
  rcases hentry with (rfl | hentry) | rfl
  · trivial
  · cases hwork with
    | empty => cases hentry
    | delivered =>
      rw [List.mem_singleton.1 hentry]
      trivial
    | played _ hplays => exact continues_of_within (hplays entry hentry)
  · trivial

theorem recent_extend (news : List Entry) (l : List Attempt) :
    recent (extend news l) = recent l := by
  cases l with
  | nil => rfl
  | cons attempt earlier => simp [recent, extend, Attempt.later, List.filterMap_cons]

end Stories

/-! ## Histories -/

section Histories

variable {e : Setup} {earlier l : List Attempt} {job : Job} {x : Expansion}

theorem remember_recent {attempt : Attempt} {operation : String}
    (h : attempt.job.operation? = some operation) (l : List Attempt) :
    Agenda.remember (recent l) operation = recent (attempt :: l) := by
  unfold recent
  rw [List.filterMap_cons, h]
  dsimp only
  generalize l.filterMap (·.job.operation?) = operations
  match operations with
  | [] => rfl
  | [_] => rfl
  | _ :: _ :: _ => rfl

/-- The screen an attempt sets out from is the one of the attempt before it. -/
theorem previousScreen_recent (h : ∀ attempt ∈ l, attempt.job.operation? ≠ none) :
    e.previousScreen? (recent l) = l.head?.bind (Attempt.screen? e.config.catalog) := by
  cases l with
  | nil => rfl
  | cons attempt earlier =>
    obtain ⟨operation, hoperation⟩ := Option.ne_none_iff_exists'.1 (h attempt List.mem_cons_self)
    have hlast : (recent (attempt :: earlier)).getLast? = some operation := by
      rw [recent, List.getLast?_reverse, List.filterMap_cons, hoperation]
      rfl
    rw [Setup.previousScreen?, hlast, List.head?_cons, Option.bind_some, Option.bind_some,
      Attempt.screen?, hoperation, Option.bind_some]

end Histories

section Chains

variable {app : String} {config : Config} {seen : List Setting} {l earlier : List Attempt}
  {attempt : Attempt}

theorem operation_of_expandsAfter {e : Setup} (h : ExpandsAfter e earlier attempt) :
    attempt.job.operation? ≠ none := by
  obtain ⟨x, hexpand, -⟩ := h
  rw [(expand_eq_ok_iff.1 hexpand).1]
  exact Option.some_ne_none _

theorem Chained.operations (h : Chained app config seen l) :
    ∀ attempt ∈ l, attempt.job.operation? ≠ none := by
  induction l with
  | nil => simp
  | cons attempt earlier ih =>
    obtain ⟨⟨v, -, hexpands⟩, hearlier⟩ := h
    intro other hother
    rcases List.mem_cons.1 hother with rfl | hother
    · exact operation_of_expandsAfter hexpands
    · exact ih hearlier other hother

theorem Chained.extend (h : Chained app config seen l) (news : List Entry) :
    Chained app config seen (extend news l) := by
  cases l with
  | nil => exact h
  | cons attempt earlier => exact h

theorem composed_of_expandsAfter {e : Setup} (hconfig : e.config = config)
    (h : ExpandsAfter e earlier attempt) (hearlier : Chained app config seen earlier) :
    ∃ screen lead own, attempt.screen? config.catalog = some screen ∧
      Composed e (earlier.head?.bind (Attempt.screen? config.catalog)) screen attempt.job lead own
        attempt.commands := by
  obtain ⟨x, hexpand, hcommands⟩ := h
  obtain ⟨hoperation, screen, lead, own, hcomposed⟩ := expand_eq_ok_iff.1 hexpand
  rw [previousScreen_recent hearlier.operations, hconfig, hcommands] at hcomposed
  refine ⟨screen, lead, own, ?_, hcomposed⟩
  obtain ⟨operation, hjob, hscreen, -⟩ := hcomposed
  rw [hconfig] at hscreen
  rw [Attempt.screen?, hjob, Option.bind_some, hscreen]

theorem Chained.screen (h : Chained app config seen (attempt :: earlier)) :
    ∃ screen, attempt.screen? config.catalog = some screen := by
  obtain ⟨⟨v, -, hexpands⟩, hearlier⟩ := h
  obtain ⟨screen, -, -, hscreen, -⟩ := composed_of_expandsAfter rfl hexpands hearlier
  exact ⟨screen, hscreen⟩

end Chains

/-! ## Moves keep to the latest attempt -/

section Latest

variable {app : String} {config : Config} {seen : List Setting} {a b : Agenda}
variable {story news : List Entry} {w : Setting} {r : Except Fault Unit}

theorem AtLatest.continues (h : AtLatest app config seen a story)
    (hcontinues : ∀ entry ∈ news, Continues entry) :
    AtLatest app config seen a (story ++ news) := by
  have hattempts : attempts (story ++ news) = extend news (attempts story) :=
    attempts_of_continues hcontinues
  refine ⟨?_, ?_, fun hcommands => ?_⟩
  · rw [hattempts, recent_extend, h.history_eq]
  · rw [hattempts]
    exact h.chained.extend news
  · obtain ⟨attempt, earlier, hpresent, hrest⟩ := h.underway hcommands
    refine ⟨attempt.later news, earlier, ?_, hrest⟩
    rw [hattempts, hpresent]
    rfl

theorem AtLatest.within {kind : Call → Bool} (h : AtLatest app config seen a story)
    (hnews : ∀ entry ∈ news, Within kind entry) : AtLatest app config seen a (story ++ news) :=
  h.continues fun entry hentry => continues_of_within (hnews entry hentry)

theorem AtLatest.clear (h : AtLatest app config seen a story) (hhistory : b.history = a.history)
    (hcommands : b.commands = []) : AtLatest app config seen b story :=
  ⟨hhistory.trans h.history_eq, h.chained, fun hsome => absurd hcommands hsome⟩

theorem AtLatest.pop (h : AtLatest app config seen a story) {c : Command} {commands : List Command}
    (hcommands : a.commands = c :: commands) :
    AtLatest app config seen { a with commands } story := by
  refine ⟨h.history_eq, h.chained, fun _ => ?_⟩
  obtain ⟨attempt, earlier, hpresent, hpending, hsuffix⟩ := h.underway (by simp [hcommands])
  rw [hcommands] at hsuffix
  exact ⟨attempt, earlier, hpresent, hpending, (List.suffix_cons c commands).trans hsuffix⟩

theorem atLatest_of_advances (hw : w ∈ seen) (h : AtLatest app config seen a story)
    (hnext : Advances (w.setup app config) a news r b) :
    AtLatest app config seen b (story ++ news) := by
  induction hnext generalizing story with
  | idle =>
    rw [List.append_nil]
    exact h.clear rfl rfl
  | @found a job rest x opening r hpending hexpand hopening _ =>
    have hattempts :
        attempts (story ++ noted (w.setup app config) (.expanded job x.commands) :: opening) =
        ⟨job, x.commands, opening⟩ :: attempts story :=
      attempts_of_expanded fun entry hentry => continues_of_within (hopening entry hentry)
    have hoperation : job.operation? = some x.operation := (expand_eq_ok_iff.1 hexpand).1
    rw [h.history_eq] at hexpand
    refine ⟨?_, ?_, fun _ => ⟨_, _, hattempts, ?_, List.suffix_refl _⟩⟩
    · rw [hattempts, h.history_eq]
      have hattempt : (⟨job, x.commands, opening⟩ : Attempt).job.operation? = some x.operation :=
        hoperation
      exact remember_recent hattempt _
    · rw [hattempts]
      exact ⟨⟨w, hw, x, hexpand, rfl⟩, h.chained⟩
    · rw [hpending]
      rfl
  | @dropped a b job rest f news r _ _ _ ih =>
    have hcontinues := continues_departure (w.setup app config) (.abandoned · f)
      (fun _ => trivial) a.pending
    have hleft : AtLatest app config seen a.dropFirst story := h.clear rfl rfl
    rw [← List.append_assoc]
    exact ih (hleft.continues hcontinues)

theorem atLatest_of_retrying {count : Nat} (hcontinues : ∀ entry ∈ news, Continues entry)
    (hhistory : a.history = []) (hcommands : a.commands = []) :
    AtLatest app config seen a (story ++ .noted app (.retrying count) :: news) := by
  have hattempts : attempts (story ++ .noted app (.retrying count) :: news) = [] :=
    attempts_of_retrying hcontinues
  refine ⟨?_, ?_, fun hsome => absurd hcommands hsome⟩
  · rw [hattempts, hhistory]
    rfl
  · rw [hattempts]
    trivial

theorem atLatest_of_follows {c : Command} {outcome : Except Fault Unit} (hw : w ∈ seen)
    (h : AtLatest app config seen a story)
    (hfollow : Follows (w.setup app config) c a outcome news r b) :
    AtLatest app config seen b (story ++ news) := by
  cases hfollow with
  | onward =>
    rw [List.append_nil]
    exact h
  | retired _ hnext =>
    have hcontinues := continues_departure (w.setup app config) .retired (fun _ => trivial)
      a.pending
    have hleft : AtLatest app config seen { a.dropFirst with phase := .awaiting } story :=
      h.clear rfl rfl
    rw [← List.append_assoc]
    exact atLatest_of_advances hw (hleft.continues hcontinues) hnext
  | cut =>
    rw [List.append_nil]
    exact h
  | @abandoned f _ _ _ _ _ hnext =>
    have hcontinues := continues_departure (w.setup app config) (.abandoned · f)
      (fun _ => trivial) a.pending
    have hleft : AtLatest app config seen a.dropFirst story := h.clear rfl rfl
    rw [← List.append_assoc]
    exact atLatest_of_advances hw (hleft.continues hcontinues) hnext
  | stuck _ _ hnews =>
    exact atLatest_of_retrying (fun entry hentry => continues_of_within (hnews entry hentry)) rfl
      rfl
  | begunAgain _ _ hrelaunch hnext =>
    rw [← List.append_assoc]
    exact atLatest_of_advances hw (atLatest_of_retrying (fun entry hentry =>
      continues_of_within (hrelaunch entry hentry)) rfl rfl) hnext

theorem atLatest_of_steps {c : Command} {commands : List Command} (hw : w ∈ seen)
    (h : AtLatest app config seen a story) (hcommands : a.commands = c :: commands)
    (hstep : Steps (w.setup app config) c { a with commands } news r b) :
    AtLatest app config seen b (story ++ news) := by
  have hpop := h.pop hcommands
  cases hstep with
  | refused =>
    rw [List.append_nil]
    exact hpop
  | @performed work later pause outcome r _ b hwork hfollow hpause _ =>
    let notes := noted (w.setup app config) (.dispatched c) :: work ++
      [noted (w.setup app config) (.performed c outcome)]
    have hnoted : AtLatest app config seen { a with commands } (story ++ notes) :=
      hpop.continues (continues_performed hwork)
    have hfollowed := (atLatest_of_follows hw hnoted hfollow).within hpause
    simpa [notes] using hfollowed

theorem AtLatest.queue (h : AtLatest app config seen a story) (job : Job) :
    AtLatest app config seen (a.queue job) story := by
  refine ⟨h.history_eq, h.chained, fun hcommands => ?_⟩
  obtain ⟨attempt, earlier, hpresent, hpending, hsuffix⟩ := h.underway hcommands
  refine ⟨attempt, earlier, hpresent, ?_, hsuffix⟩
  rw [Agenda.queue, List.head?_append, hpending]
  rfl

/-- At every point that is reached the agenda is at the latest attempt. -/
theorem atLatest_of_reachable (h : Reachable AnyStep app config seen a story) :
    AtLatest app config seen a story := by
  induction h with
  | fresh => exact ⟨rfl, trivial, fun hsome => absurd rfl hsome⟩
  | @queued a story job _ ih =>
    have hcontinues : ∀ entry ∈ [Entry.noted app (.queued job)], Continues entry := by
      intro entry hentry
      rw [List.mem_singleton.1 hentry]
      trivial
    exact (ih.continues hcontinues).queue job
  | advanced _ hw hnext ih => exact atLatest_of_advances hw ih hnext
  | opened _ hopening ih => exact ih.within hopening
  | stepped _ hw hcommands hstep ih =>
    obtain ⟨r, hsteps⟩ := hstep
    exact atLatest_of_steps hw ih hcommands hsteps
  | finished _ hcommands ih => exact ih.clear rfl hcommands

end Latest

end Playback.Proofs.Attempts
