import Mathlib.Data.List.DropRight
import Mathlib.Data.List.Forall2
import Playback.Proofs.Accounts
import Playback.Proofs.Attempts
/-!
# The walk through the screens

As long as every job that can be expanded is brought to its end, an engine walks from screen to
screen. The first job is reached from the base screen, a job on the screen of the one before needs
its own recording only, and any other one goes back first. Jobs that cannot be expanded may come in
between; they leave no trace in the walk.
-/

namespace Playback.Proofs.Walk

open Footprints Moves Performing Career Queue Story Accounts Expanding Reachability Attempts

variable {σ : Type}

/-! ## Stops -/

/-- What an entry does to the job that is being performed. -/
def take (job : Option Job) : Entry → Option Job
  | .noted _ (.expanded job _) => some job
  | .noted _ (.retired _) => none
  | .noted _ (.abandoned ..) => none
  | _ => job

/-- The job that is being performed after a story. -/
def current (story : List Entry) : Option Job := story.foldl take none

def stop? : Entry → Option (Job × Except Fault (List Command))
  | .noted _ (.expanded job commands) => some (job, .ok commands)
  | .noted _ (.abandoned job f) => some (job, .error f)
  | _ => none

/-- The jobs that had their turn, with their commands or the reason why they were given up. -/
def stops (story : List Entry) : List (Job × Except Fault (List Command)) := story.filterMap stop?

def visit? (stop : Job × Except Fault (List Command)) : Option (Job × List Command) :=
  stop.2.toOption.map fun commands => (stop.1, commands)

/-- The jobs that were expanded, with their commands. -/
def visits (story : List Entry) : List (Job × List Command) := (stops story).filterMap visit?

def operations (story : List Entry) : List String := (visits story).filterMap (·.1.operation?)

/-- The job that is being performed is not disturbed: no job is begun anew, and nothing is expanded
or given up as long as it has not left. -/
def Undisturbed (job : Option Job) : Entry → Prop
  | .noted _ (.expanded ..) => job = none
  | .noted _ (.abandoned ..) => job = none
  | .noted _ (.retrying _) => False
  | _ => True

/-- Every job that is expanded is brought to its end. -/
def Completes (story : List Entry) : Prop :=
  ∀ before entry after, story = before ++ entry :: after → Undisturbed (current before) entry

def Smooth : Option Job → List Entry → Prop
  | _, [] => True
  | job, entry :: rest => Undisturbed job entry ∧ Smooth (take job entry) rest

section Stories

variable {story news : List Entry}

theorem Completes.before (h : Completes (story ++ news)) : Completes story := by
  intro before entry after hsplit
  apply h before entry (after ++ news)
  rw [hsplit, List.append_assoc, List.cons_append]

theorem Completes.entry {entry : Entry} (h : Completes (story ++ entry :: news)) :
    Undisturbed (current story) entry :=
  h story entry news rfl

theorem current_append_singleton (story : List Entry) (entry : Entry) :
    current (story ++ [entry]) = take (current story) entry := by
  rw [current, List.foldl_append]
  rfl

theorem smooth_iff (past story : List Entry) :
    Smooth (current past) story ↔ ∀ before entry after, story = before ++ entry :: after →
      Undisturbed (current (past ++ before)) entry := by
  induction story generalizing past with
  | nil => simp [Smooth]
  | cons first rest ih =>
    have hrest := ih (past ++ [first])
    rw [current_append_singleton] at hrest
    rw [Smooth, hrest]
    constructor
    · rintro ⟨hfirst, hall⟩ before entry after hsplit
      cases before with
      | nil =>
        obtain ⟨rfl, -⟩ := List.cons.inj hsplit
        rwa [List.append_nil]
      | cons other before =>
        obtain ⟨rfl, hafter⟩ := List.cons.inj hsplit
        rw [List.append_cons]
        exact hall before entry after hafter
    · intro hall
      refine ⟨?_, fun before entry after hsplit => ?_⟩
      · simpa using hall [] first rest rfl
      · rw [← List.append_cons]
        apply hall (first :: before) entry after
        rw [hsplit, List.cons_append]

instance : (job : Option Job) → (entry : Entry) → Decidable (Undisturbed job entry)
  | _, .called .. => .isTrue trivial
  | _, .shown .. => .isTrue trivial
  | job, .noted _ (.expanded ..) => inferInstanceAs (Decidable (job = none))
  | job, .noted _ (.abandoned ..) => inferInstanceAs (Decidable (job = none))
  | _, .noted _ (.retrying _) => .isFalse id
  | _, .noted _ (.queued _) => .isTrue trivial
  | _, .noted _ (.dispatched _) => .isTrue trivial
  | _, .noted _ (.performed ..) => .isTrue trivial
  | _, .noted _ (.retired _) => .isTrue trivial

instance decidableSmooth : (job : Option Job) → (story : List Entry) → Decidable (Smooth job story)
  | _, [] => .isTrue trivial
  | job, entry :: rest =>
    have := decidableSmooth (take job entry) rest
    inferInstanceAs (Decidable (Undisturbed job entry ∧ Smooth (take job entry) rest))

instance (story : List Entry) : Decidable (Completes story) :=
  decidable_of_iff (Smooth none story) (smooth_iff [] story)

theorem stops_append (old news : List Entry) : stops (old ++ news) = stops old ++ stops news :=
  List.filterMap_append

theorem visits_append (old news : List Entry) :
    visits (old ++ news) = visits old ++ visits news := by
  rw [visits, stops_append, List.filterMap_append]
  rfl

theorem take_of_quiet {entry : Entry} (h : Quiet entry) (job : Option Job) :
    take job entry = job := by
  unfold Quiet Still at h
  unfold take
  split <;> simp_all

theorem current_append_of_quiet (story : List Entry) (h : ∀ entry ∈ news, Quiet entry) :
    current (story ++ news) = current story := by
  rw [current, List.foldl_append]
  exact foldl_of_unchanged (fun entry hentry => take_of_quiet (h entry hentry)) _

theorem stops_of_quiet (h : ∀ entry ∈ news, Quiet entry) : stops news = [] := by
  unfold stops
  rw [List.filterMap_eq_nil_iff]
  intro entry hentry
  have hquiet := h entry hentry
  unfold Quiet Still at hquiet
  unfold stop?
  split <;> simp_all

end Stories

/-! ## Attempts and visits -/

section Visits

variable {story : List Entry}

def visited (l : List Attempt) : List (Job × List Command) :=
  (l.map fun attempt => (attempt.job, attempt.commands)).reverse

theorem visited_cons (attempt : Attempt) (earlier : List Attempt) :
    visited (attempt :: earlier) = visited earlier ++ [(attempt.job, attempt.commands)] := by
  rw [visited, List.map_cons, List.reverse_cons, visited]

theorem visited_extend (news : List Entry) (l : List Attempt) :
    visited (extend news l) = visited l := by
  cases l <;> rfl

theorem visited_attempts (h : Completes story) : visited (attempts story) = visits story := by
  induction story using List.reverseRecOn with
  | nil => rfl
  | append_singleton story entry ih =>
    rw [attempts_append, List.foldl_cons, List.foldl_nil, visits_append, ← ih h.before]
    have hcontinues : visited (extend [entry] (attempts story)) =
        visited (attempts story) ++ [] := by
      rw [visited_extend, List.append_nil]
    cases entry with
    | called c outcome => exact hcontinues
    | shown m span => exact hcontinues
    | noted app note =>
      cases note with
      | expanded job commands => exact visited_cons _ _
      | retrying count => exact h.entry.elim
      | queued job => exact hcontinues
      | dispatched c => exact hcontinues
      | performed c outcome => exact hcontinues
      | retired job => exact hcontinues
      | abandoned job f => exact hcontinues

theorem recent_attempts (h : Completes story) :
    recent (attempts story) = (operations story).rtake 2 := by
  have hoperations : (attempts story).filterMap (·.job.operation?) =
      (operations story).reverse := by
    calc (attempts story).filterMap (·.job.operation?)
        = (visited (attempts story)).reverse.filterMap (·.1.operation?) := by
          rw [visited, List.reverse_reverse, List.filterMap_map]
          rfl
      _ = (visits story).reverse.filterMap (·.1.operation?) := by rw [visited_attempts h]
      _ = (operations story).reverse := List.filterMap_reverse
  rw [recent, hoperations, List.rtake_eq_reverse_take_reverse]

end Visits

/-! ## The route -/

/-- The recordings of one job after the other, where the first one sets out from this screen. -/
def onward (previous : String) : List (String × String) → List (List Recording)
  | [] => []
  | (operation, screen) :: rest =>
    (if screen = previous then [⟨.action, operation⟩]
      else [⟨.goingBack, previous⟩, ⟨.navigation, screen⟩, ⟨.action, operation⟩]) ::
      onward screen rest

/-- The recordings of these operations on their screens, one after the other. -/
def route : List (String × String) → List (List Recording)
  | [] => []
  | (operation, screen) :: rest =>
    [⟨.base, "Base"⟩, ⟨.navigation, screen⟩, ⟨.action, operation⟩] :: onward screen rest

def place? (c : Catalog) (job : Job) : Option (String × String) :=
  job.operation?.bind fun operation => (c.screenOf? operation).map (operation, ·)

def places (c : Catalog) (visits : List (Job × List Command)) : List (String × String) :=
  visits.filterMap fun visit => place? c visit.1

/-- The commands of the visit are those of the recordings, between the one that sets the parameters
and the one that delivers the results. -/
def Plays (app : String) (config : Config) (seen : List Setting) (visit : Job × List Command)
    (recordings : List Recording) : Prop :=
  ∃ w ∈ seen, ∃ operation recorded, visit.1.operation? = some operation ∧
    (w.setup app config).loadAll recordings = .ok recorded ∧
    visit.2 = .paramChange ((w.setup app config).params visit.1 operation) :: recorded ++
      [.webhook ((w.setup app config).params visit.1 operation)]

section Routes

variable {app : String} {config : Config} {seen : List Setting} {attempt : Attempt}
  {earlier : List Attempt}

theorem recordings_some (previous screen operation : String) :
    Setup.recordings (some previous) screen operation =
      if screen = previous then [⟨.action, operation⟩]
      else [⟨.goingBack, previous⟩, ⟨.navigation, screen⟩, ⟨.action, operation⟩] := by
  by_cases h : previous = screen
  · rw [Setup.recordings, if_pos h, if_pos h.symm]
  · rw [Setup.recordings, if_neg h, if_neg fun hscreen => h hscreen.symm]

theorem onward_concat (walk : List (String × String)) (previous operation screen : String) :
    onward previous (walk ++ [(operation, screen)]) = onward previous walk ++
      [Setup.recordings (some ((walk.getLast?.map (·.2)).getD previous)) screen operation] := by
  induction walk generalizing previous with
  | nil =>
    rw [List.nil_append, onward, onward, onward, ← recordings_some]
    rfl
  | cons place rest ih =>
    obtain ⟨first, reached⟩ := place
    have hlast : ((((first, reached) :: rest).getLast?.map (·.2)).getD previous) =
        (rest.getLast?.map (·.2)).getD reached := by
      rw [List.getLast?_cons]
      cases rest.getLast? <;> rfl
    rw [List.cons_append, onward, ih, onward, hlast, List.cons_append]

theorem route_concat (walk : List (String × String)) (operation screen : String) :
    route (walk ++ [(operation, screen)]) =
      route walk ++ [Setup.recordings (walk.getLast?.map (·.2)) screen operation] := by
  cases walk with
  | nil => rfl
  | cons place rest =>
    obtain ⟨first, reached⟩ := place
    have hlast : ((first, reached) :: rest).getLast?.map (·.2) =
        some ((rest.getLast?.map (·.2)).getD reached) := by
      rw [List.getLast?_cons]
      cases rest.getLast? <;> rfl
    rw [List.cons_append, route, onward_concat, route, hlast, List.cons_append]

theorem places_concat {c : Catalog} {visit : Job × List Command} {place : String × String}
    (h : place? c visit.1 = some place) (earlier : List (Job × List Command)) :
    places c (earlier ++ [visit]) = places c earlier ++ [place] := by
  rw [places, List.filterMap_append, List.filterMap_cons, h]
  rfl

theorem plays_of_composed {w : Setting} {previous : Option String} {screen operation : String}
    {job : Job} {lead own commands : List Command} (hw : w ∈ seen)
    (h : Composed (w.setup app config) previous screen job lead own commands)
    (hoperation : job.operation? = some operation) :
    Plays app config seen (job, commands) (Setup.recordings previous screen operation) := by
  obtain ⟨chosen, hchosen, -, hlead, hown, hcommands⟩ := h
  rw [hoperation, Option.some.injEq] at hchosen
  subst hchosen
  refine ⟨w, hw, operation, lead ++ own, hoperation, ?_, ?_⟩
  · rw [recordings_eq, loadAll_append, loadAll_singleton, hlead, hown]
    rfl
  · rw [hcommands, List.cons_append, List.cons_append]

theorem plays_of_chained {l : List Attempt} (h : Chained app config seen l) :
    List.Forall₂ (Plays app config seen) (visited l) (route (places config.catalog (visited l))) ∧
      (places config.catalog (visited l)).getLast?.map (·.2) =
        l.head?.bind (Attempt.screen? config.catalog) := by
  induction l with
  | nil => exact ⟨.nil, rfl⟩
  | cons attempt earlier ih =>
    obtain ⟨hroute, hlast⟩ := ih h.2
    obtain ⟨⟨w, hw, hexpands⟩, hearlier⟩ := h
    have hconfig : (w.setup app config).config = config := rfl
    obtain ⟨screen, lead, own, hscreen, hcomposed⟩ :=
      composed_of_expandsAfter hconfig hexpands hearlier
    have hstart := hcomposed
    obtain ⟨operation, hoperation, hreached, -⟩ := hstart
    let visit : Job × List Command := (attempt.job, attempt.commands)
    have hplace : place? config.catalog visit.1 = some (operation, screen) := by
      rw [place?, hoperation]
      exact congrArg (Option.map (operation, ·)) hreached
    have hplays := plays_of_composed hw hcomposed hoperation
    rw [← hlast] at hplays
    rw [visited_cons, places_concat hplace, route_concat]
    refine ⟨List.rel_append hroute (.cons hplays .nil), ?_⟩
    rw [List.getLast?_concat, List.head?_cons, Option.bind_some, hscreen]
    rfl

end Routes

/-! ## Moves keep to the walk -/

/-- A job that leaves without having been expanded could not be. -/
def Refused (app : String) (config : Config) (seen : List Setting) (before : List Entry)
    (entry : Entry) (_ : List Entry) : Prop :=
  match entry with
  | .noted _ (.abandoned job f) =>
    ∃ w ∈ seen, (w.setup app config).expand (recent (attempts before)) job = .error f
  | _ => True

/-- What the entries so far have to do with the agenda. -/
structure Walking (app : String) (config : Config) (seen : List Setting) (a : Agenda)
    (story : List Entry) : Prop where
  headed : ∀ job, current story = some job → a.pending.head? = some job
  busy : a.commands ≠ [] → current story ≠ none
  in_turn : (stops story).map (·.1) = left story ++ (current story).toList
  refused : Throughout (Refused app config seen) [] story

section Moving

variable {app : String} {config : Config} {seen : List Setting} {a b : Agenda}
variable {story news : List Entry} {w : Setting} {r : Except Fault Unit} {job : Job}
variable {rest : List Job}

theorem stable_refused : Stable (Refused app config seen) := fun _ _ _ _ h => h

theorem refused_of_quiet {entry : Entry} (h : Quiet entry) (before after : List Entry) :
    Refused app config seen before entry after := by
  unfold Quiet Still at h
  unfold Refused
  split <;> simp_all

theorem Walking.quiet (h : Walking app config seen a story)
    (hnews : ∀ entry ∈ news, Quiet entry) : Walking app config seen a (story ++ news) := by
  have hcurrent := current_append_of_quiet story hnews
  refine ⟨?_, ?_, ?_, h.refused.append stable_refused ?_⟩
  · rw [hcurrent]
    exact h.headed
  · rw [hcurrent]
    exact h.busy
  · have hleft := left_of_still fun entry hentry => still_of_quiet (hnews entry hentry)
    rw [stops_append, stops_of_quiet hnews, left_append, hleft, hcurrent, List.append_nil,
      List.append_nil, h.in_turn]
  · exact throughout_of_forall fun entry hentry => refused_of_quiet (hnews entry hentry)

theorem Walking.congr (h : Walking app config seen a story) (hpending : b.pending = a.pending)
    (hcommands : b.commands ≠ [] → a.commands ≠ []) : Walking app config seen b story := by
  refine ⟨?_, fun hsome => h.busy (hcommands hsome), h.in_turn, h.refused⟩
  rw [hpending]
  exact h.headed

theorem Walking.departure {e : Setup} {n : Job → Note}
    (h : Walking app config seen b (story ++ [noted e (n job)])) :
    Walking app config seen b (story ++ Moves.departure e n (job :: rest)) := by
  obtain ⟨signal, hsignal, hquiet⟩ := departure_quiet e n job rest
  rw [hsignal, List.append_cons]
  exact h.quiet hquiet

theorem Walking.retired {e : Setup} (h : Walking app config seen a story)
    (hcurrent : current story = some job) (hpending : a.pending = job :: rest)
    (hcommands : b.commands = []) :
    Walking app config seen b (story ++ Moves.departure e .retired a.pending) := by
  rw [hpending]
  apply Walking.departure
  have hnone : current (story ++ [noted e (.retired job)]) = none :=
    current_append_singleton _ _
  refine ⟨?_, fun hsome => absurd hcommands hsome, ?_, h.refused.append stable_refused ?_⟩
  · rw [hnone]
    rintro other ⟨⟩
  · rw [hnone, stops_append, left_append, List.map_append, h.in_turn, hcurrent]
    simp [stops, stop?, left, noted]
  · exact throughout_cons trivial throughout_nil

theorem Walking.abandoned {f : Fault} (hw : w ∈ seen) (h : Walking app config seen a story)
    (hcurrent : current story = none) (hhistory : a.history = recent (attempts story))
    (hexpand : (w.setup app config).expand a.history job = .error f)
    (hpending : a.pending = job :: rest) :
    Walking app config seen a.dropFirst
      (story ++ Moves.departure (w.setup app config) (.abandoned · f) a.pending) := by
  rw [hpending]
  apply Walking.departure (n := (.abandoned · f))
  have hnone : current (story ++ [noted (w.setup app config) (.abandoned job f)]) = none :=
    current_append_singleton _ _
  refine ⟨?_, fun hsome => absurd rfl hsome, ?_, h.refused.append stable_refused ?_⟩
  · rw [hnone]
    rintro other ⟨⟩
  · rw [hnone, stops_append, left_append, List.map_append, h.in_turn, hcurrent]
    simp [stops, stop?, left, noted]
  · refine throughout_cons ?_ throughout_nil
    rw [hhistory] at hexpand
    exact ⟨w, hw, hexpand⟩

theorem Walking.expanded {e : Setup} {commands : List Command}
    (h : Walking app config seen a story) (hcurrent : current story = none)
    (hpending : b.pending = job :: rest) :
    Walking app config seen b (story ++ [noted e (.expanded job commands)]) := by
  have hsome : current (story ++ [noted e (.expanded job commands)]) = some job :=
    current_append_singleton _ _
  refine ⟨?_, fun _ => ?_, ?_, h.refused.append stable_refused ?_⟩
  · rw [hsome, hpending]
    rintro other ⟨⟩
    rfl
  · rw [hsome]
    exact Option.some_ne_none job
  · rw [hsome, stops_append, left_append, List.map_append, h.in_turn, hcurrent]
    simp [stops, stop?, left, noted]
  · exact throughout_cons trivial throughout_nil

theorem walking_of_advances (hw : w ∈ seen) (h : Walking app config seen a story)
    (hhistory : a.history = recent (attempts story)) (hcompletes : Completes (story ++ news))
    (hnext : Advances (w.setup app config) a news r b) :
    Walking app config seen b (story ++ news) := by
  induction hnext generalizing story with
  | idle =>
    -- the commands are gone, whatever there was
    rw [List.append_nil]
    exact h.congr rfl fun hsome => absurd rfl hsome
  | @found a job rest x opening r hpending _ hopening _ =>
    have hnone : current story = none := hcompletes.entry
    rw [List.append_cons]
    apply Walking.quiet
    · exact h.expanded hnone hpending
    · exact fun entry hentry => quiet_of_within (hopening entry hentry)
  | @dropped a b job rest f news r hpending hexpand _ ih =>
    have hnone : current story = none := by
      have hhead : a.pending.head? = some job := by rw [hpending, List.head?_cons]
      obtain ⟨more, hmore⟩ := departure_cons (w.setup app config) (.abandoned · f) hhead
      rw [hmore, List.cons_append] at hcompletes
      exact hcompletes.entry
    have hleft := h.abandoned hw hnone hhistory hexpand hpending
    have hcontinues := continues_departure (w.setup app config) (.abandoned · f) (fun _ => trivial)
      a.pending
    rw [← List.append_assoc] at hcompletes ⊢
    apply ih hleft _ hcompletes
    rw [attempts_of_continues hcontinues, recent_extend]
    exact hhistory

theorem walking_of_follows {c : Command} {outcome : Except Fault Unit} (hw : w ∈ seen)
    (h : Walking app config seen a story) (hjob : current story = some job)
    (hhistory : a.history = recent (attempts story)) (hcompletes : Completes (story ++ news))
    (hfollow : Follows (w.setup app config) c a outcome news r b) :
    Walking app config seen b (story ++ news) := by
  have hhead : a.pending.head? = some job := h.headed job hjob
  cases hfollow with
  | onward =>
    rw [List.append_nil]
    exact h
  | cut =>
    rw [List.append_nil]
    exact h
  | retired _ hnext =>
    obtain ⟨rest, hpending⟩ := List.head?_eq_some_iff.1 hhead
    have hcontinues := continues_departure (w.setup app config) .retired
      (fun _ => trivial) a.pending
    have hleft : Walking app config seen { a.dropFirst with phase := .awaiting } _ :=
      h.retired (e := w.setup app config) hjob hpending rfl
    rw [← List.append_assoc] at hcompletes ⊢
    apply walking_of_advances hw hleft _ hcompletes hnext
    rw [attempts_of_continues hcontinues, recent_extend]
    exact hhistory
  | @abandoned f _ _ _ _ _ hnext =>
    -- the job was being performed, and would not have been brought to its end
    obtain ⟨more, hmore⟩ := departure_cons (w.setup app config) (.abandoned · f) hhead
    rw [hmore, List.cons_append] at hcompletes
    have hnone : current story = none := hcompletes.entry
    rw [hjob] at hnone
    cases hnone
  | stuck => exact hcompletes.entry.elim
  | begunAgain => exact hcompletes.entry.elim

theorem walking_of_steps {c : Command} {commands : List Command} (hw : w ∈ seen)
    (h : Walking app config seen a story) (hhistory : a.history = recent (attempts story))
    (hcompletes : Completes (story ++ news)) (hcommands : a.commands = c :: commands)
    (hstep : Steps (w.setup app config) c { a with commands } news r b) :
    Walking app config seen b (story ++ news) := by
  have hsome : a.commands ≠ [] := by simp [hcommands]
  have hpop : Walking app config seen { a with commands } story :=
    h.congr rfl fun _ => hsome
  cases hstep with
  | refused =>
    rw [List.append_nil]
    exact hpop
  | @performed work later pause outcome r _ b hwork hfollow hpause _ =>
    obtain ⟨job, hjob⟩ := Option.ne_none_iff_exists'.1 (h.busy hsome)
    let notes := noted (w.setup app config) (.dispatched c) :: work ++
      [noted (w.setup app config) (.performed c outcome)]
    have hquiet : ∀ entry ∈ notes, Quiet entry := quiet_of_performs hwork
    have hshape : story ++ (noted (w.setup app config) (.dispatched c) :: work ++
        noted (w.setup app config) (.performed c outcome) :: later ++ pause) =
        story ++ notes ++ later ++ pause := by
      simp [notes]
    have hattempts : a.history = recent (attempts (story ++ notes)) := by
      rw [attempts_of_continues (continues_performed hwork), recent_extend]
      exact hhistory
    rw [hshape] at hcompletes ⊢
    apply Walking.quiet
    · exact walking_of_follows hw (hpop.quiet hquiet)
        ((current_append_of_quiet story hquiet).trans hjob) hattempts hcompletes.before hfollow
    · exact fun entry hentry => quiet_of_within (hpause entry hentry)

theorem Walking.queue (h : Walking app config seen a story) (job : Job) :
    Walking app config seen (a.queue job) (story ++ [.noted app (.queued job)]) := by
  have hcurrent : current (story ++ [.noted app (.queued job)]) = current story :=
    current_append_singleton _ _
  refine ⟨?_, ?_, ?_, h.refused.append stable_refused (throughout_cons trivial throughout_nil)⟩
  · rw [hcurrent]
    intro first hfirst
    rw [Agenda.queue, List.head?_append, h.headed first hfirst]
    rfl
  · rw [hcurrent]
    exact h.busy
  · rw [hcurrent, stops_append, left_append, List.map_append, h.in_turn]
    simp [stops, stop?, left]

theorem walking_of_reachable (h : Reachable AnyStep app config seen a story)
    (hcompletes : Completes story) : Walking app config seen a story := by
  induction h with
  | fresh => exact ⟨by rintro job ⟨⟩, fun hsome => absurd rfl hsome, rfl, throughout_nil⟩
  | queued _ ih => exact (ih hcompletes.before).queue _
  | advanced hreachable hw hnext ih =>
    have hhistory := (atLatest_of_reachable hreachable).history_eq
    exact walking_of_advances hw (ih hcompletes.before) hhistory hcompletes hnext
  | opened _ hopening ih =>
    exact (ih hcompletes.before).quiet fun entry hentry => quiet_of_within (hopening entry hentry)
  | stepped hreachable hw hcommands hstep ih =>
    obtain ⟨r, hsteps⟩ := hstep
    have hhistory := (atLatest_of_reachable hreachable).history_eq
    exact walking_of_steps hw (ih hcompletes.before) hhistory hcompletes hcommands hsteps
  | finished _ _ ih => exact (ih hcompletes).congr rfl fun hsome => hsome

end Moving

/-! ## Careers -/

def untouched (a : Agenda) (story : List Entry) : List Job :=
  match current story with
  | none => a.pending
  | some _ => a.pending.tail

/-- The walk of an engine that was given these jobs. -/
structure Walked (app : String) (config : Config) (seen : List Setting) (jobs : List Job)
    (a : Agenda) (story : List Entry) : Prop where
  /-- The jobs have their turns in the order in which they were added. -/
  in_turn : (stops story).map (·.1) ++ untouched a story = jobs
  /-- Those that were expanded play the recordings of the route through their screens. -/
  on_route : List.Forall₂ (Plays app config seen) (visits story)
    (route (places config.catalog (visits story)))
  /-- The others could not be expanded after the latest two operations. -/
  refused : ∀ before job f after, story = before ++ .noted app (.abandoned job f) :: after →
    ∃ w ∈ seen, (w.setup app config).expand ((operations before).rtake 2) job = .error f
  history_eq : a.history = (operations story).rtake 2
  /-- The commands at hand are what is left of the latest ones. -/
  underway : a.commands ≠ [] → ∃ commands, a.commands <:+ commands ∧
    (visits story).getLast?.map (·.2) = some commands

theorem walked_of_reachable {app : String} {config : Config} {seen : List Setting} {jobs : List Job}
    {mode : Option Setting} {a : Agenda} {story : List Entry}
    (hcourse : Course app config seen jobs mode a story)
    (hreachable : Reachable AnyStep app config seen a story) (hcompletes : Completes story) :
    Walked app config seen jobs a story := by
  have hwalking := walking_of_reachable hreachable hcompletes
  have hlatest := atLatest_of_reachable hreachable
  have hvisits : visited (attempts story) = visits story := visited_attempts hcompletes
  refine ⟨?_, ?_, ?_, ?_, ?_⟩
  · rw [← (settles_of_course hcourse).settled, hwalking.in_turn, untouched]
    cases hcurrent : current story with
    | none => rw [Option.toList_none, List.append_nil]
    | some job =>
      obtain ⟨rest, hpending⟩ := List.head?_eq_some_iff.1 (hwalking.headed job hcurrent)
      rw [hpending, Option.toList_some, List.append_assoc]
      rfl
  · rw [← hvisits]
    exact (plays_of_chained hlatest.chained).1
  · intro before job f after hsplit
    have hbefore : Completes before := by
      rw [hsplit] at hcompletes
      exact hcompletes.before
    rw [← recent_attempts hbefore]
    exact hwalking.refused before _ after hsplit
  · rw [hlatest.history_eq, recent_attempts hcompletes]
  · intro hsome
    obtain ⟨attempt, earlier, hattempts, -, hsuffix⟩ := hlatest.underway hsome
    refine ⟨attempt.commands, hsuffix, ?_⟩
    rw [← hvisits, hattempts, visited_cons, List.getLast?_concat]
    rfl

section Moments

variable [Desk σ] (app : String) (config : Config) (turns : List (Turn σ))

/-- The moments at which an engine can be looked at: after its requests, and between two commands of
a run that follows them. -/
inductive Moment : List Setting → Agenda → List Entry → Prop
  | after : Moment (turns.map (·.setting)) (career app config turns).engine.agenda
      (career app config turns).story
  | amid {w : Setting} {stage : Stage σ} {t : Session σ}
      (ht : Stands (w.setup app config) ⟨(career app config turns).engine, stage⟩ t) :
      Moment (w :: turns.map (·.setting)) t.agenda
        ((career app config turns).story ++ since stage t.stage)

theorem reachable_of_moment {seen : List Setting} {a : Agenda} {story : List Entry}
    (h : Moment app config turns seen a story) :
    (∃ mode, Course app config seen (submitted turns) mode a story) ∧
      Reachable AnyStep app config seen a story := by
  have hgood : AllGood (fun _ => True) app config turns := fun _ _ _ _ => trivial
  cases h with
  | after =>
    refine ⟨⟨none, course_of_turns app config turns⟩, ?_⟩
    exact reachable_career allows_anyStep (fun _ hturn => List.mem_map_of_mem hturn) hgood
  | @amid w stage t ht =>
    let s : Session σ := ⟨(career app config turns).engine, stage⟩
    have hseen : ∀ turn ∈ turns, turn.setting ∈ w :: turns.map (·.setting) :=
      fun turn hturn => List.mem_cons_of_mem _ (List.mem_map_of_mem hturn)
    obtain ⟨news, hnews, hcourse⟩ := course_stands (s := s) (course_career app config turns hseen)
      List.mem_cons_self ht
    obtain ⟨same, hsame, hreachable⟩ := reachable_stands (s := s) allows_anyStep
      (reachable_career allows_anyStep hseen hgood) List.mem_cons_self ht
    have hsince : since stage t.stage = news := since_of_adds hnews
    rw [hsame.unique hnews] at hreachable
    rw [hsince]
    exact ⟨⟨_, hcourse⟩, hreachable⟩

/-- As long as every job that is expanded is brought to its end, an engine keeps to the walk. -/
theorem walked_career {seen : List Setting} {a : Agenda} {story : List Entry}
    (h : Moment app config turns seen a story) (hcompletes : Completes story) :
    Walked app config seen (submitted turns) a story := by
  obtain ⟨⟨mode, hcourse⟩, hreachable⟩ := reachable_of_moment app config turns h
  exact walked_of_reachable hcourse hreachable hcompletes

end Moments

/-! ## Three jobs on two screens -/

def mall : Catalog where
  operations := .ofList [("pay", ⟨.active, "bank", [okAttribute]⟩),
    ("buy", ⟨.active, "shop", [okAttribute]⟩)]
  inputs := ⟨[appAttribute, actionAttribute]⟩

def writing : FileEntry :=
  .text "[\x7b\"action\":\"write\",\"position\":[0,0],\"value\":\"hello\"\x7d]"

def furnished : Setting :=
  { bare with
    files := .ofList [("m", .folder), ("m/app", .folder), ("m/app/Base", .folder),
      ("m/app/Base/Base.txt", writing), ("m/app/Ret", .folder), ("m/app/Ret/bank.txt", writing)] }

def task (operation : String) : Job :=
  ⟨.ofAttrs (.ofList [("Action", .text operation), ("App", .text "app")]), ""⟩

def stroll : List (Turn Rehearsal) :=
  (["pay", "steal", "buy", "buy"].map fun operation =>
    ⟨.add (task operation), furnished, stageWith true true⟩) ++
    [⟨.run, furnished, stageWith true true⟩]

def touring : Config := { hasty with catalog := mall }

theorem stroll_facts :
    (careerWithin 14 "app" touring stroll).map (fun r =>
      (decide (Completes r.2.story), (visits r.2.story).map (·.2.length),
        route (places mall (visits r.2.story)), r.2.engine.agenda.history)) = some (true, [3, 3, 2],
      [[⟨.base, "Base"⟩, ⟨.navigation, "bank"⟩, ⟨.action, "pay"⟩],
        [⟨.goingBack, "bank"⟩, ⟨.navigation, "shop"⟩, ⟨.action, "buy"⟩], [⟨.action, "buy"⟩]],
      ["buy", "buy"]) := by
  decide +kernel

theorem stroll_walked :
    let past := career "app" touring stroll
    let seen := stroll.map (·.setting)
    Moment "app" touring stroll seen past.engine.agenda past.story ∧ Completes past.story ∧
      Walked "app" touring seen (submitted stroll) past.engine.agenda past.story ∧
      route (places mall (visits past.story)) =
        [[⟨.base, "Base"⟩, ⟨.navigation, "bank"⟩, ⟨.action, "pay"⟩],
          [⟨.goingBack, "bank"⟩, ⟨.navigation, "shop"⟩, ⟨.action, "buy"⟩], [⟨.action, "buy"⟩]] := by
  obtain ⟨⟨results, past⟩, hcareer, hfacts⟩ := Option.map_eq_some_iff.1 stroll_facts
  rw [Prod.mk.injEq, Prod.mk.injEq, Prod.mk.injEq] at hfacts
  obtain ⟨hcompletes, -, hroute, -⟩ := hfacts
  have hpast := career_of_within hcareer
  have hmoment : Moment "app" touring stroll (stroll.map (·.setting))
      (career "app" touring stroll).engine.agenda (career "app" touring stroll).story := .after
  have hsmooth : Completes (career "app" touring stroll).story := by
    rw [hpast]
    exact of_decide_eq_true hcompletes
  refine ⟨hmoment, hsmooth, walked_career "app" touring stroll hmoment hsmooth, ?_⟩
  rw [hpast]
  exact hroute

end Playback.Proofs.Walk
