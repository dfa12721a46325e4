import Playback.Proofs.Career
/-!
# Agendas that are reached

How an engine comes from its beginning to a point between two requests, or between two commands of a
run. It is left open which request a move belongs to, so that there are fewer moves than in a
course. What a command may do is a parameter: a relation that holds of every step whose result is
good enough.
-/

namespace Playback.Proofs.Reachability

open Footprints Launching Moves Career

variable {σ : Type}

/-- What performing a command that was taken off an agenda may do to the agenda. -/
abbrev StepRule := Setup → Command → Agenda → List Entry → Agenda → Prop

inductive Reachable (steps : StepRule) (app : String) (config : Config) (seen : List Setting) :
    Agenda → List Entry → Prop
  | fresh : Reachable steps app config seen .fresh []
  | queued {a : Agenda} {story : List Entry} {job : Job}
      (h : Reachable steps app config seen a story) :
      Reachable steps app config seen (a.queue job) (story ++ [.noted app (.queued job)])
  | advanced {a b : Agenda} {story news : List Entry} {w : Setting} {r : Except Fault Unit}
      (h : Reachable steps app config seen a story) (hw : w ∈ seen)
      (hnext : Advances (w.setup app config) a news r b) :
      Reachable steps app config seen b (story ++ news)
  | opened {a : Agenda} {story opening : List Entry} (h : Reachable steps app config seen a story)
      (hopening : ∀ entry ∈ opening, Within opens entry) :
      Reachable steps app config seen a (story ++ opening)
  | stepped {a b : Agenda} {story news : List Entry} {w : Setting} {c : Command}
      {commands : List Command} (h : Reachable steps app config seen a story) (hw : w ∈ seen)
      (hcommands : a.commands = c :: commands)
      (hstep : steps (w.setup app config) c { a with commands } news b) :
      Reachable steps app config seen b (story ++ news)
  | finished {a : Agenda} {story : List Entry} (h : Reachable steps app config seen a story)
      (hcommands : a.commands = []) :
      Reachable steps app config seen { a with phase := .idle } story

/-- The rule says what the steps do whose result is good. -/
structure Allows (σ : Type) [Desk σ] (good : Except Fault Unit → Prop) (steps : StepRule) :
    Prop where
  ok : good (.ok ())
  allows : ∀ (e : Setup) (c : Command) (s : Session σ), good (e.step c s).1 →
    ∃ news, Adds s (e.step c s).2 news ∧ steps e c s.agenda news (e.step c s).2.agenda

variable [Desk σ]

/-- What came of the latest of these requests. -/
def outcome (app : String) (config : Config) (before : List (Turn σ)) (turn : Turn σ) :
    Except Fault Unit :=
  (serve (turn.setting.setup app config) turn.request
    ⟨(career app config before).engine, turn.stage⟩).1

/-- All requests of a career had good results. -/
def AllGood (good : Except Fault Unit → Prop) (app : String) (config : Config)
    (turns : List (Turn σ)) : Prop :=
  ∀ before turn after, turns = before ++ turn :: after → good (outcome app config before turn)

variable {good : Except Fault Unit → Prop} {steps : StepRule}
variable {app : String} {config : Config} {seen : List Setting} {story : List Entry} {w : Setting}
variable {s t : Session σ}

theorem reachable_next (h : Reachable steps app config seen s.agenda story) (hw : w ∈ seen) :
    ∃ news, Adds s ((w.setup app config).next s).2 news ∧
      Reachable steps app config seen ((w.setup app config).next s).2.agenda (story ++ news) := by
  obtain ⟨news, hnews, hnext⟩ := realizes_next (w.setup app config) s
  exact ⟨news, hnews, .advanced h hw hnext⟩

theorem reachable_add (job : Job) (h : Reachable steps app config seen s.agenda story)
    (hw : w ∈ seen) :
    ∃ news, Adds s ((w.setup app config).add job s).2 news ∧
      Reachable steps app config seen ((w.setup app config).add job s).2.agenda
        (story ++ news) := by
  have hadds : Adds s (joining (w.setup app config) job s) [.noted app (.queued job)] :=
    adds_cons rfl
  have hjoined : Reachable steps app config seen (joining (w.setup app config) job s).agenda
      (story ++ [.noted app (.queued job)]) := .queued h
  rw [add_eq]
  split
  · obtain ⟨news, hnews, hreachable⟩ := reachable_next hjoined hw
    rw [List.append_assoc] at hreachable
    exact ⟨_, hadds.trans hnews, hreachable⟩
  · exact ⟨_, hadds, hjoined⟩

theorem reachable_begin (h : Reachable steps app config seen s.agenda story) (hw : w ∈ seen) :
    ∃ news, Adds s (begin (w.setup app config) s).2 news ∧
      Reachable steps app config seen (begin (w.setup app config) s).2.agenda (story ++ news) := by
  unfold begin
  split
  · obtain ⟨r, t, opening, ht, hadds, hagenda, hopening, -⟩ :=
      adds_onStage (footprint_ensureOpen (w.setup app config)) s
    rw [ht, hagenda]
    exact ⟨opening, hadds, .opened h hopening⟩
  · split
    · exact reachable_next h hw
    · refine ⟨[], adds_of_journal_eq rfl, ?_⟩
      rw [List.append_nil]
      exact h

theorem reachable_step (hallows : Allows σ good steps)
    (h : Reachable steps app config seen s.agenda story) (hw : w ∈ seen) {c : Command}
    {commands : List Command} {r : Except Fault Unit}
    (hcommands : s.agenda.commands = c :: commands)
    (hstep : (w.setup app config).step c (pop s commands) = (r, t)) (hgood : good r) :
    ∃ news, Adds s t news ∧ Reachable steps app config seen t.agenda (story ++ news) := by
  obtain ⟨news, hnews, hsteps⟩ := hallows.allows (w.setup app config) c (pop s commands)
    (by rw [hstep]; exact hgood)
  rw [hstep] at hnews hsteps
  exact ⟨news, hnews, .stepped h hw hcommands hsteps⟩

theorem reachable_stands (hallows : Allows σ good steps)
    (h : Reachable steps app config seen s.agenda story) (hw : w ∈ seen)
    (ht : Stands (w.setup app config) s t) :
    ∃ news, Adds s t news ∧ Reachable steps app config seen t.agenda (story ++ news) := by
  induction ht with
  | begun hbegin =>
    obtain ⟨news, hnews, hreachable⟩ := reachable_begin h hw
    rw [hbegin] at hnews hreachable
    exact ⟨news, hnews, hreachable⟩
  | onward _ hcommands hstep ih =>
    obtain ⟨old, hold, hreachable⟩ := ih
    obtain ⟨news, hnews, hreachable⟩ :=
      reachable_step hallows hreachable hw hcommands hstep hallows.ok
    rw [List.append_assoc] at hreachable
    exact ⟨old ++ news, hold.trans hnews, hreachable⟩

theorem reachable_run (hallows : Allows σ good steps)
    (h : Reachable steps app config seen s.agenda story) (hw : w ∈ seen)
    (hgood : good ((w.setup app config).run s).1) :
    ∃ news, Adds s ((w.setup app config).run s).2 news ∧
      Reachable steps app config seen ((w.setup app config).run s).2.agenda (story ++ news) := by
  rcases run_cases (w.setup app config) s with ⟨f, t, hbegin, hrun⟩ |
    ⟨t, u, c, commands, f, ht, hcommands, hstep, hrun⟩ | ⟨t, ht, hcommands, hrun⟩
  · obtain ⟨news, hnews, hreachable⟩ := reachable_begin h hw
    rw [hbegin] at hnews hreachable
    rw [hrun]
    exact ⟨news, hnews, hreachable⟩
  · rw [hrun] at hgood ⊢
    obtain ⟨old, hold, hreachable⟩ := reachable_stands hallows h hw ht
    obtain ⟨news, hnews, hreachable⟩ := reachable_step hallows hreachable hw hcommands hstep hgood
    rw [List.append_assoc] at hreachable
    exact ⟨old ++ news, hold.trans hnews, hreachable⟩
  · obtain ⟨news, hnews, hreachable⟩ := reachable_stands hallows h hw ht
    rw [hrun]
    exact ⟨news, hnews, .finished hreachable hcommands⟩

theorem reachable_serve (hallows : Allows σ good steps) (request : Request)
    (h : Reachable steps app config seen s.agenda story) (hw : w ∈ seen)
    (hgood : good (serve (w.setup app config) request s).1) :
    ∃ news, Adds s (serve (w.setup app config) request s).2 news ∧
      Reachable steps app config seen (serve (w.setup app config) request s).2.agenda
        (story ++ news) := by
  cases request with
  | add job => exact reachable_add job h hw
  | next => exact reachable_next h hw
  | run => exact reachable_run hallows h hw hgood

/-- A career whose requests all had good results reaches its end step by step. -/
theorem reachable_career (hallows : Allows σ good steps) {turns : List (Turn σ)}
    (hseen : ∀ turn ∈ turns, turn.setting ∈ seen) (hgood : AllGood good app config turns) :
    Reachable steps app config seen (career app config turns).engine.agenda
      (career app config turns).story := by
  induction turns using List.reverseRecOn with
  | nil => exact .fresh
  | append_singleton turns turn ih =>
    have hbefore : AllGood good app config turns := by
      intro before first after hsplit
      exact hgood before first (after ++ [turn]) (by rw [hsplit]; simp)
    have hreachable := ih (fun turn hturn => hseen turn (List.mem_append_left _ hturn)) hbefore
    have hw : turn.setting ∈ seen := hseen turn (by simp)
    let past := career app config turns
    let t := (serve (turn.setting.setup app config) turn.request ⟨past.engine, turn.stage⟩).2
    obtain ⟨news, hnews, hreachable⟩ := reachable_serve hallows
      turn.request hreachable hw (hgood turns turn [] rfl)
    have hsince : since turn.stage t.stage = news := since_of_adds hnews
    have hcareer : career app config (turns ++ [turn]) = ⟨t.engine, past.story ++ news⟩ := by
      rw [← hsince, career, List.foldl_append]
      rfl
    rw [hcareer]
    exact hreachable

/-! ## Careers that can be worked out -/

def serveWithin (limit : Nat) (e : Setup) (request : Request) (s : Session σ) :
    Option (Except Fault Unit × Session σ) :=
  match request with
  | .run => runWithin e limit s
  | request => some (serve e request s)

def turnWithin (limit : Nat) (app : String) (config : Config)
    (p : List (Except Fault Unit) × Past) (turn : Turn σ) :
    Option (List (Except Fault Unit) × Past) :=
  (serveWithin limit (turn.setting.setup app config) turn.request ⟨p.2.engine, turn.stage⟩).map
    fun (r, t) => (p.1 ++ [r], ⟨t.engine, p.2.story ++ since turn.stage t.stage⟩)

def careerWithin (limit : Nat) (app : String) (config : Config) (turns : List (Turn σ)) :
    Option (List (Except Fault Unit) × Past) :=
  turns.foldlM (turnWithin limit app config) ([], ⟨.fresh, []⟩)

theorem serve_of_within {limit : Nat} {e : Setup} {request : Request} {s : Session σ}
    {result : Except Fault Unit × Session σ} (h : serveWithin limit e request s = some result) :
    serve e request s = result := by
  cases request with
  | add job => exact Option.some.inj h
  | next => exact Option.some.inj h
  | run => exact run_of_within e h

/-- A career worked out is one turn more than a shorter one that is worked out too. -/
theorem within_append {limit : Nat} {turns : List (Turn σ)} {turn : Turn σ}
    {results : List (Except Fault Unit)} {past : Past}
    (h : careerWithin limit app config (turns ++ [turn]) = some (results, past)) :
    ∃ old before r t, careerWithin limit app config turns = some (old, before) ∧
      serve (turn.setting.setup app config) turn.request ⟨before.engine, turn.stage⟩ = (r, t) ∧
      results = old ++ [r] ∧ past = ⟨t.engine, before.story ++ since turn.stage t.stage⟩ := by
  rw [careerWithin, List.foldlM_append] at h
  obtain ⟨⟨old, before⟩, hbefore, hlast⟩ := Option.bind_eq_some_iff.1 h
  rw [List.foldlM_cons] at hlast
  obtain ⟨next, hturn, hnext⟩ := Option.bind_eq_some_iff.1 hlast
  obtain ⟨⟨r, t⟩, hserved, rfl⟩ := Option.map_eq_some_iff.1 hturn
  cases hnext
  exact ⟨old, before, r, t, hbefore, serve_of_within hserved, rfl, rfl⟩

theorem career_of_within {limit : Nat} {turns : List (Turn σ)}
    {results : List (Except Fault Unit)} {past : Past}
    (h : careerWithin limit app config turns = some (results, past)) :
    career app config turns = past := by
  induction turns using List.reverseRecOn generalizing results past with
  | nil =>
    cases h
    rfl
  | append_singleton turns turn ih =>
    obtain ⟨old, before, r, t, hbefore, hserve, -, rfl⟩ := within_append h
    rw [career, List.foldl_append, List.foldl_cons, List.foldl_nil, ← career, ih hbefore, Past.turn,
      hserve]

/-- If all the results that were worked out are good, no request of the career had another. -/
theorem allGood_of_within {limit : Nat} {turns : List (Turn σ)}
    {results : List (Except Fault Unit)} {past : Past}
    (h : careerWithin limit app config turns = some (results, past))
    (hresults : ∀ r ∈ results, good r) : AllGood good app config turns := by
  induction turns using List.reverseRecOn generalizing results past with
  | nil =>
    intro before turn after hsplit
    simp at hsplit
  | append_singleton turns turn ih =>
    obtain ⟨old, past, r, t, hbefore, hserve, rfl, -⟩ := within_append h
    intro before latest after hsplit
    rcases List.eq_nil_or_concat after with rfl | ⟨after, last, rfl⟩
    · obtain ⟨rfl, hlatest⟩ := List.append_inj' hsplit rfl
      cases hlatest
      rw [outcome, career_of_within hbefore, hserve]
      exact hresults r (by simp)
    · rw [List.concat_eq_append, ← List.cons_append, ← List.append_assoc] at hsplit
      obtain ⟨hturns, -⟩ := List.append_inj' hsplit rfl
      exact ih hbefore (fun r hr => hresults r (List.mem_append_left _ hr)) before latest after
        hturns

/-! ## What steps do in general, and what those do that are not cut short -/

def AnyStep : StepRule := fun e c a news b => ∃ r, Steps e c a news r b

theorem allows_anyStep : Allows σ (fun _ => True) AnyStep where
  ok := trivial
  allows e c s _ := by
    obtain ⟨news, hnews, hsteps⟩ := realizes_step e c s
    exact ⟨news, hnews, _, hsteps⟩

def Uncancelled (r : Except Fault Unit) : Prop := ∀ f, r = .error f → f.isCancelled = false

/-- A command is performed, and what comes of it is not an abort. -/
inductive StepsUncancelled (e : Setup) (c : Command) (a : Agenda) : List Entry → Agenda → Prop
  | intro {work news pause : List Entry} {outcome r : Except Fault Unit} {b : Agenda}
      (hwork : Performing.Performs c work outcome) (huncancelled : Uncancelled outcome)
      (hfollow : Follows e c a outcome news r b) (hpause : ∀ entry ∈ pause, Within waits entry) :
      StepsUncancelled e c a
        (noted e (.dispatched c) :: work ++ noted e (.performed c outcome) :: news
        ++ pause) b

theorem stepsUncancelled_of_step (e : Setup) (c : Command) (s : Session σ)
    (hgood : Uncancelled (e.step c s).1) :
    ∃ news, Adds s (e.step c s).2 news ∧
      StepsUncancelled e c s.agenda news (e.step c s).2.agenda := by
  rcases dispatch_cases e c s with ⟨f, hrefused, hf, -⟩ |
    ⟨outcome, work, t, ht, hagenda, hadds, hwork⟩
  · have hstep : e.step c s = (.error f, s) := Action.bind_of_error hrefused
    rw [hstep] at hgood
    rw [hgood f rfl] at hf
    cases hf
  obtain ⟨news, hnews, hfollow⟩ := realizes_follow e c outcome t
  rcases hu : e.follow c outcome t with ⟨r, u⟩
  rw [hu] at hnews hfollow
  rw [hagenda] at hfollow
  obtain ⟨pause, hpause, hsame, hwaits, herror⟩ := step_of_follow e ht hu
  -- a cancellation is passed on as it is, and would be the result of the step
  have huncancelled : Uncancelled outcome := by
    rintro f rfl
    cases hcancelled : f.isCancelled with
    | false => rfl
    | true =>
      have hcut : e.follow c (.error f) t = (.error f, t) := by
        rw [Setup.follow, Setup.recover, if_pos hcancelled]
        rfl
      rw [hcut, Prod.mk.injEq] at hu
      rw [hgood f (herror f hu.1.symm)] at hcancelled
      cases hcancelled
  rw [hsame]
  refine ⟨_, ?_, .intro hwork huncancelled hfollow hwaits⟩
  simpa using (hadds.trans hnews).trans hpause

theorem allows_stepsUncancelled : Allows σ Uncancelled StepsUncancelled where
  ok := by rintro f ⟨⟩
  allows e c s hgood := stepsUncancelled_of_step e c s hgood

end Playback.Proofs.Reachability
