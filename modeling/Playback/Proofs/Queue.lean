import Playback.Proofs.Career
/-!
# The queue of an engine

The fields of an agenda depend on each other. Whatever an engine is asked for and whatever fails,
its agenda is orderly again afterwards; and a run that succeeds leaves nothing undone.
-/

namespace Playback.Proofs.Queue

open Footprints Moves Career

variable {σ : Type} (app : String) (config : Config) (seen : List Setting)

/-- The commands are the rest of an expansion of the first job, and the story tells of it. -/
def Underway (a : Agenda) (story : List Entry) : Prop :=
  ∃ job rest w history x, a.pending = job :: rest ∧ w ∈ seen ∧
    (w.setup app config).expand history job = .ok x ∧
    .noted app (.expanded job x.commands) ∈ story ∧
    a.commands <:+ x.commands ∧
    x.commands.getLast? = some (.webhook ((w.setup app config).params job x.operation)) ∧
    a.commands.getLast? = some (.webhook ((w.setup app config).params job x.operation))

/-- How the fields of an agenda depend on each other between two requests. -/
structure Orderly (a : Agenda) (story : List Entry) : Prop where
  phase : a.phase = .idle ∨ a.phase = .running
  idle_iff : a.phase = .idle ↔ a.pending = []
  commands_eq : a.pending = [] → a.commands = []
  underway : a.commands ≠ [] → Underway app config seen a story
  retries_lt : a.retries < max 1 config.maxRetries
  retries_eq : a.pending = [] → a.retries = 0

/-- There is neither a job nor a command left. -/
structure Drained (a : Agenda) : Prop where
  pending : a.pending = []
  commands : a.commands = []
  phase : a.phase = .idle

/-! ## Expansions -/

theorem commands_of_expand {e : Setup} {history : List String} {job : Job} {x : Expansion}
    (h : e.expand history job = .ok x) :
    ∃ feature recorded, job.operation? = some x.operation ∧
      e.config.catalog.get? x.operation = some feature ∧
      e.loadAll (Setup.recordings (e.previousScreen? history) feature.screen x.operation) =
        .ok recorded ∧
      x.commands = .paramChange (e.params job x.operation) :: recorded ++
        [.webhook (e.params job x.operation)] := by
  unfold Setup.expand at h
  cases hoperation : job.operation? with
  | none =>
    rw [hoperation] at h
    cases h
  | some operation =>
    rw [hoperation] at h
    dsimp only at h
    cases hfeature : e.config.catalog.get? operation with
    | none =>
      rw [hfeature] at h
      cases h
    | some feature =>
      rw [hfeature] at h
      dsimp only at h
      cases hload : e.loadAll (Setup.recordings (e.previousScreen? history) feature.screen
          operation) with
      | error f =>
        rw [hload] at h
        cases h
      | ok recorded =>
        rw [hload] at h
        cases h
        exact ⟨feature, recorded, rfl, hfeature, hload, rfl⟩

theorem getLast_of_expand {e : Setup} {history : List String} {job : Job} {x : Expansion}
    (h : e.expand history job = .ok x) :
    x.commands.getLast? = some (.webhook (e.params job x.operation)) := by
  obtain ⟨feature, recorded, -, -, -, hcommands⟩ := commands_of_expand h
  rw [hcommands]
  exact List.getLast?_concat

theorem getLast_of_suffix {α : Type} {left right : List α} (h : left <:+ right)
    (hleft : left ≠ []) : left.getLast? = right.getLast? := by
  obtain ⟨front, rfl⟩ := h
  rw [List.getLast?_append, List.getLast?_eq_some_getLast hleft]
  rfl

variable {app config seen}
variable {a b : Agenda} {story news : List Entry} {w : Setting} {r : Except Fault Unit}

theorem Underway.mono (h : Underway app config seen a story) (news : List Entry) :
    Underway app config seen a (story ++ news) := by
  obtain ⟨job, rest, w, history, x, hpending, hw, hexpand, hstory, hrest⟩ := h
  exact ⟨job, rest, w, history, x, hpending, hw, hexpand, List.mem_append_left _ hstory, hrest⟩

theorem Orderly.mono (h : Orderly app config seen a story) (news : List Entry) :
    Orderly app config seen a (story ++ news) :=
  { h with underway := fun hcommands => (h.underway hcommands).mono news }

/-! ## Steps keep an agenda orderly -/

theorem orderly_of_advances (hw : w ∈ seen) (hretries : a.retries < max 1 config.maxRetries)
    (hfresh : a.pending = [] → a.retries = 0) (h : Advances (w.setup app config) a news r b) :
    Orderly app config seen b (story ++ news) ∧
      (r = .ok () → b.commands = [] → b.pending = []) := by
  induction h generalizing story with
  | idle hpending =>
    refine ⟨⟨.inl rfl, ?_, fun _ => rfl, fun h => absurd rfl h, hretries, hfresh⟩, ?_⟩
    · simp [hpending]
    · exact fun _ _ => hpending
  | @found a job rest x opening r hpending hexpand _ _ =>
    have hlast := getLast_of_expand hexpand
    have hsome : x.commands ≠ [] := by
      intro hnil
      rw [hnil] at hlast
      cases hlast
    refine ⟨⟨.inr rfl, ?_, ?_, fun _ => ?_, hretries, hfresh⟩, fun _ h => absurd h hsome⟩
    · simp [hpending]
    · simp [hpending]
    · exact ⟨job, rest, w, a.history, x, hpending, hw, hexpand, by simp [noted, Setting.setup],
        List.suffix_refl _, hlast, hlast⟩
  | @dropped a b job rest f news r hpending hexpand _ ih =>
    have hlt : a.dropFirst.retries < max 1 config.maxRetries := by
      show 0 < max 1 config.maxRetries
      omega
    rw [← List.append_assoc]
    exact ih hlt fun _ => rfl

theorem pending_of_commands {c : Command} {commands : List Command}
    (h : Orderly app config seen a story) (hcommands : a.commands = c :: commands) :
    a.pending ≠ [] := by
  intro hnil
  rw [h.commands_eq hnil] at hcommands
  cases hcommands

theorem orderly_pop {c : Command} {commands : List Command}
    (h : Orderly app config seen a story) (hcommands : a.commands = c :: commands) :
    Orderly app config seen { a with commands } story := by
  have hpending := pending_of_commands h hcommands
  refine ⟨h.phase, h.idle_iff, fun hnil => absurd hnil hpending, fun hsome => ?_, h.retries_lt,
    h.retries_eq⟩
  have hne : a.commands ≠ [] := by simp [hcommands]
  obtain ⟨job, rest, w, history, x, hp, hw, hexpand, hstory, hsuffix, hlast, -⟩ := h.underway hne
  have hsuffix : commands <:+ x.commands := by
    rw [hcommands] at hsuffix
    exact (List.suffix_cons c commands).trans hsuffix
  exact ⟨job, rest, w, history, x, hp, hw, hexpand, hstory, hsuffix, hlast,
    (getLast_of_suffix hsuffix hsome).trans hlast⟩

theorem webhook_of_last {c : Command} (h : Orderly app config seen a story)
    (hcommands : a.commands = [c]) : ∃ params, c = .webhook params := by
  have hne : a.commands ≠ [] := by simp [hcommands]
  obtain ⟨job, rest, w, history, x, -, -, -, -, -, -, hlast⟩ := h.underway hne
  rw [hcommands, List.getLast?_singleton, Option.some.injEq] at hlast
  exact ⟨_, hlast⟩

theorem orderly_of_follows {c : Command} {outcome : Except Fault Unit} (hw : w ∈ seen)
    (h : Orderly app config seen a story) (hpending : a.pending ≠ [])
    (hlast : a.commands = [] → ∃ params, c = .webhook params)
    (hfollow : Follows (w.setup app config) c a outcome news r b) :
    Orderly app config seen b (story ++ news) ∧
      (r = .ok () → b.commands = [] → b.pending = []) := by
  have hlimit : 0 < max 1 config.maxRetries := by omega
  cases hfollow with
  | onward hc =>
    refine ⟨h.mono _, fun _ hnil => ?_⟩
    obtain ⟨params, hparams⟩ := hlast hnil
    exact absurd hparams (hc params)
  | retired hc hnext =>
    rw [← List.append_assoc]
    exact orderly_of_advances hw hlimit (fun _ => rfl) hnext
  | cut => exact ⟨h.mono _, by rintro ⟨⟩⟩
  | abandoned hf _ hnext =>
    rw [← List.append_assoc]
    exact orderly_of_advances hw hlimit (fun _ => rfl) hnext
  | stuck hf hretry =>
    have hretry : a.retries + 1 < config.maxRetries := hretry
    refine ⟨⟨h.phase, h.idle_iff, fun _ => rfl, fun h => absurd rfl h, ?_, ?_⟩, by rintro ⟨⟩⟩
    · show a.retries + 1 < max 1 config.maxRetries
      omega
    · exact fun hnil => absurd hnil hpending
  | @begunAgain f relaunch news _ _ hf hretry _ hnext =>
    have hretry : a.retries + 1 < config.maxRetries := hretry
    have hlt : a.beginAgain.retries < max 1 config.maxRetries := by
      show a.retries + 1 < max 1 config.maxRetries
      omega
    rw [← List.append_assoc]
    exact orderly_of_advances hw hlt (fun hnil => absurd hnil hpending) hnext

theorem orderly_of_steps {c : Command} {commands : List Command} (hw : w ∈ seen)
    (h : Orderly app config seen a story) (hcommands : a.commands = c :: commands)
    (hstep : Steps (w.setup app config) c { a with commands } news r b) :
    Orderly app config seen b (story ++ news) ∧
      (r = .ok () → b.commands = [] → b.pending = []) := by
  have hpop := orderly_pop h hcommands
  cases hstep with
  | refused => exact ⟨hpop.mono _, by rintro ⟨⟩⟩
  | @performed work later pause outcome r _ b hwork hfollow hpause hr =>
    let opening := noted (w.setup app config) (.dispatched c) :: work ++
      [noted (w.setup app config) (.performed c outcome)]
    have hlast : commands = [] → ∃ params, c = .webhook params := by
      intro hnil
      apply webhook_of_last h
      rw [hcommands, hnil]
    have hpending : a.pending ≠ [] := pending_of_commands h hcommands
    obtain ⟨hb, hdrained⟩ := orderly_of_follows hw (hpop.mono opening) hpending hlast hfollow
    refine ⟨?_, fun hok => hdrained (hr hok)⟩
    simpa [opening] using hb.mono pause

/-! ## Careers -/

/-- An agenda is orderly at every point of a course; and in a run there are commands as long as
there are jobs. -/
theorem orderly_of_course {jobs : List Job} {mode : Option Setting}
    (h : Course app config seen jobs mode a story) :
    Orderly app config seen a story ∧ ∀ w, mode = some w → w ∈ seen ∧
      (a.commands = [] → a.pending = []) := by
  have hlimit : 0 < max 1 config.maxRetries := by omega
  induction h with
  | fresh =>
    refine ⟨⟨.inl rfl, ?_, fun _ => rfl, fun h => absurd rfl h, hlimit, fun _ => rfl⟩, by simp⟩
    simp [Agenda.fresh]
  | @queued jobs a story job h hbusy ih =>
    obtain ⟨ha, -⟩ := ih
    have hphase : a.phase ≠ .idle := fun hidle =>
      hbusy ⟨hidle, ha.commands_eq (ha.idle_iff.1 hidle)⟩
    have hsome : (a.queue job).pending ≠ [] := by simp [Agenda.queue]
    refine ⟨⟨ha.phase, ?_, fun h => absurd h hsome, fun hcommands => ?_, ha.retries_lt,
      fun h => absurd h hsome⟩, by simp⟩
    · exact ⟨fun h => absurd h hphase, fun h => absurd h hsome⟩
    · obtain ⟨first, rest, w, history, x, hp, hw, hexpand, hstory, hrest⟩ := ha.underway hcommands
      refine ⟨first, rest ++ [job], w, history, x, ?_, hw, hexpand, ?_, hrest⟩
      · rw [Agenda.queue, hp, List.cons_append]
      · exact List.mem_append_left _ hstory
  | @begun jobs a b story news job w r h hw hidle hcommands hnext ih =>
    obtain ⟨ha, -⟩ := ih
    have hsome : (a.queue job).pending ≠ [] := by simp [Agenda.queue]
    have hlt : (a.queue job).retries < max 1 config.maxRetries := ha.retries_lt
    have hb : Orderly app config seen b (story ++ [.noted app (.queued job)] ++ news) :=
      (orderly_of_advances hw hlt (fun h => absurd h hsome) hnext).1
    rw [List.append_assoc] at hb
    exact ⟨hb, by simp⟩
  | advanced h hw hnext ih =>
    obtain ⟨ha, -⟩ := ih
    exact ⟨(orderly_of_advances hw ha.retries_lt ha.retries_eq hnext).1, by simp⟩
  | held h hopening ih => exact ⟨ih.1.mono _, by simp⟩
  | @resumed jobs a story opening w h hw hcommands hopening ih =>
    refine ⟨ih.1.mono _, fun w' hw' => ?_⟩
    cases hw'
    exact ⟨hw, fun hnil => absurd hnil hcommands⟩
  | @started jobs a b story news w h hw hnext ih =>
    obtain ⟨ha, -⟩ := ih
    obtain ⟨hb, hdrained⟩ := orderly_of_advances hw ha.retries_lt ha.retries_eq hnext
    refine ⟨hb, fun w' hw' => ?_⟩
    cases hw'
    exact ⟨hw, hdrained rfl⟩
  | @spared jobs a story w h hw hcommands hpending ih =>
    refine ⟨ih.1, fun w' hw' => ?_⟩
    cases hw'
    exact ⟨hw, fun _ => hpending⟩
  | @stepped jobs a b story news w c commands h hcommands hstep ih =>
    obtain ⟨ha, hw⟩ := ih
    have hw := (hw w rfl).1
    obtain ⟨hb, hdrained⟩ := orderly_of_steps hw ha hcommands hstep
    refine ⟨hb, fun w' hw' => ?_⟩
    cases hw'
    exact ⟨hw, hdrained rfl⟩
  | @stopped jobs a b story news w c commands f h hcommands hstep ih =>
    obtain ⟨ha, hw⟩ := ih
    exact ⟨(orderly_of_steps (hw w rfl).1 ha hcommands hstep).1, by simp⟩
  | @finished jobs a story w h hcommands ih =>
    obtain ⟨ha, hw⟩ := ih
    have hpending := (hw w rfl).2 hcommands
    -- as the queue is empty, the phase was idle before it is set so
    have hphase := ha.idle_iff.2 hpending
    have hsame : { a with phase := .idle } = a := by
      cases a
      cases hphase
      rfl
    rw [hsame]
    exact ⟨ha, by simp⟩

variable [Desk σ]

theorem drained_of_run {jobs : List Job} {s : Session σ}
    (h : Course app config seen jobs none s.agenda story) (hw : w ∈ seen)
    (hrun : ((w.setup app config).run s).1 = .ok ()) :
    Drained ((w.setup app config).run s).2.agenda := by
  rcases run_cases (w.setup app config) s with ⟨f, t, -, heq⟩ |
    ⟨t, u, c, commands, f, -, -, -, heq⟩ | ⟨t, ht, hcommands, heq⟩
  · rw [heq] at hrun
    cases hrun
  · rw [heq] at hrun
    cases hrun
  · obtain ⟨news, -, hcourse⟩ := course_stands h hw ht
    have hpending := ((orderly_of_course hcourse).2 w rfl).2 hcommands
    rw [heq]
    exact ⟨hpending, hcommands, rfl⟩

/-- After every request the agenda is orderly, and after a run that succeeded it is drained. -/
theorem orderly_career (app : String) (config : Config) (turns : List (Turn σ)) :
    Orderly app config (turns.map (·.setting)) (career app config turns).engine.agenda
      (career app config turns).story ∧
    ∀ (w : Setting) (stage : Stage σ),
      ((w.setup app config).run ⟨(career app config turns).engine, stage⟩).1 = .ok () →
        Drained ((w.setup app config).run ⟨(career app config turns).engine, stage⟩).2.agenda := by
  constructor
  · exact (orderly_of_course (course_of_turns app config turns)).1
  · intro w stage hrun
    have hcourse : Course app config (w :: turns.map (·.setting)) _ none _ _ :=
      course_career app config turns fun turn hturn =>
        List.mem_cons_of_mem _ (List.mem_map_of_mem hturn)
    exact drained_of_run (s := ⟨_, stage⟩) hcourse List.mem_cons_self hrun

def withErrand : Session Rehearsal :=
  ⟨(career "app" hasty (errandAdded bare)).engine, stageWith true true⟩

theorem pending_withErrand : withErrand.agenda.pending = [errand] := by
  decide +kernel

theorem runWithin_withErrand :
    (runWithin (bare.setup "app" hasty) 3 withErrand).map (·.1) = some (.ok ()) := by
  decide +kernel

theorem drained_withErrand :
    withErrand.agenda.pending = [errand] ∧
      ((bare.setup "app" hasty).run withErrand).1 = .ok () ∧
      Drained ((bare.setup "app" hasty).run withErrand).2.agenda := by
  obtain ⟨result, hresult, hok⟩ := Option.map_eq_some_iff.1 runWithin_withErrand
  have hrun : ((bare.setup "app" hasty).run withErrand).1 = .ok () :=
    (congrArg (·.1) (run_of_within _ hresult)).trans hok
  exact ⟨pending_withErrand, hrun,
    (orderly_career "app" hasty (errandAdded bare)).2 bare _ hrun⟩

end Playback.Proofs.Queue
