import Playback.Engine.Expansion
/-!
# What an expansion consists of

The recordings of a job are those that lead to its screen, and its own one. Which of them lead there
depends on the screen the application is taken to be on; an application that is on none yet is led
by its base recording.
-/

namespace Playback.Proofs.Expanding

/-- The recordings that lead from the previous screen to the given one. -/
def approach (previous : Option String) (screen : String) : List Recording :=
  match previous with
  | none => [⟨.base, "Base"⟩, ⟨.navigation, screen⟩]
  | some previous =>
    if previous = screen then [] else [⟨.goingBack, previous⟩, ⟨.navigation, screen⟩]

variable {e : Setup} {history : List String} {job : Job} {x : Expansion}

/-- The commands of a job: `lead` leads from the previous screen to its own, where `own` is
performed. -/
def Composed (e : Setup) (previous : Option String) (screen : String) (job : Job)
    (lead own commands : List Command) : Prop :=
  ∃ operation, job.operation? = some operation ∧
    e.config.catalog.screenOf? operation = some screen ∧
    e.loadAll (approach previous screen) = .ok lead ∧
    e.loadRecording ⟨.action, operation⟩ = .ok own ∧
    commands = .paramChange (e.params job operation) :: lead ++ own ++
      [.webhook (e.params job operation)]

/-- The commands are settled by the operation, its screen, the way there and its own recording. -/
theorem Composed.settled {previous : Option String} {screen target operation : String}
    {lead first own commands : List Command} (h : Composed e previous screen job lead own commands)
    (hoperation : job.operation? = some operation)
    (hscreen : e.config.catalog.screenOf? operation = some target)
    (hlead : e.loadAll (approach previous target) = .ok first) :
    lead = first ∧ e.loadRecording ⟨.action, operation⟩ = .ok own ∧
      commands = .paramChange (e.params job operation) :: first ++ own ++
        [.webhook (e.params job operation)] := by
  obtain ⟨chosen, hchosen, hreached, hload, hown, hcommands⟩ := h
  rw [hoperation, Option.some.injEq] at hchosen
  subst hchosen
  rw [hscreen, Option.some.injEq] at hreached
  subst hreached
  rw [hlead, Except.ok.injEq] at hload
  subst hload
  exact ⟨rfl, hown, hcommands⟩

theorem recordings_eq (previous : Option String) (screen operation : String) :
    Setup.recordings previous screen operation =
      approach previous screen ++ [⟨.action, operation⟩] := by
  cases previous with
  | none => rfl
  | some previous =>
    unfold Setup.recordings approach
    dsimp only
    split <;> rfl

theorem loadAll_append (e : Setup) (front back : List Recording) :
    e.loadAll (front ++ back) = do
      let first ← e.loadAll front
      let others ← e.loadAll back
      return first ++ others := by
  induction front with
  | nil =>
    cases h : e.loadAll back with
    | error f => simp [Setup.loadAll, h, bind, Except.bind]
    | ok others => simp [Setup.loadAll, h, bind, Except.bind, pure, Except.pure]
  | cons r front ih =>
    rw [List.cons_append, Setup.loadAll, ih, Setup.loadAll]
    cases e.loadRecording r with
    | error f => rfl
    | ok first =>
      cases e.loadAll front with
      | error f => rfl
      | ok more =>
        cases e.loadAll back with
        | error f => rfl
        | ok others => simp [bind, Except.bind, pure, Except.pure]

theorem loadAll_singleton (e : Setup) (r : Recording) : e.loadAll [r] = e.loadRecording r := by
  rw [Setup.loadAll, Setup.loadAll]
  cases e.loadRecording r with
  | error f => rfl
  | ok first => simp [bind, Except.bind, pure, Except.pure]

theorem expand_eq {operation screen : String} (hoperation : job.operation? = some operation)
    (hscreen : e.config.catalog.screenOf? operation = some screen) :
    e.expand history job = do
      let lead ← e.loadAll (approach (e.previousScreen? history) screen)
      let own ← e.loadRecording ⟨.action, operation⟩
      return ⟨operation, .paramChange (e.params job operation) :: lead ++ own ++
        [.webhook (e.params job operation)]⟩ := by
  obtain ⟨feature, hfeature, rfl⟩ := Option.map_eq_some_iff.1 hscreen
  unfold Setup.expand
  rw [hoperation]
  dsimp only
  rw [hfeature]
  dsimp only
  rw [recordings_eq, loadAll_append, loadAll_singleton]
  generalize e.params job operation = params
  cases e.loadAll (approach (e.previousScreen? history) feature.screen) with
  | error f => simp [bind, Except.bind]
  | ok lead =>
    cases e.loadRecording ⟨.action, operation⟩ with
    | error f => simp [bind, Except.bind]
    | ok own => simp [bind, Except.bind, pure, Except.pure]

theorem expand_eq_ok_iff : e.expand history job = .ok x ↔
    job.operation? = some x.operation ∧
      ∃ screen lead own, Composed e (e.previousScreen? history) screen job lead own x.commands := by
  constructor
  · intro h
    cases hoperation : job.operation? with
    | none => simp [Setup.expand, hoperation] at h
    | some operation =>
      cases hscreen : e.config.catalog.screenOf? operation with
      | none =>
        have hfeature : e.config.catalog.get? operation = none := Option.map_eq_none_iff.1 hscreen
        simp [Setup.expand, hoperation, hfeature] at h
      | some screen =>
        rw [expand_eq hoperation hscreen] at h
        cases hlead : e.loadAll (approach (e.previousScreen? history) screen) with
        | error f =>
          rw [hlead] at h
          cases h
        | ok lead =>
          cases hown : e.loadRecording ⟨.action, operation⟩ with
          | error f =>
            rw [hlead, hown] at h
            cases h
          | ok own =>
            rw [hlead, hown] at h
            cases h
            exact ⟨rfl, screen, lead, own, operation, hoperation, hscreen, hlead, hown, rfl⟩
  · rintro ⟨hx, screen, lead, own, operation, hoperation, hscreen, hlead, hown, hcommands⟩
    rw [hoperation, Option.some.injEq] at hx
    rw [expand_eq hoperation hscreen, hlead, hown]
    obtain ⟨operation', commands⟩ := x
    dsimp only at hx hcommands
    subst hx hcommands
    rfl

end Playback.Proofs.Expanding
