import Playback.Proofs.Moves
/-!
# Effects of a run

Which effects the steps of an engine have is known from the effects of a start, of the signal, of
the notes and of single commands. What holds of a run is shown from these parts alone.
-/

namespace Playback.Proofs.Running

open Effects Footprints Launching Moves

variable {σ : Type}

instance : Staged σ (Session σ) := ⟨Session.stage⟩

/-- The effect of performing a command between its notes. A cancellation is passed on by what
follows the command. -/
def Dispatches [Desk σ] (e : Setup) (R : Effect σ) : Prop :=
  ∀ (c : Command) {s t : Session σ} {outcome : Except Fault Unit},
    e.dispatch c s = (.ok outcome, t) → R s.stage none t.stage ∧
      ∀ f, outcome = .error f → f.isCancelled = true → R s.stage (some f) t.stage

theorem perform_of_dispatch [Desk σ] {e : Setup} {c : Command} {s t : Session σ}
    {outcome : Except Fault Unit} (h : e.dispatch c s = (.ok outcome, t)) :
    ∃ memory stage,
      e.perform c (s.engine.memory, s.stage.record (noted e (.dispatched c))) =
        (outcome, memory, stage) ∧ t.stage = stage.record (noted e (.performed c outcome)) := by
  unfold Setup.dispatch at h
  obtain ⟨_, u, hrunning, h⟩ := Action.bind_eq_ok.1 h
  obtain ⟨_, v, hnote, h⟩ := Action.bind_eq_ok.1 h
  have hu : u = s := by
    unfold Session.onStage Stage.ensureRunning at hrunning
    split at hrunning
    rename_i hcheck
    split at hcheck
    · cases hcheck
      cases hrunning
    · cases hcheck
      cases hrunning
      rfl
  subst hu
  cases hnote
  rcases hperform : e.perform c (u.engine.memory, u.stage.record (noted e (.dispatched c))) with
    ⟨r, memory, stage⟩
  have hattempt : (Session.onMemory (e.perform c)).attempt
      ⟨u.engine, u.stage.record (noted e (.dispatched c))⟩ =
        (.ok r, ⟨{ u.engine with memory }, stage⟩) := by
    simp only [Action.attempt, Session.onMemory, hperform]
  have hrest := (Action.bind_of_ok hattempt).symm.trans h
  cases hrest
  exact ⟨memory, stage, rfl, rfl⟩

/-- An effect that everything obeys of which the work of an engine consists, but for commands. -/
structure Managing [Desk σ] (e : Setup) (R : Effect σ) : Prop extends Restarting e R where
  note : ∀ s n, R s none (s.record (noted e n))
  signal : Obeys R (Stage.call (.signal e.app) : Action (Stage σ) Unit)

/-- An effect that everything obeys of which the work of an engine consists. -/
structure Working [Desk σ] (e : Setup) (R : Effect σ) : Prop extends Managing e R where
  dispatches : Dispatches e R

theorem Managing.mono [Desk σ] {e : Setup} {R R' : Effect σ} (h : Managing e R)
    (hR' : Composable R') (hsub : ∀ {s o t}, R s o t → R' s o t) : Managing e R' where
  toWaiting := h.toWaiting.mono hR' hsub
  look := h.look.mono fun _ _ _ => Lenient.mono hsub
  launch := h.launch.mono fun _ _ _ => hsub
  invalidate s := hsub (h.invalidate s)
  missing s := hsub (h.missing s)
  close := h.close.mono fun _ _ _ => hsub
  terminate := h.terminate.mono fun _ _ _ => hsub
  survived s := hsub (h.survived s)
  note s n := hsub (h.note s n)
  signal := h.signal.mono fun _ _ _ => hsub

section Sessions

variable {R : Effect σ} {α : Type}

theorem obeys_onStage {x : Action (Stage σ) α} (hx : Obeys R x) :
    Obeys R (Session.onStage x : Action (Session σ) α) :=
  fun s => hx s.stage

theorem obeys_onMemory {x : Action (Memory × Stage σ) α} (hx : Obeys R x) :
    Obeys R (Session.onMemory x : Action (Session σ) α) :=
  fun s => hx (s.engine.memory, s.stage)

theorem obeys_changeAgenda (hR : Composable R) (f : Agenda → Agenda) :
    Obeys R (Session.changeAgenda f : Action (Session σ) Unit) :=
  obeys_modify fun s => hR.refl s.stage

end Sessions

section Management

variable [Desk σ] {e : Setup} {R : Effect σ} (h : Managing e R)

include h

theorem obeys_note (n : Note) : Obeys R (e.note n : Action (Session σ) Unit) :=
  fun s => h.note s.stage n

theorem obeys_signal : Obeys R (e.signal : Action (Session σ) Unit) := obeys_onStage h.signal

theorem obeys_noteDropped (dropped : List (Job × Fault)) :
    Obeys R (e.noteDropped dropped : Action (Session σ) Unit) := by
  induction dropped with
  | nil => exact obeys_pure h.toComposable ()
  | cons d rest ih => exact (obeys_note h _).bind h.toComposable fun _ => ih

theorem obeys_next : Obeys R (e.next : Action (Session σ) Unit) := by
  have hR := h.toComposable
  unfold Setup.next
  refine (obeys_gets hR _).bind hR ?_
  rintro ⟨dropped, found, agenda⟩
  refine (obeys_changeAgenda hR _).bind hR fun _ => ?_
  refine (obeys_noteDropped h dropped).bind hR fun _ => ?_
  cases found with
  | some found =>
    refine (obeys_note h _).bind hR fun _ => ?_
    exact obeys_onStage (obeys_ensureOpen h.toStarting)
  | none =>
    dsimp only
    split
    · exact obeys_pure hR ()
    · exact obeys_signal h

theorem obeys_dropFirst (n : Job → Note) : Obeys R (e.dropFirst n : Action (Session σ) Unit) := by
  have hR := h.toComposable
  unfold Setup.dropFirst
  refine (obeys_gets hR _).bind hR fun pending => ?_
  refine (obeys_changeAgenda hR _).bind hR fun _ => ?_
  cases pending with
  | nil => exact obeys_signal h
  | cons job rest =>
    refine (obeys_note h _).bind hR fun _ => ?_
    split
    · exact obeys_signal h
    · exact obeys_pure hR ()

theorem obeys_giveUp (f : Fault) : Obeys R (e.giveUp f : Action (Session σ) Unit) :=
  (obeys_dropFirst h _).bind h.toComposable fun _ => obeys_next h

theorem obeys_retire : Obeys R (e.retire : Action (Session σ) Unit) := by
  have hR := h.toComposable
  unfold Setup.retire
  refine (obeys_dropFirst h _).bind hR fun _ => ?_
  exact (obeys_changeAgenda hR _).bind hR fun _ => obeys_next h

theorem obeys_beginAgain : Obeys R (e.beginAgain : Action (Session σ) Unit) := by
  have hR := h.toComposable
  unfold Setup.beginAgain
  refine (obeys_gets hR _).bind hR fun agenda => ?_
  refine (obeys_note h _).bind hR fun _ => ?_
  refine Obeys.bind hR (obeys_onMemory ?_) fun _ => ?_
  · exact (obeys_gets hR _).bind hR fun _ => obeys_modify fun s => hR.refl s.2
  refine (obeys_changeAgenda hR _).bind hR fun _ => ?_
  exact (obeys_onStage (obeys_relaunch h.toRestarting)).bind hR fun _ => obeys_next h

theorem obeys_follow (c : Command) {outcome : Except Fault Unit}
    (hf : ∀ f, outcome = .error f → f.isCancelled = false) :
    Obeys R (e.follow c outcome : Action (Session σ) Unit) := by
  have hR := h.toComposable
  cases outcome with
  | ok _ =>
    cases c with
    | webhook params => exact obeys_retire h
    | _ => exact obeys_pure hR ()
  | error f =>
    show Obeys R (e.recover f)
    unfold Setup.recover
    rw [if_neg (by rw [hf f rfl]; exact Bool.false_ne_true)]
    split
    · intro s
      unfold Setup.retry
      split
      · exact obeys_giveUp h f s
      · exact obeys_beginAgain h s
    · exact obeys_giveUp h f

theorem obeys_rest : Obeys R (e.rest : Action (Session σ) Unit) := by
  intro s
  unfold Setup.rest
  split
  · exact h.refl s.stage
  · exact obeys_pause h.toWaiting e.config.stepPause s.stage

theorem obeys_add (job : Job) : Obeys R (e.add job : Action (Session σ) Unit) := by
  have hR := h.toComposable
  unfold Setup.add
  refine (obeys_gets hR _).bind hR fun idle => ?_
  refine (obeys_changeAgenda hR _).bind hR fun _ => ?_
  refine (obeys_note h _).bind hR fun _ => ?_
  split
  · exact obeys_next h
  · exact obeys_pure hR ()

end Management

section Steps

variable [Desk σ] {e : Setup} {R : Effect σ} (h : Working e R)

include h

theorem obeys_dispatch_failed {c : Command} {s t : Session σ} {f : Fault}
    (hdispatch : e.dispatch c s = (.error f, t)) : R s.stage (some f) t.stage := by
  rcases dispatch_cases e c s with ⟨-, -, -, haborted⟩ | ⟨outcome, work, u, hok, -⟩
  · have hrefused : Stage.ensureRunning s.stage =
        ((.error (.cancelled "abort requested") : Except Fault Unit), s.stage) := if_pos haborted
    have hfailed : e.dispatch c s = (.error (.cancelled "abort requested"), s) := by
      unfold Setup.dispatch
      exact Action.bind_of_error (onStage_eq hrefused)
    rw [hfailed] at hdispatch
    cases hdispatch
    exact obeys_of_eq h.running hrefused
  · rw [hdispatch] at hok
    cases hok

theorem obeys_step (c : Command) : Obeys R (e.step c : Action (Session σ) Unit) := by
  have hR := h.toComposable
  intro s
  unfold Setup.step
  rcases hdispatch : e.dispatch c s with ⟨r, t⟩
  cases r with
  | error f =>
    rw [Action.bind_of_error hdispatch]
    exact obeys_dispatch_failed h hdispatch
  | ok outcome =>
    obtain ⟨hnone, hcancelled⟩ := h.dispatches c hdispatch
    rw [Action.bind_of_ok hdispatch]
    -- a cancellation ends the step with the command, any other outcome moves the agenda
    by_cases hcut : ∃ f, outcome = .error f ∧ f.isCancelled = true
    · obtain ⟨f, rfl, hf⟩ := hcut
      have hfollow : e.follow c (.error f) t = (.error f, t) := by
        show e.recover f t = _
        rw [Setup.recover, if_pos hf]
        rfl
      rw [Action.bind_of_error hfollow]
      exact hcancelled f rfl hf
    · have hfollow : Obeys R (e.follow c outcome : Action (Session σ) Unit) :=
        obeys_follow h.toManaging c fun f hf =>
          Bool.eq_false_iff.2 fun hcancelled => hcut ⟨f, hf, hcancelled⟩
      exact hR.trans hnone ((hfollow.bind hR fun _ => obeys_rest h.toManaging) t)

theorem obeys_performAll : Obeys R (e.performAll : Action (Session σ) Unit) := by
  intro s
  have hstep : ∀ {c commands} {s t : Session σ} {r : Except Fault Unit},
      e.step c (s.setAgenda { s.agenda with commands }) = (r, t) →
        R s.stage (faultOf r) t.stage := by
    intro c commands s t r heq
    have hs := obeys_step h c (s.setAgenda { s.agenda with commands })
    rw [heq] at hs
    exact hs
  -- no command is left, one fails, or it was the last, or others are left
  fun_induction e.performAll s with
  | case1 s _ => exact h.refl s.stage
  | case2 s c commands _ f t hfailed => exact hstep hfailed
  | case3 s c commands _ t hdone _ => exact hstep hdone
  | case4 s c commands _ t hdone _ _ ih => exact h.trans (hstep hdone) ih

theorem obeys_run : Obeys R (e.run : Action (Session σ) Unit) := by
  have hR := h.toComposable
  unfold Setup.run
  refine (obeys_gets hR _).bind hR fun agenda => ?_
  have hrest : Obeys R (do
      e.performAll
      Session.changeAgenda fun a => { a with phase := .idle } : Action (Session σ) Unit) :=
    (obeys_performAll h).bind hR fun _ => obeys_changeAgenda hR _
  split
  · exact (obeys_onStage (obeys_ensureOpen h.toStarting)).bind hR fun _ => hrest
  · split
    · exact (obeys_next h.toManaging).bind hR fun _ => hrest
    · exact hrest

end Steps

end Playback.Proofs.Running
