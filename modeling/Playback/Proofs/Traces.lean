import Playback.Proofs.Footprints
/-!
# Traces of a run

A trace is what a run adds to the journal, with the moments at which each call began and ended. It
is read off the stages that the run goes through, so that it can be said what happened before which
moment, whatever the desk answers and however long it takes.
-/

namespace Playback.Proofs.Traces

open Effects Footprints

/-- A call that was made, what came of it, and the moments it began and ended. -/
structure Step where
  entry : Entry
  start : Nat
  finish : Nat

namespace Step

def Asks (step : Step) (c : Call) : Prop := ∃ outcome, step.entry = .called c outcome

/-- The application's window was looked at, and was open, or closed. -/
def Sees (step : Step) (app : String) (isOpen : Bool) : Prop :=
  step.entry = .called (.isOpen app) (.ok isOpen)

def Waits (step : Step) : Prop := ∃ span, step.Asks (.wait span)

def ofKind (kind : Call → Bool) (step : Step) : Bool :=
  match step.entry with
  | .called c _ => kind c
  | _ => false

variable {step : Step} {c : Call} {kind : Call → Bool} {app : String} {b : Bool}

theorem ofKind_of_asks (h : step.Asks c) : step.ofKind kind = kind c := by
  obtain ⟨outcome, h⟩ := h
  simp only [ofKind, h]

theorem asks_of_sees (h : step.Sees app b) : step.Asks (.isOpen app) := ⟨_, h⟩

theorem Sees.unique {b' : Bool} (h : step.Sees app b) (h' : step.Sees app b') : b = b' := by
  unfold Sees at h h'
  rw [h] at h'
  cases h'
  rfl

theorem not_sees_of_asks (h : step.Asks c) (hc : ∀ app, c ≠ .isOpen app) : ¬step.Sees app b := by
  obtain ⟨outcome, h⟩ := h
  intro hsees
  unfold Sees at hsees
  rw [h] at hsees
  cases hsees
  exact hc app rfl

theorem Waits.not_sees (h : step.Waits) : ¬step.Sees app b := by
  obtain ⟨span, h⟩ := h
  exact not_sees_of_asks h nofun

end Step

variable {σ : Type} [Desk σ] {s t u : Stage σ} {steps steps' : List Step} {c : Call}

def stepOf (c : Call) (s : Stage σ) : Step :=
  ⟨.called c (c.settle (Desk.respond c s.desk).1), s.clock, (s.afterCall c).clock⟩

/-- These are the calls that lead from one stage to another. Between them nothing changes but the
application that is known to be in front. -/
inductive Traced : Stage σ → List Step → Stage σ → Prop
  | done (s : Stage σ) : Traced s [] s
  | call {s u : Stage σ} {steps : List Step} (c : Call) (rest : Traced (s.afterCall c) steps u) :
    Traced s (stepOf c s :: steps) u
  | refocus {s u : Stage σ} {steps : List Step} (front : Option String)
    (rest : Traced { s with front } steps u) : Traced s steps u

theorem traced_call (c : Call) (s : Stage σ) : Traced s [stepOf c s] (s.afterCall c) :=
  .call c (.done _)

theorem Traced.trans (h : Traced s steps t) (h' : Traced t steps' u) :
    Traced s (steps ++ steps') u := by
  induction h with
  | done s => exact h'
  | call c _ ih => exact .call c (ih h')
  | refocus front _ ih => exact .refocus front (ih h')

/-- A trace has all that was added to the journal. -/
theorem Traced.adds (h : Traced s steps t) : Adds s t (steps.map Step.entry) := by
  induction h with
  | done s => exact adds_of_journal_eq rfl
  | call c _ ih => exact (adds_cons (journal_afterCall _ c)).trans ih
  | refocus _ _ ih => exact ih

theorem Traced.ordered (h : Traced s steps t) :
    s.clock ≤ t.clock ∧ (∀ step ∈ steps, s.clock ≤ step.start ∧ step.finish ≤ t.clock) ∧
      steps.Pairwise fun a b => a.finish ≤ b.start := by
  induction h with
  | done s => exact ⟨Nat.le_refl _, List.forall_mem_nil _, .nil⟩
  | @call s u steps c _ ih =>
    obtain ⟨hle, hwithin, hpairs⟩ := ih
    have hcall := Stage.clock_lt_afterCall s c
    refine ⟨by omega, ?_, List.pairwise_cons.2 ⟨fun step hstep => (hwithin step hstep).1, hpairs⟩⟩
    intro step hstep
    rcases List.mem_cons.1 hstep with rfl | hstep
    · exact ⟨Nat.le_refl _, hle⟩
    · have hbounds := hwithin step hstep
      omega
  | refocus _ _ ih => exact ih

/-! ## Calls and pauses -/

/-- A call is made, unless an abort keeps it from being begun. -/
theorem call_traced {r : Except Fault c.Reply} (h : Stage.call c s = (r, t)) :
    (r = .error c.abortFault ∧ t = s ∧ c.interruptible = true ∧ s.aborted = true) ∨
      t = s.afterCall c ∧ (stepOf c s).entry = .called c r := by
  unfold Stage.call at h
  split at h
  · rename_i habort
    rw [Bool.and_eq_true] at habort
    cases h
    exact .inl ⟨rfl, rfl, habort⟩
  · cases h
    exact .inr ⟨rfl, rfl⟩

theorem made_traced {r : Except Fault c.Reply} (hc : c.interruptible = false)
    (h : Stage.call c s = (r, t)) : t = s.afterCall c ∧ (stepOf c s).entry = .called c r := by
  rcases call_traced h with ⟨-, -, hinterruptible, -⟩ | hmade
  · rw [hc] at hinterruptible
    cases hinterruptible
  · exact hmade

omit [Desk σ] in
theorem settle_isOpen (app : String) (r : Response Bool) :
    ∃ b, Call.settle (.isOpen app) r = .ok b := by
  simp only [Call.settle]
  split
  · exact ⟨_, rfl⟩
  · exact ⟨false, rfl⟩

theorem isOpen_traced {app : String} {seen : Bool} (h : Stage.isOpen app s = (seen, t)) :
    t = s.afterCall (.isOpen app) ∧ (stepOf (.isOpen app) s).Sees app seen := by
  obtain ⟨b, hb⟩ := settle_isOpen app (Desk.respond (.isOpen app) s.desk).1
  have hcall : Stage.call (.isOpen app) s = (.ok b, s.afterCall (.isOpen app)) := by
    rw [Stage.call, if_neg (by simp [Call.interruptible]), hb]
  rw [Stage.isOpen, hcall] at h
  cases h
  exact ⟨rfl, congrArg (Entry.called _) hb⟩

theorem wait_traced {span : Nat} {r : Except Fault Unit}
    (h : Stage.call (.wait span) s = (r, t)) :
    ∃ pauses, Traced s pauses t ∧ (∀ pause ∈ pauses, pause.Waits) ∧
      (r = .ok () → pauses.length = 1) := by
  rcases call_traced h with ⟨rfl, rfl, -⟩ | ⟨rfl, hentry⟩
  · exact ⟨[], .done t, List.forall_mem_nil _, fun h => nomatch h⟩
  · refine ⟨_, traced_call _ s, ?_, fun _ => rfl⟩
    intro pause hpause
    rw [List.mem_singleton.1 hpause]
    exact ⟨span, r, hentry⟩

omit [Desk σ] in
theorem ensureRunning_same {r : Except Fault Unit} (h : Stage.ensureRunning s = (r, t)) :
    t = s := by
  unfold Stage.ensureRunning at h
  split at h <;> cases h <;> rfl

theorem pause_traced {span : Nat} {r : Except Fault Unit} (h : Stage.pause span s = (r, t)) :
    ∃ pauses, Traced s pauses t ∧ (∀ pause ∈ pauses, pause.Waits) ∧
      (r = .ok () → pauses.length = 1) := by
  unfold Stage.pause at h
  by_cases hspan : span = 0
  · rw [if_pos hspan] at h
    rcases Action.bind_cases h with ⟨f, hrunning, rfl⟩ | ⟨_, u, hrunning, h⟩
    · rw [ensureRunning_same hrunning]
      exact ⟨[], .done s, List.forall_mem_nil _, fun h => nomatch h⟩
    · rw [ensureRunning_same hrunning] at h
      exact wait_traced h
  · rw [if_neg hspan] at h
    exact wait_traced h

theorem pause_error {span : Nat} {f : Fault} (h : Stage.pause span s = (.error f, t)) :
    f.isCancelled = true ∧ t.aborted = true :=
  obeys_of_eq (obeys_pause waiting_aborts span) h f rfl

end Playback.Proofs.Traces
