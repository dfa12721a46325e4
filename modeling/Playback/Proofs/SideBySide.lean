import Playback.Proofs.Career
import Playback.Proofs.Twofold
/-!
# Engines side by side

Two engines with the same agenda work through it in lockstep if they do so with every single thing
they do: noting, signalling, opening the application and performing commands. What relates the two
engines is left open; it only has to outlast these things and the changes of the agenda.
-/

namespace Playback.Proofs.SideBySide

open Career Moves Twofold

variable {σ : Type} [Desk σ]

/-- A relation between engines that they keep to whatever they do, as long as they perform good
commands only. -/
structure Lockstep (e : Setup) (Good : Command → Prop) (R : Session σ → Session σ → Prop) :
    Prop where
  agenda_eq : ∀ {s t}, R s t → s.agenda = t.agenda
  head : ∀ {s t c commands}, R s t → s.agenda.commands = c :: commands → Good c
  popped : ∀ {s t c commands}, R s t → s.agenda.commands = c :: commands →
    R (pop s commands) (pop t commands)
  loaded : ∀ {s t}, R s t →
    R (s.setAgenda (s.agenda.loaded e.expand)) (t.setAgenda (s.agenda.loaded e.expand))
  dropped : ∀ {s t}, R s t → R (s.setAgenda s.agenda.dropFirst) (t.setAgenda s.agenda.dropFirst)
  begunAgain : ∀ {s t}, R s t →
    R (s.setAgenda s.agenda.beginAgain) (t.setAgenda s.agenda.beginAgain)
  phased : ∀ {s t} (phase : Phase), R s t →
    R (s.setAgenda { s.agenda with phase }) (t.setAgenda { s.agenda with phase })
  running : Respects R (Session.onStage Stage.ensureRunning)
  opens : Respects R (Session.onStage e.ensureOpen)
  relaunches : Respects R (Session.onStage e.relaunch)
  pauses : Respects R (Session.onStage (Stage.pause e.config.stepPause))
  signals : Respects R e.signal
  notes : ∀ n, Respects R (e.note n)
  excuses : Respects R (Session.onMemory do
    let operation ← .gets fun m => m.1.operationLabel
    Setup.answering (·.set okAttribute (.text ("Could not perform operation " ++ operation))))
  performs : ∀ c, Good c → Respects R (Session.onMemory (e.perform c))

namespace Lockstep

variable {e : Setup} {Good : Command → Prop} {R : Session σ → Session σ → Prop}
variable (h : Lockstep e Good R)

include h

theorem noteDropped (dropped : List (Job × Fault)) : Respects R (e.noteDropped dropped) := by
  induction dropped with
  | nil => exact respects_pure ()
  | cons d rest ih =>
    unfold Setup.noteDropped
    exact (h.notes _).bind fun _ => ih

theorem announce (l : List (Job × Fault) × Option (Job × Expansion) × Agenda) :
    Respects R (Moves.announce e l) := by
  unfold Moves.announce
  refine (h.noteDropped l.1).bind fun _ => ?_
  split
  · exact (h.notes _).bind fun _ => h.opens
  · split
    · exact respects_pure ()
    · exact h.signals

theorem next : Respects R e.next := by
  intro s t hst
  -- what is loaded depends on the agenda alone, and is then announced
  rw [next_eq, next_eq, ← h.agenda_eq hst]
  exact h.announce _ _ _ (h.loaded hst)

theorem announceLeaving (n : Job → Note) (jobs : List Job) :
    Respects R (Moves.announceLeaving e n jobs) := by
  cases jobs with
  | nil => exact h.signals
  | cons job rest =>
    unfold Moves.announceLeaving
    refine (h.notes _).bind fun _ => ?_
    split
    · exact h.signals
    · exact respects_pure ()

theorem dropFirst (n : Job → Note) : Respects R (e.dropFirst n) := by
  intro s t hst
  have hs : e.dropFirst n s =
      Moves.announceLeaving e n s.agenda.pending (s.setAgenda s.agenda.dropFirst) := rfl
  have ht : e.dropFirst n t =
      Moves.announceLeaving e n t.agenda.pending (t.setAgenda t.agenda.dropFirst) := rfl
  rw [hs, ht, ← h.agenda_eq hst]
  exact h.announceLeaving n _ _ _ (h.dropped hst)

theorem giveUp (f : Fault) : Respects R (e.giveUp f) :=
  (h.dropFirst _).bind fun _ => h.next

theorem changePhase (phase : Phase) :
    Respects R (Session.changeAgenda fun a => { a with phase }) := by
  refine respects_modify fun s t hst => ?_
  rw [← h.agenda_eq hst]
  exact h.phased phase hst

theorem retire : Respects R e.retire := by
  unfold Setup.retire
  exact (h.dropFirst _).bind fun _ => (h.changePhase _).bind fun _ => h.next

theorem rest : Respects R e.rest := by
  intro s t hst
  unfold Setup.rest
  rw [← h.agenda_eq hst]
  split
  · exact ⟨rfl, hst⟩
  · exact h.pauses s t hst

theorem beginAgain : Respects R e.beginAgain := by
  unfold Setup.beginAgain
  refine (respects_gets fun _ _ hst => h.agenda_eq hst).bind fun agenda => ?_
  refine (h.notes _).bind fun _ => h.excuses.bind fun _ => ?_
  refine Respects.bind ?_ fun _ => h.relaunches.bind fun _ => h.next
  refine respects_modify fun s t hst => ?_
  rw [← h.agenda_eq hst]
  exact h.begunAgain hst

theorem recover (f : Fault) : Respects R (e.recover f) := by
  unfold Setup.recover
  split
  · exact respects_fail f
  · split
    · intro s t hst
      unfold Setup.retry
      rw [← h.agenda_eq hst]
      split
      · exact h.giveUp f s t hst
      · exact h.beginAgain s t hst
    · exact h.giveUp f

theorem follow (c : Command) (outcome : Except Fault Unit) : Respects R (e.follow c outcome) := by
  cases outcome with
  | error f => exact h.recover f
  | ok _ =>
    cases c with
    | webhook params => exact h.retire
    | _ => exact respects_pure ()

theorem dispatch {c : Command} (hc : Good c) : Respects R (e.dispatch c) := by
  unfold Setup.dispatch
  refine h.running.bind fun _ => (h.notes _).bind fun _ => ?_
  refine (h.performs c hc).attempt.bind fun outcome => ?_
  exact (h.notes _).bind fun _ => respects_pure outcome

theorem step {c : Command} (hc : Good c) : Respects R (e.step c) := by
  unfold Setup.step
  exact (h.dispatch hc).bind fun outcome => (h.follow c outcome).bind fun _ => h.rest

theorem both {s t u : Session σ} {c : Command} {commands : List Command} {r : Except Fault Unit}
    (hst : R s t) (hcommands : s.agenda.commands = c :: commands)
    (hstep : e.step c (pop s commands) = (r, u)) :
    t.agenda.commands = c :: commands ∧
      ∃ v, e.step c (pop t commands) = (r, v) ∧ R u v := by
  refine ⟨by rw [← h.agenda_eq hst]; exact hcommands, ?_⟩
  exact (h.step (h.head hst hcommands)).alike (h.popped hst hcommands) hstep

theorem performAll : Respects R e.performAll := by
  intro s t hst
  -- along the commands of one engine; the other keeps step with it
  fun_induction e.performAll s generalizing t with
  | case1 s hnone =>
    rw [performAll_nil e (by rw [← h.agenda_eq hst]; exact hnone)]
    exact ⟨rfl, hst⟩
  | case2 s c commands hcommands f u hstep =>
    obtain ⟨hsame, v, hv, huv⟩ := h.both hst hcommands hstep
    rw [performAll_cons e hsame, hv]
    exact ⟨rfl, huv⟩
  | case3 s c commands hcommands u hstep hnone =>
    obtain ⟨hsame, v, hv, huv⟩ := h.both hst hcommands hstep
    rw [performAll_cons e hsame, hv]
    dsimp only
    rw [performAll_nil e (by rw [← h.agenda_eq huv]; exact hnone)]
    exact ⟨rfl, huv⟩
  | case4 s c commands hcommands u hstep hmore _ ih =>
    obtain ⟨hsame, v, hv, huv⟩ := h.both hst hcommands hstep
    rw [performAll_cons e hsame, hv]
    exact ih v huv

theorem begins : Respects R (begin e) := by
  intro s t hst
  unfold begin
  rw [← h.agenda_eq hst]
  split
  · exact h.opens s t hst
  · split
    · exact h.next s t hst
    · exact ⟨rfl, hst⟩

theorem run : Respects R e.run := by
  intro s t hst
  rw [run_eq, run_eq]
  exact (h.begins.bind fun _ => h.performAll.bind fun _ => h.changePhase .idle) s t hst

end Lockstep

end Playback.Proofs.SideBySide
