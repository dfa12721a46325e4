import Playback.Engine.Launch
import Playback.Proofs.Footprints
/-!
# Starting and ending the application

Which effects starting an application has is known from the effects of the calls it makes: looks,
launches and waits. Starting it anew also asks it to close, or ends its process. In particular no
other calls are made.
-/

namespace Playback.Proofs.Launching

open Effects Footprints

variable {σ : Type} [Desk σ] {R : Effect σ}

/-! ## Effects of a start -/

/-- An effect that everything obeys of which the start of the application consists. -/
structure Starting (e : Setup) (R : Effect σ) : Prop extends Waiting R where
  look : Obeys (Lenient R) (Stage.call (.isOpen e.app) : Action (Stage σ) Bool)
  launch : Obeys R (Stage.call (.launch e.app e.launcher) : Action (Stage σ) Unit)
  invalidate : ∀ s, R s none (Arbiter.invalidateFront e.app s)
  missing : ∀ s, R s (some e.missingFault) s

def survivedFault (e : Setup) : Fault := .platform (e.app ++ " survived termination")

/-- An effect that everything obeys of which starting the application anew consists. -/
structure Restarting (e : Setup) (R : Effect σ) : Prop extends Starting e R where
  close : Obeys R ((Stage.call (.close e.app)).attempt : Action (Stage σ) (Except Fault Unit))
  terminate : Obeys R (Stage.call (.terminate e.app) : Action (Stage σ) Unit)
  survived : ∀ s, R s (some (survivedFault e)) s

variable {e : Setup}

theorem restarting_of_calls (hR : Composable R) (hany : ∀ s o, R s o s)
    (hforget : ∀ {s o t}, R s o t → R s none t)
    (hcall : ∀ c : Call, Obeys R (Stage.call c : Action (Stage σ) c.Reply))
    (hinvalidate : ∀ s, R s none (Arbiter.invalidateFront e.app s)) : Restarting e R where
  toWaiting := waiting_of_calls hR hany hcall
  look := (hcall (.isOpen e.app)).lenient hforget
  launch := hcall _
  invalidate := hinvalidate
  missing s := hany s _
  close := ((hcall (.close e.app)).lenient hforget).attempt
  terminate := hcall _
  survived s := hany s _

theorem obeys_awaitWindow (h : Starting e R) (wanted : Bool) (deadline : Nat) :
    Obeys R (e.awaitWindow wanted deadline : Action (Stage σ) Bool) := by
  have hlook : ∀ {s t : Stage σ} {seen : Bool}, Stage.isOpen e.app s = (seen, t) → R s none t := by
    intro s t seen hl
    have hs := obeys_isOpen h.look s
    simp only [hl] at hs
    exact hs
  have hpause : ∀ {s t : Stage σ} {r : Except Fault Unit},
      Stage.pause e.config.windowPollInterval s = (r, t) → R s (faultOf r) t :=
    obeys_of_eq (obeys_pause h.toWaiting _)
  intro s
  -- one look in each case; the last one also pauses and starts over
  fun_induction Setup.awaitWindow e wanted deadline s with
  | case1 s t hl => exact hlook hl
  | case2 s seen t hl => exact hlook hl
  | case3 s seen t hl _ _ f u hp => exact h.trans (hlook hl) (hpause hp)
  | case4 s seen t hl _ _ u hp _ ih => exact h.trans (hlook hl) (h.trans (hpause hp) ih)

theorem obeys_windowBecomes (h : Starting e R) (wanted : Bool) (timeout : Nat) :
    Obeys R (e.windowBecomes wanted timeout : Action (Stage σ) Bool) :=
  fun s => obeys_awaitWindow h wanted (s.clock + nanoseconds timeout) s

theorem obeys_ensureOpen (h : Starting e R) :
    Obeys R (e.ensureOpen : Action (Stage σ) Unit) := by
  have hR := h.toComposable
  unfold Setup.ensureOpen
  refine (obeys_isOpen h.look).bind hR fun isOpen => ?_
  split
  · exact obeys_pure hR ()
  unfold Setup.start
  refine h.launch.bind hR fun _ => ?_
  refine (obeys_windowBecomes h true _).bind hR fun shown => ?_
  split
  · exact (obeys_pause h.toWaiting _).bind hR fun _ => obeys_modify h.invalidate
  · exact obeys_fail h.missing

theorem obeys_relaunch (h : Restarting e R) :
    Obeys R (e.relaunch : Action (Stage σ) Unit) := by
  have hR := h.toComposable
  have hgone : Obeys R (e.windowBecomes false e.config.closeTimeout : Action (Stage σ) Bool) :=
    obeys_windowBecomes h.toStarting false _
  have hterminate : Obeys R (e.terminate : Action (Stage σ) Unit) := by
    unfold Setup.terminate
    refine h.terminate.bind hR fun _ => hgone.bind hR fun gone => ?_
    split
    · exact obeys_pure hR ()
    · exact obeys_fail h.survived
  have hinvalidate : Obeys R (Action.modify (Arbiter.invalidateFront e.app)) :=
    obeys_modify h.invalidate
  have hrest := hinvalidate.bind hR fun _ => obeys_ensureOpen h.toStarting
  unfold Setup.relaunch
  refine h.close.bind hR fun _ => hgone.bind hR fun gone => ?_
  split
  · exact hrest
  · exact hterminate.bind hR fun _ => hrest

/-! ## The calls of a start -/

def opens : Call → Bool
  | .isOpen _ => true
  | .launch .. => true
  | .wait _ => true
  | _ => false

def shuts : Call → Bool
  | .close _ => true
  | .terminate _ => true
  | _ => false

def reopens (c : Call) : Bool := opens c || shuts c

/-- What starting and ending an application may fail with of itself. -/
def LaunchFault : Fault → Prop
  | .cancelled _ => True
  | .windowNotFound _ => True
  | .platform _ => True
  | _ => False

theorem cancels_launchFault : Cancels LaunchFault := fun _ => trivial

omit [Desk σ] in
theorem journal_invalidateFront (app : String) (s : Stage σ) :
    journal (Arbiter.invalidateFront app s) = journal s := by
  unfold Arbiter.invalidateFront
  split <;> rfl

theorem starting_trails (e : Setup) {kind : Call → Bool} (hkind : ∀ c, opens c → kind c) :
    Starting e (Trails (σ := σ) kind LaunchFault) where
  toWaiting := waiting_trails cancels_launchFault fun span => hkind (.wait span) rfl
  look := tries_call cancels_launchFault (hkind _ rfl)
  launch := trails_call cancels_launchFault (hkind _ rfl)
  invalidate s := trails_nil (journal_invalidateFront e.app s) (by rintro f ⟨⟩)
  missing s := trails_nil rfl (by rintro f ⟨⟩; trivial)

theorem restarting_trails (e : Setup) : Restarting e (Trails (σ := σ) reopens LaunchFault) where
  toStarting := starting_trails e fun c h => by simp [reopens, h]
  close := (tries_call (c := .close e.app) cancels_launchFault rfl).attempt
  terminate := trails_call cancels_launchFault rfl
  survived s := trails_nil rfl (by rintro f ⟨⟩; trivial)

theorem footprint_ensureOpen (e : Setup) :
    Footprint opens LaunchFault (e.ensureOpen : Action (Stage σ) Unit) :=
  footprint_of_obeys (fun _ => rfl) (obeys_ensureOpen (starting_trails e fun _ h => h))

theorem footprint_relaunch (e : Setup) :
    Footprint reopens LaunchFault (e.relaunch : Action (Stage σ) Unit) :=
  footprint_of_obeys (fun _ => rfl) (obeys_relaunch (restarting_trails e))

end Playback.Proofs.Launching
