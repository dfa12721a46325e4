import Playback.Stage
/-!
# Effects

An effect relates the stage before an action, the failure that ended the action if it failed, and
the stage after it. An action obeys an effect if this relation holds of each of its runs. An effect
that can be put together from its parts is obeyed by a sequence if the parts obey it, so that it is
enough to look at single calls.
-/

namespace Playback.Proofs.Effects

variable {σ τ ρ α β : Type}

class Staged (σ : outParam Type) (τ : Type) where
  stageOf : τ → Stage σ

export Staged (stageOf)

instance : Staged σ (Stage σ) := ⟨id⟩

instance [Staged σ τ] : Staged σ (ρ × τ) := ⟨fun s => stageOf s.2⟩

abbrev Effect (σ : Type) := Stage σ → Option Fault → Stage σ → Prop

def faultOf : Except Fault α → Option Fault
  | .ok _ => none
  | .error f => some f

theorem faultOf_eq_some {r : Except Fault α} {f : Fault} : faultOf r = some f ↔ r = .error f := by
  cases r <;> simp [faultOf]

def Obeys [Staged σ τ] (R : Effect σ) (x : Action τ α) : Prop :=
  ∀ s, R (stageOf s) (faultOf (x s).1) (stageOf (x s).2)

/-- The effect of a sequence follows from those of its parts. -/
structure Composable (R : Effect σ) : Prop where
  refl : ∀ s, R s none s
  trans : ∀ {s t u : Stage σ} {o : Option Fault}, R s none t → R t o u → R s o u

/-- The effect without regard to failures, cancellations aside. -/
def Lenient (R : Effect σ) : Effect σ := fun s o t =>
  R s none t ∧ ∀ f, o = some f → f.isCancelled = true → R s o t

variable {R : Effect σ}

theorem Lenient.mono {R' : Effect σ} {s t : Stage σ} {o : Option Fault}
    (hsub : ∀ {s o t}, R s o t → R' s o t) (h : Lenient R s o t) : Lenient R' s o t :=
  ⟨hsub h.1, fun f hf hcancelled => hsub (h.2 f hf hcancelled)⟩

theorem Composable.lenient (hR : Composable R) : Composable (Lenient R) where
  refl s := ⟨hR.refl s, by rintro f ⟨⟩⟩
  trans hst htu :=
    ⟨hR.trans hst.1 htu.1, fun f hf hcancelled => hR.trans hst.1 (htu.2 f hf hcancelled)⟩

variable [Staged σ τ] {x : Action τ α}

/-- Nothing need be said of failures where a failure allows whatever success does. -/
theorem Obeys.lenient (hx : Obeys R x) (h : ∀ {s o t}, R s o t → R s none t) :
    Obeys (Lenient R) x :=
  fun s => ⟨h (hx s), fun _ hf _ => hf ▸ hx s⟩

theorem Obeys.mono {R' : Effect σ} (hx : Obeys R x) (h : ∀ s o t, R s o t → R' s o t) :
    Obeys R' x :=
  fun s => h _ _ _ (hx s)

theorem obeys_of_eq {s t : τ} {r : Except Fault α} (hx : Obeys R x) (h : x s = (r, t)) :
    R (stageOf s) (faultOf r) (stageOf t) := by
  have hs := hx s
  rwa [h] at hs

/-! ## Actions without calls -/

theorem obeys_pure (hR : Composable R) (a : α) : Obeys R (pure a : Action τ α) :=
  fun s => hR.refl (stageOf s)

theorem obeys_gets (hR : Composable R) (f : τ → α) : Obeys R (Action.gets f) :=
  fun s => hR.refl (stageOf s)

theorem obeys_fail {f : Fault} (h : ∀ s, R s (some f) s) : Obeys R (Action.fail f : Action τ α) :=
  fun s => h (stageOf s)

theorem obeys_ofExcept (hR : Composable R) {r : Except Fault α}
    (h : ∀ f, r = .error f → ∀ s, R s (some f) s) : Obeys R (Action.ofExcept r : Action τ α) := by
  intro s
  cases r with
  | ok a => exact hR.refl (stageOf s)
  | error f => exact h f rfl (stageOf s)

theorem obeys_modify {f : τ → τ} (h : ∀ s, R (stageOf s) none (stageOf (f s))) :
    Obeys R (Action.modify f) :=
  h

/-! ## Actions put together -/

omit [Staged σ τ] in
theorem attempt_eq {s t : τ} {r : Except Fault α} (h : x s = (r, t)) :
    x.attempt s = (.ok r, t) := by
  simp only [Action.attempt, h]

omit [Staged σ τ] in
theorem onSnd_eq {m : ρ} {s t : τ} {r : Except Fault α} (h : x s = (r, t)) :
    x.onSnd (m, s) = (r, (m, t)) := by
  simp only [Action.onSnd, h]

omit [Staged σ τ] in
theorem ending_eq {f : τ → τ} {s t : τ} {r : Except Fault α} (h : x s = (r, t)) :
    x.ending f s = (r, f t) := by
  simp only [Action.ending, h]

theorem Obeys.bind (hR : Composable R) (hx : Obeys R x) {f : α → Action τ β}
    (hf : ∀ a, Obeys R (f a)) : Obeys R (x >>= f) := by
  intro s
  have hs := hx s
  rcases h : x s with ⟨r, t⟩
  rw [h] at hs
  cases r with
  | ok a =>
    rw [Action.bind_of_ok h]
    exact hR.trans hs (hf a t)
  | error g =>
    rw [Action.bind_of_error h]
    exact hs

theorem Obeys.onSnd (hx : Obeys R x) : Obeys R (x.onSnd : Action (ρ × τ) α) :=
  fun s => hx s.2

theorem Obeys.attempt (hx : Obeys (Lenient R) x) : Obeys R x.attempt :=
  fun s => (hx s).1

theorem Obeys.ending {f : τ → τ} (hx : Obeys R x)
    (h : ∀ {s : Stage σ} {o : Option Fault} {t : τ}, R s o (stageOf t) → R s o (stageOf (f t))) :
    Obeys R (x.ending f) :=
  fun s => h (hx s)

theorem Obeys.attempt_bind (hR : Composable R) (hx : Obeys (Lenient R) x)
    {f : Except Fault α → Action τ β} (hok : ∀ a, Obeys R (f (.ok a)))
    (herror : ∀ g, g.isCancelled = false → Obeys R (f (.error g)))
    (hcancelled : ∀ g, g.isCancelled = true → ∀ (s : Stage σ) (t : τ), R s (some g) (stageOf t) →
      R s (faultOf (f (.error g) t).1) (stageOf (f (.error g) t).2)) :
    Obeys R (x.attempt >>= f) := by
  intro s
  obtain ⟨hnone, hsome⟩ := hx s
  have hattempt : x.attempt s = (.ok (x s).1, (x s).2) := rfl
  rw [Action.bind_of_ok hattempt]
  rcases h : x s with ⟨r, t⟩
  rw [h] at hnone hsome
  cases r with
  | ok a => exact hR.trans hnone (hok a t)
  | error g =>
    cases hg : g.isCancelled with
    | false => exact hR.trans hnone (herror g hg t)
    | true => exact hcancelled g hg _ t (hsome g rfl hg)

/-- Every failure is passed on, after something was put right. -/
theorem Obeys.attempt_bind_failing (hR : Composable R) (hx : Obeys R x)
    {f : Except Fault α → Action τ β} (hok : ∀ a, Obeys R (f (.ok a)))
    (herror : ∀ g (s : Stage σ) (t : τ), R s (some g) (stageOf t) →
      R s (faultOf (f (.error g) t).1) (stageOf (f (.error g) t).2)) :
    Obeys R (x.attempt >>= f) := by
  intro s
  have hs := hx s
  have hattempt : x.attempt s = (.ok (x s).1, (x s).2) := rfl
  rw [Action.bind_of_ok hattempt]
  rcases h : x s with ⟨r, t⟩
  rw [h] at hs
  cases r with
  | ok a => exact hR.trans hs (hok a t)
  | error g => exact herror g _ t hs

/-! ## Looks and pauses -/

variable [Desk σ]

theorem obeys_isOpen {app : String}
    (h : Obeys (Lenient R) (Stage.call (.isOpen app) : Action (Stage σ) Bool)) :
    Obeys R (fun s : Stage σ => let (b, s) := Stage.isOpen app s; (.ok b, s)) := by
  intro s
  have hs := (h s).1
  rcases hcall : Stage.call (.isOpen app) s with ⟨r, t⟩
  rw [hcall] at hs
  cases r with
  | ok b =>
    simp only [Stage.isOpen, hcall]
    exact hs
  | error f =>
    simp only [Stage.isOpen, hcall]
    exact hs

/-- An effect that waiting obeys. -/
structure Waiting (R : Effect σ) : Prop extends Composable R where
  running : Obeys R (Stage.ensureRunning : Action (Stage σ) Unit)
  wait : ∀ span, Obeys R (Stage.call (.wait span) : Action (Stage σ) Unit)

theorem waiting_of_calls (hR : Composable R) (hany : ∀ s o, R s o s)
    (hcall : ∀ c : Call, Obeys R (Stage.call c : Action (Stage σ) c.Reply)) : Waiting R where
  toComposable := hR
  running s := by
    unfold Stage.ensureRunning
    split <;> exact hany _ _
  wait span := hcall (.wait span)

theorem Waiting.mono {R' : Effect σ} (h : Waiting R) (hR' : Composable R')
    (hsub : ∀ {s o t}, R s o t → R' s o t) : Waiting R' where
  toComposable := hR'
  running := h.running.mono fun _ _ _ => hsub
  wait span := (h.wait span).mono fun _ _ _ => hsub

theorem obeys_pause (h : Waiting R) (span : Nat) :
    Obeys R (Stage.pause span : Action (Stage σ) Unit) := by
  unfold Stage.pause
  split
  · exact h.running.bind h.toComposable fun _ => h.wait span
  · exact h.wait span

end Playback.Proofs.Effects
