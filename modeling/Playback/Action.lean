import Playback.Fault
/-!
# Actions

Steps that change a state and may fail. A failure keeps the state as it had become by then: what was
done on the screen is not undone.
-/

namespace Playback

/-- A step over states of type `τ`: its outcome and the state after it. -/
def Action (τ α : Type) : Type := τ → Except Fault α × τ

namespace Action

variable {τ ρ α β : Type}

protected def bind (x : Action τ α) (f : α → Action τ β) : Action τ β := fun s =>
  match x s with
  | (.ok a, s) => f a s
  | (.error e, s) => (.error e, s)

instance : Monad (Action τ) where
  pure a := fun s => (.ok a, s)
  bind := Action.bind

def fail (f : Fault) : Action τ α := fun s => (.error f, s)

def ofExcept (r : Except Fault α) : Action τ α := fun s => (r, s)

def gets (f : τ → α) : Action τ α := fun s => (.ok (f s), s)

def modify (f : τ → τ) : Action τ Unit := fun s => (.ok (), f s)

/-- Runs a step and looks at its outcome instead of failing with it. -/
def attempt (x : Action τ α) : Action τ (Except Fault α) := fun s =>
  let (r, s) := x s
  (.ok r, s)

/-- Runs a step, then changes the state whatever came of the step. -/
def ending (x : Action τ α) (f : τ → τ) : Action τ α := fun s =>
  let (r, s) := x s
  (r, f s)

def onSnd (x : Action τ α) : Action (ρ × τ) α := fun s =>
  let (r, t) := x s.2
  (r, (s.1, t))

theorem pure_apply (a : α) (s : τ) : (pure a : Action τ α) s = (.ok a, s) := rfl

theorem bind_of_ok {x : Action τ α} {f : α → Action τ β} {s t : τ} {a : α}
    (h : x s = (.ok a, t)) : (x >>= f) s = f a t := by
  show Action.bind x f s = f a t
  simp [Action.bind, h]

theorem bind_of_error {x : Action τ α} {f : α → Action τ β} {s t : τ} {e : Fault}
    (h : x s = (.error e, t)) : (x >>= f) s = (.error e, t) := by
  show Action.bind x f s = (.error e, t)
  simp [Action.bind, h]

theorem bind_eq_ok {x : Action τ α} {f : α → Action τ β} {s u : τ} {b : β} :
    (x >>= f) s = (.ok b, u) ↔ ∃ a t, x s = (.ok a, t) ∧ f a t = (.ok b, u) := by
  constructor
  · intro h
    cases hx : x s with
    | mk r t =>
      cases r with
      | ok a => exact ⟨a, t, rfl, (bind_of_ok hx).symm.trans h⟩
      | error e =>
        rw [bind_of_error hx] at h
        cases h
  · rintro ⟨a, t, hx, hf⟩
    rw [bind_of_ok hx, hf]

theorem bind_cases {x : Action τ α} {f : α → Action τ β} {s u : τ} {r : Except Fault β}
    (h : (x >>= f) s = (r, u)) :
    (∃ e, x s = (.error e, u) ∧ r = .error e) ∨ ∃ a t, x s = (.ok a, t) ∧ f a t = (r, u) := by
  cases hx : x s with
  | mk outcome t =>
    cases outcome with
    | ok a => exact .inr ⟨a, t, rfl, (bind_of_ok hx).symm.trans h⟩
    | error e =>
      rw [bind_of_error hx] at h
      cases h
      exact .inl ⟨e, rfl, rfl⟩

end Action

end Playback
