import Playback.Proofs.Traces
/-!
# Polling

Something is tried in rounds until a round decides, with a pause between two of them, and so many
times at most. `poll` is such a loop over any kind of round. `Polls` describes its traces, and
`Settles` says what comes of it where it is known what each round would bring.
-/

namespace Playback.Proofs.Polling

open Effects Footprints Traces

/-- A round: its calls, what it brought, and whether an abort had been requested by its end. -/
structure Round (α : Type) where
  steps : List Step
  result : α
  aborted : Bool

/-- The rounds of a poll, the earlier ones with the pause behind each of them. There may be a pause
behind the last one too, which an abort put an end to. -/
structure Rounds (α : Type) where
  earlier : List (Round α × Step)
  last : Round α
  cut : List Step

namespace Rounds

variable {α : Type} {round last : Round α} {pause : Step} {p : Rounds α} {cut : List Step}

def all (p : Rounds α) : List (Round α) := p.earlier.map Prod.fst ++ [p.last]

def steps (p : Rounds α) : List Step :=
  p.earlier.flatMap (fun e => e.1.steps ++ [e.2]) ++ p.last.steps ++ p.cut

def cons (round : Round α) (pause : Step) (p : Rounds α) : Rounds α :=
  { p with earlier := (round, pause) :: p.earlier }

@[simp] theorem all_single : (Rounds.mk [] last cut).all = [last] := rfl

@[simp] theorem steps_single : (Rounds.mk [] last cut).steps = last.steps ++ cut := rfl

@[simp] theorem all_cons : (cons round pause p).all = round :: p.all := rfl

@[simp] theorem steps_cons : (cons round pause p).steps = round.steps ++ pause :: p.steps := by
  simp [steps, cons]

@[simp] theorem length_all (p : Rounds α) : p.all.length = p.earlier.length + 1 := by
  simp [all]

theorem last_mem (p : Rounds α) : p.last ∈ p.all :=
  List.mem_append_right _ (List.mem_singleton_self _)

theorem step_cases {step : Step} (h : step ∈ p.steps) :
    (∃ a ∈ p.all, step ∈ a.steps) ∨ (∃ e ∈ p.earlier, step = e.2) ∨ step ∈ p.cut := by
  rcases List.mem_append.1 h with h | hcut
  · rcases List.mem_append.1 h with h | hlast
    · obtain ⟨e, he, hmem⟩ := List.mem_flatMap.1 h
      rcases List.mem_append.1 hmem with hround | hpause
      · exact .inl ⟨e.1, List.mem_append_left _ (List.mem_map_of_mem he), hround⟩
      · exact .inr (.inl ⟨e, he, List.mem_singleton.1 hpause⟩)
    · exact .inl ⟨p.last, p.last_mem, hlast⟩
  · exact .inr (.inr hcut)

end Rounds

/-! ## Pauses -/

section Pauses

variable {σ : Type} [Desk σ] {s t : Stage σ} {span : Nat} {f : Fault}

/-- The calls of a pause that failed with `f`: none if an abort had been requested before, and else
the wait that the abort put an end to. -/
inductive CutPause (span : Nat) (f : Fault) : Bool → List Step → Prop
  | unmade : CutPause span f true []
  | made {pause : Step} (hpause : pause.entry = .called (.wait span) (.error f)) :
    CutPause span f false [pause]

theorem CutPause.asks {aborted : Bool} {cut : List Step} (h : CutPause span f aborted cut) :
    ∀ step ∈ cut, step.Asks (.wait span) := by
  cases h with
  | unmade => exact List.forall_mem_nil _
  | made hpause => exact List.forall_mem_singleton.2 ⟨_, hpause⟩

theorem pause_of_running (h : s.aborted = false) (span : Nat) :
    Stage.pause span s = Stage.call (.wait span) s := by
  unfold Stage.pause
  split
  · exact Action.bind_of_ok (by rw [Stage.ensureRunning, h, if_neg Bool.false_ne_true])
  · rfl

theorem pause_of_aborted (h : s.aborted = true) (span : Nat) :
    ∃ f, Stage.pause span s = (.error f, s) := by
  unfold Stage.pause
  split
  · exact ⟨_, Action.bind_of_error (by rw [Stage.ensureRunning, if_pos h])⟩
  · rename_i hspan
    exact ⟨_, if_pos (by simp [Call.interruptible, hspan, h])⟩

theorem pause_made (h : Stage.pause span s = (.ok (), t)) :
    s.aborted = false ∧ t = s.afterCall (.wait span) ∧
      (stepOf (.wait span) s).entry = .called (.wait span) (.ok ()) := by
  cases haborted : s.aborted with
  | true =>
    obtain ⟨f, hpause⟩ := pause_of_aborted haborted span
    rw [hpause] at h
    cases h
  | false =>
    rw [pause_of_running haborted] at h
    rcases call_traced h with ⟨hfault, -⟩ | hmade
    · cases hfault
    · exact ⟨rfl, hmade⟩

theorem pause_cut (h : Stage.pause span s = (.error f, t)) :
    ∃ cut, Traced s cut t ∧ CutPause span f s.aborted cut ∧ f.isCancelled = true ∧
      t.aborted = true := by
  obtain ⟨hcancelled, hafter⟩ := pause_error h
  cases haborted : s.aborted with
  | true =>
    obtain ⟨g, hpause⟩ := pause_of_aborted haborted span
    rw [hpause] at h
    cases h
    exact ⟨[], .done s, .unmade, hcancelled, hafter⟩
  | false =>
    rw [pause_of_running haborted] at h
    rcases call_traced h with ⟨-, -, -, hbefore⟩ | ⟨rfl, hentry⟩
    · rw [haborted] at hbefore
      cases hbefore
    · exact ⟨_, traced_call _ s, .made hentry, hcancelled, hafter⟩

end Pauses

/-! ## Rounds until one decides -/

section Loop

variable {σ α β γ : Type}

/-- A round and up to `more` further ones, as long as none decides. -/
def poll [Desk σ] (round : Action (Stage σ) γ)
    (verdict : Except Fault γ → Option (Except Fault β)) (span : Nat) (fallback : β) :
    Nat → Action (Stage σ) β
  | 0, s => ((verdict (round s).1).getD (.ok fallback), (round s).2)
  | more + 1, s =>
    match verdict (round s).1 with
    | some r => (r, (round s).2)
    | none => (do
        Stage.pause span
        poll round verdict span fallback more) (round s).2

/-- The rounds of a poll that may have `limit` of them, what comes of it, and whether an abort has
been requested by its end. `Made` says what the rounds are like. -/
inductive Polls (Made : List Step → α → Bool → Prop) (verdict : α → Option (Except Fault β))
    (span : Nat) (fallback : β) : Nat → Rounds α → Except Fault β → Bool → Prop
  | decided {limit : Nat} {a : Round α} {r : Except Fault β}
      (hmade : Made a.steps a.result a.aborted)
    (hr : verdict a.result = some r) :
    Polls Made verdict span fallback (limit + 1) ⟨[], a, []⟩ r a.aborted
  | exhausted {a : Round α} (hmade : Made a.steps a.result a.aborted)
    (hr : verdict a.result = none) :
    Polls Made verdict span fallback 1 ⟨[], a, []⟩ (.ok fallback) a.aborted
  | cut {limit : Nat} {a : Round α} {cut : List Step} {f : Fault}
    (hmade : Made a.steps a.result a.aborted) (hr : verdict a.result = none)
    (hcut : CutPause span f a.aborted cut) (hf : f.isCancelled = true) :
    Polls Made verdict span fallback (limit + 2) ⟨[], a, cut⟩ (.error f) true
  | again {limit : Nat} {a : Round α} {pause : Step} {p : Rounds α} {r : Except Fault β}
    {aborted : Bool} (hmade : Made a.steps a.result a.aborted) (hr : verdict a.result = none)
    (hrunning : a.aborted = false) (hpause : pause.entry = .called (.wait span) (.ok ()))
    (rest : Polls Made verdict span fallback (limit + 1) p r aborted) :
    Polls Made verdict span fallback (limit + 2) (.cons a pause p) r aborted

variable {span : Nat} {fallback : β}

theorem poll_traced [Desk σ] {round : Action (Stage σ) γ}
    {Made : List Step → Except Fault γ → Bool → Prop}
    {verdict : Except Fault γ → Option (Except Fault β)}
    (hround : ∀ s, ∃ steps, Traced s steps (round s).2 ∧
      Made steps (round s).1 (round s).2.aborted)
    (more : Nat) {s t : Stage σ} {r : Except Fault β}
    (h : poll round verdict span fallback more s = (r, t)) :
    ∃ p, Traced s p.steps t ∧ Polls Made verdict span fallback (more + 1) p r t.aborted := by
  induction more generalizing s with
  | zero =>
    obtain ⟨steps, htraced, hmade⟩ := hround s
    have htraced' : Traced s (Rounds.mk [] ⟨steps, (round s).1, (round s).2.aborted⟩ []).steps
        (round s).2 := by simpa using htraced
    rw [poll] at h
    cases hr : verdict (round s).1 with
    | some r' =>
      rw [hr] at h
      cases h
      exact ⟨_, htraced', .decided hmade hr⟩
    | none =>
      rw [hr] at h
      cases h
      exact ⟨_, htraced', .exhausted hmade hr⟩
  | succ more ih =>
    obtain ⟨steps, htraced, hmade⟩ := hround s
    rw [poll] at h
    cases hr : verdict (round s).1 with
    | some r' =>
      rw [hr] at h
      cases h
      exact ⟨⟨[], ⟨steps, _, _⟩, []⟩, by simpa using htraced, .decided hmade hr⟩
    | none =>
      rw [hr] at h
      rcases Action.bind_cases h with ⟨f, hpause, rfl⟩ | ⟨_, u, hpause, hrest⟩
      · obtain ⟨cut, hcut, hkind, hf, haborted⟩ := pause_cut hpause
        rw [haborted]
        exact ⟨⟨[], ⟨steps, _, _⟩, cut⟩, htraced.trans hcut, .cut hmade hr hkind hf⟩
      · obtain ⟨hrunning, rfl, hentry⟩ := pause_made hpause
        obtain ⟨p, hp, hpolls⟩ := ih hrest
        refine ⟨.cons ⟨steps, _, _⟩ (stepOf (.wait span) (round s).2) p, ?_,
          .again hmade hr hrunning hentry hpolls⟩
        rw [Rounds.steps_cons]
        exact htraced.trans (.call _ hp)

/-! ## What a poll is like -/

variable {Made : List Step → α → Bool → Prop} {verdict : α → Option (Except Fault β)}
variable {limit : Nat} {p : Rounds α} {r : Except Fault β} {aborted : Bool}

theorem Polls.made (h : Polls Made verdict span fallback limit p r aborted) :
    ∀ a ∈ p.all, Made a.steps a.result a.aborted := by
  induction h with
  | decided hmade | exhausted hmade | cut hmade => simpa using hmade
  | again hmade _ _ _ _ ih =>
    rw [Rounds.all_cons]
    exact List.forall_mem_cons.2 ⟨hmade, ih⟩

theorem Polls.earlier (h : Polls Made verdict span fallback limit p r aborted) :
    ∀ e ∈ p.earlier, verdict e.1.result = none ∧ e.1.aborted = false ∧
      e.2.entry = .called (.wait span) (.ok ()) := by
  induction h with
  | decided | exhausted | cut => exact List.forall_mem_nil _
  | again _ hr hrunning hpause _ ih => exact List.forall_mem_cons.2 ⟨⟨hr, hrunning, hpause⟩, ih⟩

/-- How a poll ends: its last round decides, or was the last one allowed, or an abort cuts the pause
behind it. -/
theorem Polls.ending (h : Polls Made verdict span fallback limit p r aborted) :
    p.all.length ≤ limit ∧
      (verdict p.last.result = some r ∧ p.cut = [] ∨
        verdict p.last.result = none ∧ p.all.length = limit ∧ r = .ok fallback ∧ p.cut = [] ∨
        verdict p.last.result = none ∧ p.all.length < limit ∧ aborted = true ∧
          ∃ f, r = .error f ∧ f.isCancelled = true ∧ CutPause span f p.last.aborted p.cut) := by
  induction h with
  | decided _ hr => exact ⟨by simp, .inl ⟨hr, rfl⟩⟩
  | exhausted _ hr => exact ⟨Nat.le_refl 1, .inr (.inl ⟨hr, rfl, rfl, rfl⟩)⟩
  | cut _ hr hcut hf => exact ⟨by simp, .inr (.inr ⟨hr, by simp, rfl, _, rfl, hf, hcut⟩)⟩
  | again _ _ _ _ _ ih =>
    simp only [Rounds.all_cons, List.length_cons]
    obtain ⟨hle, hends⟩ := ih
    refine ⟨by omega, ?_⟩
    rcases hends with hdecided | ⟨hr, hlength, hrest⟩ | ⟨hr, hlength, hrest⟩
    · exact .inl hdecided
    · exact .inr (.inl ⟨hr, by omega, hrest⟩)
    · exact .inr (.inr ⟨hr, by omega, hrest⟩)

theorem Polls.step_cases (h : Polls Made verdict span fallback limit p r aborted) {step : Step}
    (hstep : step ∈ p.steps) : (∃ a ∈ p.all, step ∈ a.steps) ∨ step.Asks (.wait span) := by
  rcases Rounds.step_cases hstep with hround | ⟨e, he, rfl⟩ | hcut
  · exact .inl hround
  · exact .inr ⟨_, (h.earlier e he).2.2⟩
  · right
    have huncut : p.cut ≠ [] := List.ne_nil_of_mem hcut
    rcases h.ending.2 with ⟨-, hnone⟩ | ⟨-, -, -, hnone⟩ | ⟨-, -, -, f, -, -, hpause⟩
    · exact absurd hnone huncut
    · exact absurd hnone huncut
    · exact hpause.asks step hcut

/-! ## What comes of a poll -/

def Foreseen (seen : Nat → α) (p : Rounds α) : Prop :=
  ∀ k a, p.all[k]? = some a → a.result = seen k

/-- How many rounds a poll has and what comes of it, if the rounds bring what is foreseen. -/
inductive Settles (verdict : α → Option (Except Fault β)) (fallback : β) (limit : Nat)
    (seen : Nat → α) (aborted : Bool) : Nat → Except Fault β → Prop
  | decided {k : Nat} {r : Except Fault β} (hk : k < limit) (hr : verdict (seen k) = some r)
    (hbefore : ∀ j < k, verdict (seen j) = none) :
    Settles verdict fallback limit seen aborted (k + 1) r
  | exhausted (hnone : ∀ j < limit, verdict (seen j) = none) :
    Settles verdict fallback limit seen aborted limit (.ok fallback)
  | cut {k : Nat} {f : Fault} (hk : k < limit) (hnone : ∀ j < k, verdict (seen j) = none)
    (hf : f.isCancelled = true) (haborted : aborted = true) :
    Settles verdict fallback limit seen aborted k (.error f)

variable {seen : Nat → α}

theorem Foreseen.earlier (h : Foreseen seen p)
    (hpolls : Polls Made verdict span fallback limit p r aborted) {k : Nat}
    (hk : k < p.earlier.length) : verdict (seen k) = none := by
  have hmem : p.earlier[k] ∈ p.earlier := List.getElem_mem hk
  have hall : p.all[k]? = some p.earlier[k].1 := by
    rw [Rounds.all, List.getElem?_append_left (by simpa using hk)]
    simp [hk]
  rw [← h k _ hall]
  exact (hpolls.earlier _ hmem).1

theorem Foreseen.last (h : Foreseen seen p) : p.last.result = seen p.earlier.length := by
  apply h
  rw [Rounds.all, List.getElem?_append_right (by simp)]
  simp

theorem Polls.settles (h : Polls Made verdict span fallback limit p r aborted)
    (hseen : Foreseen seen p) :
    Settles verdict fallback limit seen aborted p.all.length r := by
  obtain ⟨hle, hends⟩ := h.ending
  rw [Rounds.length_all] at hle hends ⊢
  rw [hseen.last] at hends
  have hbefore : ∀ j < p.earlier.length, verdict (seen j) = none := fun j hj => hseen.earlier h hj
  rcases hends with ⟨hr, -⟩ | ⟨hr, hlength, rfl, -⟩ | ⟨hr, hlength, haborted, f, rfl, hf, -⟩
  · exact .decided hle hr hbefore
  · rw [hlength]
    refine .exhausted fun j hj => ?_
    rcases Nat.lt_succ_iff_lt_or_eq.1 (hlength ▸ hj) with hlt | rfl
    · exact hbefore j hlt
    · exact hr
  · refine .cut hlength (fun j hj => ?_) hf haborted
    rcases Nat.lt_succ_iff_lt_or_eq.1 hj with hlt | rfl
    · exact hbefore j hlt
    · exact hr

end Loop

end Playback.Proofs.Polling
