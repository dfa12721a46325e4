import Playback.Engine.Expansion
/-!
# Agendas

The jobs an engine has before it and the commands left of the first one. What may happen to an
agenda are four pure steps: a job is queued, the first job is expanded, it leaves the queue, or it
is begun again.
-/

namespace Playback

inductive Phase where
  | idle
  | running
  /-- The first job has just ended, and the next one is not yet expanded. -/
  | awaiting
  deriving DecidableEq, Repr, Inhabited

structure Agenda where
  phase : Phase
  retries : Nat
  commands : List Command
  pending : List Job
  /-- The last two operations that were expanded, the older one first. -/
  history : List String
  deriving DecidableEq, Repr, Inhabited

namespace Agenda

def fresh : Agenda := ⟨.idle, 0, [], [], []⟩

def queue (a : Agenda) (job : Job) : Agenda := { a with pending := a.pending ++ [job] }

def remember (history : List String) (operation : String) : List String :=
  (if history.length = 2 then history.tail else history) ++ [operation]

def dropFirst (a : Agenda) : Agenda :=
  { a with retries := 0, commands := [], pending := a.pending.tail }

def beginAgain (a : Agenda) : Agenda :=
  { a with retries := a.retries + 1, commands := [], history := [] }

/-- Goes through jobs up to the first that can be expanded: the jobs passed over with the reasons,
the jobs from there on, and the expansion of the first of them. -/
def seek (expand : Job → Except Fault Expansion) :
    List Job → List (Job × Fault) × Option (Job × Expansion × List Job)
  | [] => ([], none)
  | job :: rest =>
    match expand job with
    | .ok x => ([], some (job, x, rest))
    | .error f =>
      let (dropped, found) := seek expand rest
      ((job, f) :: dropped, found)

/-- The first job that can be expanded is, and those before it leave the queue: the jobs that left,
the job and its expansion if there is one, and the agenda after it. -/
def load (expand : List String → Job → Except Fault Expansion) (a : Agenda) :
    List (Job × Fault) × Option (Job × Expansion) × Agenda :=
  match seek (expand a.history) a.pending with
  | (dropped, found) =>
    let retries := if dropped.isEmpty then a.retries else 0
    match found with
    | some (job, x, rest) =>
      (dropped, some (job, x),
        ⟨.running, retries, x.commands, job :: rest, remember a.history x.operation⟩)
    | none => (dropped, none, ⟨.idle, retries, [], [], a.history⟩)

def loaded (expand : List String → Job → Except Fault Expansion) (a : Agenda) : Agenda :=
  (a.load expand).2.2

/-! ## Work left -/

theorem seek_shortens (expand : Job → Except Fault Expansion) (jobs : List Job) {job : Job}
    {x : Expansion} {rest : List Job} (h : (seek expand jobs).2 = some (job, x, rest)) :
    (seek expand jobs).1.length + (rest.length + 1) = jobs.length := by
  induction jobs with
  | nil => simp [seek] at h
  | cons j js ih =>
    simp only [seek] at h ⊢
    split at h
    · simp_all
    · simp only [] at h
      have := ih h
      simp only [List.length_cons]
      omega

/-- Expanding never adds jobs, and where it leaves their number it leaves the retries too. -/
theorem loaded_shortens (expand : List String → Job → Except Fault Expansion) (a : Agenda)
    (h : (a.loaded expand).commands ≠ []) :
    (a.loaded expand).pending.length < a.pending.length ∨
      (a.loaded expand).pending.length = a.pending.length ∧ (a.loaded expand).retries = a.retries ∧
        a.pending ≠ [] := by
  simp only [loaded, load] at h ⊢
  cases hs : seek (expand a.history) a.pending with
  | mk dropped found =>
    cases found with
    | none => simp [hs] at h
    | some f =>
      obtain ⟨job, x, rest⟩ := f
      have hl := seek_shortens (expand a.history) a.pending
        (show (seek (expand a.history) a.pending).2 = some (job, x, rest) by rw [hs])
      rw [hs] at hl
      simp only at hl ⊢
      cases dropped with
      | nil =>
        right
        simp only [List.length_nil, List.isEmpty_nil, List.length_cons] at hl ⊢
        exact ⟨by omega, by simp, fun h0 => by simp [h0] at hl⟩
      | cons d ds =>
        left
        simp only [List.length_cons] at hl ⊢
        omega

end Agenda

end Playback
