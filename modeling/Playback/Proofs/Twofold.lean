import Playback.Engine.Perform
import Playback.Proofs.Answers
import Playback.Proofs.Probing
/-!
# Performing a command from two memories

An action respects a relation between states if two runs of it from related states have the same
result and end in related states. A command respects that two memories are alike and that all else
is the same, if the names it writes are spelled as they are in both memories. Setting the parameters
of a job makes memories alike that were not.
-/

namespace Playback.Proofs.Twofold

open Answers

variable {σ τ ρ α β : Type}

def Respects (R : τ → τ → Prop) (x : Action τ α) : Prop :=
  ∀ s t, R s t → (x s).1 = (x t).1 ∧ R (x s).2 (x t).2

/-- The first parts are related, and the second ones are the same. -/
def Beside (R : ρ → ρ → Prop) (s t : ρ × τ) : Prop := R s.1 t.1 ∧ s.2 = t.2

/-! ## Actions -/

section Actions

variable {R : τ → τ → Prop} {x : Action τ α}

theorem respects_pure (a : α) : Respects R (pure a : Action τ α) := fun _ _ h => ⟨rfl, h⟩

theorem respects_fail (f : Fault) : Respects R (Action.fail f : Action τ α) := fun _ _ h => ⟨rfl, h⟩

theorem respects_ofExcept (r : Except Fault α) : Respects R (Action.ofExcept r : Action τ α) :=
  fun _ _ h => ⟨rfl, h⟩

theorem respects_gets {f : τ → α} (h : ∀ s t, R s t → f s = f t) :
    Respects R (Action.gets f : Action τ α) :=
  fun s t hst => ⟨congrArg Except.ok (h s t hst), hst⟩

theorem respects_modify {f : τ → τ} (h : ∀ s t, R s t → R (f s) (f t)) :
    Respects R (Action.modify f) :=
  fun s t hst => ⟨rfl, h s t hst⟩

theorem Respects.alike {s t u : τ} {r : Except Fault α} (hx : Respects R x) (hst : R s t)
    (hs : x s = (r, u)) : ∃ v, x t = (r, v) ∧ R u v := by
  obtain ⟨hresult, hstate⟩ := hx s t hst
  rw [hs] at hresult hstate
  have hresult : r = (x t).1 := hresult
  exact ⟨_, by rw [hresult], hstate⟩

theorem Respects.bind {f : α → Action τ β} (hx : Respects R x) (hf : ∀ a, Respects R (f a)) :
    Respects R (x >>= f) := by
  intro s t hst
  rcases hs : x s with ⟨r, s'⟩
  obtain ⟨t', ht, hstate⟩ := hx.alike hst hs
  cases r with
  | ok a =>
    rw [Action.bind_of_ok hs, Action.bind_of_ok ht]
    exact hf a s' t' hstate
  | error g =>
    rw [Action.bind_of_error hs, Action.bind_of_error ht]
    exact ⟨rfl, hstate⟩

/-- What is looked up may differ, as long as the same is done with it. -/
theorem respects_gets_bind {f : τ → β} {g : β → Action τ α}
    (hsame : ∀ s t, R s t → g (f s) = g (f t)) (hg : ∀ b, Respects R (g b)) :
    Respects R (Action.gets f >>= g) := by
  intro s t hst
  have hs : (Action.gets f >>= g) s = g (f s) s := Action.bind_of_ok rfl
  have ht : (Action.gets f >>= g) t = g (f t) t := Action.bind_of_ok rfl
  rw [hs, ht, ← hsame s t hst]
  exact hg (f s) s t hst

theorem Respects.attempt (hx : Respects R x) : Respects R x.attempt := by
  intro s t hst
  obtain ⟨hresult, hstate⟩ := hx s t hst
  exact ⟨congrArg Except.ok hresult, hstate⟩

theorem Respects.ending {f : τ → τ} (hx : Respects R x) (hf : ∀ s t, R s t → R (f s) (f t)) :
    Respects R (x.ending f) := by
  intro s t hst
  obtain ⟨hresult, hstate⟩ := hx s t hst
  exact ⟨hresult, hf _ _ hstate⟩

theorem respects_onSnd (Q : ρ → ρ → Prop) (x : Action τ α) : Respects (Beside Q) (x.onSnd) := by
  rintro ⟨a, s⟩ ⟨b, t⟩ ⟨hfirst, hsecond⟩
  have hsecond : s = t := hsecond
  subst hsecond
  exact ⟨rfl, hfirst, rfl⟩

end Actions

/-! ## Memories -/

/-- Two memories whose questions are alike, for the same operation. -/
def Agree (left right : String → Prop) (m n : Memory) : Prop :=
  Alike left right m.question n.question ∧ m.operation = n.operation

/-- The names under which a command puts answers. -/
def written : Command → List String
  | .paramChange params => okAttribute :: params.keys
  | .read _ name => [name]
  | .compare _ => [okAttribute]
  | .scroll spec => okAttribute :: spec.extra.toList.map (·.name)
  | _ => []

def Shared (left right : String → Prop) (names : List String) : Prop :=
  ∀ name ∈ names, left name ∧ right name

section Memories

variable {left right : String → Prop} {q r : Question} {m n : Memory}

theorem alike_foldl (hleft : Unambiguous left) (hright : Unambiguous right)
    {entries : List (String × Answer)} (hnames : Shared left right (entries.map (·.1)))
    (h : Alike left right q r) :
    Alike left right (entries.foldl (fun q e => q.set e.1 e.2) q)
      (entries.foldl (fun q e => q.set e.1 e.2) r) := by
  induction entries generalizing q r with
  | nil => exact h
  | cons entry rest ih =>
    have hfirst := h.set hleft hright (hnames entry.1 List.mem_cons_self) entry.2
    exact ih (fun name hname => hnames name (List.mem_cons_of_mem _ hname)) hfirst

/-- The answers of a job do not depend on those before it. -/
theorem alike_takeParams (hleft : Unambiguous left) (hright : Unambiguous right)
    {params : Dict Answer} (hnames : Shared left right (written (.paramChange params)))
    (hm : Spelled left m.question) (hn : Spelled right n.question) :
    Alike left right (m.takeParams params).question (n.takeParams params).question := by
  have hbase := (alike_reset hm hn).set hleft hright
    (hnames okAttribute List.mem_cons_self) (.text "Ok")
  exact alike_foldl hleft hright (fun name hname => hnames name (List.mem_cons_of_mem _ hname))
    hbase

theorem agree_takeParams (hleft : Unambiguous left) (hright : Unambiguous right)
    {params : Dict Answer} (hnames : Shared left right (written (.paramChange params)))
    (h : Agree left right m n) : Agree left right (m.takeParams params) (n.takeParams params) := by
  refine ⟨alike_takeParams hleft hright hnames h.1.spelled_left h.1.spelled_right, ?_⟩
  unfold Memory.takeParams
  rw [h.2]

def NamesOperation (params : Dict Answer) : Prop :=
  ∃ operation : String, params.get? chosenAttribute = some (.text operation) ∧
    Text.trim operation = operation ∧ operation.isEmpty = false

/-- Parameters that name the operation make any two memories agree. -/
theorem agree_of_names (hleft : Unambiguous left) (hright : Unambiguous right)
    {params : Dict Answer} (hnames : Shared left right (written (.paramChange params)))
    (hoperation : NamesOperation params) (hm : Spelled left m.question)
    (hn : Spelled right n.question) :
    Agree left right (m.takeParams params) (n.takeParams params) := by
  refine ⟨alike_takeParams hleft hright hnames hm hn, ?_⟩
  obtain ⟨operation, hchosen, htrim, hsome⟩ := hoperation
  have hnamed : ∀ memory : Memory, (memory.takeParams params).operation = some operation := by
    intro memory
    have htext : Text.trim (Answer.text operation).asText = operation := htrim
    simp [Memory.takeParams, hchosen, htext, hsome]
  rw [hnamed m, hnamed n]

theorem operationLabel_eq (h : Agree left right m n) : m.operationLabel = n.operationLabel := by
  rw [Memory.operationLabel, Memory.operationLabel, h.2]

theorem results_eq (h : Agree left right m n) (catalog : Catalog) (today : Day) :
    m.results catalog today = n.results catalog today := by
  have hanswered : (fun field => ((m.question.get? today field).filter fun a => !a.isEmpty).map
      fun a => (field, a.toJson)) =
      fun field => ((n.question.get? today field).filter fun a => !a.isEmpty).map
        fun a => (field, a.toJson) := by
    funext field
    rw [h.1.answered today field]
  unfold Memory.results
  rw [operationLabel_eq h, hanswered]

end Memories

/-! ## Searching a list -/

section Search

variable {left right : String → Prop} (hleft : Unambiguous left) (hright : Unambiguous right)
variable (spec : ScrollSpec) (surface : Surface τ)
variable (hnames : Shared left right (written (.scroll spec)))

include hleft hright in
theorem respects_note_set {name : String} (hname : left name ∧ right name) (a : Answer) :
    Respects (Beside (Alike left right))
      (ScrollSpec.note (·.set name a) : Action (Question × τ) Unit) :=
  respects_modify fun _ _ h => ⟨h.1.set hleft hright hname a, h.2⟩

include hleft hright in
theorem respects_note_push {name : String} (hname : left name ∧ right name) (v : Scalar) :
    Respects (Beside (Alike left right))
      (ScrollSpec.note (·.push name v) : Action (Question × τ) Unit) :=
  respects_modify fun _ _ h => ⟨h.1.push hleft hright hname v, h.2⟩

include hleft hright hnames

theorem respects_search (today : Day) (maxPasses : Nat) :
    Respects (Beside (Alike left right)) (spec.search surface today maxPasses) := by
  have hok := hnames okAttribute List.mem_cons_self
  have hextra : ∀ extra, spec.extra = some extra → left extra.name ∧ right extra.name :=
    fun extra h => hnames extra.name (by simp [written, h])
  have hparallel : Probing.Parallel spec today surface surface
      fun _ x _ => Respects (Beside (Alike left right)) x :=
    { done := respects_pure
      bind := Respects.bind
      asks := respects_gets fun s t h => h.1.getText today spec.target
      refuses := fun _ => respects_ofExcept _
      judges := fun b => respects_note_set hleft hright hok _
      gathers := fun extra h text => respects_note_push hleft hright (hextra extra h) _
      reads := fun _ => respects_onSnd _ _
      clicks := fun _ => respects_onSnd _ _
      drags := fun _ _ => respects_onSnd _ _ }
  exact hparallel.search maxPasses

end Search

/-! ## Single commands -/

section Commands

variable [Desk σ] {left right : String → Prop} (hleft : Unambiguous left)
  (hright : Unambiguous right) (e : Setup)

abbrev Alongside (left right : String → Prop) : Memory × Stage σ → Memory × Stage σ → Prop :=
  Beside (Agree left right)

omit [Desk σ] in
theorem respects_operationLabel :
    Respects (Alongside left right)
      (Action.gets fun s : Memory × Stage σ => s.1.operationLabel) :=
  respects_gets fun _ _ h => operationLabel_eq h.1

omit [Desk σ] in
theorem respects_answering {f : Question → Question}
    (hf : ∀ q r, Alike left right q r → Alike left right (f q) (f r)) :
    Respects (Alongside left right) (Setup.answering f : Action (Memory × Stage σ) Unit) :=
  respects_modify fun _ _ h => ⟨⟨hf _ _ h.1.1, h.1.2⟩, h.2⟩

omit [Desk σ] in
theorem typedText_eq {q r : Question} (h : Alike left right q r) (text : WriteText) :
    e.typedText q text = e.typedText r text := by
  cases text with
  | question name => exact congrArg Except.ok (h.getText e.today name)
  | _ => rfl

theorem respects_operandText (operand : Operand) :
    Respects (Alongside left right) (e.operandText operand : Action (Memory × Stage σ) String) := by
  cases operand with
  | read area => exact respects_operationLabel.bind fun operation => respects_onSnd _ _
  | question name => exact respects_gets fun _ _ h => h.1.1.getText e.today name

include hleft hright

theorem respects_compare (c : Comparison) (hok : left okAttribute ∧ right okAttribute) :
    Respects (Alongside left right) (e.compare c : Action (Memory × Stage σ) Resolution) := by
  unfold Setup.compare
  refine (respects_operandText e c.lhs).bind fun first => ?_
  refine (respects_operandText e c.rhs).bind fun second => ?_
  refine (respects_ofExcept (evaluate c.op first second)).bind fun outcome => ?_
  exact (respects_answering fun _ _ h => h.set hleft hright hok _).bind fun _ => respects_pure _

theorem respects_scroll (spec : ScrollSpec) (lease : Lease)
    (hnames : Shared left right (written (.scroll spec))) :
    Respects (Alongside left right) (e.scroll spec lease : Action (Memory × Stage σ) Unit) := by
  rintro ⟨m, s⟩ ⟨n, t⟩ ⟨hagree, hstage⟩
  have hstage : s = t := hstage
  subst hstage
  -- the search runs on a question of its own, which it hands back whatever comes of it
  have hlabel : m.operationLabel = n.operationLabel := operationLabel_eq hagree
  have hsearch := respects_search hleft hright spec (e.surface m.operationLabel lease) hnames
    e.today e.config.maxScrollPasses (m.question, s) (n.question, s) ⟨hagree.1, rfl⟩
  unfold Setup.scroll
  dsimp only
  rw [← hlabel]
  generalize spec.search (e.surface m.operationLabel lease) e.today e.config.maxScrollPasses
    (m.question, s) = first at hsearch ⊢
  generalize spec.search (e.surface m.operationLabel lease) e.today e.config.maxScrollPasses
    (n.question, s) = second at hsearch ⊢
  obtain ⟨hresult, hquestion, hafter⟩ := hsearch
  exact ⟨congrArg (Except.map fun _ => ()) hresult, ⟨hquestion, hagree.2⟩, hafter⟩

theorem respects_use (lease : Lease) (c : Command) (hnames : Shared left right (written c)) :
    Respects (Alongside left right) (e.use lease c : Action (Memory × Stage σ) Unit) := by
  cases c with
  | click position condition => exact respects_onSnd _ _
  | write text =>
    refine respects_gets_bind (fun s t h => ?_) fun question => ?_
    · rw [typedText_eq e h.1.1 text]
    · exact (respects_ofExcept _).bind fun typed => respects_onSnd _ _
  | color position expected => exact respects_onSnd _ _
  | read area name =>
    refine respects_operationLabel.bind fun operation => ?_
    refine (respects_onSnd _ _).bind fun text => ?_
    exact respects_answering fun _ _ h => h.push hleft hright (hnames name List.mem_cons_self) _
  | compare c =>
    exact (respects_compare hleft hright e c (hnames okAttribute List.mem_cons_self)).bind fun _ =>
      respects_pure ()
  | scroll spec => exact respects_scroll hleft hright e spec lease hnames
  | paramChange params => exact respects_pure ()
  | webhook params => exact respects_pure ()

omit hleft hright in
theorem respects_deliver :
    Respects (Alongside left right) (e.deliver : Action (Memory × Stage σ) Unit) := by
  unfold Setup.deliver
  refine (respects_gets fun s t h => results_eq h.1 e.config.catalog e.today).bind fun results => ?_
  split
  · exact respects_pure ()
  · exact (respects_onSnd _ _).attempt.bind fun _ => respects_pure ()

/-- A command has the same outcome from memories that are alike, and leaves memories that are. -/
theorem respects_perform (c : Command) (hnames : Shared left right (written c)) :
    Respects (Alongside left right) (e.perform c : Action (Memory × Stage σ) Unit) := by
  have hleased : Respects (Alongside left right) (do
      let lease ← (Arbiter.acquire e.app).onSnd
      (e.use lease c).ending fun s => (s.1, s.2.dropLease lease) :
        Action (Memory × Stage σ) Unit) :=
    (respects_onSnd _ _).bind fun lease =>
      (respects_use hleft hright e lease c hnames).ending fun _ _ h =>
        ⟨h.1, congrArg (·.dropLease lease) h.2⟩
  cases c with
  | webhook params => exact respects_deliver e
  | paramChange params =>
    exact respects_modify fun _ _ h => ⟨agree_takeParams hleft hright hnames h.1, h.2⟩
  | _ => exact hleased

end Commands

end Playback.Proofs.Twofold
