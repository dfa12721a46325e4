import Playback.Engine.Perform
import Playback.Proofs.Calendar
import Playback.Proofs.Envelope
import Playback.Proofs.Probing
/-!
# The present day

A question is only ever changed by setting an answer, adding to one, or emptying all of them,
whatever brings the names: attributes and envelopes, the fields of an input, and the commands of an
engine. None of these keeps anything under a spelling of `Timenow`, so that every spelling reads as
the present day.
-/

namespace Playback.Proofs.PresentDay

open Answers Calendar Envelope Names ReadBack

variable {σ τ ρ α β : Type}

/-! ## Changes of a question -/

/-- The second question is the first one after some changes. -/
def Changed (q q' : Question) : Prop := ∃ changes : List Change, q' = changes.foldl Change.apply q

section Changes

variable {q q' q'' : Question}

theorem changed_refl (q : Question) : Changed q q := ⟨[], rfl⟩

theorem Changed.trans (h : Changed q q') (h' : Changed q' q'') : Changed q q'' := by
  obtain ⟨changes, rfl⟩ := h
  obtain ⟨changes', rfl⟩ := h'
  exact ⟨changes ++ changes', (List.foldl_append ..).symm⟩

theorem changed_apply (q : Question) (change : Change) : Changed q (change.apply q) :=
  ⟨[change], rfl⟩

theorem changed_foldl (entries : List (String × Answer)) (q : Question) :
    Changed q (entries.foldl (fun q e => q.set e.1 e.2) q) := by
  induction entries generalizing q with
  | nil => exact changed_refl q
  | cons e rest ih => exact (changed_apply q (.set e.1 e.2)).trans (ih _)

theorem changed_ofAttrs (attrs : Dict Answer) : Changed .empty (.ofAttrs attrs) :=
  changed_foldl attrs.entries .empty

theorem changed_takeParams (m : Memory) (params : Dict Answer) :
    Changed m.question (m.takeParams params).question :=
  (changed_apply m.question .reset).trans
    ((changed_apply _ (.set okAttribute (.text "Ok"))).trans (changed_foldl params.entries _))

/-! ### Questions from outside -/

theorem changed_takeEntry {s : InputSchema} {e : String × Json} (h : s.takeEntry q e = .ok q') :
    Changed q q' := by
  unfold InputSchema.takeEntry at h
  split at h
  · cases h
    exact changed_refl q
  · rename_i field _
    split at h
    · cases h
      exact changed_refl q
    · split at h
      · rename_i a _
        cases h
        split
        · exact changed_refl q
        · exact changed_apply q (.set field a)
      · cases h

theorem changed_takeEntries {s : InputSchema} {raw : List (String × Json)}
    (h : raw.foldlM s.takeEntry q = .ok q') : Changed q q' := by
  induction raw generalizing q with
  | nil =>
    cases h
    exact changed_refl _
  | cons e rest ih =>
    rw [List.foldlM_cons] at h
    cases htake : s.takeEntry q e with
    | error f =>
      rw [htake] at h
      cases h
    | ok r =>
      rw [htake] at h
      exact (changed_takeEntry htake).trans (ih h)

theorem changed_build {s : InputSchema} {raw : List (String × Json)} {botId : String}
    (h : s.buildQuestion raw botId = .ok q) : Changed .empty q := by
  unfold InputSchema.buildQuestion at h
  cases hraw : raw.foldlM s.takeEntry .empty with
  | error f =>
    rw [hraw] at h
    cases h
  | ok r =>
    rw [hraw] at h
    cases h
    exact (changed_takeEntries hraw).trans (changed_apply r (.set botIdAttribute (.text botId)))

theorem changed_ofJson {v : Json} {job : Job} (h : Job.ofJson v = .ok job) :
    Changed .empty job.question := by
  have hread : ∀ (read : Option (Dict Answer)) (filter : String),
      (read.bind fun attrs => some (Job.mk (.ofAttrs attrs) filter)) = some job →
        Changed .empty job.question := by
    intro read filter hjob
    obtain ⟨attrs, -, hattrs⟩ := Option.bind_eq_some_iff.1 hjob
    cases hattrs
    exact changed_ofAttrs attrs
  unfold Job.ofJson at h
  dsimp only at h
  split at h
  · rename_i found hjob
    cases h
    simp only [Option.bind_eq_bind] at hjob
    obtain ⟨fields, -, hjob⟩ := Option.bind_eq_some_iff.1 hjob
    split at hjob
    · split at hjob
      · obtain ⟨filter, -, hjob⟩ := Option.bind_eq_some_iff.1 hjob
        split at hjob <;> exact hread _ _ hjob
      · obtain ⟨filter, -, hjob⟩ := Option.bind_eq_some_iff.1 hjob
        split at hjob <;> exact hread _ _ hjob
    · cases hjob
  · cases h

end Changes

/-! ## What commands change -/

section Edits

variable {view : τ → Question}

/-- Whatever comes of the action, the question that is kept in its state only changes. -/
def Edits (view : τ → Question) (x : Action τ α) : Prop := ∀ s, Changed (view s) (view (x s).2)

theorem edits_of_eq {x : Action τ α} (h : ∀ s, view (x s).2 = view s) : Edits view x := by
  intro s
  rw [h s]
  exact changed_refl _

theorem edits_pure (a : α) : Edits view (pure a : Action τ α) := edits_of_eq fun _ => rfl

theorem edits_gets (f : τ → α) : Edits view (Action.gets f) := edits_of_eq fun _ => rfl

theorem edits_ofExcept (r : Except Fault α) : Edits view (Action.ofExcept r : Action τ α) :=
  edits_of_eq fun _ => rfl

theorem Edits.bind {x : Action τ α} {f : α → Action τ β} (hx : Edits view x)
    (hf : ∀ a, Edits view (f a)) : Edits view (x >>= f) := by
  intro s
  have hs := hx s
  rcases h : x s with ⟨r, t⟩
  rw [h] at hs
  cases r with
  | ok a =>
    rw [Action.bind_of_ok h]
    exact hs.trans (hf a t)
  | error g =>
    rw [Action.bind_of_error h]
    exact hs

theorem edits_onSnd (view : ρ → Question) (x : Action τ α) :
    Edits (fun s : ρ × τ => view s.1) x.onSnd := edits_of_eq fun _ => rfl

theorem Edits.attempt {x : Action τ α} (hx : Edits view x) : Edits view x.attempt := hx

theorem Edits.ending {x : Action τ α} {f : τ → τ} (hx : Edits view x)
    (hf : ∀ s, view (f s) = view s) : Edits view (x.ending f) := by
  intro s
  have hs := hx s
  rw [← hf (x s).2] at hs
  exact hs

theorem edits_search (spec : ScrollSpec) (surface : Surface τ) (today : Day) (maxPasses : Nat) :
    Edits (fun s : Question × τ => s.1) (spec.search surface today maxPasses) := by
  have hparallel : Probing.Parallel spec today surface surface
      fun _ x _ => Edits (fun s : Question × τ => s.1) x :=
    { done := edits_pure
      bind := Edits.bind
      asks := edits_gets _
      refuses := fun _ => edits_ofExcept _
      judges := fun b s => changed_apply s.1 (.set okAttribute (.bool b))
      gathers := fun extra _ text s => changed_apply s.1 (.push extra.name (.text text))
      reads := fun _ => edits_onSnd id _
      clicks := fun _ => edits_onSnd id _
      drags := fun _ _ => edits_onSnd id _ }
  exact hparallel.search maxPasses

end Edits

section Commands

def remembered (s : Memory × Stage σ) : Question := s.1.question

theorem edits_stage (x : Action (Stage σ) α) :
    Edits remembered (x.onSnd : Action (Memory × Stage σ) α) :=
  edits_onSnd Memory.question x

theorem edits_answering (change : Change) :
    Edits remembered (Setup.answering (change.apply ·) : Action (Memory × Stage σ) Unit) :=
  fun s => changed_apply s.1.question change

variable [Desk σ] (e : Setup)

theorem edits_operandText (operand : Operand) :
    Edits remembered (e.operandText operand : Action (Memory × Stage σ) String) := by
  cases operand with
  | read area => exact (edits_gets _).bind fun _ => edits_stage _
  | question name => exact edits_gets _

theorem edits_compare (c : Comparison) :
    Edits remembered (e.compare c : Action (Memory × Stage σ) Resolution) := by
  unfold Setup.compare
  refine (edits_operandText e c.lhs).bind fun left => ?_
  refine (edits_operandText e c.rhs).bind fun right => ?_
  refine (edits_ofExcept _).bind fun outcome => ?_
  exact (edits_answering (.set okAttribute (.bool outcome))).bind fun _ => edits_pure _

theorem edits_scroll (spec : ScrollSpec) (lease : Lease) :
    Edits remembered (e.scroll spec lease : Action (Memory × Stage σ) Unit) := by
  intro s
  have hsearch := edits_search spec (e.surface s.1.operationLabel lease) e.today
    e.config.maxScrollPasses (s.1.question, s.2)
  unfold Setup.scroll
  generalize spec.search (e.surface s.1.operationLabel lease) e.today e.config.maxScrollPasses
    (s.1.question, s.2) = result at hsearch ⊢
  exact hsearch

theorem edits_use (lease : Lease) (c : Command) :
    Edits remembered (e.use lease c : Action (Memory × Stage σ) Unit) := by
  cases c with
  | click position condition => exact edits_stage _
  | write text =>
    exact (edits_gets _).bind fun _ => (edits_ofExcept _).bind fun _ => edits_stage _
  | color position expected => exact edits_stage _
  | read area name =>
    refine (edits_gets _).bind fun _ => (edits_stage _).bind fun text => ?_
    exact edits_answering (.push name (.text text))
  | compare c => exact (edits_compare e c).bind fun _ => edits_pure ()
  | scroll spec => exact edits_scroll e spec lease
  | paramChange params => exact edits_pure ()
  | webhook params => exact edits_pure ()

theorem edits_deliver : Edits remembered (e.deliver : Action (Memory × Stage σ) Unit) := by
  unfold Setup.deliver
  refine (edits_gets _).bind fun results => ?_
  split
  · exact edits_pure ()
  · exact (edits_stage _).attempt.bind fun _ => edits_pure ()

/-- A command changes the question in no other ways than its owner could. -/
theorem edits_perform (c : Command) :
    Edits remembered (e.perform c : Action (Memory × Stage σ) Unit) := by
  have hleased : Edits remembered (do
      let lease ← (Arbiter.acquire e.app).onSnd
      (e.use lease c).ending fun s => (s.1, s.2.dropLease lease) :
        Action (Memory × Stage σ) Unit) :=
    (edits_stage _).bind fun lease => (edits_use e lease c).ending fun _ => rfl
  cases c with
  | webhook params => exact edits_deliver e
  | paramChange params => exact fun s => changed_takeParams s.1 params
  | _ => exact hleased

end Commands

/-! ## Runs -/

/-- What may happen to the question in an engine's memory. A command finds the stage as it has
become by then. -/
inductive Edit (σ : Type) where
  | ofAttrs (attrs : Dict Answer)
  | alter (change : Change)
  | build (schema : InputSchema) (raw : List (String × Json)) (botId : String)
  | receive (envelope : Json)
  | perform (e : Setup) (c : Command) (stage : Stage σ)

def replaced (m : Memory) : Except Fault Question → Memory
  | .ok q => { m with question := q }
  | .error _ => m

def Edit.apply [Desk σ] (m : Memory) : Edit σ → Memory
  | ofAttrs attrs => { m with question := .ofAttrs attrs }
  | alter change => { m with question := change.apply m.question }
  | build schema raw botId => replaced m (schema.buildQuestion raw botId)
  | receive envelope => replaced m ((Job.ofJson envelope).map Job.question)
  | perform e c stage => (e.perform c (m, stage)).2.1

/-- The memory of an engine after these edits. -/
def run [Desk σ] (edits : List (Edit σ)) : Memory := edits.foldl Edit.apply .fresh

section Runs

theorem changed_replaced {m : Memory} {r : Except Fault Question} (h : Changed .empty m.question)
    (hr : ∀ q, r = .ok q → Changed .empty q) : Changed .empty (replaced m r).question := by
  cases r with
  | ok q => exact hr q rfl
  | error f => exact h

variable [Desk σ]

theorem changed_edit {m : Memory} (h : Changed .empty m.question) (edit : Edit σ) :
    Changed .empty (edit.apply m).question := by
  cases edit with
  | ofAttrs attrs => exact changed_ofAttrs attrs
  | alter change => exact h.trans (changed_apply m.question change)
  | build schema raw botId => exact changed_replaced h fun q hq => changed_build hq
  | receive envelope =>
    refine changed_replaced h fun q hq => ?_
    cases hjob : Job.ofJson envelope with
    | error f =>
      rw [hjob] at hq
      cases hq
    | ok job =>
      rw [hjob] at hq
      cases hq
      exact changed_ofJson hjob
  | perform e c stage => exact h.trans (edits_perform e c (m, stage))

theorem changed_run (edits : List (Edit σ)) : Changed .empty (run edits).question := by
  have hfold : ∀ m : Memory, Changed .empty m.question →
      Changed .empty (edits.foldl Edit.apply m).question := by
    induction edits with
    | nil => exact fun m hm => hm
    | cons edit rest ih => exact fun m hm => ih _ (changed_edit hm edit)
  exact hfold .fresh (changed_refl .empty)

end Runs

/-- No answer is kept under a spelling of `Timenow`, and each spelling reads as the day. -/
structure Undated (q : Question) : Prop where
  unkept : ∀ key ∈ q.attrs.keys, Text.sameName key timenow = false
  reads : ∀ (today : Day) (name : String), Text.sameName name timenow = true →
    q.getText? today name = some today.dashed ∧ parseDay today.dashed = .ok today

/-- Nothing but `Ok` and the parameters is left of what was answered before. -/
structure Emptied (params : Dict Answer) (q : Question) : Prop where
  kept : ∀ key ∈ q.attrs.keys, key ≠ okAttribute → key ∉ params.keys →
    q.attrs.get? key = some .empty
  reads : ∀ (today : Day) (name : String), isTimenow name = false →
    Text.sameName okAttribute name = false →
      (∀ key ∈ params.keys, Text.sameName key name = false) →
        ∀ a, q.get? today name = some a → a = .empty

section Days

theorem filter_dashed (d : Day) : d.dashed.toList.filter Char.isDigit = digits d := by
  have hpadded : ∀ width n, (Day.padded width n).toList.filter Char.isDigit =
      (Day.padded width n).toList := by
    intro width n
    rw [List.filter_eq_self]
    exact digits_padded width n
  simp [Day.dashed, digits, hpadded]

theorem parseDay_dashed (d : Day) : parseDay d.dashed = .ok d :=
  parseDay_eq_ok_iff.2 (filter_dashed d)

theorem undated_of_changed {q : Question} (h : Changed .empty q) : Undated q where
  unkept := by
    obtain ⟨changes, rfl⟩ := h
    intro key hkey
    obtain ⟨entry, hentry, rfl⟩ := List.mem_map.1 hkey
    exact dateless_reached .empty changes entry hentry
  reads today name hname := by
    have hget : q.get? today name = some (.text today.dashed) := if_pos hname
    refine ⟨?_, parseDay_dashed today⟩
    rw [Question.getText?, hget]
    rfl

end Days

section Params

variable {q : Question} {key : String}

theorem get?_set_of_ne {name : String} (hne : key ≠ name) (a : Answer) :
    (q.set name a).attrs.get? key = q.attrs.get? key := by
  unfold Question.set
  split
  · rfl
  · exact get?_insert_of_ne _ hne _

theorem get?_foldl_of_not_mem {entries : List (String × Answer)}
    (h : key ∉ entries.map Prod.fst) (q : Question) :
    (entries.foldl (fun q e => q.set e.1 e.2) q).attrs.get? key = q.attrs.get? key := by
  induction entries generalizing q with
  | nil => rfl
  | cons e rest ih =>
    rw [List.map_cons, List.mem_cons, not_or] at h
    rw [List.foldl_cons, ih h.2, get?_set_of_ne h.1]

theorem get?_reset (q : Question) (key : String) :
    q.reset.attrs.get? key = (q.attrs.get? key).map fun _ => .empty := by
  simp only [Question.reset, Dict.get?, Dict.map, List.find?_map, Option.map_map]
  rfl

theorem get?_takeParams {params : Dict Answer} (m : Memory) (hok : key ≠ okAttribute)
    (hkey : key ∉ params.keys) :
    (m.takeParams params).question.attrs.get? key =
      (m.question.attrs.get? key).map fun _ => .empty :=
  calc (m.takeParams params).question.attrs.get? key
      = (m.question.reset.set okAttribute (.text "Ok")).attrs.get? key :=
        get?_foldl_of_not_mem hkey _
    _ = m.question.reset.attrs.get? key := get?_set_of_ne hok _
    _ = (m.question.attrs.get? key).map fun _ => .empty := get?_reset _ key

theorem emptied_takeParams (m : Memory) (params : Dict Answer) :
    Emptied params (m.takeParams params).question where
  kept key hkey hok hparams := by
    obtain ⟨a, ha⟩ := mem_keys_iff.1 hkey
    rw [get?_takeParams m hok hparams] at ha ⊢
    obtain ⟨old, hold, -⟩ := Option.map_eq_some_iff.1 ha
    rw [hold, Option.map_some]
  reads today name hname hok hparams a ha := by
    rw [get_of_not_timenow _ today hname] at ha
    obtain ⟨key, hentry, hsame⟩ := mem_of_stored ha
    have hget := get?_eq_some_iff.2 hentry
    have hne : key ≠ okAttribute := by
      rintro rfl
      rw [hok] at hsame
      cases hsame
    have hnot : key ∉ params.keys := by
      intro hmem
      rw [hparams key hmem] at hsame
      cases hsame
    rw [get?_takeParams m hne hnot] at hget
    obtain ⟨old, -, rfl⟩ := Option.map_eq_some_iff.1 hget
    rfl

end Params

/-- Whatever is done to a question, in whatever order, and whatever the desk answers meanwhile. -/
theorem present_day_never_kept [Desk σ] (edits : List (Edit σ)) :
    Undated (run edits).question ∧
      ∀ (e : Setup) (params : Dict Answer) (stage : Stage σ),
        Undated (run (edits ++ [.perform e (.paramChange params) stage])).question ∧
          Emptied params (run (edits ++ [.perform e (.paramChange params) stage])).question := by
  refine ⟨undated_of_changed (changed_run edits), fun e params stage => ⟨?_, ?_⟩⟩
  · exact undated_of_changed (changed_run _)
  · rw [run, List.foldl_append]
    exact emptied_takeParams _ params

end Playback.Proofs.PresentDay
