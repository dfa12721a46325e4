import Playback.Proofs.Effects
/-!
# Footprints of actions

An action on the stage never takes an entry out of the journal. Its footprint bounds the entries it
adds and tells where its failures come from: they are its own, or a call reported them.
-/

namespace Playback.Proofs.Footprints

open Effects

variable {σ τ ρ α β : Type}

class Journaled (τ : Type) where
  journal : τ → List Entry

export Journaled (journal)

instance : Journaled (Stage σ) := ⟨Stage.journal⟩

instance [Journaled τ] : Journaled (ρ × τ) := ⟨fun s => journal s.2⟩

variable [Journaled τ]

/-- `t` has the journal of `s` with `news` after it, the earliest of them first. -/
def Adds (s t : τ) (news : List Entry) : Prop := journal t = news.reverse ++ journal s

theorem adds_of_journal_eq {s t : τ} (h : journal t = journal s) : Adds s t [] := by
  rw [Adds, h, List.reverse_nil, List.nil_append]

theorem adds_cons {s t : τ} {entry : Entry} (h : journal t = entry :: journal s) :
    Adds s t [entry] := by
  rw [Adds, h, List.reverse_singleton, List.singleton_append]

theorem Adds.trans {s t u : τ} {old new : List Entry} (hst : Adds s t old) (htu : Adds t u new) :
    Adds s u (old ++ new) := by
  unfold Adds at *
  rw [htu, hst, List.reverse_append, List.append_assoc]

theorem Adds.unique {s t : τ} {old new : List Entry} (hold : Adds s t old) (hnew : Adds s t new) :
    old = new := by
  unfold Adds at *
  rw [hold] at hnew
  exact List.reverse_inj.1 (List.append_cancel_right hnew)

def Reports (f : Fault) : Entry → Prop
  | .called _ outcome => outcome = .error f
  | _ => False

def Within (kind : Call → Bool) : Entry → Prop
  | .called c _ => kind c = true
  | .shown .. => True
  | .noted .. => False

@[elab_as_elim]
theorem Within.cases {kind : Call → Bool} {motive : Entry → Prop} {entry : Entry}
    (h : Within kind entry) (hcalled : ∀ c outcome, kind c = true → motive (.called c outcome))
    (hshown : ∀ m span, motive (.shown m span)) : motive entry := by
  cases entry with
  | called c outcome => exact hcalled c outcome h
  | shown m span => exact hshown m span
  | noted app n => exact False.elim h

theorem filterMap_of_within {β : Type} {kind : Call → Bool} {select : Entry → Option β}
    {news : List Entry}
    (hcalled : ∀ c outcome, kind c = true → select (.called c outcome) = none)
    (hshown : ∀ m span, select (.shown m span) = none) (h : ∀ entry ∈ news, Within kind entry) :
    news.filterMap select = [] :=
  List.filterMap_eq_nil_iff.2 fun entry hentry => (h entry hentry).cases hcalled hshown

/-- A failure is an own one, or a call among the entries reported it. -/
def Blamed (own : Fault → Prop) (r : Except Fault α) (news : List Entry) : Prop :=
  ∀ f, r = .error f → own f ∨ ∃ entry ∈ news, Reports f entry

/-- How a step leads from `s` to `t` with the outcome `r`: by adding `news`, all of them calls of
the kind, which are to blame for a failure that is not an own one. -/
structure Trail (kind : Call → Bool) (own : Fault → Prop) (s : τ) (r : Except Fault α) (t : τ)
    (news : List Entry) : Prop where
  adds : Adds s t news
  within : ∀ entry ∈ news, Within kind entry
  blame : Blamed own r news

def Footprint (kind : Call → Bool) (own : Fault → Prop) (x : Action τ α) : Prop :=
  ∀ s, ∃ news, Trail kind own s (x s).1 (x s).2 news

variable {kind : Call → Bool} {own : Fault → Prop} {x : Action τ α}

def Trails (kind : Call → Bool) (own : Fault → Prop) : Effect σ := fun s o t =>
  ∃ news, Adds s t news ∧ (∀ entry ∈ news, Within kind entry) ∧
    ∀ f, o = some f → own f ∨ ∃ entry ∈ news, Reports f entry

theorem footprint_of_obeys [Staged σ τ] (hτ : ∀ s : τ, journal s = (stageOf s).journal)
    (h : Obeys (Trails kind own) x) : Footprint kind own x := by
  intro s
  obtain ⟨news, hadds, hwithin, hblame⟩ := h s
  refine ⟨news, ?_, hwithin, fun f hf => hblame f (by rw [hf, faultOf])⟩
  rw [Adds, hτ, hτ]
  exact hadds

theorem trails_nil {s t : Stage σ} {o : Option Fault} (ht : t.journal = s.journal)
    (ho : ∀ f, o = some f → own f) : Trails kind own s o t :=
  ⟨[], adds_of_journal_eq ht, by simp, fun f hf => .inl (ho f hf)⟩

theorem composable_trails : Composable (Trails (σ := σ) kind own) where
  refl s := trails_nil rfl (by rintro f ⟨⟩)
  trans := by
    rintro s t u o ⟨old, hold, hwithin, -⟩ ⟨new, hnew, hwithin', hblame⟩
    refine ⟨old ++ new, hold.trans hnew, ?_, fun f hf => (hblame f hf).imp_right ?_⟩
    · intro entry hentry
      exact (List.mem_append.1 hentry).elim (hwithin entry) (hwithin' entry)
    · rintro ⟨entry, hentry, hreport⟩
      exact ⟨entry, List.mem_append_right _ hentry, hreport⟩

theorem Trails.forget {s t : Stage σ} {o : Option Fault} (h : Trails kind own s o t) :
    Trails kind own s none t := by
  obtain ⟨news, hadds, hwithin, -⟩ := h
  exact ⟨news, hadds, hwithin, by rintro f ⟨⟩⟩

/-- What is done to the state afterwards does not matter, as long as the journal is left alone. -/
theorem Trails.keep {s t u : Stage σ} {o : Option Fault} (h : Trails kind own s o t)
    (hu : u.journal = t.journal) : Trails kind own s o u := by
  obtain ⟨news, hadds, hrest⟩ := h
  exact ⟨news, Eq.trans hu hadds, hrest⟩

/-! ## The stage -/

theorem rivalMove_eq (s : Stage σ) (m : RivalMove) :
    ∃ lock rivals, s.rivalMove m = { s with lock, rivals } := by
  cases m with
  | take app =>
    simp only [Stage.rivalMove, Stage.rivalTakes]
    split
    · exact ⟨_, _, rfl⟩
    · exact ⟨_, s.rivals, rfl⟩
  | renew i =>
    simp only [Stage.rivalMove]
    split
    · exact ⟨_, s.rivals, rfl⟩
    · exact ⟨s.lock, s.rivals, rfl⟩
  | release i =>
    simp only [Stage.rivalMove]
    split
    · exact ⟨_, _, rfl⟩
    · exact ⟨s.lock, s.rivals, rfl⟩

theorem foldl_rivalMove_eq (ms : List RivalMove) (s : Stage σ) :
    ∃ lock rivals, ms.foldl Stage.rivalMove s = { s with lock, rivals } := by
  induction ms generalizing s with
  | nil => exact ⟨s.lock, s.rivals, rfl⟩
  | cons m ms ih =>
    obtain ⟨lock, rivals, hmove⟩ := rivalMove_eq s m
    obtain ⟨lock', rivals', hmoves⟩ := ih (s.rivalMove m)
    refine ⟨lock', rivals', ?_⟩
    rw [List.foldl_cons, hmoves, hmove]

theorem isCancelled_abortFault (c : Call) : c.abortFault.isCancelled = true := by
  cases c <;> rfl

theorem eq_cancelled {f : Fault} (h : f.isCancelled = true) : ∃ d, f = .cancelled d := by
  cases f <;> first | exact ⟨_, rfl⟩ | cases h

variable [Desk σ]

theorem afterCall_eq (s : Stage σ) (c : Call) :
    ∃ clock lock rivals, s.afterCall c =
      { s with
        clock, lock, rivals
        desk := (Desk.respond c s.desk).2
        aborted := s.aborted || (Desk.respond c s.desk).1.abort != .none
        journal := .called c (c.settle (Desk.respond c s.desk).1) :: s.journal } := by
  obtain ⟨lock, rivals, h⟩ := foldl_rivalMove_eq (Desk.respond c s.desk).1.rivals
    { s with
      desk := (Desk.respond c s.desk).2
      clock := s.clock + (Desk.respond c s.desk).1.elapsed + 1
      aborted := s.aborted || (Desk.respond c s.desk).1.abort != .none
      journal := .called c (c.settle (Desk.respond c s.desk).1) :: s.journal }
  exact ⟨_, lock, rivals, h⟩

theorem journal_afterCall (s : Stage σ) (c : Call) :
    (s.afterCall c).journal = .called c (c.settle (Desk.respond c s.desk).1) :: s.journal := by
  obtain ⟨clock, lock, rivals, h⟩ := afterCall_eq s c
  rw [h]

theorem call_cases (c : Call) (s : Stage σ) :
    (Stage.call c s = (.error c.abortFault, s) ∧ c.interruptible = true ∧ s.aborted = true) ∨
      ∃ outcome t, Stage.call c s = (outcome, t) ∧ Adds s t [.called c outcome] := by
  unfold Stage.call
  by_cases h : (c.interruptible && s.aborted) = true
  · rw [if_pos h]
    rw [Bool.and_eq_true] at h
    exact .inl ⟨rfl, h⟩
  · rw [if_neg h]
    exact .inr ⟨_, _, rfl, adds_cons (journal_afterCall s c)⟩

theorem call_made {c : Call} (hc : c.interruptible = false) (s : Stage σ) :
    ∃ outcome t, Stage.call c s = (outcome, t) ∧ Adds s t [.called c outcome] := by
  rcases call_cases c s with ⟨-, hinterruptible, -⟩ | hmade
  · rw [hc] at hinterruptible
    cases hinterruptible
  · exact hmade

def fallible : Call → Bool
  | .wait _ => false
  | .signal _ => false
  | .keep .. => false
  | .isOpen _ => false
  | _ => true

omit [Desk σ] in
theorem settle_error {c : Call} {r : Response c.Reply} {f : Fault} (h : c.settle r = .error f) :
    f = c.abortFault ∧ r.abort = .cutting ∨ fallible c = true ∧ r.outcome = .error f := by
  cases c with
  | wait span =>
    simp only [Call.settle] at h
    split at h
    · rename_i habort
      cases h
      exact .inl ⟨rfl, habort.2⟩
    · cases h
  | signal app => cases h
  | keep folder file picture => cases h
  | isOpen app =>
    simp only [Call.settle] at h
    split at h <;> cases h
  | _ =>
    simp only [Call.settle] at h
    split at h
    · rename_i habort
      cases h
      exact .inl ⟨rfl, habort.2⟩
    · exact .inr ⟨rfl, h⟩

theorem call_error {c : Call} {s t : Stage σ} {f : Fault} (h : Stage.call c s = (.error f, t)) :
    f.isCancelled = true ∧ t.aborted = true ∨
      fallible c = true ∧ (Desk.respond c s.desk).1.outcome = .error f ∧ t = s.afterCall c ∧
        Adds s t [.called c (.error f)] := by
  unfold Stage.call at h
  split at h
  · rename_i habort
    cases h
    rw [Bool.and_eq_true] at habort
    exact .inl ⟨isCancelled_abortFault c, habort.2⟩
  · rw [Prod.mk.injEq] at h
    obtain ⟨hsettle, rfl⟩ := h
    rcases settle_error hsettle with ⟨rfl, hcut⟩ | ⟨hfallible, hrefused⟩
    · left
      obtain ⟨clock, lock, rivals, hafter⟩ := afterCall_eq s c
      refine ⟨isCancelled_abortFault c, ?_⟩
      rw [hafter, hcut]
      exact Bool.or_true _
    · have hjournal := journal_afterCall s c
      rw [hsettle] at hjournal
      exact .inr ⟨hfallible, hrefused, rfl, adds_cons hjournal⟩

def Aborts : Effect σ := fun _ o t =>
  ∀ f, o = some f → f.isCancelled = true ∧ t.aborted = true

theorem waiting_aborts : Waiting (Aborts (σ := σ)) where
  refl _ := by rintro f ⟨⟩
  trans _ htu := htu
  running s := by
    unfold Stage.ensureRunning
    split
    · rename_i haborted
      rintro f ⟨⟩
      exact ⟨rfl, haborted⟩
    · rintro f ⟨⟩
  wait span := by
    intro s f hf
    rcases hcall : Stage.call (.wait span) s with ⟨r, t⟩
    rw [hcall] at hf
    cases r with
    | ok _ => cases hf
    | error g =>
      cases hf
      rcases call_error hcall with haborted | ⟨hfallible, -⟩
      · exact haborted
      · cases hfallible

/-- Faults that every interruptible action may raise. -/
def Cancels (own : Fault → Prop) : Prop := ∀ detail, own (.cancelled detail)

theorem Cancels.of_isCancelled (h : Cancels own) {f : Fault} (hf : f.isCancelled = true) :
    own f := by
  obtain ⟨d, rfl⟩ := eq_cancelled hf
  exact h d

theorem trails_call (hown : Cancels own) {c : Call} (hc : kind c = true) :
    Obeys (Trails kind own) (Stage.call c : Action (Stage σ) c.Reply) := by
  intro s
  rcases call_cases c s with ⟨h, -, -⟩ | ⟨outcome, t, h, hadds⟩
  · rw [h]
    refine trails_nil rfl ?_
    rintro f ⟨⟩
    exact hown.of_isCancelled (isCancelled_abortFault c)
  · rw [h]
    refine ⟨[.called c outcome], hadds, ?_, ?_⟩
    · intro entry hentry
      rw [List.mem_singleton.1 hentry]
      exact hc
    · rintro f hf
      refine .inr ⟨_, List.mem_singleton_self _, ?_⟩
      cases outcome with
      | ok reply => cases hf
      | error g =>
        cases hf
        rfl

theorem tries_call (hown : Cancels own) {c : Call} (hc : kind c = true) :
    Obeys (Lenient (Trails kind own)) (Stage.call c : Action (Stage σ) c.Reply) :=
  (trails_call hown hc).lenient Trails.forget

omit [Desk σ] in
theorem trails_ensureRunning (hown : Cancels own) :
    Obeys (Trails kind own) (Stage.ensureRunning : Action (Stage σ) Unit) := by
  intro s
  unfold Stage.ensureRunning
  split
  · exact trails_nil rfl (by rintro f ⟨⟩; exact hown _)
  · exact trails_nil rfl (by rintro f ⟨⟩)

theorem waiting_trails (hown : Cancels own) (hkind : ∀ span, kind (.wait span) = true) :
    Waiting (Trails (σ := σ) kind own) where
  toComposable := composable_trails
  running := trails_ensureRunning hown
  wait span := trails_call hown (hkind span)

omit [Desk σ] in
theorem trails_record (s : Stage σ) (m : Marker) :
    Trails kind own s none (s.record (.shown m markerSpan)) := by
  refine ⟨[.shown m markerSpan], adds_cons rfl, ?_, by rintro f ⟨⟩⟩
  intro entry hentry
  rw [List.mem_singleton.1 hentry]
  trivial

end Playback.Proofs.Footprints
