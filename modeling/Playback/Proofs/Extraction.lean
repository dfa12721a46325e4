import Playback.Proofs.Names
import Playback.Proofs.Polling
import Playback.Screen.TextReader
/-!
# Reading text

A reading is a poll whose rounds are attempts: a capture, the pictures that are kept of it, and a
recognition. The first attempt that brings a text ends it with that text, and an attempt that is
cancelled ends it with the cancellation. Everything else that may go wrong in an attempt is made up
for by the next one, and by the empty text where there is none.
-/

namespace Playback.Proofs.Extraction

open Effects Footprints Names Polling Traces

/-! ## Attempts -/

/-- The attempt brought a text, which is this one without the blanks around it. -/
def Yields (result : Except Fault String) (text : String) : Prop :=
  ∃ raw, result = .ok raw ∧ Text.blank raw = false ∧ text = Text.trim raw

/-- Nothing came of the attempt: blanks only, or a fault that is no cancellation. -/
def Futile (result : Except Fault String) : Prop :=
  (∃ raw, result = .ok raw ∧ Text.blank raw = true) ∨
    ∃ f, result = .error f ∧ f.isCancelled = false

def CancelledBy (result : Except Fault String) (f : Fault) : Prop :=
  result = .error f ∧ f.isCancelled = true

/-- What an attempt decides of a reading, if anything. -/
def verdict : Except Fault String → Option (Except Fault String)
  | .ok raw => if Text.blank raw then none else some (.ok (Text.trim raw))
  | .error f => if f.isCancelled then some (.error f) else none

def keptEntries (r : TextReader) (label : ReadLabel) (stage : String) (picture : Image) :
    List Entry :=
  match r.captureDir, TextReader.captureFile? label with
  | some dir, some file =>
    [.called (.keep (Path.join (Path.join dir stage) label.app) file picture) (.ok ())]
  | _, _ => []

/-- Both pictures of a capture are kept. -/
def Keeps (r : TextReader) (label : ReadLabel) (raw : Image) (kept : List Step) : Prop :=
  kept.map Step.entry =
    keptEntries r label "read" raw ++ keptEntries r label "treated" raw.sharpened

/-- The calls of an attempt, what came of it, and whether an abort has been requested by its end. -/
inductive Tried (r : TextReader) (region : Region) (label : ReadLabel) :
    List Step → Except Fault String → Bool → Prop
  | empty {aborted : Bool} (hregion : region.isEmpty = true) :
    Tried r region label [] (.error (.platform "empty capture region")) aborted
  | uncaptured {capture : Step} {f : Fault} {aborted : Bool} (hregion : region.isEmpty = false)
    (hcapture : capture.entry = .called (.screenshot region) (.error f)) :
    Tried r region label [capture] (.error f) aborted
  | recognized {capture recognition : Step} {kept : List Step} {raw : Image}
    {result : Except Fault String} {aborted : Bool} (hregion : region.isEmpty = false)
    (hcapture : capture.entry = .called (.screenshot region) (.ok raw))
    (hkept : Keeps r label raw kept)
    (hrecognition : recognition.entry = .called (.recognize raw.sharpened r.mode) result) :
    Tried r region label (capture :: kept ++ [recognition]) result aborted
  | cut {capture : Step} {kept : List Step} {raw : Image} (hregion : region.isEmpty = false)
    (hcapture : capture.entry = .called (.screenshot region) (.ok raw))
    (hkept : Keeps r label raw kept) :
    Tried r region label (capture :: kept) (.error (.cancelled "abort requested")) true

section Results

variable {result : Except Fault String} {text : String} {f : Fault}

theorem verdict_eq_none_iff : verdict result = none ↔ Futile result := by
  cases result with
  | ok raw => simp [verdict, Futile]
  | error f => simp [verdict, Futile]

theorem verdict_eq_text_iff : verdict result = some (.ok text) ↔ Yields result text := by
  cases result with
  | ok raw =>
    cases hblank : Text.blank raw with
    | true => simp [verdict, Yields, hblank]
    | false =>
      simp only [verdict, Yields, hblank, Bool.false_eq_true, if_false, Option.some.injEq,
        Except.ok.injEq, exists_eq_left', true_and]
      exact eq_comm
  | error f => simp [verdict, Yields]

theorem verdict_eq_error_iff : verdict result = some (.error f) ↔ CancelledBy result f := by
  cases result with
  | ok raw => simp [verdict, CancelledBy]
  | error g =>
    simp only [verdict, CancelledBy, Except.error.injEq]
    constructor
    · intro h
      split at h
      · rename_i hg
        cases h
        exact ⟨rfl, hg⟩
      · cases h
    · rintro ⟨rfl, hg⟩
      rw [if_pos hg]

theorem Yields.ne_empty (h : Yields result text) : text ≠ "" := by
  obtain ⟨raw, -, hblank, rfl⟩ := h
  intro hempty
  rw [← isEmpty_trim, hempty] at hblank
  cases hblank

theorem Yields.trim_eq (h : Yields result text) : Text.trim text = text := by
  obtain ⟨raw, -, -, rfl⟩ := h
  exact trim_trim raw

end Results

section Attempts

variable {σ : Type} [Desk σ] {r : TextReader} {region : Region} {label : ReadLabel}

theorem keep_traced {stage : String} {picture : Image} {s t : Stage σ} {out : Except Fault Unit}
    (h : r.keep stage label picture s = (out, t)) :
    out = .ok () ∧ ∃ steps, Traced s steps t ∧
      steps.map Step.entry = keptEntries r label stage picture := by
  have hnone : (pure () : Action (Stage σ) Unit) s = (out, t) →
      out = .ok () ∧ ∃ steps, Traced s steps t ∧ steps.map Step.entry = [] := by
    rintro ⟨⟩
    exact ⟨rfl, [], .done s, rfl⟩
  unfold TextReader.keep at h
  unfold keptEntries
  cases hdir : r.captureDir with
  | none =>
    rw [hdir] at h
    exact hnone h
  | some dir =>
    cases hfile : TextReader.captureFile? label with
    | none =>
      rw [hdir, hfile] at h
      exact hnone h
    | some file =>
      rw [hdir, hfile] at h
      obtain ⟨rfl, hentry⟩ := made_traced rfl h
      have hout : out = .ok () := (congrArg Prod.fst h).symm
      subst hout
      exact ⟨rfl, _, traced_call _ s, by rw [List.map_singleton, hentry]⟩

theorem recognize_traced {capture : Step} {kept : List Step} {raw : Image} {s t u : Stage σ}
    {out : Except Fault String} (hregion : region.isEmpty = false)
    (hcapture : capture.entry = .called (.screenshot region) (.ok raw))
    (hkept : Keeps r label raw kept) (htraced : Traced s (capture :: kept) t)
    (h : Stage.call (.recognize raw.sharpened r.mode) t = (out, u)) :
    ∃ steps, Traced s steps u ∧ Tried r region label steps out u.aborted := by
  rcases call_traced h with ⟨rfl, rfl, -, haborted⟩ | ⟨rfl, hentry⟩
  · refine ⟨_, htraced, ?_⟩
    rw [haborted]
    exact .cut hregion hcapture hkept
  · exact ⟨_, htraced.trans (traced_call _ t), .recognized hregion hcapture hkept hentry⟩

theorem readOnce_traced (s : Stage σ) :
    ∃ steps, Traced s steps (r.readOnce region label s).2 ∧
      Tried r region label steps (r.readOnce region label s).1
        (r.readOnce region label s).2.aborted := by
  rcases h : r.readOnce region label s with ⟨out, t⟩
  unfold TextReader.readOnce at h
  cases hregion : region.isEmpty with
  | true =>
    rw [hregion, if_pos rfl] at h
    cases h
    exact ⟨[], .done _, .empty hregion⟩
  | false =>
    rw [hregion, if_neg Bool.false_ne_true] at h
    rcases Action.bind_cases h with ⟨f, hcapture, rfl⟩ | ⟨raw, u, hcapture, h⟩
    · obtain ⟨rfl, hentry⟩ := made_traced rfl hcapture
      exact ⟨_, traced_call _ s, .uncaptured hregion hentry⟩
    · obtain ⟨rfl, hentry⟩ := made_traced rfl hcapture
      -- neither picture fails to be kept, so the recognition is what is left
      rcases Action.bind_cases h with ⟨f, hkeep, rfl⟩ | ⟨_, v, hkeep, h⟩
      · cases (keep_traced hkeep).1
      rcases Action.bind_cases h with ⟨f, hkeep', rfl⟩ | ⟨_, w, hkeep', h⟩
      · cases (keep_traced hkeep').1
      obtain ⟨-, read, hread, hreadEntries⟩ := keep_traced hkeep
      obtain ⟨-, treated, htreated, htreatedEntries⟩ := keep_traced hkeep'
      have hkept : Keeps r label raw (read ++ treated) := by
        rw [Keeps, List.map_append, hreadEntries, htreatedEntries]
      exact recognize_traced hregion hentry hkept (.call _ (hread.trans htreated)) h

/-! ## Readings -/

theorem attemptRead_apply (s : Stage σ) :
    r.attemptRead region label s =
      match verdict (r.readOnce region label s).1 with
      | some (.ok text) => (.ok (some text), (r.readOnce region label s).2)
      | some (.error f) => (.error f, (r.readOnce region label s).2)
      | none => (.ok none, (r.readOnce region label s).2) := by
  have hattempt : (r.readOnce region label).attempt s =
      (.ok (r.readOnce region label s).1, (r.readOnce region label s).2) := rfl
  rw [TextReader.attemptRead, Action.bind_of_ok hattempt]
  cases hresult : (r.readOnce region label s).1 with
  | ok raw =>
    simp only [verdict]
    split <;> rfl
  | error f =>
    simp only [verdict]
    split <;> rfl

/-- Reading is a poll of attempts. -/
theorem reading_eq_poll (more : Nat) :
    (r.reading region label more : Action (Stage σ) String) =
      poll (r.readOnce region label) verdict r.retryDelay "" more := by
  induction more with
  | zero =>
    funext s
    show Action.bind (r.attemptRead region label) (fun text => pure (text.getD "")) s = _
    rw [Action.bind, attemptRead_apply, poll]
    rcases verdict (r.readOnce region label s).1 with _ | _ | _ <;> rfl
  | succ more ih =>
    funext s
    show Action.bind (r.attemptRead region label) _ s = _
    rw [Action.bind, attemptRead_apply, poll, ← ih]
    rcases verdict (r.readOnce region label s).1 with _ | _ | _ <;> rfl

end Attempts

/-- What comes of a reading, by its last attempt and the number of all. -/
structure Concludes (r : TextReader) (p : Rounds (Except Fault String))
    (out : Except Fault String) (aborted : Bool) : Prop where
  text_iff : ∀ text, text ≠ "" → (out = .ok text ↔ Yields p.last.result text)
  nothing_iff : out = .ok "" ↔ Futile p.last.result ∧ p.all.length = max 1 r.attempts
  cancelled : ∀ f, CancelledBy p.last.result f → out = .error f ∧ p.cut = []
  failed : ∀ f, out = .error f → f.isCancelled = true ∧
    (CancelledBy p.last.result f ∨ aborted = true ∧ Futile p.last.result ∧
      p.all.length < max 1 r.attempts ∧ CutPause r.retryDelay f p.last.aborted p.cut)
  unpaused : ∀ text, out = .ok text → p.cut = []
  trimmed : ∀ text, out = .ok text → Text.trim text = text

/-- What a reading is like: its attempts and pauses, and what comes of it. -/
structure Extracts (r : TextReader) (region : Region) (label : ReadLabel)
    (p : Rounds (Except Fault String)) (out : Except Fault String) (aborted : Bool) : Prop
    extends Concludes r p out aborted where
  tried : ∀ a ∈ p.all, Tried r region label a.steps a.result a.aborted
  within : p.all.length ≤ max 1 r.attempts
  /-- Only behind a futile attempt there is another one, with one pause between the two. -/
  earlier : ∀ e ∈ p.earlier, Futile e.1.result ∧ e.2.entry = .called (.wait r.retryDelay) (.ok ())
  uncaptured : region.isEmpty = true → ∀ step ∈ p.steps, step.Asks (.wait r.retryDelay)
  settles : ∀ seen, Foreseen seen p →
    Settles verdict "" (max 1 r.attempts) seen aborted p.all.length out

section Readings

variable {r : TextReader} {region : Region} {label : ReadLabel}
variable {p : Rounds (Except Fault String)} {out : Except Fault String} {aborted : Bool}

theorem Tried.steps_eq_nil {steps : List Step} (h : Tried r region label steps out aborted)
    (hregion : region.isEmpty = true) : steps = [] := by
  cases h with
  | empty => rfl
  | uncaptured hfull | recognized hfull | cut hfull =>
    rw [hregion] at hfull
    cases hfull

theorem Futile.not_yields {result : Except Fault String} {text : String} (h : Futile result) :
    ¬Yields result text := by
  rw [← verdict_eq_text_iff, verdict_eq_none_iff.2 h]
  exact nofun

theorem Futile.not_cancelledBy {result : Except Fault String} {f : Fault} (h : Futile result) :
    ¬CancelledBy result f := by
  rw [← verdict_eq_error_iff, verdict_eq_none_iff.2 h]
  exact nofun

theorem concludes_decided (hr : verdict p.last.result = some out) (hcut : p.cut = []) :
    Concludes r p out aborted where
  text_iff text _ := by
    rw [← verdict_eq_text_iff, hr, Option.some.injEq]
  nothing_iff := by
    constructor
    · rintro rfl
      exact absurd rfl (verdict_eq_text_iff.1 hr).ne_empty
    · rintro ⟨hfutile, -⟩
      rw [verdict_eq_none_iff.2 hfutile] at hr
      cases hr
  cancelled f hf := by
    rw [verdict_eq_error_iff.2 hf] at hr
    exact ⟨(Option.some.inj hr).symm, hcut⟩
  failed := by
    rintro f rfl
    have hlast : CancelledBy p.last.result f := verdict_eq_error_iff.1 hr
    exact ⟨hlast.2, .inl hlast⟩
  unpaused _ _ := hcut
  trimmed := by
    rintro text rfl
    exact (verdict_eq_text_iff.1 hr).trim_eq

theorem concludes_exhausted (hfutile : Futile p.last.result)
    (hlength : p.all.length = max 1 r.attempts) (hcut : p.cut = []) :
    Concludes r p (.ok "") aborted where
  text_iff text htext := by
    refine iff_of_false ?_ hfutile.not_yields
    rintro ⟨⟩
    exact htext rfl
  nothing_iff := iff_of_true rfl ⟨hfutile, hlength⟩
  cancelled f hf := absurd hf hfutile.not_cancelledBy
  failed := nofun
  unpaused _ _ := hcut
  trimmed := by
    rintro _ ⟨⟩
    rfl

theorem concludes_cut {f : Fault} (hfutile : Futile p.last.result)
    (hlength : p.all.length < max 1 r.attempts) (haborted : aborted = true)
    (hf : f.isCancelled = true) (hcut : CutPause r.retryDelay f p.last.aborted p.cut) :
    Concludes r p (.error f) aborted where
  text_iff text _ := iff_of_false nofun hfutile.not_yields
  nothing_iff := by
    refine iff_of_false nofun ?_
    rintro ⟨-, hall⟩
    omega
  cancelled f hf := absurd hf hfutile.not_cancelledBy
  failed := by
    rintro _ ⟨⟩
    exact ⟨hf, .inr ⟨haborted, hfutile, hlength, hcut⟩⟩
  unpaused := nofun
  trimmed := nofun

theorem extracts_of_polls
    (h : Polls (Tried r region label) verdict r.retryDelay "" (max 1 r.attempts) p out aborted) :
    Extracts r region label p out aborted := by
  obtain ⟨hle, hends⟩ := h.ending
  have hconcludes : Concludes r p out aborted := by
    rcases hends with
      ⟨hr, hcut⟩ | ⟨hr, hlength, rfl, hcut⟩ | ⟨hr, hlength, haborted, f, rfl, hf, hcut⟩
    · exact concludes_decided hr hcut
    · exact concludes_exhausted (verdict_eq_none_iff.1 hr) hlength hcut
    · exact concludes_cut (verdict_eq_none_iff.1 hr) hlength haborted hf hcut
  refine ⟨hconcludes, h.made, hle, fun e he => ?_, fun hregion step hstep => ?_,
    fun seen hseen => h.settles hseen⟩
  · obtain ⟨hnone, -, hpause⟩ := h.earlier e he
    exact ⟨verdict_eq_none_iff.1 hnone, hpause⟩
  · rcases h.step_cases hstep with ⟨a, ha, hmem⟩ | hpause
    · rw [(h.made a ha).steps_eq_nil hregion] at hmem
      cases hmem
    · exact hpause

/-- Reading a region, on any desk and from any stage. -/
theorem read_extracts {σ : Type} [Desk σ] (r : TextReader) (region : Region) (label : ReadLabel)
    (s : Stage σ) :
    ∃ p, Traced s p.steps (r.read region label s).2 ∧
      Adds s (r.read region label s).2 (p.steps.map Step.entry) ∧
      Extracts r region label p (r.read region label s).1 (r.read region label s).2.aborted := by
  rcases hrun : r.read region label s with ⟨out, t⟩
  rw [TextReader.read, reading_eq_poll] at hrun
  obtain ⟨p, htraced, hpolls⟩ := poll_traced readOnce_traced _ hrun
  have hlimit : r.attempts - 1 + 1 = max 1 r.attempts := by omega
  rw [hlimit] at hpolls
  exact ⟨p, htraced, htraced.adds, extracts_of_polls hpolls⟩

end Readings

end Playback.Proofs.Extraction
