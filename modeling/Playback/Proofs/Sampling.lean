import Mathlib.Algebra.GroupWithZero.Nat
import Playback.Proofs.Polling
import Playback.Screen.ColorWait
/-!
# Waiting for a color

A wait for a color is a poll whose rounds are samples of one pixel. It ends with the first sample
that is close enough in every channel and in all three together; a sample that fails is one that is
not. What has been sampled by the time the wait ends is told by the samples alone, unless an abort
cuts a pause.
-/

namespace Playback.Proofs.Sampling

open Effects Footprints Polling Traces

/-! ## Close colors -/

def difference (a b : UInt8) : Nat := ((a.toNat : Int) - b.toNat).natAbs

def totalDifference (a b : Color) : Nat :=
  difference a.red b.red + difference a.green b.green + difference a.blue b.blue

/-- Both bounds belong to the tolerance. -/
structure Close (t : ColorTolerance) (observed expected : Color) : Prop where
  red : difference observed.red expected.red ≤ t.perChannel
  green : difference observed.green expected.green ≤ t.perChannel
  blue : difference observed.blue expected.blue ≤ t.perChannel
  total : totalDifference observed expected ≤ t.total

section Colors

variable {t : ColorTolerance} {observed expected : Color}

theorem channelDistance_eq (a b : UInt8) :
    ColorTolerance.channelDistance a b = difference a b := by
  unfold ColorTolerance.channelDistance difference
  omega

/-- The differences of three channels never need more than 16 bits. -/
theorem totalDifference_lt (a b : Color) : totalDifference a b < UInt16.size := by
  have hchannel : ∀ x y : UInt8, difference x y ≤ 255 := by
    intro x y
    have hx := x.toNat_lt
    have hy := y.toNat_lt
    unfold difference
    omega
  have hred := hchannel a.red b.red
  have hgreen := hchannel a.green b.green
  have hblue := hchannel a.blue b.blue
  unfold totalDifference UInt16.size
  omega

/-- Though the comparison stops at the first channel that is too far off, it is about all of them.
-/
theorem matchesFrom_iff {spent : Nat} {pairs : List (UInt8 × UInt8)} :
    t.matchesFrom spent pairs = true ↔
      (∀ pair ∈ pairs, difference pair.1 pair.2 ≤ t.perChannel) ∧
        spent + (pairs.map fun pair => difference pair.1 pair.2).sum ≤ t.total := by
  induction pairs generalizing spent with
  | nil => simp [ColorTolerance.matchesFrom]
  | cons pair rest ih =>
    obtain ⟨a, b⟩ := pair
    rw [ColorTolerance.matchesFrom, channelDistance_eq]
    by_cases hfar : t.perChannel < difference a b
    · rw [if_pos hfar]
      refine iff_of_false Bool.false_ne_true fun h => ?_
      exact Nat.not_le.2 hfar (h.1 (a, b) List.mem_cons_self)
    · rw [if_neg hfar, ih, List.forall_mem_cons, List.map_cons, List.sum_cons, Nat.add_assoc]
      simp only [Nat.not_lt.1 hfar, true_and]

theorem accepts_iff : t.accepts observed expected = true ↔ Close t observed expected := by
  rw [ColorTolerance.accepts, matchesFrom_iff]
  simp only [Color.channels, List.zip_cons_cons, List.zip_nil_right, List.forall_mem_cons,
    List.map_cons, List.map_nil, List.sum_cons, List.sum_nil]
  constructor
  · rintro ⟨⟨hred, hgreen, hblue, -⟩, htotal⟩
    exact ⟨hred, hgreen, hblue, by unfold totalDifference; omega⟩
  · rintro ⟨hred, hgreen, hblue, htotal⟩
    exact ⟨⟨hred, hgreen, hblue, List.forall_mem_nil _⟩, by unfold totalDifference at htotal; omega⟩

end Colors

/-! ## Samples -/

/-- The sample shows the color. -/
def Shows (w : ColorWait) (expected : Color) (result : Except Fault Color) : Prop :=
  ∃ observed, result = .ok observed ∧ Close w.tolerance observed expected

/-- What a sample decides of a wait, if anything. -/
def verdict (w : ColorWait) (expected : Color) : Except Fault Color → Option (Except Fault Bool)
  | .ok observed => if w.tolerance.accepts observed expected then some (.ok true) else none
  | .error _ => none

def Sampled (point : Point) (steps : List Step) (result : Except Fault Color) (_ : Bool) : Prop :=
  ∃ sample, steps = [sample] ∧ sample.entry = .called (.pixel point) result

section Samples

variable {w : ColorWait} {point : Point} {expected : Color} {result : Except Fault Color}

theorem verdict_eq_some_iff {r : Except Fault Bool} :
    verdict w expected result = some r ↔ Shows w expected result ∧ r = .ok true := by
  cases result with
  | ok observed =>
    simp only [verdict, Shows, Except.ok.injEq, exists_eq_left', ← accepts_iff]
    split
    · rename_i haccepts
      simp [haccepts, eq_comm]
    · rename_i hrefuses
      simp [hrefuses]
  | error f => simp [verdict, Shows]

theorem verdict_eq_none_iff : verdict w expected result = none ↔ ¬Shows w expected result := by
  rw [Option.eq_none_iff_forall_not_mem]
  constructor
  · intro h hshows
    exact h (.ok true) (verdict_eq_some_iff.2 ⟨hshows, rfl⟩)
  · intro h r hr
    exact h (verdict_eq_some_iff.1 hr).1

variable {σ : Type} [Desk σ]

theorem pixel_traced (s : Stage σ) :
    ∃ steps, Traced s steps (Stage.call (.pixel point) s).2 ∧
      Sampled point steps (Stage.call (.pixel point) s).1
        (Stage.call (.pixel point) s).2.aborted := by
  rcases h : Stage.call (.pixel point) s with ⟨r, t⟩
  obtain ⟨rfl, hentry⟩ := made_traced rfl h
  exact ⟨_, traced_call _ s, _, rfl, hentry⟩

theorem sample_apply (s : Stage σ) :
    w.sample point expected s =
      (.ok (verdict w expected (Stage.call (.pixel point) s).1).isSome,
        (Stage.call (.pixel point) s).2) := by
  have hattempt : (Stage.call (.pixel point)).attempt s =
      (.ok (Stage.call (.pixel point) s).1, (Stage.call (.pixel point) s).2) := rfl
  rw [ColorWait.sample, Action.bind_of_ok hattempt]
  cases hresult : (Stage.call (.pixel point) s).1 with
  | ok observed =>
    simp only [verdict]
    split
    · rename_i haccepts
      rw [haccepts]
      rfl
    · rename_i hrefuses
      rw [Bool.eq_false_iff.2 hrefuses]
      rfl
  | error f => rfl

theorem sampling_eq_poll (more : Nat) :
    (w.sampling point expected more : Action (Stage σ) Bool) =
      poll (Stage.call (.pixel point)) (verdict w expected) w.interval false more := by
  -- a sample that decides says that the color was shown
  have hdecided : ∀ result r, verdict w expected result = some r → r = .ok true :=
    fun result r hr => (verdict_eq_some_iff.1 hr).2
  induction more with
  | zero =>
    funext s
    rw [ColorWait.sampling, sample_apply, poll]
    cases hr : verdict w expected (Stage.call (.pixel point) s).1 with
    | none => rfl
    | some r =>
      rw [hdecided _ r hr]
      rfl
  | succ more ih =>
    funext s
    show Action.bind (w.sample point expected) _ s = _
    rw [Action.bind, sample_apply, poll, ← ih]
    cases hr : verdict w expected (Stage.call (.pixel point) s).1 with
    | none => rfl
    | some r =>
      rw [hdecided _ r hr]
      rfl

end Samples

/-! ## Waits -/

/-- What comes of a wait, by its last sample and the number of all. -/
structure Concludes (w : ColorWait) (expected : Color) (p : Rounds (Except Fault Color))
    (out : Except Fault Bool) (aborted : Bool) : Prop where
  true_iff : out = .ok true ↔ Shows w expected p.last.result
  false_iff : out = .ok false ↔
    ¬Shows w expected p.last.result ∧ p.all.length = max 1 w.attempts
  /-- A wait that stops short of both is one of which an abort cut a pause. -/
  failed_iff : (∃ f, out = .error f) ↔
    ¬Shows w expected p.last.result ∧ p.all.length < max 1 w.attempts
  failed : ∀ f, out = .error f → f.isCancelled = true ∧ aborted = true ∧
    CutPause w.interval f p.last.aborted p.cut
  unpaused : ∀ b, out = .ok b → p.cut = []

/-- What a wait is like if it is known what each sample would be. Without an abort it is told by the
first samples, as many as are allowed. -/
structure Told (w : ColorWait) (expected : Color) (seen : Nat → Except Fault Color) (samples : Nat)
    (out : Except Fault Bool) : Prop where
  true_iff : out = .ok true ↔ ∃ k < max 1 w.attempts, Shows w expected (seen k)
  decided : out = .ok true ∨ out = .ok false
  first : ∀ k < max 1 w.attempts, Shows w expected (seen k) →
    (∀ j < k, ¬Shows w expected (seen j)) → samples = k + 1
  all : (∀ k < max 1 w.attempts, ¬Shows w expected (seen k)) → samples = max 1 w.attempts

/-- What a wait is like: its samples and pauses, and what comes of it. -/
structure Awaits (w : ColorWait) (point : Point) (expected : Color)
    (p : Rounds (Except Fault Color)) (out : Except Fault Bool) (aborted : Bool) : Prop
    extends Concludes w expected p out aborted where
  sampled : ∀ a ∈ p.all, Sampled point a.steps a.result a.aborted
  within : p.all.length ≤ max 1 w.attempts
  /-- Only behind a miss before any abort there is another sample, with one pause between the two.
  -/
  earlier : ∀ e ∈ p.earlier, ¬Shows w expected e.1.result ∧ e.1.aborted = false ∧
    e.2.entry = .called (.wait w.interval) (.ok ())
  told : ∀ seen, Foreseen seen p → aborted = false → Told w expected seen p.all.length out

section Waits

variable {w : ColorWait} {point : Point} {expected : Color} {p : Rounds (Except Fault Color)}
variable {out : Except Fault Bool} {aborted : Bool}

theorem concludes_shown (hshows : Shows w expected p.last.result) (hcut : p.cut = []) :
    Concludes w expected p (.ok true) aborted where
  true_iff := iff_of_true rfl hshows
  false_iff := iff_of_false nofun fun h => h.1 hshows
  failed_iff := iff_of_false nofun fun h => h.1 hshows
  failed := nofun
  unpaused _ _ := hcut

theorem concludes_exhausted (hmiss : ¬Shows w expected p.last.result)
    (hlength : p.all.length = max 1 w.attempts) (hcut : p.cut = []) :
    Concludes w expected p (.ok false) aborted where
  true_iff := iff_of_false nofun hmiss
  false_iff := iff_of_true rfl ⟨hmiss, hlength⟩
  failed_iff := iff_of_false nofun fun h => Nat.ne_of_lt h.2 hlength
  failed := nofun
  unpaused _ _ := hcut

theorem concludes_cut {f : Fault} (hmiss : ¬Shows w expected p.last.result)
    (hlength : p.all.length < max 1 w.attempts) (haborted : aborted = true)
    (hf : f.isCancelled = true) (hcut : CutPause w.interval f p.last.aborted p.cut) :
    Concludes w expected p (.error f) aborted where
  true_iff := iff_of_false nofun hmiss
  false_iff := iff_of_false nofun fun h => Nat.ne_of_lt hlength h.2
  failed_iff := iff_of_true ⟨f, rfl⟩ ⟨hmiss, hlength⟩
  failed := by
    rintro _ ⟨⟩
    exact ⟨hf, haborted, hcut⟩
  unpaused := nofun

theorem told_of_settles {seen : Nat → Except Fault Color} {samples : Nat}
    (h : Settles (verdict w expected) false (max 1 w.attempts) seen false samples out) :
    Told w expected seen samples out := by
  cases h with
  | @decided k r hk hr hbefore =>
    obtain ⟨hshows, rfl⟩ := verdict_eq_some_iff.1 hr
    have hmisses : ∀ j < k, ¬Shows w expected (seen j) := fun j hj =>
      verdict_eq_none_iff.1 (hbefore j hj)
    refine ⟨iff_of_true rfl ⟨k, hk, hshows⟩, .inl rfl, fun i _ hi hfirst => ?_,
      fun hnone => absurd hshows (hnone k hk)⟩
    rcases Nat.lt_trichotomy i k with hlt | rfl | hlt
    · exact absurd hi (hmisses i hlt)
    · rfl
    · exact absurd hshows (hfirst k hlt)
  | exhausted hnone =>
    have hmisses : ∀ k < max 1 w.attempts, ¬Shows w expected (seen k) := fun k hk =>
      verdict_eq_none_iff.1 (hnone k hk)
    refine ⟨iff_of_false nofun ?_, .inr rfl, fun k hk hshows => absurd hshows (hmisses k hk),
      fun _ => rfl⟩
    rintro ⟨k, hk, hshows⟩
    exact hmisses k hk hshows
  | cut _ _ _ haborted => cases haborted

theorem awaits_of_polls
    (h : Polls (Sampled point) (verdict w expected) w.interval false (max 1 w.attempts) p out
      aborted) : Awaits w point expected p out aborted := by
  obtain ⟨hle, hends⟩ := h.ending
  have hconcludes : Concludes w expected p out aborted := by
    rcases hends with
      ⟨hr, hcut⟩ | ⟨hr, hlength, rfl, hcut⟩ | ⟨hr, hlength, haborted, f, rfl, hf, hcut⟩
    · obtain ⟨hshows, rfl⟩ := verdict_eq_some_iff.1 hr
      exact concludes_shown hshows hcut
    · exact concludes_exhausted (verdict_eq_none_iff.1 hr) hlength hcut
    · exact concludes_cut (verdict_eq_none_iff.1 hr) hlength haborted hf hcut
  refine ⟨hconcludes, h.made, hle, fun e he => ?_, fun seen hseen hrunning => ?_⟩
  · obtain ⟨hnone, hrest⟩ := h.earlier e he
    exact ⟨verdict_eq_none_iff.1 hnone, hrest⟩
  · have hsettles := h.settles hseen
    rw [hrunning] at hsettles
    exact told_of_settles hsettles

/-- Waiting for a color, on any desk and from any stage. -/
theorem wait_awaits {σ : Type} [Desk σ] (w : ColorWait) (point : Point) (expected : Color)
    (s : Stage σ) :
    ∃ p, Traced s p.steps (w.wait point expected s).2 ∧
      Adds s (w.wait point expected s).2 (p.steps.map Step.entry) ∧
      Awaits w point expected p (w.wait point expected s).1
        (w.wait point expected s).2.aborted := by
  rcases hrun : w.wait point expected s with ⟨out, t⟩
  rw [ColorWait.wait, sampling_eq_poll] at hrun
  obtain ⟨p, htraced, hpolls⟩ := poll_traced pixel_traced _ hrun
  have hlimit : w.attempts - 1 + 1 = max 1 w.attempts := by omega
  rw [hlimit] at hpolls
  exact ⟨p, htraced, htraced.adds, awaits_of_polls hpolls⟩

end Waits

end Playback.Proofs.Sampling
