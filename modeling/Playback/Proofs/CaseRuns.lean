import Playback.Proofs.Letters
import Playback.Text.Blank
/-!
# Runs of letters

In a settled table the partner of a letter has no partner of its own, so that a second mapping
changes nothing; partners are characters, and a blank is the partner of a blank only.
-/

namespace Playback.Proofs.CaseRuns

open Text

/-- The partners under the first run are not covered by the second: the runs lie apart, or one has
the even code points and the other one the odd ones. -/
def apart (r q : CaseRun) : Bool :=
  (r.partner r.last).blt q.first || q.last.blt (r.partner r.first) ||
    q.step == 2 && (r.step == 2 || r.first == r.last) && (r.partner r.first + q.first) % 2 == 1

def Lands (r : CaseRun) : Prop :=
  0 ≤ r.first + r.shift ∧ 0 < r.step ∧
    (r.partner r.last < 0x85 ∧ 0x20 < r.partner r.first ∨
      0xA0 < r.partner r.first ∧ r.partner r.last < 0x1680 ∨
      0x1680 < r.partner r.first ∧ r.partner r.last < 0x2000 ∨
      0x205F < r.partner r.first ∧ r.partner r.last < 0x3000 ∨
      0x3000 < r.partner r.first ∧ r.partner r.last < 0xD800 ∨
      0xE000 ≤ r.partner r.first ∧ r.partner r.last < 0x110000)

instance : DecidablePred Lands := fun _ => inferInstanceAs (Decidable (_ ∧ _ ∧ _))

def single (n : Nat) : CaseRun := ⟨n, n, 1, 0⟩

/-- A table whose partners neither have partners nor are among the exceptions to it. -/
structure Settled (exceptions : List Nat) (runs : List CaseRun) : Prop where
  lands : ∀ r ∈ runs, Lands r
  apart : (runs.all fun r => (exceptions.map single ++ runs).all (apart r)) = true

/-- The code point is no exception and has no partner. -/
def Rests (exceptions : List Nat) (runs : List CaseRun) (n : Nat) : Prop :=
  n ∉ exceptions ∧ runs.find? (·.covers n) = none

instance (exceptions : List Nat) (runs : List CaseRun) : DecidablePred (Rests exceptions runs) :=
  fun _ => inferInstanceAs (Decidable (_ ∧ _))

/-! ## Partners -/

section Partners

variable {r : CaseRun} (hr : Lands r) {n : Nat} (hn : r.covers n = true)

include hr hn

theorem partner_bounds :
    r.partner r.first ≤ r.partner n ∧ r.partner n ≤ r.partner r.last ∧
      r.partner n = r.partner r.first + (n - r.first) := by
  obtain ⟨hpos, -, -⟩ := hr
  simp only [CaseRun.covers, Bool.and_eq_true, decide_eq_true_eq, beq_iff_eq] at hn
  unfold CaseRun.partner
  omega

theorem not_covers_partner {q : CaseRun} (hapart : apart r q = true) :
    q.covers (r.partner n) = false := by
  have hbounds := partner_bounds hr hn
  simp only [apart, Bool.or_eq_true, Nat.blt_eq, Bool.and_eq_true, beq_iff_eq] at hapart
  simp only [CaseRun.covers, Bool.and_eq_true, decide_eq_true_eq, beq_iff_eq] at hn
  rw [Bool.eq_false_iff]
  intro hcovers
  simp only [CaseRun.covers, Bool.and_eq_true, decide_eq_true_eq, beq_iff_eq] at hcovers
  obtain ⟨hqn, hqstep⟩ := hcovers
  rcases hapart with (h | h) | ⟨⟨hstep, hrstep⟩, hparity⟩
  · omega
  · omega
  · rw [hstep] at hqstep
    rcases hrstep with hrstep | hrstep
    · rw [hrstep] at hn
      omega
    · omega

end Partners

theorem mapByRuns_cases (runs : List CaseRun) (n : Nat) :
    (runs.find? (·.covers n) = none ∧ mapByRuns runs n = n) ∨
      ∃ r ∈ runs, r.covers n = true ∧ mapByRuns runs n = r.partner n := by
  unfold mapByRuns
  cases hfind : runs.find? (·.covers n) with
  | none => exact .inl ⟨rfl, rfl⟩
  | some r =>
    have hcovers := List.find?_some hfind
    exact .inr ⟨r, List.mem_of_find?_eq_some hfind, hcovers, rfl⟩

/-! ## Settled tables -/

section Settled

variable {exceptions : List Nat} {runs : List CaseRun} (h : Settled exceptions runs)

include h

theorem Settled.rests_mapByRuns {n : Nat} (hn : n ∉ exceptions) :
    Rests exceptions runs (mapByRuns runs n) := by
  obtain ⟨hnone, hsame⟩ | ⟨r, hr, hcovers, hpartner⟩ := mapByRuns_cases runs n
  · rw [hsame]
    exact ⟨hn, hnone⟩
  · have hlands := h.lands r hr
    have hapart := List.all_eq_true.1 (List.all_eq_true.1 h.apart r hr)
    rw [hpartner]
    refine ⟨fun hmem => ?_, ?_⟩
    · have hsingle : single (r.partner n) ∈ exceptions.map single ++ runs :=
        List.mem_append_left _ (List.mem_map_of_mem hmem)
      have hmiss := not_covers_partner hlands hcovers (hapart _ hsingle)
      simp [single, CaseRun.covers] at hmiss
    · rw [List.find?_eq_none]
      intro q hq
      rw [not_covers_partner hlands hcovers (hapart q (List.mem_append_right _ hq))]
      exact Bool.false_ne_true

theorem Settled.toNat_mapByRuns (c : Char) :
    (Char.ofNat (mapByRuns runs c.toNat)).toNat = mapByRuns runs c.toNat := by
  obtain ⟨-, hsame⟩ | ⟨r, hr, hcovers, hpartner⟩ := mapByRuns_cases runs c.toNat
  · rw [hsame, Char.ofNat_toNat]
  · have hbounds := partner_bounds (h.lands r hr) hcovers
    obtain ⟨-, -, hends⟩ := h.lands r hr
    rw [hpartner]
    apply Letters.toNat_ofNat
    omega

theorem Settled.isBlank_mapByRuns {c : Char} (hc : isBlank c = false) :
    isBlank (Char.ofNat (mapByRuns runs c.toNat)) = false := by
  obtain ⟨-, hsame⟩ | ⟨r, hr, hcovers, hpartner⟩ := mapByRuns_cases runs c.toNat
  · rw [hsame, Char.ofNat_toNat]
    exact hc
  · have hbounds := partner_bounds (h.lands r hr) hcovers
    obtain ⟨-, -, hends⟩ := h.lands r hr
    have hnumber := h.toNat_mapByRuns c
    rw [hpartner] at hnumber ⊢
    unfold isBlank
    rw [hnumber]
    simp
    omega

end Settled

end Playback.Proofs.CaseRuns
