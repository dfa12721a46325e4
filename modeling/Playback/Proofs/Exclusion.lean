import Mathlib.Data.List.Nodup
import Playback.Lock
/-!
# Mutual exclusion under the input lock

Any number of parties try to take the lock, renew the leases they keep and let go of them, in any
order, while time passes. At every moment at most one of the leases that are kept can be renewed. A
lease that was taken over stays lost, and whoever took or renewed a lease is left alone for its
whole span unless the lease is dropped.
-/

namespace Playback.Proofs.Exclusion

/-- What can happen to the lock: time passes, or a party makes use of it. -/
inductive Deed where
  | wait (time : Nat)
  | tryAcquire (app : String)
  | renew (lease : Lease)
  | drop (lease : Lease)
  deriving DecidableEq

/-- The lock at a moment, and the leases that the parties keep: given out and not dropped. -/
structure Parties where
  lock : InputLock
  clock : Nat
  leases : List Lease

namespace Parties

def opening (acquireTimeout retryInterval span clock : Nat) : Parties :=
  ⟨.free acquireTimeout retryInterval span, clock, []⟩

/-- Only a lease that is kept can be renewed or dropped. -/
def Allows (s : Parties) : Deed → Prop
  | .wait _ => True
  | .tryAcquire _ => True
  | .renew lease => lease ∈ s.leases
  | .drop lease => lease ∈ s.leases

def after (s : Parties) : Deed → Parties
  | .wait time => { s with clock := s.clock + time }
  | .tryAcquire app =>
    match s.lock.tryAcquire app s.clock with
    | (some lease, lock) => { s with lock, leases := lease :: s.leases }
    | (none, lock) => { s with lock }
  | .renew lease => { s with lock := (s.lock.renew lease s.clock).2 }
  | .drop lease => { s with lock := s.lock.drop lease, leases := s.leases.erase lease }

/-- The lease gains a span of its own by the deed: it is given out, or renewed. -/
def Secures (s : Parties) (lease : Lease) : Deed → Prop
  | .tryAcquire app => (s.lock.tryAcquire app s.clock).1 = some lease
  | .renew renewed => renewed = lease ∧ (s.lock.renew lease s.clock).1 = true
  | _ => False

/-- The lease that is recorded in the lock. -/
def recorded? (s : Parties) : Option Lease := s.lock.holder.map fun h => ⟨h.owner⟩

end Parties

inductive Reaches : Parties → List Deed → Parties → Prop
  | refl (s : Parties) : Reaches s [] s
  | step {s t : Parties} {deed : Deed} {deeds : List Deed} (hallows : s.Allows deed)
      (hrest : Reaches (s.after deed) deeds t) : Reaches s (deed :: deeds) t

/-- What the lock warrants to the parties. -/
structure Exclusive (s : Parties) : Prop where
  renewable : s.leases.filter (fun lease => (s.lock.renew lease s.clock).1) = s.recorded?.toList
  /-- A lease that is taken over is never renewed again, and dropping it changes nothing. -/
  lost : ∀ lease app successor, s.recorded? = some lease →
    (s.lock.tryAcquire app s.clock).1 = some successor →
      ∀ deeds t, Reaches (s.after (.tryAcquire app)) deeds t →
        (∀ now, t.lock.renew lease now = (false, t.lock)) ∧ t.lock.drop lease = t.lock
  /-- Nobody takes the lock before the span of the present lease is over, unless it is dropped. -/
  undisturbed : ∀ lease deed, s.Secures lease deed →
    ∀ deeds t, Reaches (s.after deed) deeds t → Deed.drop lease ∉ deeds →
      t.clock < s.clock + nanoseconds s.lock.span →
        ∀ app, t.lock.tryAcquire app t.clock = (none, t.lock)

/-! ## The lock -/

section Lock

variable {l : InputLock} {lease : Lease} {now : Nat}

theorem heldBy_iff : l.heldBy lease = true ↔ ∃ h, l.holder = some h ∧ h.owner = lease.owner := by
  unfold InputLock.heldBy
  cases l.holder with
  | none => simp
  | some h => simp

theorem eq_of_owner {a b : Lease} (h : a.owner = b.owner) : a = b := by
  cases a
  cases b
  exact congrArg Lease.mk h

theorem renew_fst : (l.renew lease now).1 = l.heldBy lease := by
  unfold InputLock.renew InputLock.heldBy
  cases l.holder with
  | none => rfl
  | some h =>
    by_cases howner : h.owner = lease.owner
    · simp [howner]
    · simp [howner]

theorem renew_of_not_heldBy (h : l.heldBy lease = false) : l.renew lease now = (false, l) := by
  unfold InputLock.heldBy at h
  unfold InputLock.renew
  cases hholder : l.holder with
  | none => rfl
  | some holder =>
    rw [hholder] at h
    simp [h]

theorem holder_renew {h : Holder} (lease : Lease) (now : Nat) (hholder : l.holder = some h) :
    ∃ since, (l.renew lease now).2.holder = some { h with since } ∧
      (since = h.since ∨ since = now) := by
  unfold InputLock.renew
  rw [hholder]
  dsimp only
  split
  · exact ⟨now, rfl, .inr rfl⟩
  · exact ⟨h.since, hholder, .inl rfl⟩

theorem heldBy_renew (other : Lease) :
    (l.renew other now).2.heldBy lease = l.heldBy lease := by
  cases hholder : l.holder with
  | none => simp [InputLock.renew, hholder]
  | some h =>
    obtain ⟨since, hrenewed, -⟩ := holder_renew other now hholder
    simp [InputLock.heldBy, hrenewed, hholder]

theorem settings_renew : (l.renew lease now).2.span = l.span ∧
    (l.renew lease now).2.issued = l.issued := by
  unfold InputLock.renew
  split
  · split <;> exact ⟨rfl, rfl⟩
  · exact ⟨rfl, rfl⟩

theorem settings_drop : (l.drop lease).span = l.span ∧ (l.drop lease).issued = l.issued := by
  unfold InputLock.drop
  split <;> exact ⟨rfl, rfl⟩

theorem drop_of_not_heldBy (h : l.heldBy lease = false) : l.drop lease = l := by
  simp [InputLock.drop, h]

theorem drop_of_heldBy (h : l.heldBy lease = true) : l.drop lease = { l with holder := none } := by
  simp [InputLock.drop, h]

theorem heldBy_drop {other : Lease} (h : lease ≠ other) :
    (l.drop other).heldBy lease = l.heldBy lease := by
  by_cases hother : l.heldBy other = true
  · obtain ⟨holder, hholder, howner⟩ := heldBy_iff.1 hother
    have hne : holder.owner ≠ lease.owner := by
      intro hlease
      apply h
      exact eq_of_owner (hlease.symm.trans howner)
    rw [drop_of_heldBy hother]
    simp [InputLock.heldBy, hholder, hne]
  · rw [drop_of_not_heldBy (Bool.eq_false_iff.2 hother)]

theorem tryAcquire_of_available (app : String) (h : l.available now = true) :
    l.tryAcquire app now = (some ⟨l.issued⟩,
      { l with holder := some ⟨l.issued, app, now⟩, issued := l.issued + 1 }) := by
  simp [InputLock.tryAcquire, h]

theorem tryAcquire_of_not_available (app : String) (h : l.available now = false) :
    l.tryAcquire app now = (none, l) := by
  simp [InputLock.tryAcquire, h]

end Lock

/-! ## One deed -/

section Deeds

variable {s t : Parties} {lease : Lease} {deed : Deed} {deeds : List Deed}

theorem after_tryAcquire (s : Parties) (app : String) :
    (s.lock.available s.clock = true ∧ s.after (.tryAcquire app) =
        { s with
          lock := { s.lock with
            holder := some ⟨s.lock.issued, app, s.clock⟩, issued := s.lock.issued + 1 }
          leases := ⟨s.lock.issued⟩ :: s.leases }) ∨
      (s.lock.available s.clock = false ∧ s.after (.tryAcquire app) = s) := by
  cases h : s.lock.available s.clock with
  | true =>
    refine .inl ⟨rfl, ?_⟩
    simp [Parties.after, tryAcquire_of_available app h]
  | false =>
    refine .inr ⟨rfl, ?_⟩
    simp [Parties.after, tryAcquire_of_not_available app h]

theorem clock_le_after (s : Parties) (deed : Deed) : s.clock ≤ (s.after deed).clock := by
  cases deed with
  | wait time => exact Nat.le_add_right _ _
  | tryAcquire app =>
    obtain ⟨-, hafter⟩ | ⟨-, hafter⟩ := after_tryAcquire s app
    · exact Nat.le_of_eq (congrArg Parties.clock hafter).symm
    · exact Nat.le_of_eq (congrArg Parties.clock hafter).symm
  | renew other => exact Nat.le_refl _
  | drop other => exact Nat.le_refl _

theorem span_after (s : Parties) (deed : Deed) : (s.after deed).lock.span = s.lock.span := by
  cases deed with
  | wait time => rfl
  | tryAcquire app =>
    obtain ⟨-, hafter⟩ | ⟨-, hafter⟩ := after_tryAcquire s app <;> rw [hafter]
  | renew other => exact settings_renew.1
  | drop other => exact settings_drop.1

theorem clock_le_of_reaches (h : Reaches s deeds t) : s.clock ≤ t.clock := by
  induction h with
  | refl => exact Nat.le_refl _
  | step _ _ ih => exact Nat.le_trans (clock_le_after _ _) ih

end Deeds

/-! ## Kept leases and the recorded one -/

/-- All kept leases have numbers of their own, and the recorded one is among them. -/
structure Coherent (s : Parties) : Prop where
  nodup : s.leases.Nodup
  issued : ∀ lease ∈ s.leases, lease.owner < s.lock.issued
  recorded : ∀ lease, s.recorded? = some lease → lease ∈ s.leases

theorem recorded_iff {s : Parties} {lease : Lease} :
    s.recorded? = some lease ↔ s.lock.heldBy lease = true := by
  rw [heldBy_iff, Parties.recorded?, Option.map_eq_some_iff]
  constructor
  · rintro ⟨h, hholder, rfl⟩
    exact ⟨h, hholder, rfl⟩
  · rintro ⟨h, hholder, howner⟩
    exact ⟨h, hholder, by rw [howner]⟩

theorem coherent_opening (acquireTimeout retryInterval span clock : Nat) :
    Coherent (.opening acquireTimeout retryInterval span clock) :=
  ⟨.nil, by simp [Parties.opening], by simp [Parties.opening, Parties.recorded?, InputLock.free]⟩

theorem Coherent.after {s : Parties} (h : Coherent s) (deed : Deed) : Coherent (s.after deed) := by
  cases deed with
  | wait time => exact ⟨h.nodup, h.issued, h.recorded⟩
  | tryAcquire app =>
    obtain ⟨-, hafter⟩ | ⟨-, hafter⟩ := after_tryAcquire s app
    · rw [hafter]
      have hnew : (⟨s.lock.issued⟩ : Lease) ∉ s.leases :=
        fun hmem => Nat.lt_irrefl _ (h.issued _ hmem)
      refine ⟨List.nodup_cons.2 ⟨hnew, h.nodup⟩, ?_, ?_⟩
      · intro lease hlease
        obtain rfl | hlease := List.mem_cons.1 hlease
        · exact Nat.lt_succ_self _
        · exact Nat.lt_succ_of_lt (h.issued lease hlease)
      · intro lease hlease
        obtain rfl : (⟨s.lock.issued⟩ : Lease) = lease := by
          simpa [Parties.recorded?] using hlease
        exact List.mem_cons_self
    · rw [hafter]
      exact h
  | renew other =>
    refine ⟨h.nodup, ?_, ?_⟩
    · intro lease hlease
      exact Nat.lt_of_lt_of_eq (h.issued lease hlease) settings_renew.2.symm
    · intro lease hlease
      rw [recorded_iff] at hlease
      exact h.recorded lease (recorded_iff.2 ((heldBy_renew other).symm.trans hlease))
  | drop other =>
    refine ⟨h.nodup.erase other, ?_, ?_⟩
    · intro lease hlease
      exact Nat.lt_of_lt_of_eq (h.issued lease (List.mem_of_mem_erase hlease)) settings_drop.2.symm
    · intro lease hlease
      cases hother : s.lock.heldBy other with
      | true =>
        simp [Parties.recorded?, Parties.after, drop_of_heldBy hother] at hlease
      | false =>
        have hrecorded : s.recorded? = some lease := by
          simpa [Parties.recorded?, Parties.after, drop_of_not_heldBy hother] using hlease
        have hne : lease ≠ other := by
          rintro rfl
          rw [recorded_iff.1 hrecorded] at hother
          cases hother
        exact (List.mem_erase_of_ne hne).2 (h.recorded lease hrecorded)

theorem coherent_of_reaches {s t : Parties} {deeds : List Deed} (hs : Coherent s)
    (h : Reaches s deeds t) : Coherent t := by
  induction h with
  | refl => exact hs
  | step _ _ ih => exact ih (hs.after _)

theorem renewable_of_coherent {s : Parties} (h : Coherent s) :
    s.leases.filter (fun lease => (s.lock.renew lease s.clock).1) = s.recorded?.toList := by
  have hrenews : (fun lease => (s.lock.renew lease s.clock).1) =
      fun lease => decide (s.recorded? = some lease) := by
    funext lease
    rw [renew_fst, Bool.eq_iff_iff, decide_eq_true_iff, recorded_iff]
  rw [hrenews]
  cases hrecorded : s.recorded? with
  | none => simp
  | some recorded =>
    have hsome : (fun lease => decide (some recorded = some lease)) =
        fun lease => decide (lease = recorded) := by
      funext lease
      simp [eq_comm]
    rw [hsome, List.filter_eq, List.count_eq_one_of_mem h.nodup (h.recorded recorded hrecorded)]
    rfl

/-! ## Lost leases -/

structure Lost (lease : Lease) (s : Parties) : Prop where
  issued : lease.owner < s.lock.issued
  not_held : s.lock.heldBy lease = false

theorem Lost.after {lease : Lease} {s : Parties} (h : Lost lease s) (deed : Deed) :
    Lost lease (s.after deed) := by
  cases deed with
  | wait time => exact ⟨h.issued, h.not_held⟩
  | tryAcquire app =>
    obtain ⟨-, hafter⟩ | ⟨-, hafter⟩ := after_tryAcquire s app
    · rw [hafter]
      refine ⟨Nat.lt_succ_of_lt h.issued, ?_⟩
      have hne : s.lock.issued ≠ lease.owner := Nat.ne_of_gt h.issued
      simp [InputLock.heldBy, hne]
    · rw [hafter]
      exact h
  | renew other =>
    exact ⟨Nat.lt_of_lt_of_eq h.issued settings_renew.2.symm,
      (heldBy_renew other).trans h.not_held⟩
  | drop other =>
    refine ⟨Nat.lt_of_lt_of_eq h.issued settings_drop.2.symm, ?_⟩
    cases hother : s.lock.heldBy other with
    | true => simp [Parties.after, drop_of_heldBy hother, InputLock.heldBy]
    | false => simpa [Parties.after, drop_of_not_heldBy hother] using h.not_held

theorem lost_of_reaches {lease : Lease} {s t : Parties} {deeds : List Deed} (hs : Lost lease s)
    (h : Reaches s deeds t) : Lost lease t := by
  induction h with
  | refl => exact hs
  | step _ _ ih => exact ih (hs.after _)

theorem lost_of_takenOver {s : Parties} {lease : Lease} (h : Coherent s) {app : String}
    {successor : Lease} (hrecorded : s.recorded? = some lease)
    (hsuccessor : (s.lock.tryAcquire app s.clock).1 = some successor) :
    Lost lease (s.after (.tryAcquire app)) := by
  have hissued := h.issued lease (h.recorded lease hrecorded)
  obtain ⟨-, hafter⟩ | ⟨hbusy, -⟩ := after_tryAcquire s app
  · rw [hafter]
    refine ⟨Nat.lt_succ_of_lt hissued, ?_⟩
    have hne : s.lock.issued ≠ lease.owner := Nat.ne_of_gt hissued
    simp [InputLock.heldBy, hne]
  · rw [tryAcquire_of_not_available app hbusy] at hsuccessor
    cases hsuccessor

/-! ## Leases within their span -/

/-- The lock has been held under the lease since this moment or a later one. -/
def HeldSince (lease : Lease) (since : Nat) (s : Parties) : Prop :=
  ∃ h, s.lock.holder = some h ∧ h.owner = lease.owner ∧ since ≤ h.since

section Span

variable {lease : Lease} {since : Nat} {s t : Parties} {deed : Deed} {deeds : List Deed}

theorem busy_of_heldSince (h : HeldSince lease since s) (hsince : since ≤ s.clock)
    (hclock : s.clock < since + nanoseconds s.lock.span) : s.lock.available s.clock = false := by
  obtain ⟨holder, hholder, -, hlater⟩ := h
  simp only [InputLock.available, hholder, InputLock.expired, decide_eq_false_iff_not]
  omega

theorem HeldSince.after (h : HeldSince lease since s) (hsince : since ≤ s.clock)
    (hclock : s.clock < since + nanoseconds s.lock.span) (hdeed : deed ≠ .drop lease) :
    HeldSince lease since (s.after deed) := by
  obtain ⟨holder, hholder, howner, hlater⟩ := h
  cases deed with
  | wait time => exact ⟨holder, hholder, howner, hlater⟩
  | tryAcquire app =>
    have hbusy := busy_of_heldSince ⟨holder, hholder, howner, hlater⟩ hsince hclock
    rw [Parties.after, tryAcquire_of_not_available app hbusy]
    exact ⟨holder, hholder, howner, hlater⟩
  | renew other =>
    obtain ⟨moment, hrenewed, rfl | rfl⟩ := holder_renew other s.clock hholder
    · exact ⟨_, hrenewed, howner, hlater⟩
    · exact ⟨_, hrenewed, howner, hsince⟩
  | drop other =>
    have hne : holder.owner ≠ other.owner := by
      rw [howner]
      intro heq
      exact hdeed (congrArg Deed.drop (eq_of_owner heq.symm))
    have hother : s.lock.heldBy other = false := by simp [InputLock.heldBy, hholder, hne]
    rw [Parties.after, drop_of_not_heldBy hother]
    exact ⟨holder, hholder, howner, hlater⟩

theorem heldSince_of_reaches (h : Reaches s deeds t) (hs : HeldSince lease since s)
    (hsince : since ≤ s.clock) (hclock : t.clock < since + nanoseconds s.lock.span)
    (hdeeds : Deed.drop lease ∉ deeds) :
    HeldSince lease since t ∧ t.lock.span = s.lock.span := by
  induction h with
  | refl => exact ⟨hs, rfl⟩
  | @step s t deed deeds _ hrest ih =>
    rw [List.mem_cons, not_or] at hdeeds
    have hlater := clock_le_after s deed
    have hearlier := clock_le_of_reaches hrest
    rw [← span_after s deed] at hclock ⊢
    exact ih (hs.after hsince (by rw [span_after] at hclock; omega) (Ne.symm hdeeds.1))
      (Nat.le_trans hsince hlater) hclock hdeeds.2

theorem heldSince_of_secures (h : s.Secures lease deed) :
    HeldSince lease s.clock (s.after deed) ∧ (s.after deed).clock = s.clock := by
  cases deed with
  | wait time => exact h.elim
  | drop other => exact h.elim
  | tryAcquire app =>
    simp only [Parties.Secures] at h
    cases havailable : s.lock.available s.clock with
    | false =>
      rw [tryAcquire_of_not_available app havailable] at h
      cases h
    | true =>
      rw [tryAcquire_of_available app havailable, Option.some.injEq] at h
      subst h
      rw [Parties.after, tryAcquire_of_available app havailable]
      exact ⟨⟨_, rfl, rfl, Nat.le_refl _⟩, rfl⟩
  | renew other =>
    obtain ⟨rfl, hrenews⟩ := h
    rw [renew_fst, heldBy_iff] at hrenews
    obtain ⟨holder, hholder, howner⟩ := hrenews
    refine ⟨⟨{ holder with since := s.clock }, ?_, howner, Nat.le_refl _⟩, rfl⟩
    simp [Parties.after, InputLock.renew, hholder, howner]

theorem busy_of_secures (h : s.Secures lease deed) (hreaches : Reaches (s.after deed) deeds t)
    (hdeeds : Deed.drop lease ∉ deeds) (hclock : t.clock < s.clock + nanoseconds s.lock.span) :
    t.lock.available t.clock = false := by
  obtain ⟨hheld, hmoment⟩ := heldSince_of_secures h
  rw [← span_after s deed] at hclock
  obtain ⟨hheld, hspan⟩ :=
    heldSince_of_reaches hreaches hheld (Nat.le_of_eq hmoment.symm) hclock hdeeds
  have hlater := clock_le_of_reaches hreaches
  exact busy_of_heldSince hheld (by omega) (by rw [hspan]; exact hclock)

end Span

/-- Whatever the parties do and however much time passes, the lock excludes all but one of them. -/
theorem exclusive_of_reaches (acquireTimeout retryInterval span clock : Nat) {deeds : List Deed}
    {s : Parties} (h : Reaches (.opening acquireTimeout retryInterval span clock) deeds s) :
    Exclusive s := by
  have hcoherent := coherent_of_reaches
    (coherent_opening acquireTimeout retryInterval span clock) h
  refine ⟨renewable_of_coherent hcoherent, ?_, ?_⟩
  · intro lease app successor hrecorded hsuccessor later t hlater
    have hlost := lost_of_reaches (lost_of_takenOver hcoherent hrecorded hsuccessor) hlater
    exact ⟨fun now => renew_of_not_heldBy hlost.not_held, drop_of_not_heldBy hlost.not_held⟩
  · intro lease deed hsecures later t hlater hkept hclock app
    exact tryAcquire_of_not_available app (busy_of_secures hsecures hlater hkept hclock)

/-- The first lease runs out and is taken over, while its party still keeps it. -/
def takeover : List Deed := [.tryAcquire "first", .wait 7000000, .tryAcquire "second"]

theorem takeover_exclusive :
    ∃ s, Reaches (.opening 0 1 5 0) takeover s ∧ s.leases = [⟨1⟩, ⟨0⟩] ∧
      s.recorded? = some ⟨1⟩ ∧ Exclusive s := by
  have h : Reaches (.opening 0 1 5 0) takeover
      (takeover.foldl Parties.after (.opening 0 1 5 0)) :=
    .step trivial (.step trivial (.step trivial (.refl _)))
  exact ⟨_, h, by decide, by decide, exclusive_of_reaches 0 1 5 0 h⟩

end Playback.Proofs.Exclusion
