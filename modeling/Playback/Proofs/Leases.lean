import Playback.Proofs.Career
import Playback.Proofs.Running
/-!
# Leases and the other parties

While an engine makes its calls, other parties take the lock, renew it and let go of it. A lease
that the engine was given is good as long as no other one was given out after it: until then the
lock is held under it, whatever the other parties do with the leases they have. All that an engine
does but for taking, renewing and dropping its own lease leaves the lock to them.
-/

namespace Playback.Proofs.Leases

open Effects Exclusion Launching Performing Running

variable {σ : Type}

/-! ## Other parties -/

/-- What becomes of the lock while only other parties use it. -/
inductive ChangedByRivals : Stage σ → Stage σ → Prop
  | still {s t : Stage σ} (hlock : t.lock = s.lock) (hrivals : t.rivals = s.rivals) :
      ChangedByRivals s t
  | moved (s : Stage σ) (m : RivalMove) : ChangedByRivals s (s.rivalMove m)
  | trans {s t u : Stage σ} (hst : ChangedByRivals s t) (htu : ChangedByRivals t u) :
      ChangedByRivals s u

def RivalsKnown (s : Stage σ) : Prop := ∀ rival ∈ s.rivals, rival.owner < s.lock.issued

/-- Another lease was given out after this one. -/
def Overtaken (lease : Lease) (s : Stage σ) : Prop := lease.owner + 1 < s.lock.issued

/-- A lease that the engine was given and has not let go of. The lock is held under it until it is
overtaken. -/
structure OwnLease (lease : Lease) (s : Stage σ) : Prop where
  rivalsKnown : RivalsKnown s
  issued : lease.owner < s.lock.issued
  own : lease ∉ s.rivals
  held_iff : s.lock.heldBy lease = true ↔ ¬Overtaken lease s

/-- No lease is given out, and the other parties use no lease but theirs. -/
structure NoLeaseGiven (s t : Stage σ) : Prop where
  issued : t.lock.issued = s.lock.issued
  rivals : t.rivals ⊆ s.rivals
  held : ∀ lease ∉ s.rivals, t.lock.heldBy lease = s.lock.heldBy lease

section Rivals

variable {s t : Stage σ} {lease : Lease} {m : RivalMove}

theorem noLeaseGiven_of_eq (hlock : t.lock = s.lock) (hrivals : t.rivals = s.rivals) :
    NoLeaseGiven s t :=
  ⟨by rw [hlock], by rw [hrivals]; exact List.Subset.refl _, fun _ _ => by rw [hlock]⟩

/-- A move gives out a lease, or it renews or drops one of those that the other parties have. -/
theorem rivalMove_cases (s : Stage σ) (m : RivalMove) :
    (∃ app, m = .take app ∧ s.lock.available s.clock = true ∧
      s.rivalMove m =
        { s with
          lock := { s.lock with
            holder := some ⟨s.lock.issued, app, s.clock⟩, issued := s.lock.issued + 1 }
          rivals := s.rivals ++ [⟨s.lock.issued⟩] }) ∨
      NoLeaseGiven s (s.rivalMove m) ∧ ∀ app, m = .take app → s.lock.available s.clock = false := by
  cases m with
  | take app =>
    cases havailable : s.lock.available s.clock with
    | true =>
      refine .inl ⟨app, rfl, rfl, ?_⟩
      simp only [Stage.rivalMove, Stage.rivalTakes, tryAcquire_of_available app havailable]
    | false =>
      refine .inr ⟨?_, fun _ _ => rfl⟩
      simp only [Stage.rivalMove, Stage.rivalTakes, tryAcquire_of_not_available app havailable]
      exact noLeaseGiven_of_eq rfl rfl
  | renew i =>
    refine .inr ⟨?_, by rintro app ⟨⟩⟩
    cases hrival : s.rivals[i]? with
    | none =>
      simp only [Stage.rivalMove, hrival]
      exact noLeaseGiven_of_eq rfl rfl
    | some rival =>
      simp only [Stage.rivalMove, hrival]
      exact ⟨settings_renew.2, List.Subset.refl _, fun _ _ => heldBy_renew rival⟩
  | release i =>
    refine .inr ⟨?_, by rintro app ⟨⟩⟩
    cases hrival : s.rivals[i]? with
    | none =>
      simp only [Stage.rivalMove, hrival]
      exact noLeaseGiven_of_eq rfl rfl
    | some rival =>
      simp only [Stage.rivalMove, hrival]
      refine ⟨settings_drop.2, (List.eraseIdx_sublist _ _).subset, fun lease hlease => ?_⟩
      apply heldBy_drop
      rintro rfl
      exact hlease (List.mem_of_getElem? hrival)

theorem RivalsKnown.mono (h : RivalsKnown s) (hissued : s.lock.issued ≤ t.lock.issued)
    (hrivals : t.rivals ⊆ s.rivals) : RivalsKnown t :=
  fun rival hrival => Nat.lt_of_lt_of_le (h rival (hrivals hrival)) hissued

theorem RivalsKnown.noLeaseGiven (h : RivalsKnown s) (hst : NoLeaseGiven s t) : RivalsKnown t :=
  h.mono (Nat.le_of_eq hst.issued.symm) hst.rivals

theorem RivalsKnown.rivalMove (h : RivalsKnown s) (m : RivalMove) :
    RivalsKnown (s.rivalMove m) := by
  rcases rivalMove_cases s m with ⟨app, -, -, heq⟩ | ⟨hnoLease, -⟩
  · rw [heq]
    intro rival hrival
    rcases List.mem_append.1 hrival with hrival | hrival
    · exact Nat.lt_succ_of_lt (h rival hrival)
    · rw [List.mem_singleton.1 hrival]
      exact Nat.lt_succ_self _
  · exact h.noLeaseGiven hnoLease

theorem RivalsKnown.changedByRivals (h : RivalsKnown s) (hst : ChangedByRivals s t) :
    RivalsKnown t := by
  induction hst with
  | still hlock hrivals => exact h.noLeaseGiven (noLeaseGiven_of_eq hlock hrivals)
  | moved s m => exact h.rivalMove m
  | trans _ _ ih ih' => exact ih' (ih h)

theorem OwnLease.noLeaseGiven (h : OwnLease lease s) (hst : NoLeaseGiven s t) :
    OwnLease lease t := by
  have hheld := h.held_iff
  refine ⟨h.rivalsKnown.noLeaseGiven hst, ?_, fun hmem => h.own (hst.rivals hmem), ?_⟩
  · rw [hst.issued]
    exact h.issued
  · unfold Overtaken at hheld ⊢
    rw [hst.held lease h.own, hst.issued]
    exact hheld

theorem OwnLease.rivalMove (h : OwnLease lease s) (m : RivalMove) :
    OwnLease lease (s.rivalMove m) := by
  rcases rivalMove_cases s m with ⟨app, -, -, heq⟩ | ⟨hnoLease, -⟩
  · have hknown := h.rivalsKnown.rivalMove m
    have hissued := h.issued
    have hne : s.lock.issued ≠ lease.owner := Nat.ne_of_gt hissued
    rw [heq] at hknown ⊢
    refine ⟨hknown, Nat.lt_succ_of_lt hissued, fun hmem => ?_, ?_⟩
    · rcases List.mem_append.1 hmem with hmem | hmem
      · exact h.own hmem
      · exact hne (congrArg Lease.owner (List.mem_singleton.1 hmem)).symm
    · simp [InputLock.heldBy, Overtaken, hne, hissued]
  · exact h.noLeaseGiven hnoLease

theorem OwnLease.changedByRivals (h : OwnLease lease s) (hst : ChangedByRivals s t) :
    OwnLease lease t := by
  induction hst with
  | still hlock hrivals => exact h.noLeaseGiven (noLeaseGiven_of_eq hlock hrivals)
  | moved s m => exact h.rivalMove m
  | trans _ _ ih ih' => exact ih' (ih h)

end Rivals

/-! ## What leaves the lock to others -/

abbrev ByRivals : Effect σ := fun s _ t => ChangedByRivals s t

theorem composable_byRivals : Composable (ByRivals (σ := σ)) :=
  ⟨fun _ => .still rfl rfl, .trans⟩

theorem changedByRivals_foldl (ms : List RivalMove) (s : Stage σ) :
    ChangedByRivals s (ms.foldl Stage.rivalMove s) := by
  induction ms generalizing s with
  | nil => exact .still rfl rfl
  | cons m ms ih => exact .trans (.moved s m) (ih _)

section Engines

variable [Desk σ]

theorem byRivals_call (c : Call) : Obeys ByRivals (Stage.call c : Action (Stage σ) c.Reply) := by
  intro s
  unfold Stage.call
  split
  · exact .still rfl rfl
  · show ChangedByRivals s (s.afterCall c)
    unfold Stage.afterCall
    apply ChangedByRivals.trans _ (changedByRivals_foldl _ _)
    exact .still rfl rfl

theorem waiting_byRivals : Waiting (ByRivals (σ := σ)) :=
  waiting_of_calls composable_byRivals (fun _ _ => .still rfl rfl) byRivals_call

theorem acting_byRivals : Acting (ByRivals (σ := σ)) where
  toWaiting := waiting_byRivals
  needed c _ := byRivals_call c
  tried c _ := (byRivals_call c).lenient id
  shown _ _ := .still rfl rfl
  fronted _ _ := .still rfl rfl

omit [Desk σ] in
theorem changedByRivals_invalidateFront (app : String) (s : Stage σ) :
    ChangedByRivals s (Arbiter.invalidateFront app s) := by
  unfold Arbiter.invalidateFront
  split <;> exact .still rfl rfl

theorem managing_byRivals (e : Setup) : Managing e (ByRivals (σ := σ)) where
  toRestarting := restarting_of_calls composable_byRivals (fun _ _ => .still rfl rfl) id
    byRivals_call (changedByRivals_invalidateFront e.app)
  note _ _ := .still rfl rfl
  signal := byRivals_call _

/-! ## Leases of the other parties -/

abbrev KeepsRivalsKnown : Effect σ := fun s _ t => RivalsKnown s → RivalsKnown t

omit [Desk σ] in
theorem composable_keepsRivalsKnown : Composable (KeepsRivalsKnown (σ := σ)) :=
  ⟨fun _ => id, fun hst htu hs => htu (hst hs)⟩

theorem playing_keepsRivalsKnown : Playing (KeepsRivalsKnown (σ := σ)) :=
  { acting_byRivals.mono composable_keepsRivalsKnown fun hst hs => hs.changedByRivals hst with
    taken := fun s app hs => by
      refine hs.mono ?_ (List.Subset.refl _)
      by_cases havailable : s.lock.available s.clock = true
      · rw [tryAcquire_of_available app havailable]
        exact Nat.le_succ _
      · rw [tryAcquire_of_not_available app (Bool.eq_false_iff.2 havailable)]
    renewed := fun s lease hs =>
      hs.mono (Nat.le_of_eq settings_renew.2.symm) (List.Subset.refl _)
    dropped := fun lease hst hs =>
      (hst hs).mono (Nat.le_of_eq settings_drop.2.symm) (List.Subset.refl _)
    refused := fun _ _ _ => id }

theorem working_keepsRivalsKnown (e : Setup) : Working e (KeepsRivalsKnown (σ := σ)) where
  toManaging := (managing_byRivals e).mono composable_keepsRivalsKnown fun hst hs =>
    hs.changedByRivals hst
  dispatches c s t outcome hdispatch := by
    obtain ⟨memory, stage, hperform, hstage⟩ := perform_of_dispatch hdispatch
    have hcall : ∀ c : Call, Obeys KeepsRivalsKnown (Stage.call c : Action (Stage σ) c.Reply) :=
      fun c => (byRivals_call c).mono fun _ _ _ hst hs => hs.changedByRivals hst
    have hdone : RivalsKnown s.stage → RivalsKnown t.stage := by
      rw [hstage]
      refine obeys_of_eq (obeys_perform playing_keepsRivalsKnown e c ?_ ?_ ?_) hperform
      · exact fun _ _ _ _ _ => id
      · exact fun _ _ => obeys_dragPoints playing_keepsRivalsKnown.toActing e (hcall .press)
          (hcall .release)
      · exact fun _ _ results => (hcall (.deliver results)).lenient id
    exact ⟨hdone, fun _ _ _ => hdone⟩

omit [Desk σ] in
theorem rivalsKnown_fresh (desk : σ) (lock : InputLock) : RivalsKnown (.fresh desk lock) :=
  fun _ hrival => absurd hrival List.not_mem_nil

/-! ## Acquiring the input -/

theorem ownLease_of_acquireUntil {app : String} {deadline : Nat} {s t : Stage σ} {lease : Lease}
    (hknown : RivalsKnown s) (h : Arbiter.acquireUntil app deadline s = (.ok lease, t)) :
    OwnLease lease t := by
  -- on the tries, between which the engine only pauses
  fun_induction Arbiter.acquireUntil app deadline s with
  | case1 s got lock htry =>
    cases h
    by_cases havailable : s.lock.available s.clock = true
    · rw [tryAcquire_of_available app havailable] at htry
      cases htry
      refine ⟨fun rival hrival => Nat.lt_succ_of_lt (hknown rival hrival), Nat.lt_succ_self _,
        fun hmem => Nat.lt_irrefl _ (hknown _ hmem), ?_⟩
      simp [InputLock.heldBy, Overtaken]
    · rw [tryAcquire_of_not_available app (Bool.eq_false_iff.2 havailable)] at htry
      cases htry
  | case2 => cases h
  | case3 => cases h
  | case4 s lock _ _ u hpause _ ih =>
    have hchanged : ChangedByRivals s u := obeys_of_eq (obeys_pause waiting_byRivals _) hpause
    exact ih (hknown.changedByRivals hchanged) h

theorem ownLease_of_acquire {app : String} {s t : Stage σ} {lease : Lease} (hknown : RivalsKnown s)
    (h : Arbiter.acquire app s = (.ok lease, t)) : OwnLease lease t := by
  obtain ⟨got, u, hlock, h⟩ := Action.bind_eq_ok.1 h
  obtain ⟨r, v, hattempt, h⟩ := Action.bind_eq_ok.1 h
  have howned : OwnLease got u := ownLease_of_acquireUntil hknown hlock
  have hchanged : ChangedByRivals u v :=
    obeys_of_eq ((obeys_bringToFront acting_byRivals app).lenient id).attempt hattempt
  cases r with
  | ok _ =>
    cases h
    exact howned.changedByRivals hchanged
  | error f => cases h

end Engines

/-! ## Renewing the lease -/

def Restarts (lease : Lease) (s t : Stage σ) : Prop :=
  ∃ h, s.lock.holder = some h ∧ h.owner = lease.owner ∧
    t = { s with lock := { s.lock with holder := some { h with since := s.clock } } }

theorem OwnLease.restarts {lease : Lease} {s t : Stage σ} (h : OwnLease lease s)
    (hst : Restarts lease s t) : OwnLease lease t := by
  obtain ⟨holder, hholder, howner, rfl⟩ := hst
  apply h.noLeaseGiven
  refine ⟨rfl, List.Subset.refl _, fun other _ => ?_⟩
  simp [InputLock.heldBy, hholder]

theorem ensureHeld_cases {lease : Lease} {s : Stage σ} (h : OwnLease lease s) :
    (Overtaken lease s ∧ Stage.ensureHeld lease s = (.error InputLock.lostFault, s)) ∨
      ¬Overtaken lease s ∧ ∃ t, Restarts lease s t ∧ Stage.ensureHeld lease s = (.ok (), t) := by
  unfold Stage.ensureHeld
  by_cases hheld : s.lock.heldBy lease = true
  · obtain ⟨holder, hholder, howner⟩ := heldBy_iff.1 hheld
    have hrenew : s.lock.renew lease s.clock =
        (true, { s.lock with holder := some { holder with since := s.clock } }) := by
      simp [InputLock.renew, hholder, howner]
    rw [hrenew]
    exact .inr ⟨h.held_iff.1 hheld, _, ⟨holder, hholder, howner, rfl⟩, rfl⟩
  · rw [renew_of_not_heldBy (Bool.eq_false_iff.2 hheld)]
    exact .inl ⟨not_not.1 fun hnot => hheld (h.held_iff.2 hnot), rfl⟩

end Playback.Proofs.Leases
