import Playback.Registry
import Playback.Proofs.Takeover
/-!
# Letting go of the input

A command that uses the input is performed under a lease, and the lease is let go of whatever comes
of the command. An acquisition that fails keeps no lease. So an engine has the lock only while it
performs such a command: in every other state that its work goes through, the lock is free or some
other party has it.
-/

namespace Playback.Proofs.LettingGo

open Effects Exclusion Launching Leases Moves Performing Running

variable {σ : Type}

/-! ## Who has the lock -/

structure Settled (s : Stage σ) : Prop where
  rivalsKnown : RivalsKnown s
  elsewhere : s.lock.holder = none ∨ ∃ rival ∈ s.rivals, s.lock.heldBy rival = true

/-- Whoever has the lock has it under one of these leases, or is another party. -/
structure Within (own : Lease → Prop) (s : Stage σ) : Prop where
  rivalsKnown : RivalsKnown s
  foreign : ∀ lease, own lease → lease.owner < s.lock.issued ∧ lease ∉ s.rivals
  held : ∀ lease, s.lock.heldBy lease = true → own lease ∨ lease ∈ s.rivals

theorem heldBy_unique {l : InputLock} {a b : Lease} (ha : l.heldBy a = true)
    (hb : l.heldBy b = true) : a = b := by
  obtain ⟨h, hholder, ha⟩ := heldBy_iff.1 ha
  obtain ⟨h', hholder', hb⟩ := heldBy_iff.1 hb
  rw [hholder, Option.some.injEq] at hholder'
  subst hholder'
  exact eq_of_owner (ha.symm.trans hb)

theorem heldBy_drop_self {l : InputLock} {lease : Lease} : (l.drop lease).heldBy lease = false := by
  by_cases hheld : l.heldBy lease = true
  · rw [drop_of_heldBy hheld]
    rfl
  · rw [drop_of_not_heldBy (Bool.eq_false_iff.2 hheld)]
    exact Bool.eq_false_iff.2 hheld

theorem settled_iff {s : Stage σ} : Settled s ↔ Within (fun _ => False) s := by
  constructor
  · intro h
    refine ⟨h.rivalsKnown, fun _ => False.elim, fun lease hheld => .inr ?_⟩
    obtain hfree | ⟨rival, hrival, hrheld⟩ := h.elsewhere
    · simp [InputLock.heldBy, hfree] at hheld
    · rw [heldBy_unique hheld hrheld]
      exact hrival
  · intro h
    refine ⟨h.rivalsKnown, ?_⟩
    cases hholder : s.lock.holder with
    | none => exact .inl rfl
    | some holder =>
      have hheld : s.lock.heldBy ⟨holder.owner⟩ = true := heldBy_iff.2 ⟨holder, hholder, rfl⟩
      exact .inr ⟨_, (h.held _ hheld).resolve_left id, hheld⟩

section Parties

variable {own : Lease → Prop} {s t : Stage σ} {lease : Lease}

theorem Within.of_eq (h : Within own s) (hlock : t.lock = s.lock) (hrivals : t.rivals = s.rivals) :
    Within own t := by
  refine ⟨h.rivalsKnown.changedByRivals (.still hlock hrivals), ?_, ?_⟩
  · rw [hlock, hrivals]
    exact h.foreign
  · rw [hlock, hrivals]
    exact h.held

theorem Within.renew (h : Within own s) (lease : Lease) :
    Within own { s with lock := (s.lock.renew lease s.clock).2 } := by
  refine ⟨h.rivalsKnown.mono (Nat.le_of_eq settings_renew.2.symm) (List.Subset.refl _), ?_, ?_⟩
  · rw [settings_renew.2]
    exact h.foreign
  · intro other hheld
    rw [heldBy_renew] at hheld
    exact h.held other hheld

theorem Within.rivalMove (h : Within own s) (m : RivalMove) : Within own (s.rivalMove m) := by
  have hknown := h.rivalsKnown.rivalMove m
  cases m with
  | take app =>
    cases havailable : s.lock.available s.clock with
    | true =>
      simp only [Stage.rivalMove, Stage.rivalTakes, tryAcquire_of_available app havailable]
        at hknown ⊢
      refine ⟨hknown, fun lease hown => ⟨Nat.lt_succ_of_lt (h.foreign lease hown).1, ?_⟩, ?_⟩
      · intro hmem
        obtain hmem | hmem := List.mem_append.1 hmem
        · exact (h.foreign lease hown).2 hmem
        · have hnew := (h.foreign lease hown).1
          rw [List.mem_singleton.1 hmem] at hnew
          exact Nat.lt_irrefl _ hnew
      · intro lease hheld
        obtain ⟨holder, hholder, howner⟩ := heldBy_iff.1 hheld
        cases hholder
        exact .inr (List.mem_append_right _ (List.mem_singleton.2 (eq_of_owner howner.symm)))
    | false =>
      simp only [Stage.rivalMove, Stage.rivalTakes, tryAcquire_of_not_available app havailable]
      exact h.of_eq rfl rfl
  | renew i =>
    cases hrival : s.rivals[i]? with
    | none =>
      simp only [Stage.rivalMove, hrival]
      exact h
    | some rival =>
      simp only [Stage.rivalMove, hrival]
      exact h.renew rival
  | release i =>
    cases hrival : s.rivals[i]? with
    | none =>
      simp only [Stage.rivalMove, hrival]
      exact h
    | some rival =>
      simp only [Stage.rivalMove, hrival] at hknown ⊢
      refine ⟨hknown, fun lease hown => ?_, fun lease hheld => ?_⟩
      · rw [settings_drop.2]
        exact ⟨(h.foreign lease hown).1, fun hmem => (h.foreign lease hown).2
          ((List.eraseIdx_sublist _ _).subset hmem)⟩
      · have hne : lease ≠ rival := by
          rintro rfl
          rw [heldBy_drop_self] at hheld
          cases hheld
        rw [heldBy_drop hne] at hheld
        refine (h.held lease hheld).imp_right fun hmem => ?_
        obtain ⟨j, hj⟩ := List.mem_iff_getElem?.1 hmem
        refine List.mem_eraseIdx_iff_getElem?.2 ⟨j, ?_, hj⟩
        rintro rfl
        rw [hrival] at hj
        exact hne (Option.some.inj hj).symm

theorem Within.changedByRivals (h : Within own s) (hst : ChangedByRivals s t) : Within own t := by
  induction hst with
  | still hlock hrivals => exact h.of_eq hlock hrivals
  | moved s m => exact h.rivalMove m
  | trans _ _ ih ih' => exact ih' (ih h)

theorem Settled.changedByRivals (h : Settled s) (hst : ChangedByRivals s t) : Settled t :=
  settled_iff.2 ((settled_iff.1 h).changedByRivals hst)

theorem Settled.taken (h : Settled s) {app : String} {lock : InputLock}
    (htaken : s.lock.tryAcquire app s.clock = (some lease, lock)) :
    Within (· = lease) { s with lock } := by
  by_cases havailable : s.lock.available s.clock = true
  · rw [tryAcquire_of_available app havailable] at htaken
    cases htaken
    refine ⟨fun rival hrival => Nat.lt_succ_of_lt (h.rivalsKnown rival hrival), ?_, ?_⟩
    · rintro lease rfl
      exact ⟨Nat.lt_succ_self _, fun hmem => Nat.lt_irrefl _ (h.rivalsKnown _ hmem)⟩
    · intro lease hheld
      obtain ⟨holder, hholder, howner⟩ := heldBy_iff.1 hheld
      cases hholder
      exact .inl (eq_of_owner howner.symm)
  · rw [tryAcquire_of_not_available app (Bool.eq_false_iff.2 havailable)] at htaken
    cases htaken

theorem Within.dropLease (h : Within (· = lease) s) :
    Settled (s.dropLease lease) ∧ (s.dropLease lease).lock.heldBy lease = false ∧
      lease ∉ (s.dropLease lease).rivals := by
  refine ⟨settled_iff.2 ⟨?_, fun _ => False.elim, fun other hheld => .inr ?_⟩, heldBy_drop_self,
    (h.foreign lease rfl).2⟩
  · exact h.rivalsKnown.mono (Nat.le_of_eq settings_drop.2.symm) (List.Subset.refl _)
  · have hne : other ≠ lease := by
      rintro rfl
      rw [Stage.dropLease, heldBy_drop_self] at hheld
      cases hheld
    rw [Stage.dropLease, heldBy_drop hne] at hheld
    exact (h.held other hheld).resolve_left hne

end Parties

/-! ## Acquiring and using the input -/

section Commands

variable [Desk σ] {own : Lease → Prop} {s t : Stage σ} {lease : Lease} {app : String}

abbrev Guarded (own : Lease → Prop) : Effect σ := fun s _ t => Within own s → Within own t

omit [Desk σ] in
theorem composable_guarded (own : Lease → Prop) : Composable (Guarded (σ := σ) own) :=
  ⟨fun _ => id, fun hst htu hs => htu (hst hs)⟩

theorem using_guarded (own : Lease → Prop) : Using (Guarded (σ := σ) own) where
  toActing := acting_byRivals.mono (composable_guarded own) fun hst hs => hs.changedByRivals hst
  renewed _ lease hs := hs.renew lease
  refused _ _ _ := id

theorem obeys_use_guarded (e : Setup) (lease : Lease) (c : Command) :
    Obeys (Guarded own) (e.use lease c : Action (Memory × Stage σ) Unit) := by
  have hcall : ∀ c : Call, Obeys (Guarded own) (Stage.call c : Action (Stage σ) c.Reply) :=
    fun c => (byRivals_call c).mono fun _ _ _ hst hs => hs.changedByRivals hst
  have husing := using_guarded (σ := σ) own
  apply obeys_use husing e lease c
  · exact fun _ _ _ _ _ => id
  · exact fun _ _ => obeys_dragPoints husing.toActing e (hcall .press) (hcall .release)

theorem within_of_acquireLock (hs : Settled s) (h : Arbiter.acquireLock app s = (.ok lease, t)) :
    Within (· = lease) t := by
  unfold Arbiter.acquireLock at h
  generalize s.clock + nanoseconds s.lock.acquireTimeout = deadline at h
  -- on the tries, between which the engine only pauses
  fun_induction Arbiter.acquireUntil app deadline s with
  | case1 s got lock htry =>
    cases h
    exact hs.taken htry
  | case2 => cases h
  | case3 => cases h
  | case4 s lock _ _ u hpause _ ih =>
    have hchanged : ChangedByRivals s u := obeys_of_eq (obeys_pause waiting_byRivals _) hpause
    exact ih (hs.changedByRivals hchanged) h

/-- An acquisition that gets no lease does nothing but wait. -/
theorem waits_of_acquireLock {R : Effect σ} (hR : Waiting R) (hany : ∀ s o, R s o s) {f : Fault}
    (h : Arbiter.acquireLock app s = (.error f, t)) : R s (some f) t := by
  unfold Arbiter.acquireLock at h
  generalize s.clock + nanoseconds s.lock.acquireTimeout = deadline at h
  fun_induction Arbiter.acquireUntil app deadline s with
  | case1 => cases h
  | case2 =>
    cases h
    exact hany _ _
  | case3 s lock _ _ g u hpause =>
    cases h
    exact obeys_of_eq (obeys_pause hR _) hpause
  | case4 s lock _ _ u hpause _ ih =>
    have hwaited : R s none u := obeys_of_eq (obeys_pause hR _) hpause
    exact hR.trans hwaited (ih h)

def Undisputed (σ : Type) [Desk σ] : Prop :=
  ∀ (c : Call) (desk : σ), (Desk.respond c desk).1.rivals = []

/-- What an acquisition that failed has come to. -/
inductive Refused (app : String) (s : Stage σ) (f : Fault) (t : Stage σ) : Prop
  | waiting (hwait : Arbiter.acquireLock app s = (.error f, t)) (hchanged : ChangedByRivals s t)
      (hsame : Undisputed σ → t.lock = s.lock)
  | focusing (lease : Lease) {u v : Stage σ} (hlock : Arbiter.acquireLock app s = (.ok lease, u))
      (hfront : Arbiter.bringToFront app u = (.error f, v)) (hdrop : t = v.dropLease lease)
      (hheld : t.lock.heldBy lease = false) (hforeign : lease ∉ t.rivals)

theorem changedByRivals_bringToFront {r : Except Fault Unit}
    (h : Arbiter.bringToFront app s = (r, t)) :
    ChangedByRivals s t :=
  obeys_of_eq (obeys_bringToFront acting_byRivals app) h

abbrev Untouching : Effect σ := fun s _ t => t.lock = s.lock

theorem untouching_call (hundisputed : Undisputed σ) (c : Call) :
    Obeys Untouching (Stage.call c : Action (Stage σ) c.Reply) := by
  intro s
  unfold Stage.call
  split
  · rfl
  · show (s.afterCall c).lock = s.lock
    have hnobody := hundisputed c s.desk
    unfold Stage.afterCall
    generalize Desk.respond c s.desk = reply at hnobody ⊢
    obtain ⟨r, desk⟩ := reply
    dsimp only at hnobody ⊢
    rw [hnobody]
    rfl

theorem refused_of_acquire (hs : Settled s) {f : Fault}
    (h : Arbiter.acquire app s = (.error f, t)) : Settled t ∧ Refused app s f t := by
  unfold Arbiter.acquire at h
  rcases hlock : Arbiter.acquireLock app s with ⟨r, u⟩
  cases r with
  | error g =>
    rw [Action.bind_of_error hlock] at h
    cases h
    have hchanged : ChangedByRivals s t :=
      waits_of_acquireLock waiting_byRivals (fun _ _ => .still rfl rfl) hlock
    refine ⟨hs.changedByRivals hchanged, .waiting hlock hchanged fun hundisputed => ?_⟩
    refine waits_of_acquireLock (R := Untouching) (waiting_of_calls ⟨fun _ => rfl, ?_⟩
      (fun _ _ => rfl) (untouching_call hundisputed)) (fun _ _ => rfl) hlock
    exact fun hst htu => htu.trans hst
  | ok lease =>
    rw [Action.bind_of_ok hlock] at h
    rcases hfront : Arbiter.bringToFront app u with ⟨r, v⟩
    rw [Action.bind_of_ok (attempt_eq hfront)] at h
    cases r with
    | ok _ => cases h
    | error g =>
      cases h
      have hwithin :=
        (within_of_acquireLock hs hlock).changedByRivals (changedByRivals_bringToFront hfront)
      obtain ⟨hsettled, hheld, hforeign⟩ := hwithin.dropLease
      exact ⟨hsettled, .focusing lease hlock hfront rfl hheld hforeign⟩

theorem within_of_acquire (hs : Settled s) (h : Arbiter.acquire app s = (.ok lease, t)) :
    Within (· = lease) t := by
  obtain ⟨got, u, hlock, h⟩ := Action.bind_eq_ok.1 h
  obtain ⟨r, v, hattempt, h⟩ := Action.bind_eq_ok.1 h
  rcases hfront : Arbiter.bringToFront app u with ⟨r', v'⟩
  rw [attempt_eq hfront] at hattempt
  cases hattempt
  cases r with
  | ok _ =>
    cases h
    exact (within_of_acquireLock hs hlock).changedByRivals (changedByRivals_bringToFront hfront)
  | error f => cases h

/-! ## Performing commands -/

def usesInput : Command → Bool
  | .paramChange _ => false
  | .webhook _ => false
  | _ => true

theorem perform_of_usesInput (e : Setup) {c : Command} (hc : usesInput c = true) :
    (e.perform c : Action (Memory × Stage σ) Unit) = (do
      let lease ← (Arbiter.acquire e.app).onSnd
      (e.use lease c).ending fun s => (s.1, s.2.dropLease lease)) := by
  cases c <;> first | rfl | cases hc

/-- A command leaves the lock to others, whatever comes of it. -/
structure LetsGo (e : Setup) (c : Command) (m : Memory) (s : Stage σ) : Prop where
  settled : Settled (e.perform c (m, s)).2.2
  dropped : usesInput c = true → ∀ lease start, Arbiter.acquire e.app s = (.ok lease, start) →
    (e.perform c (m, s)).2.2.lock.heldBy lease = false ∧ lease ∉ (e.perform c (m, s)).2.2.rivals

theorem letsGo_of_usesInput (e : Setup) {c : Command} (hc : usesInput c = true) (m : Memory)
    (hs : Settled s) : LetsGo e c m s := by
  have hperform := perform_of_usesInput (σ := σ) e hc
  rcases hacquire : Arbiter.acquire e.app s with ⟨r, u⟩
  cases r with
  | error f =>
    have hend : e.perform c (m, s) = (.error f, (m, u)) := by
      rw [hperform]
      exact Action.bind_of_error (onSnd_eq hacquire)
    refine ⟨?_, fun _ lease start hok => ?_⟩
    · rw [hend]
      exact (refused_of_acquire hs hacquire).1
    · rw [hacquire] at hok
      cases hok
  | ok lease =>
    have hwithin := within_of_acquire hs hacquire
    have hguarded : Obeys (Guarded (· = lease))
        (e.use lease c : Action (Memory × Stage σ) Unit) := obeys_use_guarded e lease c
    have hused := hguarded (m, u) hwithin
    rcases huse : e.use lease c (m, u) with ⟨r, m', v⟩
    rw [huse] at hused
    have hend : e.perform c (m, s) = (r, (m', v.dropLease lease)) := by
      rw [hperform, Action.bind_of_ok (onSnd_eq hacquire)]
      exact ending_eq huse
    obtain ⟨hsettled, hheld, hforeign⟩ := hused.dropLease
    refine ⟨?_, fun _ lease' start hok => ?_⟩
    · rw [hend]
      exact hsettled
    · rw [hacquire] at hok
      cases hok
      rw [hend]
      exact ⟨hheld, hforeign⟩

end Commands

/-! ## The whole work of an engine -/

section Work

variable [Desk σ]

/-- Work from one stage to another, of calls, notes and commands, in which the lock is never the
engine's but inside a command that uses the input: in every state before, between and after the
steps it is free or another party has it. -/
inductive Clear : Stage σ → Stage σ → Prop
  | done {s : Stage σ} (hs : Settled s) : Clear s s
  | called {s u : Stage σ} (hs : Settled s) (c : Call) (hrest : Clear (Stage.call c s).2 u) :
      Clear s u
  | wrote {s u : Stage σ} (hs : Settled s) (e : Setup) (n : Note)
      (hrest : Clear (s.record (noted e n)) u) : Clear s u
  | forgot {s u : Stage σ} (hs : Settled s) (app : String)
      (hrest : Clear (Arbiter.invalidateFront app s) u) : Clear s u
  | performed {s u : Stage σ} (hs : Settled s) (e : Setup) {c : Command}
      (hc : usesInput c = true) (m : Memory) (hrest : Clear (e.perform c (m, s)).2.2 u) : Clear s u

variable {s t u : Stage σ}

theorem Clear.settled (h : Clear s t) : Settled t := by
  induction h with
  | done hs => exact hs
  | called _ _ _ ih => exact ih
  | wrote _ _ _ _ ih => exact ih
  | forgot _ _ _ ih => exact ih
  | performed _ _ _ _ _ ih => exact ih

theorem Clear.trans (hst : Clear s t) (htu : Clear t u) : Clear s u := by
  induction hst with
  | done => exact htu
  | called hs c _ ih => exact .called hs c (ih htu)
  | wrote hs e n _ ih => exact .wrote hs e n (ih htu)
  | forgot hs app _ ih => exact .forgot hs app (ih htu)
  | performed hs e hc m _ ih => exact .performed hs e hc m (ih htu)

/-- The engine has the lock only for commands. -/
abbrev Clearing : Effect σ := fun s _ t => Settled s → Clear s t

theorem composable_clearing : Composable (Clearing (σ := σ)) :=
  ⟨fun _ => .done, fun hst htu hs => (hst hs).trans (htu (hst hs).settled)⟩

theorem clear_record (e : Setup) (n : Note) (hs : Settled s) : Clear s (s.record (noted e n)) :=
  .wrote hs e n (.done (hs.changedByRivals (.still rfl rfl)))

theorem clearing_call (c : Call) : Obeys Clearing (Stage.call c : Action (Stage σ) c.Reply) :=
  fun s hs => .called hs c (.done (hs.changedByRivals (byRivals_call c s)))

theorem managing_clearing (e : Setup) : Managing e (Clearing (σ := σ)) where
  toRestarting := restarting_of_calls composable_clearing (fun _ _ => .done) id clearing_call
    fun s hs => .forgot hs e.app
      (.done (hs.changedByRivals (changedByRivals_invalidateFront e.app s)))
  note _ n hs := clear_record e n hs
  signal := clearing_call _

theorem clearing_perform (e : Setup) (c : Command) :
    Obeys Clearing (e.perform c : Action (Memory × Stage σ) Unit) := by
  cases hc : usesInput c with
  | true =>
    exact fun s hs => .performed hs e hc s.1 (.done (letsGo_of_usesInput e hc s.1 hs).settled)
  | false =>
    cases c with
    | paramChange params => exact obeys_modify fun s => .done
    | webhook params =>
      exact obeys_deliver composable_clearing e fun results => (clearing_call _).lenient id
    | _ => cases hc

theorem letsGo_perform (e : Setup) (c : Command) (m : Memory) (hs : Settled s) :
    LetsGo e c m s where
  settled := (clearing_perform e c (m, s) hs).settled
  dropped hc := (letsGo_of_usesInput e hc m hs).dropped hc

theorem working_clearing (e : Setup) : Working e (Clearing (σ := σ)) where
  toManaging := managing_clearing e
  dispatches c s t outcome hdispatch := by
    obtain ⟨memory, stage, hperform, hstage⟩ := perform_of_dispatch hdispatch
    have hperformed : Clearing (s.stage.record (noted e (.dispatched c))) none stage :=
      obeys_of_eq (clearing_perform e c) hperform
    have hdone : Clearing s.stage none t.stage := by
      intro hs
      have hnoted := clear_record e (.dispatched c) hs
      have hclear := hnoted.trans (hperformed hnoted.settled)
      rw [hstage]
      exact hclear.trans (clear_record e _ hclear.settled)
    exact ⟨hdone, fun _ _ _ => hdone⟩

theorem clearing_serve (e : Setup) (request : Career.Request) :
    Obeys Clearing (Career.serve e request : Action (Session σ) Unit) := by
  have hworking := working_clearing (σ := σ) e
  cases request with
  | add job => exact obeys_add hworking.toManaging job
  | next => exact obeys_next hworking.toManaging
  | run => exact obeys_run hworking

/-! ## A registry -/

theorem clearing_onEngine {x : Action (Session σ) Unit} (hx : Obeys Clearing x) (app : String) :
    Obeys Clearing (Registry.onEngine app x) :=
  fun s => hx ⟨(s.1.engines.get? app).getD .fresh, s.2⟩

inductive Order where
  | submit (job : Job)
  | dispatch (job : Job)
  | run (app : String)

def obey (e : Setup) : Order → Action (Registry × Stage σ) Unit
  | .submit job => Registry.submit e job
  | .dispatch job => Registry.dispatch e job
  | .run app => Registry.run e app

theorem clearing_obey (e : Setup) (order : Order) :
    Obeys Clearing (obey e order : Action (Registry × Stage σ) Unit) := by
  have hR := composable_clearing (σ := σ)
  have hroute : ∀ job : Job,
      Obeys Clearing (fun s : Registry × Stage σ => (s.1.route job, s)) := fun job s => .done
  have hadd : ∀ app job,
      Obeys Clearing ((Registry.setup e app).add job : Action (Session σ) Unit) :=
    fun app job => clearing_serve _ (.add job)
  have hrun : ∀ app, Obeys Clearing ((Registry.setup e app).run : Action (Session σ) Unit) :=
    fun app => clearing_serve _ .run
  cases order with
  | submit job => exact (hroute job).bind hR fun app => clearing_onEngine (hadd app job) app
  | dispatch job =>
    refine (hroute job).bind hR fun app => clearing_onEngine ?_ app
    exact (hadd app job).bind hR fun _ => hrun app
  | run app => exact clearing_onEngine (hrun app) app

end Work

/-- The lock is never kept. A command leaves it to others, whatever comes of the command; an
acquisition that fails keeps nothing, and one that waited in vain or was aborted has left the lock
to others all the time; and in every state outside the commands, whatever is asked of an engine or
of a registry, the lock is free or another party has it. -/
theorem lock_never_leaks [Desk σ] {s : Stage σ} (hs : Settled s) :
    (∀ (e : Setup) c m, LetsGo e c m s) ∧
    (∀ app f t, Arbiter.acquire app s = (.error f, t) → Settled t ∧ Refused app s f t) ∧
    (∀ (e : Setup) request engine, Clear s (Career.serve e request ⟨engine, s⟩).2.stage) ∧
    ∀ (e : Setup) order registry, Clear s (obey e order (registry, s)).2.2 :=
  ⟨fun e c m => letsGo_perform e c m hs, fun _ _ _ h => refused_of_acquire hs h,
    fun e request engine => clearing_serve e request ⟨engine, s⟩ hs,
    fun e order registry => clearing_obey e order (registry, s) hs⟩

def opened : Except Fault Lease × Stage Rehearsal :=
  Arbiter.acquire Takeover.robbed.app Takeover.robbery.stage

def robbedSearch : Except Fault Unit × Memory × Stage Rehearsal :=
  Takeover.robbed.perform (.scroll Pressing.wholeWindow) (.fresh, Takeover.robbery.stage)

theorem opened_facts :
    opened.1 = .ok ⟨0⟩ ∧ robbedSearch.2.2.lock.holderApp? = some "thief" := by
  decide +kernel

/-- The search ends without the lock, and the thief keeps it. -/
theorem thief_keeps_lock :
    Settled Takeover.robbery.stage ∧ robbedSearch.2.2.lock.heldBy ⟨0⟩ = false ∧
      robbedSearch.2.2.lock.holderApp? = some "thief" ∧
      Clear Takeover.robbery.stage (Career.serve Takeover.robbed .run
        ⟨Takeover.robbery.engine, Takeover.robbery.stage⟩).2.stage := by
  have hs : Settled Takeover.robbery.stage := ⟨rivalsKnown_fresh _ _, .inl rfl⟩
  obtain ⟨hletsGo, -, hclear, -⟩ := lock_never_leaks hs
  have hopened : opened = (.ok ⟨0⟩, opened.2) := Prod.ext opened_facts.1 rfl
  have hdropped := (hletsGo Takeover.robbed (.scroll Pressing.wholeWindow) .fresh).dropped rfl ⟨0⟩
    opened.2 hopened
  exact ⟨hs, hdropped.1, opened_facts.2, hclear Takeover.robbed .run Takeover.robbery.engine⟩

end Playback.Proofs.LettingGo
