import Playback.Proofs.SideBySide
/-!
# Whatever the receiver answers

Two desks are followed that differ in nothing but what comes of deliveries. Every step of an engine
has the same result on both, and leaves stages that differ in nothing but the desk and the outcomes
of deliveries in the journal.
-/

namespace Playback.Proofs.Receiver

open Footprints SideBySide Twofold

variable {σ : Type}

/-! ## Desks and stages that differ in deliveries only -/

def delivers : Call → Bool
  | .deliver _ => true
  | _ => false

/-- Related states of a desk answer alike and go on to related states; only what comes of a delivery
may differ. -/
structure Indifferent [Desk σ] (D : σ → σ → Prop) : Prop where
  after : ∀ {d d'} c, D d d' → D (Desk.respond c d).2 (Desk.respond c d').2
  elapsed : ∀ {d d'} c, D d d' → (Desk.respond c d).1.elapsed = (Desk.respond c d').1.elapsed
  abort : ∀ {d d'} c, D d d' → (Desk.respond c d).1.abort = (Desk.respond c d').1.abort
  rivals : ∀ {d d'} c, D d d' → (Desk.respond c d).1.rivals = (Desk.respond c d').1.rivals
  outcome : ∀ {d d'} c, D d d' → delivers c = false →
    (Desk.respond c d).1.outcome = (Desk.respond c d').1.outcome

/-- The entry without what came of a delivery. -/
def withoutReply : Entry → Entry
  | .called (.deliver results) _ => .called (.deliver results) (.ok ())
  | entry => entry

/-- Stages that are the same but for the state of the desk and the outcomes of deliveries. -/
def StagesAgree (D : σ → σ → Prop) (s t : Stage σ) : Prop :=
  ∃ desk journal, t = { s with desk, journal } ∧ D s.desk desk ∧
    s.journal.map withoutReply = journal.map withoutReply

section Stages

variable {D : σ → σ → Prop} {s t : Stage σ}

theorem rivalMove_with (s : Stage σ) (desk : σ) (journal : List Entry) (m : RivalMove) :
    ({ s with desk, journal } : Stage σ).rivalMove m = { s.rivalMove m with desk, journal } := by
  cases m <;> simp only [Stage.rivalMove, Stage.rivalTakes] <;> split <;> rfl

theorem StagesAgree.rivalMove (h : StagesAgree D s t) (m : RivalMove) :
    StagesAgree D (s.rivalMove m) (t.rivalMove m) := by
  obtain ⟨desk, journal, rfl, hdesk, hjournal⟩ := h
  obtain ⟨lock, rivals, hmove⟩ := rivalMove_eq s m
  refine ⟨desk, journal, rivalMove_with s desk journal m, ?_, ?_⟩
  · rw [hmove]
    exact hdesk
  · rw [hmove]
    exact hjournal

theorem StagesAgree.foldl (h : StagesAgree D s t) (ms : List RivalMove) :
    StagesAgree D (ms.foldl Stage.rivalMove s) (ms.foldl Stage.rivalMove t) := by
  induction ms generalizing s t with
  | nil => exact h
  | cons m ms ih => exact ih (h.rivalMove m)

theorem respects_record (entry : Entry) :
    Respects (StagesAgree D) (Action.modify fun s => s.record entry) := by
  refine respects_modify ?_
  rintro s _ ⟨desk, journal, rfl, hdesk, hjournal⟩
  refine ⟨desk, entry :: journal, rfl, hdesk, ?_⟩
  show (entry :: s.journal).map withoutReply = (entry :: journal).map withoutReply
  rw [List.map_cons, List.map_cons, hjournal]

theorem respects_of_aside {α : Type} {x : Action (Stage σ) α}
    (h : ∀ s : Stage σ, ∃ r lock, ∀ desk journal,
      x { s with desk, journal } = (r, { s with lock, desk, journal })) :
    Respects (StagesAgree D) x := by
  rintro s _ ⟨desk, journal, rfl, hdesk, hjournal⟩
  obtain ⟨r, lock, hx⟩ := h s
  have hself : x s = (r, { s with lock }) := hx s.desk s.journal
  rw [hself, hx desk journal]
  exact ⟨rfl, desk, journal, rfl, hdesk, hjournal⟩

theorem respects_ensureHeld (lease : Lease) :
    Respects (StagesAgree D) (Stage.ensureHeld lease : Action (Stage σ) Unit) := by
  refine respects_of_aside fun s => ?_
  rcases hrenew : s.lock.renew lease s.clock with ⟨held, lock⟩
  cases held with
  | true => exact ⟨.ok (), lock, fun _ _ => by simp only [Stage.ensureHeld, hrenew]⟩
  | false =>
    exact ⟨.error InputLock.lostFault, lock, fun _ _ => by simp only [Stage.ensureHeld, hrenew]⟩

theorem respects_ensureRunning :
    Respects (StagesAgree D) (Stage.ensureRunning : Action (Stage σ) Unit) := by
  refine respects_of_aside fun s => ?_
  cases s.aborted with
  | true => exact ⟨_, s.lock, fun _ _ => rfl⟩
  | false => exact ⟨_, s.lock, fun _ _ => rfl⟩

theorem StagesAgree.clock_eq (h : StagesAgree D s t) : s.clock = t.clock := by
  obtain ⟨desk, journal, rfl, -, -⟩ := h
  rfl

theorem StagesAgree.dropLease (h : StagesAgree D s t) (lease : Lease) :
    StagesAgree D (s.dropLease lease) (t.dropLease lease) := by
  obtain ⟨desk, journal, rfl, hdesk, hjournal⟩ := h
  exact ⟨desk, journal, rfl, hdesk, hjournal⟩

theorem StagesAgree.invalidateFront (h : StagesAgree D s t) (app : String) :
    StagesAgree D (Arbiter.invalidateFront app s) (Arbiter.invalidateFront app t) := by
  obtain ⟨desk, journal, rfl, hdesk, hjournal⟩ := h
  unfold Arbiter.invalidateFront
  dsimp only
  split
  · exact ⟨desk, journal, rfl, hdesk, hjournal⟩
  · exact ⟨desk, journal, rfl, hdesk, hjournal⟩

end Stages

/-! ## Calls -/

section Calls

variable [Desk σ] {D : σ → σ → Prop} (hD : Indifferent D)

include hD

theorem respond_eq {d d' : σ} {c : Call} (hc : delivers c = false) (h : D d d') :
    (Desk.respond c d).1 = (Desk.respond c d').1 := by
  have helapsed := hD.elapsed c h
  have habort := hD.abort c h
  have hrivals := hD.rivals c h
  have houtcome := hD.outcome c h hc
  generalize (Desk.respond c d).1 = r at *
  generalize (Desk.respond c d').1 = r' at *
  cases r
  cases r'
  cases helapsed
  cases habort
  cases hrivals
  cases houtcome
  rfl

theorem withoutReply_called {d d' : σ} (c : Call) (h : D d d') :
    withoutReply (.called c (c.settle (Desk.respond c d).1)) =
      withoutReply (.called c (c.settle (Desk.respond c d').1)) := by
  cases hc : delivers c with
  | false => rw [respond_eq hD hc h]
  | true =>
    cases c with
    | deliver results => rfl
    | _ => cases hc

theorem stagesAgree_afterCall {s t : Stage σ} (h : StagesAgree D s t) (c : Call) :
    StagesAgree D (s.afterCall c) (t.afterCall c) := by
  obtain ⟨desk, journal, rfl, hdesk, hjournal⟩ := h
  unfold Stage.afterCall
  dsimp only
  rw [← hD.rivals c hdesk]
  refine StagesAgree.foldl ⟨(Desk.respond c desk).2,
    .called c (c.settle (Desk.respond c desk).1) :: journal, ?_, hD.after c hdesk, ?_⟩ _
  · rw [hD.elapsed c hdesk, hD.abort c hdesk]
  · rw [List.map_cons, List.map_cons, withoutReply_called hD c hdesk, hjournal]

theorem respects_call {c : Call} (hc : delivers c = false) :
    Respects (StagesAgree D) (Stage.call c : Action (Stage σ) c.Reply) := by
  intro s t h
  have hafter := stagesAgree_afterCall hD h c
  obtain ⟨desk, journal, rfl, hdesk, hjournal⟩ := h
  unfold Stage.call
  dsimp only
  split
  · exact ⟨rfl, desk, journal, rfl, hdesk, hjournal⟩
  · exact ⟨congrArg c.settle (respond_eq hD hc hdesk), hafter⟩

theorem respects_pause (span : Nat) :
    Respects (StagesAgree D) (Stage.pause span : Action (Stage σ) Unit) := by
  have hwait : Respects (StagesAgree D) (Stage.call (.wait span) : Action (Stage σ) Unit) :=
    respects_call hD rfl
  unfold Stage.pause
  split
  · exact respects_ensureRunning.bind fun _ => hwait
  · exact hwait

theorem isOpen_alike {s t u : Stage σ} {app : String} {seen : Bool} (h : StagesAgree D s t)
    (hs : Stage.isOpen app s = (seen, u)) :
    ∃ v, Stage.isOpen app t = (seen, v) ∧ StagesAgree D u v := by
  rcases hcall : Stage.call (.isOpen app) s with ⟨r, s'⟩
  obtain ⟨t', hcall', hafter⟩ := (respects_call hD rfl).alike h hcall
  unfold Stage.isOpen at hs ⊢
  rw [hcall] at hs
  rw [hcall']
  cases r with
  | ok b =>
    cases hs
    exact ⟨t', rfl, hafter⟩
  | error f =>
    cases hs
    exact ⟨t', rfl, hafter⟩

theorem respects_isOpen (app : String) :
    Respects (StagesAgree D)
      (fun s => let (b, s) := Stage.isOpen app s; (.ok b, s) : Action (Stage σ) Bool) := by
  intro s t h
  rcases hs : Stage.isOpen app s with ⟨seen, u⟩
  obtain ⟨v, ht, hafter⟩ := isOpen_alike hD h hs
  dsimp only
  rw [hs, ht]
  exact ⟨rfl, hafter⟩

/-! ## The lock and the front -/

omit hD in
theorem acquireUntil_eq (app : String) (deadline : Nat) (s : Stage σ) :
    Arbiter.acquireUntil app deadline s =
      match s.lock.tryAcquire app s.clock with
      | (some lease, lock) => (.ok lease, { s with lock })
      | (none, _) =>
        if deadline ≤ s.clock then (.error (s.lock.waitedFault app), s)
        else
          match Stage.pause s.lock.retryInterval s with
          | (.error f, t) => (.error f, t)
          | (.ok (), t) => Arbiter.acquireUntil app deadline t := by
  fun_cases Arbiter.acquireUntil app deadline s with
  | case1 lease lock htry => simp only [htry]
  | case2 lock htry hlate => simp only [htry, if_pos hlate]
  | case3 lock htry hlate f u hpause => simp only [htry, if_neg hlate, hpause]
  | case4 lock htry hlate u hpause => simp only [htry, if_neg hlate, hpause]

theorem respects_acquireUntil (app : String) (deadline : Nat) :
    Respects (StagesAgree D) (Arbiter.acquireUntil app deadline : Action (Stage σ) Lease) := by
  intro s t h
  -- one attempt in each case; the last one also pauses and starts over
  fun_induction Arbiter.acquireUntil app deadline s generalizing t with
  | case1 s lease lock htry =>
    obtain ⟨desk, journal, rfl, hdesk, hjournal⟩ := h
    have htaken : Arbiter.acquireUntil app deadline { s with desk, journal } =
        (.ok lease, { s with desk, journal, lock }) := by
      rw [acquireUntil_eq]
      simp only [htry]
    rw [htaken]
    exact ⟨rfl, desk, journal, rfl, hdesk, hjournal⟩
  | case2 s lock htry hlate =>
    obtain ⟨desk, journal, rfl, hdesk, hjournal⟩ := h
    have hover : Arbiter.acquireUntil app deadline { s with desk, journal } =
        (.error (s.lock.waitedFault app), { s with desk, journal }) := by
      rw [acquireUntil_eq]
      simp only [htry, if_pos hlate]
    rw [hover]
    exact ⟨rfl, desk, journal, rfl, hdesk, hjournal⟩
  | case3 s lock htry hlate f u hpause =>
    obtain ⟨v, hv, huv⟩ := (respects_pause hD _).alike h hpause
    obtain ⟨desk, journal, rfl, -, -⟩ := h
    have hfailed : Arbiter.acquireUntil app deadline { s with desk, journal } = (.error f, v) := by
      rw [acquireUntil_eq]
      simp only [htry, if_neg hlate, hv]
    rw [hfailed]
    exact ⟨rfl, huv⟩
  | case4 s lock htry hlate u hpause _ ih =>
    obtain ⟨v, hv, huv⟩ := (respects_pause hD _).alike h hpause
    obtain ⟨desk, journal, rfl, -, -⟩ := h
    have hagain : Arbiter.acquireUntil app deadline { s with desk, journal } =
        Arbiter.acquireUntil app deadline v := by
      rw [acquireUntil_eq]
      simp only [htry, if_neg hlate, hv]
    rw [hagain]
    exact ih v huv

theorem respects_acquireLock (app : String) :
    Respects (StagesAgree D) (Arbiter.acquireLock app : Action (Stage σ) Lease) := by
  intro s t h
  have huntil := respects_acquireUntil hD app (s.clock + nanoseconds s.lock.acquireTimeout) s t h
  obtain ⟨desk, journal, rfl, -, -⟩ := h
  exact huntil

theorem respects_minimizeAll (apps : List String) :
    Respects (StagesAgree D) (Arbiter.minimizeAll apps : Action (Stage σ) Unit) := by
  induction apps with
  | nil => exact respects_pure ()
  | cons app rest ih =>
    have hminimize :
        Respects (StagesAgree D) (Stage.call (.minimize app) : Action (Stage σ) Unit) :=
      respects_call hD rfl
    unfold Arbiter.minimizeAll
    refine (respects_isOpen hD app).bind fun isOpen => ?_
    split
    · exact hminimize.attempt.bind fun _ => ih
    · exact ih

theorem respects_bringToFront (app : String) :
    Respects (StagesAgree D) (Arbiter.bringToFront app : Action (Stage σ) Unit) := by
  have hfocus : Respects (StagesAgree D) (Stage.call (.focus app) : Action (Stage σ) Unit) :=
    respects_call hD rfl
  have hfront : Respects (StagesAgree D)
      (Action.modify fun s => { s with front := some app } : Action (Stage σ) Unit) := by
    refine respects_modify ?_
    rintro s _ ⟨desk, journal, rfl, hdesk, hjournal⟩
    exact ⟨desk, journal, rfl, hdesk, hjournal⟩
  unfold Arbiter.bringToFront
  refine (respects_gets ?_).bind fun front => ?_
  · rintro s _ ⟨desk, journal, rfl, -, -⟩
    rfl
  split
  · refine (respects_gets ?_).bind fun windows => ?_
    · rintro s _ ⟨desk, journal, rfl, -, -⟩
      rfl
    refine (respects_minimizeAll hD _).bind fun _ => ?_
    split
    · exact hfocus.bind fun _ => hfront
    · exact hfront
  · exact respects_pure ()

theorem respects_acquire (app : String) :
    Respects (StagesAgree D) (Arbiter.acquire app : Action (Stage σ) Lease) := by
  unfold Arbiter.acquire
  refine (respects_acquireLock hD app).bind fun lease => ?_
  refine (respects_bringToFront hD app).attempt.bind fun outcome => ?_
  cases outcome with
  | ok _ => exact respects_pure lease
  | error f =>
    exact (respects_modify fun _ _ h => h.dropLease lease).bind fun _ => respects_fail f

/-! ## Looking at the screen -/

theorem respects_colorWait (w : ColorWait) (point : Point) (expected : Color) :
    Respects (StagesAgree D) (w.wait point expected : Action (Stage σ) Bool) := by
  have hsample : Respects (StagesAgree D) (w.sample point expected : Action (Stage σ) Bool) := by
    unfold ColorWait.sample
    refine (respects_call hD (c := .pixel point) rfl).attempt.bind fun observed => ?_
    cases observed with
    | ok color => exact respects_pure _
    | error f => exact respects_pure false
  unfold ColorWait.wait
  induction w.attempts - 1 with
  | zero => exact hsample
  | succ more ih =>
    unfold ColorWait.sampling
    refine hsample.bind fun shown => ?_
    split
    · exact respects_pure true
    · exact (respects_pause hD _).bind fun _ => ih

theorem respects_keep (r : TextReader) (stage : String) (label : ReadLabel) (picture : Image) :
    Respects (StagesAgree D) (r.keep stage label picture : Action (Stage σ) Unit) := by
  unfold TextReader.keep
  split
  · exact respects_call hD (c := .keep _ _ _) rfl
  · exact respects_pure ()

theorem respects_attemptRead (r : TextReader) (region : Region) (label : ReadLabel) :
    Respects (StagesAgree D) (r.attemptRead region label : Action (Stage σ) (Option String)) := by
  have honce : Respects (StagesAgree D) (r.readOnce region label : Action (Stage σ) String) := by
    unfold TextReader.readOnce
    split
    · exact respects_fail _
    · refine (respects_call hD (c := .screenshot region) rfl).bind fun raw => ?_
      refine (respects_keep hD r _ _ _).bind fun _ => (respects_keep hD r _ _ _).bind fun _ => ?_
      exact respects_call hD (c := .recognize _ _) rfl
  unfold TextReader.attemptRead
  refine honce.attempt.bind fun outcome => ?_
  cases outcome with
  | ok text => exact respects_pure _
  | error f =>
    dsimp only
    split
    · exact respects_fail f
    · exact respects_pure none

theorem respects_read (r : TextReader) (region : Region) (label : ReadLabel) :
    Respects (StagesAgree D) (r.read region label : Action (Stage σ) String) := by
  unfold TextReader.read
  induction r.attempts - 1 with
  | zero =>
    unfold TextReader.reading
    exact (respects_attemptRead hD r region label).bind fun found => respects_pure _
  | succ more ih =>
    unfold TextReader.reading
    refine (respects_attemptRead hD r region label).bind fun found => ?_
    cases found with
    | some text => exact respects_pure text
    | none => exact (respects_pause hD _).bind fun _ => ih

/-! ## Starting the application -/

variable (e : Setup)

omit hD in
theorem awaitWindow_eq (wanted : Bool) (deadline : Nat) (s : Stage σ) :
    e.awaitWindow wanted deadline s =
      match Stage.isOpen e.app s with
      | (seen, t) =>
        if seen = wanted then (.ok true, t)
        else if deadline ≤ t.clock then (.ok false, t)
        else
          match Stage.pause e.config.windowPollInterval t with
          | (.error f, u) => (.error f, u)
          | (.ok (), u) => e.awaitWindow wanted deadline u := by
  fun_cases Setup.awaitWindow e wanted deadline s with
  | case1 t hl => simp only [hl, if_true]
  | case2 seen t hl hseen hlate => simp only [hl, if_neg hseen, if_pos hlate]
  | case3 seen t hl hseen hlate f u hpause =>
    simp only [hl, if_neg hseen, if_neg hlate, hpause]
  | case4 seen t hl hseen hlate u hpause =>
    simp only [hl, if_neg hseen, if_neg hlate, hpause]

theorem respects_awaitWindow (wanted : Bool) (deadline : Nat) :
    Respects (StagesAgree D) (e.awaitWindow wanted deadline : Action (Stage σ) Bool) := by
  intro s t h
  -- one look in each case; the last one also pauses and starts over
  fun_induction Setup.awaitWindow e wanted deadline s generalizing t with
  | case1 s u hl =>
    obtain ⟨v, hv, huv⟩ := isOpen_alike hD h hl
    have hseen : e.awaitWindow wanted deadline t = (.ok true, v) := by
      rw [awaitWindow_eq]
      simp only [hv, if_true]
    rw [hseen]
    exact ⟨rfl, huv⟩
  | case2 s seen u hl hseen hlate =>
    obtain ⟨v, hv, huv⟩ := isOpen_alike hD h hl
    rw [huv.clock_eq] at hlate
    have hover : e.awaitWindow wanted deadline t = (.ok false, v) := by
      rw [awaitWindow_eq]
      simp only [hv, if_neg hseen, if_pos hlate]
    rw [hover]
    exact ⟨rfl, huv⟩
  | case3 s seen u hl hseen hlate f w hpause =>
    obtain ⟨v, hv, huv⟩ := isOpen_alike hD h hl
    obtain ⟨x, hx, hwx⟩ := (respects_pause hD _).alike huv hpause
    rw [huv.clock_eq] at hlate
    have hfailed : e.awaitWindow wanted deadline t = (.error f, x) := by
      rw [awaitWindow_eq]
      simp only [hv, if_neg hseen, if_neg hlate, hx]
    rw [hfailed]
    exact ⟨rfl, hwx⟩
  | case4 s seen u hl hseen hlate w hpause _ ih =>
    obtain ⟨v, hv, huv⟩ := isOpen_alike hD h hl
    obtain ⟨x, hx, hwx⟩ := (respects_pause hD _).alike huv hpause
    have hearly : ¬ deadline ≤ v.clock := by rwa [huv.clock_eq] at hlate
    have hagain : e.awaitWindow wanted deadline t = e.awaitWindow wanted deadline x := by
      rw [awaitWindow_eq]
      simp only [hv, if_neg hseen, if_neg hearly, hx]
    rw [hagain]
    exact ih x hwx

theorem respects_windowBecomes (wanted : Bool) (timeout : Nat) :
    Respects (StagesAgree D) (e.windowBecomes wanted timeout : Action (Stage σ) Bool) := by
  intro s t h
  unfold Setup.windowBecomes
  rw [← h.clock_eq]
  exact respects_awaitWindow hD e wanted _ s t h

theorem respects_ensureOpen : Respects (StagesAgree D) (e.ensureOpen : Action (Stage σ) Unit) := by
  unfold Setup.ensureOpen
  refine (respects_isOpen hD e.app).bind fun isOpen => ?_
  split
  · exact respects_pure ()
  unfold Setup.start
  refine (respects_call hD (c := .launch _ _) rfl).bind fun _ => ?_
  refine (respects_windowBecomes hD e true _).bind fun shown => ?_
  split
  · refine (respects_pause hD _).bind fun _ => ?_
    exact respects_modify fun _ _ h => h.invalidateFront e.app
  · exact respects_fail _

theorem respects_relaunch : Respects (StagesAgree D) (e.relaunch : Action (Stage σ) Unit) := by
  have hgone := respects_windowBecomes hD e false e.config.closeTimeout
  have hterminate : Respects (StagesAgree D) (e.terminate : Action (Stage σ) Unit) := by
    unfold Setup.terminate
    refine (respects_call hD (c := .terminate _) rfl).bind fun _ => hgone.bind fun gone => ?_
    split
    · exact respects_pure ()
    · exact respects_fail _
  have hrest := (respects_modify fun _ _ h => h.invalidateFront e.app :
    Respects (StagesAgree D) (Action.modify (Arbiter.invalidateFront e.app))).bind
      fun _ => respects_ensureOpen hD e
  unfold Setup.relaunch
  refine (respects_call hD (c := .close _) rfl).attempt.bind fun _ => hgone.bind fun gone => ?_
  split
  · exact hrest
  · exact hterminate.bind fun _ => hrest

/-! ## Performing commands -/

theorem respects_locate (p : Position) :
    Respects (StagesAgree D) (e.locate p : Action (Stage σ) Point) := by
  unfold Setup.locate
  exact (respects_call hD (c := .clientRect _) rfl).bind fun rect => respects_pure _

theorem respects_clickPoint (target : Point) :
    Respects (StagesAgree D) (e.clickPoint target : Action (Stage σ) Unit) := by
  unfold Setup.clickPoint
  refine (respects_record _).bind fun _ => ?_
  exact (respects_call hD (c := .move _ _) rfl).bind fun _ => respects_call hD (c := .click) rfl

theorem respects_click (position : Position) (condition : Option ColorCondition) :
    Respects (StagesAgree D) (e.click position condition : Action (Stage σ) Unit) := by
  unfold Setup.click
  refine (respects_locate hD e position).bind fun target => ?_
  cases condition with
  | none => exact respects_clickPoint hD e target
  | some c =>
    have hmeets : Respects (StagesAgree D) (e.meets c : Action (Stage σ) Bool) := by
      unfold Setup.meets
      refine (respects_locate hD e c.position).bind fun point => ?_
      exact (respects_record _).bind fun _ => respects_colorWait hD _ point c.expected
    refine hmeets.bind fun met => ?_
    split
    · exact respects_clickPoint hD e target
    · exact respects_pure ()

theorem respects_typeText (text : String) :
    Respects (StagesAgree D) (e.typeText text : Action (Stage σ) Unit) := by
  unfold Setup.typeText
  refine (respects_call hD (c := .backspace _ _) rfl).bind fun _ => ?_
  exact (respects_pause hD _).bind fun _ => respects_call hD (c := .write _) rfl

theorem respects_awaitColor (position : Position) (expected : Color) :
    Respects (StagesAgree D) (e.awaitColor position expected : Action (Stage σ) Unit) := by
  unfold Setup.awaitColor
  refine (respects_locate hD e position).bind fun point => ?_
  refine (respects_record _).bind fun _ => ?_
  refine (respects_colorWait hD _ point expected).bind fun shown => ?_
  split
  · exact respects_pure ()
  · exact respects_fail _

theorem respects_readArea (operation : String) (area : Area) :
    Respects (StagesAgree D) (e.readArea operation area : Action (Stage σ) String) := by
  unfold Setup.readArea
  refine (respects_call hD (c := .clientRect _) rfl).bind fun rect => ?_
  exact (respects_record _).bind fun _ => respects_read hD _ _ _

theorem respects_dragPoints (start finish : Point) :
    Respects (StagesAgree D) (e.dragPoints start finish : Action (Stage σ) Unit) := by
  unfold Setup.dragPoints
  refine (respects_call hD (c := .move _ _) rfl).bind fun _ => ?_
  refine (respects_call hD (c := .press) rfl).bind fun _ => ?_
  refine (respects_call hD (c := .move _ _) rfl).bind fun _ => ?_
  exact (respects_pause hD _).bind fun _ => respects_call hD (c := .release) rfl

theorem respects_surface (operation : String) (lease : Lease) :
    (∀ area, Respects (StagesAgree D) ((e.surface operation lease).readArea area)) ∧
      (∀ position, Respects (StagesAgree D) ((e.surface operation lease).clickAt position)) ∧
      ∀ start finish, Respects (StagesAgree D) ((e.surface operation lease).drag start finish) := by
  refine ⟨fun area => ?_, fun position => ?_, fun start finish => ?_⟩
  · exact (respects_ensureHeld lease).bind fun _ => respects_readArea hD e operation area
  · refine (respects_ensureHeld lease).bind fun _ => ?_
    exact (respects_locate hD e position).bind fun target => respects_clickPoint hD e target
  · refine (respects_ensureHeld lease).bind fun _ => ?_
    refine (respects_locate hD e start).bind fun from_ => ?_
    exact (respects_locate hD e finish).bind fun to_ => respects_dragPoints hD e from_ to_

end Calls

/-! ## Memories on such stages -/

def PairsAgree {ρ : Type} (D : σ → σ → Prop) (s t : ρ × Stage σ) : Prop :=
  s.1 = t.1 ∧ StagesAgree D s.2 t.2

section Memories

variable {ρ α : Type} {D : σ → σ → Prop}

theorem pairsAgree_onSnd {x : Action (Stage σ) α} (hx : Respects (StagesAgree D) x) :
    Respects (PairsAgree D) (x.onSnd : Action (ρ × Stage σ) α) := by
  intro s t h
  obtain ⟨hresult, hafter⟩ := hx s.2 t.2 h.2
  exact ⟨hresult, h.1, hafter⟩

/-- What comes of a step does not matter, if nobody looks at it. -/
theorem respects_attempt_then {τ β : Type} {R : τ → τ → Prop} {x : Action τ α} {y : Action τ β}
    (hx : ∀ s t, R s t → R (x s).2 (x t).2) (hy : Respects R y) :
    Respects R (x.attempt >>= fun _ => y) := by
  intro s t hst
  have hgoes : ∀ u, (x.attempt >>= fun _ => y) u = y (x u).2 := fun u => Action.bind_of_ok rfl
  rw [hgoes s, hgoes t]
  exact hy _ _ (hx s t hst)

theorem pairsAgree_operationLabel :
    Respects (PairsAgree D) (Action.gets fun s : Memory × Stage σ => s.1.operationLabel) :=
  respects_gets fun _ _ h => congrArg Memory.operationLabel h.1

theorem pairsAgree_answering (f : Question → Question) :
    Respects (PairsAgree D) (Setup.answering f : Action (Memory × Stage σ) Unit) :=
  respects_modify fun _ _ h =>
    ⟨congrArg (fun m : Memory => { m with question := f m.question }) h.1, h.2⟩

theorem pairsAgree_note (f : Question → Question) :
    Respects (PairsAgree D) (ScrollSpec.note f : Action (Question × Stage σ) Unit) :=
  respects_modify fun _ _ h => ⟨congrArg f h.1, h.2⟩

variable [Desk σ] (hD : Indifferent D) (e : Setup)

include hD

theorem pairsAgree_deliver :
    Respects (PairsAgree D) (e.deliver : Action (Memory × Stage σ) Unit) := by
  unfold Setup.deliver
  refine (respects_gets fun s t h => ?_).bind fun results => ?_
  · exact congrArg (fun m : Memory => m.results e.config.catalog e.today) h.1
  split
  · exact respects_pure ()
  · refine respects_attempt_then (fun s t h => ⟨h.1, ?_⟩) (respects_pure ())
    exact stagesAgree_afterCall hD h.2 (.deliver results)

theorem pairsAgree_search (spec : ScrollSpec) (operation : String) (lease : Lease) (today : Day)
    (maxPasses : Nat) :
    Respects (PairsAgree D)
      (spec.search (e.surface operation lease : Surface (Stage σ)) today maxPasses) := by
  obtain ⟨hreads, hclicks, hdrags⟩ := respects_surface hD e operation lease
  have hparallel : Probing.Parallel spec today (e.surface operation lease : Surface (Stage σ))
      (e.surface operation lease : Surface (Stage σ)) fun _ x _ => Respects (PairsAgree D) x :=
    { done := respects_pure
      bind := Respects.bind
      asks := respects_gets fun _ _ h =>
        congrArg (fun q : Question => (q.getText? today spec.target).getD "") h.1
      refuses := fun _ => respects_ofExcept _
      judges := fun _ => pairsAgree_note _
      gathers := fun _ _ _ => pairsAgree_note _
      reads := fun area => pairsAgree_onSnd (hreads area)
      clicks := fun position => pairsAgree_onSnd (hclicks position)
      drags := fun start finish => pairsAgree_onSnd (hdrags start finish) }
  exact hparallel.search maxPasses

theorem pairsAgree_scroll (spec : ScrollSpec) (lease : Lease) :
    Respects (PairsAgree D) (e.scroll spec lease : Action (Memory × Stage σ) Unit) := by
  rintro ⟨m, s⟩ ⟨n, t⟩ ⟨hmemory, hstage⟩
  have hmemory : m = n := hmemory
  subst hmemory
  have hsearch := pairsAgree_search hD e spec m.operationLabel lease e.today
    e.config.maxScrollPasses (m.question, s) (m.question, t) ⟨rfl, hstage⟩
  unfold Setup.scroll
  dsimp only
  generalize spec.search (e.surface m.operationLabel lease) e.today e.config.maxScrollPasses
    (m.question, s) = first at hsearch ⊢
  generalize spec.search (e.surface m.operationLabel lease) e.today e.config.maxScrollPasses
    (m.question, t) = second at hsearch ⊢
  obtain ⟨hresult, hquestion, hafter⟩ := hsearch
  refine ⟨congrArg (Except.map fun _ => ()) hresult, ?_, hafter⟩
  exact congrArg (fun question => { m with question }) hquestion

theorem pairsAgree_operandText (operand : Operand) :
    Respects (PairsAgree D) (e.operandText operand : Action (Memory × Stage σ) String) := by
  cases operand with
  | read area =>
    exact pairsAgree_operationLabel.bind fun operation =>
      pairsAgree_onSnd (respects_readArea hD e operation area)
  | question name =>
    exact respects_gets fun _ _ h =>
      congrArg (fun m : Memory => (m.question.getText? e.today name).getD "") h.1

theorem pairsAgree_use (lease : Lease) (c : Command) :
    Respects (PairsAgree D) (e.use lease c : Action (Memory × Stage σ) Unit) := by
  cases c with
  | click position condition => exact pairsAgree_onSnd (respects_click hD e position condition)
  | write text =>
    refine (respects_gets fun _ _ h => congrArg Memory.question h.1).bind fun question => ?_
    exact (respects_ofExcept _).bind fun typed => pairsAgree_onSnd (respects_typeText hD e typed)
  | color position expected => exact pairsAgree_onSnd (respects_awaitColor hD e position expected)
  | read area name =>
    refine pairsAgree_operationLabel.bind fun operation => ?_
    refine (pairsAgree_onSnd (respects_readArea hD e operation area)).bind fun text => ?_
    exact pairsAgree_answering _
  | compare c =>
    refine Respects.bind ?_ fun _ => respects_pure ()
    refine (pairsAgree_operandText hD e c.lhs).bind fun left => ?_
    refine (pairsAgree_operandText hD e c.rhs).bind fun right => ?_
    refine (respects_ofExcept (evaluate c.op left right)).bind fun outcome => ?_
    exact (pairsAgree_answering _).bind fun _ => respects_pure _
  | scroll spec => exact pairsAgree_scroll hD e spec lease
  | paramChange params => exact respects_pure ()
  | webhook params => exact respects_pure ()

theorem pairsAgree_perform (c : Command) :
    Respects (PairsAgree D) (e.perform c : Action (Memory × Stage σ) Unit) := by
  have hleased : Respects (PairsAgree D) (do
      let lease ← (Arbiter.acquire e.app).onSnd
      (e.use lease c).ending fun s => (s.1, s.2.dropLease lease) :
        Action (Memory × Stage σ) Unit) :=
    (pairsAgree_onSnd (respects_acquire hD e.app)).bind fun lease =>
      (pairsAgree_use hD e lease c).ending fun _ _ h => ⟨h.1, h.2.dropLease lease⟩
  cases c with
  | webhook params => exact pairsAgree_deliver hD e
  | paramChange params =>
    exact respects_modify fun _ _ h => ⟨congrArg (fun m : Memory => m.takeParams params) h.1, h.2⟩
  | _ => exact hleased

end Memories

/-! ## Engines on such stages -/

def SessionsAgree (D : σ → σ → Prop) (s t : Session σ) : Prop :=
  s.engine = t.engine ∧ StagesAgree D s.stage t.stage

section Engines

variable {α : Type} {D : σ → σ → Prop}

theorem sessionsAgree_onStage {x : Action (Stage σ) α} (hx : Respects (StagesAgree D) x) :
    Respects (SessionsAgree D) (Session.onStage x) := by
  intro s t h
  obtain ⟨hresult, hafter⟩ := hx s.stage t.stage h.2
  exact ⟨hresult, h.1, hafter⟩

theorem sessionsAgree_onMemory {x : Action (Memory × Stage σ) α} (hx : Respects (PairsAgree D) x) :
    Respects (SessionsAgree D) (Session.onMemory x) := by
  rintro ⟨engine, s⟩ ⟨engine', t⟩ ⟨hengine, hstage⟩
  have hengine : engine = engine' := hengine
  subst hengine
  obtain ⟨hresult, hmemory, hafter⟩ := hx (engine.memory, s) (engine.memory, t) ⟨rfl, hstage⟩
  exact ⟨hresult, congrArg (fun memory => { engine with memory }) hmemory, hafter⟩

theorem SessionsAgree.setAgenda {s t : Session σ} (h : SessionsAgree D s t) (a : Agenda) :
    SessionsAgree D (s.setAgenda a) (t.setAgenda a) :=
  ⟨congrArg (fun engine => { engine with agenda := a }) h.1, h.2⟩

theorem SessionsAgree.agenda_eq {s t : Session σ} (h : SessionsAgree D s t) : s.agenda = t.agenda :=
  congrArg Engine.agenda h.1

/-- Whatever the receiver answers, the engine goes on in the same way. -/
theorem lockstep_sessionsAgree [Desk σ] (hD : Indifferent D) (e : Setup) :
    SideBySide.Lockstep e (fun _ => True) (SessionsAgree D) where
  agenda_eq h := h.agenda_eq
  head _ _ := trivial
  popped := by
    intro s t c commands h _
    unfold Career.pop
    rw [← h.agenda_eq]
    exact h.setAgenda _
  loaded h := h.setAgenda _
  dropped h := h.setAgenda _
  begunAgain h := h.setAgenda _
  phased _ h := h.setAgenda _
  running := sessionsAgree_onStage respects_ensureRunning
  opens := sessionsAgree_onStage (respects_ensureOpen hD e)
  relaunches := sessionsAgree_onStage (respects_relaunch hD e)
  pauses := sessionsAgree_onStage (respects_pause hD _)
  signals := sessionsAgree_onStage (respects_call hD (c := .signal _) rfl)
  notes _ := sessionsAgree_onStage (respects_record _)
  excuses := sessionsAgree_onMemory (pairsAgree_operationLabel.bind fun _ => pairsAgree_answering _)
  performs c _ := sessionsAgree_onMemory (pairsAgree_perform hD e c)

end Engines

end Playback.Proofs.Receiver
