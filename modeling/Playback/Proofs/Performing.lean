import Playback.Engine.Perform
import Playback.Proofs.Exclusion
import Playback.Proofs.Footprints
import Playback.Proofs.Probing
/-!
# Performing commands

Which effects a command has is known from the effects of the calls it makes. It fails with the calls
it needs and gets over the others. In particular no command but a delivery makes a call that starts
or ends an application, hands over results or signals; and of itself only waiting for a color
reports a verification timeout.
-/

namespace Playback.Proofs.Performing

open Effects Exclusion Footprints

variable {σ τ : Type} [Desk σ] {R : Effect σ}

def needs : Call → Bool
  | .move .. => true
  | .click => true
  | .write _ => true
  | .backspace .. => true
  | .clientRect _ => true
  | .focus _ => true
  | _ => false

def tries : Call → Bool
  | .pixel _ => true
  | .screenshot _ => true
  | .recognize .. => true
  | .keep .. => true
  | .isOpen _ => true
  | .minimize _ => true
  | _ => false

/-- What a command may fail with of itself, waiting for a color aside. -/
def Refusal : Fault → Prop
  | .acquisitionTimeout _ => True
  | .invalidDate _ => True
  | .missingSecret _ => True
  | _ => False

/-- An effect that taking, renewing and losing the input lock obeys. -/
structure Locking (R : Effect σ) : Prop extends Waiting R where
  taken : ∀ s app, R s none { s with lock := (s.lock.tryAcquire app s.clock).2 }
  renewed : ∀ s lease, R s none { s with lock := (s.lock.renew lease s.clock).2 }
  dropped : ∀ {s o t} lease, R s o t → R s o (t.dropLease lease)
  refused : ∀ f, Refusal f → ∀ s, R s (some f) s

/-- An effect that everything obeys of which the use of the screen consists, dragging aside. -/
structure Acting (R : Effect σ) : Prop extends Waiting R where
  needed : ∀ c, needs c = true → Obeys R (Stage.call c : Action (Stage σ) c.Reply)
  tried : ∀ c, tries c = true → Obeys (Lenient R) (Stage.call c : Action (Stage σ) c.Reply)
  shown : ∀ s m, R s none (s.record (.shown m markerSpan))
  fronted : ∀ s front, R s none { s with front }

/-- An effect that everything obeys of which the use of the screen under a lease consists, dragging
and waiting for a color aside. -/
structure Using (R : Effect σ) : Prop extends Acting R where
  renewed : ∀ s lease, R s none { s with lock := (s.lock.renew lease s.clock).2 }
  refused : ∀ f, Refusal f → ∀ s, R s (some f) s

/-- An effect that everything obeys of which commands consist, dragging, waiting for a color and
delivering aside. -/
structure Playing (R : Effect σ) : Prop extends Locking R, Acting R

theorem Playing.using (h : Playing R) : Using R := ⟨h.toActing, h.renewed, h.refused⟩

theorem Locking.of_relocked (h : Waiting R)
    (hrelocked : ∀ {s o t} lock, R s o t → R s o { t with lock })
    (hrefused : ∀ f, Refusal f → ∀ s, R s (some f) s) : Locking R where
  toWaiting := h
  taken s _ := hrelocked _ (h.refl s)
  renewed s _ := hrelocked _ (h.refl s)
  dropped _ hst := hrelocked _ hst
  refused := hrefused

theorem Acting.mono {R' : Effect σ} (h : Acting R) (hR' : Composable R')
    (hsub : ∀ {s o t}, R s o t → R' s o t) : Acting R' where
  toWaiting := h.toWaiting.mono hR' hsub
  needed c hc := (h.needed c hc).mono fun _ _ _ => hsub
  tried c hc := (h.tried c hc).mono fun _ _ _ => Lenient.mono hsub
  shown s m := hsub (h.shown s m)
  fronted s front := hsub (h.fronted s front)

theorem Playing.mono {R' : Effect σ} (h : Playing R) (hR' : Composable R')
    (hsub : ∀ {s o t}, R s o t → R' s o t)
    (hrelocked : ∀ {s o t} lock, R' s o t → R' s o { t with lock }) : Playing R' :=
  { Locking.of_relocked (h.toWaiting.mono hR' hsub) hrelocked fun f hf s =>
      hsub (h.refused f hf s), h.toActing.mono hR' hsub with }

/-! ## The input lock and the front window -/

theorem obeys_acquireLock (h : Locking R) (app : String) :
    Obeys R (Arbiter.acquireLock app : Action (Stage σ) Lease) := by
  have hpause : ∀ {s t : Stage σ} {r : Except Fault Unit},
      Stage.pause s.lock.retryInterval s = (r, t) → R s (faultOf r) t := fun {s t r} hp =>
    obeys_of_eq (obeys_pause h.toWaiting s.lock.retryInterval) hp
  intro s
  unfold Arbiter.acquireLock
  generalize s.clock + nanoseconds s.lock.acquireTimeout = deadline
  fun_induction Arbiter.acquireUntil app deadline s with
  | case1 s lease lock heq =>
    have htaken := h.taken s app
    rw [heq] at htaken
    exact htaken
  | case2 s lock _ _ => exact h.refused (s.lock.waitedFault app) trivial s
  | case3 s lock _ _ f t hp => exact hpause hp
  | case4 s lock _ _ t hp _ ih => exact h.trans (hpause hp) ih

section Parts

variable (h : Acting R)

include h

theorem obeys_minimizeAll (apps : List String) :
    Obeys R (Arbiter.minimizeAll apps : Action (Stage σ) Unit) := by
  have hR := h.toComposable
  induction apps with
  | nil => exact obeys_pure hR ()
  | cons app rest ih =>
    unfold Arbiter.minimizeAll
    refine (obeys_isOpen (h.tried (.isOpen app) rfl)).bind hR fun isOpen => ?_
    split
    · exact (h.tried (.minimize app) rfl).attempt.bind hR fun _ => ih
    · exact ih

theorem obeys_bringToFront (app : String) :
    Obeys R (Arbiter.bringToFront app : Action (Stage σ) Unit) := by
  have hR := h.toComposable
  have hfront : Obeys R (Action.modify fun s : Stage σ => { s with front := some app }) :=
    obeys_modify fun s => h.fronted s (some app)
  unfold Arbiter.bringToFront
  refine (obeys_gets hR _).bind hR fun front => ?_
  split
  · refine (obeys_gets hR _).bind hR fun windows => ?_
    refine (obeys_minimizeAll h _).bind hR fun _ => ?_
    split
    · exact (h.needed (.focus app) rfl).bind hR fun _ => hfront
    · exact hfront
  · exact obeys_pure hR ()

/-! ## Colors and texts -/

theorem obeys_sampling (w : ColorWait) (point : Point) (expected : Color) (more : Nat) :
    Obeys R (w.sampling point expected more : Action (Stage σ) Bool) := by
  have hR := h.toComposable
  have hsample : Obeys R (w.sample point expected : Action (Stage σ) Bool) := by
    unfold ColorWait.sample
    refine (h.tried (.pixel point) rfl).attempt.bind hR fun seen => ?_
    split <;> exact obeys_pure hR _
  induction more with
  | zero => exact hsample
  | succ more ih =>
    unfold ColorWait.sampling
    refine hsample.bind hR fun shown => ?_
    split
    · exact obeys_pure hR true
    · exact (obeys_pause h.toWaiting _).bind hR fun _ => ih

theorem obeys_keep (r : TextReader) (stage : String) (label : ReadLabel) (picture : Image) :
    Obeys (Lenient R) (r.keep stage label picture : Action (Stage σ) Unit) := by
  unfold TextReader.keep
  split
  · exact h.tried (.keep _ _ _) rfl
  · exact obeys_pure h.toComposable.lenient ()

theorem obeys_readOnce (r : TextReader) (region : Region) (label : ReadLabel) :
    Obeys (Lenient R) (r.readOnce region label : Action (Stage σ) String) := by
  have hL := h.toComposable.lenient
  unfold TextReader.readOnce
  split
  · refine obeys_fail fun s => ⟨h.refl s, ?_⟩
    rintro f ⟨⟩ ⟨⟩
  · refine (h.tried (.screenshot region) rfl).bind hL fun raw => ?_
    refine (obeys_keep h r _ label _).bind hL fun _ => ?_
    refine (obeys_keep h r _ label _).bind hL fun _ => ?_
    exact h.tried (.recognize _ r.mode) rfl

theorem obeys_attemptRead (r : TextReader) (region : Region) (label : ReadLabel) :
    Obeys R (r.attemptRead region label : Action (Stage σ) (Option String)) := by
  have hR := h.toComposable
  unfold TextReader.attemptRead
  refine (obeys_readOnce h r region label).attempt_bind hR (fun text => obeys_pure hR _) ?_ ?_
  · intro g hg
    simp only [hg, Bool.false_eq_true, if_false]
    exact obeys_pure hR none
  · intro g hg s t hfailed
    simp only [hg, if_true]
    exact hfailed

theorem obeys_reading (r : TextReader) (region : Region) (label : ReadLabel) (more : Nat) :
    Obeys R (r.reading region label more : Action (Stage σ) String) := by
  have hR := h.toComposable
  induction more with
  | zero =>
    unfold TextReader.reading
    exact (obeys_attemptRead h r region label).bind hR fun text => obeys_pure hR _
  | succ more ih =>
    unfold TextReader.reading
    refine (obeys_attemptRead h r region label).bind hR fun text => ?_
    split
    · exact obeys_pure hR _
    · exact (obeys_pause h.toWaiting _).bind hR fun _ => ih

end Parts

/-! ## Faults of values -/

theorem refusal_of_parseDay (text : String) (f : Fault) (h : parseDay text = .error f) :
    Refusal f := by
  unfold parseDay at h
  split at h
  · cases h
  · cases h
    trivial

theorem refusal_of_evaluate (op : Operator) (left right : String) (f : Fault)
    (h : evaluate op left right = .error f) : Refusal f := by
  unfold evaluate at h
  split at h
  · cases hl : parseDay left with
    | error g =>
      rw [hl] at h
      cases h
      exact refusal_of_parseDay left f hl
    | ok first =>
      cases hr : parseDay right with
      | error g =>
        rw [hl, hr] at h
        cases h
        exact refusal_of_parseDay right f hr
      | ok second =>
        rw [hl, hr] at h
        cases h
  · split at h <;> cases h

theorem refusal_of_typedText (e : Setup) (q : Question) (text : WriteText) (f : Fault)
    (h : e.typedText q text = .error f) : Refusal f := by
  cases text with
  | literal s => cases h
  | raw s => cases h
  | question name => cases h
  | secret name =>
    simp only [Setup.typedText, Secret.resolve] at h
    split at h
    · split at h
      · cases h
        trivial
      · cases h
    · cases h
      trivial

/-! ## Searching a list -/

structure SurfaceObeys [Staged σ τ] (R : Effect σ) (surface : Surface τ) : Prop where
  readArea : ∀ area, Obeys R (surface.readArea area)
  clickAt : ∀ position, Obeys R (surface.clickAt position)
  drag : ∀ start finish, Obeys R (surface.drag start finish)

omit [Desk σ] in
theorem obeys_search [Staged σ τ] {surface : Surface τ} (hR : Composable R)
    (h : SurfaceObeys R surface) (hrefused : ∀ f, Refusal f → ∀ s, R s (some f) s)
    (spec : ScrollSpec) (today : Day) (maxPasses : Nat) :
    Obeys R (spec.search surface today maxPasses) := by
  have hparallel : Probing.Parallel spec today surface surface fun _ x _ => Obeys R x :=
    { done := obeys_pure hR
      bind := fun hx hf => hx.bind hR hf
      asks := obeys_gets hR _
      refuses := fun reference => obeys_ofExcept hR fun f hf =>
        hrefused f (refusal_of_parseDay reference f hf)
      judges := fun _ => obeys_modify fun s => hR.refl (stageOf s.2)
      gathers := fun _ _ _ => obeys_modify fun s => hR.refl (stageOf s.2)
      reads := fun area => (h.readArea area).onSnd
      clicks := fun position => (h.clickAt position).onSnd
      drags := fun start finish => (h.drag start finish).onSnd }
  exact hparallel.search maxPasses

/-! ## The parts of commands -/

def clickAt (e : Setup) (position : Position) : Action (Stage σ) Unit := do
  let target ← e.locate position
  e.clickPoint target

def dragBetween (e : Setup) (start finish : Position) : Action (Stage σ) Unit := do
  let start ← e.locate start
  let finish ← e.locate finish
  e.dragPoints start finish

section Screen

variable (h : Acting R) (e : Setup)

include h

theorem obeys_locate (p : Position) : Obeys R (e.locate p : Action (Stage σ) Point) := by
  unfold Setup.locate
  exact (h.needed (.clientRect e.app) rfl).bind h.toComposable fun rect =>
    obeys_pure h.toComposable _

theorem obeys_mark (m : Marker) : Obeys R (Stage.mark m : Action (Stage σ) Unit) :=
  obeys_modify fun s => h.shown s m

theorem obeys_clickPoint (target : Point) :
    Obeys R (e.clickPoint target : Action (Stage σ) Unit) := by
  have hR := h.toComposable
  unfold Setup.clickPoint
  refine (obeys_mark h _).bind hR fun _ => ?_
  exact (h.needed (.move target _) rfl).bind hR fun _ => h.needed .click rfl

theorem obeys_clickAt (position : Position) :
    Obeys R (clickAt e position : Action (Stage σ) Unit) :=
  (obeys_locate h e position).bind h.toComposable fun target => obeys_clickPoint h e target

theorem obeys_meets (c : ColorCondition) : Obeys R (e.meets c : Action (Stage σ) Bool) := by
  have hR := h.toComposable
  unfold Setup.meets
  refine (obeys_locate h e _).bind hR fun point => ?_
  exact (obeys_mark h _).bind hR fun _ => obeys_sampling h _ _ _ _

theorem obeys_click (position : Position) (condition : Option ColorCondition) :
    Obeys R (e.click position condition : Action (Stage σ) Unit) := by
  have hR := h.toComposable
  unfold Setup.click
  refine (obeys_locate h e position).bind hR fun target => ?_
  cases condition with
  | none => exact obeys_clickPoint h e target
  | some c =>
    refine (obeys_meets h e c).bind hR fun met => ?_
    split
    · exact obeys_clickPoint h e target
    · exact obeys_pure hR ()

theorem obeys_typeText (text : String) :
    Obeys R (e.typeText text : Action (Stage σ) Unit) := by
  have hR := h.toComposable
  unfold Setup.typeText
  refine (h.needed (.backspace _ _) rfl).bind hR fun _ => ?_
  exact (obeys_pause h.toWaiting _).bind hR fun _ => h.needed (.write text) rfl

theorem obeys_readArea (operation : String) (area : Area) :
    Obeys R (e.readArea operation area : Action (Stage σ) String) := by
  have hR := h.toComposable
  unfold Setup.readArea
  refine (h.needed (.clientRect e.app) rfl).bind hR fun rect => ?_
  exact (obeys_mark h _).bind hR fun _ => obeys_reading h _ _ _ _

theorem obeys_dragPoints
    (hpress : Obeys R (Stage.call .press : Action (Stage σ) Unit))
    (hrelease : Obeys R (Stage.call .release : Action (Stage σ) Unit)) (start finish : Point) :
    Obeys R (e.dragPoints start finish : Action (Stage σ) Unit) := by
  have hR := h.toComposable
  unfold Setup.dragPoints
  refine (h.needed (.move start _) rfl).bind hR fun _ => ?_
  refine hpress.bind hR fun _ => ?_
  refine (h.needed (.move finish _) rfl).bind hR fun _ => ?_
  exact (obeys_pause h.toWaiting _).bind hR fun _ => hrelease

theorem obeys_dragBetween
    (hdrag : ∀ start finish, Obeys R (e.dragPoints start finish : Action (Stage σ) Unit))
    (start finish : Position) :
    Obeys R (dragBetween e start finish : Action (Stage σ) Unit) := by
  have hR := h.toComposable
  refine (obeys_locate h e start).bind hR fun start => ?_
  exact (obeys_locate h e finish).bind hR fun finish => hdrag start finish

theorem obeys_awaitColor {expected : Color}
    (hcolor : ∀ point s, R s (some (e.colorFault expected point)) s) (position : Position) :
    Obeys R (e.awaitColor position expected : Action (Stage σ) Unit) := by
  have hR := h.toComposable
  unfold Setup.awaitColor
  refine (obeys_locate h e position).bind hR fun point => ?_
  refine (obeys_mark h _).bind hR fun _ => ?_
  refine (obeys_sampling h _ _ _ _).bind hR fun shown => ?_
  split
  · exact obeys_pure hR ()
  · exact obeys_fail (hcolor point)

end Screen

/-! ## Single commands -/

theorem obeys_acquire (h : Playing R) (app : String) :
    Obeys R (Arbiter.acquire app : Action (Stage σ) Lease) := by
  have hR := h.toComposable
  unfold Arbiter.acquire
  refine (obeys_acquireLock h.toLocking app).bind hR fun lease => ?_
  refine (obeys_bringToFront h.toActing app).attempt_bind_failing hR
    (fun _ => obeys_pure hR lease) ?_
  exact fun _ _ _ hfailed => h.dropped lease hfailed

section Uses

variable (h : Using R) (e : Setup)

include h

omit e in
theorem obeys_ensureHeld (lease : Lease) :
    Obeys R (Stage.ensureHeld lease : Action (Stage σ) Unit) := by
  intro s
  unfold Stage.ensureHeld
  have hrenewed := h.renewed s lease
  rcases hrenew : s.lock.renew lease s.clock with ⟨held, lock⟩
  rw [hrenew] at hrenewed
  cases held with
  | true => exact hrenewed
  | false =>
    -- a renewal that fails leaves the lock as it is
    have hlost : (s.lock.renew lease s.clock).1 = s.lock.heldBy lease := renew_fst
    rw [hrenew] at hlost
    rw [renew_of_not_heldBy hlost.symm, Prod.mk.injEq] at hrenew
    rw [← hrenew.2]
    exact h.refused InputLock.lostFault trivial s

theorem obeys_surface
    (hdrag : ∀ start finish, Obeys R (e.dragPoints start finish : Action (Stage σ) Unit))
    (operation : String) (lease : Lease) :
    SurfaceObeys R (e.surface operation lease : Surface (Stage σ)) := by
  have hR := h.toComposable
  have hheld := obeys_ensureHeld h lease
  exact {
    readArea := fun area => hheld.bind hR fun _ => obeys_readArea h.toActing e operation area
    clickAt := fun position => hheld.bind hR fun _ => obeys_clickAt h.toActing e position
    drag := fun start finish => hheld.bind hR fun _ =>
      obeys_dragBetween h.toActing e hdrag start finish }

theorem obeys_answering (f : Question → Question) :
    Obeys R (Setup.answering f : Action (Memory × Stage σ) Unit) :=
  obeys_modify fun s => h.refl s.2

theorem obeys_operandText (operand : Operand) :
    Obeys R (e.operandText operand : Action (Memory × Stage σ) String) := by
  have hR := h.toComposable
  cases operand with
  | read area =>
    exact (obeys_gets hR _).bind hR fun operation => (obeys_readArea h.toActing e _ area).onSnd
  | question name => exact obeys_gets hR _

theorem obeys_compare (c : Comparison) :
    Obeys R (e.compare c : Action (Memory × Stage σ) Resolution) := by
  have hR := h.toComposable
  unfold Setup.compare
  refine (obeys_operandText h e c.lhs).bind hR fun left => ?_
  refine (obeys_operandText h e c.rhs).bind hR fun right => ?_
  refine (obeys_ofExcept hR fun f hf =>
    h.refused f (refusal_of_evaluate c.op left right f hf)).bind hR fun outcome => ?_
  exact (obeys_answering h _).bind hR fun _ => obeys_pure hR _

theorem obeys_scroll
    (hdrag : ∀ start finish, Obeys R (e.dragPoints start finish : Action (Stage σ) Unit))
    (spec : ScrollSpec) (lease : Lease) :
    Obeys R (e.scroll spec lease : Action (Memory × Stage σ) Unit) := by
  intro s
  have hsurface := obeys_surface h e hdrag s.1.operationLabel lease
  have hsearch := obeys_search h.toComposable hsurface h.refused spec e.today
    e.config.maxScrollPasses (s.1.question, s.2)
  unfold Setup.scroll
  generalize spec.search (e.surface s.1.operationLabel lease) e.today e.config.maxScrollPasses
    (s.1.question, s.2) = result at hsearch ⊢
  obtain ⟨r, q, t⟩ := result
  cases r <;> exact hsearch

theorem obeys_use (lease : Lease) (c : Command)
    (hcolor : ∀ p expected, c = .color p expected →
      ∀ point s, R s (some (e.colorFault expected point)) s)
    (hdrag : ∀ spec, c = .scroll spec →
      ∀ start finish, Obeys R (e.dragPoints start finish : Action (Stage σ) Unit)) :
    Obeys R (e.use lease c : Action (Memory × Stage σ) Unit) := by
  have hR := h.toComposable
  cases c with
  | click position condition => exact (obeys_click h.toActing e position condition).onSnd
  | write text =>
    refine (obeys_gets hR _).bind hR fun question => ?_
    refine (obeys_ofExcept hR fun f hf =>
      h.refused f (refusal_of_typedText e question text f hf)).bind hR fun typed => ?_
    exact (obeys_typeText h.toActing e typed).onSnd
  | color position expected =>
    exact (obeys_awaitColor h.toActing e (hcolor position expected rfl) position).onSnd
  | read area name =>
    refine (obeys_gets hR _).bind hR fun operation => ?_
    refine (obeys_readArea h.toActing e operation area).onSnd.bind hR fun text => ?_
    exact obeys_answering h _
  | compare c => exact (obeys_compare h e c).bind hR fun _ => obeys_pure hR ()
  | scroll spec => exact obeys_scroll h e (hdrag spec rfl) spec lease
  | paramChange params => exact obeys_pure hR ()
  | webhook params => exact obeys_pure hR ()

end Uses

theorem obeys_deliver (hR : Composable R) (e : Setup)
    (hdeliver : ∀ results,
      Obeys (Lenient R) (Stage.call (.deliver results) : Action (Stage σ) Unit)) :
    Obeys R (e.deliver : Action (Memory × Stage σ) Unit) := by
  unfold Setup.deliver
  refine (obeys_gets hR _).bind hR fun results => ?_
  split
  · exact obeys_pure hR ()
  · exact (Obeys.onSnd (hdeliver results)).attempt.bind hR fun _ => obeys_pure hR ()

theorem obeys_perform (h : Playing R) (e : Setup) (c : Command)
    (hcolor : ∀ p expected, c = .color p expected →
      ∀ point s, R s (some (e.colorFault expected point)) s)
    (hdrag : ∀ spec, c = .scroll spec →
      ∀ start finish, Obeys R (e.dragPoints start finish : Action (Stage σ) Unit))
    (hdeliver : ∀ params, c = .webhook params →
      ∀ results, Obeys (Lenient R) (Stage.call (.deliver results) : Action (Stage σ) Unit)) :
    Obeys R (e.perform c : Action (Memory × Stage σ) Unit) := by
  have hleased : Obeys R (do
      let lease ← (Arbiter.acquire e.app).onSnd
      (e.use lease c).ending fun s => (s.1, s.2.dropLease lease) :
        Action (Memory × Stage σ) Unit) :=
    (obeys_acquire h e.app).onSnd.bind h.toComposable fun lease =>
      (obeys_use h.using e lease c hcolor hdrag).ending fun hused => h.dropped lease hused
  cases c with
  | webhook params => exact obeys_deliver h.toComposable e (hdeliver params rfl)
  | paramChange params => exact obeys_modify fun s => h.refl s.2
  | _ => exact hleased

/-! ## The calls of a command -/

def plays : Call → Bool
  | .close _ => false
  | .terminate _ => false
  | .launch .. => false
  | .deliver _ => false
  | .signal _ => false
  | _ => true

/-- Faults after which the application is not started anew. -/
def Final (f : Fault) : Prop := f.retryable = false

theorem final_of_refusal {f : Fault} (h : Refusal f) : Final f := by
  cases f <;> first | rfl | exact h.elim

theorem playing_trails {kind : Call → Bool} {own : Fault → Prop} (hown : ∀ f, Final f → own f)
    (hwait : ∀ span, kind (.wait span) = true) (hneeds : ∀ c, needs c = true → kind c = true)
    (htries : ∀ c, tries c = true → kind c = true) : Playing (Trails (σ := σ) kind own) where
  toLocking := .of_relocked (waiting_trails (fun _ => hown _ rfl) hwait) (fun _ h => h.keep rfl)
    fun f hf s => trails_nil rfl (by rintro g ⟨⟩; exact hown f (final_of_refusal hf))
  needed c hc := trails_call (fun _ => hown _ rfl) (hneeds c hc)
  tried c hc := tries_call (fun _ => hown _ rfl) (htries c hc)
  shown := trails_record
  fronted s front := trails_nil rfl (by rintro f ⟨⟩)

theorem plays_of_needs (c : Call) (h : needs c = true) : plays c = true := by
  cases c <;> first | rfl | cases h

theorem plays_of_tries (c : Call) (h : tries c = true) : plays c = true := by
  cases c <;> first | rfl | cases h

/-- What performing a command may add to the journal, and with which outcome. -/
inductive Performs : Command → List Entry → Except Fault Unit → Prop
  | empty {params : Dict Answer} : Performs (.webhook params) [] (.ok ())
  | delivered {params : Dict Answer} {results : Dict Json} {reply : Except Fault Unit} :
      Performs (.webhook params) [.called (.deliver results) reply] (.ok ())
  | played {c : Command} {work : List Entry} {outcome : Except Fault Unit}
      (hc : ∀ params, c ≠ .webhook params) (hwork : ∀ entry ∈ work, Within plays entry)
      (htimeout : ∀ f, outcome = .error f → f.retryable = true →
        (∃ p expected, c = .color p expected) ∨ ∃ entry ∈ work, Reports f entry) :
      Performs c work outcome

theorem within_of_performs {c : Command} {work : List Entry} {outcome : Except Fault Unit}
    (h : Performs c work outcome) : ∃ kind, ∀ entry ∈ work, Within kind entry := by
  cases h with
  | empty => exact ⟨plays, by simp⟩
  | delivered => exact ⟨fun _ => true, List.forall_mem_singleton.2 rfl⟩
  | played _ hwork => exact ⟨plays, hwork⟩

/-- The results are handed over once if there are any, and then whatever comes of it is ignored. -/
theorem deliver_cases (e : Setup) (s : Memory × Stage σ) :
    ((s.1.results e.config.catalog e.today).entries = [] ∧ e.deliver s = (.ok (), s)) ∨
      ((s.1.results e.config.catalog e.today).entries ≠ [] ∧ ∃ reply t,
        e.deliver s = (.ok (), (s.1, t)) ∧
        Adds s.2 t [.called (.deliver (s.1.results e.config.catalog e.today)) reply]) := by
  let results := s.1.results e.config.catalog e.today
  have hgets : Action.gets (fun s : Memory × Stage σ => s.1.results e.config.catalog e.today) s =
      (.ok results, s) := rfl
  unfold Setup.deliver
  rw [Action.bind_of_ok hgets]
  by_cases hnone : results.entries = []
  · rw [if_pos (List.isEmpty_iff.2 hnone)]
    exact .inl ⟨hnone, rfl⟩
  · rw [if_neg (mt List.isEmpty_iff.1 hnone)]
    obtain ⟨reply, t, h, hadds⟩ := call_made (c := .deliver results) rfl s.2
    have hattempt : (Stage.call (.deliver results)).onSnd.attempt s = (.ok reply, (s.1, t)) := by
      simp only [Action.attempt, Action.onSnd, h]
    rw [Action.bind_of_ok hattempt]
    exact .inr ⟨hnone, reply, t, rfl, hadds⟩

theorem performs_deliver (e : Setup) (params : Dict Answer) (s : Memory × Stage σ) :
    ∃ work, Adds s (e.deliver s).2 work ∧ Performs (.webhook params) work (e.deliver s).1 := by
  rcases deliver_cases e s with ⟨-, h⟩ | ⟨-, reply, t, h, hadds⟩
  · rw [h]
    exact ⟨[], adds_of_journal_eq rfl, .empty⟩
  · rw [h]
    exact ⟨_, hadds, .delivered⟩

theorem footprint_perform (e : Setup) (c : Command) {own : Fault → Prop}
    (hown : ∀ f, Final f → own f) (hweb : ∀ params, c ≠ .webhook params)
    (hcolor : ∀ p expected, c = .color p expected → ∀ f, own f) :
    Footprint plays own (e.perform c : Action (Memory × Stage σ) Unit) := by
  have hplaying := playing_trails (σ := σ) hown (fun _ => rfl) plays_of_needs plays_of_tries
  have hcall : ∀ {c : Call}, plays c = true →
      Obeys (Trails plays own) (Stage.call c : Action (Stage σ) c.Reply) :=
    trails_call fun _ => hown _ rfl
  refine footprint_of_obeys (fun _ => rfl) (obeys_perform hplaying e c ?_ ?_ ?_)
  · exact fun p expected hc point s =>
      trails_nil rfl (by rintro f ⟨⟩; exact hcolor p expected hc _)
  · exact fun spec _ => obeys_dragPoints hplaying.toActing e (hcall rfl) (hcall rfl)
  · exact fun params hc => absurd hc (hweb params)

theorem performs_perform (e : Setup) (c : Command) (s : Memory × Stage σ) :
    ∃ work, Adds s (e.perform c s).2 work ∧ Performs c work (e.perform c s).1 := by
  by_cases hweb : ∃ params, c = .webhook params
  · obtain ⟨params, rfl⟩ := hweb
    exact performs_deliver e params s
  have hweb : ∀ params, c ≠ .webhook params := fun params h => hweb ⟨params, h⟩
  by_cases hcolor : ∃ p expected, c = .color p expected
  · have hplayed : Footprint plays (fun _ => True)
        (e.perform c : Action (Memory × Stage σ) Unit) :=
      footprint_perform e c (fun _ _ => trivial) hweb fun _ _ _ _ => trivial
    obtain ⟨work, hwork⟩ := hplayed s
    exact ⟨work, hwork.adds, .played hweb hwork.within fun _ _ _ => .inl hcolor⟩
  · obtain ⟨work, hwork⟩ := footprint_perform (σ := σ) e c (fun _ hf => hf) hweb
      (fun p expected h => absurd ⟨p, expected, h⟩ hcolor) s
    refine ⟨work, hwork.adds, .played hweb hwork.within fun f hf hretry => ?_⟩
    rcases hwork.blame f hf with hfinal | hreport
    · exact absurd (hfinal.symm.trans hretry) (by decide)
    · exact .inr hreport

end Playback.Proofs.Performing
