import Playback.Proofs.Leases
import Playback.Proofs.Pressing
import Playback.Proofs.Skipping
/-!
# Searches that lose the input

A search can outlast its lease, and then another party may take the lock over at any call. Each step
of a search renews the lease before it touches the screen. So the first step after a takeover fails,
nothing more happens on the screen, and the job is given up while the lock stays with the party that
took it.
-/

namespace Playback.Proofs.Takeover

open Career Effects Exclusion Footprints Launching Leases Moves Performing Probing Running Skipping

variable {σ : Type}

/-! ## Steps under a lease -/

def failure : Exchange → Option Fault
  | .read _ result => faultOf result
  | .click _ result => faultOf result
  | .drag _ _ result => faultOf result

variable [Desk σ]

/-- What a call of the screen does once the lease is renewed. -/
inductive Executes (e : Setup) (operation : String) : Exchange → Stage σ → Stage σ → Prop
  | read {area : Area} {result : Except Fault String} {s t : Stage σ}
      (h : e.readArea operation area s = (result, t)) : Executes e operation (.read area result) s t
  | click {position : Position} {result : Except Fault Unit} {s t : Stage σ}
      (h : clickAt e position s = (result, t)) : Executes e operation (.click position result) s t
  | drag {start finish : Position} {result : Except Fault Unit} {s t : Stage σ}
      (h : dragBetween e start finish s = (result, t)) :
      Executes e operation (.drag start finish result) s t

/-- The calls that a search makes of the screen under a lease, from stage to stage. -/
inductive Conducts (e : Setup) (operation : String) (lease : Lease) :
    Stage σ → List Exchange → Option Fault → Stage σ → Prop
  | ended (s : Stage σ) : Conducts e operation lease s [] none s
  | refused {reference : String} {f : Fault} (hf : parseDay reference = .error f) (s : Stage σ) :
      Conducts e operation lease s [] (some f) s
  | made {s r t u : Stage σ} {call : Exchange} {calls : List Exchange} {o : Option Fault}
      (hheld : ¬Overtaken lease s) (hrestarts : Restarts lease s r)
      (hexecutes : Executes e operation call r t) (hok : failure call = none)
      (hrest : Conducts e operation lease t calls o u) :
      Conducts e operation lease s (call :: calls) o u
  | failed {s r t : Stage σ} {call : Exchange} {f : Fault} (hheld : ¬Overtaken lease s)
      (hrestarts : Restarts lease s r) (hexecutes : Executes e operation call r t)
      (hf : failure call = some f) : Conducts e operation lease s [call] (some f) t
  /-- The call does not come to the screen. -/
  | lost {s : Stage σ} {call : Exchange} (hovertaken : Overtaken lease s)
      (hf : failure call = some InputLock.lostFault) :
      Conducts e operation lease s [call] (some InputLock.lostFault) s

section Search

variable {e : Setup} {operation : String} {lease : Lease} {s t u : Stage σ}

theorem changedByRivals_of_executes {call : Exchange} (h : Executes e operation call s t) :
    ChangedByRivals s t := by
  have hacting := acting_byRivals (σ := σ)
  cases h with
  | read h => exact obeys_of_eq (obeys_readArea hacting e operation _) h
  | click h => exact obeys_of_eq (obeys_clickAt hacting e _) h
  | drag h =>
    refine obeys_of_eq (obeys_dragBetween hacting e (fun start finish => ?_) _ _) h
    exact obeys_dragPoints hacting e (byRivals_call .press) (byRivals_call .release) start finish

theorem Conducts.ownLease {calls : List Exchange} {o : Option Fault}
    (h : Conducts e operation lease s calls o t) (hs : OwnLease lease s) : OwnLease lease t := by
  induction h with
  | ended => exact hs
  | refused => exact hs
  | made _ hrestarts hexecutes _ _ ih =>
    exact ih ((hs.restarts hrestarts).changedByRivals (changedByRivals_of_executes hexecutes))
  | failed _ hrestarts hexecutes _ =>
    exact (hs.restarts hrestarts).changedByRivals (changedByRivals_of_executes hexecutes)
  | lost => exact hs

theorem Conducts.trans {first second : List Exchange} {o : Option Fault}
    (hfirst : Conducts e operation lease s first none t)
    (hsecond : Conducts e operation lease t second o u) :
    Conducts e operation lease s (first ++ second) o u := by
  generalize hnone : none = p at hfirst
  induction hfirst with
  | ended => exact hsecond
  | made hheld hrestarts hexecutes hok _ ih =>
    exact .made hheld hrestarts hexecutes hok (ih hsecond hnone)
  | refused => cases hnone
  | failed => cases hnone
  | lost => cases hnone

/-- The second step does what the first one does, and logs the calls that it makes under the lease.
-/
def Abides (e : Setup) (operation : String) (lease : Lease) (α : Type)
    (x : Action (Question × Stage σ) α) (y : Action (Question × (Stage σ × List Exchange)) α) :
    Prop :=
  ∀ q s l, OwnLease lease s → ∃ calls,
    y (q, (s, l)) = ((x (q, s)).1, ((x (q, s)).2.1, ((x (q, s)).2.2, l ++ calls))) ∧
      Conducts e operation lease s calls (faultOf (x (q, s)).1) (x (q, s)).2.2

variable {α : Type}

theorem abides_quiet {x : Action (Question × Stage σ) α}
    {y : Action (Question × (Stage σ × List Exchange)) α}
    (h : ∀ q s l, ∃ a q', x (q, s) = (.ok a, (q', s)) ∧ y (q, (s, l)) = (.ok a, (q', (s, l)))) :
    Abides e operation lease α x y := by
  intro q s l _
  obtain ⟨a, q', hx, hy⟩ := h q s l
  rw [hx, hy]
  exact ⟨[], by rw [List.append_nil], .ended s⟩

theorem abides_bind {β : Type} {x : Action (Question × Stage σ) α}
    {y : Action (Question × (Stage σ × List Exchange)) α}
    {f : α → Action (Question × Stage σ) β}
    {g : α → Action (Question × (Stage σ × List Exchange)) β}
    (hx : Abides e operation lease α x y) (hf : ∀ a, Abides e operation lease β (f a) (g a)) :
    Abides e operation lease β (x >>= f) (y >>= g) := by
  intro q s l howned
  obtain ⟨calls, hy, hconducts⟩ := hx q s l howned
  rcases hrun : x (q, s) with ⟨r, q', t⟩
  rw [hrun] at hy hconducts
  cases r with
  | error f =>
    rw [Action.bind_of_error hrun, Action.bind_of_error hy]
    exact ⟨calls, rfl, hconducts⟩
  | ok a =>
    obtain ⟨more, hg, hrest⟩ := hf a q' t (l ++ calls) (hconducts.ownLease howned)
    rw [Action.bind_of_ok hrun, Action.bind_of_ok hy]
    refine ⟨calls ++ more, ?_, hconducts.trans hrest⟩
    rw [hg, List.append_assoc]

theorem abides_call {entry : Except Fault α → Exchange} {body : Action (Stage σ) α}
    (hentry : ∀ r, failure (entry r) = faultOf r)
    (hbody : ∀ s r t, body s = (r, t) → Executes e operation (entry r) s t) :
    Abides e operation lease α (do Stage.ensureHeld lease; body : Action (Stage σ) α).onSnd
      (recorded entry (do Stage.ensureHeld lease; body)).onSnd := by
  intro q s l howned
  refine ⟨[entry ((do Stage.ensureHeld lease; body : Action (Stage σ) α) s).1], rfl, ?_⟩
  show Conducts e operation lease s _
    (faultOf ((do Stage.ensureHeld lease; body : Action (Stage σ) α) s).1)
    ((do Stage.ensureHeld lease; body : Action (Stage σ) α) s).2
  rcases ensureHeld_cases howned with ⟨hovertaken, hlost⟩ | ⟨hheld, r, hrestarts, hrenewed⟩
  · rw [Action.bind_of_error hlost]
    exact .lost hovertaken (hentry _)
  · rw [Action.bind_of_ok hrenewed]
    rcases hrun : body r with ⟨result, t⟩
    have hexecutes := hbody r result t hrun
    cases result with
    | ok a => exact .made hheld hrestarts hexecutes (hentry _) (.ended t)
    | error f => exact .failed hheld hrestarts hexecutes (hentry _)

variable (e) (operation)

theorem abides_search (spec : ScrollSpec) (today : Day) (maxPasses : Nat) :
    Abides (σ := σ) e operation lease ScrollOutcome
      (spec.search (e.surface operation lease) today maxPasses)
      (spec.search (logged (e.surface operation lease)) today maxPasses) := by
  have hparallel : Parallel spec today (e.surface operation lease : Surface (Stage σ))
      (logged (e.surface operation lease)) (Abides e operation lease) :=
    { done := fun a => abides_quiet fun q s l => ⟨a, q, rfl, rfl⟩
      bind := abides_bind
      asks := abides_quiet fun q s l => ⟨_, q, rfl, rfl⟩
      refuses := fun reference q s l _ => by
        cases hday : parseDay reference with
        | ok day => exact ⟨[], by rw [List.append_nil]; rfl, .ended s⟩
        | error f => exact ⟨[], by rw [List.append_nil]; rfl, .refused hday s⟩
      judges := fun b => abides_quiet fun q s l => ⟨(), _, rfl, rfl⟩
      gathers := fun extra _ text => abides_quiet fun q s l => ⟨(), _, rfl, rfl⟩
      reads := fun area => abides_call (fun _ => rfl) fun _ _ _ => .read
      clicks := fun position => abides_call (fun _ => rfl) fun _ _ _ => .click
      drags := fun start finish => abides_call (fun _ => rfl) fun _ _ _ => .drag }
  exact hparallel.search maxPasses

def calls (spec : ScrollSpec) (lease : Lease) (m : Memory) (s : Stage σ) : List Exchange :=
  (spec.search (logged (e.surface m.operationLabel lease)) e.today e.config.maxScrollPasses
    (m.question, (s, []))).2.2.2

theorem conducts_scroll (spec : ScrollSpec) (m : Memory) (hs : OwnLease lease s) :
    Conducts e m.operationLabel lease s (calls e spec lease m s)
      (faultOf (e.scroll spec lease (m, s)).1) (e.scroll spec lease (m, s)).2.2 := by
  obtain ⟨made, hlogged, hconducts⟩ := abides_search e m.operationLabel spec e.today
    e.config.maxScrollPasses m.question s [] hs
  have hcalls : calls e spec lease m s = made := by
    unfold calls
    rw [hlogged]
    exact List.nil_append made
  rw [hcalls]
  unfold Setup.scroll
  generalize spec.search (e.surface m.operationLabel lease) e.today e.config.maxScrollPasses
    (m.question, s) = result at hconducts ⊢
  obtain ⟨r, q, t⟩ := result
  cases r <;> exact hconducts

end Search

/-! ## Giving up -/

/-- The first job is given up. The application is neither closed nor ended on the way, and the lock
is left to the other parties. -/
structure GivesUp (e : Setup) (job : Job) (rest : List Job) (f : Fault) (s t : Session σ) :
    Prop where
  entries : ∃ news, Adds s t (noted e (.abandoned job f) :: news) ∧
    ∀ entry ∈ news, AdvanceEntry entry
  queue : t.agenda.pending <:+ rest
  lock : ChangedByRivals s.stage t.stage

omit [Desk σ] in
theorem advanceEntry_of_waits {entry : Entry} (h : Within waits entry) : AdvanceEntry entry := by
  apply advanceEntry_of_opens
  refine h.cases (fun c _ hc => ?_) fun _ _ => trivial
  cases c <;> first | rfl | cases hc

section Failing

variable {e : Setup} {c : Command} {f : Fault} {job : Job} {rest : List Job} {s t : Session σ}

theorem follow_of_final (hcancelled : f.isCancelled = false) (hfinal : f.retryable = false) :
    e.follow c (.error f) t = e.giveUp f t := by
  show e.recover f t = _
  rw [Setup.recover, if_neg (by rw [hcancelled]; exact Bool.false_ne_true),
    if_neg (by rw [hfinal]; exact Bool.false_ne_true)]

/-- A command that failed for good costs the job, and nothing else. -/
theorem givesUp_of_final (hdispatch : e.dispatch c s = (.ok (.error f), t))
    (hcancelled : f.isCancelled = false) (hfinal : f.retryable = false)
    (hpending : t.agenda.pending = job :: rest) : GivesUp e job rest f t (e.step c s).2 := by
  obtain ⟨u, hdrop, hleft, hagenda⟩ := adds_dropFirst e (.abandoned · f) t
  obtain ⟨onward, honward, hadvances⟩ := realizes_next e u
  rcases hnext : e.next u with ⟨r, v⟩
  rw [hnext] at honward hadvances
  have hfollow : e.follow c (.error f) t = (r, v) := by
    rw [follow_of_final hcancelled hfinal, Setup.giveUp, Action.bind_of_ok hdrop, hnext]
  obtain ⟨pause, hpause, hsame, hwaits, -⟩ := step_of_follow e hdispatch hfollow
  have hhead : t.agenda.pending.head? = some job := by rw [hpending, List.head?_cons]
  obtain ⟨signal, hdeparture⟩ := departure_cons e (.abandoned · f) hhead
  have hadvanceEntry := advanceEntry_departure (e := e) f t.agenda.pending
  rw [hdeparture] at hleft hadvanceEntry
  refine ⟨⟨signal ++ onward ++ pause, (hleft.trans honward).trans hpause, ?_⟩, ?_, ?_⟩
  · intro entry hentry
    rcases List.mem_append.1 hentry with hentry | hentry
    · rcases List.mem_append.1 hentry with hentry | hentry
      · exact hadvanceEntry entry (List.mem_cons_of_mem _ hentry)
      · exact advanceEntry_of_advances hadvances entry hentry
    · exact advanceEntry_of_waits (hwaits entry hentry)
  · have hqueue : u.agenda.pending = rest := by rw [hagenda, pending_of_dropFirst hpending]
    rw [hsame, ← hqueue]
    exact (resumed_of_advances hadvances).suffix
  · have hmanaging := managing_byRivals (σ := σ) e
    have hrest : Obeys ByRivals (do e.follow c (.error f); e.rest : Action (Session σ) Unit) :=
      (obeys_follow hmanaging c fun g hg => by cases hg; exact hcancelled).bind
        composable_byRivals fun _ => obeys_rest hmanaging
    have hstep : e.step c s = (do e.follow c (.error f); e.rest : Action (Session σ) Unit) t :=
      Action.bind_of_ok hdispatch
    rw [hstep]
    exact hrest t

end Failing

/-! ## Scroll commands -/

section Scroll

variable (e : Setup) (spec : ScrollSpec) {lease : Lease} {start : Stage σ}

theorem perform_scroll {m m' : Memory} {s finish : Stage σ} {r : Except Fault Unit}
    (hacquire : Arbiter.acquire e.app s = (.ok lease, start))
    (hscroll : e.scroll spec lease (m, start) = (r, m', finish)) :
    e.perform (.scroll spec) (m, s) = (r, m', finish.dropLease lease) := by
  have hsplit : (e.perform (.scroll spec) : Action (Memory × Stage σ) Unit) = (do
      let lease ← (Arbiter.acquire e.app).onSnd
      (e.use lease (.scroll spec)).ending fun s => (s.1, s.2.dropLease lease)) := rfl
  have huse : e.use lease (.scroll spec) = (e.scroll spec lease : Action (Memory × Stage σ) Unit) :=
    rfl
  rw [hsplit, Action.bind_of_ok (onSnd_eq hacquire), huse, ending_eq hscroll]

/-- Every call that a search makes under its lease starts the span anew and comes to the screen, up
to the first one after a takeover: it fails, and with it the search. Then the lock stays with the
party that took it, and the job is given up with the application left as it is. -/
theorem search_gives_way {s : Session σ} {job : Job} {rest : List Job}
    (hknown : RivalsKnown s.stage)
    (hrunning : s.stage.aborted = false) (hpending : s.agenda.pending = job :: rest)
    (hacquire : Arbiter.acquire e.app (s.stage.record (noted e (.dispatched (.scroll spec)))) =
      (.ok lease, start)) :
    ∃ outcome finish t, e.dispatch (.scroll spec) s = (.ok outcome, t) ∧
      Conducts e s.engine.memory.operationLabel lease start
        (calls e spec lease s.engine.memory start) (faultOf outcome) finish ∧
      t.stage = (finish.dropLease lease).record (noted e (.performed (.scroll spec) outcome)) ∧
      (Overtaken lease finish → finish.dropLease lease = finish) ∧
      (outcome = .error InputLock.lostFault →
        GivesUp e job rest InputLock.lostFault t (e.step (.scroll spec) s).2) := by
  rcases dispatch_cases e (.scroll spec) s with ⟨f, -, -, haborted⟩ |
    ⟨outcome, work, t, hdispatch, hagenda, -⟩
  · rw [hrunning] at haborted
    cases haborted
  obtain ⟨memory, stage, hperform, hstage⟩ := perform_of_dispatch hdispatch
  have hdispatched : RivalsKnown (s.stage.record (noted e (.dispatched (.scroll spec)))) := hknown
  have howned := ownLease_of_acquire hdispatched hacquire
  have hconducts := conducts_scroll e spec s.engine.memory howned
  rcases hscroll : e.scroll spec lease (s.engine.memory, start) with ⟨r, m, finish⟩
  rw [hscroll] at hconducts
  rw [perform_scroll e spec hacquire hscroll] at hperform
  cases hperform
  refine ⟨_, finish, t, hdispatch, hconducts, hstage, fun hovertaken => ?_, ?_⟩
  · have hlost : finish.lock.heldBy lease = false := by
      apply Bool.eq_false_iff.2
      intro hheld
      exact (hconducts.ownLease howned).held_iff.1 hheld hovertaken
    rw [Stage.dropLease, drop_of_not_heldBy hlost]
  · rintro rfl
    exact givesUp_of_final hdispatch rfl rfl (hagenda ▸ hpending)

end Scroll

/-! ## A robbery -/

def robbed : Setup := bare.setup "app" hasty

/-- The lock may be taken over at any moment, and it is when the button is let go of after the first
drag. Two readings show a text that is no day. -/
def robbery : Session Rehearsal :=
  let s := stageWith true true
  ⟨⟨{ Agenda.fresh with pending := [errand] }, .fresh⟩,
    { s with
      lock := .free 30000 1 0
      desk := { s.desk with textScript := ["total", "total"], hooks := [⟨"up", 1, .steal⟩] } }⟩

def granted : Except Fault Lease × Stage Rehearsal :=
  Arbiter.acquire robbed.app
    (robbery.stage.record (noted robbed (.dispatched (.scroll Pressing.wholeWindow))))

theorem robbery_facts :
    granted.1 = .ok ⟨0⟩ ∧
    (calls robbed Pressing.wholeWindow ⟨0⟩ robbery.engine.memory granted.2).map failure =
      [none, none, none, some InputLock.lostFault] ∧
    (robbed.dispatch (.scroll Pressing.wholeWindow) robbery).1 =
      .ok (.error InputLock.lostFault) ∧
    (robbed.dispatch (.scroll Pressing.wholeWindow) robbery).2.stage.lock.holderApp? =
      some "thief" := by
  decide +kernel

/-- The reading after the drag is lost, the job is given up, and the thief has the lock. -/
theorem robbed_gives_way :
    (calls robbed Pressing.wholeWindow ⟨0⟩ robbery.engine.memory granted.2).map failure =
      [none, none, none, some InputLock.lostFault] ∧
    ∃ t, robbed.dispatch (.scroll Pressing.wholeWindow) robbery =
        (.ok (.error InputLock.lostFault), t) ∧
      t.stage.lock.holderApp? = some "thief" ∧
      GivesUp robbed errand [] InputLock.lostFault t
        (robbed.step (.scroll Pressing.wholeWindow) robbery).2 := by
  obtain ⟨hgranted, hcalls, hlost, hthief⟩ := robbery_facts
  have hacquire : granted = (.ok ⟨0⟩, granted.2) := Prod.ext hgranted rfl
  have hknown : RivalsKnown robbery.stage := rivalsKnown_fresh _ _
  have hpending : robbery.agenda.pending = [errand] := rfl
  obtain ⟨outcome, finish, t, hdispatch, -, -, -, hgivesUp⟩ :=
    search_gives_way robbed Pressing.wholeWindow hknown rfl hpending hacquire
  rw [hdispatch] at hlost hthief
  obtain rfl : outcome = .error InputLock.lostFault := Except.ok.inj hlost
  exact ⟨hcalls, t, hdispatch, hthief, hgivesUp rfl⟩

end Playback.Proofs.Takeover
