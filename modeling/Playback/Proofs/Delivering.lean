import Playback.Proofs.Receiver
/-!
# Delivering the results

At the end of an operation the answers that say something are handed over once, or nothing is if
there are none. What the engine goes on with is settled before the receiver answers, so that a
delivery that fails is as good as one that succeeds.
-/

namespace Playback.Proofs.Delivering

open Career Footprints Moves Names Performing Receiver

variable {σ : Type}

/-! ## What is handed over -/

def Says : Scalar → Prop
  | .text s => ∃ c ∈ s.toList, Text.isBlank c = false
  | _ => True

def Tells : Answer → Prop
  | .list items => ∃ v ∈ items, Says v
  | .one v => Says v

theorem says_iff {v : Scalar} : v.isEmpty = false ↔ Says v := by
  cases v with
  | text s => exact blank_eq_false_iff
  | _ => exact iff_of_true rfl trivial

theorem tells_iff {a : Answer} : a.isEmpty = false ↔ Tells a := by
  cases a with
  | one v => exact says_iff
  | list items =>
    unfold Answer.isEmpty Tells
    rw [List.all_eq_false]
    simp only [Bool.not_eq_true, says_iff]

/-- The results hold the outputs of the operation that the question tells something of. -/
theorem get?_results_iff (m : Memory) (catalog : Catalog) (today : Day) (field : String)
    (v : Json) :
    (m.results catalog today).get? field = some v ↔
      ∃ feature a, catalog.get? m.operationLabel = some feature ∧ field ∈ feature.outputs ∧
        m.question.get? today field = some a ∧ Tells a ∧ v = a.toJson := by
  have hentry : ∀ {name : String} {e : String × Json},
      (((m.question.get? today name).filter fun a => !a.isEmpty).map fun a =>
        (name, a.toJson)) = some e ↔
      ∃ a, m.question.get? today name = some a ∧ Tells a ∧ e = (name, a.toJson) := by
    intro name e
    simp only [Option.map_eq_some_iff, Option.filter_eq_some_iff, Bool.not_eq_true', tells_iff,
      and_assoc, eq_comm (b := e)]
  unfold Memory.results
  rw [get?_ofList_iff, List.mem_filterMap]
  · cases hfeature : catalog.get? m.operationLabel with
    | none => simp
    | some feature =>
      simp only [Option.map_some, Option.getD_some, hentry, Prod.mk.injEq, Option.some.injEq]
      constructor
      · rintro ⟨name, hname, a, ha, htells, rfl, rfl⟩
        exact ⟨feature, a, rfl, hname, ha, htells, rfl⟩
      · rintro ⟨_, a, rfl, hname, ha, htells, rfl⟩
        exact ⟨field, hname, a, ha, htells, rfl, rfl⟩
  · -- an output that is declared twice has the same answer both times
    intro x hx y hy hname
    obtain ⟨left, -, hleft⟩ := List.mem_filterMap.1 hx
    obtain ⟨right, -, hright⟩ := List.mem_filterMap.1 hy
    obtain ⟨a, ha, -, rfl⟩ := hentry.1 hleft
    obtain ⟨b, hb, -, rfl⟩ := hentry.1 hright
    have hname : left = right := hname
    rw [hname, hb] at ha
    rw [Option.some.inj ha]

/-! ## Deliveries and signals among the entries -/

def delivered (story : List Entry) : List (Dict Json) :=
  story.filterMap fun
    | .called (.deliver results) _ => some results
    | _ => none

def signals (story : List Entry) : List String :=
  story.filterMap fun
    | .called (.signal app) _ => some app
    | _ => none

theorem delivered_append (old new : List Entry) :
    delivered (old ++ new) = delivered old ++ delivered new :=
  List.filterMap_append

theorem signals_append (old new : List Entry) : signals (old ++ new) = signals old ++ signals new :=
  List.filterMap_append

def signalling : Call → Bool
  | .signal _ => true
  | _ => false

theorem delivered_of_within {kind : Call → Bool} {news : List Entry}
    (hkind : ∀ c, kind c = true → delivers c = false) (h : ∀ entry ∈ news, Within kind entry) :
    delivered news = [] := by
  refine filterMap_of_within (fun c outcome hc => ?_) (fun _ _ => rfl) h
  have hnone := hkind c hc
  cases c <;> first | rfl | cases hnone

theorem signals_of_within {kind : Call → Bool} {news : List Entry}
    (hkind : ∀ c, kind c = true → signalling c = false) (h : ∀ entry ∈ news, Within kind entry) :
    signals news = [] := by
  refine filterMap_of_within (fun c outcome hc => ?_) (fun _ _ => rfl) h
  have hnone := hkind c hc
  cases c <;> first | rfl | cases hnone

theorem opens_spares {c : Call} (h : Launching.opens c = true) :
    delivers c = false ∧ signalling c = false := by
  cases c <;> first | exact ⟨rfl, rfl⟩ | cases h

theorem waits_spares {c : Call} (h : waits c = true) :
    delivers c = false ∧ signalling c = false := by
  cases c <;> first | exact ⟨rfl, rfl⟩ | cases h

variable (e : Setup)

theorem delivered_noted (n : Note) (story : List Entry) :
    delivered (noted e n :: story) = delivered story := rfl

theorem signals_noted (n : Note) (story : List Entry) :
    signals (noted e n :: story) = signals story := rfl

theorem delivered_departure (n : Job → Note) (jobs : List Job) :
    delivered (departure e n jobs) = [] :=
  filterMap_departure (fun _ => rfl) rfl jobs

variable {e} {a b b' : Agenda} {news news' : List Entry} {r r' : Except Fault Unit}

theorem delivered_advances (h : Advances e a news r b) : delivered news = [] := by
  induction h with
  | idle => rfl
  | found _ _ hopening =>
    rw [delivered_noted]
    exact delivered_of_within (fun _ hc => (opens_spares hc).1) hopening
  | dropped _ _ _ ih => rw [delivered_append, delivered_departure, ih, List.nil_append]

theorem signals_advances (h : Advances e a news r b) (h' : Advances e a news' r' b') :
    signals news = signals news' := by
  have hsilent : ∀ {opening : List Entry} {job : Job} {commands : List Command},
      (∀ entry ∈ opening, Within Launching.opens entry) →
      signals (noted e (.expanded job commands) :: opening) = [] := by
    intro opening job commands hopening
    rw [signals_noted]
    exact signals_of_within (fun _ hc => (opens_spares hc).2) hopening
  -- both ways see the same queue, so that they take the same turns
  induction h generalizing news' r' b' with
  | idle hpending =>
    cases h' with
    | idle => rfl
    | found hother => rw [hpending] at hother; cases hother
    | dropped hother => rw [hpending] at hother; cases hother
  | found hpending hexpand hopening =>
    cases h' with
    | idle hother => rw [hpending] at hother; cases hother
    | found _ _ hopening' => rw [hsilent hopening, hsilent hopening']
    | dropped hother hfails =>
      rw [hpending] at hother
      cases hother
      rw [hexpand] at hfails
      cases hfails
  | dropped hpending hexpand _ ih =>
    cases h' with
    | idle hother => rw [hpending] at hother; cases hother
    | found hother hexpands =>
      rw [hpending] at hother
      cases hother
      rw [hexpand] at hexpands
      cases hexpands
    | dropped hother hfails hnext =>
      rw [hpending] at hother
      cases hother
      rw [hexpand] at hfails
      cases hfails
      rw [signals_append, signals_append, ih hnext]

/-! ## The step that delivers -/

section Steps

variable (e) in
def handed (m : Memory) : List (Dict Json) :=
  let results := m.results e.config.catalog e.today
  if results.entries = [] then [] else [results]

variable [Desk σ] (e) (params : Dict Answer) {s : Session σ}

theorem dispatch_webhook (hrunning : s.stage.aborted = false) :
    ∃ work t, e.dispatch (.webhook params) s = (.ok (.ok ()), t) ∧ t.engine = s.engine ∧
      Adds s t (noted e (.dispatched (.webhook params)) :: work ++
        [noted e (.performed (.webhook params) (.ok ()))]) ∧
      delivered work = handed e s.engine.memory ∧ signals work = [] := by
  let first := noted e (.dispatched (.webhook params))
  let last := noted e (.performed (.webhook params) (.ok ()))
  let begun : Session σ := { s with stage := s.stage.record first }
  have hdelivers : ∃ work stage,
      e.deliver (s.engine.memory, begun.stage) = (.ok (), (s.engine.memory, stage)) ∧
      Adds begun.stage stage work ∧ delivered work = handed e s.engine.memory ∧
      signals work = [] := by
    rcases deliver_cases e (s.engine.memory, begun.stage) with
      ⟨hnone, h⟩ | ⟨hsome, reply, stage, h, hadds⟩
    · exact ⟨[], _, h, adds_of_journal_eq rfl, (if_pos hnone).symm, rfl⟩
    · exact ⟨_, stage, h, hadds, (if_neg hsome).symm, rfl⟩
  obtain ⟨work, stage, hdeliver, hwork, hdelivered, hsignals⟩ := hdelivers
  let done : Session σ := { s with stage }
  let ended : Session σ := { s with stage := stage.record last }
  have hcheck : Session.onStage Stage.ensureRunning s = (.ok (), s) := by
    simp [Session.onStage, Stage.ensureRunning, hrunning]
  have hbegun : e.note (.dispatched (.webhook params)) s = (.ok (), begun) := rfl
  have hdone : (Session.onMemory (e.perform (.webhook params))).attempt begun =
      (.ok (.ok ()), done) := by
    simp only [Action.attempt, Session.onMemory, Setup.perform, begun, done] at hdeliver ⊢
    rw [hdeliver]
  have hended : e.note (.performed (.webhook params) (.ok ())) done = (.ok (), ended) := rfl
  have hfirst : Adds s begun [first] := adds_cons rfl
  have hmiddle : Adds begun done work := hwork
  have hlast : Adds done ended [last] := adds_cons rfl
  refine ⟨work, ended, ?_, rfl, hfirst.trans (hmiddle.trans hlast), hdelivered, hsignals⟩
  unfold Setup.dispatch
  rw [Action.bind_of_ok hcheck, Action.bind_of_ok hbegun, Action.bind_of_ok hdone,
    Action.bind_of_ok hended]
  rfl

/-- Unless there was an abort, the step hands the results over, and all that follows is settled by
the engine as it was. -/
theorem step_webhook (hrunning : s.stage.aborted = false) :
    ∃ work news pause r b,
      Adds s (e.step (.webhook params) s).2 (noted e (.dispatched (.webhook params)) :: work ++
        noted e (.performed (.webhook params) (.ok ())) ::
          (departure e .retired s.agenda.pending ++ news ++ pause)) ∧
      delivered work = handed e s.engine.memory ∧ signals work = [] ∧
      Advances e { s.agenda.dropFirst with phase := .awaiting } news r b ∧
      (∀ entry ∈ pause, Within waits entry) ∧
      (e.step (.webhook params) s).2.engine =
        { s.engine with
          agenda := Agenda.loaded e.expand { s.agenda.dropFirst with phase := .awaiting } } := by
  obtain ⟨work, t, ht, hengine, hadds, hdelivered, hsignals⟩ := dispatch_webhook e params hrunning
  have hagenda : t.agenda = s.agenda := congrArg Engine.agenda hengine
  obtain ⟨news, hnews, hfollows⟩ := realizes_retire e params t
  rcases hu : e.retire t with ⟨r, u⟩
  rw [hu] at hnews hfollows
  obtain ⟨pause, hpause, -, hwaits, -⟩ := step_of_follow e ht hu
  have hretired := engine_retire e t
  rw [hu, hagenda, hengine] at hretired
  rw [hagenda] at hfollows
  have hfollows : Follows e (.webhook params) s.agenda (.ok ()) news r u.agenda := hfollows
  generalize u.agenda = b at hfollows
  cases hfollows with
  | onward hother => exact absurd rfl (hother params)
  | @retired _ news _ _ hc hnext =>
    refine ⟨work, news, pause, r, b, ?_, hdelivered, hsignals, hnext, hwaits,
      (engine_step e ht hu).trans hretired⟩
    simpa using (hadds.trans hnews).trans hpause

theorem delivered_step (s : Session σ) :
    delivered (since s.stage (e.step (.webhook params) s).2.stage) =
      if s.stage.aborted = true then [] else handed e s.engine.memory := by
  by_cases haborted : s.stage.aborted = true
  · rw [if_pos haborted, step_of_aborted e _ haborted, since_of_adds (adds_of_journal_eq rfl)]
    rfl
  rw [if_neg haborted]
  obtain ⟨work, news, pause, r, b, hadds, hdelivered, -, hnext, hwaits, -⟩ :=
    step_webhook e params (Bool.eq_false_iff.2 haborted)
  have hpause : delivered pause = [] := delivered_of_within (fun _ hc => (waits_spares hc).1) hwaits
  rw [since_of_adds hadds, List.cons_append, delivered_noted, delivered_append, hdelivered,
    delivered_noted, delivered_append, delivered_append, delivered_departure,
    delivered_advances hnext, hpause]
  simp

/-- Whatever the desk answers, the same becomes of the engine, and it gives the same signals. -/
theorem engine_settled {s t : Session σ} (hengine : s.engine = t.engine)
    (haborted : s.stage.aborted = t.stage.aborted) :
    (e.step (.webhook params) s).2.engine = (e.step (.webhook params) t).2.engine ∧
      signals (since s.stage (e.step (.webhook params) s).2.stage) =
        signals (since t.stage (e.step (.webhook params) t).2.stage) := by
  have hagenda : s.agenda = t.agenda := congrArg Engine.agenda hengine
  by_cases hs : s.stage.aborted = true
  · have ht : t.stage.aborted = true := haborted ▸ hs
    rw [step_of_aborted e _ hs, step_of_aborted e _ ht, since_of_adds (adds_of_journal_eq rfl),
      since_of_adds (adds_of_journal_eq rfl)]
    exact ⟨hengine, rfl⟩
  have ht : ¬ t.stage.aborted = true := haborted ▸ hs
  obtain ⟨work, news, pause, r, b, hadds, -, hwork, hnext, hwaits, hafter⟩ :=
    step_webhook e params (Bool.eq_false_iff.2 hs)
  obtain ⟨work', news', pause', r', b', hadds', -, hwork', hnext', hwaits', hafter'⟩ :=
    step_webhook e params (Bool.eq_false_iff.2 ht)
  have hpause : ∀ {pause : List Entry}, (∀ entry ∈ pause, Within waits entry) →
      signals pause = [] := signals_of_within fun _ hc => (waits_spares hc).2
  refine ⟨by rw [hafter, hafter', hengine, hagenda], ?_⟩
  rw [← hagenda] at hnext' hadds'
  rw [since_of_adds hadds, since_of_adds hadds']
  simp only [List.cons_append, signals_noted, signals_append, hwork, hwork', hpause hwaits,
    hpause hwaits', signals_advances hnext hnext']

end Steps

/-! ## A receiver that refuses -/

def unheard (undeliverable : Option Fault) (r : Rehearsal) : Rehearsal :=
  { r with logsResults := false, undeliverable }

/-- Rehearsals that differ in whether and why results cannot be delivered. -/
def Unheard (r r' : Rehearsal) : Prop := ∃ base u u', r = unheard u base ∧ r' = unheard u' base

section Rehearsing

variable (u : Option Fault)

theorem logged_unheard {α : Type} (r : Rehearsal) (kind : String) (c : Call)
    {act : Rehearsal → Except Fault α × Rehearsal}
    (hact : ∀ r, act (unheard u r) = ((act r).1, unheard u (act r).2)) :
    (unheard u r).logged kind c act =
      ((r.logged kind c act).1, unheard u (r.logged kind c act).2) := by
  unfold Rehearsal.logged
  have hrecord : ∀ counts log, { unheard u r with counts, log } =
      unheard u { r with counts, log } :=
    fun _ _ => rfl
  simp only [hrecord, hact]
  dsimp only [unheard]
  split
  · rfl
  · split <;> rfl
  · rfl

theorem onWindow_unheard (r : Rehearsal) (app kind : String) (c : Call)
    (scripted : ScriptedWindow → ScriptedWindow)
    (fixed : FixedWindow → Except Fault Unit × FixedWindow) :
    (unheard u r).onWindow app kind c scripted fixed =
      ((r.onWindow app kind c scripted fixed).1,
        unheard u (r.onWindow app kind c scripted fixed).2) := by
  have hwindows : (unheard u r).windows = r.windows := rfl
  unfold Rehearsal.onWindow
  rw [hwindows]
  split
  · rfl
  · exact logged_unheard u r kind c fun _ => rfl
  · exact logged_unheard u r kind c fun _ => rfl

theorem respond_unheard {c : Call} (hc : delivers c = false) (r : Rehearsal) :
    Rehearsal.respond c (unheard u r) =
      ((Rehearsal.respond c r).1, unheard u (Rehearsal.respond c r).2) := by
  unfold Rehearsal.respond
  cases c <;> dsimp only
  case pixel p =>
    refine logged_unheard u r _ _ fun r => ?_
    unfold Rehearsal.samplePixel
    cases hscript : r.pixelScript <;> simp [unheard, hscript]
  case recognize i m =>
    have hrecognizes : (unheard u r).recognizes = r.recognizes := rfl
    rw [hrecognizes]
    split
    · refine logged_unheard u r _ _ fun r => ?_
      unfold Rehearsal.readText
      cases hscript : r.textScript <;> simp [unheard, hscript]
    · rfl
  case keep folder file picture =>
    unfold Rehearsal.keepPicture
    dsimp only [unheard]
    split <;> rfl
  case isOpen app =>
    unfold Rehearsal.lookAtWindow
    dsimp only [unheard]
    split <;> rfl
  case signal app =>
    have hlogs : (unheard u r).logsSignals = r.logsSignals := rfl
    rw [hlogs]
    split
    · exact logged_unheard u r _ _ fun _ => rfl
    · rfl
  case deliver results => cases hc
  case clientRect app => rfl
  case wait span => rfl
  case focus | minimize | close | terminate | launch => exact onWindow_unheard u r ..
  all_goals exact logged_unheard u r _ _ fun _ => rfl

end Rehearsing

theorem indifferent_unheard : Indifferent Unheard := by
  have halike : ∀ {d d' : Rehearsal} (c : Call), Unheard d d' →
      Unheard (Desk.respond c d).2 (Desk.respond c d').2 ∧
      (Desk.respond c d).1.elapsed = (Desk.respond c d').1.elapsed ∧
      (Desk.respond c d).1.abort = (Desk.respond c d').1.abort ∧
      (Desk.respond c d).1.rivals = (Desk.respond c d').1.rivals ∧
      (delivers c = false → (Desk.respond c d).1.outcome = (Desk.respond c d').1.outcome) := by
    rintro _ _ c ⟨base, u, u', rfl, rfl⟩
    cases hc : delivers c with
    | false =>
      have hfirst : Desk.respond c (unheard u base) = _ := respond_unheard u hc base
      have hsecond : Desk.respond c (unheard u' base) = _ := respond_unheard u' hc base
      rw [hfirst, hsecond]
      exact ⟨⟨_, u, u', rfl, rfl⟩, rfl, rfl, rfl, fun _ => rfl⟩
    | true =>
      cases c with
      | deliver results =>
        cases u <;> cases u' <;>
          exact ⟨⟨base, _, _, rfl, rfl⟩, rfl, rfl, rfl, fun h => by cases h⟩
      | _ => cases hc
  exact
    { after := fun c h => (halike c h).1
      elapsed := fun c h => (halike c h).2.1
      abort := fun c h => (halike c h).2.2.1
      rivals := fun c h => (halike c h).2.2.2.1
      outcome := fun c h => (halike c h).2.2.2.2 }

def refusals (story : List Entry) : List Fault :=
  story.filterMap fun
    | .called (.deliver _) (.error f) => some f
    | _ => none

/-- An engine at the end of an operation, with a receiver that refuses or does not. -/
def closing (undeliverable : Option Fault) : Session Rehearsal :=
  ⟨⟨⟨.running, 1, [], [errand], ["pay"]⟩, ⟨.ofAttrs (.ofList [("OK", .bool false)]), some "PAY"⟩⟩,
    { stageWith true true with desk := unheard undeliverable (stageWith true true).desk }⟩

def settling : Setup := bare.setup "app" hasty

def refused : Fault := .transportFailure "refused"

theorem closing_facts :
    refusals (settling.step (.webhook .empty) (closing none)).2.stage.journal = [] ∧
    refusals (settling.step (.webhook .empty) (closing refused)).2.stage.journal = [refused] ∧
    (handed settling (closing none).engine.memory).map Dict.keys = [["Ok"]] := by
  decide +kernel

/-! ## Exact, and without consequences -/

/-- The results are those declared outputs that the question tells something of, and they are handed
over once, if there are any. Neither the engine nor its signals depend on the answers of the desk,
and if the desk differs in deliveries only, nothing but the outcome of the delivery does. -/
theorem delivery_exact_and_ignored {σ : Type} [Desk σ] (e : Setup) (params : Dict Answer) :
    (∀ (m : Memory) (field : String) (v : Json),
      (m.results e.config.catalog e.today).get? field = some v ↔
        ∃ feature a, e.config.catalog.get? m.operationLabel = some feature ∧
          field ∈ feature.outputs ∧ m.question.get? e.today field = some a ∧ Tells a ∧
          v = a.toJson) ∧
    (∀ s : Session σ, delivered (since s.stage (e.step (.webhook params) s).2.stage) =
      if s.stage.aborted = true then [] else handed e s.engine.memory) ∧
    (∀ s t : Session σ, s.engine = t.engine → s.stage.aborted = t.stage.aborted →
      (e.step (.webhook params) s).2.engine = (e.step (.webhook params) t).2.engine ∧
        signals (since s.stage (e.step (.webhook params) s).2.stage) =
          signals (since t.stage (e.step (.webhook params) t).2.stage)) ∧
    ∀ D : σ → σ → Prop, Indifferent D → ∀ s t, SessionsAgree D s t →
      ((e.step (.webhook params) s).1 = (e.step (.webhook params) t).1 ∧
        SessionsAgree D (e.step (.webhook params) s).2 (e.step (.webhook params) t).2) ∧
      (e.run s).1 = (e.run t).1 ∧ SessionsAgree D (e.run s).2 (e.run t).2 :=
  ⟨fun m field v => get?_results_iff m _ _ field v, delivered_step e params,
    fun _ _ hengine haborted => engine_settled e params hengine haborted,
    fun _ hD s t h =>
      ⟨(lockstep_sessionsAgree hD e).step trivial s t h, (lockstep_sessionsAgree hD e).run s t h⟩⟩

/-- A receiver that refuses `false` for an answer makes no difference to the engine. -/
theorem refusal_ignored :
    Indifferent Unheard ∧ SessionsAgree Unheard (closing none) (closing refused) ∧
    (closing none).engine = (closing refused).engine ∧
    (settling.step (.webhook .empty) (closing none)).2.engine =
      (settling.step (.webhook .empty) (closing refused)).2.engine ∧
    (settling.step (.webhook .empty) (closing none)).1 =
      (settling.step (.webhook .empty) (closing refused)).1 ∧
    SessionsAgree Unheard (settling.run (closing none)).2 (settling.run (closing refused)).2 ∧
    refusals (settling.step (.webhook .empty) (closing none)).2.stage.journal = [] ∧
    refusals (settling.step (.webhook .empty) (closing refused)).2.stage.journal = [refused] ∧
    (delivered (since (closing refused).stage
      (settling.step (.webhook .empty) (closing refused)).2.stage)).map Dict.keys = [["Ok"]] := by
  have hagree : SessionsAgree Unheard (closing none) (closing refused) :=
    ⟨rfl, _, _, rfl, ⟨(stageWith true true).desk, none, some refused, rfl, rfl⟩, rfl⟩
  obtain ⟨haccepted, hrefused, hhanded⟩ := closing_facts
  obtain ⟨-, hdelivered, hsettled, hignored⟩ :=
    @delivery_exact_and_ignored Rehearsal _ settling .empty
  obtain ⟨hengine, -⟩ := hsettled (closing none) (closing refused) rfl rfl
  obtain ⟨⟨hresult, -⟩, -, hrun⟩ := hignored Unheard indifferent_unheard _ _ hagree
  have honce := hdelivered (closing refused)
  rw [if_neg (by decide)] at honce
  refine ⟨indifferent_unheard, hagree, rfl, hengine, hresult, hrun, haccepted, hrefused, ?_⟩
  rw [honce]
  exact hhanded

end Playback.Proofs.Delivering
