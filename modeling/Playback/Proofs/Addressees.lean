import Playback.Proofs.QueueBalance
import Playback.Proofs.SmallLetters
/-!
# Who gets a job

The engines of a registry share a stage and a configuration. A job goes to the engine under the key
of the application it names and to no other one; without such an engine it is refused, and nothing
changes. So whatever is handed to a registry, an engine becomes what it becomes on its own from the
jobs that name it; and exactly these jobs joined its queue, in the order in which they were handed
in.
-/

namespace Playback.Proofs.Addressees

open Footprints Moves Career Story QueueBalance Names SmallLetters

/-! ## The name on a job -/

/-- The job has an application, and the key of that application is `k`. -/
def names (k : String) (job : Job) : Bool :=
  match job.question.stored? appAttribute with
  | some a => !Text.blank a.asText && Registry.key a.asText == k
  | none => false

theorem isEmpty_key (app : String) : (Registry.key app).isEmpty = Text.blank app := by
  rw [Registry.key, Letters.isEmpty_toLower, isEmpty_trim]

theorem app_eq_some_iff {job : Job} {k : String} : job.app? = some k ↔ names k job = true := by
  unfold Job.app? names
  cases job.question.stored? appAttribute with
  | none => simp
  | some a =>
    have hempty := isEmpty_key a.asText
    unfold Registry.key at hempty ⊢
    dsimp only
    rw [hempty]
    cases Text.blank a.asText <;> simp

theorem app_eq_none {job : Job} (h : ∀ k, names k job = false) : job.app? = none := by
  cases happ : job.app? with
  | none => rfl
  | some k =>
    rw [app_eq_some_iff, h k] at happ
    cases happ

theorem key_of_names {job : Job} {k : String} (h : names k job = true) : Registry.key k = k := by
  unfold names at h
  split at h
  · rw [Bool.and_eq_true, beq_iff_eq] at h
    rw [← h.2, key_key]
  · cases h

theorem names_unique {job : Job} {k l : String} (hk : names k job = true)
    (hl : names l job = true) : k = l := by
  rw [← app_eq_some_iff] at hk hl
  exact Option.some.inj (hk.symm.trans hl)

/-! ## Routes -/

section Routes

variable {r : Registry} {job : Job} {k : String}

theorem route_of_names (h : names k job = true) :
    r.route job = if (r.engines.get? k).isSome then .ok k
      else .error (.invalidCommand ("no engine registered for app '" ++ k ++ "'")) := by
  rw [Registry.route, app_eq_some_iff.2 h]
  dsimp only
  rw [Registry.engine?, key_of_names h]

theorem route_of_nameless (h : ∀ k, names k job = false) :
    r.route job = .error (.invalidCommand "Comando has no App") := by
  rw [Registry.route, app_eq_none h]

end Routes

/-! ## One job at a time -/

variable {σ : Type}

/-- A job that is handed to the registry, with what is around the registry then. -/
structure Handover (σ : Type) where
  dispatched : Bool
  setting : Setup
  job : Job
  stage : Stage σ

variable [Desk σ]

namespace Handover

variable (v : Handover σ) {r : Registry} {k : String} {e : Engine}

/-- What the registry does. -/
def handed : Action (Registry × Stage σ) Unit :=
  if v.dispatched then Registry.dispatch v.setting v.job else Registry.submit v.setting v.job

/-- What the engine under the key does if the job is for it. -/
def work (k : String) : Action (Session σ) Unit :=
  if v.dispatched then do
    (Registry.setup v.setting k).add v.job
    (Registry.setup v.setting k).run
  else (Registry.setup v.setting k).add v.job

theorem handed_eq :
    v.handed = (do
      let app ← fun s => (s.1.route v.job, s)
      Registry.onEngine app (v.work app)) := by
  unfold handed work
  cases v.dispatched <;> rfl

theorem handed_of_error {f : Fault} (h : r.route v.job = .error f) :
    v.handed (r, v.stage) = (.error f, (r, v.stage)) := by
  have hrouted : (fun s : Registry × Stage σ => (s.1.route v.job, s)) (r, v.stage) =
      (.error f, (r, v.stage)) := by
    dsimp only
    rw [h]
  rw [handed_eq]
  exact Action.bind_of_error hrouted

theorem handed_of_ok (h : r.route v.job = .ok k) (he : r.engines.get? k = some e) :
    v.handed (r, v.stage) =
      ((v.work k ⟨e, v.stage⟩).1, ⟨r.engines.insert k (v.work k ⟨e, v.stage⟩).2.engine⟩,
        (v.work k ⟨e, v.stage⟩).2.stage) := by
  have hrouted : (fun s : Registry × Stage σ => (s.1.route v.job, s)) (r, v.stage) =
      (.ok k, (r, v.stage)) := by
    dsimp only
    rw [h]
  rw [handed_eq]
  refine (Action.bind_of_ok hrouted).trans ?_
  unfold Registry.onEngine
  dsimp only
  rw [he]
  rfl

end Handover

/-- What comes of a job that is handed to the registry. -/
structure Routed (v : Handover σ) (r : Registry) : Prop where
  nameless : (∀ k, names k v.job = false) →
    v.handed (r, v.stage) = (.error (.invalidCommand "Comando has no App"), (r, v.stage))
  unregistered : ∀ k, names k v.job = true → r.engines.get? k = none →
    v.handed (r, v.stage) =
      (.error (.invalidCommand ("no engine registered for app '" ++ k ++ "'")), (r, v.stage))
  registered : ∀ k e, names k v.job = true → r.engines.get? k = some e →
    ∃ result t after, v.work k ⟨e, v.stage⟩ = (result, t) ∧
      v.handed (r, v.stage) = (result, (after, t.stage)) ∧
      after.engines.get? k = some t.engine ∧
      ∀ other, other ≠ k → after.engines.get? other = r.engines.get? other

theorem routed (v : Handover σ) (r : Registry) : Routed v r where
  nameless h := v.handed_of_error (route_of_nameless h)
  unregistered k hk hnone := by
    apply v.handed_of_error
    rw [route_of_names hk, hnone]
    rfl
  registered k e hk he := by
    have hroute : r.route v.job = .ok k := by
      rw [route_of_names hk, he]
      rfl
    refine ⟨_, _, _, rfl, v.handed_of_ok hroute he, get?_insert_self _ _ _, ?_⟩
    exact fun other hne => get?_insert_of_ne _ hne _

/-- A job that is refused names no registered application. -/
theorem handed_cases (v : Handover σ) (r : Registry) :
    (∃ f, v.handed (r, v.stage) = (.error f, (r, v.stage)) ∧
      ∀ k, names k v.job = true → r.engines.get? k = none) ∨
    ∃ k e, names k v.job = true ∧ r.engines.get? k = some e := by
  by_cases hany : ∃ k, names k v.job = true
  · obtain ⟨k, hk⟩ := hany
    cases he : r.engines.get? k with
    | none =>
      refine .inl ⟨_, (routed v r).unregistered k hk he, fun l hl => ?_⟩
      rw [names_unique hl hk, he]
    | some e => exact .inr ⟨k, e, hk, he⟩
  · have hnone : ∀ k, names k v.job = false := fun k => Bool.eq_false_iff.2 fun hk => hany ⟨k, hk⟩
    exact .inl ⟨_, (routed v r).nameless hnone, fun k hk => absurd ⟨k, hk⟩ hany⟩

/-! ## One job after the other -/

/-- What becomes of the registry. -/
def after (r : Registry) (handovers : List (Handover σ)) : Registry :=
  handovers.foldl (fun r v => (v.handed (r, v.stage)).2.1) r

/-- What becomes of an engine that is given the jobs by itself. -/
def alone (k : String) (e : Engine) (handovers : List (Handover σ)) : Engine :=
  handovers.foldl (fun e v => (v.work k ⟨e, v.stage⟩).2.engine) e

theorem get?_handed (v : Handover σ) (r : Registry) (k : String) :
    (v.handed (r, v.stage)).2.1.engines.get? k =
      if names k v.job then (r.engines.get? k).map fun e => (v.work k ⟨e, v.stage⟩).2.engine
      else r.engines.get? k := by
  rcases handed_cases v r with ⟨f, hrefused, hnone⟩ | ⟨l, e, hl, he⟩
  · rw [hrefused]
    dsimp only
    split
    · rename_i hk
      rw [hnone k hk, Option.map_none]
    · rfl
  · obtain ⟨result, t, after, hwork, hhanded, hself, hother⟩ := (routed v r).registered l e hl he
    rw [hhanded]
    dsimp only
    split
    · rename_i hk
      rw [names_unique hk hl, hself, he, Option.map_some, hwork]
    · rename_i hk
      apply hother
      rintro rfl
      exact hk hl

theorem get?_after (r : Registry) (handovers : List (Handover σ)) (k : String) :
    (after r handovers).engines.get? k =
      (r.engines.get? k).map fun e => alone k e (handovers.filter fun v => names k v.job) := by
  induction handovers generalizing r with
  | nil => exact Option.map_id'.symm
  | cons v handovers ih =>
    have hstep := get?_handed v r k
    have hrest := ih (v.handed (r, v.stage)).2.1
    rw [hstep] at hrest
    refine hrest.trans ?_
    by_cases hk : names k v.job = true
    · rw [if_pos hk, List.filter_cons, if_pos hk, Option.map_map]
      rfl
    · rw [if_neg hk, List.filter_cons, if_neg hk]

/-! ## Queues -/

/-- The entries that the handovers add to the journals of their stages, the earliest first. -/
def recorded (r : Registry) : List (Handover σ) → List Entry
  | [] => []
  | v :: handovers =>
    since v.stage (v.handed (r, v.stage)).2.2 ++ recorded (v.handed (r, v.stage)).2.1 handovers

def isNoteOf (k : String) : Entry → Bool
  | .noted who _ => who == k
  | _ => false

/-- The notes among the entries that the engine under the key made. -/
def notesOf (k : String) (story : List Entry) : List Entry := story.filter (isNoteOf k)

def jobsNaming (k : String) (handovers : List (Handover σ)) : List Job :=
  (handovers.filter fun v => names k v.job).map (·.job)

/-- By its notes, exactly these jobs joined the queue of the engine, in this order. They stood
behind the jobs that were there, and those that left since are the first of them all. -/
structure Received (k : String) (jobs : List Job) (story : List Entry) (before after : Engine) :
    Prop where
  joined_eq : joined (notesOf k story) = jobs
  settled : left (notesOf k story) ++ after.agenda.pending = before.agenda.pending ++ jobs

section Notes

variable {k l : String} {old new story : List Entry}

theorem notesOf_append : notesOf k (old ++ new) = notesOf k old ++ notesOf k new :=
  List.filter_append ..

theorem filterMap_notesOf {select : Entry → Option Job}
    (hcalled : ∀ c outcome, select (.called c outcome) = none)
    (hshown : ∀ m span, select (.shown m span) = none) (h : ∀ entry ∈ story, NotedBy k entry) :
    (notesOf k story).filterMap select = story.filterMap select := by
  unfold notesOf
  rw [List.filterMap_filter]
  apply List.filterMap_congr
  intro entry hentry
  have hown := h entry hentry
  cases entry with
  | called c outcome => exact (if_neg Bool.false_ne_true).trans (hcalled c outcome).symm
  | shown m span => exact (if_neg Bool.false_ne_true).trans (hshown m span).symm
  | noted who n =>
    apply if_pos
    rw [isNoteOf, beq_iff_eq]
    exact hown

theorem notesOf_of_other (hne : l ≠ k) (h : ∀ entry ∈ story, NotedBy l entry) :
    notesOf k story = [] := by
  apply List.filter_eq_nil_iff.2
  intro entry hentry hnote
  have hown := h entry hentry
  cases entry with
  | called c outcome => cases hnote
  | shown m span => cases hnote
  | noted who n =>
    rw [isNoteOf, beq_iff_eq] at hnote
    exact hne (hown.symm.trans hnote)

theorem Received.trans {jobs later : List Job} {e e' e'' : Engine} (h : Received k jobs old e e')
    (hlater : Received k later new e' e'') : Received k (jobs ++ later) (old ++ new) e e'' := by
  refine ⟨?_, ?_⟩
  · rw [notesOf_append, joined_append, h.joined_eq, hlater.joined_eq]
  · calc left (notesOf k (old ++ new)) ++ e''.agenda.pending
        = left (notesOf k old) ++ (left (notesOf k new) ++ e''.agenda.pending) := by
          rw [notesOf_append, left_append, List.append_assoc]
      _ = left (notesOf k old) ++ e'.agenda.pending ++ later := by
          rw [hlater.settled, List.append_assoc]
      _ = e.agenda.pending ++ (jobs ++ later) := by rw [h.settled, List.append_assoc]

theorem received_of_notesOf_eq_nil {e : Engine} (h : notesOf k story = []) :
    Received k [] story e e := by
  refine ⟨?_, ?_⟩
  · rw [h]
    rfl
  · rw [h, List.append_nil]
    rfl

end Notes

theorem Handover.queued_of_work (v : Handover σ) (k : String) (e : Engine) :
    ∃ news, since v.stage (v.work k ⟨e, v.stage⟩).2.stage = .noted k (.queued v.job) :: news ∧
      Releases (Registry.setup v.setting k) (e.agenda.queue v.job) news
        (v.work k ⟨e, v.stage⟩).2.agenda := by
  let setup := Registry.setup v.setting k
  let s : Session σ := ⟨e, v.stage⟩
  obtain ⟨news, hadds, hreleases⟩ := queued_of_add setup v.job s
  unfold Handover.work
  split
  · rcases hadd : setup.add v.job s with ⟨r, t⟩
    rw [hadd] at hadds hreleases
    cases r with
    | error f =>
      rw [Action.bind_of_error hadd]
      exact ⟨news, since_of_adds hadds, hreleases⟩
    | ok _ =>
      obtain ⟨later, hlater, hruns⟩ := releases_run setup t
      rw [Action.bind_of_ok hadd]
      exact ⟨news ++ later, since_of_adds (hadds.trans hlater), hreleases.trans hruns⟩
  · exact ⟨news, since_of_adds hadds, hreleases⟩

theorem noted_of_work (v : Handover σ) (k : String) (e : Engine) :
    ∀ entry ∈ since v.stage (v.work k ⟨e, v.stage⟩).2.stage, NotedBy k entry := by
  obtain ⟨news, hsince, hreleases⟩ := v.queued_of_work k e
  rw [hsince]
  exact List.forall_mem_cons.2 ⟨rfl, hreleases.own⟩

theorem received_of_work (v : Handover σ) (k : String) (e : Engine) :
    Received k [v.job] (since v.stage (v.work k ⟨e, v.stage⟩).2.stage) e
      (v.work k ⟨e, v.stage⟩).2.engine := by
  have hown := noted_of_work v k e
  obtain ⟨news, hsince, hreleases⟩ := v.queued_of_work k e
  refine ⟨?_, ?_⟩
  · rw [joined, filterMap_notesOf (fun _ _ => rfl) (fun _ _ => rfl) hown, hsince]
    exact congrArg (v.job :: ·) hreleases.joined_eq
  · rw [left, filterMap_notesOf (fun _ _ => rfl) (fun _ _ => rfl) hown, hsince]
    exact hreleases.settled

theorem notesOf_handed {v : Handover σ} {r : Registry} {k : String}
    (h : names k v.job = true → r.engines.get? k = none) :
    notesOf k (since v.stage (v.handed (r, v.stage)).2.2) = [] := by
  have hself : since v.stage v.stage = [] := since_of_adds (adds_of_journal_eq rfl)
  rcases handed_cases v r with ⟨f, hrefused, -⟩ | ⟨l, e, hl, he⟩
  · rw [hrefused, hself]
    rfl
  · obtain ⟨result, t, after, hwork, hhanded, -, -⟩ := (routed v r).registered l e hl he
    have hown := noted_of_work v l e
    rw [hwork] at hown
    rw [hhanded]
    refine notesOf_of_other ?_ hown
    rintro rfl
    rw [h hl] at he
    cases he

theorem received_handed {v : Handover σ} {r : Registry} {k : String} {e : Engine}
    (hk : names k v.job = true) (he : r.engines.get? k = some e) :
    Received k [v.job] (since v.stage (v.handed (r, v.stage)).2.2) e
      (v.work k ⟨e, v.stage⟩).2.engine := by
  obtain ⟨result, t, after, hwork, hhanded, -, -⟩ := (routed v r).registered k e hk he
  have hreceived := received_of_work v k e
  rw [hwork] at hreceived ⊢
  rw [hhanded]
  exact hreceived

theorem notesOf_recorded {r : Registry} {k : String} (h : r.engines.get? k = none)
    (handovers : List (Handover σ)) : notesOf k (recorded r handovers) = [] := by
  induction handovers generalizing r with
  | nil => rfl
  | cons v handovers ih =>
    have hnext : (v.handed (r, v.stage)).2.1.engines.get? k = none := by
      rw [get?_handed, h]
      exact ite_self _
    rw [recorded, notesOf_append, notesOf_handed fun _ => h, ih hnext]
    rfl

theorem received_recorded {r : Registry} {k : String} {e : Engine}
    (h : r.engines.get? k = some e) (handovers : List (Handover σ)) :
    Received k (jobsNaming k handovers) (recorded r handovers) e
      (alone k e (handovers.filter fun v => names k v.job)) := by
  induction handovers generalizing r e with
  | nil => exact received_of_notesOf_eq_nil rfl
  | cons v handovers ih =>
    have hnext := get?_handed v r k
    unfold jobsNaming
    by_cases hk : names k v.job = true
    · rw [if_pos hk, h, Option.map_some] at hnext
      rw [List.filter_cons, if_pos hk]
      exact (received_handed hk h).trans (ih hnext)
    · rw [if_neg hk, h] at hnext
      rw [List.filter_cons, if_neg hk]
      exact (received_of_notesOf_eq_nil (notesOf_handed fun h => absurd h hk)).trans (ih hnext)

/-! ## Registered applications -/

omit [Desk σ] in
theorem get?_foldlM {drivable : String → Except Fault Unit} {apps : List String}
    {start r : Registry}
    (h : apps.foldlM (fun r app => do
      drivable app
      return (⟨r.engines.insert app .fresh⟩ : Registry)) start = .ok r) (k : String) :
    r.engines.get? k = if k ∈ apps then some .fresh else start.engines.get? k := by
  induction apps generalizing start with
  | nil =>
    cases h
    simp
  | cons app rest ih =>
    rw [List.foldlM_cons] at h
    cases happ : drivable app with
    | error f =>
      rw [happ] at h
      cases h
    | ok _ =>
      rw [happ] at h
      rw [ih h]
      by_cases hself : k = app
      · subst hself
        simp [get?_insert_self]
      · simp [hself, get?_insert_of_ne]

theorem get?_build {c : Config} {drivable : String → Except Fault Unit} {r : Registry}
    (h : Registry.build c drivable = .ok r) (k : String) :
    r.engines.get? k = if k ∈ Registry.keys c then some .fresh else none :=
  get?_foldlM h k

theorem key_of_mem_keys {c : Config} {k : String} (h : k ∈ Registry.keys c) :
    Registry.key k = k := by
  obtain ⟨name, -, rfl⟩ := List.mem_map.1 h
  exact key_key name

/-- A job gets to the engine of the application it names and to no other one, or else it is refused
and nothing changes. After any number of jobs an engine is what the jobs that name it, in their
order, make of it: exactly these joined its queue, and those that did not leave it are waiting
there, in this order; an application without an engine notes nothing. The engines of a new registry
are those of the configured applications, under their keys, and a key is its own key. -/
theorem jobs_reach_their_engine :
    (∀ (v : Handover σ) r, Routed v r) ∧
    (∀ r (handovers : List (Handover σ)) k, (after r handovers).engines.get? k =
      (r.engines.get? k).map fun e => alone k e (handovers.filter fun v => names k v.job)) ∧
    (∀ r (handovers : List (Handover σ)) k,
      (r.engines.get? k = none → notesOf k (recorded r handovers) = []) ∧
      ∀ e, r.engines.get? k = some e → ∃ e', (after r handovers).engines.get? k = some e' ∧
        Received k (jobsNaming k handovers) (recorded r handovers) e e') ∧
    ∀ c drivable r, Registry.build c drivable = .ok r →
      ∀ k, (r.engines.get? k = if k ∈ Registry.keys c then some .fresh else none) ∧
        (k ∈ Registry.keys c → Registry.key k = k) := by
  refine ⟨routed, get?_after, fun r handovers k => ⟨fun h => notesOf_recorded h handovers, ?_⟩, ?_⟩
  · intro e he
    have hafter := get?_after r handovers k
    rw [he, Option.map_some] at hafter
    exact ⟨_, hafter, received_recorded he handovers⟩
  · exact fun _ _ _ h k => ⟨get?_build h k, key_of_mem_keys⟩

/-! ## Two engines -/

def paired : Config := { hasty with apps := .ofList [("App", 1), ("spare", 2)] }

def pairedEngines : Registry := ⟨.ofList [("app", .fresh), ("spare", .fresh)]⟩

def strayErrand : Job :=
  ⟨.ofAttrs (.ofList [("Action", .text "pay"), ("App", .text "Ghost")]), ""⟩

def submission (job : Job) : Handover Rehearsal :=
  ⟨false, bare.setup "" paired, job, stageWith true true⟩

theorem left_errand :
    left (notesOf "app" (recorded pairedEngines [submission errand, submission strayErrand])) =
      [] := by
  decide +kernel

/-- The first job arrives in the queue of the engine it names, and the other engine is left alone;
the second job is refused. -/
theorem errand_reaches_its_engine :
    Registry.build paired (fun _ => .ok ()) = .ok pairedEngines ∧
    (∃ e, (after pairedEngines [submission errand, submission strayErrand]).engines.get? "app" =
      some e ∧ e.agenda.pending = [errand]) ∧
    (after pairedEngines [submission errand, submission strayErrand]).engines.get? "spare" =
      some .fresh ∧
    (submission strayErrand).handed (pairedEngines, stageWith true true) =
      (.error (.invalidCommand "no engine registered for app 'ghost'"),
        (pairedEngines, stageWith true true)) := by
  obtain ⟨hrouted, hengines, hreceived, -⟩ := jobs_reach_their_engine (σ := Rehearsal)
  refine ⟨rfl, ?_, ?_, ?_⟩
  · obtain ⟨e, he, hjobs⟩ := (hreceived pairedEngines
      [submission errand, submission strayErrand] "app").2 .fresh rfl
    have hsettled := hjobs.settled
    rw [left_errand] at hsettled
    exact ⟨e, he, hsettled⟩
  · exact hengines pairedEngines [submission errand, submission strayErrand] "spare"
  · exact (hrouted (submission strayErrand) pairedEngines).unregistered "ghost" rfl rfl

end Playback.Proofs.Addressees
