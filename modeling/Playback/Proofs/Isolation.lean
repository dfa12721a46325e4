import Playback.Proofs.Expanding
import Playback.Proofs.SideBySide
import Playback.Proofs.Reachability
/-!
# Isolation of jobs

What earlier jobs left in the memory of an engine makes no difference to a job, unless the memory
holds a name that the job spells in another letter case. An emptied answer keeps its name, and it is
found under this name by whoever asks for the other spelling; so what is typed, compared and
delivered for a job can depend on the spellings that earlier jobs used.
-/

namespace Playback.Proofs.Isolation

open Footprints Moves Career Expanding Names Answers SideBySide Twofold Reachability

variable {σ α : Type}

/-- All names that are written for the jobs on the agenda are spelled as they are in both
memories. -/
structure Spoken (left right : String → Prop) (e : Setup) (a : Agenda) : Prop where
  ok : left okAttribute ∧ right okAttribute
  commands : ∀ c ∈ a.commands, Shared left right (written c)
  expansions : ∀ job ∈ a.pending, ∀ history x, e.expand history job = .ok x →
    ∀ c ∈ x.commands, Shared left right (written c)

/-- Two engines that differ in the names in their memories at most, on the same stage. -/
structure EnginesAgree (left right : String → Prop) (e : Setup) (s t : Session σ) : Prop where
  agenda_eq : s.agenda = t.agenda
  spoken : Spoken left right e s.agenda
  agree : Agree left right s.engine.memory t.engine.memory
  stage_eq : s.stage = t.stage

/-! ## Agendas -/

section Agendas

variable {left right : String → Prop} {e : Setup} {a b : Agenda}

theorem Spoken.congr (h : Spoken left right e a) (hcommands : ∀ c ∈ b.commands, c ∈ a.commands)
    (hpending : ∀ job ∈ b.pending, job ∈ a.pending) : Spoken left right e b :=
  ⟨h.ok, fun c hc => h.commands c (hcommands c hc),
    fun job hjob => h.expansions job (hpending job hjob)⟩

theorem Spoken.dropFirst (h : Spoken left right e a) : Spoken left right e a.dropFirst :=
  h.congr (fun _ hc => by cases hc) fun _ hjob => List.mem_of_mem_tail hjob

theorem Spoken.beginAgain (h : Spoken left right e a) : Spoken left right e a.beginAgain :=
  h.congr (fun _ hc => by cases hc) fun _ hjob => hjob

theorem spoken_of_advances {news : List Entry} {r : Except Fault Unit} (h : Spoken left right e a)
    (hnext : Advances e a news r b) : Spoken left right e b := by
  induction hnext with
  | idle => exact h.congr (fun _ hc => by cases hc) fun _ hjob => hjob
  | @found a job rest x _ _ hpending hexpand =>
    have hjob : job ∈ a.pending := by
      rw [hpending]
      exact List.mem_cons_self
    exact ⟨h.ok, h.expansions job hjob a.history x hexpand, h.expansions⟩
  | dropped _ _ _ ih => exact ih h.dropFirst

end Agendas

/-! ## Steps of an engine -/

section Steps

variable {left right : String → Prop} {e : Setup}

theorem respects_onStage (x : Action (Stage σ) α) :
    Respects (EnginesAgree left right e) (Session.onStage x) := by
  rintro ⟨engine, s⟩ ⟨engine', t⟩ h
  have hstage : s = t := h.stage_eq
  subst hstage
  exact ⟨rfl, h.agenda_eq, h.spoken, h.agree, rfl⟩

theorem respects_onMemory {x : Action (Memory × Stage σ) α}
    (hx : Respects (Alongside left right) x) :
    Respects (EnginesAgree left right e) (Session.onMemory x) := by
  intro s t h
  obtain ⟨hresult, hagree, hstage⟩ :=
    hx (s.engine.memory, s.stage) (t.engine.memory, t.stage) ⟨h.agree, h.stage_eq⟩
  exact ⟨hresult, h.agenda_eq, h.spoken, hagree, hstage⟩

theorem EnginesAgree.setAgenda {s t : Session σ} (h : EnginesAgree left right e s t) {a : Agenda}
    (ha : Spoken left right e a) : EnginesAgree left right e (s.setAgenda a) (t.setAgenda a) :=
  ⟨rfl, ha, h.agree, h.stage_eq⟩

theorem EnginesAgree.pop {s t : Session σ} {c : Command} {commands : List Command}
    (h : EnginesAgree left right e s t) (hcommands : s.agenda.commands = c :: commands) :
    EnginesAgree left right e (pop s commands) (pop t commands) := by
  unfold Career.pop
  rw [← h.agenda_eq]
  refine h.setAgenda (h.spoken.congr (fun other hother => ?_) fun _ hjob => hjob)
  rw [hcommands]
  exact List.mem_cons_of_mem c hother

variable [Desk σ] (hleft : Unambiguous left) (hright : Unambiguous right)

include hleft hright

theorem lockstep_enginesAgree :
    Lockstep e (fun c => Shared left right (written c)) (EnginesAgree (σ := σ) left right e) where
  agenda_eq h := h.agenda_eq
  head h hcommands := h.spoken.commands _ (by rw [hcommands]; exact List.mem_cons_self)
  popped h hcommands := h.pop hcommands
  loaded := by
    intro s t h
    obtain ⟨news, -, hnext⟩ := realizes_next e s
    rw [Setup.agenda_next] at hnext
    exact h.setAgenda (spoken_of_advances h.spoken hnext)
  dropped h := h.setAgenda h.spoken.dropFirst
  begunAgain h := h.setAgenda h.spoken.beginAgain
  phased _ h := h.setAgenda (h.spoken.congr (fun _ hc => hc) fun _ hjob => hjob)
  running := respects_onStage _
  opens := respects_onStage _
  relaunches := respects_onStage _
  pauses := respects_onStage _
  signals := respects_onStage _
  notes _ := respects_onStage _
  excuses := by
    intro s t h
    refine respects_onMemory ?_ s t h
    refine respects_operationLabel.bind fun operation => ?_
    exact respects_answering fun _ _ halike => halike.set hleft hright h.spoken.ok _
  performs c hc := respects_onMemory (respects_perform hleft hright e c hc)

end Steps

/-! ## A job after others -/

/-- Two engines with the same agenda, whatever they remember, on the same stage. -/
structure AgendasAgree (left right : String → Prop) (e : Setup) (s t : Session σ) : Prop where
  agenda_eq : s.agenda = t.agenda
  spoken : Spoken left right e s.agenda
  spelled_left : Spelled left s.engine.memory.question
  spelled_right : Spelled right t.engine.memory.question
  stage_eq : s.stage = t.stage

/-- What can be seen of an engine and its stage: everything but the memory. -/
def Indistinct {β : Type} (x y : β × Session σ) : Prop :=
  x.1 = y.1 ∧ x.2.agenda = y.2.agenda ∧ x.2.stage = y.2.stage

section Isolating

variable {left right : String → Prop} {e : Setup}

theorem names_of_expand {history : List String} {job : Job} {x : Expansion}
    (h : e.expand history job = .ok x) :
    ∃ params commands, x.commands = .paramChange params :: commands ∧ NamesOperation params := by
  obtain ⟨-, screen, lead, own, operation, hoperation, -, -, -, hcommands⟩ := expand_eq_ok_iff.1 h
  obtain ⟨htrim, hsome⟩ := trimmed_of_operation hoperation
  rw [List.cons_append, List.cons_append] at hcommands
  exact ⟨_, _, hcommands, operation, get?_insert_self _ _ _, htrim, hsome⟩

variable [Desk σ]

theorem dispatch_paramChange (params : Dict Answer) {s : Session σ}
    (hrunning : s.stage.aborted = false) :
    e.dispatch (.paramChange params) s = (.ok (.ok ()),
      ⟨{ s.engine with memory := s.engine.memory.takeParams params },
        (s.stage.record (noted e (.dispatched (.paramChange params)))).record
          (noted e (.performed (.paramChange params) (.ok ())))⟩) := by
  have hcheck : Session.onStage Stage.ensureRunning s = (.ok (), s) := by
    simp [Session.onStage, Stage.ensureRunning, hrunning]
  unfold Setup.dispatch
  rw [Action.bind_of_ok hcheck]
  rfl

omit [Desk σ] in
theorem EnginesAgree.indistinct {β : Type} {x y : β × Session σ} (hresult : x.1 = y.1)
    (h : EnginesAgree left right e x.2 y.2) : Indistinct x y :=
  ⟨hresult, h.agenda_eq, h.stage_eq⟩

variable (hleft : Unambiguous left) (hright : Unambiguous right)

include hleft hright

/-- Once the parameters are set, engines whose agendas agree do so themselves. -/
theorem AgendasAgree.dispatch {s t : Session σ} {params : Dict Answer} {commands : List Command}
    (h : AgendasAgree left right e s t)
    (hcommands : s.agenda.commands = .paramChange params :: commands)
    (hoperation : NamesOperation params) (hrunning : s.stage.aborted = false) :
    ∃ u v, e.dispatch (.paramChange params) (pop s commands) = (.ok (.ok ()), u) ∧
      e.dispatch (.paramChange params) (pop t commands) = (.ok (.ok ()), v) ∧
      EnginesAgree left right e u v := by
  have hfirst : .paramChange params ∈ s.agenda.commands := by
    rw [hcommands]
    exact List.mem_cons_self
  have hnames := h.spoken.commands (.paramChange params) hfirst
  have hagree := agree_of_names hleft hright hnames hoperation h.spelled_left h.spelled_right
  have hrunning' : t.stage.aborted = false := by rw [← h.stage_eq]; exact hrunning
  refine ⟨_, _, dispatch_paramChange params hrunning, dispatch_paramChange params hrunning', ?_⟩
  refine ⟨?_, ?_, hagree, ?_⟩
  · show { s.agenda with commands } = { t.agenda with commands }
    rw [h.agenda_eq]
  · refine h.spoken.congr (fun c hc => ?_) fun _ hjob => hjob
    rw [hcommands]
    exact List.mem_cons_of_mem _ hc
  · show (s.stage.record _).record _ = (t.stage.record _).record _
    rw [h.stage_eq]

theorem indistinct_performAll {s t : Session σ} {params : Dict Answer} {commands : List Command}
    (h : AgendasAgree left right e s t)
    (hcommands : s.agenda.commands = .paramChange params :: commands)
    (hoperation : NamesOperation params) : Indistinct (e.performAll s) (e.performAll t) := by
  have hcommands' : t.agenda.commands = .paramChange params :: commands := by
    rw [← h.agenda_eq]
    exact hcommands
  -- the memories agree only after the first command, so that it is performed apart
  rw [performAll_cons e hcommands, performAll_cons e hcommands']
  cases hrunning : s.stage.aborted with
  | true =>
    have haborted : (pop t commands).stage.aborted = true := by
      show t.stage.aborted = true
      rw [← h.stage_eq]
      exact hrunning
    rw [step_of_aborted e _ (s := pop s commands) hrunning, step_of_aborted e _ haborted]
    refine ⟨rfl, ?_, h.stage_eq⟩
    show { s.agenda with commands } = { t.agenda with commands }
    rw [h.agenda_eq]
  | false =>
    obtain ⟨u, v, hu, hv, henginesAgree⟩ := h.dispatch hleft hright hcommands hoperation hrunning
    have hs : e.step (.paramChange params) (pop s commands) = e.rest u := by
      rw [Setup.step, Action.bind_of_ok hu]
      rfl
    have ht : e.step (.paramChange params) (pop t commands) = e.rest v := by
      rw [Setup.step, Action.bind_of_ok hv]
      rfl
    obtain ⟨hresult, hafter⟩ := (lockstep_enginesAgree hleft hright).rest u v henginesAgree
    rw [hs, ht]
    rcases hru : e.rest u with ⟨r, u'⟩
    rcases hrv : e.rest v with ⟨r', v'⟩
    rw [hru, hrv] at hresult hafter
    have hresult : r = r' := hresult
    subst hresult
    cases r with
    | error f => exact hafter.indistinct rfl
    | ok _ =>
      obtain ⟨hsame, hdone⟩ := (lockstep_enginesAgree hleft hright).performAll u' v' hafter
      exact hdone.indistinct hsame

/-- A job is done in the same way whatever the memory holds from earlier jobs, as long as neither
memory holds a name that is spelled in another letter case for this job or those after it. -/
theorem run_isolated {a : Agenda} {history : List String} {job : Job} {x : Expansion}
    (hexpand : e.expand history job = .ok x) (hcommands : a.commands = x.commands)
    (hspoken : Spoken left right e a) {m n : Memory} (hm : Spelled left m.question)
    (hn : Spelled right n.question) (stage : Stage σ) :
    Indistinct (e.run ⟨⟨a, m⟩, stage⟩) (e.run ⟨⟨a, n⟩, stage⟩) := by
  obtain ⟨params, commands, hx, hoperation⟩ := names_of_expand hexpand
  have hfirst : a.commands = .paramChange params :: commands := hcommands.trans hx
  have hbegin : ∀ memory : Memory, begin e ⟨⟨a, memory⟩, stage⟩ =
      Session.onStage e.ensureOpen ⟨⟨a, memory⟩, stage⟩ := by
    intro memory
    have hsome : (⟨⟨a, memory⟩, stage⟩ : Session σ).agenda.commands ≠ [] := by
      show a.commands ≠ []
      rw [hfirst]
      exact List.cons_ne_nil _ _
    rw [begin, if_pos hsome]
  rw [run_eq, run_eq]
  rcases hopen : e.ensureOpen stage with ⟨r, opened⟩
  have hbegun : ∀ memory : Memory, begin e ⟨⟨a, memory⟩, stage⟩ = (r, ⟨⟨a, memory⟩, opened⟩) :=
    fun memory => (hbegin memory).trans (onStage_eq hopen)
  cases r with
  | error f =>
    rw [Action.bind_of_error (hbegun m), Action.bind_of_error (hbegun n)]
    exact ⟨rfl, rfl, rfl⟩
  | ok _ =>
    rw [Action.bind_of_ok (hbegun m), Action.bind_of_ok (hbegun n)]
    have hagendasAgree :
        AgendasAgree left right e (⟨⟨a, m⟩, opened⟩ : Session σ) ⟨⟨a, n⟩, opened⟩ :=
      ⟨rfl, hspoken, hm, hn, rfl⟩
    obtain ⟨hresult, hagenda, hstage⟩ :=
      indistinct_performAll hleft hright hagendasAgree hfirst hoperation
    rcases hs : e.performAll (⟨⟨a, m⟩, opened⟩ : Session σ) with ⟨r, s⟩
    rcases ht : e.performAll (⟨⟨a, n⟩, opened⟩ : Session σ) with ⟨r', t⟩
    rw [hs, ht] at hresult hagenda hstage
    have hresult : r = r' := hresult
    subst hresult
    cases r with
    | error f =>
      rw [Action.bind_of_error hs, Action.bind_of_error ht]
      exact ⟨rfl, hagenda, hstage⟩
    | ok _ =>
      rw [Action.bind_of_ok hs, Action.bind_of_ok ht]
      refine ⟨rfl, ?_, hstage⟩
      show { s.agenda with phase := .idle } = { t.agenda with phase := .idle }
      rw [show s.agenda = t.agenda from hagenda]

end Isolating

/-! ## Names in one spelling -/

def double : Config :=
  { hasty with
    catalog := ⟨.ofList [("note", ⟨.active, "bank", [okAttribute]⟩),
      ("pay", ⟨.active, "bank", [okAttribute]⟩)], ⟨[appAttribute, actionAttribute]⟩⟩ }

/-- The recording of one operation sets an attribute in capital letters, and that of the other types
the attribute of this name. -/
def labelled : Setting :=
  { bare with
    files := .ofList [("m", .folder), ("m/app", .folder), ("m/app/Act", .folder),
      ("m/app/Act/note.txt",
        .text "[\x7b\"action\":\"paramChange\",\"value\":\x7b\"ACTION\":\"9\"\x7d\x7d]"),
      ("m/app/Act/pay.txt",
        .text "[\x7b\"action\":\"write\",\"position\":[0,0],\"value\":\".action\"\x7d]")] }

def labelling : Setup := labelled.setup "app" double

def noting : Job := ⟨.ofAttrs (.ofList [("Action", .text "note"), ("App", .text "app")]), ""⟩

def done (job : Job) : List (Turn Rehearsal) :=
  [⟨.add job, labelled, stageWith true true⟩, ⟨.run, labelled, stageWith true true⟩]

def paying : List Command :=
  [.paramChange (labelling.params errand "pay"), .write (.question "action"),
    .webhook (labelling.params errand "pay")]

def payingAgenda : Agenda := ⟨.running, 0, paying, [errand], ["pay"]⟩

theorem expand_paying : labelling.expand [] errand = .ok ⟨"pay", paying⟩ := by
  decide +kernel

def plain : List String := ["Action", "App", "Ok", "chosen_feature"]

theorem unambiguous_plain : Unambiguous (· ∈ plain) := by
  have hall : ∀ a ∈ plain, ∀ b ∈ plain, Text.sameName a b → a = b := by decide +kernel
  exact fun a b ha hb => hall a ha b hb

theorem plain_facts :
    (∀ c ∈ paying, ∀ name ∈ written c, name ∈ plain) ∧ okAttribute ∈ plain ∧
    errand.operation? = some "pay" ∧ double.catalog.screenOf? "pay" = some "bank" ∧
    labelling.loadAll (approach none "bank") = .ok [] ∧
    labelling.loadRecording ⟨.action, "pay"⟩ = .ok [.write (.question "action")] ∧
    (∀ entry ∈ double.catalog.operations.entries, entry.2.screen = "bank") ∧
    (careerWithin 4 "app" double (done errand)).map (fun r =>
      r.2.engine.memory.question.attrs.entries.all fun entry => plain.contains entry.1) =
        some true := by
  decide +kernel

theorem screen_double {operation screen : String}
    (h : double.catalog.screenOf? operation = some screen) : screen = "bank" := by
  obtain ⟨-, -, -, -, -, -, hbank, -⟩ := plain_facts
  obtain ⟨feature, hfeature, rfl⟩ := Option.map_eq_some_iff.1 h
  unfold Catalog.get? at hfeature
  dsimp only at hfeature
  cases hexact : double.catalog.operations.get? (Text.trim operation) with
  | some found =>
    rw [hexact] at hfeature
    cases hfeature
    exact hbank _ (get?_eq_some_iff.1 hexact)
  | none =>
    rw [hexact] at hfeature
    obtain ⟨entry, hfind, rfl⟩ := Option.map_eq_some_iff.1 hfeature
    exact hbank entry (List.mem_of_find?_eq_some hfind)

theorem commands_of_errand {history : List String} {x : Expansion}
    (h : labelling.expand history errand = .ok x) : x.commands = paying := by
  obtain ⟨-, -, herrand, hscreen, hlead, hown, -, -⟩ := plain_facts
  have hnothing :
      labelling.loadAll (approach (labelling.previousScreen? history) "bank") = .ok [] := by
    cases hprevious : labelling.previousScreen? history with
    | none => exact hlead
    | some previous =>
      obtain ⟨latest, -, hlatest⟩ := Option.bind_eq_some_iff.1 hprevious
      rw [show previous = "bank" from screen_double hlatest]
      rfl
  obtain ⟨-, screen, lead, own, hcomposed⟩ := expand_eq_ok_iff.1 h
  obtain ⟨-, hrecorded, hcommands⟩ := hcomposed.settled herrand hscreen hnothing
  rw [hown, Except.ok.injEq] at hrecorded
  rw [hcommands, ← hrecorded]
  rfl

theorem spoken_paying : Spoken (· ∈ plain) (· ∈ plain) labelling payingAgenda := by
  obtain ⟨hpaying, hok, -⟩ := plain_facts
  refine ⟨⟨hok, hok⟩, fun c hc name hname => ?_, ?_⟩
  · have hplain := hpaying c hc name hname
    exact ⟨hplain, hplain⟩
  · intro job hjob history x hexpand c hc name hname
    rw [payingAgenda, List.mem_singleton] at hjob
    subst hjob
    rw [commands_of_errand hexpand] at hc
    have hplain := hpaying c hc name hname
    exact ⟨hplain, hplain⟩

/-- The job is done a second time as it was the first time. -/
theorem paying_isolated :
    labelling.expand [] errand = .ok ⟨"pay", paying⟩ ∧ payingAgenda.commands = paying ∧
    Unambiguous (· ∈ plain) ∧ Spoken (· ∈ plain) (· ∈ plain) labelling payingAgenda ∧
    ∃ memory, (career "app" double (done errand)).engine.memory = memory ∧
      Spelled (· ∈ plain) Memory.fresh.question ∧ Spelled (· ∈ plain) memory.question ∧
      Indistinct (labelling.run ⟨⟨payingAgenda, .fresh⟩, stageWith true true⟩)
        (labelling.run ⟨⟨payingAgenda, memory⟩, stageWith true true⟩) := by
  obtain ⟨-, -, -, -, -, -, -, hmemory⟩ := plain_facts
  obtain ⟨⟨results, past⟩, hcareer, hall⟩ := Option.map_eq_some_iff.1 hmemory
  have hpast := career_of_within hcareer
  have hspelled : Spelled (· ∈ plain) past.engine.memory.question := by
    intro entry hentry
    simpa using List.all_eq_true.1 hall entry hentry
  have hfresh : Spelled (· ∈ plain) Memory.fresh.question := fun entry hentry => by cases hentry
  refine ⟨expand_paying, rfl, unambiguous_plain, spoken_paying, past.engine.memory, ?_, hfresh,
    hspelled, ?_⟩
  · rw [hpast]
  · exact run_isolated unambiguous_plain unambiguous_plain expand_paying rfl spoken_paying hfresh
      hspelled (stageWith true true)

/-! ## A name that is left in another letter case -/

/-- Whatever two engines did before, they do a job in the same way. -/
def AlwaysIsolated (σ : Type) [Desk σ] : Prop :=
  ∀ (app : String) (config : Config) (before before' : List (Turn σ)) (w : Setting)
    (history : List String) (job : Job) (x : Expansion) (a : Agenda) (stage : Stage σ),
    (w.setup app config).expand history job = .ok x → a.commands = x.commands →
      a.pending = [job] →
        Indistinct ((w.setup app config).run ⟨⟨a, (career app config before).engine.memory⟩, stage⟩)
          ((w.setup app config).run ⟨⟨a, (career app config before').engine.memory⟩, stage⟩)

def typed (journal : List Entry) : List String :=
  journal.filterMap fun
    | .called (.write text) _ => some text
    | _ => none

def typedAfter (memory : Memory) : Option (List String) :=
  (runWithin labelling 4 ⟨⟨payingAgenda, memory⟩, stageWith true true⟩).map fun r =>
    typed r.2.stage.journal

theorem typed_facts :
    (careerWithin 4 "app" double (done noting)).map (fun r => typedAfter r.2.engine.memory) =
      some (some [""]) ∧
    typedAfter .fresh = some ["pay"] := by
  decide +kernel

theorem typed_run {memory : Memory} {texts : List String} (h : typedAfter memory = some texts) :
    typed (labelling.run ⟨⟨payingAgenda, memory⟩, stageWith true true⟩).2.stage.journal =
      texts := by
  obtain ⟨result, hrun, htexts⟩ := Option.map_eq_some_iff.1 h
  rw [run_of_within labelling hrun]
  exact htexts

/-- After the other job nothing is typed for the name. -/
theorem noted_job_steers : ¬ AlwaysIsolated Rehearsal := by
  intro hall
  obtain ⟨hnoted, hfresh⟩ := typed_facts
  obtain ⟨⟨results, past⟩, hcareer, htyped⟩ := Option.map_eq_some_iff.1 hnoted
  have hpast := career_of_within hcareer
  obtain ⟨-, -, hstage⟩ := hall "app" double (done noting) [] labelled [] errand ⟨"pay", paying⟩
    payingAgenda (stageWith true true) expand_paying rfl rfl
  rw [hpast] at hstage
  have hsame : [""] = ["pay"] := by
    rw [← typed_run htyped, ← typed_run hfresh]
    exact congrArg (fun stage => typed stage.journal) hstage
  exact absurd hsame (by decide)

end Playback.Proofs.Isolation
