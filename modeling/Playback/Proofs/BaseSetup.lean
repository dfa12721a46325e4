import Playback.Proofs.Attempts
/-!
# The base recording after a launch

The base recording brings an application from its start to where the navigation sets out. The
commands at hand after a launch belong to the latest expansion, and this begins with the base
recording where it is the first one since the engine began or last started the application anew
after a timeout. Where the application ended by itself and is launched for a later job, or in the
midst of a job, the commands go on from the screen of the job before.
-/

namespace Playback.Proofs.BaseSetup

open Footprints Moves Career Expanding Reachability Attempts

variable {σ : Type}

/-- The commands begin with the base recording. -/
def FromBase (e : Setup) (job : Job) (commands : List Command) : Prop :=
  ∃ screen lead own, Composed e none screen job lead own commands

/-- The commands go on from a screen. -/
def FromScreen (e : Setup) (previous : String) (job : Job) (commands : List Command) : Prop :=
  ∃ screen lead own, Composed e (some previous) screen job lead own commands

/-- What is left to do at a point of a run: a part of the commands of the present attempt, which
begin with the base recording if it is the first attempt, and go on from the screen of the attempt
before it otherwise. -/
structure InForce (app : String) (config : Config) (seen : List Setting) (a : Agenda)
    (story : List Entry) (attempt : Attempt) (earlier : List Attempt) : Prop where
  attempts_eq : attempts story = attempt :: earlier
  pending : a.pending.head? = some attempt.job
  commands : a.commands <:+ attempt.commands
  first : earlier = [] → ∃ v ∈ seen, FromBase (v.setup app config) attempt.job attempt.commands
  later : ∀ last before, earlier = last :: before → ∃ previous,
    last.screen? config.catalog = some previous ∧
      ∃ v ∈ seen, FromScreen (v.setup app config) previous attempt.job attempt.commands
  anew : ∀ before count relaunch job commands news, (∀ entry ∈ relaunch ++ news, Continues entry) →
    story = before ++ .noted app (.retrying count) :: relaunch ++
      .noted app (.expanded job commands) :: news → earlier = []

theorem inForce_of_atLatest {app : String} {config : Config} {seen : List Setting} {a : Agenda}
    {story : List Entry} (h : AtLatest app config seen a story) (hcommands : a.commands ≠ []) :
    ∃ attempt earlier, InForce app config seen a story attempt earlier := by
  obtain ⟨attempt, earlier, hattempts, hpending, hsuffix⟩ := h.underway hcommands
  have hchained := h.chained
  rw [hattempts] at hchained
  obtain ⟨⟨v, hv, hexpands⟩, hearlier⟩ := hchained
  obtain ⟨screen, lead, own, -, hcomposed⟩ := composed_of_expandsAfter rfl hexpands hearlier
  refine ⟨attempt, earlier, hattempts, hpending, hsuffix, ?_, ?_, ?_⟩
  · rintro rfl
    exact ⟨v, hv, screen, lead, own, hcomposed⟩
  · rintro last before rfl
    obtain ⟨previous, hprevious⟩ := hearlier.screen
    have hhead : (last :: before).head?.bind (Attempt.screen? config.catalog) = some previous := by
      rw [List.head?_cons, Option.bind_some, hprevious]
    have hcomposed : Composed (v.setup app config)
        ((last :: before).head?.bind (Attempt.screen? config.catalog)) screen attempt.job lead own
        attempt.commands := hcomposed
    rw [hhead] at hcomposed
    exact ⟨previous, hprevious, v, hv, screen, lead, own, hcomposed⟩
  · intro before count relaunch job commands news hcontinues hstory
    have hrelaunch : ∀ entry ∈ relaunch, Continues entry :=
      fun entry hentry => hcontinues entry (List.mem_append_left _ hentry)
    have hnews : ∀ entry ∈ news, Continues entry :=
      fun entry hentry => hcontinues entry (List.mem_append_right _ hentry)
    rw [hstory, attempts_of_expanded hnews, attempts_of_retrying hrelaunch, List.cons.injEq]
      at hattempts
    exact hattempts.2.symm

variable [Desk σ]

/-- At every point of a run, be it right after a launch or later, what is left to do belongs to the
present attempt. -/
theorem inForce_of_stands (app : String) (config : Config) (turns : List (Turn σ)) (w : Setting)
    (stage : Stage σ) (t : Session σ)
    (ht : Stands (w.setup app config) ⟨(career app config turns).engine, stage⟩ t)
    (hcommands : t.agenda.commands ≠ []) :
    ∃ attempt earlier, InForce app config (w :: turns.map (·.setting)) t.agenda
      ((career app config turns).story ++ since stage t.stage) attempt earlier := by
  have hseen : ∀ turn ∈ turns, turn.setting ∈ w :: turns.map (·.setting) :=
    fun turn hturn => List.mem_cons_of_mem _ (List.mem_map_of_mem hturn)
  have hbefore : Reachable AnyStep app config _ (career app config turns).engine.agenda _ :=
    reachable_career allows_anyStep hseen fun _ _ _ _ => trivial
  obtain ⟨news, hnews, hreachable⟩ := reachable_stands allows_anyStep hbefore List.mem_cons_self ht
  have hsince : since stage t.stage = news := since_of_adds hnews
  rw [hsince]
  exact inForce_of_atLatest (atLatest_of_reachable hreachable) hcommands

/-! ## A launch between two jobs -/

def launching (launched : Bool) : Entry → Bool
  | .called (.launch ..) (.ok _) => true
  | .noted _ (.dispatched _) => false
  | _ => launched

def launched (story : List Entry) : Bool := story.foldl launching false

def based : Setting :=
  { bare with
    files := .ofList [("m", .folder), ("m/app", .folder), ("m/app/Base", .folder),
      ("m/app/Base/Base.txt",
        .text "[\x7b\"action\":\"write\",\"position\":[0,0],\"value\":\"hello\"\x7d]")] }

/-- The job is done; then the application ends by itself, and the job is added once more. -/
def errandRepeated : List (Turn Rehearsal) :=
  [⟨.add errand, based, stageWith true true⟩, ⟨.run, based, stageWith true true⟩,
    ⟨.add errand, based, stageWith false true⟩]

def repeated : Option (List (Except Fault Unit) × Past) :=
  careerWithin 4 "app" hasty errandRepeated

def rerun (p : Past) : Except Fault Unit × Session Rehearsal :=
  begin (based.setup "app" hasty) ⟨p.engine, stageWith true true⟩

def rerunStory (p : Past) : List Entry :=
  p.story ++ since (stageWith true true) (rerun p).2.stage

theorem rerun_facts :
    repeated.map (fun r => ((rerun r.2).1, (rerun r.2).2.agenda.pending.head?,
      (rerun r.2).2.agenda.commands.length, launched (rerunStory r.2),
      (attempts (rerunStory r.2)).length)) = some (.ok (), some errand, 2, true, 2) := by
  decide +kernel

theorem stands_rerun :
    ∃ t, Stands (based.setup "app" hasty)
        ⟨(career "app" hasty errandRepeated).engine, stageWith true true⟩ t ∧
      t.agenda.pending.head? = some errand ∧ t.agenda.commands.length = 2 ∧
      launched ((career "app" hasty errandRepeated).story ++
        since (stageWith true true) t.stage) = true ∧
      (attempts ((career "app" hasty errandRepeated).story ++
        since (stageWith true true) t.stage)).length = 2 := by
  obtain ⟨⟨results, past⟩, hrepeated, hfacts⟩ := Option.map_eq_some_iff.1 rerun_facts
  simp only [Prod.mk.injEq] at hfacts
  obtain ⟨hbegun, hrest⟩ := hfacts
  have hcareer := career_of_within hrepeated
  have hbegin : begin (based.setup "app" hasty) ⟨past.engine, stageWith true true⟩ =
      (.ok (), (rerun past).2) := by
    rw [← hbegun]
    rfl
  rw [hcareer]
  exact ⟨(rerun past).2, .begun hbegin, hrest⟩

theorem ne_nil_of_length {α : Type} {l : List α} {n : Nat} (h : l.length = n + 1) : l ≠ [] := by
  rintro rfl
  cases h

theorem rerun_inForce :
    ∃ t, Stands (based.setup "app" hasty)
        ⟨(career "app" hasty errandRepeated).engine, stageWith true true⟩ t ∧
      t.agenda.commands ≠ [] ∧
      ∃ attempt last before, InForce "app" hasty (based :: errandRepeated.map (·.setting)) t.agenda
        ((career "app" hasty errandRepeated).story ++ since (stageWith true true) t.stage) attempt
        (last :: before) := by
  obtain ⟨t, ht, -, hlength, -, htwo⟩ := stands_rerun
  have hcommands : t.agenda.commands ≠ [] := ne_nil_of_length hlength
  obtain ⟨attempt, earlier, hinForce⟩ := inForce_of_stands "app" hasty errandRepeated based
    (stageWith true true) t ht hcommands
  refine ⟨t, ht, hcommands, attempt, ?_⟩
  cases earlier with
  | nil =>
    rw [hinForce.attempts_eq] at htwo
    cases htwo
  | cons last before => exact ⟨last, before, hinForce⟩

/-- The commands at hand after a launch always begin with the base recording. -/
def AlwaysFromBase (σ : Type) [Desk σ] : Prop :=
  ∀ (app : String) (config : Config) (turns : List (Turn σ)) (w : Setting) (stage : Stage σ)
    (t : Session σ),
    Stands (w.setup app config) ⟨(career app config turns).engine, stage⟩ t →
      launched ((career app config turns).story ++ since stage t.stage) = true →
        t.agenda.commands ≠ [] →
          ∃ job, t.agenda.pending.head? = some job ∧ ∃ v ∈ w :: turns.map (·.setting),
            FromBase (v.setup app config) job t.agenda.commands

theorem based_facts :
    (based.setup "app" hasty).loadAll (approach none "bank") = .ok [.write (.raw "hello")] ∧
    errand.operation? = some "pay" ∧ small.screenOf? "pay" = some "bank" := by
  decide +kernel

theorem length_of_fromBase {commands : List Command}
    (h : FromBase (based.setup "app" hasty) errand commands) : 3 ≤ commands.length := by
  obtain ⟨hbase, herrand, hbank⟩ := based_facts
  obtain ⟨screen, lead, own, hcomposed⟩ := h
  obtain ⟨-, -, hcommands⟩ := hcomposed.settled herrand hbank hbase
  rw [hcommands]
  simp

/-- The application is launched for the second job, but its commands go on from the first one. -/
theorem relaunched_without_base : ¬ AlwaysFromBase Rehearsal := by
  intro hall
  obtain ⟨t, ht, hpending, hlength, hlaunched, -⟩ := stands_rerun
  obtain ⟨job, hjob, v, hv, hfrom⟩ := hall "app" hasty errandRepeated based (stageWith true true) t
    ht hlaunched (ne_nil_of_length hlength)
  rw [hpending, Option.some.injEq] at hjob
  subst hjob
  have hbased : v = based := by simpa [errandRepeated] using hv
  subst hbased
  have hlong := length_of_fromBase hfrom
  omega

end Playback.Proofs.BaseSetup
