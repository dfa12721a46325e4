import Playback.Proofs.Answers
import Playback.Proofs.Expanding
import Playback.Proofs.Retries
/-!
# Spellings of an operation

A catalog overlooks letter case where it looks an operation up, but the recording of the operation
is looked for under the name as the job spells it. So a job that spells it in a way of its own has
the recorded commands of one that spells it like the catalog exactly if both names lead to
recordings with the same commands, or if there is no way to the screen for either.
-/

namespace Playback.Proofs.Spelling

open Expanding Names Answers Career Retries

/-- The catalog's own spelling of an operation. -/
def spelling? (c : Catalog) (operation : String) : Option String :=
  match c.operations.get? (Text.trim operation) with
  | some _ => some (Text.trim operation)
  | none =>
    (c.operations.entries.find? fun e => Text.sameName e.1 (Text.trim operation)).map (·.1)

/-- The recorded commands of a job, if it can be expanded. -/
def recorded? (e : Setup) (history : List String) (job : Job) : Option (List Command) :=
  (e.expand history job).toOption.map fun x => x.commands.tail.dropLast

def respelled (job : Job) (name : String) : Job :=
  { job with question := job.question.set actionAttribute (.text name) }

/-! ## Catalogs -/

section Catalogs

variable {c : Catalog} {operation name : String} {feature : Feature}

theorem spelling_of_get (h : c.get? operation = some feature) :
    ∃ name, spelling? c operation = some name ∧ c.operations.get? name = some feature ∧
      Text.sameName name (Text.trim operation) := by
  unfold Catalog.get? at h
  unfold spelling?
  dsimp only at h
  cases hexact : c.operations.get? (Text.trim operation) with
  | some f =>
    rw [hexact] at h
    exact ⟨_, rfl, hexact.trans h, Text.sameName_refl _⟩
  | none =>
    rw [hexact] at h
    obtain ⟨entry, hfind, rfl⟩ := Option.map_eq_some_iff.1 h
    refine ⟨entry.1, ?_, get?_eq_some_iff.2 (List.mem_of_find?_eq_some hfind), ?_⟩
    · dsimp only
      rw [hfind, Option.map_some]
    · simpa using List.find?_some hfind

theorem get_of_trimmed (hname : Text.trim name = name)
    (h : c.operations.get? name = some feature) : c.get? name = some feature := by
  unfold Catalog.get?
  dsimp only
  rw [hname, h]

end Catalogs

/-! ## Jobs -/

section Jobs

variable {e : Setup} {history : List String} {job : Job} {operation screen name : String}

theorem operation_respelled (htrim : Text.trim name = name) (hname : name.isEmpty = false) :
    (respelled job name).operation? = some name := by
  have hstored : (respelled job name).question.stored? actionAttribute = some (.text name) :=
    stored_set_self _ _ (by decide)
  have htext : Text.trim (Answer.text name).asText = name := htrim
  unfold Job.operation?
  rw [hstored]
  dsimp only
  rw [htext, hname]
  rfl

theorem recorded_eq (hoperation : job.operation? = some operation)
    (hscreen : e.config.catalog.screenOf? operation = some screen) :
    recorded? e history job =
      (e.loadAll (approach (e.previousScreen? history) screen)).toOption.bind fun lead =>
        (e.loadRecording ⟨.action, operation⟩).toOption.map fun own => lead ++ own := by
  unfold recorded?
  rw [expand_eq hoperation hscreen]
  cases e.loadAll (approach (e.previousScreen? history) screen) with
  | error f => rfl
  | ok lead =>
    cases e.loadRecording ⟨.action, operation⟩ with
    | error f => rfl
    | ok own =>
      show some ((lead ++ own ++ [Command.webhook (e.params job operation)]).dropLast) =
        some (lead ++ own)
      rw [List.dropLast_concat]

theorem loadRecording_of_missing (r : Recording)
    (h : e.files.readText (e.mappings.path e.app r.kind r.name) = .error .notFound) :
    e.loadRecording r = .ok [] := by
  have hentries : e.files.commandEntries (e.mappings.path e.app r.kind r.name) = .ok none := by
    rw [FileTree.commandEntries, h]
  rw [Setup.loadRecording, MappingRoot.load, FileTree.loadCommands, hentries]
  rfl

/-- Two jobs for the same screen have the same recorded commands exactly if their own recordings
agree, unless there is no way to the screen. -/
theorem recorded_eq_iff {other : Job} (hoperation : job.operation? = some operation)
    (hother : other.operation? = some name)
    (hscreen : e.config.catalog.screenOf? operation = some screen)
    (hsame : e.config.catalog.screenOf? name = some screen) :
    recorded? e history other = recorded? e history job ↔
      ∀ lead, e.loadAll (approach (e.previousScreen? history) screen) = .ok lead →
        (e.loadRecording ⟨.action, name⟩).toOption =
          (e.loadRecording ⟨.action, operation⟩).toOption := by
  rw [recorded_eq hoperation hscreen, recorded_eq hother hsame]
  cases e.loadAll (approach (e.previousScreen? history) screen) with
  | error f =>
    have hnone : (Except.error f : Except Fault (List Command)).toOption = none := rfl
    rw [hnone, Option.bind_none, Option.bind_none]
    refine ⟨fun _ lead hlead => ?_, fun _ => rfl⟩
    cases hlead
  | ok lead =>
    have hsome : (Except.ok lead : Except Fault (List Command)).toOption = some lead := rfl
    have hinjective : Function.Injective (Option.map (lead ++ · : List Command → List Command)) :=
      Option.map_injective (List.append_right_injective lead)
    rw [hsome, Option.bind_some, Option.bind_some]
    constructor
    · intro h _ _
      exact hinjective h
    · intro h
      exact congrArg (Option.map (lead ++ ·)) (h lead rfl)

end Jobs

/-- A job whose operation is in the catalog, spelled as it may be, against the jobs that spell it as
the catalog does. If there is no recording under the name in the job, nothing is recorded for it but
the way to its screen. -/
theorem recorded_alike_iff (e : Setup) (history : List String) {job : Job} {operation : String}
    {feature : Feature} (hoperation : job.operation? = some operation)
    (hfeature : e.config.catalog.get? operation = some feature) :
    ∃ name, spelling? e.config.catalog operation = some name ∧
      e.config.catalog.get? name = some feature ∧ Text.sameName name operation ∧
      (respelled job name).operation? = some name ∧
      (∀ other : Job, other.operation? = some name →
        (recorded? e history other = recorded? e history job ↔
          ∀ lead, e.loadAll (approach (e.previousScreen? history) feature.screen) = .ok lead →
            (e.loadRecording ⟨.action, name⟩).toOption =
              (e.loadRecording ⟨.action, operation⟩).toOption)) ∧
      ∀ lead, e.loadAll (approach (e.previousScreen? history) feature.screen) = .ok lead →
        e.files.readText (e.mappings.path e.app .action operation) = .error .notFound →
          recorded? e history job = some lead := by
  obtain ⟨htrim, hsome⟩ := trimmed_of_operation hoperation
  obtain ⟨name, hname, hentry, hsame⟩ := spelling_of_get hfeature
  rw [htrim] at hsame
  have htrimmed : Text.trim name = name := trim_of_sameName hsame htrim
  have hfound : e.config.catalog.get? name = some feature := get_of_trimmed htrimmed hentry
  have hnonempty : name.isEmpty = false := isEmpty_of_sameName hsame hsome
  have hscreen : e.config.catalog.screenOf? operation = some feature.screen := by
    rw [Catalog.screenOf?, hfeature, Option.map_some]
  have hscreen' : e.config.catalog.screenOf? name = some feature.screen := by
    rw [Catalog.screenOf?, hfound, Option.map_some]
  refine ⟨name, hname, hfound, hsame, operation_respelled htrimmed hnonempty, ?_, ?_⟩
  · intro other hother
    exact recorded_eq_iff hoperation hother hscreen hscreen'
  · intro lead hlead hmissing
    rw [recorded_eq hoperation hscreen, hlead,
      loadRecording_of_missing ⟨.action, operation⟩ hmissing]
    show some (lead ++ []) = some lead
    rw [List.append_nil]

/-! ## An operation in capital letters -/

def loud : Job := respelled errand "PAY"

def payment : Feature := ⟨.active, "bank", [okAttribute]⟩

theorem loud_facts :
    loud.operation? = some "PAY" ∧ watching.config.catalog.get? "PAY" = some payment ∧
    watching.loadAll (approach (watching.previousScreen? []) "bank") = .ok [] ∧
    watching.files.readText (watching.mappings.path watching.app .action "PAY") =
      .error .notFound := by
  decide +kernel

/-- No recording is found under the name in capital letters. -/
theorem loud_unrecorded :
    loud.operation? = some "PAY" ∧ watching.config.catalog.get? "PAY" = some payment ∧
    ∃ name, spelling? watching.config.catalog "PAY" = some name ∧
      (respelled loud name).operation? = some name ∧ recorded? watching [] loud = some [] := by
  obtain ⟨hloud, hfound, hlead, hmissing⟩ := loud_facts
  obtain ⟨name, hname, -, -, hrespelled, -, hnothing⟩ := recorded_alike_iff watching [] hloud hfound
  exact ⟨hloud, hfound, name, hname, hrespelled, hnothing [] hlead hmissing⟩

/-- Every job has the recorded commands of the jobs that spell its operation as the catalog does. -/
def SpelledAlike : Prop :=
  ∀ (e : Setup) (history : List String) (job other : Job) (operation name : String),
    job.operation? = some operation → spelling? e.config.catalog operation = some name →
      other.operation? = some name → recorded? e history other = recorded? e history job

theorem quiet_facts :
    spelling? watching.config.catalog "PAY" = some "pay" ∧ errand.operation? = some "pay" ∧
    recorded? watching [] errand = some [watched] ∧ recorded? watching [] loud = some [] := by
  decide +kernel

theorem loud_not_alike : ¬ SpelledAlike := by
  intro hall
  obtain ⟨hspelling, herrand, hcolor, hnothing⟩ := quiet_facts
  have hsame := hall watching [] loud errand "PAY" "pay" loud_facts.1 hspelling herrand
  rw [hcolor, hnothing] at hsame
  cases hsame

end Playback.Proofs.Spelling
