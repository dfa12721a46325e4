import Playback.Config
import Playback.Files.Tree
import Playback.Question
/-!
# Task files

A task file is a JSON object or a list of them. An object with a `question` is an envelope; any
other is an input object, from which the question is built.
-/

namespace Playback.CommandLine

/-- Why the program gave up: what it was doing, and the first cause of its failure. -/
structure Report where
  message : String
  cause : Option String
  deriving DecidableEq, Repr, Inhabited

def Report.ofFault (f : Fault) : Report := ⟨f.message, none⟩

def reporting {α : Type} (message : String) : Except Fault α → Except Report α
  | .ok a => .ok a
  | .error f => .error ⟨message, some f.message⟩

def explain : FileFault → String
  | .notFound => "No such file or directory (os error 2)"
  | .notAFolder => "Not a directory (os error 20)"
  | .isAFolder => "Is a directory (os error 21)"
  | .badName => "File name too long (os error 36)"
  | .notText => "stream did not contain valid UTF-8"

/-- The input object with the given application, unless it names one itself. -/
def nameApp (app : Option String) (object : Dict Json) : Dict Json :=
  match app with
  | some app =>
    if object.keys.any fun k => Text.sameName k appAttribute then object
    else object.insert appAttribute (.str app)
  | none => object

def namedApp (object : Dict Json) : String :=
  (((object.entries.find? fun e => Text.sameName e.1 appAttribute).map (·.2)).bind
    Json.string?).getD ""

def jobOfInput (c : Config) (app : Option String) (object : Dict Json) : Except Fault Job := do
  let object := nameApp app object
  let botId := ((c.botId? (namedApp object)).map fun (n : Nat) => toString n).getD ""
  return ⟨← c.catalog.inputs.buildQuestion object.entries botId, "Input"⟩

def withApp (app : Option String) (job : Job) : Job :=
  match job.app?, app with
  | none, some app => { job with question := job.question.set appAttribute (.text app) }
  | _, _ => job

/-- The job of an entry. -/
def jobOfEntry (c : Config) (app : Option String) (path : String) (index : Nat) (entry : Json) :
    Except Report Job := do
  match entry with
  | .obj members =>
    let object : Dict Json := .ofList members
    let job ←
      if object.contains "question" then
        reporting ("Entry " ++ toString index ++ " is not a valid task envelope") (Job.ofJson entry)
      else
        reporting ("Entry " ++ toString index ++ " is not a valid input") (jobOfInput c app object)
    return withApp app job
  | _ => .error ⟨"Entry " ++ toString index ++ " of " ++ path ++ " is not an object", none⟩

def jobsOfEntries (c : Config) (app : Option String) (path : String) :
    Nat → List Json → Except Report (List Job)
  | _, [] => .ok []
  | index, entry :: rest => do
    let job ← jobOfEntry c app path index entry
    return job :: (← jobsOfEntries c app path (index + 1) rest)

def readTasks (files : FileTree) (c : Config) (app : Option String) (path : String) :
    Except Report (List Job) :=
  match files.readText path with
  | .error f => .error ⟨"Failed to read " ++ path, some (explain f)⟩
  | .ok content =>
    match Json.parse? content with
    | none => .error ⟨path ++ " is not valid JSON", none⟩
    | some (.arr entries) => jobsOfEntries c app path 0 entries
    | some entry => jobsOfEntries c app path 0 [entry]

end Playback.CommandLine
