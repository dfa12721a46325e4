import Playback.Config
import Playback.Mapping
/-!
# Expanding a job

The commands of a job are those of its recordings, between the command that sets its parameters and
the one that delivers its results. Which recordings are needed depends on the screen the application
is taken to be on: none yet, another one, or the right one.
-/

namespace Playback

/-- What an engine works with and never changes. -/
structure Setup where
  app : String
  config : Config
  files : FileTree
  env : Dict String
  today : Day

/-- A recording: its kind, and the name of the screen or operation it is for. -/
structure Recording where
  kind : MappingKind
  name : String
  deriving DecidableEq, Repr, Inhabited

structure Expansion where
  operation : String
  commands : List Command
  deriving DecidableEq, Repr, Inhabited

namespace Setup

def mappings (e : Setup) : MappingRoot := ⟨e.config.mappingRoot⟩

def loadRecording (e : Setup) (r : Recording) : Except Fault (List Command) :=
  e.mappings.load e.files e.app r.kind r.name

def previousScreen? (e : Setup) (history : List String) : Option String :=
  history.getLast?.bind e.config.catalog.screenOf?

/-- The recordings that lead from the previous screen through an operation on the given screen. -/
def recordings (previous : Option String) (screen operation : String) : List Recording :=
  match previous with
  | none => [⟨.base, "Base"⟩, ⟨.navigation, screen⟩, ⟨.action, operation⟩]
  | some previous =>
    if previous = screen then [⟨.action, operation⟩]
    else [⟨.goingBack, previous⟩, ⟨.navigation, screen⟩, ⟨.action, operation⟩]

/-- The answers a job starts with: one for each input field, and the chosen operation. -/
def params (e : Setup) (job : Job) (operation : String) : Dict Answer :=
  let fields := e.config.catalog.inputs.fields.filter fun field => !isTimenow field
  let given := Dict.ofList (fields.map fun field =>
    (field, (job.question.get? e.today field).getD .empty))
  given.insert chosenAttribute (.text operation)

def loadAll (e : Setup) : List Recording → Except Fault (List Command)
  | [] => .ok []
  | r :: rest => do
    let first ← e.loadRecording r
    let others ← e.loadAll rest
    return first ++ others

def expand (e : Setup) (history : List String) (job : Job) : Except Fault Expansion := do
  match job.operation? with
  | none => .error (.unknownOperation "Comando has no Action")
  | some operation =>
    match e.config.catalog.get? operation with
    | none => .error (.unknownOperation operation)
    | some feature =>
      let params := e.params job operation
      let recorded ← e.loadAll (recordings (e.previousScreen? history) feature.screen operation)
      return ⟨operation, .paramChange params :: recorded ++ [.webhook params]⟩

end Setup

end Playback
